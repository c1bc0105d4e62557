import OpenPGP.Proofs.Delivery
import OpenPGP.Proofs.Framings
import OpenPGP.Proofs.Limits
import OpenPGP.Proofs.SizeFailures
/-!
# The body limit is exact

A body is limited in two ways. A chunk is refused before it is read if it would take what was read before
beyond the limit; a body without a length is read up to one octet more than the limit and refused if that
comes. `PacketReader.Arrives` says how far reading a packet has come when it meets a length, the first or
the one behind a chunk, so that what happens there can be told: nothing else is refused for its size, and
what is refused was left in the source.

The sums are 64-bit words. A length is of 32 bits, so that the sum of a chunk and of a body that fits into
memory is one as well. One more than the limit is not, for the greatest limit there is: a body without a
length is then not read, and reading gives up.

Results:
* `PacketReader.Arrives.packet_eq`: from a length on, reading goes on with what was read before.
* `PacketReader.tooLarge_iff`, `PacketReader.overflow_iff`: exactly what exceeds the limit is refused for
  its size, and reading gives up under the greatest limit only.
* `PacketReader.next_bodyLimit`: the limit is exact, unless it is the greatest and the body has no length.
* `PacketReader.not_next_greatestLimit`: a body within the greatest limit that is not read.
-/
namespace OpenPGP

open Framed

/-! ## Sources that have enough -/

namespace Source

theorem pullFrom_of_le {n : Nat} {ds : List Delivery} (h : n ≤ (octetsOf ds).length) :
    (pullFrom n ds).1 = (octetsOf ds).take n ∧ (pullFrom n ds).2.1 = .full := by
  fun_induction pullFrom n ds with
  | case1 => exact ⟨rfl, rfl⟩
  | case2 => cases h
  | case3 n ds ih => exact ih h
  | case4 => cases h
  | case5 n piece ds hd later stop rest e ih =>
    have hlen : piece.length ≤ n + 1 := List.drop_eq_nil_iff.mp hd
    rw [octetsOf, List.length_append] at h
    obtain ⟨hlater, hstop⟩ := ih (by omega)
    rw [e] at hlater hstop
    refine ⟨?_, hstop⟩
    rw [octetsOf, List.take_append, List.take_of_length_le hlen, ← hlater]
  | case6 n piece ds hd =>
    have hlen : n + 1 < piece.length := by
      refine Nat.lt_of_not_le fun hle => ?_
      exact absurd (List.drop_eq_nil_iff.mpr hle) (by assumption)
    exact ⟨by rw [octetsOf, List.take_append_of_le_length (Nat.le_of_lt hlen)], rfl⟩

theorem pull_of_le {n : Nat} {s : Source} (h : n ≤ s.octets.length) :
    ∃ s', s.pull n = (s.octets.take n, .full, s') ∧ s'.octets = s.octets.drop n := by
  obtain ⟨hoctets, hstop⟩ := pullFrom_of_le h
  refine ⟨_, Prod.ext hoctets (Prod.ext hstop rfl), ?_⟩
  have hsplit := s.octets_pull n
  rw [show (s.pull n).1 = s.octets.take n from hoctets] at hsplit
  exact List.append_cancel_left (hsplit.trans (List.take_append_drop n s.octets).symm)

end Source

theorem Framed.length_upTo_le {n : Nat} {s s' : Source} {octets : Octets} (h : upTo n s = .ok octets s') :
    octets.length ≤ s.octets.length := by
  obtain ⟨⟨pulled, stop⟩, s₁, hpull, h⟩ := bind_eq_ok.mp h
  have hlength := pull_eq hpull
  cases stop with
  | failed reason => cases h
  | full => cases h; dsimp only at hlength; omega
  | ended => cases h; dsimp only at hlength; omega

/-! ## Lengths -/

namespace BodyLength

/-- The number of octets a length announces, if it announces any. -/
def size? : BodyLength → Option Nat
  | definite n => some n
  | partialLength n => some n
  | indeterminate => none

theorem fixedWidth_lt {width value n : Nat} {s s' : Source} (h : fixedWidth width value s = .ok n s') :
    n < (value + 1) * Nat.pow 256 width := by
  induction width generalizing value s with
  | zero => cases h; simp
  | succ width ih =>
    obtain ⟨b, s₁, -, h⟩ := bind_eq_ok.mp h
    have hb := b.toNat_lt
    have hle : (value * 256 + b.toNat + 1) * Nat.pow 256 width ≤ (value + 1) * 256 * Nat.pow 256 width :=
      Nat.mul_le_mul_right _ (by omega)
    rw [show Nat.pow 256 (width + 1) = 256 * Nat.pow 256 width from Nat.mul_comm _ _, ← Nat.mul_assoc]
    exact Nat.lt_of_lt_of_le (ih h) hle

theorem exists_size_newFormat {length : BodyLength} {s s' : Source} (h : newFormat s = .ok length s') :
    ∃ n, length.size? = some n ∧ n ≤ 0xFFFFFFFF := by
  obtain ⟨first, s₁, -, h⟩ := bind_eq_ok.mp h
  have hfirst := first.toNat_lt
  split at h
  · cases h
    exact ⟨_, rfl, by omega⟩
  split at h
  · obtain ⟨second, s₂, -, h⟩ := bind_eq_ok.mp h
    cases h
    have hsecond := second.toNat_lt
    exact ⟨_, rfl, by omega⟩
  split at h
  · cases h
    refine ⟨_, rfl, ?_⟩
    rw [Nat.one_shiftLeft]
    exact Nat.le_trans (Nat.pow_le_pow_right (by decide) (Nat.le_of_lt_succ (Nat.mod_lt _ (by decide))))
      (by decide)
  · obtain ⟨n, s₂, hn, h⟩ := bind_eq_ok.mp h
    cases h
    have := fixedWidth_lt hn
    exact ⟨_, rfl, by simpa using Nat.le_of_lt_succ this⟩

theorem size_oldFormat_le {type : UInt8} {length : BodyLength} {s s' : Source}
    (h : oldFormat type s = .ok length s') : ∀ n, length.size? = some n → n ≤ 0xFFFFFFFF := by
  have hfixed {width : Nat} (hw : Nat.pow 256 width ≤ 0x100000000)
      (h : (do return definite (← fixedWidth width 0) : Framed BodyLength) s = .ok length s') :
      ∀ n, length.size? = some n → n ≤ 0xFFFFFFFF := by
    obtain ⟨m, s₁, hm, h⟩ := bind_eq_ok.mp h
    cases h
    rintro n ⟨⟩
    have := fixedWidth_lt hm
    omega
  unfold oldFormat at h
  split at h
  · exact hfixed (by decide) h
  · exact hfixed (by decide) h
  · exact hfixed (by decide) h
  · cases h
    rintro n ⟨⟩

end BodyLength

theorem PacketHeader.size_read_le {header : PacketHeader} {s s' : Source}
    (h : read s = .ok (some header) s') {n : Nat} (hn : header.length.size? = some n) :
    n ≤ 0xFFFFFFFF := by
  obtain ⟨first, s₁, -, h⟩ := bind_eq_ok.mp h
  cases first with
  | none => cases h
  | some first =>
  obtain ⟨header', s₂, hfirst, h⟩ := bind_eq_ok.mp h
  cases h
  have hchecked {read : PacketHeader} {s : Source} (h : checked read s = .ok header s') :
      read = header := by
    unfold checked at h
    split at h <;> cases h
    rfl
  unfold ofFirst at hfirst
  split at hfirst
  · cases hfirst
  split at hfirst
  · obtain ⟨read, s₃, hread, hfirst⟩ := bind_eq_ok.mp hfirst
    obtain rfl := hchecked hfirst
    obtain ⟨length, s₄, hlength, hread⟩ := bind_eq_ok.mp hread
    cases hread
    exact BodyLength.size_oldFormat_le hlength n hn
  · obtain ⟨read, s₃, hread, hfirst⟩ := bind_eq_ok.mp hfirst
    obtain rfl := hchecked hfirst
    obtain ⟨length, s₄, hlength, hread⟩ := bind_eq_ok.mp hread
    split at hread
    · cases hread
    · cases hread
      obtain ⟨m, hm, hle⟩ := BodyLength.exists_size_newFormat hlength
      rw [show length.size? = some n from hn] at hm
      cases hm
      exact hle

/-! ## Bodies -/

namespace PacketBody

variable {limit : UInt64}

/-- The rest of a body, from a length on that was read behind the octets before. -/
def resume (limit : UInt64) (before : Octets) : BodyLength → Framed Octets
  | .definite n => do return before ++ (← chunk limit before.length n)
  | .partialLength n => do parts limit ((← get).octets.length + 1) before n
  | .indeterminate => read limit .indeterminate

theorem read_eq_resume (limit : UInt64) (length : BodyLength) : read limit length = resume limit [] length := by
  cases length with
  | definite n => exact (bind_pure (chunk limit 0 n)).symm
  | partialLength n => rfl
  | indeterminate => rfl

theorem resume_partialLength {before octets : Octets} {n : Nat} {next : BodyLength} {s s₁ s₂ : Source}
    (hc : chunk limit before.length n s = .ok octets s₁) (hl : BodyLength.newFormat s₁ = .ok next s₂) :
    resume limit before (.partialLength n) s = resume limit (before ++ octets) next s₂ := by
  have h₁ := shrinking_chunk _ _ _ _ _ _ hc
  have h₂ := BodyLength.length_newFormat_lt hl
  have hparts : resume limit before (.partialLength n) s =
      parts limit (s.octets.length + 1) before n s := rfl
  rw [hparts]
  simp only [parts, Bind.bind, EStateM.bind, hc, hl]
  cases next with
  | definite m => rfl
  | partialLength m => exact parts_of_lt limit (by omega) (Nat.lt_succ_self _) _ _
  | indeterminate =>
    obtain ⟨m, hm, -⟩ := BodyLength.exists_size_newFormat hl
    cases hm

/-- What would go beyond the limit is refused before any of it is read. -/
theorem resume_of_exceeds {before : Octets} {length : BodyLength} {n : Nat} (hn : length.size? = some n)
    (h : limit.toNat < before.length + n) (s : Source) :
    resume limit before length s = .error (.tooLarge (before.length + n) limit.toNat) s := by
  have hchunk : chunk limit before.length n s = .error (.tooLarge (before.length + n) limit.toNat) s := by
    rw [chunk, if_pos h]
    rfl
  cases length with
  | definite m =>
    cases hn
    simp only [resume, Bind.bind, EStateM.bind, hchunk]
  | partialLength m =>
    cases hn
    have hparts : resume limit before (.partialLength n) s =
        parts limit (s.octets.length + 1) before n s := rfl
    rw [hparts]
    simp only [parts, Bind.bind, EStateM.bind, hchunk]
  | indeterminate => cases hn

/-- The greatest limit there is. -/
def greatestLimit : UInt64 := 0xFFFFFFFFFFFFFFFF

theorem toNat_lt_of_ne_greatest (h : limit ≠ greatestLimit) : limit.toNat < 0xFFFFFFFFFFFFFFFF :=
  Nat.lt_of_le_of_ne (Nat.le_of_lt_succ limit.toNat_lt) fun e => h (UInt64.toNat_inj.mp e)

/-- Under the greatest limit reading gives up before it asks for anything. -/
theorem read_greatestLimit (s : Source) : read greatestLimit .indeterminate s = .error .overflow s := by
  unfold read rest
  rw [if_pos (by decide)]
  rfl

/-- A body without a length that is longer than the limit is refused, and one octet more than the limit
is gone. -/
theorem read_indeterminate_of_lt {s : Source} (h : limit ≠ greatestLimit)
    (hlt : limit.toNat < s.octets.length) : ∃ s', s'.octets = s.octets.drop (limit.toNat + 1) ∧
      s.pull (limit.toNat + 1) = (s.octets.take (limit.toNat + 1), .full, s') ∧
      read limit .indeterminate s = .error (.tooLarge (limit.toNat + 1) limit.toNat) s' := by
  obtain ⟨s', hpull, hs'⟩ := Source.pull_of_le hlt
  refine ⟨s', hs', hpull, ?_⟩
  have hlength : (s.octets.take (limit.toNat + 1)).length = limit.toNat + 1 := List.length_take_of_le hlt
  have hupTo : upTo (limit.toNat + 1) s = .ok (s.octets.take (limit.toNat + 1)) s' := by
    simp only [upTo, pull, Bind.bind, EStateM.bind, hpull]
    rfl
  rw [read, rest_of_lt (toNat_lt_of_ne_greatest h)]
  simp only [Bind.bind, EStateM.bind, hupTo, hlength, if_pos (Nat.lt_succ_self _)]
  rfl

/-- A body without a length fails for its size only if it is longer than the limit, or if the limit is the
greatest. -/
theorem read_indeterminate_aboutSize {s s' : Source} {error : PacketError}
    (h : read limit .indeterminate s = .error error s') (he : error.IsAboutSize) :
    (limit ≠ greatestLimit ∧ limit.toNat < s.octets.length) ∨
      (limit = greatestLimit ∧ error = .overflow ∧ s' = s) := by
  by_cases hne : limit = greatestLimit
  · subst hne
    rw [read_greatestLimit] at h
    cases h
    exact .inr ⟨rfl, rfl, rfl⟩
  refine .inl ⟨hne, Nat.lt_of_not_le fun hle => ?_⟩
  rw [read, rest_of_lt (toNat_lt_of_ne_greatest hne)] at h
  obtain h | ⟨body, s₁, hbody, h⟩ := bind_eq_error.mp h
  · exact compositional_sizeless.upTo _ _ _ _ h he
  · have hbody := length_upTo_le hbody
    rw [if_neg (by omega)] at h
    cases h

/-- A chunk fails for its size only if it goes beyond the limit, and before it is read. -/
theorem chunk_aboutSize {n m : Nat} {s s' : Source} {error : PacketError}
    (h : chunk limit m n s = .error error s') (he : error.IsAboutSize) :
    limit.toNat < m + n ∧ error = .tooLarge (m + n) limit.toNat ∧ s' = s := by
  unfold chunk at h
  split at h
  · next hlt => cases h; exact ⟨hlt, rfl, rfl⟩
  · exact absurd he (compositional_sizeless.exactly _ _ _ _ h)

end PacketBody

/-! ## Packets -/

namespace PacketReader

variable {limit : UInt64} {s : Source} {tag : UInt8}

/-- Reading a packet with a tag off a source has come to a length: what was read of the body before it, and
the source behind it. -/
inductive Arrives (limit : UInt64) (s : Source) (tag : UInt8) : Octets → BodyLength → Source → Prop
  | header {length : BodyLength} {s' : Source}
      (h : PacketHeader.read s = .ok (some ⟨tag, length⟩) s') : Arrives limit s tag [] length s'
  | chunk {before octets : Octets} {n : Nat} {next : BodyLength} {s₁ s₂ s₃ : Source}
      (h : Arrives limit s tag before (.partialLength n) s₁)
      (hc : PacketBody.chunk limit before.length n s₁ = .ok octets s₂)
      (hl : BodyLength.newFormat s₂ = .ok next s₃) : Arrives limit s tag (before ++ octets) next s₃

/-- What is said by a body that was read. -/
def decoded (tag : UInt8) (body : Octets) : Framed (Option Packet) :=
  match Packet.decode tag body with
  | .ok packet => return some packet
  | .error error => throw error

variable {before : Octets} {length : BodyLength} {s' : Source}

theorem packet_of_header (h : PacketHeader.read s = .ok (some ⟨tag, length⟩) s') :
    packet limit s = (PacketBody.read limit length >>= decoded tag) s' := by
  simp only [packet, Bind.bind, EStateM.bind, h]
  rfl

/-- From a length on, reading goes on with what was read before it. -/
theorem Arrives.packet_eq (h : Arrives limit s tag before length s') :
    packet limit s = (PacketBody.resume limit before length >>= decoded tag) s' := by
  induction h with
  | header h => rw [packet_of_header h, PacketBody.read_eq_resume]
  | chunk h hc hl ih =>
    rw [ih]
    simp only [Bind.bind, EStateM.bind, PacketBody.resume_partialLength hc hl]

theorem Arrives.length_le (h : Arrives limit s tag before length s') : before.length ≤ limit.toNat := by
  cases h with
  | header h => exact Nat.zero_le _
  | chunk h hc hl =>
    rw [List.length_append]
    exact PacketBody.length_chunk_le hc

theorem Arrives.size_le (h : Arrives limit s tag before length s') {n : Nat}
    (hn : length.size? = some n) : n ≤ 0xFFFFFFFF := by
  cases h with
  | header h => exact PacketHeader.size_read_le h hn
  | chunk h hc hl =>
    obtain ⟨m, hm, hle⟩ := BodyLength.exists_size_newFormat hl
    rw [hn] at hm
    cases hm
    exact hle

/-- A body goes beyond the limit: the size that is reported, and what is left of the source. A chunk is
still there, and of a body without a length one octet more than the limit is gone. -/
inductive Exceeds (limit : UInt64) (s : Source) : (total : Nat) → (left : Source) → Prop
  | chunk {tag : UInt8} {before : Octets} {length : BodyLength} {n : Nat} {s' : Source}
      (h : Arrives limit s tag before length s') (hn : length.size? = some n)
      (hlimit : limit.toNat < before.length + n) : Exceeds limit s (before.length + n) s'
  | rest {tag : UInt8} {before : Octets} {s₁ s' : Source}
      (h : Arrives limit s tag before .indeterminate s₁) (hlimit : limit ≠ PacketBody.greatestLimit)
      (hlength : limit.toNat < s₁.octets.length)
      (hs : s₁.pull (limit.toNat + 1) = (s₁.octets.take (limit.toNat + 1), .full, s')) :
      Exceeds limit s (limit.toNat + 1) s'

/-- Reading gives up: the limit is the greatest, and a body has no length. All of the body is left. -/
def Overflows (limit : UInt64) (s left : Source) : Prop :=
  limit = PacketBody.greatestLimit ∧ ∃ tag before, Arrives limit s tag before .indeterminate left

variable {total most : Nat} {left : Source} {error : PacketError}

theorem Exceeds.packet_eq (h : Exceeds limit s total left) :
    packet limit s = .error (.tooLarge total limit.toNat) left := by
  cases h with
  | chunk h hn hlimit =>
    rw [h.packet_eq]
    simp only [Bind.bind, EStateM.bind, PacketBody.resume_of_exceeds hn hlimit]
  | rest h hlimit hlength hs =>
    obtain ⟨s', -, hpull, hread⟩ := PacketBody.read_indeterminate_of_lt hlimit hlength
    obtain rfl : s' = left := congrArg (·.2.2) (hpull.symm.trans hs)
    rw [h.packet_eq]
    simp only [Bind.bind, EStateM.bind, PacketBody.resume, hread]

theorem Overflows.packet_eq (h : Overflows limit s left) : packet limit s = .error .overflow left := by
  obtain ⟨rfl, tag, before, h⟩ := h
  rw [h.packet_eq]
  simp only [Bind.bind, EStateM.bind, PacketBody.resume, PacketBody.read_greatestLimit]

/-- A failure that is about a size, and where it leaves the source. -/
def FailsForSize (limit : UInt64) (s : Source) (error : PacketError) (left : Source) : Prop :=
  (∃ total, error = .tooLarge total limit.toNat ∧ Exceeds limit s total left) ∨
    (error = .overflow ∧ Overflows limit s left)

/-- What is left of a body fails for its size only where it goes beyond the limit, or reading gives up. -/
theorem Arrives.failsForSize (h : Arrives limit s tag before length s')
    (hr : PacketBody.resume limit before length s' = .error error left) (he : error.IsAboutSize) :
    FailsForSize limit s error left := by
  have hchunk {before : Octets} {length : BodyLength} {n : Nat} {s' : Source}
      (h : Arrives limit s tag before length s') (hn : length.size? = some n)
      (hr : PacketBody.chunk limit before.length n s' = .error error left) :
      FailsForSize limit s error left := by
    obtain ⟨hlt, rfl, rfl⟩ := PacketBody.chunk_aboutSize hr he
    exact .inl ⟨_, rfl, .chunk h hn hlt⟩
  -- by the octets that are left: every length takes one at least
  generalize hk : s'.octets.length = k
  induction k using Nat.strongRecOn generalizing before length s' with
  | ind k ih =>
    cases length with
    | definite n =>
      obtain hr | ⟨octets, s₁, -, hr⟩ := bind_eq_error.mp hr
      · exact hchunk h rfl hr
      · cases hr
    | partialLength n =>
      have hparts : PacketBody.parts limit (s'.octets.length + 1) before n s' = .error error left := hr
      obtain hr' | ⟨octets, s₁, hc, hr'⟩ := bind_eq_error.mp hparts
      · exact hchunk h rfl hr'
      obtain hr' | ⟨next, s₂, hl, -⟩ := bind_eq_error.mp hr'
      · exact absurd he (compositional_sizeless.newFormat _ _ _ hr')
      have h₁ := PacketBody.shrinking_chunk _ _ _ _ _ _ hc
      have h₂ := BodyLength.length_newFormat_lt hl
      rw [PacketBody.resume_partialLength hc hl] at hr
      exact ih _ (by omega) (h.chunk hc hl) hr rfl
    | indeterminate =>
      obtain ⟨hne, hlt⟩ | ⟨hlimit, rfl, rfl⟩ := PacketBody.read_indeterminate_aboutSize hr he
      · obtain ⟨s₁, -, hpull, hread⟩ := PacketBody.read_indeterminate_of_lt hne hlt
        cases hread.symm.trans hr
        exact .inl ⟨_, rfl, .rest h hne hlt hpull⟩
      · exact .inr ⟨rfl, hlimit, tag, before, h⟩

theorem not_isAboutSize_of_decoded {body : Octets} {s s' : Source}
    (h : decoded tag body s = .error error s') : ¬ error.IsAboutSize := by
  unfold decoded at h
  cases hdecode : Packet.decode tag body with
  | ok packet => rw [hdecode] at h; cases h
  | error error => rw [hdecode] at h; cases h; exact Packet.decode_sizeless hdecode

/-- **Nothing else fails for a size.** -/
theorem failsForSize_of_next (h : next ⟨s, limit⟩ = (.error error, ⟨left, limit⟩)) (he : error.IsAboutSize) :
    FailsForSize limit s error left := by
  have hpacket : packet limit s = .error error left := by
    unfold next at h
    cases hp : packet limit s with
    | ok packet s' => rw [hp] at h; cases h
    | error error s' => rw [hp] at h; cases h; rfl
  obtain h | ⟨header, s₁, hheader, hrest⟩ := bind_eq_error.mp hpacket
  · exact absurd he (compositional_sizeless.header _ _ _ h)
  cases header with
  | none => cases hrest
  | some header =>
    have harrives : Arrives limit s header.tag [] header.length s₁ := .header hheader
    rw [harrives.packet_eq] at hpacket
    obtain h | ⟨body, s₂, -, h⟩ := bind_eq_error.mp hpacket
    · exact harrives.failsForSize h he
    · exact absurd he (not_isAboutSize_of_decoded h)

/-- **Exactly what goes beyond the limit** is refused for its size. -/
theorem tooLarge_iff : next ⟨s, limit⟩ = (.error (.tooLarge total most), ⟨left, limit⟩) ↔
    most = limit.toNat ∧ Exceeds limit s total left := by
  constructor
  · intro h
    obtain ⟨_, ⟨⟩, hexceeds⟩ | ⟨⟨⟩, -⟩ := failsForSize_of_next h trivial
    exact ⟨rfl, hexceeds⟩
  · rintro ⟨rfl, h⟩
    rw [next, h.packet_eq]

/-- **Reading gives up** exactly under the greatest limit, at a body without a length. -/
theorem overflow_iff :
    next ⟨s, limit⟩ = (.error .overflow, ⟨left, limit⟩) ↔ Overflows limit s left := by
  constructor
  · intro h
    obtain ⟨_, ⟨⟩, -⟩ | ⟨-, hoverflows⟩ := failsForSize_of_next h trivial
    exact hoverflows
  · intro h
    rw [next, h.packet_eq]

theorem Arrives.next_eq (h : Arrives limit s tag before length s') {body : Octets}
    (hb : PacketBody.resume limit before length s' = .ok body left) :
    next ⟨s, limit⟩ = ((Packet.decode tag body).map some, ⟨left, limit⟩) := by
  rw [next, h.packet_eq]
  simp only [Bind.bind, EStateM.bind, hb, decoded]
  cases Packet.decode tag body <;> rfl

theorem body_of_next {p : Packet} {r : PacketReader} (h : next ⟨s, limit⟩ = (.ok (some p), r)) :
    ∃ header s₁ body, PacketHeader.read s = .ok (some header) s₁ ∧
      PacketBody.read limit header.length s₁ = .ok body r.source ∧ Packet.decode header.tag body = .ok p := by
  unfold next at h
  cases hp : packet limit s with
  | error error s' => rw [hp] at h; cases h
  | ok packet s' =>
    rw [hp] at h
    cases h
    obtain ⟨header, s₁, hheader, hrest⟩ := bind_eq_ok.mp hp
    cases header with
    | none => cases hrest
    | some header =>
      obtain ⟨body, s₂, hbody, hrest⟩ := bind_eq_ok.mp hrest
      cases hdecode : Packet.decode header.tag body with
      | error error => rw [hdecode] at hrest; cases hrest
      | ok packet =>
        rw [hdecode] at hrest
        cases hrest
        exact ⟨header, s₁, body, hheader, hbody, hdecode⟩

/-- **The body limit is exact.** A packet that is given was read off a body within the limit. Where a length
is met, what was read before it is within the limit, the sum of both is the sum of 64-bit words (no body in
memory has 2^63 octets), and a sum beyond the limit is refused with everything behind the length still in
the source. A body without a length is read to the end if it is within the limit, and is refused after one
octet more than the limit if it is not. Nothing else is refused for its size. One limit is an exception:
there is no number one greater than the greatest, so that reading gives up at a body without a length, and
nowhere else and under no other limit. -/
theorem next_bodyLimit (limit : UInt64) (s : Source) :
    (∀ p r, next ⟨s, limit⟩ = (.ok (some p), r) → ∃ header s₁ body,
      PacketHeader.read s = .ok (some header) s₁ ∧
      PacketBody.read limit header.length s₁ = .ok body r.source ∧
      Packet.decode header.tag body = .ok p ∧ body.length ≤ limit.toNat) ∧
    (∀ tag before length n s', Arrives limit s tag before length s' → length.size? = some n →
      before.length ≤ limit.toNat ∧
      (before.length < 0x8000000000000000 →
        (UInt64.ofNat before.length + UInt64.ofNat n).toNat = before.length + n) ∧
      (limit.toNat < before.length + n →
        next ⟨s, limit⟩ = (.error (.tooLarge (before.length + n) limit.toNat), ⟨s', limit⟩))) ∧
    (limit ≠ PacketBody.greatestLimit → limit.toNat + 1 < UInt64.size ∧
      ∀ tag before s₁, Arrives limit s tag before .indeterminate s₁ →
        (∀ body, s₁.Delivers body → body.length ≤ limit.toNat →
          ∃ s', next ⟨s, limit⟩ = ((Packet.decode tag body).map some, ⟨s', limit⟩) ∧ s'.Delivers []) ∧
        (limit.toNat < s₁.octets.length →
          ∃ s', next ⟨s, limit⟩ = (.error (.tooLarge (limit.toNat + 1) limit.toNat), ⟨s', limit⟩) ∧
            s'.octets = s₁.octets.drop (limit.toNat + 1))) ∧
    (∀ total most left, next ⟨s, limit⟩ = (.error (.tooLarge total most), ⟨left, limit⟩) ↔
      most = limit.toNat ∧ Exceeds limit s total left) ∧
    ∀ left, next ⟨s, limit⟩ = (.error .overflow, ⟨left, limit⟩) ↔
      limit = PacketBody.greatestLimit ∧ ∃ tag before, Arrives limit s tag before .indeterminate left := by
  refine ⟨fun p r h => ?_, fun tag before length n s' h hn => ⟨h.length_le, fun hmemory => ?_, fun hlt => ?_⟩,
    fun hne => ⟨Nat.succ_lt_succ (PacketBody.toNat_lt_of_ne_greatest hne),
      fun tag before s₁ h => ⟨fun body hs hle => ?_, fun hlt => ?_⟩⟩, fun total most left => tooLarge_iff,
    fun left => overflow_iff⟩
  · obtain ⟨header, s₁, body, hheader, hbody, hdecode⟩ := body_of_next h
    exact ⟨header, s₁, body, hheader, hbody, hdecode, PacketBody.length_read_le hbody⟩
  · have hle := h.size_le hn
    rw [UInt64.toNat_add, UInt64.toNat_ofNat', UInt64.toNat_ofNat']
    omega
  · exact tooLarge_iff.mpr ⟨rfl, .chunk h hn hlt⟩
  · have hlimit := PacketBody.toNat_lt_of_ne_greatest hne
    have hcarries : PacketBody.Carries [] .indeterminate body body := .indeterminate body rfl
    rw [← List.append_nil body] at hs
    obtain ⟨s', hread, hs'⟩ := hcarries.reads hle hlimit s₁ hs
    exact ⟨s', h.next_eq hread, hs'⟩
  · obtain ⟨s', hs', hpull, -⟩ := PacketBody.read_indeterminate_of_lt hne hlt
    exact ⟨s', tooLarge_iff.mpr ⟨rfl, .rest h hne hlt hpull⟩, hs'⟩

/-- Under a limit of four octets: four are read and one more is refused and left; six without a length are
refused after five; four are a packet. -/
theorem next_bodyLimit_four :
    (∃ s s', s = .ofOctets [0xC9, 0xE2, 1, 2, 3, 4, 1, 5] ∧ s' = .ofOctets [5] ∧
      Arrives 4 s 9 [1, 2, 3, 4] (.definite 1) s' ∧ (BodyLength.definite 1).size? = some 1 ∧
      (4 : UInt64).toNat < 4 + 1 ∧ next ⟨s, 4⟩ = (.error (.tooLarge 5 4), ⟨s', 4⟩)) ∧
    (∃ s s₁, s = .ofOctets [0xA7, 1, 2, 3, 4, 5, 6] ∧ (4 : UInt64) ≠ PacketBody.greatestLimit ∧
      Arrives 4 s 9 [] .indeterminate s₁ ∧ (4 : UInt64).toNat < s₁.octets.length ∧
      ∃ s', next ⟨s, 4⟩ = (.error (.tooLarge 5 4), ⟨s', 4⟩) ∧ s'.octets = [6]) ∧
    (∃ s s₁ r, s = .ofOctets [0xA7, 1, 2, 3, 4] ∧ Arrives 4 s 9 [] .indeterminate s₁ ∧
      s₁.Delivers [1, 2, 3, 4] ∧ next ⟨s, 4⟩ = (.ok (some (.unprotectedData [1, 2, 3, 4])), r) ∧
      r.source.Delivers []) := by
  have hfirst : Arrives 4 (.ofOctets [0xC9, 0xE2, 1, 2, 3, 4, 1, 5]) 9 [] (.partialLength 4)
      (.ofOctets [1, 2, 3, 4, 1, 5]) := .header rfl
  have hchunk : PacketBody.chunk 4 0 4 (.ofOctets [1, 2, 3, 4, 1, 5]) =
      .ok [1, 2, 3, 4] (.ofOctets [1, 5]) := rfl
  have hchunks : Arrives 4 (.ofOctets [0xC9, 0xE2, 1, 2, 3, 4, 1, 5]) 9 ([] ++ [1, 2, 3, 4]) (.definite 1)
      (.ofOctets [5]) := hfirst.chunk hchunk rfl
  have hlong : Arrives 4 (.ofOctets [0xA7, 1, 2, 3, 4, 5, 6]) 9 [] .indeterminate
      (.ofOctets [1, 2, 3, 4, 5, 6]) := .header rfl
  have hwhole : Arrives 4 (.ofOctets [0xA7, 1, 2, 3, 4]) 9 [] .indeterminate (.ofOctets [1, 2, 3, 4]) :=
    .header rfl
  have hdelivers := Source.delivers_ofOctets [1, 2, 3, 4]
  refine ⟨⟨_, _, rfl, rfl, hchunks, rfl, by decide, ?_⟩, ⟨_, _, rfl, by decide, hlong, by decide, ?_⟩, ?_⟩
  · exact ((next_bodyLimit 4 _).2.1 9 _ _ 1 _ hchunks rfl).2.2 (by decide)
  · exact (((next_bodyLimit 4 _).2.2.1 (by decide)).2 9 _ _ hlong).2 (by decide)
  · obtain ⟨s', hnext, hs'⟩ :=
      (((next_bodyLimit 4 _).2.2.1 (by decide)).2 9 _ _ hwhole).1 _ hdelivers (by decide)
    exact ⟨_, _, _, rfl, hwhole, hdelivers, hnext, hs'⟩

/-- **A body within the greatest limit is not read** if it has no length: reading literal data with the text
`abc` gives up, although the body is within the limit and well formed. -/
theorem not_next_greatestLimit :
    ∃ s s₁ body p, s = .ofOctets [0xAF, 0x62, 0, 0, 0, 0, 0, 0x61, 0x62, 0x63] ∧
      body = [0x62, 0, 0, 0, 0, 0, 0x61, 0x62, 0x63] ∧
      Arrives PacketBody.greatestLimit s 11 [] .indeterminate s₁ ∧
      s₁.Delivers body ∧ body.length ≤ PacketBody.greatestLimit.toNat ∧ Packet.decode 11 body = .ok p ∧
      ¬ (∃ s', next ⟨s, PacketBody.greatestLimit⟩ = (.ok (some p), ⟨s', PacketBody.greatestLimit⟩)) ∧
      next ⟨s, PacketBody.greatestLimit⟩ = (.error .overflow, ⟨s₁, PacketBody.greatestLimit⟩) ∧
      UInt64.size ≤ PacketBody.greatestLimit.toNat + 1 := by
  have harrives : Arrives PacketBody.greatestLimit
      (.ofOctets [0xAF, 0x62, 0, 0, 0, 0, 0, 0x61, 0x62, 0x63]) 11 [] .indeterminate
      (.ofOctets [0x62, 0, 0, 0, 0, 0, 0x61, 0x62, 0x63]) := .header rfl
  have hnext := overflow_iff.mpr ⟨rfl, 11, [], harrives⟩
  refine ⟨_, _, _, .literalData ⟨.binary, [], 0, [0x61, 0x62, 0x63]⟩, rfl, rfl, harrives,
    Source.delivers_ofOctets _, by decide, rfl, ?_, hnext, by decide⟩
  rintro ⟨s', h⟩
  rw [hnext] at h
  cases h

end PacketReader

end OpenPGP
