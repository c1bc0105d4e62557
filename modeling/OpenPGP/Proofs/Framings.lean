import OpenPGP.Proofs.Wire
/-!
# All framings of a body

One body has many wire forms. A new-format header says its length in one, two or
five octets, in the fewest or not, or, for the kinds of data, cuts it into chunks
whose sizes are powers of two. An old-format header says its length in one, two
or four octets, or not at all where nothing follows. `Framing` lists them all,
from the octets of lengths (`BodyLength.Writes`, `BodyLength.WritesOld`) over
headers (`PacketHeader.Writes`) to bodies (`PacketBody.Carries`). Whichever it
is, the reader decodes the same body and stops at the octet behind it.

A header that stands for no packet is refused as soon as its octets are there.

Results:
* `PacketHeader.Writes.reads`, `PacketHeader.Writes.refuses`: headers that are read, and those that
  are refused.
* `PacketBody.Carries.reads`: a body is put together from its chunks.
* `PacketReader.next_of_framing`: packets.
-/
namespace OpenPGP

open Framed

/-! ## Refusals -/

namespace Framed

variable {α β : Type} {octets between : Octets} {error : PacketError}

/-- A read off the front of some octets fails. -/
def Refuses (m : Framed α) (octets : Octets) (error : PacketError) : Prop :=
  ∀ s, s.Delivers octets → ∃ s', m s = .error error s'

theorem refuses_throw (error : PacketError) : Refuses (throw error : Framed α) octets error :=
  fun s _ => ⟨s, rfl⟩

theorem Refuses.bind {m : Framed α} (h : Refuses m octets error) (f : α → Framed β) :
    Refuses (m >>= f) octets error := by
  intro s hs
  obtain ⟨s', h'⟩ := h s hs
  exact ⟨s', by simp only [Bind.bind, EStateM.bind, h']⟩

theorem Reads.refuses {m : Framed α} {f : α → Framed β} {a : α} (hm : Reads m octets a between)
    (hf : Refuses (f a) between error) : Refuses (m >>= f) octets error := by
  intro s hs
  obtain ⟨s₁, h₁, hs₁⟩ := hm s hs
  obtain ⟨s₂, h₂⟩ := hf s₁ hs₁
  exact ⟨s₂, by simp only [Bind.bind, EStateM.bind, h₁, h₂]⟩

end Framed

/-! ## Headers -/

/-- The octets of an old-format length behind a length type. -/
inductive BodyLength.WritesOld : (type : UInt8) → BodyLength → Octets → Prop
  | one {length : Nat} (h : length ≤ 0xFF) :
      WritesOld 0 (.definite length) (Octets.bigEndian 1 length)
  | two {length : Nat} (h : length ≤ 0xFFFF) :
      WritesOld 1 (.definite length) (Octets.bigEndian 2 length)
  | four {length : Nat} (h : length ≤ 0xFFFFFFFF) :
      WritesOld 2 (.definite length) (Octets.bigEndian 4 length)
  | indeterminate : WritesOld 3 .indeterminate []

namespace BodyLength

variable {type : UInt8} {length : BodyLength} {octets : Octets}

theorem WritesOld.reads (h : WritesOld type length octets) (rest : Octets) :
    Reads (oldFormat type) (octets ++ rest) length rest := by
  have hfixed {width n limit : Nat} (hn : n ≤ limit) (hlimit : limit < Nat.pow 256 width) :
      Reads (do return definite (← fixedWidth width 0)) (Octets.bigEndian width n ++ rest)
        (definite n) rest :=
    (reads_fixedWidth_bigEndian (Nat.lt_of_le_of_lt hn hlimit) rest).bind (Reads.pure _)
  cases h with
  | one h => exact hfixed h (by decide)
  | two h => exact hfixed h (by decide)
  | four h => exact hfixed h (by decide)
  | indeterminate => exact Reads.pure _

theorem WritesOld.type_lt (h : WritesOld type length octets) : type.toNat < 4 := by
  cases h <;> decide

theorem WritesOld.not_isPartial (h : WritesOld type length octets) : length.isPartial = false := by
  cases h <;> rfl

end BodyLength

namespace PacketHeader

/-- The octets of a header with a tag and a length, in either format. -/
inductive Writes : (tag : UInt8) → BodyLength → Octets → Prop
  | newFormat {tag : UInt8} {length : BodyLength} {octets : Octets} (ht : tag.toNat < 64)
      (h : length.Writes octets) : Writes tag length ((0xC0 ||| tag) :: octets)
  | oldFormat {tag type : UInt8} {length : BodyLength} {octets : Octets} (ht : tag.toNat < 16)
      (h : length.WritesOld type octets) :
      Writes tag length (((0x80 : UInt8) ||| tag <<< 2 ||| type) :: octets)

/-- The four kinds of data, which may come in chunks. -/
def dataTags : List UInt8 := [8, 9, 11, 18]

theorem allowsPartialLength_iff (tag : UInt8) : Packet.allowsPartialLength tag = true ↔ tag ∈ dataTags := by
  simp [Packet.allowsPartialLength, dataTags, or_assoc]

theorem oldTagOctet {tag type : UInt8} (ht : tag.toNat < 16) (h : type.toNat < 4) {first : UInt8}
    (hfirst : first = (0x80 : UInt8) ||| tag <<< 2 ||| type) : first &&& 0x80 ≠ 0 ∧ first &&& 0x40 = 0 ∧
      (first >>> 2) &&& 0x0F = tag ∧ first &&& 0x03 = type := by
  have all : ∀ (n : Fin 16) (k : Fin 4) (first : UInt8),
      first = (0x80 : UInt8) ||| UInt8.ofNat n <<< 2 ||| UInt8.ofNat k → first &&& 0x80 ≠ 0 ∧
        first &&& 0x40 = 0 ∧ (first >>> 2) &&& 0x0F = UInt8.ofNat n ∧
        first &&& 0x03 = UInt8.ofNat k := by
    simp only [forall_eq]
    decide
  simpa [hfirst] using all ⟨tag.toNat, ht⟩ ⟨type.toNat, h⟩ first

/-- The header that begins with an octet, before the reserved tag is looked for. -/
def ofFormat (first : UInt8) : Framed PacketHeader :=
  if first &&& 0x40 = 0 then oldFormat first else newFormat first

theorem ofFirst_eq {first : UInt8} (h : first &&& 0x80 ≠ 0) :
    ofFirst first = ofFormat first >>= checked := by
  rw [ofFirst, if_neg h, ofFormat]
  split <;> rfl

variable {tag : UInt8} {length : BodyLength} {octets : Octets}

/-- Only what has a partial length is refused for its length. -/
theorem Writes.ofFormat (h : Writes tag length octets) : ∃ first behind, octets = first :: behind ∧
    first &&& 0x80 ≠ 0 ∧ ∀ rest,
      (length.isPartial = true → tag ∉ dataTags →
        Refuses (ofFormat first) (behind ++ rest) (.invalidHeader .partialLength)) ∧
      ((length.isPartial = true → tag ∈ dataTags) →
        Reads (ofFormat first) (behind ++ rest) ⟨tag, length⟩ rest) := by
  cases h with
  | @newFormat _ behind ht h =>
    obtain ⟨hhigh, hnew, hmask⟩ := tagOctet ht
    refine ⟨_, behind, rfl, hhigh, fun rest => ⟨fun hpartial htag => ?_, fun htag => ?_⟩⟩ <;>
      rw [PacketHeader.ofFormat, if_neg hnew]
    · apply (h.reads rest).refuses
      rw [hmask, if_pos (by simp [hpartial, Bool.eq_false_iff, allowsPartialLength_iff, htag])]
      exact refuses_throw _
    · exact reads_newFormat ht h (by simpa [allowsPartialLength_iff] using htag) rest
  | @oldFormat _ _ behind ht h =>
    obtain ⟨hhigh, hold, hmask, htype⟩ := oldTagOctet ht h.type_lt rfl
    refine ⟨_, behind, rfl, hhigh, fun rest => ⟨fun hpartial => ?_, fun _ => ?_⟩⟩
    · rw [h.not_isPartial] at hpartial
      cases hpartial
    · rw [PacketHeader.ofFormat, if_pos hold, PacketHeader.oldFormat, htype, hmask]
      exact (h.reads rest).bind (Reads.pure _)

/-- A header of a packet is read, whatever follows. -/
theorem Writes.reads (h : Writes tag length octets) (hpos : tag ≠ 0)
    (htag : length.isPartial = true → tag ∈ dataTags) (rest : Octets) :
    Reads read (octets ++ rest) (some ⟨tag, length⟩) rest := by
  obtain ⟨first, behind, rfl, hhigh, h⟩ := h.ofFormat
  refine (reads_octet?_cons first).bind (Reads.bind ?_ (Reads.pure _))
  rw [ofFirst_eq hhigh]
  apply ((h rest).2 htag).bind
  rw [checked, if_neg hpos]
  exact Reads.pure _

/-- What is wrong with a header of a length that no packet has. -/
def defectOf (tag : UInt8) (length : BodyLength) : HeaderDefect :=
  if length.isPartial = true ∧ tag ∉ dataTags then .partialLength else .reservedTag

/-- A header of no packet is refused, whatever follows. -/
theorem Writes.refuses (h : Writes tag length octets)
    (hbad : tag = 0 ∨ length.isPartial = true ∧ tag ∉ dataTags) (rest : Octets) :
    Refuses read (octets ++ rest) (.invalidHeader (defectOf tag length)) := by
  obtain ⟨first, behind, rfl, hhigh, h⟩ := h.ofFormat
  refine (reads_octet?_cons first).refuses (Refuses.bind ?_ _)
  rw [ofFirst_eq hhigh, defectOf]
  split
  · next hpartial => exact ((h rest).1 hpartial.1 hpartial.2).bind _
  · next hpartial =>
    apply ((h rest).2 fun hp => Decidable.byContradiction fun ht => hpartial ⟨hp, ht⟩).refuses
    rw [checked, if_pos (hbad.resolve_right hpartial)]
    exact refuses_throw _

theorem refuses_highBitClear {first : UInt8} (h : first &&& 0x80 = 0) (rest : Octets) :
    Refuses read (first :: rest) (.invalidHeader .highBitClear) := by
  refine (reads_octet?_cons first).refuses (Refuses.bind ?_ _)
  rw [PacketHeader.ofFirst, if_pos h]
  exact refuses_throw _

end PacketHeader

/-! ## Bodies -/

namespace PacketBody

/-- Octets that carry a body behind a header with a length, when `rest` follows them. A chunk is followed
by a length, and that by what it announces. -/
inductive Carries (rest : Octets) : BodyLength → (body octets : Octets) → Prop
  | definite (body : Octets) : Carries rest (.definite body.length) body body
  | chunk {length : BodyLength} (chunk : Octets) {lengthOctets body octets : Octets}
      (hl : length.Writes lengthOctets) (h : Carries rest length body octets) :
      Carries rest (.partialLength chunk.length) (chunk ++ body) (chunk ++ lengthOctets ++ octets)
  | indeterminate (body : Octets) (h : rest = []) : Carries rest .indeterminate body body

theorem reads_chunk {limit : UInt64} {before : Nat} {octets : Octets}
    (h : before + octets.length ≤ limit.toNat) (rest : Octets) :
    Reads (chunk limit before octets.length) (octets ++ rest) octets rest := by
  rw [chunk, if_neg (Nat.not_lt.mpr h)]
  exact reads_exactly .packetBody octets

variable {limit : UInt64} {rest body octets : Octets} {length : BodyLength}

/-- The chunks of a body behind those read before, with any bound on their number that is above the
octets left. -/
theorem Carries.reads_parts {n : Nat} (h : Carries rest (.partialLength n) body octets) {size : Nat}
    (hsize : octets.length + rest.length < size) {before : Octets}
    (hlimit : before.length + body.length ≤ limit.toNat) :
    Reads (parts limit size before n) (octets ++ rest) (before ++ body) rest := by
  generalize hlength : BodyLength.partialLength n = length at h
  -- by the chunks; the length behind each takes an octet at least, so the bound is never reached
  induction h generalizing n size before with
  | definite => cases hlength
  | indeterminate => cases hlength
  | @chunk length chunk lengthOctets body octets hl h ih =>
    cases hlength
    obtain ⟨size, rfl⟩ : ∃ k, size = k + 1 := ⟨size - 1, by omega⟩
    simp only [List.length_append] at hsize hlimit
    rw [parts, List.append_assoc, List.append_assoc]
    apply (reads_chunk (by omega) _).bind
    apply (hl.reads _).bind
    have hbefore : (before ++ chunk).length = before.length + chunk.length := List.length_append
    cases h with
    | definite =>
      apply (reads_chunk (by omega) _).bind
      rw [← List.append_assoc]
      exact Reads.pure _
    | chunk piece hl' h' =>
      rw [← List.append_assoc]
      have hpos := List.length_pos_iff.mpr hl.ne_nil
      exact ih (by omega) (by omega) rfl
    | indeterminate => cases hl

theorem rest_of_lt (h : limit.toNat < 0xFFFFFFFFFFFFFFFF) :
    PacketBody.rest limit = (upTo (limit.toNat + 1) >>= fun body =>
      if body.length > limit.toNat then throw (.tooLarge body.length limit.toNat) else pure body) := by
  unfold PacketBody.rest
  rw [if_neg (by simp only [UInt64.size]; omega)]

/-- A body within the limit is read, and nothing behind it. -/
theorem Carries.reads (h : Carries rest length body octets) (hl : body.length ≤ limit.toNat)
    (hlimit : limit.toNat < 0xFFFFFFFFFFFFFFFF) :
    Reads (read limit length) (octets ++ rest) body rest := by
  cases length with
  | definite n =>
    cases h
    exact reads_chunk (by omega) rest
  | partialLength n =>
    intro s hs
    refine h.reads_parts ?_ ?_ s hs
    · rw [hs.octets_eq, List.length_append]
      omega
    · simpa using hl
  | indeterminate =>
    cases h with
    | indeterminate _ hrest =>
      subst hrest
      have hupTo : Reads (upTo (limit.toNat + 1)) (body ++ []) body [] := by
        apply (reads_pull _).bind
        rw [List.append_nil, List.take_of_length_le (by omega), List.drop_of_length_le (by omega),
          if_neg (by omega)]
        exact Reads.pure _
      rw [PacketBody.read, rest_of_lt hlimit]
      apply hupTo.bind
      rw [if_neg (by omega)]
      exact Reads.pure _

end PacketBody

/-! ## Packets -/

/-- The octets of a packet with a tag and a body, when `rest` follows them. -/
inductive Framing (tag : UInt8) (body rest : Octets) : Octets → Prop
  | mk {length : BodyLength} {header octets : Octets} (hpos : tag ≠ 0)
      (hh : PacketHeader.Writes tag length header)
      (htag : length.isPartial = true → tag ∈ PacketHeader.dataTags)
      (hb : PacketBody.Carries rest length body octets) : Framing tag body rest (header ++ octets)

namespace PacketReader

variable {limit : UInt64} {octets : Octets}

theorem next_of_refuses {error : PacketError} (h : Refuses PacketHeader.read octets error)
    {s : Source} (hs : s.Delivers octets) : ∃ s', next ⟨s, limit⟩ = (.error error, ⟨s', limit⟩) := by
  obtain ⟨s', hs'⟩ := h.bind (fun header => _) s hs
  exact ⟨s', by rw [next, packet, hs']⟩

/-- **All framings of one body are equivalent.** A source that delivers a body in any framing gives
what the body decodes to, a packet or a failure, and then has exactly what followed. An octet whose high bit
is clear, tag 0, and a partial length for anything but data are invalid headers, whatever the limit. -/
theorem next_of_framing (limit : UInt64) :
    (limit.toNat < 0xFFFFFFFFFFFFFFFF → ∀ tag body rest octets, Framing tag body rest octets →
      body.length ≤ limit.toNat → ∀ s : Source, s.Delivers (octets ++ rest) →
        ∃ s', next ⟨s, limit⟩ = ((Packet.decode tag body).map some, ⟨s', limit⟩) ∧ s'.Delivers rest) ∧
    (∀ tag length octets rest, PacketHeader.Writes tag length octets →
      tag = 0 ∨ length.isPartial = true ∧ tag ∉ PacketHeader.dataTags →
      ∀ s : Source, s.Delivers (octets ++ rest) →
        ∃ s', next ⟨s, limit⟩ =
          (.error (.invalidHeader (PacketHeader.defectOf tag length)), ⟨s', limit⟩)) ∧
    (∀ first rest, first &&& 0x80 = 0 → ∀ s : Source, s.Delivers (first :: rest) →
      ∃ s', next ⟨s, limit⟩ = (.error (.invalidHeader .highBitClear), ⟨s', limit⟩)) := by
  refine ⟨fun hlimit tag body rest octets h hl s hs => ?_, fun tag length octets rest h hbad s hs => ?_,
    fun first rest h s hs => next_of_refuses (PacketHeader.refuses_highBitClear h rest) hs⟩
  · obtain ⟨hpos, hh, htag, hb⟩ := h
    rw [List.append_assoc] at hs
    obtain ⟨s₁, h₁, hs₁⟩ := hh.reads hpos htag _ s hs
    obtain ⟨s₂, h₂, hs₂⟩ := hb.reads hl hlimit s₁ hs₁
    refine ⟨s₂, ?_, hs₂⟩
    simp only [next, packet, bind, EStateM.bind, h₁, h₂]
    cases Packet.decode tag body <;> rfl
  · exact next_of_refuses (h.refuses hbad rest) hs

/-- Seven octets of data in chunks of four, two and one, the last behind a five-octet length; a signature
that begins with a chunk; an octet of text. -/
theorem next_of_framing_chunks :
    ∃ octets : Octets, octets = [0xC9, 0xE2, 1, 2, 3, 4, 0xE1, 5, 6, 0xFF, 0, 0, 0, 1, 7] ∧
      Framing 9 [1, 2, 3, 4, 5, 6, 7] [0xCA] octets ∧ [1, 2, 3, 4, 5, 6, 7].length ≤ 100 ∧
      (∃ s', next ⟨.ofOctets (octets ++ [0xCA]), 100⟩ =
        (.ok (some (.unprotectedData [1, 2, 3, 4, 5, 6, 7])), ⟨s', 100⟩) ∧ s'.Delivers [0xCA]) ∧
      (∃ s', next ⟨.ofOctets [0xC2, 0xE2], 100⟩ =
        (.error (.invalidHeader .partialLength), ⟨s', 100⟩)) ∧
      ∃ s', next ⟨.ofOctets [0x2D], 100⟩ = (.error (.invalidHeader .highBitClear), ⟨s', 100⟩) := by
  have hfour : BodyLength.Writes (.partialLength 4) [0xE2] := @BodyLength.Writes.chunk 2 (by decide)
  have htwo : BodyLength.Writes (.partialLength 2) [0xE1] := @BodyLength.Writes.chunk 1 (by decide)
  have hone : BodyLength.Writes (.definite 1) [0xFF, 0, 0, 0, 1] := .five (by decide)
  have hcarries : PacketBody.Carries [0xCA] (.partialLength 4) [1, 2, 3, 4, 5, 6, 7]
      [1, 2, 3, 4, 0xE1, 5, 6, 0xFF, 0, 0, 0, 1, 7] :=
    .chunk [1, 2, 3, 4] htwo (.chunk [5, 6] hone (.definite [7]))
  have hframing := Framing.mk (by decide) (@PacketHeader.Writes.newFormat 9 _ _ (by decide) hfour)
    (fun _ => by decide) hcarries
  obtain ⟨hreads, hrefuses, hclear⟩ := next_of_framing 100
  exact ⟨_, rfl, hframing, by decide,
    hreads (by decide) _ _ _ _ hframing (by decide) _ (Source.delivers_ofOctets _),
    hrefuses _ _ _ [] (@PacketHeader.Writes.newFormat 2 _ _ (by decide) hfour) (.inr ⟨rfl, by decide⟩) _
      (Source.delivers_ofOctets _),
    hclear 0x2D [] rfl _ (Source.delivers_ofOctets _)⟩

end PacketReader

end OpenPGP
