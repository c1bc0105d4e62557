import OpenPGP.Proofs.StoredBlocks
/-!
# Limits of expansion

An expansion runs in a space that comes from the limit, and stops where the next
octet does not fit. For all spaces there is one run behind it: a space that holds
what the run writes shows it to its end, a smaller one the first part of what it
writes (`Inflating.HasRun`). Steps that write nothing, writing an octet and
sequences have this form (`Inflating.Cut`), and so has all of the expansion. What
a body expands to is therefore one sequence of octets with an end or a defect
behind it, of which every limit shows a part.

Results:
* `Inflating.Cut.bind`, `Inflating.cut_inflateZlib`: one run for all spaces.
* `Expansion.read_mono`, `Expansion.read_of_ok`, `Expansion.read_of_defect`: what is read under two limits.
* `CompressedData.decompress_eq_read`: one expansion for all limits.
* `CompressedData.decompress_limits`: how the results under two limits are related.
-/
namespace OpenPGP

namespace Compression

namespace Inflating

variable {α β : Type}

/-- What was written when a run ended. -/
def written : EStateM.Result Stop Inflater α → Octets
  | .ok _ s | .error _ s => s.output.toList

/-- From a state, steps for all spaces have one run: each shows all of it if what it writes fits, else what
is written until the space is full. The run itself does not end for want of space. -/
structure HasRun (x : Nat → Inflating α) (s : Inflater) (r : EStateM.Result Stop Inflater α) : Prop where
  ends : ∀ s', r ≠ .error .full s'
  grows : s.output.toList <+: written r
  whole : ∀ space, (written r).length ≤ space → x space s = r
  part : ∀ space, s.output.size ≤ space → space < (written r).length →
    ∃ s', x space s = .error .full s' ∧ s'.output.toList = (written r).take space

/-- From every state there is one run for all spaces. -/
def Cut (x : Nat → Inflating α) : Prop := ∀ s, ∃ r, HasRun x s r

namespace Cut

/-- A step that writes nothing and needs no space is the same in all of them. -/
theorem of_unwritten {x : Inflating α} (hends : ∀ s s', x s ≠ .error .full s')
    (hwritten : ∀ s, written (x s) = s.output.toList) : Cut fun _ => x := by
  refine fun s => ⟨x s, hends s, hwritten s ▸ List.prefix_rfl, fun _ _ => rfl, fun space h hlt => ?_⟩
  rw [hwritten, Array.length_toList] at hlt
  omega

theorem pure (a : α) : Cut fun _ => (Pure.pure a : Inflating α) := of_unwritten nofun fun _ => rfl

theorem corrupt : Cut fun _ => (Inflating.corrupt : Inflating α) := of_unwritten nofun fun _ => rfl

theorem incomplete : Cut fun _ => (Inflating.incomplete : Inflating α) := of_unwritten nofun fun _ => rfl

theorem get : Cut fun _ => (MonadState.get : Inflating Inflater) := of_unwritten nofun fun _ => rfl

theorem bind {x : Nat → Inflating α} {f : Nat → α → Inflating β} (hx : Cut x)
    (hf : ∀ a, Cut fun space => f space a) : Cut fun space => x space >>= f space := by
  intro s
  obtain ⟨r, hr⟩ := hx s
  cases r with
  | error stop s₁ =>
    refine ⟨.error stop s₁, ?_, hr.grows, fun space h => bind_of_error (hr.whole space h), ?_⟩
    · rintro s' ⟨⟩
      exact hr.ends s₁ rfl
    · intro space h hlt
      obtain ⟨s', hs', hout⟩ := hr.part space h hlt
      exact ⟨s', bind_of_error hs', hout⟩
  | ok a s₁ =>
    obtain ⟨r', hr'⟩ := hf a s₁
    have hle : s₁.output.size ≤ (written r').length := hr'.grows.length_le
    refine ⟨r', hr'.ends, hr.grows.trans hr'.grows, fun space h => ?_, fun space h hlt => ?_⟩
    · rw [bind_of_ok (hr.whole space (Nat.le_trans hle h))]
      exact hr'.whole space h
    · by_cases hfits : s₁.output.size ≤ space
      · rw [bind_of_ok (hr.whole space hfits)]
        exact hr'.part space hfits hlt
      · -- the space ends within the first step, and what that wrote begins what both write
        obtain ⟨s', hs', hout⟩ := hr.part space h (Nat.not_le.mp hfits)
        refine ⟨s', bind_of_error hs', hout.trans ?_⟩
        obtain ⟨rest, hrest⟩ := hr'.grows
        rw [← hrest]
        exact (List.take_append_of_le_length (Nat.le_of_not_le hfits)).symm

theorem ite {c : Prop} [Decidable c] {x y : Nat → Inflating α} (hx : Cut x) (hy : Cut y) :
    Cut fun space => if c then x space else y space := by
  split
  · exact hx
  · exact hy

theorem check {c : Prop} [Decidable c] {f : Nat → Unit → Inflating α} (hf : Cut fun space => f space ()) :
    Cut fun space => if c then (Inflating.corrupt : Inflating Unit) >>= f space else f space () :=
  ite (corrupt.bind fun _ => hf) hf

end Cut

/-! ## Reading -/

theorem cut_bit : Cut fun _ => bit := by
  refine Cut.of_unwritten (fun s s' => ?_) fun s => ?_
  · unfold bit
    split
    · nofun
    · split <;> nofun
  · unfold bit
    split
    · rfl
    · split <;> rfl

theorem cut_align : Cut fun _ => align := .of_unwritten nofun fun _ => rfl

theorem cut_bitsLeft : Cut fun _ => bitsLeft := .of_unwritten nofun fun _ => rfl

theorem cut_number (width : Nat) : Cut fun _ => number width := by
  induction width with
  | zero => exact .pure 0
  | succ width ih => exact cut_bit.bind fun _ => ih.bind fun _ => .pure _

theorem cut_follow (code : Code) : Cut fun _ => follow code := by
  induction code with
  | unused => exact .pure none
  | symbol value => exact .pure (some value)
  | branch zero one hzero hone =>
    exact cut_bit.bind fun b => .ite hone hzero

theorem cut_symbol (code : Code) : Cut fun _ => symbol code := by
  refine (cut_follow code).bind fun value => ?_
  cases value with
  | some value => exact .pure value
  | none => exact .corrupt

theorem cut_valueOf (table : List (Nat × Nat)) (symbol : Nat) : Cut fun _ => valueOf table symbol := by
  unfold valueOf
  split
  · exact (cut_number _).bind fun _ => .pure _
  · exact .corrupt

theorem cut_lengthNumbers (count : Nat) : Cut fun _ => lengthNumbers count := by
  induction count with
  | zero => exact .pure []
  | succ count ih => exact (cut_number 3).bind fun _ => ih.bind fun _ => .pure _

theorem cut_codeLengths (code : Code) (fuel missing : Nat) (before : List Nat) :
    Cut fun _ => codeLengths code fuel missing before := by
  induction fuel generalizing missing before with
  | zero =>
    cases missing with
    | zero => exact .pure _
    | succ missing => exact .incomplete
  | succ fuel ih =>
    cases missing with
    | zero => exact .pure _
    | succ missing =>
      have hrest (value least width : Nat) : Cut fun _ => number width >>= fun extra =>
          if least + extra > missing + 1 then corrupt
          else codeLengths code fuel (missing + 1 - (least + extra))
            (List.replicate (least + extra) value ++ before) :=
        (cut_number width).bind fun extra => .ite .corrupt (ih _ _)
      refine (cut_symbol code).bind fun s => .ite (ih missing _) (.ite ?_ (.ite ?_ ?_))
      · cases before with
        | nil => exact Cut.corrupt.bind fun _ => hrest _ _ _
        | cons last before => exact hrest last 3 2
      · exact hrest 0 3 3
      · exact hrest 0 11 7

theorem cut_givenCodes : Cut fun _ => givenCodes := by
  refine (cut_number 5).bind fun _ => (cut_number 5).bind fun _ => (cut_number 4).bind fun _ => ?_
  refine .check ((cut_lengthNumbers _).bind fun _ => .check ((cut_codeLengths _ _ _ _).bind fun all => ?_))
  split
  · exact .pure _
  · exact .corrupt

/-! ## Writing -/

/-- The octet that fills the space is written, the next one is what ends it. -/
theorem cut_put (b : UInt8) : Cut fun space => put space b := by
  intro s
  have hwritten : (s.output.push b).toList = s.output.toList ++ [b] := Array.toList_push
  have hlength : (s.output.toList ++ [b]).length = s.output.size + 1 := by simp
  refine ⟨.ok () { s with output := s.output.push b }, nofun, ?_, fun space h => ?_, fun space h hlt => ?_⟩
  · rw [written, hwritten]
    exact List.prefix_append _ _
  · rw [written, hwritten, hlength] at h
    exact if_pos h
  · rw [written, hwritten, hlength] at hlt
    refine ⟨s, if_neg (by omega), ?_⟩
    rw [written, hwritten, List.take_append_of_le_length (Nat.le_of_lt_succ hlt),
      List.take_of_length_le h]

theorem cut_copy (distance length : Nat) : Cut fun space => copy space distance length := by
  induction length with
  | zero => exact .pure ()
  | succ length ih =>
    refine Cut.get.bind fun s => ?_
    refine .ite (Cut.get.bind fun t => ?_) ?_
    · exact (cut_put _).bind fun _ => ih
    · exact (cut_put _).bind fun _ => ih

theorem cut_stored (length : Nat) : Cut fun space => stored space length := by
  induction length with
  | zero => exact .pure ()
  | succ length ih => exact (cut_number 8).bind fun _ => (cut_put _).bind fun _ => ih

theorem cut_symbols (literals distances : Code) (fuel : Nat) :
    Cut fun space => symbols space literals distances fuel := by
  induction fuel with
  | zero => exact .incomplete
  | succ fuel ih =>
    refine (cut_symbol literals).bind fun s => .ite ?_ (.ite ?_ ?_)
    · exact (cut_put _).bind fun _ => ih
    · exact .pure ()
    · exact (cut_valueOf _ _).bind fun _ => (cut_symbol distances).bind fun _ => (cut_valueOf _ _).bind fun _ =>
        (cut_copy _ _).bind fun _ => ih

theorem cut_storedBlock : Cut fun space => storedBlock space :=
  cut_align.bind fun _ => (cut_number 16).bind fun _ => (cut_number 16).bind fun _ => .check (cut_stored _)

theorem cut_block (kind fuel : Nat) {rest : Nat → Inflating Unit} (h : Cut rest) :
    Cut fun space => match kind with
      | 0 => storedBlock space >>= fun _ => rest space
      | 1 => symbols space fixedLiterals fixedDistances fuel >>= fun _ => rest space
      | 2 => givenCodes >>= fun codes => symbols space codes.1 codes.2 fuel >>= fun _ => rest space
      | _ => (corrupt : Inflating Unit) >>= fun _ => rest space := by
  split
  · exact cut_storedBlock.bind fun _ => h
  · exact (cut_symbols _ _ _).bind fun _ => h
  · exact cut_givenCodes.bind fun _ => (cut_symbols _ _ _).bind fun _ => h
  · exact Cut.corrupt.bind fun _ => h

theorem cut_blocks (fuel : Nat) : Cut fun space => blocks space fuel := by
  induction fuel with
  | zero => exact .incomplete
  | succ fuel ih =>
    refine cut_bit.bind fun last => (cut_number 2).bind fun kind => ?_
    cases last with
    | true => exact cut_block kind (fuel + 1) (.pure ())
    | false => exact cut_block kind (fuel + 1) ih

theorem cut_inflate : Cut inflate := cut_bitsLeft.bind fun _ => cut_blocks _

theorem cut_inflateZlib : Cut inflateZlib := by
  refine (cut_number 8).bind fun _ => (cut_number 8).bind fun _ => .check (cut_inflate.bind fun _ => ?_)
  refine cut_align.bind fun _ => (cut_number 8).bind fun _ => (cut_number 8).bind fun _ => ?_
  refine (cut_number 8).bind fun _ => (cut_number 8).bind fun _ => Cut.get.bind fun _ => ?_
  exact .ite .corrupt (.pure ())

end Inflating

/-! ## Reading under a limit -/

theorem request_le_spaceFor (limit : UInt64) : request limit ≤ spaceFor limit := by
  rw [request, spaceFor, windowSize]
  omega

namespace Expansion

variable {e : Expansion} {limit : UInt64}

theorem read_of_lt (h : e.octets.length < request limit) : e.read limit = e.whole := by
  rw [read, take, if_pos h, whole]
  split
  · rfl
  · rw [request] at h
    exact if_neg (by omega)

/-- If there is as much as is asked for, what is behind it does not matter. -/
theorem read_of_request_le (h : request limit ≤ e.octets.length) :
    e.read limit = within limit (e.octets.take (request limit)) := by
  rw [read, take, if_neg (Nat.not_lt.mpr h)]
  rfl

theorem read_eq (hlimit : limit.toNat < 0xFFFFFFFFFFFFFFFF) :
    e.read limit = if e.octets.length ≤ limit.toNat then e.whole else .error (.limitExceeded limit) := by
  have hrequest : request limit = limit.toNat + 1 := Nat.min_eq_left hlimit
  split
  · exact read_of_lt (by omega)
  · rw [read_of_request_le (by omega), within, if_pos]
    rw [List.length_take]
    omega

/-! ## Two limits -/

section

variable {limit' : UInt64} {x : Octets}

theorem lt_request_of_lt (h : limit < limit') :
    limit.toNat < 0xFFFFFFFFFFFFFFFF ∧ limit.toNat < request limit' := by
  have hlt := UInt64.lt_iff_toNat_lt.mp h
  have hword := limit'.toNat_lt
  rw [request]
  omega

theorem octets_of_whole (h : e.whole = .ok x) : e.octets = x := by
  unfold whole at h
  split at h <;> cases h
  rfl

/-- What is read under a limit is read under every greater one. -/
theorem read_mono (h : limit ≤ limit') (hx : e.read limit = .ok x) : e.read limit' = .ok x := by
  rcases UInt64.lt_or_eq_of_le h with hlt | rfl
  case inr => exact hx
  obtain ⟨hlimit, hrequest⟩ := lt_request_of_lt hlt
  rw [read_eq hlimit] at hx
  split at hx
  · rw [read_of_lt (by omega)]
    exact hx
  · cases hx

/-- What is read under a limit says what is read under a smaller one. -/
theorem read_of_ok (h : limit ≤ limit') (hx : e.read limit' = .ok x) :
    e.read limit = if x.length ≤ limit.toNat then .ok x else .error (.limitExceeded limit) := by
  rcases UInt64.lt_or_eq_of_le h with hlt | rfl
  case inr => rw [if_pos (length_read_le hx), hx]
  obtain ⟨hlimit, hrequest⟩ := lt_request_of_lt hlt
  rw [read_eq hlimit]
  by_cases hend : e.octets.length < request limit'
  · rw [read_of_lt hend] at hx
    rw [hx, octets_of_whole hx]
  · -- nothing but the greatest limit cuts off what it does not refuse
    rw [read_of_request_le (Nat.not_lt.mp hend)] at hx
    have hlength : x.length = request limit' := by
      rw [← within_eq_ok hx, List.length_take]
      omega
    rw [if_neg (by omega), if_neg (by omega)]

/-- A defect that is met under a limit is not hidden by a smaller one. -/
theorem read_of_defect {defect : CompressionDefect} (h : limit ≤ limit')
    (hd : e.read limit' = .error (.decompression defect)) :
    e.read limit = .error (.decompression defect) ∨ e.read limit = .error (.limitExceeded limit) := by
  rcases UInt64.lt_or_eq_of_le h with hlt | rfl
  case inr => exact .inl hd
  rw [read_eq (lt_request_of_lt hlt).1]
  by_cases hend : e.octets.length < request limit'
  · rw [read_of_lt hend] at hd
    split
    · exact .inl hd
    · exact .inr rfl
  · rw [read_of_request_le (Nat.not_lt.mp hend), within] at hd
    split at hd <;> cases hd

end

/-! ## One expansion for all limits -/

/-- A run that writes past the space for a limit gives out all of that space, whatever it ends in. -/
theorem ofRun_octets {r : EStateM.Result Stop Inflater Unit}
    (h : spaceFor limit < (Inflating.written r).length) :
    ∃ count, spaceFor limit ≤ count ∧ (ofRun r).octets = (Inflating.written r).take count := by
  have hall (octets : Octets) : octets = octets.take octets.length := List.take_length.symm
  cases r with
  | ok _ s => exact ⟨_, Nat.le_of_lt h, hall _⟩
  | error stop s =>
    cases stop with
    | full => exact ⟨_, Nat.le_of_lt h, hall _⟩
    | defect defect =>
      cases defect with
      | incomplete => exact ⟨_, Nat.le_of_lt h, hall _⟩
      | corrupt =>
        -- the space ends with a window, and more was written behind it
        have hsize : spaceFor limit < s.output.size := h
        have hwindows : limit.toNat / windowSize + 1 ≤ (s.output.size - 1) / windowSize := by
          rw [Nat.le_div_iff_mul_le (by decide)]
          exact Nat.le_sub_one_of_lt hsize
        exact ⟨s.given, Nat.le_trans (Nat.mul_le_mul_right _ hwindows) (Nat.le_max_right _ _), rfl⟩

end Expansion

theorem expand_eq_read {inflate : Nat → Inflating Unit} (h : Inflating.Cut inflate) (body : Octets) :
    ∃ e : Expansion, ∀ limit, expand inflate body limit = e.read limit := by
  obtain ⟨r, hr⟩ := h (.ofOctets windowSize body)
  refine ⟨.ofRun r, fun limit => ?_⟩
  have hrequest := request_le_spaceFor limit
  by_cases hfits : (Inflating.written r).length ≤ spaceFor limit
  · rw [expand, hr.whole _ hfits]
  · have hlt := Nat.not_le.mp hfits
    obtain ⟨s, hs, hout⟩ := hr.part (spaceFor limit) (Nat.zero_le _) hlt
    obtain ⟨count, hcount, hoctets⟩ := Expansion.ofRun_octets hlt
    have hread {e : Expansion} {n : Nat} (hn : spaceFor limit ≤ n)
        (he : e.octets = (Inflating.written r).take n) :
        e.read limit = within limit ((Inflating.written r).take (request limit)) := by
      rw [Expansion.read_of_request_le (by rw [he, List.length_take]; omega), he, List.take_take,
        Nat.min_eq_left (by omega)]
    rw [expand, hs, hread hcount hoctets]
    exact hread (Nat.le_refl _) hout

end Compression

/-- What a packet expands to is the same under all limits, if there is support for its algorithm. -/
theorem CompressedData.decompress_eq_read (p : CompressedData) :
    (∃ e : Compression.Expansion, ∀ limit, p.decompress limit = e.read limit) ∨
      ∀ limit, p.decompress limit = .error (.unsupported (.compression p.algorithm)) := by
  unfold decompress
  split
  · exact .inl ⟨_, fun _ => rfl⟩
  · exact .inl (Compression.expand_eq_read Compression.Inflating.cut_inflate p.body)
  · exact .inl (Compression.expand_eq_read Compression.Inflating.cut_inflateZlib p.body)
  · exact .inr fun _ => rfl

/-- **A smaller limit only refuses more.** What is given out under a limit is given out under every greater
one. What is given out under a limit is given out under a smaller one that it keeps, and refused under one
that it does not keep. A defect that is met under a limit is met under every smaller one, unless the limit is
passed before it. Nothing that is given out is longer than its limit. -/
theorem CompressedData.decompress_limits (p : CompressedData) {limit limit' : UInt64} (h : limit ≤ limit') :
    (∀ x, p.decompress limit = .ok x → p.decompress limit' = .ok x) ∧
    (∀ x, p.decompress limit' = .ok x → p.decompress limit =
      if x.length ≤ limit.toNat then .ok x else .error (.limitExceeded limit)) ∧
    (∀ defect, p.decompress limit' = .error (.decompression defect) →
      p.decompress limit = .error (.decompression defect) ∨
        p.decompress limit = .error (.limitExceeded limit)) ∧
    ∀ x, p.decompress limit = .ok x → x.length ≤ limit.toNat := by
  obtain ⟨e, he⟩ | hunsupported := p.decompress_eq_read
  · simp only [he]
    exact ⟨fun _ => Compression.Expansion.read_mono h, fun _ => Compression.Expansion.read_of_ok h,
      fun _ => Compression.Expansion.read_of_defect h, fun _ => Compression.Expansion.length_read_le⟩
  · simp only [hunsupported]
    exact ⟨nofun, nofun, nofun, nofun⟩

/-- Three octets in a block are given out under a limit of three and refused under a limit of two. -/
theorem CompressedData.decompress_limits_two :
    let p := CompressedData.ofContent .zip [0x61, 0x62, 0x63]
    (2 : UInt64) ≤ 3 ∧ p.decompress 3 = .ok [0x61, 0x62, 0x63] ∧
      p.decompress 2 = .error (.limitExceeded 2) := by
  intro p
  have hlimits : (2 : UInt64) ≤ 3 := by decide
  have hthree : p.decompress 3 = .ok [0x61, 0x62, 0x63] :=
    Compressor.lossless_stored.decompress_packet (by decide) (by decide)
  exact ⟨hlimits, hthree, (decompress_limits p hlimits).2.1 _ hthree⟩

end OpenPGP
