import OpenPGP.Proofs.Hashing
/-!
# Line ends of signed text

A text signature covers its text with every line ended by CR LF, however the
text is read and whichever line ends it has. `withLineEnds` says what is hashed
by looking at the text alone, position by position: a CR is put in front of each
LF that has none directly in front of it (`isBareLf`), and nothing else changes.

Results:
* `canonical_eq_withLineEnds`: the octets fed for a text are those.
* `isBareLf_withLineEnds`, `withLineEnds_of_not_isBareLf`: no LF is left without a CR, and text
  that has none does not change.
* `withLineEnds_eq_filter`: texts that differ in LF or CR LF come to the same.
* `SignatureHasher.finish_foldl_update`: what pieces of any sizes are hashed as.
-/
namespace OpenPGP.Crypto

/-- Whether a LF stands at a position with no CR directly in front of it. -/
def isBareLf (text : Octets) (i : Nat) : Bool :=
  text[i]? = some 0x0A && (i = 0 || text[i - 1]? ≠ some 0x0D)

/-- Text with a CR in front of each LF that has none directly in front of it. -/
def withLineEnds (text : Octets) : Octets :=
  text.zipIdx.flatMap fun (b, i) => if isBareLf text i then [0x0D, b] else [b]

/-- A CR stands in a text only as the first half of CR LF. -/
def CrBeforeLf (text : Octets) : Prop := ∀ i : Nat, text[i]? = some 0x0D → text[i + 1]? = some 0x0A

/-! ## Position by position, and octet by octet -/

/-- Of the octets in front of a position, the last one decides. -/
theorem isBareLf_append_cons (before : Octets) (b : UInt8) (rest : Octets) :
    isBareLf (before ++ b :: rest) before.length = (b = 0x0A && !endsInCr false before) := by
  rcases List.eq_nil_or_concat before with rfl | ⟨front, last, rfl⟩
  · simp [isBareLf, endsInCr]
  · simp [isBareLf, endsInCr]

theorem canonical_eq_withLineEnds (text : Octets) : canonical text = withLineEnds text := by
  -- `rest` stands behind any octets `before` it, of which the loop knows the last
  have key (before rest : Octets) : canonicalFrom (endsInCr false before) rest =
      (rest.zipIdx before.length).flatMap fun (b, i) =>
        if isBareLf (before ++ rest) i then [0x0D, b] else [b] := by
    induction rest generalizing before with
    | nil => rfl
    | cons b rest ih =>
      have hends : endsInCr false (before ++ [b]) = decide (b = 0x0D) := by simp [endsInCr]
      have hrest := ih (before ++ [b])
      rw [List.append_assoc, List.length_append, hends] at hrest
      rw [canonicalFrom, List.zipIdx_cons, List.flatMap_cons, hrest]
      dsimp only
      rw [isBareLf_append_cons]
      by_cases hb : b = 0x0A <;> simp [hb]
  exact key [] text

theorem withLineEnds_of_not_isBareLf {text : Octets} (h : ∀ i, isBareLf text i = false) :
    withLineEnds text = text := by
  have hsame : withLineEnds text = text.zipIdx.flatMap fun (b, _) => [b] := by
    simp only [withLineEnds, h, Bool.false_eq_true, if_false]
  rw [hsame, ← List.map_eq_flatMap]
  exact List.zipIdx_map_fst 0 text

/-! ## Every LF follows a CR -/

/-- A LF that is fed follows a CR, but the first octet may follow one of the octets before. -/
theorem cr_before_lf_canonicalFrom {afterCr : Bool} {text : Octets} {i : Nat}
    (h : (canonicalFrom afterCr text)[i]? = some 0x0A) :
    (i = 0 ∧ afterCr = true) ∨ ∃ j, i = j + 1 ∧ (canonicalFrom afterCr text)[j]? = some 0x0D := by
  induction text generalizing afterCr i with
  | nil => cases h
  | cons b rest ih =>
    rw [canonicalFrom] at h ⊢
    split at h
    · next hbare =>
      rw [if_pos hbare]
      obtain _ | _ | i := i
      · cases h
      · exact .inr ⟨0, rfl, rfl⟩
      · have hlf : b ≠ 0x0D := by
          rintro rfl
          exact absurd hbare (by simp)
        rcases ih (by simpa using h) with ⟨-, hcr⟩ | ⟨j, rfl, hj⟩
        · exact absurd (of_decide_eq_true hcr) hlf
        · exact .inr ⟨j + 2, rfl, hj⟩
    · next hbare =>
      rw [if_neg hbare]
      obtain _ | i := i
      · have hlf : b = 0x0A := by simpa using h
        exact .inl ⟨rfl, by simpa [hlf] using hbare⟩
      · rcases ih (by simpa using h) with ⟨rfl, hcr⟩ | ⟨j, rfl, hj⟩
        · exact .inr ⟨0, rfl, congrArg some (of_decide_eq_true hcr)⟩
        · exact .inr ⟨j + 1, rfl, hj⟩

theorem isBareLf_withLineEnds (text : Octets) (i : Nat) : isBareLf (withLineEnds text) i = false := by
  rw [← canonical_eq_withLineEnds, canonical, isBareLf, Bool.and_eq_false_imp]
  intro hlf
  rcases cr_before_lf_canonicalFrom (of_decide_eq_true hlf) with ⟨-, hcr⟩ | ⟨j, rfl, hj⟩
  · cases hcr
  · simp [hj]

/-! ## LF or CR LF -/

/-- Where CRs stand in front of LFs only, the octets that are no CR tell what is fed. -/
theorem canonicalFrom_eq_filter {text : Octets} (h : CrBeforeLf text) (afterCr : Bool)
    (hfirst : afterCr = true → text[0]? = some 0x0A) :
    (if afterCr then [0x0D] else []) ++ canonicalFrom afterCr text =
      (text.filter (· ≠ 0x0D)).flatMap fun b => if b = 0x0A then [0x0D, 0x0A] else [b] := by
  induction text generalizing afterCr with
  | nil =>
    cases afterCr with
    | false => rfl
    | true => exact absurd (hfirst rfl) (by simp)
  | cons b rest ih =>
    have hrest : CrBeforeLf rest := fun i hi => h (i + 1) hi
    cases afterCr with
    | true =>
      obtain rfl : b = 0x0A := by simpa using hfirst rfl
      simpa [canonicalFrom] using ih hrest false fun h => by cases h
    | false =>
      by_cases hcr : b = 0x0D
      · subst hcr
        simpa [canonicalFrom] using ih hrest true fun _ => h 0 rfl
      · have := ih hrest false fun h => by cases h
        by_cases hlf : b = 0x0A <;> simpa [canonicalFrom, hcr, hlf] using this

theorem withLineEnds_eq_filter {text : Octets} (h : CrBeforeLf text) : withLineEnds text =
    (text.filter (· ≠ 0x0D)).flatMap fun b => if b = 0x0A then [0x0D, 0x0A] else [b] := by
  rw [← canonical_eq_withLineEnds, canonical, ← canonicalFrom_eq_filter h false fun h => by cases h]
  rfl

/-! ## Pieces -/

namespace SignatureHasher

theorem foldl_update (h : SignatureHasher) (data : Octets) (pieces : List Octets) :
    pieces.foldl update (h.update data) = h.update (data ++ pieces.flatten) := by
  induction pieces generalizing data with
  | nil => rw [List.foldl_nil, List.flatten_nil, List.append_nil]
  | cons piece pieces ih =>
    rw [List.foldl_cons, update_update, ih, List.flatten_cons, List.append_assoc]

/-- The digest of pieces and a trailer, if the hash is implemented. -/
def digest? (algorithm : HashAlgorithm) (type : SignatureType) (pieces : List Octets)
    (trailer : Octets) : Option Octets :=
  (begin? algorithm type).map fun h => (pieces.foldl update h).finish trailer

/-- The octets that are hashed for data that is signed by a type of signature. -/
def hashed (type : SignatureType) (data trailer : Octets) : Octets :=
  (if type = .text then withLineEnds data else data) ++ trailer

theorem digest?_eq_hash (algorithm : HashAlgorithm) (type : SignatureType) (pieces : List Octets)
    (trailer : Octets) : digest? algorithm type pieces trailer =
      (HashFunction.ofAlgorithm? algorithm).map fun f => f.hash (hashed type pieces.flatten trailer) := by
  have hcover : (begin? algorithm type).map (fun h => pieces.foldl update h) =
      covering algorithm type pieces.flatten := by
    rw [← covering_nil, covering, Option.map_map]
    simp only [Function.comp_def, foldl_update]
    rfl
  have htaken : hashed type pieces.flatten trailer = taken type pieces.flatten ++ trailer := by
    rw [hashed, taken, canonical_eq_withLineEnds]
  have hmap : digest? algorithm type pieces trailer =
      ((begin? algorithm type).map fun h => pieces.foldl update h).map fun h => h.finish trailer := by
    rw [Option.map_map]
    rfl
  rw [hmap, hcover, finish_covering, htaken]

/-- **The pieces do not matter, and neither do the line ends of text.** Data that was fed in any pieces,
empty ones included, is hashed as a whole and followed by the trailer: text with a CR in front of each LF
that has none, anything else as it is. So the digest depends on the data alone. In text every LF then
follows a CR, doing it again changes nothing, and two texts in which CR stands only before LF and which
have the same octets but for the CRs have one digest. -/
theorem finish_foldl_update (algorithm : HashAlgorithm) (type : SignatureType) (trailer : Octets) :
    (∀ pieces, digest? algorithm type pieces trailer = (HashFunction.ofAlgorithm? algorithm).map
      fun f => f.hash (hashed type pieces.flatten trailer)) ∧
    (∀ pieces pieces', pieces.flatten = pieces'.flatten →
      digest? algorithm type pieces trailer = digest? algorithm type pieces' trailer) ∧
    (∀ text (i : Nat), (withLineEnds text)[i]? = some 0x0A →
      ∃ j, i = j + 1 ∧ (withLineEnds text)[j]? = some 0x0D) ∧
    (∀ text, withLineEnds (withLineEnds text) = withLineEnds text) ∧
    ∀ pieces pieces', type = .text → CrBeforeLf pieces.flatten → CrBeforeLf pieces'.flatten →
      pieces.flatten.filter (· ≠ 0x0D) = pieces'.flatten.filter (· ≠ 0x0D) →
      digest? algorithm type pieces trailer = digest? algorithm type pieces' trailer := by
  refine ⟨fun pieces => digest?_eq_hash algorithm type pieces trailer, fun pieces pieces' h => ?_,
    fun text i h => ?_, fun text => withLineEnds_of_not_isBareLf (isBareLf_withLineEnds text),
    fun pieces pieces' ht hcr hcr' h => ?_⟩
  · rw [digest?_eq_hash, digest?_eq_hash, h]
  · rw [← canonical_eq_withLineEnds] at h ⊢
    rcases cr_before_lf_canonicalFrom h with ⟨-, hfalse⟩ | hj
    · cases hfalse
    · exact hj
  · rw [digest?_eq_hash, digest?_eq_hash, hashed, hashed, if_pos ht, if_pos ht,
      withLineEnds_eq_filter hcr, withLineEnds_eq_filter hcr', h]

/-- One line, cut between its CR and its LF with an empty piece in the cut, and the line with LF alone. -/
theorem finish_foldl_update_cutLineEnd :
    ∃ cut whole plain : List Octets, cut = [[0x61, 0x0D], [], [0x0A]] ∧ whole = [[0x61, 0x0D, 0x0A]] ∧
      plain = [[0x61], [0x0A]] ∧ cut.flatten = whole.flatten ∧
      digest? .sha256 .text cut [4] = some (HashFunction.sha256.hash [0x61, 0x0D, 0x0A, 4]) ∧
      digest? .sha256 .text cut [4] = digest? .sha256 .text whole [4] ∧
      CrBeforeLf cut.flatten ∧ CrBeforeLf plain.flatten ∧
      cut.flatten.filter (· ≠ 0x0D) = plain.flatten.filter (· ≠ 0x0D) ∧
      digest? .sha256 .text cut [4] = digest? .sha256 .text plain [4] ∧
      (withLineEnds plain.flatten)[2]? = some 0x0A ∧
      ∃ j, 2 = j + 1 ∧ (withLineEnds plain.flatten)[j]? = some 0x0D := by
  obtain ⟨hhash, hpieces, hcr, -, hsame⟩ := finish_foldl_update .sha256 .text [4]
  have hcut : CrBeforeLf [[0x61, 0x0D], [], [0x0A]].flatten := by
    intro i h
    match i with
    | 0 => cases h
    | 1 => rfl
    | 2 => cases h
    | _ + 3 => cases h
  have hplain : CrBeforeLf [[0x61], [0x0A]].flatten := by
    intro i h
    match i with
    | 0 => cases h
    | 1 => cases h
    | _ + 2 => cases h
  have hoctets : hashed .text [[0x61, 0x0D], [], [0x0A]].flatten [4] = [0x61, 0x0D, 0x0A, 4] := by decide
  refine ⟨_, _, _, rfl, rfl, rfl, rfl, (hhash _).trans ?_, hpieces _ _ rfl, hcut, hplain, by decide,
    hsame _ _ rfl hcut hplain (by decide), rfl, hcr _ 2 rfl⟩
  rw [hoctets]
  rfl

end SignatureHasher

end OpenPGP.Crypto
