import OpenPGP.Verification
/-!
# Hashing in pieces

Data that a signature covers is hashed as it is given out, in pieces of any
sizes. Here it is shown that the pieces do not matter: a computation that has
seen `a` and then `b` is the one that has seen `a ++ b`, for text as well, where
a line end may fall on the cut.

Results:
* `BlockHash.update_update`, `SignatureHasher.update_update`: two pieces are one.
* `SignatureHasher.update_text`: a piece of text is fed with its line ends made CR LF.
* `SignatureHasher.finish_covering`: the digest of signed data is the hash of the
  data as its signature takes it, followed by the trailer.
-/
namespace OpenPGP.Crypto

namespace BlockHash

variable {σ : Type} (h : BlockHash σ)

/-- What is left over of a first piece is worked through together with the second. -/
theorem absorb_append (s : σ) (a b : Octets) :
    h.absorb s (a ++ b) = h.absorb (h.absorb s a).1 ((h.absorb s a).2 ++ b) := by
  fun_induction absorb h s a with
  | case1 s a block whole ih =>
    have hlen : h.blockSize ≤ a.length := by
      have := whole.2
      simp only [block, List.length_take] at this
      omega
    rw [absorb]
    rw [List.take_append_of_le_length hlen, List.drop_append_of_le_length hlen, dif_pos whole]
    exact ih
  | case2 s a block whole => rfl

theorem absorb_nil (s : σ) : h.absorb s [] = (s, []) := by
  rw [absorb]
  rw [dif_neg]
  rintro ⟨hpos, hlen⟩
  simp only [List.take_nil, List.length_nil] at hlen
  omega

theorem update_update (c : HashContext σ) (a b : Octets) :
    h.update (h.update c a) b = h.update c (a ++ b) := by
  simp only [update, List.length_append, Nat.add_assoc]
  rw [← List.append_assoc, absorb_append h c.state (c.pending ++ a) b]

theorem update_initial_nil : h.update h.initial [] = h.initial := by
  simp [update, initial, absorb_nil]

end BlockHash

namespace Hasher

theorem update_update (h : Hasher) (a b : Octets) : (h.update a).update b = h.update (a ++ b) := by
  simp only [update, BlockHash.update_update]

theorem update_initial_nil (f : HashFunction) : (initial f).update [] = initial f := by
  simp only [update, initial, BlockHash.update_initial_nil]

theorem finish_update_initial (f : HashFunction) (data : Octets) :
    ((initial f).update data).finish = f.hash data := rfl

end Hasher

/-! ## Text -/

/-- Text with a CR put in front of every LF that has none; `afterCr` says whether a CR came before. -/
def canonicalFrom : (afterCr : Bool) → Octets → Octets
  | _, [] => []
  | afterCr, b :: rest =>
    (if b = 0x0A && !afterCr then [0x0D, 0x0A] else [b]) ++ canonicalFrom (b = 0x0D) rest

/-- Text with every line ended by CR LF. -/
def canonical (text : Octets) : Octets := canonicalFrom false text

/-- Whether a CR was the last octet, given whether one came before. -/
def endsInCr (afterCr : Bool) (text : Octets) : Bool :=
  match text.getLast? with
  | none => afterCr
  | some b => b = 0x0D

theorem canonicalFrom_append (afterCr : Bool) (a b : Octets) :
    canonicalFrom afterCr (a ++ b) = canonicalFrom afterCr a ++ canonicalFrom (endsInCr afterCr a) b := by
  induction a generalizing afterCr with
  | nil => simp [canonicalFrom, endsInCr]
  | cons x a ih =>
    simp only [List.cons_append, canonicalFrom, ih, List.append_assoc]
    congr 2
    cases a with
    | nil => simp [endsInCr]
    | cons y a => simp [endsInCr, List.getLast?_cons]

theorem endsInCr_append (afterCr : Bool) (a b : Octets) :
    endsInCr afterCr (a ++ b) = endsInCr (endsInCr afterCr a) b := by
  cases b with
  | nil => simp [endsInCr]
  | cons x b =>
    have hb : (a ++ x :: b).getLast? = (x :: b).getLast? := by
      rw [List.getLast?_append]
      simp [List.getLast?_cons]
    simp only [endsInCr, hb]
    cases h : (x :: b).getLast? with
    | none => simp at h
    | some y => rfl

/-! ## Signed data -/

namespace SignatureHasher

/-- The octets looked at are fed as they are, the others with the CRs they lack. -/
theorem feedText_append (h : SignatureHasher) (seen rest : Octets) :
    h.feedText (seen ++ rest) seen.length rest =
      { h with inner := h.inner.update (seen ++ canonicalFrom h.afterCr rest)
               afterCr := endsInCr h.afterCr rest } := by
  induction rest generalizing h seen with
  | nil => simp [feedText, canonicalFrom, endsInCr]
  | cons b rest ih =>
    have hends : endsInCr h.afterCr (b :: rest) = endsInCr (b = 0x0D) rest :=
      endsInCr_append h.afterCr [b] rest
    rw [feedText, canonicalFrom, hends]
    split
    · -- a LF without CR: everything up to it is fed, and the rest is a piece of its own
      have hrest := ih { h with inner := (h.inner.update seen).update [0x0D, 0x0A]
                                afterCr := b = 0x0D } []
      rw [List.nil_append, List.nil_append, Hasher.update_update, Hasher.update_update,
        List.append_assoc] at hrest
      rw [List.take_left, Hasher.update_update]
      exact hrest
    · have hrest := ih { h with afterCr := b = 0x0D } (seen ++ [b])
      rw [List.length_append, List.append_assoc, List.append_assoc] at hrest
      exact hrest

theorem update_text {h : SignatureHasher} (ht : h.text = true) (data : Octets) :
    h.update data = { h with inner := h.inner.update (canonicalFrom h.afterCr data)
                             afterCr := endsInCr h.afterCr data } := by
  rw [update, if_pos ht]
  exact feedText_append h [] data

theorem update_update (h : SignatureHasher) (a b : Octets) :
    (h.update a).update b = h.update (a ++ b) := by
  cases ht : h.text with
  | false => simp [update, ht, Hasher.update_update]
  | true =>
    rw [update_text ht, update_text ht, update_text (by exact ht)]
    simp only [Hasher.update_update, canonicalFrom_append, endsInCr_append]

theorem update_initial_nil (f : HashFunction) (type : SignatureType) :
    (initial (.initial f) type).update [] = initial (.initial f) type := by
  simp only [update, feedText, initial, Hasher.update_initial_nil, ite_self]

/-- Data as a signature of a type takes it: text with its line ends made CR LF, anything else as it
is. -/
def taken (type : SignatureType) (data : Octets) : Octets :=
  if type = .text then canonical data else data

/-- The computation of the hash of data, once all of it was seen. -/
def covering (algorithm : HashAlgorithm) (type : SignatureType) (data : Octets) :
    Option SignatureHasher :=
  (begin? algorithm type).map fun h => h.update data

theorem covering_nil (algorithm : HashAlgorithm) (type : SignatureType) :
    covering algorithm type [] = begin? algorithm type := by
  simp only [covering, begin?, Option.map_map]
  cases HashFunction.ofAlgorithm? algorithm with
  | none => rfl
  | some f => exact congrArg some (update_initial_nil f type)

theorem map_update_covering (algorithm : HashAlgorithm) (type : SignatureType) (a b : Octets) :
    (covering algorithm type a).map (fun h => h.update b) = covering algorithm type (a ++ b) := by
  simp only [covering, Option.map_map, Function.comp_def, update_update]

/-- The digest over data and a trailer is one hash of the data as it is taken and the trailer. -/
theorem finish_covering (algorithm : HashAlgorithm) (type : SignatureType) (data trailer : Octets) :
    (covering algorithm type data).map (fun h => h.finish trailer) =
      (HashFunction.ofAlgorithm? algorithm).map fun f => f.hash (taken type data ++ trailer) := by
  simp only [covering, begin?, Option.map_map]
  cases HashFunction.ofAlgorithm? algorithm with
  | none => rfl
  | some f =>
    refine congrArg some ?_
    by_cases ht : type = .text
    · have htext : (initial (.initial f) type).text = true := decide_eq_true ht
      rw [Function.comp_apply, Function.comp_apply, update_text htext, taken, if_pos ht, finish,
        Hasher.update_update, canonical]
      exact Hasher.finish_update_initial f _
    · simp [update, initial, finish, taken, ht, Hasher.update_update,
        Hasher.finish_update_initial]

end SignatureHasher

end OpenPGP.Crypto
