import OpenPGP.Crypto.Aead
import OpenPGP.Proofs.BlockCipher
/-!
# Opening authenticated encryption

A mode opens what it sealed if it decrypts what it encrypts and its tags have
sixteen octets; nothing else is asked of a tag, since opening computes the same
one. In counter modes masking twice is masking not at all. In offset codebook
mode the offsets of the blocks depend on their numbers alone, so they are the same in
both directions, and every block is decrypted by itself.

Encrypted data in chunks then opens chunk by chunk: each has the number it was
sealed under, and only the last may be shorter than the others.

Results:
* `AeadMode.lawful_context`: what is asked of a mode holds for all of them.
* `Aead.opening_sealing`: what was sealed is opened.
* `Protection.ChunkedAead.decrypt_encrypt`: a content in chunks of any size is decrypted.
-/
namespace OpenPGP

open Crypto

namespace Crypto

/-! ## Modes -/

/-- What it takes to open what was sealed. -/
structure AeadContext.Lawful (c : AeadContext) : Prop where
  decrypt_encrypt : ∀ plaintext, c.decrypt (c.encrypt plaintext) = plaintext
  length_encrypt : ∀ plaintext, (c.encrypt plaintext).length = plaintext.length
  length_tag : ∀ plaintext ciphertext, (c.tag plaintext ciphertext).length = 16

theorem AeadContext.Lawful.opening?_sealing {c : AeadContext} (h : c.Lawful) (plaintext : Octets) :
    c.opening? (c.sealing plaintext) = some plaintext ∧
      (c.sealing plaintext).length = plaintext.length + 16 := by
  have htag := h.length_tag plaintext (c.encrypt plaintext)
  have hlength : (c.sealing plaintext).length = plaintext.length + 16 := by
    rw [sealing, List.length_append, h.length_encrypt, htag]
  have hsplit : (c.sealing plaintext).length - 16 = (c.encrypt plaintext).length := by
    rw [hlength, h.length_encrypt]
    omega
  refine ⟨?_, hlength⟩
  rw [opening?, if_neg (by omega), hsplit]
  simp only [sealing, List.take_left, List.drop_left, h.decrypt_encrypt, if_true]

theorem length_doubled (block : Octets) : (doubled block).length = 16 := Octets.length_bigEndian _ _

theorem length_xor_blocks {a b : Octets} (ha : a.length = 16) (hb : b.length = 16) :
    (Octets.xor a b).length = 16 :=
  (Octets.length_xor_of_le (Nat.le_of_eq (ha.trans hb.symm))).trans ha

namespace Eax

variable {cipher : Octets → Octets}

theorem length_tag (h : ∀ block, (cipher block).length = 16) (nonce associated ciphertext : Octets) :
    (tag cipher nonce associated ciphertext).length = 16 :=
  length_xor_blocks (length_xor_blocks (h _) (h _)) (h _)

end Eax

theorem Gcm.length_tag (cipher : Octets → Octets) (nonce associated ciphertext : Octets) :
    (tag cipher nonce associated ciphertext).length = 16 :=
  length_xor_blocks rfl (counterBlock cipher nonce 1).property

namespace Ocb

variable {cipher : Octets → Octets}

/-- Masks for blocks have the size of a block. -/
def Masks.Whole (masks : Masks) : Prop :=
  masks.part.length = 16 ∧ ∀ zeros, (masks.block zeros).length = 16

theorem Masks.whole_ofCipher (h : ∀ block, (cipher block).length = 16) : (ofCipher cipher).Whole := by
  refine ⟨h _, fun zeros => ?_⟩
  induction zeros with
  | zero => exact length_doubled _
  | succ zeros => exact length_doubled _

theorem length_firstOffset (cipher : Octets → Octets) (nonce : Octets) :
    (firstOffset cipher nonce).length = 16 := Octets.length_bigEndian _ _

/-- Working through blocks keeps their sizes, and working through them again in the other direction
undoes it, with the same last offset and whatever part of a block is behind them. -/
theorem blocks_blocks {masks : Masks} (hm : masks.Whole) {encrypt decrypt : Octets → Octets}
    (he : ∀ block, (encrypt block).length = 16)
    (hd : ∀ block : Octets, block.length = 16 → decrypt (encrypt block) = block) {i : Nat}
    {offset data : Octets} (ho : offset.length = 16) {whole : List Octets} {last part : Octets}
    (h : blocks masks encrypt i offset data = (whole, last, part)) :
    last.length = 16 ∧ part.length < 16 ∧ whole.flatten.length + part.length = data.length ∧
      ∃ plain : List Octets, plain.flatten ++ part = data ∧ ∀ behind : Octets, behind.length < 16 →
        blocks masks decrypt i offset (whole.flatten ++ behind) = (plain, last, behind) := by
  fun_induction blocks masks encrypt i offset data generalizing whole last part with
  | case1 i offset data hwhole offset' block rest last' part' hrest =>
    rename_i ih
    obtain ⟨rfl, rfl, rfl⟩ : block :: rest = whole ∧ last' = last ∧ part' = part := by simpa using h
    have hdata : data.length = 16 + (data.drop 16).length := by
      rw [List.length_take] at hwhole
      rw [List.length_drop]
      omega
    have ho' : offset'.length = 16 := length_xor_blocks ho (hm.2 _)
    have hinner : (Octets.xor offset' (data.take 16)).length = 16 := length_xor_blocks ho' hwhole
    have hblock : block.length = 16 := length_xor_blocks ho' (he _)
    obtain ⟨hlast, hpart, hlength, plain, hplain, hback⟩ := ih ho' hrest
    refine ⟨hlast, hpart, ?_, data.take 16 :: plain, ?_, fun behind hb => ?_⟩
    · rw [List.flatten_cons, List.length_append, hblock, hdata, ← hlength]
      omega
    · rw [List.flatten_cons, List.append_assoc, hplain, List.take_append_drop]
    · -- the block is decrypted under the same offset
      have hcancel : Octets.xor offset' (decrypt (Octets.xor offset' block)) = data.take 16 := by
        rw [Octets.xor_xor_cancel_left (Nat.le_of_eq (by rw [he, ho'])), hd _ hinner,
          Octets.xor_xor_cancel_left (Nat.le_of_eq (by rw [hwhole, ho']))]
      rw [List.flatten_cons, List.append_assoc, blocks, dif_pos (by rw [List.take_left' hblock, hblock])]
      simp only [List.take_left' hblock, List.drop_left' hblock]
      rw [hback behind hb]
      exact congrArg (· :: plain, last', behind) hcancel
  | case2 i offset data hwhole =>
    obtain ⟨rfl, rfl, rfl⟩ : [] = whole ∧ offset = last ∧ data = part := by simpa using h
    have hshort : data.length < 16 := by
      rw [List.length_take] at hwhole
      omega
    refine ⟨ho, hshort, by simp, [], rfl, fun behind hb => ?_⟩
    rw [List.flatten_nil, List.nil_append, blocks, dif_neg]
    rw [List.length_take]
    omega

variable (h : ∀ block, (cipher block).length = 16)

include h

/-- What went through the cipher in one direction comes back in the other, and has kept its length. -/
theorem transform_transform {there back : Octets → Octets} (ht : ∀ block, (there block).length = 16)
    (hd : ∀ block : Octets, block.length = 16 → back (there block) = block) (nonce data : Octets) :
    (transform cipher back nonce (transform cipher there nonce data).1).1 = data ∧
      (transform cipher there nonce data).1.length = data.length ∧
      (transform cipher there nonce data).2.length = 16 := by
  have hm := Masks.whole_ofCipher h
  generalize hrun : blocks (Masks.ofCipher cipher) there 1 (firstOffset cipher nonce) data = run
  obtain ⟨whole, last, part⟩ := run
  obtain ⟨hlast, hpart, hlength, plain, hplain, hback⟩ :=
    blocks_blocks hm ht hd (length_firstOffset cipher nonce) hrun
  have hmask : (Octets.xor last (Masks.ofCipher cipher).part).length = 16 := length_xor_blocks hlast hm.1
  simp only [transform, hrun]
  split
  · next hp =>
    subst hp
    have hback := hback [] (by decide)
    rw [List.append_nil] at hback hplain
    exact ⟨by simp [hback, hplain], by simpa using hlength, hlast⟩
  · next hp =>
    have hle : part.length ≤ (cipher (Octets.xor last (Masks.ofCipher cipher).part)).length := by
      rw [h]
      omega
    have hcovered := Octets.length_xor_of_le hle
    have hne : Octets.xor part (cipher (Octets.xor last (Masks.ofCipher cipher).part)) ≠ [] := by
      rw [← List.length_pos_iff, hcovered]
      exact List.length_pos_iff.mpr hp
    refine ⟨?_, by rw [List.length_append, hcovered, hlength], hmask⟩
    simp only [hback _ (hcovered ▸ hpart), if_neg hne, xor_xor_sized _ _ hle, hplain]

theorem length_hash (associated : Octets) : (hash cipher associated).length = 16 := by
  -- every step adds an encrypted block to the sum
  have hsteps {step : Octets × Octets × Nat → Octets → Octets × Octets × Nat}
      (hstep : ∀ state block, state.1.length = 16 → (step state block).1.length = 16)
      (blocks : List Octets) (state : Octets × Octets × Nat) (hs : state.1.length = 16) :
      (blocks.foldl step state).1.length = 16 := by
    induction blocks generalizing state with
    | nil => exact hs
    | cons block blocks ih => exact ih _ (hstep state block hs)
  refine hsteps (fun state block hs => ?_) _ _ rfl
  obtain ⟨sum, offset, i⟩ := state
  dsimp only
  split <;> exact length_xor_blocks hs (h _)

theorem length_tag (nonce associated plaintext : Octets) :
    (tag cipher nonce associated plaintext).length = 16 :=
  length_xor_blocks (h _) (length_hash h associated)

end Ocb

/-- Every mode opens what it sealed. -/
theorem AeadMode.lawful_context (mode : AeadMode) (key : Aes.Key) (nonce associated : Octets) :
    (mode.context key nonce associated).Lawful := by
  have hcipher := Aes.length_encrypt key
  cases mode with
  | eax => exact ⟨mask_mask _ 0, length_mask _ 0, fun _ _ => Eax.length_tag hcipher _ _ _⟩
  | gcm => exact ⟨mask_mask _ 0, length_mask _ 0, fun _ _ => Gcm.length_tag _ _ _ _⟩
  | ocb =>
    have hback := Ocb.transform_transform hcipher hcipher fun _ => key.decrypt_encrypt
    exact ⟨fun p => (hback nonce p).1, fun p => (hback nonce p).2.1,
      fun _ _ => Ocb.length_tag hcipher _ _ _⟩

/-! ## Sealing under a key -/

theorem Aead.context_eq (size : Aes.KeySize) (mode : AeadMode) {key nonce : Octets}
    (hk : key.length = size.octets) (hn : nonce.length = mode.nonceSize) (associated : Octets) :
    context size.algorithm mode.algorithm key nonce associated =
      .ok (mode.context (Aes.expand size key) nonce associated) := by
  have hmode : AeadMode.ofAlgorithm? mode.algorithm = some mode := by cases mode <;> rfl
  have hsize : Aes.KeySize.ofAlgorithm? size.algorithm = some size := by cases size <;> rfl
  simp only [context, hmode, hsize, hn, Aes.key, hk, ne_eq, not_true_eq_false, if_true, if_false]
  rfl

/-- A key and a nonce of the right sizes seal anything, and open what they sealed. -/
theorem Aead.opening_sealing (size : Aes.KeySize) (mode : AeadMode) {key nonce : Octets}
    (hk : key.length = size.octets) (hn : nonce.length = mode.nonceSize) (associated plaintext : Octets) :
    ∃ sealed, sealing size.algorithm mode.algorithm key nonce associated plaintext = .ok sealed ∧
      opening size.algorithm mode.algorithm key nonce associated sealed = .ok plaintext ∧
      sealed.length = plaintext.length + 16 := by
  have hc := context_eq size mode hk hn associated
  have hopen := (mode.lawful_context (Aes.expand size key) nonce associated).opening?_sealing plaintext
  refine ⟨_, Except.bind_eq_ok.mpr ⟨_, hc, rfl⟩, Except.bind_eq_ok.mpr ⟨_, hc, ?_⟩, hopen.2⟩
  rw [hopen.1]
  rfl

end Crypto

/-! ## Chunks -/

namespace Protection.ChunkedAead

/-- Parameters that go together: a key and nonces of the right sizes, and chunks that hold something. -/
structure Fits (c : ChunkedAead) (size : Aes.KeySize) (kind : AeadMode) : Prop where
  algorithm : c.algorithm = size.algorithm
  key : c.key.length = size.octets
  mode : c.mode = kind.algorithm
  nonceStart : c.nonceStart.length + 8 = kind.nonceSize
  chunkLength : 0 < c.chunkLength

namespace Fits

variable {c : ChunkedAead} {size : Aes.KeySize} {kind : AeadMode}

theorem opening_sealing (h : c.Fits size kind) (index : Nat) (associated content : Octets) :
    ∃ sealed, c.sealing index associated content = .ok sealed ∧
      c.opening index associated sealed = .ok content ∧ sealed.length = content.length + tagLength := by
  have hnonce : (c.nonce index).length = kind.nonceSize := by
    rw [ChunkedAead.nonce, List.length_append, Octets.length_bigEndian, h.nonceStart]
  simp only [sealing, opening, h.algorithm, h.mode]
  exact Aead.opening_sealing size kind h.key hnonce associated content

/-- The chunks of a content are sealed to chunks that are longer by a tag, with a final tag behind them.
They are cut where they were put together, and open. -/
theorem openFrom_sealFrom (h : c.Fits size kind) (length index : Nat) (content : Octets) :
    ∃ (sealed : List Octets) (tag : Octets),
      c.sealFrom length index (Octets.pieces c.chunkLength content) = .ok (sealed.flatten ++ tag) ∧
      Octets.pieces (c.chunkLength + tagLength) sealed.flatten = sealed ∧
      c.openFrom index sealed = .ok content ∧
      tag.length = tagLength ∧ c.openFinal (index + sealed.length) length tag = .ok () ∧
      sealed.length = (Octets.pieces c.chunkLength content).length ∧
      sealed.flatten.length = content.length + sealed.length * tagLength := by
  have hpos := h.chunkLength
  generalize hsize : c.chunkLength = whole at *
  fun_induction Octets.pieces whole content generalizing index with
  | case1 content hended =>
    obtain rfl : content = [] := hended.resolve_left (by omega)
    obtain ⟨tag, hseal, hopen, htag⟩ := h.opening_sealing index (c.finalInfo length) []
    exact ⟨[], tag, hseal, Octets.pieces_nil _, rfl, by simpa using htag,
      Except.bind_eq_ok.mpr ⟨[], hopen, rfl⟩, rfl, rfl⟩
  | case2 content hne ih =>
    obtain ⟨first, hseal, hopen, hlength⟩ := h.opening_sealing index c.info (content.take whole)
    obtain ⟨sealed, tag, hrest, hpieces, hopens, htag, hfinal, hcount, hall⟩ := ih (index + 1)
    have hcontent : content ≠ [] := fun e => hne (.inr e)
    have hlong : tagLength < first.length := by
      have := List.length_pos_iff.mpr hcontent
      rw [hlength, List.length_take]
      omega
    refine ⟨first :: sealed, tag, ?_, ?_, ?_, htag, ?_, ?_, ?_⟩
    · rw [List.flatten_cons, List.append_assoc]
      exact Except.bind_eq_ok.mpr ⟨first, hseal, Except.bind_eq_ok.mpr ⟨_, hrest, rfl⟩⟩
    · rw [List.flatten_cons]
      by_cases hwhole : whole ≤ content.length
      · rw [Octets.pieces_append (by omega) (by rw [hlength, List.length_take, Nat.min_eq_left hwhole]),
          hpieces]
      · -- a chunk that is not whole is the last
        obtain rfl : sealed = [] := by
          rw [List.drop_of_length_le (by omega), Octets.pieces_nil] at hcount
          exact List.length_eq_zero_iff.mp hcount
        rw [List.flatten_nil, List.append_nil, Octets.pieces_of_le]
        · exact List.length_pos_iff.mp (by omega)
        · rw [hlength, List.length_take]
          omega
    · rw [openFrom, if_neg (by omega)]
      refine Except.bind_eq_ok.mpr ⟨_, Except.mapError_eq_ok.mpr hopen, ?_⟩
      refine Except.bind_eq_ok.mpr ⟨_, hopens, ?_⟩
      rw [List.take_append_drop]
      rfl
    · rwa [List.length_cons, ← Nat.add_assoc, Nat.add_right_comm]
    · rw [List.length_cons, List.length_cons, hcount]
    · rw [List.flatten_cons, List.length_append, hall, hlength, List.length_take, List.length_drop,
        List.length_cons, Nat.succ_mul]
      omega

/-- **What was sealed in chunks is opened.** -/
theorem decrypt_encrypt (h : c.Fits size kind) (content : Octets) :
    ∃ body, c.encrypt content = .ok body ∧ c.decrypt body = .ok content ∧ body.length =
      content.length + ((Octets.pieces c.chunkLength content).length + 1) * tagLength := by
  obtain ⟨sealed, tag, hseal, hpieces, hopens, htag, hfinal, hcount, hall⟩ :=
    h.openFrom_sealFrom content.length 0 content
  have hlength : (sealed.flatten ++ tag).length = sealed.flatten.length + tagLength := by
    rw [List.length_append, htag]
  refine ⟨sealed.flatten ++ tag, hseal, ?_, ?_⟩
  · have hsplit : (sealed.flatten ++ tag).length - tagLength = sealed.flatten.length := by omega
    have hchunks : c.chunks (sealed.flatten ++ tag) = sealed := by
      rw [chunks, hsplit, List.take_left, hpieces]
    rw [Nat.zero_add] at hfinal
    rw [decrypt, if_neg (by omega), hchunks, hsplit, List.drop_left]
    exact Except.bind_eq_ok.mpr ⟨content, hopens,
      Except.bind_eq_ok.mpr ⟨(), Except.mapError_eq_ok.mpr hfinal, rfl⟩⟩
  · rw [hlength, hall, hcount, Nat.succ_mul, Nat.add_assoc]

end Fits

end Protection.ChunkedAead

end OpenPGP
