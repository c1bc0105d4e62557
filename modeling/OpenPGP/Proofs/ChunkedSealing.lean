import Mathlib.Data.Finite.Prod
import Mathlib.Data.Fintype.EquivFin
import OpenPGP.Proofs.KeySizes
import OpenPGP.Proofs.Wire
/-!
# Exactly what was sealed

Encrypted data in chunks is an undelimited string of octets, which the reader cuts by itself. It
opens to a content exactly if it is the sealing of this content, as `Seals` describes it: every chunk
under its own number, then nothing at all, under the next number and over the length of the content.
So a body that lost, gained or exchanged chunks, or lost octets at its end, opens only if it is a
sealing again.

Nothing is assumed of the modes. Each is a bijection between the contents and the ciphertexts of a
length, the tag is a function of both, and so a mode opens nothing but what it sealed.

Results:
* `AeadContext.opening?_eq_some_iff`, `Aead.opening_eq_ok_iff`: what opens was sealed.
* `Protection.ChunkedAead.Fits.encrypt_of_decrypt`: cutting an opened body gives the chunks of its content.
* `Protection.ChunkedAead.nonces_nodup`: numbers of chunks give different nonces.
* `EncryptedData.decrypt_eq_ok_iff_seals`: encrypted data of version 2 opens exactly on its sealings.
-/
namespace OpenPGP

open Crypto

namespace Crypto

/-! ## Modes in the other direction -/

namespace Aes

instance : Finite Column := by
  refine .of_injective (fun k : Column => (k.a.toFin, k.b.toFin, k.c.toFin, k.d.toFin)) fun k k' h => ?_
  obtain ⟨a, b, c, d⟩ := k
  obtain ⟨a', b', c', d'⟩ := k'
  simpa [UInt8.toFin_inj] using h

instance : Finite Block := by
  refine .of_injective (fun s : Block => (s.w, s.x, s.y, s.z)) fun s s' h => ?_
  obtain ⟨w, x, y, z⟩ := s
  obtain ⟨w', x', y', z'⟩ := s'
  simpa using h

/-- Blocks are finitely many, so a cipher that is undone takes every block. -/
theorem Key.encryptBlock_decryptBlock (k : Key) (s : Block) : k.encryptBlock (k.decryptBlock s) = s := by
  have hundone : Function.LeftInverse k.decryptBlock k.encryptBlock := k.decryptBlock_encryptBlock
  exact hundone.rightInverse_of_surjective (Finite.surjective_of_injective hundone.injective) s

theorem Key.encrypt_decrypt (k : Key) {block : Octets} (h : block.length = 16) :
    k.encrypt (k.decrypt block) = block := by
  rw [decrypt, encrypt, Block.ofOctets_octets, encryptBlock_decryptBlock, Block.octets_ofOctets h]

end Aes

/-- Every ciphertext is that of the plaintext it decrypts to. -/
theorem AeadMode.encrypt_decrypt_context (mode : AeadMode) (key : Aes.Key)
    (nonce associated ciphertext : Octets) :
    (mode.context key nonce associated).encrypt ((mode.context key nonce associated).decrypt ciphertext) =
      ciphertext := by
  cases mode with
  | eax => exact mask_mask _ 0 ciphertext
  | gcm => exact mask_mask _ 0 ciphertext
  | ocb =>
    have hdecrypt : ∀ block, (key.decrypt block).length = 16 := fun _ => rfl
    exact (Ocb.transform_transform (Aes.length_encrypt key) hdecrypt (fun _ => key.encrypt_decrypt) nonce
      ciphertext).1

/-- Where encrypting undoes decrypting as well, only what was sealed opens. -/
theorem AeadContext.Lawful.opening?_eq_some_iff {c : AeadContext} (h : c.Lawful)
    (hback : ∀ ciphertext, c.encrypt (c.decrypt ciphertext) = ciphertext) {sealed plaintext : Octets} :
    c.opening? sealed = some plaintext ↔ c.sealing plaintext = sealed := by
  constructor
  · intro e
    unfold opening? at e
    split at e
    · cases e
    dsimp only at e
    split at e
    · next htag =>
      cases e
      rw [sealing, hback, htag, List.take_append_drop]
    · cases e
  · rintro rfl
    exact (h.opening?_sealing plaintext).1

/-- **Only what was sealed opens**, under a key and a nonce of the right sizes. -/
theorem Aead.opening_eq_ok_iff (size : Aes.KeySize) (mode : AeadMode) {key nonce : Octets}
    (hk : key.length = size.octets) (hn : nonce.length = mode.nonceSize)
    (associated sealed plaintext : Octets) :
    opening size.algorithm mode.algorithm key nonce associated sealed = .ok plaintext ↔
      sealing size.algorithm mode.algorithm key nonce associated plaintext = .ok sealed := by
  have hc := Aead.context_eq size mode hk hn associated
  have hiff : (mode.context (Aes.expand size key) nonce associated).opening? sealed = some plaintext ↔
      (mode.context (Aes.expand size key) nonce associated).sealing plaintext = sealed :=
    (mode.lawful_context (Aes.expand size key) nonce associated).opening?_eq_some_iff
      (mode.encrypt_decrypt_context _ nonce associated)
  rw [sealing, opening, hc]
  constructor
  · intro e
    obtain ⟨c, hcontext, e⟩ := Except.bind_eq_ok.mp e
    cases hcontext
    split at e
    · next hopen =>
      cases e
      exact congrArg Except.ok (hiff.mp hopen)
    · cases e
  · intro e
    obtain ⟨c, hcontext, e⟩ := Except.bind_eq_ok.mp e
    cases hcontext
    refine Except.bind_eq_ok.mpr ⟨_, rfl, ?_⟩
    rw [hiff.mpr (Except.ok.inj e)]
    rfl

end Crypto

namespace Protection.ChunkedAead

/-! ## Sealings -/

/-- A body is the sealing of a content: one sealed chunk for every piece of the content, under the number
of the piece, and behind them nothing, sealed under the next number over the length of the content. -/
def Seals (c : ChunkedAead) (content body : Octets) : Prop :=
  ∃ (chunks : List Octets) (final : Octets), body = chunks.flatten ++ final ∧
    chunks.length = (Octets.pieces c.chunkLength content).length ∧
    (∀ i piece, (Octets.pieces c.chunkLength content)[i]? = some piece →
      ∃ chunk, chunks[i]? = some chunk ∧ c.sealing i c.info piece = .ok chunk) ∧
    c.sealing chunks.length (c.finalInfo content.length) [] = .ok final

theorem sealFrom_eq_ok_iff {c : ChunkedAead} {length index : Nat} {pieces : List Octets} {body : Octets} :
    c.sealFrom length index pieces = .ok body ↔ ∃ (chunks : List Octets) (final : Octets),
      body = chunks.flatten ++ final ∧ chunks.length = pieces.length ∧
      (∀ i piece, pieces[i]? = some piece →
        ∃ chunk, chunks[i]? = some chunk ∧ c.sealing (index + i) c.info piece = .ok chunk) ∧
      c.sealing (index + chunks.length) (c.finalInfo length) [] = .ok final := by
  induction pieces generalizing index body with
  | nil =>
    rw [sealFrom]
    constructor
    · intro e
      exact ⟨[], body, rfl, rfl, fun i piece hi => by simp at hi, e⟩
    · rintro ⟨chunks, final, rfl, hcount, -, e⟩
      obtain rfl := List.length_eq_zero_iff.mp hcount
      exact e
  | cons piece pieces ih =>
    rw [sealFrom]
    constructor
    · intro e
      obtain ⟨chunk, hchunk, e⟩ := Except.bind_eq_ok.mp e
      obtain ⟨behind, hbehind, e⟩ := Except.bind_eq_ok.mp e
      cases e
      obtain ⟨chunks, final, rfl, hcount, hall, hfinal⟩ := ih.mp hbehind
      refine ⟨chunk :: chunks, final, ?_, ?_, ?_, ?_⟩
      · rw [List.flatten_cons, List.append_assoc]
      · rw [List.length_cons, List.length_cons, hcount]
      · intro i piece' hi
        cases i with
        | zero =>
          obtain rfl : piece = piece' := by simpa using hi
          exact ⟨chunk, rfl, hchunk⟩
        | succ i =>
          obtain ⟨chunk', hchunk', hsealed⟩ := hall i piece' (by simpa using hi)
          refine ⟨chunk', by simpa using hchunk', ?_⟩
          rwa [Nat.add_right_comm] at hsealed
      · rwa [List.length_cons, ← Nat.add_assoc, Nat.add_right_comm]
    · rintro ⟨chunks, final, rfl, hcount, hall, hfinal⟩
      obtain ⟨chunk, chunks, rfl⟩ : ∃ chunk rest, chunks = chunk :: rest :=
        List.exists_cons_of_length_eq_add_one hcount
      obtain ⟨first, hfirst, hsealed⟩ := hall 0 piece rfl
      obtain rfl : chunk = first := by simpa using hfirst
      refine Except.bind_eq_ok.mpr ⟨chunk, hsealed,
        Except.bind_eq_ok.mpr ⟨chunks.flatten ++ final, ?_, ?_⟩⟩
      · refine ih.mpr ⟨chunks, final, rfl, by simpa using hcount, fun i piece' hi => ?_, ?_⟩
        · obtain ⟨chunk', hchunk', hsealed'⟩ := hall (i + 1) piece' (by simpa using hi)
          refine ⟨chunk', by simpa using hchunk', ?_⟩
          rwa [Nat.add_right_comm]
        · rwa [List.length_cons, ← Nat.add_assoc, Nat.add_right_comm] at hfinal
      · rw [List.flatten_cons, List.append_assoc]
        rfl

theorem encrypt_eq_ok_iff {c : ChunkedAead} {content body : Octets} :
    c.encrypt content = .ok body ↔ c.Seals content body := by
  rw [encrypt, sealFrom_eq_ok_iff, Seals]
  simp only [Nat.zero_add]

/-! ## Cutting -/

namespace Fits

variable {c : ChunkedAead} {size : Aes.KeySize} {kind : AeadMode} (h : c.Fits size kind)

include h

theorem opening_eq_ok_iff {index : Nat} {associated sealed content : Octets} :
    c.opening index associated sealed = .ok content ↔ c.sealing index associated content = .ok sealed := by
  have hnonce : (c.nonce index).length = kind.nonceSize := by
    rw [ChunkedAead.nonce, List.length_append, Octets.length_bigEndian, h.nonceStart]
  simp only [sealing, opening, h.algorithm, h.mode]
  exact Aead.opening_eq_ok_iff size kind h.key hnonce associated sealed content

theorem length_of_sealing {index : Nat} {associated sealed content : Octets}
    (e : c.sealing index associated content = .ok sealed) : sealed.length = content.length + tagLength := by
  obtain ⟨sealed', hsealed', -, hlength⟩ := h.opening_sealing index associated content
  rw [e] at hsealed'
  cases hsealed'
  exact hlength

/-- Chunks that were cut every so many octets and opened give a content that is cut into their contents
again: all but the last chunk are whole. -/
theorem sealFrom_of_openFrom {length index : Nat} {sealed final content : Octets}
    (ho : c.openFrom index (Octets.pieces (c.chunkLength + tagLength) sealed) = .ok content)
    (hf : c.sealing (index + (Octets.pieces (c.chunkLength + tagLength) sealed).length)
      (c.finalInfo length) [] = .ok final) :
    c.sealFrom length index (Octets.pieces c.chunkLength content) = .ok (sealed ++ final) := by
  have hpos := h.chunkLength
  generalize hsize : c.chunkLength + tagLength = whole at *
  fun_induction Octets.pieces whole sealed generalizing index content with
  | case1 sealed hended =>
    obtain rfl : sealed = [] := hended.resolve_left (by omega)
    cases ho
    rw [Octets.pieces_nil]
    exact hf
  | case2 sealed hne ih =>
    unfold openFrom at ho
    split at ho
    · cases ho
    next hlong =>
    obtain ⟨first, hfirst, ho⟩ := Except.bind_eq_ok.mp ho
    obtain ⟨behind, hbehind, ho⟩ := Except.bind_eq_ok.mp ho
    cases ho
    have hseal := h.opening_eq_ok_iff.mp (Except.mapError_eq_ok.mp hfirst)
    have hlength := h.length_of_sealing hseal
    rw [List.length_cons, ← Nat.add_assoc, Nat.add_right_comm] at hf
    have hrest := ih hbehind hf
    have hpieces : Octets.pieces c.chunkLength (first ++ behind) =
        first :: Octets.pieces c.chunkLength behind := by
      rw [List.length_take] at hlength hlong
      by_cases hwhole : whole ≤ sealed.length
      · exact Octets.pieces_append hpos (by omega) behind
      · -- nothing is behind a chunk that is not whole
        rw [List.drop_of_length_le (by omega), Octets.pieces_nil] at hbehind
        cases hbehind
        rw [List.append_nil, Octets.pieces_nil,
          Octets.pieces_of_le (List.length_pos_iff.mp (by omega)) (by omega)]
    rw [hpieces, sealFrom]
    refine Except.bind_eq_ok.mpr ⟨_, hseal, Except.bind_eq_ok.mpr ⟨_, hrest, ?_⟩⟩
    rw [← List.append_assoc, List.take_append_drop]
    rfl

/-- **What opens was sealed.** -/
theorem encrypt_of_decrypt {content body : Octets} (e : c.decrypt body = .ok content) :
    c.encrypt content = .ok body := by
  unfold decrypt at e
  dsimp only at e
  split at e
  · cases e
  obtain ⟨content', hopen, e⟩ := Except.bind_eq_ok.mp e
  obtain ⟨⟨⟩, hfinal, e⟩ := Except.bind_eq_ok.mp e
  cases e
  have htag : c.sealing (c.chunks body).length (c.finalInfo content.length) [] =
      .ok (body.drop (body.length - tagLength)) := by
    obtain ⟨nothing, hnothing, hempty⟩ := Except.bind_eq_ok.mp (Except.mapError_eq_ok.mp hfinal)
    split at hempty
    · cases hempty
    next hn =>
    rw [Decidable.not_not.mp hn] at hnothing
    exact h.opening_eq_ok_iff.mp hnothing
  rw [← Nat.zero_add (c.chunks body).length] at htag
  have hseal := h.sealFrom_of_openFrom hopen htag
  rwa [List.take_append_drop] at hseal

/-- **Exactly what was sealed opens.** -/
theorem decrypt_eq_ok_iff {content body : Octets} : c.decrypt body = .ok content ↔ c.Seals content body := by
  rw [← encrypt_eq_ok_iff]
  refine ⟨h.encrypt_of_decrypt, fun e => ?_⟩
  obtain ⟨body', hbody', hopen, -⟩ := h.decrypt_encrypt content
  rw [e] at hbody'
  cases hbody'
  exact hopen

end Fits

/-! ## Nonces -/

theorem nonce_inj (c : ChunkedAead) {i j : Nat} (hi : i < 2 ^ 64) (hj : j < 2 ^ 64)
    (e : c.nonce i = c.nonce j) : i = j :=
  have hmodulus : Nat.pow 256 8 = 2 ^ 64 := rfl
  Octets.bigEndian_inj (hmodulus ▸ hi) (hmodulus ▸ hj) (List.append_cancel_left e)

/-- The nonces that a content is sealed under: one for every chunk, and the one of the final tag. -/
def nonces (c : ChunkedAead) (content : Octets) : List Octets :=
  (List.range ((Octets.pieces c.chunkLength content).length + 1)).map c.nonce

/-- No nonce is used twice. -/
theorem nonces_nodup (c : ChunkedAead) {content : Octets} (h : content.length < 2 ^ 64) :
    (c.nonces content).Nodup := by
  have hcount := Octets.length_pieces_le c.chunkLength content
  rw [nonces, List.Nodup, List.pairwise_map]
  refine List.Pairwise.imp_of_mem ?_ List.nodup_range
  intro i j hi hj hne e
  rw [List.mem_range] at hi hj
  exact hne (c.nonce_inj (by omega) (by omega) e)

end Protection.ChunkedAead

open Protection in
/-- **Encrypted data in chunks opens exactly on its sealings.** For every cipher, mode, chunk size, salt
and session key of the cipher's size there is one set of parameters `c`, which the sealing side derives as
well, such that the data opens to a content exactly if its body is the sealing of the content under `c`,
in pieces of `2 ^ (chunkSize + 6)` octets. Sealing gives this body, for every content there is one and it
opens, every seal is longer than what it holds by sixteen octets, and no two of them have the same nonce. -/
theorem EncryptedData.decrypt_eq_ok_iff_seals (size : Aes.KeySize) (kind : AeadMode) {chunkSize : UInt8}
    (hc : chunkSize ≤ maxChunkSize) (salt : Octets.Sized 32) {key : Octets}
    (hk : key.length = size.octets) :
    ∃ c, ChunkedAead.derive size.algorithm kind.algorithm chunkSize salt.val key = .ok c ∧
      c.chunkLength = 2 ^ (chunkSize.toNat + 6) ∧
      (∀ named body content, (v2 size.algorithm kind.algorithm chunkSize salt body).decrypt
        ⟨some named, key⟩ = .ok content ↔ c.Seals content body) ∧
      (∀ content body, c.encrypt content = .ok body ↔ c.Seals content body) ∧
      (∀ content, ∃ body, c.encrypt content = .ok body ∧ ∀ named,
        (v2 size.algorithm kind.algorithm chunkSize salt body).decrypt ⟨some named, key⟩ = .ok content) ∧
      (∀ index associated content sealed, c.sealing index associated content = .ok sealed →
        sealed.length = content.length + 16) ∧
      ∀ content, content.length < 2 ^ 64 → (c.nonces content).Nodup := by
  obtain ⟨c, hderive, hsized, hfits, hlength⟩ :=
    ChunkedAead.deriveSized_fits size kind chunkSize salt.val hk
  have hdecrypt (named : SymmetricAlgorithm) (body : Octets) :
      (v2 size.algorithm kind.algorithm chunkSize salt body).decrypt ⟨some named, key⟩ =
        c.decrypt body := by
    simp only [decrypt, hsized]
    rfl
  refine ⟨c, hderive, ?_, fun named body content => ?_, fun content body => ChunkedAead.encrypt_eq_ok_iff,
    fun content => ?_, fun index associated content sealed => hfits.length_of_sealing,
    fun content => c.nonces_nodup⟩
  · have hsmall : chunkSize.toNat ≤ 16 := hc
    rw [hlength, chunkLength, Nat.mod_eq_of_lt (by omega), Nat.one_shiftLeft]
  · rw [hdecrypt]
    exact hfits.decrypt_eq_ok_iff
  · obtain ⟨body, hbody, hopen, -⟩ := hfits.decrypt_encrypt content
    exact ⟨body, hbody, fun named => (hdecrypt named body).trans hopen⟩

open Protection in
/-- A content of a hundred and fifty octets in chunks of 64: three of them and the final tag. -/
theorem EncryptedData.decrypt_eq_ok_iff_seals_threeChunks :
    ∃ (salt : Octets.Sized 32) (key content body : Octets) (c : ChunkedAead),
      salt = .zero 32 ∧ key = List.replicate 16 0x42 ∧ content = List.replicate 150 0x61 ∧
      (0 : UInt8) ≤ maxChunkSize ∧ key.length = Aes.KeySize.bits128.octets ∧
      ChunkedAead.derive Aes.KeySize.bits128.algorithm AeadMode.ocb.algorithm 0 salt.val key = .ok c ∧
      (Octets.pieces c.chunkLength content).length = 3 ∧ c.Seals content body ∧
      (v2 Aes.KeySize.bits128.algorithm AeadMode.ocb.algorithm 0 salt body).decrypt
        ⟨some .aes128, key⟩ = .ok content ∧ (c.nonces content).Nodup := by
  obtain ⟨c, hderive, hlength, hopens, -, hseals, -, hnonces⟩ :=
    decrypt_eq_ok_iff_seals .bits128 .ocb (by decide : (0 : UInt8) ≤ maxChunkSize) (.zero 32)
      (rfl : (List.replicate 16 (0x42 : UInt8)).length = Aes.KeySize.bits128.octets)
  obtain ⟨body, -, hopen⟩ := hseals (List.replicate 150 0x61)
  refine ⟨.zero 32, List.replicate 16 0x42, List.replicate 150 0x61, body, c, rfl, rfl, rfl, by decide,
    rfl, hderive, ?_, (hopens .aes128 body _).mp (hopen .aes128), hopen .aes128, ?_⟩
  · have hchunk : c.chunkLength = 64 := hlength
    rw [hchunk]
    simp [Octets.pieces]
  · exact hnonces _ (by rw [List.length_replicate]; decide)

end OpenPGP
