import OpenPGP.Proofs.Opening
import OpenPGP.Proofs.SessionKeys
/-!
# What a failed quick check says

A key that fails the quick check should be a wrong key. For version 2 it is: the check
opens what the decryption opens first, so that a key that fails here fails there. For
version 1 it need not be. The check compares the two octets behind the random block
with the last two of the block; the decryption takes them off unread, and accepts
whatever stands there as long as the code over everything is right. So the data made with
other octets there, and no other, is decrypted under a key that fails the check.

Results:
* `ChunkedAead.decrypt_of_firstOpens`: in chunks, what fails the check is not decrypted.
* `Protection.decryptWithCode_eq_ok_iff`: what decrypts with a code, whatever stands behind its start.
* `EncryptedData.decrypt_of_quickCheck`: when a key that fails the check decrypts.
* `EncryptedData.quickCheck_misrepeated`: a right key that fails it.
-/
namespace OpenPGP

open Crypto

/-! ## Version 2 -/

namespace Protection.ChunkedAead

variable {c : ChunkedAead} {body : Octets}

theorem chunks_eq_nil (h : body.length - tagLength = 0) : c.chunks body = [] := by
  rw [chunks, h, List.take_zero, Octets.pieces, dif_pos (.inr rfl)]

theorem chunks_eq_cons (h : body.length - tagLength ≠ 0) : ∃ rest, c.chunks body =
    body.take (min (body.length - tagLength) (c.chunkLength + tagLength)) :: rest := by
  have hne : body.take (body.length - tagLength) ≠ [] := by
    intro e
    have := congrArg List.length e
    rw [List.length_take, List.length_nil] at this
    omega
  have hsize : c.chunkLength + tagLength ≠ 0 := Nat.succ_ne_zero _
  rw [chunks, Octets.pieces, dif_neg (not_or_intro hsize hne), List.take_take, Nat.min_comm]
  exact ⟨_, rfl⟩

/-- **A key that fails the check does not decrypt**: the final tag or the first chunk is refused again. -/
theorem decrypt_of_firstOpens (h : c.firstOpens body = .ok false) :
    ∃ defect, c.decrypt body = .error (.integrity defect) := by
  unfold firstOpens at h
  split at h
  · next hshort => exact ⟨.shorterThanTag, by rw [decrypt, if_pos hshort]; rfl⟩
  next hlong =>
  split at h
  · cases h
  · next hfirst =>
    rw [decrypt, if_neg hlong]
    by_cases hempty : body.length - tagLength = 0
    · rw [openFirst, if_pos hempty] at hfirst
      refine ⟨.finalTag, Except.bind_eq_error.mpr (.inr ⟨[], ?_, Except.bind_eq_error.mpr (.inl ?_)⟩)⟩
      · rw [chunks_eq_nil hempty, openFrom]
      · rw [chunks_eq_nil hempty, hempty]
        exact Except.mapError_eq_error.mpr ⟨_, hfirst, rfl⟩
    · obtain ⟨rest, hchunks⟩ := chunks_eq_cons (c := c) hempty
      rw [openFirst, if_neg hempty, Except.map_eq_error] at hfirst
      rw [hchunks]
      by_cases hcut : (body.take (min (body.length - tagLength) (c.chunkLength + tagLength))).length ≤ tagLength
      · refine ⟨.truncatedChunk, Except.bind_eq_error.mpr (.inl ?_)⟩
        rw [openFrom, if_pos hcut]
      · refine ⟨.chunkTag, Except.bind_eq_error.mpr (.inl ?_)⟩
        rw [openFrom, if_neg hcut]
        exact Except.bind_eq_error.mpr (.inl (Except.mapError_eq_error.mpr ⟨_, hfirst, rfl⟩))
  · cases h

end Protection.ChunkedAead

/-! ## Version 1 -/

namespace Protection

variable {size : Aes.KeySize} {key body : Octets}

/-- What cipher feedback decrypts with a key of the right size. -/
def feedbackOf (size : Aes.KeySize) (key body : Octets) : Octets :=
  CipherFeedback.decryptFrom (Aes.expand size key).encrypt CipherFeedback.start body

theorem encrypt_feedbackOf (hk : key.length = size.octets) (body : Octets) :
    CipherFeedback.encrypt size.algorithm key (feedbackOf size key body) = .ok body :=
  Except.bind_eq_ok.mpr ⟨_, size.key_algorithm hk,
    congrArg Except.ok (CipherFeedback.encryptFrom_decryptFrom (Aes.length_encrypt _) _ _)⟩

theorem length_feedbackOf (body : Octets) : (feedbackOf size key body).length = body.length := by
  have hcipher := Aes.length_encrypt (Aes.expand size key)
  rw [← CipherFeedback.length_encryptFrom hcipher CipherFeedback.start, feedbackOf,
    CipherFeedback.encryptFrom_decryptFrom hcipher]

theorem decryptWithCode_eq (hk : key.length = size.octets) (body : Octets) :
    decryptWithCode size.algorithm key body =
      if body.length < 16 + 2 + codeLength then .error (.integrity .shorterThanCode)
      else (withoutCode 16 (feedbackOf size key body)).mapError .integrity := by
  have hblock : blockSizeOf size.algorithm = .ok 16 := by rw [blockSizeOf, size.blockSize_algorithm]
  have hdata : CipherFeedback.decrypt size.algorithm key body = .ok (feedbackOf size key body) :=
    Except.bind_eq_ok.mpr ⟨_, size.key_algorithm hk, rfl⟩
  rw [decryptWithCode, hblock, hdata]
  rfl

/-- **What decrypts with a code**: a block, two octets, the content and the code over all of them,
whatever the two octets are. -/
theorem decryptWithCode_eq_ok_iff (hk : key.length = size.octets) {content : Octets} :
    decryptWithCode size.algorithm key body = .ok content ↔
      ∃ start repeated, start.length = 16 ∧ repeated.length = 2 ∧
        CipherFeedback.encrypt size.algorithm key (withRepeated start repeated content) = .ok body := by
  constructor
  · intro h
    rw [decryptWithCode_eq hk] at h
    split at h
    · cases h
    next hlong =>
    obtain ⟨front, hdata, rfl⟩ := withoutCode_eq_ok (Except.mapError_eq_ok.mp h)
    have hlength := congrArg List.length hdata
    simp only [length_feedbackOf, List.length_append, codeHeader, length_modificationCode, List.length_cons,
      List.length_nil] at hlength
    rw [codeLength] at hlong
    have hfront : front.take 16 ++ (front.drop 16).take 2 ++ front.drop 18 = front := by
      rw [← List.take_add, List.take_append_drop]
    refine ⟨front.take 16, (front.drop 16).take 2, by rw [List.length_take]; omega,
      by rw [List.length_take, List.length_drop]; omega, ?_⟩
    rw [withRepeated, hfront, ← hdata, encrypt_feedbackOf hk]
  · rintro ⟨start, repeated, hs, hr, h⟩
    exact (open_withRepeated size.blockSize_algorithm hs hr h).1

/-- The body of version 1 data with a content and a right code, in which the two octets behind the random
block are not the last two of the block. -/
def Misrepeats (algorithm : SymmetricAlgorithm) (key content body : Octets) : Prop :=
  ∃ start repeated : Octets, start.length = 16 ∧ repeated.length = 2 ∧ start.drop 14 ≠ repeated ∧
    CipherFeedback.encrypt algorithm key (withRepeated start repeated content) = .ok body

/-- Such a body fails the quick check, and decrypts. -/
theorem Misrepeats.opens {algorithm : SymmetricAlgorithm} {content : Octets}
    (ha : algorithm.blockSize = some 16) (h : Misrepeats algorithm key content body) :
    startRepeats algorithm key body = .ok false ∧ decryptWithCode algorithm key body = .ok content := by
  obtain ⟨start, repeated, hs, hr, hne, h⟩ := h
  obtain ⟨hopen, hcheck, -⟩ := open_withRepeated ha hs hr h
  exact ⟨hcheck.trans (congrArg _ (decide_eq_false hne)), hopen⟩

/-- Only such a body fails the quick check and decrypts. -/
theorem decryptWithCode_of_startRepeats (hk : key.length = size.octets)
    (hq : startRepeats size.algorithm key body = .ok false) :
    (∃ defect, decryptWithCode size.algorithm key body = .error (.integrity defect)) ∨
      ∃ content, decryptWithCode size.algorithm key body = .ok content ∧
        Misrepeats size.algorithm key content body := by
  cases hd : decryptWithCode size.algorithm key body with
  | ok content =>
    obtain ⟨start, repeated, hs, hr, h⟩ := (decryptWithCode_eq_ok_iff hk).mp hd
    have hcheck := (open_withRepeated size.blockSize_algorithm hs hr h).2.1
    rw [hq] at hcheck
    injection hcheck with hne
    exact .inr ⟨content, rfl, start, repeated, hs, hr, of_decide_eq_false hne.symm, h⟩
  | error e =>
    rw [decryptWithCode_eq hk] at hd
    split at hd
    · cases hd
      exact .inl ⟨_, rfl⟩
    · obtain ⟨defect, -, rfl⟩ := Except.mapError_eq_error.mp hd
      exact .inl ⟨defect, rfl⟩

end Protection

/-! ## Either version -/

namespace EncryptedData

open Protection

/-- **When a key that fails the quick check decrypts.** With a key of the cipher's size, data that fails
the check has a defect and does not decrypt, unless it is of version 1 and has a right code over a start
that is not repeated. All of these fail the check, and decrypt. -/
theorem decrypt_of_quickCheck (size : Aes.KeySize) {key : Octets} (hk : key.length = size.octets) :
    (∀ data : EncryptedData,
      (∀ named mode chunkSize salt body, data = .v2 named mode chunkSize salt body → named = size.algorithm) →
      data.quickCheck size.algorithm key = .ok false →
      (∃ defect, data.decrypt ⟨some size.algorithm, key⟩ = .error (.integrity defect)) ∨
      ∃ body content, data = .v1 body ∧ Misrepeats size.algorithm key content body) ∧
    ∀ body content, Misrepeats size.algorithm key content body →
      (EncryptedData.v1 body).quickCheck size.algorithm key = .ok false ∧
      (EncryptedData.v1 body).decrypt ⟨some size.algorithm, key⟩ = .ok content := by
  refine ⟨fun data hnamed hq => ?_, fun body content h => h.opens size.blockSize_algorithm⟩
  cases data with
  | v1 body =>
    obtain hdefect | ⟨content, -, h⟩ := decryptWithCode_of_startRepeats hk hq
    · exact .inl hdefect
    · exact .inr ⟨body, content, rfl, h⟩
  | v2 named mode chunkSize salt body =>
    obtain rfl := hnamed named mode chunkSize salt body rfl
    obtain ⟨c, hc, hfirst⟩ := Except.bind_eq_ok.mp hq
    have hc := Except.mapError_eq_ok.mp hc
    obtain ⟨defect, hd⟩ := ChunkedAead.decrypt_of_firstOpens hfirst
    exact .inl ⟨defect, Except.bind_eq_error.mpr (.inr ⟨c, Except.mapError_eq_ok.mpr hc, hd⟩)⟩

/-- Every content is that of a body whose start is not repeated. -/
theorem exists_misrepeats (size : Aes.KeySize) {key : Octets} (hk : key.length = size.octets)
    (start repeated content : Octets) (hs : start.length = 16) (hr : repeated.length = 2)
    (hne : start.drop 14 ≠ repeated) : ∃ body,
      CipherFeedback.encrypt size.algorithm key (withRepeated start repeated content) = .ok body ∧
      Misrepeats size.algorithm key content body := by
  obtain ⟨body, hbody, -, -⟩ := CipherFeedback.decrypt_encrypt size hk (withRepeated start repeated content)
  exact ⟨body, hbody, start, repeated, hs, hr, hne, hbody⟩

/-- In chunks, a body too short for a tag; with a code, a start of sevens and a letter. -/
theorem decrypt_of_quickCheck_short : ∃ key data, key = List.replicate 16 0x42 ∧
    key.length = Aes.KeySize.bits128.octets ∧
    data = v2 .aes128 .ocb 0 (.zero 32) (List.replicate 15 0) ∧
    data.quickCheck .aes128 key = .ok false ∧
    ((∃ defect, data.decrypt ⟨some .aes128, key⟩ = .error (.integrity defect)) ∨
      ∃ body content, data = .v1 body ∧ Misrepeats .aes128 key content body) ∧
    ∃ body, Misrepeats .aes128 key [0x61] body ∧ (v1 body).quickCheck .aes128 key = .ok false ∧
      (v1 body).decrypt ⟨some .aes128, key⟩ = .ok [0x61] := by
  have hk : (List.replicate 16 (0x42 : UInt8)).length = Aes.KeySize.bits128.octets := rfl
  obtain ⟨c, -, hsized, -⟩ := ChunkedAead.deriveSized_fits .bits128 .ocb 0 (Octets.Sized.zero 32).val hk
  have hshort : (v2 .aes128 .ocb 0 (.zero 32) (List.replicate 15 0)).quickCheck .aes128
      (List.replicate 16 0x42) = .ok false :=
    Except.bind_eq_ok.mpr ⟨c, Except.mapError_eq_ok.mpr hsized, rfl⟩
  obtain ⟨hfails, hopens⟩ := decrypt_of_quickCheck .bits128 hk
  obtain ⟨body, -, hbody⟩ := exists_misrepeats .bits128 hk (List.replicate 16 7) [8, 9] [0x61] rfl rfl
    (by decide)
  exact ⟨_, _, rfl, hk, rfl, hshort, hfails _ (by rintro _ _ _ _ _ ⟨⟩; rfl) hshort, body, hbody, hopens _ _ hbody⟩

/-- **A right key that fails the quick check**: the data decrypts to a literal packet, although the octets
behind its sevens are others. -/
theorem quickCheck_misrepeated : ∃ key content body : Octets, key = List.replicate 16 0x42 ∧
    content = [0xCB, 0x07, 0x62, 0x00, 0x00, 0x00, 0x00, 0x00, 0x61] ∧
    CipherFeedback.encrypt .aes128 key (withRepeated (List.replicate 16 7) [8, 9] content) = .ok body ∧
    (v1 body).quickCheck .aes128 key = .ok false ∧
    (v1 body).decrypt ⟨some .aes128, key⟩ = .ok content := by
  have hk : (List.replicate 16 (0x42 : UInt8)).length = Aes.KeySize.bits128.octets := rfl
  obtain ⟨body, hbody, h⟩ := exists_misrepeats .bits128 hk (List.replicate 16 7) [8, 9]
    [0xCB, 0x07, 0x62, 0x00, 0x00, 0x00, 0x00, 0x00, 0x61] rfl rfl (by decide)
  obtain ⟨hquick, hopen⟩ := h.opens Aes.KeySize.bits128.blockSize_algorithm
  exact ⟨_, _, body, rfl, rfl, hbody, hquick, hopen⟩

end EncryptedData

end OpenPGP
