import OpenPGP.Compose.Draft
import OpenPGP.Proofs.KeyAgreement
import OpenPGP.Proofs.KeySizes
import OpenPGP.Proofs.Trials
/-!
# Session keys for one credential

A key packet that was made for a passphrase or a recipient gives the session key
to whoever has the passphrase or the secret key. Whatever cipher and protection
were chosen, the encrypted data behind it then resolves to its content at the
first trial.

Results:
* `Resolution.deriveWith_v4`, `Resolution.deriveWith_v6`: passphrase packets give their key.
* `X25519.unwrapSessionKey_wrapSessionKey`: what was wrapped to a public point is unwrapped.
* `EncryptedData.resolveBy_of_trial`: the trial of the one key packet decides.
-/
namespace OpenPGP

open Crypto

variable {policy : Policy}

/-! ## Ciphers -/

namespace Crypto.Aes.KeySize

theorem isCanonical_algorithm (size : KeySize) : size.algorithm.IsCanonical := by
  cases size <;> exact Identifier.isCanonical_registered _ _

theorem keySize_algorithm (size : KeySize) : size.algorithm.keySize = some size.octets := by
  cases size <;> rfl

theorem blockSize_algorithm (size : KeySize) : size.algorithm.blockSize = some 16 := by
  cases size <;> rfl

theorem key_algorithm (size : KeySize) {key : Octets} (h : key.length = size.octets) :
    Aes.key size.algorithm key = .ok (expand size key) := by
  have hsize : ofAlgorithm? size.algorithm = some size := by cases size <;> rfl
  simp only [Aes.key, hsize, h, if_true]

end Crypto.Aes.KeySize

theorem Crypto.CipherFeedback.decrypt_encrypt (size : Aes.KeySize) {key : Octets}
    (h : key.length = size.octets) (data : Octets) :
    ∃ encrypted, encrypt size.algorithm key data = .ok encrypted ∧
      decrypt size.algorithm key encrypted = .ok data ∧ encrypted.length = data.length := by
  have hcipher := Aes.length_encrypt (Aes.expand size key)
  have hkey := size.key_algorithm h
  exact ⟨_, Except.bind_eq_ok.mpr ⟨_, hkey, rfl⟩, Except.bind_eq_ok.mpr ⟨_, hkey,
    congrArg Except.ok (decryptFrom_encryptFrom hcipher _ _)⟩, length_encryptFrom hcipher _ _⟩

/-! ## Passphrases -/

namespace Resolution

variable {size : Aes.KeySize} {key passphrase : Octets}

theorem deriveFor_of_accepts (hp : policy.acceptsSymmetric size.algorithm = true)
    {specifier : Specifier} {derived : Octets}
    (h : specifier.deriveKey passphrase size.octets = .ok derived) :
    deriveFor policy size.algorithm specifier passphrase = .ok derived := by
  simp only [deriveFor, hp, size.keySize_algorithm, attempting, h]
  rfl

/-- A version 4 packet gives the cipher and the key that were encrypted in it. -/
theorem deriveWith_v4 (hp : policy.acceptsSymmetric size.algorithm = true) {specifier : Specifier}
    {derived : Octets} (h : specifier.deriveKey passphrase size.octets = .ok derived)
    (hl : derived.length = size.octets) (key : Octets) : ∃ encrypted,
      CipherFeedback.encrypt size.algorithm derived (size.algorithm.code :: key) = .ok encrypted ∧
      deriveWith policy (.v4 size.algorithm specifier (some encrypted)) passphrase =
        .ok ⟨some size.algorithm, key, false⟩ ∧ encrypted.length = key.length + 1 := by
  obtain ⟨encrypted, he, hd, hlength⟩ := CipherFeedback.decrypt_encrypt size hl (size.algorithm.code :: key)
  refine ⟨encrypted, he, Except.bind_eq_ok.mpr ⟨derived, deriveFor_of_accepts hp h, ?_⟩, hlength⟩
  refine Except.bind_eq_ok.mpr ⟨_, Except.mapError_eq_ok.mpr hd, ?_⟩
  simp only [size.isCanonical_algorithm.ofCode_code]
  rfl

/-- A version 6 packet gives the key that was sealed in it. -/
theorem deriveWith_v6 (hp : policy.acceptsSymmetric size.algorithm = true) {mode : AeadMode}
    (hm : policy.acceptsAead mode.algorithm = true) {specifier : Specifier} {derived iv : Octets}
    (h : specifier.deriveKey passphrase size.octets = .ok derived) (hl : derived.length = size.octets)
    (hiv : iv.length = mode.nonceSize) (key : Octets) : ∃ wrapping encrypted,
      Hkdf.sha256 derived none (passphraseInfo size.algorithm mode.algorithm) size.octets = .ok wrapping ∧
      Aead.sealing size.algorithm mode.algorithm wrapping iv
        (passphraseInfo size.algorithm mode.algorithm) key = .ok encrypted ∧
      deriveWith policy (.v6 size.algorithm mode.algorithm specifier iv encrypted) passphrase =
        .ok ⟨none, key, true⟩ ∧ encrypted.length = key.length + 16 := by
  have hsize : size.octets ≤ 255 * 32 := by cases size <;> decide
  obtain ⟨wrapping, hw, hlength⟩ := Hkdf.sha256_sized derived none
    (passphraseInfo size.algorithm mode.algorithm) hsize
  obtain ⟨encrypted, hseal, hopen, hsealed⟩ := Aead.opening_sealing size mode hlength hiv
    (passphraseInfo size.algorithm mode.algorithm) key
  refine ⟨wrapping, encrypted, hw, hseal, ?_, hsealed⟩
  simp only [deriveWith, hm, Bool.not_true, Bool.false_eq_true, if_false]
  refine Except.bind_eq_ok.mpr ⟨derived, deriveFor_of_accepts hp h, ?_⟩
  rw [hl]
  refine Except.bind_eq_ok.mpr ⟨wrapping, Except.mapError_eq_ok.mpr hw, ?_⟩
  exact Except.bind_eq_ok.mpr ⟨key, Except.mapError_eq_ok.mpr hopen, rfl⟩

end Resolution

/-! ## Recipients -/

/-- What was wrapped to a public point is unwrapped with its secret scalar. -/
theorem Crypto.X25519.unwrapSessionKey_wrapSessionKey (secret ephemeralSecret : Octets.Sized 32)
    {key : Octets} (h : key.length % 8 = 0) : ∃ wrapped,
      wrapSessionKey (publicKey secret) ephemeralSecret key = .ok (publicKey ephemeralSecret, wrapped) ∧
      unwrapSessionKey secret (publicKey ephemeralSecret) wrapped = .ok key ∧
      wrapped.length = key.length + 8 := by
  have hshared := shared_publicKey_comm secret ephemeralSecret
  have hne := shared_publicKey_ne_zero ephemeralSecret secret
  obtain ⟨wrapping, hw, -⟩ := Hkdf.sha256_sized ((publicKey ephemeralSecret).val ++
    (publicKey secret).val ++ (shared ephemeralSecret (publicKey secret)).val) none
    (Octets.ofText "OpenPGP X25519") (show 16 ≤ 255 * 32 by decide)
  obtain ⟨wrapped, hwrap, hunwrap, hlength⟩ := KeyWrap.unwrap?_wrap? (Aes.expand .bits128 wrapping) h
  have hkey : wrappingKey (publicKey ephemeralSecret) (publicKey secret)
      (shared ephemeralSecret (publicKey secret)) = .ok (Aes.expand .bits128 wrapping) :=
    Except.bind_eq_ok.mpr ⟨wrapping, hw, rfl⟩
  refine ⟨wrapped, ?_, ?_, hlength⟩
  · simp only [wrapSessionKey, if_neg hne]
    refine Except.bind_eq_ok.mpr ⟨_, hkey, ?_⟩
    rw [hwrap]
    rfl
  · simp only [unwrapSessionKey, hshared, if_neg hne]
    refine Except.bind_eq_ok.mpr ⟨_, hkey, ?_⟩
    rw [hunwrap]
    rfl

namespace Resolution

theorem decryptWith_x25519 (hp : policy.acceptsPublicKey .x25519 = true) {secret ephemeral : Octets.Sized 32}
    {created : UInt32} {flags : KeyFlags} {wrapped key : Octets}
    (h : X25519.unwrapSessionKey secret ephemeral wrapped = .ok key) (version : UInt8)
    (recipient : Option KeyIdentifier) (algorithm : Option SymmetricAlgorithm) :
    decryptWith policy ⟨version, recipient, .x25519, .x25519 ephemeral algorithm wrapped⟩
      (.x25519 secret created flags) = .ok ⟨algorithm, key, true⟩ := by
  have hd : attempting (DecryptionKey.decryptSessionKey (.x25519 secret created flags)
      (.x25519 ephemeral algorithm wrapped)) = .ok key := Except.mapError_eq_ok.mpr h
  simp only [decryptWith, hp, Bool.not_true, Bool.false_eq_true, if_false]
  exact Except.bind_eq_ok.mpr ⟨key, hd, rfl⟩

/-! ## Acceptance -/

/-- A candidate is accepted under which the layer decrypts, if it need not be checked or passes. -/
theorem accept_of_decrypt {data : EncryptedData} {source : KeySource} {candidate : Candidate}
    {algorithm : SymmetricAlgorithm} {content : Octets}
    (hc : cipherFor data candidate = .ok algorithm) (hp : policy.acceptsSymmetric algorithm = true)
    (hl : algorithm.keySize = some candidate.octets.length)
    (hq : candidate.authenticated = false → data.quickCheck algorithm candidate.octets = .ok true)
    (hd : data.decrypt ⟨some algorithm, candidate.octets⟩ = .ok content) :
    accept policy data source candidate =
      .ok ⟨algorithm, ⟨some algorithm, candidate.octets⟩, source, content⟩ :=
  accept_eq_ok_iff.mpr ⟨algorithm, content, ⟨hc, hp, hl, hq⟩, hd, rfl⟩

end Resolution

/-- Where the first trial succeeds, the layer is opened by it. -/
theorem EncryptedData.resolveBy_of_trial {data : EncryptedData} {credentials : CredentialProvider}
    {packets : List KeyPacket} {packet : Option Nat} {source : KeySource}
    {unlocking : Resolution.Unlocking} {trials : List Resolution.Trial}
    {candidate : Resolution.Candidate} {resolved : ResolvedKey}
    (ht : Resolution.trials credentials packets data.version =
      .attempt packet source unlocking :: trials)
    (hu : unlocking.candidate policy = .ok candidate)
    (ha : Resolution.accept policy data source candidate = .ok resolved) :
    data.resolveBy policy credentials packets = .ok resolved := by
  have hrun : (Resolution.Trial.attempt packet source unlocking).run policy data = .ok resolved :=
    Except.bind_eq_ok.mpr ⟨candidate, hu, ha⟩
  have hruns : Resolution.Runs policy data (Resolution.trials credentials packets data.version) []
      (some resolved) := by
    rw [ht]
    exact .success hrun
  exact resolveBy_of_runs hruns

end OpenPGP
