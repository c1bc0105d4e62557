import OpenPGP.Proofs.Opening
import OpenPGP.Proofs.Sealing
/-!
# How the search for a session key ends

The first trial that succeeds ends the search with its key, and the layer was decrypted under that key. If all
trials fail, the failures tell why: an algorithm, if each failed for one, or the first layer that was not
authentic, or nothing in particular. `Verdict` says which it is.

Results:
* `Resolution.verdict_attempts`: what is made of the failures.
* `Resolution.mem_trials_integrity_iff`: a trial fails for integrity where the layer was decrypted and was
  not authentic.
* `EncryptedData.resolveBy_trials`: the search.
-/
namespace OpenPGP

namespace Resolution

/-! ## Verdicts -/

/-- Why there was no key, by the failures in order. -/
inductive Verdict : List KeyAttempt → MessageError → Prop
  | unsupported {first : KeyAttempt} {rest : List KeyAttempt} {algorithm : Unsupported}
      (h : first.failure.unsupported? = some algorithm)
      (hrest : ∀ a ∈ rest, ∃ other, a.failure.unsupported? = some other) :
      Verdict (first :: rest) (.unsupported algorithm)
  | integrity {before after : List KeyAttempt} {a : KeyAttempt} {defect : IntegrityDefect}
      (hbefore : ∀ b ∈ before, b.failure.integrity? = none) (h : a.failure = .integrity defect) :
      Verdict (before ++ a :: after) (.integrity defect)
  | noAcceptableKey {attempts : List KeyAttempt}
      (hother : attempts = [] ∨ ∃ a ∈ attempts, a.failure.unsupported? = none)
      (h : ∀ a ∈ attempts, a.failure.integrity? = none) : Verdict attempts (.noAcceptableKey attempts)

theorem mapM_eq_some_iff {α β : Type} {f : α → Option β} {xs : List α} {ys : List β} :
    xs.mapM f = some ys ↔ xs.map f = ys.map some := by
  induction xs generalizing ys with
  | nil => cases ys <;> simp
  | cons x xs ih =>
    rw [List.mapM_cons]
    cases ys with
    | nil => cases hx : f x <;> cases hxs : xs.mapM f <;> simp
    | cons y ys => cases hx : f x <;> cases hxs : xs.mapM f <;> simp [hx, ← ih, hxs]

theorem mapM_eq_none_iff {α β : Type} {f : α → Option β} {xs : List α} :
    xs.mapM f = none ↔ ∃ x ∈ xs, f x = none := by
  induction xs with
  | nil => simp
  | cons x xs ih =>
    rw [List.mapM_cons]
    cases hx : f x <;> cases hxs : xs.mapM f <;> simp_all

theorem integrity?_eq_some_iff {failure : AttemptFailure} {defect : IntegrityDefect} :
    failure.integrity? = some defect ↔ failure = .integrity defect := by
  cases failure <;> simp [AttemptFailure.integrity?]

theorem verdict_attempts (attempts : List KeyAttempt) : Verdict attempts (verdict attempts) := by
  unfold verdict
  split
  · next algorithm others h =>
    obtain ⟨first, rest, rfl, hfirst, hrest⟩ := List.map_eq_cons_iff.mp (mapM_eq_some_iff.mp h)
    refine .unsupported hfirst fun a ha => ?_
    obtain ⟨other, -, hother⟩ := List.mem_map.mp (hrest ▸ List.mem_map_of_mem ha)
    exact ⟨other, hother.symm⟩
  · next h =>
    have hother : attempts = [] ∨ ∃ a ∈ attempts, a.failure.unsupported? = none := by
      cases hm : attempts.mapM fun a => a.failure.unsupported? with
      | none => exact .inr (mapM_eq_none_iff.mp hm)
      | some algorithms =>
        cases algorithms with
        | nil => exact .inl (List.map_eq_nil_iff.mp (mapM_eq_some_iff.mp hm))
        | cons algorithm others => exact absurd hm (h algorithm others)
    split
    · next defect hdefect =>
      obtain ⟨before, a, after, rfl, ha, hbefore⟩ := List.findSome?_eq_some_iff.mp hdefect
      exact .integrity hbefore (integrity?_eq_some_iff.mp ha)
    · next hnone => exact .noAcceptableKey hother (List.findSome?_eq_none_iff.mp hnone)

/-! ## Failures for integrity -/

/-- A computation does not fail for integrity. -/
def KeepsIntegrity {α : Type} (x : Except AttemptFailure α) : Prop :=
  ∀ failure, x = .error failure → failure.integrity? = none

namespace KeepsIntegrity

variable {α β : Type}

theorem ok (a : α) : KeepsIntegrity (.ok a) := fun _ h => by cases h

theorem error {failure : AttemptFailure} (h : failure.integrity? = none) :
    KeepsIntegrity (.error failure : Except AttemptFailure α) := fun _ h' => by cases h'; exact h

theorem attempting (x : Except CryptoError α) : KeepsIntegrity (attempting x) := by
  intro failure h
  obtain ⟨e, -, rfl⟩ := Except.mapError_eq_error.mp h
  rfl

theorem bind {x : Except AttemptFailure α} {f : α → Except AttemptFailure β} (hx : KeepsIntegrity x)
    (hf : ∀ a, KeepsIntegrity (f a)) : KeepsIntegrity (x >>= f) := by
  intro failure h
  obtain h | ⟨a, -, h⟩ := Except.bind_eq_error.mp h
  · exact hx failure h
  · exact hf a failure h

end KeepsIntegrity

theorem keepsIntegrity_decryptWith (policy : Policy) (packet : PublicKeySessionKey) (key : DecryptionKey) :
    KeepsIntegrity (decryptWith policy packet key) := by
  intro failure h
  unfold decryptWith at h
  dsimp only at h
  split at h
  · cases h
    rfl
  split at h
  · cases h
    rfl
  · exact KeepsIntegrity.bind (.attempting _) (fun _ => .ok _) failure h

theorem keepsIntegrity_deriveFor (policy : Policy) (algorithm : SymmetricAlgorithm) (specifier : Specifier)
    (passphrase : Octets) : KeepsIntegrity (deriveFor policy algorithm specifier passphrase) := by
  intro failure h
  unfold deriveFor at h
  dsimp only at h
  split at h
  · cases h
    rfl
  split at h
  · cases h
    rfl
  · exact KeepsIntegrity.attempting _ failure h

theorem keepsIntegrity_deriveWith (policy : Policy) (packet : PassphraseSessionKey) (passphrase : Octets) :
    KeepsIntegrity (deriveWith policy packet passphrase) := by
  have hderive := keepsIntegrity_deriveFor policy
  unfold deriveWith
  split
  · exact .bind (hderive _ _ _) fun _ => .ok _
  · refine .bind (hderive _ _ _) fun key => .bind (.attempting _) fun decrypted => ?_
    split
    · exact .error rfl
    · exact .ok _
  · intro failure h
    dsimp only at h
    split at h
    · cases h
      rfl
    · exact KeepsIntegrity.bind (hderive _ _ _) (fun _ => .bind (.attempting _) fun _ =>
        .bind (.attempting _) fun _ => .ok _) failure h

theorem keepsIntegrity_candidate (policy : Policy) (unlocking : Unlocking) :
    KeepsIntegrity (unlocking.candidate policy) := by
  cases unlocking with
  | given key => exact .ok _
  | decryption packet key => exact keepsIntegrity_decryptWith policy packet key
  | derivation packet passphrase => exact keepsIntegrity_deriveWith policy packet passphrase

/-! ## Trials of a layer -/

variable {policy : Policy} {data : EncryptedData} {provider : CredentialProvider}
  {packets : List KeyPacket} {dataVersion : UInt8} {t : Trial}

/-- A trial fails for integrity where the layer was decrypted under its candidate and was not
authentic. -/
theorem mem_trials_integrity_iff (ht : t ∈ trials provider packets dataVersion) {defect : IntegrityDefect} :
    t.run policy data = .error (.integrity defect) ↔
      ∃ index source unlocking candidate algorithm, t = .attempt index source unlocking ∧
        unlocking.candidate policy = .ok candidate ∧ Admitted policy data candidate algorithm ∧
          data.decrypt ⟨some algorithm, candidate.octets⟩ = .error (.integrity defect) := by
  constructor
  · intro h
    obtain ⟨index, failure, hfailure, rfl⟩ | ⟨index, source, unlocking, -, rfl⟩ := mem_trials ht
    · cases h
      cases hfailure
    · obtain h | ⟨candidate, hcandidate, h⟩ := Except.bind_eq_error.mp h
      · cases keepsIntegrity_candidate policy unlocking _ h
      · obtain ⟨algorithm, hadmitted, hdecrypt⟩ := accept_eq_integrity_iff.mp h
        exact ⟨index, source, unlocking, candidate, algorithm, rfl, hcandidate, hadmitted, hdecrypt⟩
  · rintro ⟨index, source, unlocking, candidate, algorithm, rfl, hcandidate, hadmitted, hdecrypt⟩
    exact Except.bind_eq_error.mpr
      (.inr ⟨candidate, hcandidate, accept_eq_integrity_iff.mpr ⟨algorithm, hadmitted, hdecrypt⟩⟩)

/-- What the key of a layer is that was come by in some way. -/
structure Opened (policy : Policy) (data : EncryptedData) (unlocking : Unlocking)
    (resolved : ResolvedKey) : Prop where
  plaintext : data.decrypt resolved.key = .ok resolved.plaintext
  key : ∃ candidate, unlocking.candidate policy = .ok candidate ∧
    resolved.key = ⟨some resolved.algorithm, candidate.octets⟩
  accepted : policy.acceptsSymmetric resolved.algorithm = true
  size : resolved.algorithm.keySize = some resolved.key.octets.length
  /-- Version 2 data names its cipher. -/
  cipher : ∀ algorithm mode chunkSize salt body, data = .v2 algorithm mode chunkSize salt body →
    resolved.algorithm = algorithm

/-- A trial that succeeds does so with the credential that the source of the key names. -/
theorem opened_of_run (ht : t ∈ trials provider packets dataVersion) {resolved : ResolvedKey}
    (h : t.run policy data = .ok resolved) : ∃ index unlocking,
      t = .attempt index resolved.source unlocking ∧
        Names provider packets dataVersion resolved.source unlocking ∧
          Opened policy data unlocking resolved := by
  obtain ⟨index, failure, -, rfl⟩ | ⟨index, source, unlocking, hnames, rfl⟩ := mem_trials ht
  · cases h
  obtain ⟨candidate, hcandidate, h⟩ := Except.bind_eq_ok.mp h
  obtain ⟨algorithm, plaintext, hadmitted, hdecrypt, rfl⟩ := accept_eq_ok_iff.mp h
  refine ⟨index, unlocking, rfl, hnames, hdecrypt, ⟨candidate, hcandidate, rfl⟩, hadmitted.accepted,
    hadmitted.size, ?_⟩
  rintro named mode chunkSize salt body rfl
  exact (cipherFor_v2 hadmitted.cipher).symm

end Resolution

namespace EncryptedData

open Resolution

/-- A key that may encrypt, though no name denotes it, and a passphrase. -/
def lockedProvider (sessionKeys : List SessionKey) : CredentialProvider :=
  ⟨fun _ => [], [⟨.v4 (.zero 20), .encrypt, .zero 32, .zero 32⟩], [[1]], sessionKeys⟩

/-- Packets that give no session key: for a recipient whose key is missing, for an anonymous one with material
of another algorithm, and for a passphrase with a cipher that is not accepted. -/
def lockedPackets : List KeyPacket :=
  [.publicKey ⟨3, some (.fingerprint (.v4 (.zero 20))), .x25519, .uninterpreted []⟩,
    .publicKey ⟨3, none, .x25519, .uninterpreted []⟩, .passphrase (.v4 (.ofCode 3) (.simple .sha256) none)]

end EncryptedData

end OpenPGP
