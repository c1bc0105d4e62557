import OpenPGP.Proofs.Outcome
import OpenPGP.Resolution
/-!
# What is tried on a layer

The search for a session key goes through nested loops and ends with the first success. `trials` is
what it tries as one list: the session keys known beforehand, then the trials of each key packet. `Runs`
says how such a list ends and what is recorded of it. `Search.Performs` relates the two, loop by loop.

Results:
* `Resolution.Runs.unique`, `Resolution.exists_runs`: every list of trials ends in one way.
* `Resolution.search_performs`: the search performs the trials.
* `EncryptedData.resolveBy_of_runs`: what comes of them is the result.
-/
namespace OpenPGP

namespace Resolution

/-! ## Trials -/

/-- How a candidate is come by. -/
inductive Unlocking where
  | given (key : SessionKey)
  | decryption (packet : PublicKeySessionKey) (key : DecryptionKey)
  | derivation (packet : PassphraseSessionKey) (passphrase : Octets)
  deriving DecidableEq

def Unlocking.candidate (policy : Policy) : Unlocking → Except AttemptFailure Candidate
  | given key => .ok ⟨key.algorithm, key.octets, false⟩
  | decryption packet key => decryptWith policy packet key
  | derivation packet passphrase => deriveWith policy packet passphrase

/-- One trial: a packet that nothing can be tried with, or a credential tried. -/
inductive Trial where
  | hopeless (packet : Nat) (failure : AttemptFailure)
  | attempt (packet : Option Nat) (source : KeySource) (unlocking : Unlocking)
  deriving DecidableEq

namespace Trial

def run (policy : Policy) (data : EncryptedData) : Trial → Except AttemptFailure ResolvedKey
  | hopeless _ failure => .error failure
  | attempt _ source unlocking => do accept policy data source (← unlocking.candidate policy)

/-- The record of a trial that failed. -/
def failed (failure : AttemptFailure) : Trial → KeyAttempt
  | hopeless packet _ => ⟨some packet, none, failure⟩
  | attempt packet source _ => ⟨packet, some source, failure⟩

end Trial

section

variable (provider : CredentialProvider)

/-- The trials of a public-key packet, the one at `index` in its layer: one for each key, or none that
could succeed. -/
def keyTrials (index : Nat) (packet : PublicKeySessionKey) : List Trial :=
  match keysFor provider packet with
  | [] => [.hopeless index (.noMatchingKey packet.recipient)]
  | keys => keys.map fun key => .attempt (some index) (.publicKey key.fingerprint) (.decryption packet key)

/-- The trials of a passphrase packet: one for each passphrase. -/
def passphraseTrials (index : Nat) (packet : PassphraseSessionKey) : List Trial :=
  provider.passphrases.zipIdx.map fun (passphrase, i) =>
    .attempt (some index) (.passphrase i) (.derivation packet passphrase)

/-- The trials of a key packet. -/
def trialsOf (dataVersion : UInt8) (packet : KeyPacket) (index : Nat) : List Trial :=
  if !packet.fits dataVersion then [.hopeless index (.versionMismatch packet.version dataVersion)]
  else match packet with
    | .publicKey packet => keyTrials provider index packet
    | .passphrase packet => passphraseTrials provider index packet

/-- The trials of the session keys known beforehand. -/
def sessionKeyTrials : List Trial :=
  provider.sessionKeys.zipIdx.map fun (key, i) => .attempt none (.sessionKey i) (.given key)

/-- Everything that is tried on a layer, in order. -/
def trials (packets : List KeyPacket) (dataVersion : UInt8) : List Trial :=
  sessionKeyTrials provider ++ packets.zipIdx.flatMap fun (packet, i) =>
    trialsOf provider dataVersion packet i

end

/-! ## What is tried -/

/-- What a source names of a provider, and how a candidate is come by with it. A key or a passphrase is
used on a packet of the layer that fits its data. -/
inductive Names (provider : CredentialProvider) (packets : List KeyPacket) (dataVersion : UInt8) :
    KeySource → Unlocking → Prop
  | sessionKey {i : Nat} {key : SessionKey} (h : provider.sessionKeys[i]? = some key) :
      Names provider packets dataVersion (.sessionKey i) (.given key)
  | passphrase {i : Nat} {passphrase : Octets} {packet : PassphraseSessionKey}
      (hp : .passphrase packet ∈ packets) (hf : (KeyPacket.passphrase packet).fits dataVersion = true)
      (h : provider.passphrases[i]? = some passphrase) :
      Names provider packets dataVersion (.passphrase i) (.derivation packet passphrase)
  | publicKey {key : DecryptionKey} {packet : PublicKeySessionKey} (hp : .publicKey packet ∈ packets)
      (hf : (KeyPacket.publicKey packet).fits dataVersion = true) (h : key ∈ keysFor provider packet) :
      Names provider packets dataVersion (.publicKey key.fingerprint) (.decryption packet key)

section

variable {provider : CredentialProvider} {packets : List KeyPacket} {dataVersion : UInt8} {t : Trial}

theorem mem_trialsOf {packet : KeyPacket} {index : Nat} (hp : packet ∈ packets)
    (h : t ∈ trialsOf provider dataVersion packet index) :
    (∃ failure : AttemptFailure, failure.integrity? = none ∧ t = .hopeless index failure) ∨
      ∃ source unlocking, Names provider packets dataVersion source unlocking ∧
        t = .attempt (some index) source unlocking := by
  unfold trialsOf at h
  split at h
  · exact .inl ⟨_, rfl, List.mem_singleton.mp h⟩
  next hfits =>
  rw [Bool.not_eq_true, Bool.not_eq_false'] at hfits
  cases packet with
  | publicKey packet =>
    dsimp only [keyTrials] at h
    split at h
    · exact .inl ⟨_, rfl, List.mem_singleton.mp h⟩
    · obtain ⟨key, hkey, rfl⟩ := List.mem_map.mp h
      exact .inr ⟨_, _, .publicKey hp hfits hkey, rfl⟩
  | passphrase packet =>
    obtain ⟨⟨passphrase, i⟩, hi, rfl⟩ := List.mem_map.mp h
    exact .inr ⟨_, _, .passphrase hp hfits (List.mem_zipIdx_iff_getElem?.mp hi), rfl⟩

theorem mem_trials (h : t ∈ trials provider packets dataVersion) :
    (∃ index, ∃ failure : AttemptFailure, failure.integrity? = none ∧ t = .hopeless index failure) ∨
      ∃ index source unlocking, Names provider packets dataVersion source unlocking ∧
        t = .attempt index source unlocking := by
  rcases List.mem_append.mp h with h | h
  · obtain ⟨⟨key, i⟩, hi, rfl⟩ := List.mem_map.mp h
    exact .inr ⟨_, _, _, .sessionKey (List.mem_zipIdx_iff_getElem?.mp hi), rfl⟩
  · obtain ⟨⟨packet, i⟩, hi, h⟩ := List.mem_flatMap.mp h
    have hpacket : packet ∈ packets := List.mem_of_getElem? (List.mem_zipIdx_iff_getElem?.mp hi)
    obtain ⟨failure, hfailure, rfl⟩ | ⟨source, unlocking, hnames, rfl⟩ := mem_trialsOf hpacket h
    · exact .inl ⟨_, failure, hfailure, rfl⟩
    · exact .inr ⟨_, source, unlocking, hnames, rfl⟩

end

/-! ## Acceptance -/

/-- What a candidate has passed when the layer is decrypted under it as a key for a cipher. -/
structure Admitted (policy : Policy) (data : EncryptedData) (candidate : Candidate)
    (algorithm : SymmetricAlgorithm) : Prop where
  cipher : cipherFor data candidate = .ok algorithm
  accepted : policy.acceptsSymmetric algorithm = true
  size : algorithm.keySize = some candidate.octets.length
  quick : candidate.authenticated = false → data.quickCheck algorithm candidate.octets = .ok true

section

variable {policy : Policy} {data : EncryptedData} {candidate : Candidate}
  {algorithm : SymmetricAlgorithm}

/-- An admitted candidate is judged by the decryption of the layer alone. -/
theorem accept_of_admitted (h : Admitted policy data candidate algorithm) (source : KeySource) :
    accept policy data source candidate =
      ((data.decrypt ⟨some algorithm, candidate.octets⟩).mapError .ofDecryption).map fun plaintext =>
        ⟨algorithm, ⟨some algorithm, candidate.octets⟩, source, plaintext⟩ := by
  unfold accept
  rw [h.cipher]
  simp only [bind, Except.bind, h.accepted, h.size, ne_eq, not_true_eq_false, Bool.not_true,
    Bool.false_eq_true, if_false]
  cases ha : candidate.authenticated with
  | true => cases data.decrypt ⟨some algorithm, candidate.octets⟩ <;> rfl
  | false =>
    have hquick : attempting (data.quickCheck algorithm candidate.octets) = .ok true :=
      Except.mapError_eq_ok.mpr (h.quick ha)
    simp only [hquick]
    cases data.decrypt ⟨some algorithm, candidate.octets⟩ <;> rfl

theorem integrity?_of_cipherFor {failure : AttemptFailure}
    (h : cipherFor data candidate = .error failure) : failure.integrity? = none := by
  unfold cipherFor at h
  split at h
  · cases h
  · cases h
    rfl
  · cases h
  split at h <;> cases h
  rfl

/-- A candidate that is not admitted is refused before the layer is decrypted. -/
theorem admitted_or_refused (policy : Policy) (data : EncryptedData) (candidate : Candidate) :
    (∃ algorithm, Admitted policy data candidate algorithm) ∨
      ∃ failure : AttemptFailure, failure.integrity? = none ∧
        ∀ source, accept policy data source candidate = .error failure := by
  cases hcipher : cipherFor data candidate with
  | error failure =>
    exact .inr ⟨failure, integrity?_of_cipherFor hcipher, fun source => by rw [accept, hcipher]; rfl⟩
  | ok algorithm =>
  by_cases haccepted : policy.acceptsSymmetric algorithm = true
  case neg =>
    refine .inr ⟨if candidate.authenticated then .rejected (.symmetric algorithm) else .invalidSessionKey,
      by split <;> rfl, fun source => ?_⟩
    rw [Bool.not_eq_true] at haccepted
    simp only [accept, hcipher, bind, Except.bind, haccepted, Bool.not_false, if_true]
    rfl
  by_cases hsize : algorithm.keySize = some candidate.octets.length
  case neg =>
    refine .inr ⟨.invalidSessionKey, rfl, fun source => ?_⟩
    simp only [accept, hcipher, bind, Except.bind, haccepted, ne_eq, hsize, Bool.not_true,
      Bool.false_eq_true, not_false_eq_true, if_false, if_true]
    rfl
  cases ha : candidate.authenticated with
  | true => exact .inl ⟨algorithm, hcipher, haccepted, hsize, fun h => by rw [ha] at h; cases h⟩
  | false =>
    cases hquick : data.quickCheck algorithm candidate.octets with
    | error e =>
      refine .inr ⟨.crypto e, rfl, fun source => ?_⟩
      simp only [accept, hcipher, bind, Except.bind, haccepted, ne_eq, hsize, ha, attempting, hquick,
        Bool.not_true, Bool.not_false, Bool.false_eq_true, not_true_eq_false, if_false, if_true]
      rfl
    | ok passed =>
      cases passed with
      | true => exact .inl ⟨algorithm, hcipher, haccepted, hsize, fun _ => hquick⟩
      | false =>
        refine .inr ⟨.quickCheckFailed, rfl, fun source => ?_⟩
        simp only [accept, hcipher, bind, Except.bind, haccepted, ne_eq, hsize, ha, attempting, hquick,
          Bool.not_true, Bool.not_false, Bool.false_eq_true, not_true_eq_false, if_false, if_true]
        rfl

theorem accept_eq_ok_iff {source : KeySource} {resolved : ResolvedKey} :
    accept policy data source candidate = .ok resolved ↔
      ∃ algorithm plaintext, Admitted policy data candidate algorithm ∧
        data.decrypt ⟨some algorithm, candidate.octets⟩ = .ok plaintext ∧
          resolved = ⟨algorithm, ⟨some algorithm, candidate.octets⟩, source, plaintext⟩ := by
  constructor
  · intro h
    obtain ⟨algorithm, hadmitted⟩ | ⟨failure, -, hrefused⟩ := admitted_or_refused policy data candidate
    · rw [accept_of_admitted hadmitted] at h
      obtain ⟨plaintext, hplain, rfl⟩ := Except.map_eq_ok.mp h
      exact ⟨algorithm, plaintext, hadmitted, Except.mapError_eq_ok.mp hplain, rfl⟩
    · rw [hrefused] at h
      cases h
  · rintro ⟨algorithm, plaintext, hadmitted, hplain, rfl⟩
    rw [accept_of_admitted hadmitted, hplain]
    rfl

theorem accept_eq_integrity_iff {source : KeySource} {defect : IntegrityDefect} :
    accept policy data source candidate = .error (.integrity defect) ↔
      ∃ algorithm, Admitted policy data candidate algorithm ∧
        data.decrypt ⟨some algorithm, candidate.octets⟩ = .error (.integrity defect) := by
  constructor
  · intro h
    obtain ⟨algorithm, hadmitted⟩ | ⟨failure, hfailure, hrefused⟩ :=
      admitted_or_refused policy data candidate
    · rw [accept_of_admitted hadmitted] at h
      obtain ⟨error, hplain, herror⟩ := Except.mapError_eq_error.mp (Except.map_eq_error.mp h)
      cases error with
      | integrity =>
        cases herror
        exact ⟨algorithm, hadmitted, hplain⟩
      | crypto => cases herror
    · rw [hrefused] at h
      cases h
      cases hfailure
  · rintro ⟨algorithm, hadmitted, hplain⟩
    rw [accept_of_admitted hadmitted, hplain]
    rfl

end

/-! ## How trials end -/

/-- How trials in order end: with the first success or with none. Each that failed is recorded. -/
inductive Runs (policy : Policy) (data : EncryptedData) :
    List Trial → List KeyAttempt → Option ResolvedKey → Prop
  | nil : Runs policy data [] [] none
  | success {t : Trial} {ts : List Trial} {resolved : ResolvedKey}
      (h : t.run policy data = .ok resolved) : Runs policy data (t :: ts) [] (some resolved)
  | failure {t : Trial} {ts : List Trial} {failure : AttemptFailure} {attempts : List KeyAttempt}
      {found : Option ResolvedKey} (h : t.run policy data = .error failure)
      (next : Runs policy data ts attempts found) :
      Runs policy data (t :: ts) (t.failed failure :: attempts) found

variable {provider : CredentialProvider} {policy : Policy} {data : EncryptedData} {ts ts' : List Trial}
  {attempts attempts' : List KeyAttempt} {found found' : Option ResolvedKey}

theorem exists_runs (policy : Policy) (data : EncryptedData) (ts : List Trial) :
    ∃ attempts found, Runs policy data ts attempts found := by
  induction ts with
  | nil => exact ⟨_, _, .nil⟩
  | cons t ts ih =>
    obtain ⟨attempts, found, next⟩ := ih
    cases h : t.run policy data with
    | ok resolved => exact ⟨_, _, .success h⟩
    | error failure => exact ⟨_, _, .failure h next⟩

namespace Runs

theorem unique (h : Runs policy data ts attempts found) (h' : Runs policy data ts attempts' found') :
    attempts = attempts' ∧ found = found' := by
  induction h generalizing attempts' found' with
  | nil =>
    cases h'
    exact ⟨rfl, rfl⟩
  | success h =>
    cases h' with
    | success h' =>
      rw [h] at h'
      cases h'
      exact ⟨rfl, rfl⟩
    | failure h' =>
      rw [h] at h'
      cases h'
  | failure h _ ih =>
    cases h' with
    | success h' =>
      rw [h] at h'
      cases h'
    | failure h' next =>
      rw [h] at h'
      cases h'
      obtain ⟨rfl, rfl⟩ := ih next
      exact ⟨rfl, rfl⟩

theorem append_success {resolved : ResolvedKey} (h : Runs policy data ts attempts (some resolved))
    (ts' : List Trial) : Runs policy data (ts ++ ts') attempts (some resolved) := by
  generalize hfound : some resolved = found at h
  induction h with
  | nil => cases hfound
  | success h =>
    cases hfound
    exact .success h
  | failure h _ ih => exact .failure h (ih hfound)

theorem append_failure (h : Runs policy data ts attempts none)
    (h' : Runs policy data ts' attempts' found) :
    Runs policy data (ts ++ ts') (attempts ++ attempts') found := by
  generalize hfound : none = found' at h
  induction h with
  | nil => exact h'
  | success h => cases hfound
  | failure h _ ih => exact .failure h (ih hfound)

theorem eq_append {resolved : ResolvedKey} (h : Runs policy data ts attempts (some resolved)) :
    ∃ before t after, ts = before ++ t :: after ∧ Runs policy data before attempts none ∧
      t.run policy data = .ok resolved := by
  generalize hfound : some resolved = found at h
  induction h with
  | nil => cases hfound
  | @success t ts _ h =>
    cases hfound
    exact ⟨[], t, ts, rfl, .nil, h⟩
  | @failure t _ _ _ _ h _ ih =>
    obtain ⟨before, t', after, rfl, hbefore, ht'⟩ := ih hfound
    exact ⟨t :: before, t', after, rfl, .failure h hbefore, ht'⟩

theorem exists_run {resolved : ResolvedKey} (h : Runs policy data ts attempts (some resolved)) :
    ∃ t ∈ ts, t.run policy data = .ok resolved := by
  obtain ⟨before, t, after, rfl, -, hrun⟩ := h.eq_append
  exact ⟨t, by simp, hrun⟩

theorem of_forall_error (h : ∀ t ∈ ts, ∃ failure, t.run policy data = .error failure) :
    ∃ attempts, Runs policy data ts attempts none := by
  induction ts with
  | nil => exact ⟨[], .nil⟩
  | cons t ts ih =>
    obtain ⟨⟨failure, ht⟩, hts⟩ := List.forall_mem_cons.mp h
    obtain ⟨attempts, next⟩ := ih hts
    exact ⟨_, .failure ht next⟩

theorem forall_error (h : Runs policy data ts attempts none) :
    ∀ t ∈ ts, ∃ failure, t.run policy data = .error failure := by
  generalize hfound : none = found at h
  induction h with
  | nil => exact fun _ ht => by cases ht
  | success => cases hfound
  | failure h _ ih => exact List.forall_mem_cons.mpr ⟨⟨_, h⟩, ih hfound⟩

end Runs

/-! ## The search performs the trials -/

/-- A search goes as some trials go, and adds to the record what they add. -/
def Search.Performs (policy : Policy) (data : EncryptedData) (m : Search Unit) (ts : List Trial) : Prop :=
  ∀ before, ∃ attempts found, Runs policy data ts attempts found ∧
    m before = match found with
      | none => .ok () (before ++ attempts)
      | some resolved => .error resolved (before ++ attempts)

namespace Search

theorem performs_pure : Performs policy data (pure ()) [] := fun before =>
  ⟨[], none, .nil, by rw [List.append_nil]; rfl⟩

theorem Performs.bind {m m' : Search Unit} (h : Performs policy data m ts)
    (h' : Performs policy data m' ts') : Performs policy data (do m; m') (ts ++ ts') := by
  intro before
  obtain ⟨attempts, found, hruns, hm⟩ := h before
  cases found with
  -- the first search found a key, so the second is never begun
  | some resolved =>
    exact ⟨attempts, some resolved, hruns.append_success ts',
      by simp only [Bind.bind, EStateM.bind, hm]⟩
  | none =>
    obtain ⟨attempts', found, hruns', hm'⟩ := h' (before ++ attempts)
    refine ⟨attempts ++ attempts', found, hruns.append_failure hruns', ?_⟩
    simp only [Bind.bind, EStateM.bind, hm, hm', List.append_assoc]

theorem Performs.forM {α : Type} {f : α → Search Unit} {trials : α → List Trial}
    (h : ∀ x, Performs policy data (f x) (trials x)) (xs : List α) :
    Performs policy data (xs.forM f) (xs.flatMap trials) := by
  induction xs with
  | nil => exact performs_pure
  | cons x xs ih =>
    rw [List.flatMap_cons]
    exact (h x).bind ih

/-- A loop with one trial for each element. -/
theorem Performs.forM_map {α : Type} {f : α → Search Unit} {trial : α → Trial}
    (h : ∀ x, Performs policy data (f x) [trial x]) (xs : List α) :
    Performs policy data (xs.forM f) (xs.map trial) := by
  rw [List.map_eq_flatMap]
  exact Performs.forM h xs

theorem performs_hopeless (index : Nat) (failure : AttemptFailure) :
    Performs policy data (record ⟨some index, none, failure⟩) [.hopeless index failure] := fun _ =>
  ⟨_, none, .failure rfl .nil, rfl⟩

theorem performs_attempt (packet : Option Nat) (source : KeySource) (unlocking : Unlocking) :
    Performs policy data
      (attempt packet source do accept policy data source (← unlocking.candidate policy))
      [.attempt packet source unlocking] := by
  intro before
  cases h : (Trial.attempt packet source unlocking).run policy data with
  | ok resolved =>
    refine ⟨[], some resolved, .success h, ?_⟩
    rw [Trial.run] at h
    rw [h, List.append_nil]
    rfl
  | error failure =>
    refine ⟨_, none, .failure h .nil, ?_⟩
    rw [Trial.run] at h
    rw [h]
    rfl

end Search

open Search

theorem trySessionKeys_performs :
    Performs policy data (trySessionKeys provider policy data) (sessionKeyTrials provider) :=
  Performs.forM_map (fun (key, i) => performs_attempt none (.sessionKey i) (.given key)) _

theorem tryPrivateKeys_performs (index : Nat) (packet : PublicKeySessionKey) :
    Performs policy data (tryPrivateKeys provider policy data index packet)
      (keyTrials provider index packet) := by
  unfold tryPrivateKeys keyTrials
  cases keysFor provider packet with
  | nil => exact performs_hopeless index _
  | cons key keys => exact Performs.forM_map (fun key => performs_attempt _ _ (.decryption packet key)) _

theorem tryPassphrases_performs (index : Nat) (packet : PassphraseSessionKey) :
    Performs policy data (tryPassphrases provider policy data index packet)
      (passphraseTrials provider index packet) :=
  Performs.forM_map (fun (passphrase, _) => performs_attempt _ _ (.derivation packet passphrase)) _

theorem tryPacket_performs (index : Nat) (packet : KeyPacket) :
    Performs policy data (tryPacket provider policy data index packet)
      (trialsOf provider data.version packet index) := by
  unfold tryPacket trialsOf
  split
  · exact performs_hopeless index _
  cases packet with
  | publicKey packet => exact tryPrivateKeys_performs index packet
  | passphrase packet => exact tryPassphrases_performs index packet

theorem search_performs (packets : List KeyPacket) :
    Performs policy data (search provider policy data packets) (trials provider packets data.version) :=
  trySessionKeys_performs.bind (Performs.forM (fun (packet, i) => tryPacket_performs i packet) _)

end Resolution

namespace EncryptedData

variable {data : EncryptedData} {policy : Policy} {provider : CredentialProvider}
  {packets : List KeyPacket} {attempts : List KeyAttempt}

open Resolution

/-- What comes of the trials is the result. -/
theorem resolveBy_of_runs {found : Option ResolvedKey}
    (h : Runs policy data (trials provider packets data.version) attempts found) :
    data.resolveBy policy provider packets = found.elim (.error (verdict attempts)) .ok := by
  obtain ⟨attempts', found', h', hsearch⟩ := @search_performs provider policy data packets []
  obtain ⟨rfl, rfl⟩ := h.unique h'
  rw [resolveBy, hsearch]
  cases found <;> rfl

theorem runs_of_resolveBy_eq_ok {resolved : ResolvedKey}
    (h : data.resolveBy policy provider packets = .ok resolved) :
    ∃ attempts, Runs policy data (trials provider packets data.version) attempts (some resolved) := by
  obtain ⟨attempts, found, hruns⟩ := exists_runs policy data (trials provider packets data.version)
  rw [resolveBy_of_runs hruns] at h
  cases found with
  | none => cases h
  | some resolved' =>
    cases h
    exact ⟨attempts, hruns⟩

theorem runs_of_resolveBy_eq_error {error : MessageError}
    (h : data.resolveBy policy provider packets = .error error) :
    ∃ attempts, Runs policy data (trials provider packets data.version) attempts none ∧
      verdict attempts = error := by
  obtain ⟨attempts, found, hruns⟩ := exists_runs policy data (trials provider packets data.version)
  rw [resolveBy_of_runs hruns] at h
  cases found with
  | none => exact ⟨attempts, hruns, Except.error.inj h⟩
  | some resolved => cases h

end EncryptedData

end OpenPGP
