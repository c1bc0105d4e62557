import OpenPGP.Verification
/-!
# What a signature must fulfil

A signature verifies by fifteen requirements. `requirements` lists them in order, each
with the failure that reports it: five on the packets, that a certificate is found, and nine
on the key of the certificate, the times and the digest. Some speak of the first of several: the
first name that has a certificate, the first creation time, the first lifetime. An absent
name or lifetime is no failure, an absent creation time is one.

The times are compared with the sum of the clock and the tolerance. A requirement speaks of this sum
as a number, of any size; the check computes it as a time, and where there is no such time it gives up
and the signature is not judged at all. It gives up only behind the nine requirements in front of the
comparison.

`Checks` says how going through such a list ends.

Results:
* `Checks.eq_ok_iff`, `Checks.eq_error`: it succeeds where all requirements hold, and reports the
  first that does not.
* `VerificationContext.verify_requirements`: this is how a signature is judged, unless the check
  gives up, and when it does.
* `VerificationContext.not_verify_requirements`: a signature that is not judged.
-/
namespace OpenPGP

open Crypto

/-! ## What the areas say -/

namespace Signature

def fingerprintsIn (area : List Subpacket) : List Fingerprint :=
  area.filterMap fun p => match p.content with
    | .issuerFingerprint fingerprint => some fingerprint
    | _ => none

def keyIdsIn (area : List Subpacket) : List KeyId :=
  area.filterMap fun p => match p.content with
    | .issuer id => some id
    | _ => none

/-- The names of the issuer: fingerprints before key IDs, and of either the hashed ones first. -/
def names (s : Signature) : List KeyIdentifier :=
  (fingerprintsIn s.hashed).map .fingerprint ++ (fingerprintsIn s.unhashed).map .fingerprint ++
    ((keyIdsIn s.hashed).map .keyId ++ (keyIdsIn s.unhashed).map .keyId)

/-- The creation times in the hashed area. -/
def creationTimes (s : Signature) : List UInt32 :=
  s.hashed.filterMap fun p => match p.content with
    | .creationTime t => some t
    | _ => none

/-- The validity periods in the hashed area. -/
def lifetimes (s : Signature) : List UInt32 :=
  s.hashed.filterMap fun p => match p.content with
    | .expirationTime t => some t
    | _ => none

/-- The types of the critical subpackets in the hashed area that are not interpreted. -/
def uninterpreted (s : Signature) : List UInt8 :=
  s.hashed.filterMap fun p => match p.content with
    | .other tag _ => if p.critical then some tag else none
    | _ => none

variable (s : Signature)

theorem issuers_eq : s.issuers = s.names := by
  simp only [issuers, names, fingerprintsIn, keyIdsIn, List.filterMap_append, List.map_filterMap]
  congr 3 <;>
    · funext p
      obtain ⟨critical, content⟩ := p
      cases content <;> rfl

theorem creationTime_eq : s.creationTime = s.creationTimes.head? := List.head?_filterMap.symm

theorem expirationTime_eq : s.expirationTime = s.lifetimes.head? := List.head?_filterMap.symm

theorem unknownCritical_eq : s.unknownCritical = s.uninterpreted.head? := List.head?_filterMap.symm

end Signature

/-! ## Requirements -/

/-- Something a signature must fulfil, and the failure that says it does not. -/
structure Requirement where
  holds : Prop
  failure : SignatureFailure

/-- How going through requirements in order ends: at the first that does not hold, or well. -/
inductive Checks : List Requirement → Except SignatureFailure Unit → Prop
  | nil : Checks [] (.ok ())
  | holds {r : Requirement} {rs : List Requirement} {result : Except SignatureFailure Unit}
      (h : r.holds) (next : Checks rs result) : Checks (r :: rs) result
  | fails {r : Requirement} {rs : List Requirement} (h : ¬ r.holds) : Checks (r :: rs) (.error r.failure)

namespace Checks

variable {r : Requirement} {rs rs' : List Requirement} {result : Except SignatureFailure Unit}

theorem guard {refused : Prop} [Decidable refused] (h : r.holds ↔ ¬ refused)
    (next : r.holds → Checks rs result) :
    Checks (r :: rs) (if refused then .error r.failure else result) := by
  by_cases hrefused : refused
  · rw [if_pos hrefused]
    exact .fails fun hr => h.mp hr hrefused
  · rw [if_neg hrefused]
    exact .holds (h.mpr hrefused) (next (h.mpr hrefused))

theorem append_ok (h : Checks rs (.ok ())) (h' : Checks rs' result) : Checks (rs ++ rs') result := by
  generalize hok : Except.ok () = first at h
  induction h with
  | nil => exact h'
  | holds hr _ ih => exact .holds hr (ih hok)
  | fails => cases hok

theorem append_error {failure : SignatureFailure} (h : Checks rs (.error failure)) :
    Checks (rs ++ rs') (.error failure) := by
  generalize herror : Except.error failure = first at h
  induction h with
  | nil => cases herror
  | holds hr _ ih => exact .holds hr (ih herror)
  | fails hr =>
    cases herror
    exact .fails hr

theorem eq_ok_iff (h : Checks rs result) : result = .ok () ↔ ∀ r ∈ rs, r.holds := by
  induction h with
  | nil => simp
  | holds hr _ ih => simp [ih, hr]
  | fails hr => simp [hr]

theorem exists_of_error {failure : SignatureFailure} (h : Checks rs (.error failure)) :
    ∃ r ∈ rs, r.failure = failure := by
  generalize herror : Except.error failure = result at h
  induction h with
  | nil => cases herror
  | holds _ _ ih =>
    obtain ⟨r, hr, hf⟩ := ih herror
    exact ⟨r, List.mem_cons_of_mem _ hr, hf⟩
  | fails =>
    cases herror
    exact ⟨_, List.mem_cons_self, rfl⟩

/-- What is reported for one requirement only was met there: those in front of it hold, and it does not. -/
theorem of_error_middle {failure : SignatureFailure} (h : Checks (rs ++ r :: rs') (.error failure))
    (hbefore : ∀ b ∈ rs, b.failure ≠ failure) (hafter : ∀ a ∈ rs', a.failure ≠ failure) :
    (∀ b ∈ rs, b.holds) ∧ ¬ r.holds := by
  induction rs with
  | nil =>
    refine ⟨List.forall_mem_nil _, fun hr => ?_⟩
    cases h with
    | holds _ next =>
      obtain ⟨a, ha, hf⟩ := next.exists_of_error
      exact hafter a ha hf
    | fails hr' => exact hr' hr
  | cons b rs ih =>
    obtain ⟨hb, hbefore⟩ := List.forall_mem_cons.mp hbefore
    cases h with
    | holds hr next =>
      obtain ⟨hrs, hmiddle⟩ := ih next hbefore
      exact ⟨List.forall_mem_cons.mpr ⟨hr, hrs⟩, hmiddle⟩
    | fails => exact absurd rfl hb

/-- A requirement that holds whenever those in front of it do can be left out. -/
theorem of_middle (h : Checks (rs ++ r :: rs') result) (hr : (∀ b ∈ rs, b.holds) → r.holds) :
    Checks (rs ++ rs') result := by
  induction rs with
  | nil =>
    cases h with
    | holds _ next => exact next
    | fails hr' => exact absurd (hr (List.forall_mem_nil _)) hr'
  | cons b rs ih =>
    cases h with
    | holds hb next => exact .holds hb (ih next fun hrs => hr (List.forall_mem_cons.mpr ⟨hb, hrs⟩))
    | fails hb => exact .fails hb

/-- The first requirement that does not hold is the one reported. -/
theorem eq_error (h : Checks (rs ++ r :: rs') result) (hbefore : ∀ b ∈ rs, b.holds) (hr : ¬ r.holds) :
    result = .error r.failure := by
  induction rs with
  | nil =>
    cases h with
    | holds hr' => exact absurd hr' hr
    | fails => rfl
  | cons b rs ih =>
    obtain ⟨hb, hbefore⟩ := List.forall_mem_cons.mp hbefore
    cases h with
    | holds _ next => exact ih next hbefore
    | fails hb' => exact absurd hb hb'

end Checks

/-! ## The requirements of a verified signature -/

namespace VerificationContext

variable (c : VerificationContext) (s : Signature) (hasher : Option SignatureHasher)
  (announcement : Option OnePassSignature)

/-- The key of the first name that has a certificate: the names in the signature, then the one
announced. -/
def IsSigner (key : VerifyingKey) : Prop :=
  ∃ before name after, s.names ++ (announced announcement).toList = before ++ name :: after ∧
    (∀ b ∈ before, c.certificate? b = none) ∧ c.certificate? name = some key

/-- What the packets must say. -/
def packetRequirements : List Requirement :=
  [⟨∀ a ∈ announcement, a.type = s.type ∧ a.hashAlgorithm = s.hashAlgorithm ∧
      a.publicKeyAlgorithm = s.publicKeyAlgorithm, .onePassMismatch⟩,
   ⟨∀ a ∈ announcement, s.names = [] ∨ ∃ name ∈ s.names, name.id = a.issuer, .issuerMismatch⟩,
   ⟨s.uninterpreted = [], .unknownCritical (s.uninterpreted.headD 0)⟩,
   ⟨s.hashAlgorithm ∈ c.policy.signatureHash, .hashRejected s.hashAlgorithm⟩,
   ⟨s.publicKeyAlgorithm ∈ c.policy.publicKey, .publicKeyRejected s.publicKeyAlgorithm⟩]

/-- What the key must be, and that there is a time to compare. -/
def signerRequirements : List Requirement :=
  [⟨∃ key, c.IsSigner s announcement key ∧ key.flags.canSign = true, .notSigningKey⟩,
   ⟨∃ key, c.IsSigner s announcement key ∧ key.algorithm = s.publicKeyAlgorithm, .keyAlgorithmMismatch⟩,
   ⟨∃ created, s.creationTimes.head? = some created, .missingCreationTime⟩]

/-- What the times and the digest must be. -/
def timeRequirements : List Requirement :=
  [⟨∃ created, s.creationTimes.head? = some created ∧
      (Instant.ofSeconds created).nanoseconds ≤ c.now.nanoseconds + c.policy.clockSkew.total, .createdInFuture⟩,
   ⟨∃ key, c.IsSigner s announcement key ∧
      ∃ created, s.creationTimes.head? = some created ∧ key.created ≤ created, .predatesKey⟩,
   ⟨∀ lifetime, s.lifetimes.head? = some lifetime → lifetime = 0 ∨
      ∃ created, s.creationTimes.head? = some created ∧
        c.now.nanoseconds < (created.toNat + lifetime.toNat) * nanosecondsPerSecond, .expired⟩,
   ⟨∃ h, hasher = some h, .unsupportedHash s.hashAlgorithm⟩,
   ⟨∃ h, hasher = some h ∧ s.digestStart.val <+: h.finish s.hashTrailer, .digestStartMismatch⟩,
   ⟨∃ key, c.IsSigner s announcement key ∧ ∃ h, hasher = some h ∧
      key.verify s.hashAlgorithm (h.finish s.hashTrailer) s.material = .ok (), .badSignature⟩]

/-- The requirements in front of the comparison with the clock. -/
def requirementsBeforeClock : List Requirement :=
  c.packetRequirements s announcement ++
    ⟨∃ key, c.IsSigner s announcement key, .missingCertificate⟩ :: c.signerRequirements s announcement

def requirements : List Requirement :=
  c.requirementsBeforeClock s announcement ++ c.timeRequirements s hasher announcement

/-- That the sum of the clock and the tolerance is a time. The signature has no part in this, but there is
no result without it. -/
def clockRequirement : Requirement := ⟨(c.now.after? c.policy.clockSkew).isSome = true, .overflow⟩

variable {c s hasher announcement}

theorem isSigner_iff {key : VerifyingKey} :
    c.IsSigner s announcement key ↔ c.signer? s announcement = some key := by
  rw [IsSigner, signer?, s.issuers_eq, List.findSome?_eq_some_iff]
  simp only [and_comm]

theorem exists_isSigner_iff {key : VerifyingKey} (h : c.signer? s announcement = some key)
    {p : VerifyingKey → Prop} : (∃ key, c.IsSigner s announcement key ∧ p key) ↔ p key := by
  simp [isSigner_iff, h]

theorem checks_precheck : Checks (c.packetRequirements s announcement) (c.precheck s announcement) := by
  unfold packetRequirements precheck
  refine .guard ?_ fun _ => .guard ?_ fun _ => ?_
  · cases announcement <;> simp [hasAnnouncedKind, and_assoc]
  · cases announcement <;>
      simp [hasAnnouncedIssuer, s.issuers_eq, KeyIdentifier.matches_keyId_iff,
        Decidable.or_iff_not_imp_left]
  rw [s.unknownCritical_eq]
  cases h : s.uninterpreted with
  | cons tag tags => exact .fails (List.cons_ne_nil tag tags)
  | nil =>
    refine .holds rfl (.guard ?_ fun _ => .guard ?_ fun _ => .nil)
    · simp [Policy.acceptsHash]
    · simp [Policy.acceptsPublicKey]

theorem checks_checkWithKey {key : VerifyingKey} (hkey : c.signer? s announcement = some key) :
    Checks (c.signerRequirements s announcement ++
      c.clockRequirement :: c.timeRequirements s hasher announcement) (c.checkWithKey s key hasher) := by
  -- from here on the signer is the key, and the creation time the first of the hashed ones
  simp only [signerRequirements, timeRequirements, clockRequirement, exists_isSigner_iff hkey, checkWithKey,
    Policy.isCreatedInPast?, Signature.isNotExpired, s.creationTime_eq, s.expirationTime_eq, List.cons_append,
    List.nil_append]
  refine .guard (by simp) fun _ => .guard (by simp) fun _ => ?_
  cases s.creationTimes.head? with
  | none => exact .fails (by simp)
  | some created =>
    refine .holds ⟨created, rfl⟩ ?_
    cases hafter : c.now.after? c.policy.clockSkew with
    | none => exact .fails (by simp)
    | some latest =>
      have hsum := Instant.after?_eq_some.mp hafter
      refine .holds rfl ?_
      simp only [Option.map_some, Instant.le_def, hsum]
      by_cases hpast : (Instant.ofSeconds created).nanoseconds ≤ c.now.nanoseconds + c.policy.clockSkew.total
      · rw [decide_eq_true hpast]
        refine .holds ⟨created, rfl, hpast⟩ (.guard (by simp) fun _ => .guard ?_ fun _ => ?_)
        · cases s.lifetimes.head? <;> simp [Decidable.or_iff_not_imp_left]
        cases hasher with
        | none => exact .fails (by simp)
        | some hasher =>
          refine .holds ⟨hasher, rfl⟩ (.guard ?_ fun _ => ?_)
          · simp [List.prefix_iff_eq_take, s.digestStart.property, eq_comm]
          cases hverify : key.verify s.hashAlgorithm (hasher.finish s.hashTrailer) s.material with
          | ok => exact .holds (by simp [hverify]) .nil
          | error e => exact .fails (by simp [hverify])
      · rw [decide_eq_false hpast]
        exact .fails (by simpa using hpast)

theorem checks_check : Checks (c.requirementsBeforeClock s announcement ++
    c.clockRequirement :: c.timeRequirements s hasher announcement) (c.check s hasher announcement).2 := by
  have hpackets : Checks (c.packetRequirements s announcement) (c.precheck s announcement) :=
    checks_precheck
  unfold requirementsBeforeClock check
  rw [List.append_assoc, List.cons_append]
  cases hp : c.precheck s announcement with
  | error failure =>
    rw [hp] at hpackets
    exact hpackets.append_error
  | ok =>
    rw [hp] at hpackets
    refine hpackets.append_ok ?_
    cases hkey : c.signer? s announcement with
    | none => exact .fails (by simp [isSigner_iff, hkey])
    | some key => exact .holds ⟨key, isSigner_iff.mpr hkey⟩ (checks_checkWithKey hkey)

theorem failure_ne_overflow (c : VerificationContext) (s : Signature) (hasher : Option SignatureHasher)
    (announcement : Option OnePassSignature) :
    (∀ b ∈ c.requirementsBeforeClock s announcement, b.failure ≠ .overflow) ∧
      ∀ a ∈ c.timeRequirements s hasher announcement, a.failure ≠ .overflow := by
  simp [requirementsBeforeClock, packetRequirements, signerRequirements, timeRequirements]

/-- The check gives up exactly behind the requirements in front of the clock, if there is no such time. -/
theorem check_eq_overflow_iff : (c.check s hasher announcement).2 = .error .overflow ↔
    (∀ r ∈ c.requirementsBeforeClock s announcement, r.holds) ∧ c.now.after? c.policy.clockSkew = none := by
  have hchecks : Checks (c.requirementsBeforeClock s announcement ++
    c.clockRequirement :: c.timeRequirements s hasher announcement) (c.check s hasher announcement).2 :=
    checks_check
  constructor
  · intro h
    rw [h] at hchecks
    obtain ⟨hne, hne'⟩ := failure_ne_overflow c s hasher announcement
    obtain ⟨hbefore, hclock⟩ := hchecks.of_error_middle hne hne'
    exact ⟨hbefore, by simpa [clockRequirement] using hclock⟩
  · rintro ⟨hbefore, hclock⟩
    exact hchecks.eq_error hbefore (by simp [clockRequirement, hclock])

theorem checks_of_ne_overflow (h : (c.check s hasher announcement).2 ≠ .error .overflow) :
    Checks (c.requirements s hasher announcement) (c.check s hasher announcement).2 := by
  refine checks_check.of_middle fun hbefore => ?_
  rw [Ne, check_eq_overflow_iff, not_and] at h
  exact Option.isSome_iff_ne_none.mpr (h hbefore)

variable {placement : SignaturePlacement}

theorem verified_iff : (c.verify s hasher announcement placement).verified = true ↔
    (c.check s hasher announcement).2 = .ok () := by
  change (c.check s hasher announcement).2.isOk = true ↔ _
  cases (c.check s hasher announcement).2 <;> simp [Except.isOk, Except.toBool]

theorem failure_eq_none_iff : (c.verify s hasher announcement placement).failure = none ↔
    (c.check s hasher announcement).2 = .ok () := by
  cases h : (c.check s hasher announcement).2 <;> simp [verify, h]

theorem failure_eq_some_iff {failure : SignatureFailure} :
    (c.verify s hasher announcement placement).failure = some failure ↔
      (c.check s hasher announcement).2 = .error failure := by
  cases h : (c.check s hasher announcement).2 <;> simp [verify, h]

/-- Whether every check comes to a result. -/
def Decides (c : VerificationContext) : Prop :=
  ∀ s hasher announcement placement, (c.verify s hasher announcement placement).hasOverflowed = false

theorem hasOverflowed_iff : (c.verify s hasher announcement placement).hasOverflowed = true ↔
    (∀ r ∈ c.requirementsBeforeClock s announcement, r.holds) ∧ c.now.after? c.policy.clockSkew = none := by
  rw [SignatureVerification.hasOverflowed, decide_eq_true_iff, failure_eq_some_iff, check_eq_overflow_iff]

theorem checks_of_hasOverflowed (h : (c.verify s hasher announcement placement).hasOverflowed = false) :
    Checks (c.requirements s hasher announcement) (c.check s hasher announcement).2 := by
  refine checks_of_ne_overflow fun hoverflow => ?_
  rw [SignatureVerification.hasOverflowed, failure_eq_some_iff.mpr hoverflow, decide_eq_true rfl] at h
  cases h

/-- Every check comes to a result where the sum of clock and tolerance is a time. -/
theorem decides_of_clock (h : (c.now.after? c.policy.clockSkew).isSome = true) : c.Decides := by
  intro s hasher announcement placement
  rw [Bool.eq_false_iff, Ne, hasOverflowed_iff]
  rintro ⟨-, hclock⟩
  rw [hclock] at h
  cases h

theorem decides_of_no_certificate (h : ∀ name, c.certificate? name = none) : c.Decides := by
  intro s hasher announcement placement
  rw [Bool.eq_false_iff, Ne, hasOverflowed_iff]
  rintro ⟨hbefore, -⟩
  have hsigner : ∃ key, c.IsSigner s announcement key :=
    hbefore ⟨_, .missingCertificate⟩ (List.mem_append_right _ List.mem_cons_self)
  obtain ⟨key, before, name, after, -, -, hkey⟩ := hsigner
  rw [h name] at hkey
  cases hkey

/-- **How a signature is judged.** The check gives up exactly if the requirements in front of the clock hold
and the sum of clock and tolerance is no time. Otherwise the signature verifies if all requirements hold,
and if not, the first that does not is its failure. -/
theorem verify_requirements (c : VerificationContext) (s : Signature) (hasher : Option SignatureHasher)
    (announcement : Option OnePassSignature) (placement : SignaturePlacement) :
    ((c.verify s hasher announcement placement).failure = some .overflow ↔
      (∀ r ∈ c.requirementsBeforeClock s announcement, r.holds) ∧
        endOfTime ≤ c.now.nanoseconds + c.policy.clockSkew.total) ∧
    ((c.verify s hasher announcement placement).failure = none ↔
      (c.verify s hasher announcement placement).verified = true) ∧
    ((c.verify s hasher announcement placement).failure ≠ some .overflow →
      ((c.verify s hasher announcement placement).verified = true ↔
        ∀ r ∈ c.requirements s hasher announcement, r.holds) ∧
      ∀ before r after, c.requirements s hasher announcement = before ++ r :: after →
        (∀ b ∈ before, b.holds) → ¬ r.holds →
          (c.verify s hasher announcement placement).verified = false ∧
            (c.verify s hasher announcement placement).failure = some r.failure) := by
  refine ⟨?_, failure_eq_none_iff.trans verified_iff.symm, fun hresult => ?_⟩
  · rw [failure_eq_some_iff, check_eq_overflow_iff, Instant.after?_eq_none]
  rw [Ne, failure_eq_some_iff] at hresult
  have hchecks := checks_of_ne_overflow hresult
  refine ⟨verified_iff.trans hchecks.eq_ok_iff, fun before r after hr hbefore hfails => ?_⟩
  rw [hr] at hchecks
  have herror := hchecks.eq_error hbefore hfails
  refine ⟨Bool.eq_false_iff.mpr fun h => ?_, failure_eq_some_iff.mpr herror⟩
  rw [verified_iff, herror] at h
  cases h

section Examples

/-- A key made at the fifth second. -/
def earlyKey : VerifyingKey := .ed25519 (.zero 32) 5 .signData

/-- A signature by this key, made at the tenth second for twenty seconds, and its announcement. -/
def briefSignature (hash : HashAlgorithm) : Signature :=
  .ofSubpackets .binary .ed25519 hash
    [.plain (.creationTime 10), .plain (.expirationTime 20), .plain (.issuer earlyKey.fingerprint.keyId)] []
    (.zero 2) (.ed25519 (.zero 64))

def briefAnnouncement (hash : HashAlgorithm) : OnePassSignature :=
  ⟨.binary, hash, .ed25519, earlyKey.fingerprint.keyId, true⟩

/-- Whoever knows the key and accepts one hash, at some second and with some tolerance. -/
def trusting (now : UInt32) (hash : HashAlgorithm) (skew : Duration) : VerificationContext :=
  ⟨Certificates.find? ⟨[earlyKey]⟩, .ofSeconds now,
    { Policy.standard with signatureHash := [hash], clockSkew := skew }⟩

section
variable (hash : HashAlgorithm) (skew : Duration) {announcement : Option OnePassSignature}

theorem isSigner_trusting (now : UInt32) :
    (trusting now hash skew).IsSigner (briefSignature hash) announcement earlyKey := by
  have hknown : (trusting now hash skew).certificate? (.keyId earlyKey.fingerprint.keyId) = some earlyKey := by
    have hmatch : (KeyIdentifier.keyId earlyKey.fingerprint.keyId).matchesFingerprint earlyKey.fingerprint =
        true := decide_eq_true rfl
    simp only [trusting, Certificates.find?, List.find?_cons, hmatch]
  exact ⟨[], .keyId earlyKey.fingerprint.keyId, _, rfl, List.forall_mem_nil _, hknown⟩

/-- Announced or not, the signature fulfils all that is asked in front of the clock. -/
theorem forall_requirementsBeforeClock_trusting (now : UInt32)
    (ha : ∀ a ∈ announcement, a = briefAnnouncement hash) :
    ∀ r ∈ (trusting now hash skew).requirementsBeforeClock (briefSignature hash) announcement, r.holds := by
  have hsigner : (trusting now hash skew).IsSigner (briefSignature hash) announcement earlyKey :=
    isSigner_trusting hash skew now
  simp only [requirementsBeforeClock, packetRequirements, signerRequirements, List.cons_append,
    List.nil_append, List.forall_mem_cons, List.not_mem_nil, false_implies, implies_true, and_true]
  refine ⟨fun a hmem => ?_, fun a hmem => ?_, rfl, List.mem_singleton_self hash, ?_, ⟨earlyKey, hsigner⟩,
    ⟨earlyKey, hsigner, by decide⟩, ⟨earlyKey, hsigner, rfl⟩, ⟨10, rfl⟩⟩
  · rw [ha a hmem]
    exact ⟨rfl, rfl, rfl⟩
  · rw [ha a hmem]
    exact .inr ⟨.keyId earlyKey.fingerprint.keyId, List.mem_singleton_self _, rfl⟩
  · exact List.mem_cons_self

theorem forall_take_timeRequirements_trusting :
    ∀ r ∈ ((trusting 15 hash skew).timeRequirements (briefSignature hash) none announcement).take 3, r.holds := by
  have hcreated : (Instant.ofSeconds 10).nanoseconds ≤ (Instant.ofSeconds 15).nanoseconds := by decide
  have hnow : (Instant.ofSeconds 10).nanoseconds ≤ (Instant.ofSeconds 15).nanoseconds + skew.total := by omega
  have hvalid : (Instant.ofSeconds 15).nanoseconds <
      ((10 : UInt32).toNat + (20 : UInt32).toNat) * nanosecondsPerSecond := by decide
  simp only [timeRequirements, List.take_succ_cons, List.take_zero, List.forall_mem_cons,
    List.not_mem_nil, false_implies, implies_true, and_true]
  refine ⟨⟨10, rfl, hnow⟩, ⟨earlyKey, isSigner_trusting hash skew 15, 10, rfl, by decide⟩, ?_⟩
  rintro _ ⟨⟩
  exact .inr ⟨10, rfl, hvalid⟩

/-- Where its hash is not implemented, this is the first requirement that does not hold. -/
theorem exists_requirements_trusting (ha : ∀ a ∈ announcement, a = briefAnnouncement hash) :
    ∃ before r after, (trusting 15 hash skew).requirements (briefSignature hash) none announcement =
      before ++ r :: after ∧ (∀ b ∈ before, b.holds) ∧ ¬ r.holds ∧ r.failure = .unsupportedHash hash := by
  let times := (trusting 15 hash skew).timeRequirements (briefSignature hash) none announcement
  let implemented : Requirement := ⟨∃ h, (none : Option SignatureHasher) = some h, .unsupportedHash hash⟩
  have hsplit : (trusting 15 hash skew).requirements (briefSignature hash) none announcement =
      ((trusting 15 hash skew).requirementsBeforeClock (briefSignature hash) announcement ++ times.take 3) ++
        implemented :: times.drop 4 := rfl
  have hfails : ¬ implemented.holds := by
    rintro ⟨_, ⟨⟩⟩
  exact ⟨_, _, _, hsplit, List.forall_mem_append.mpr
    ⟨forall_requirementsBeforeClock_trusting hash skew 15 ha, forall_take_timeRequirements_trusting hash skew⟩,
    hfails, rfl⟩

end

/-- A signature that is valid for twenty seconds, at the end of the last. -/
theorem verify_requirements_expired :
    ∃ c : VerificationContext, ∃ s : Signature, ∃ a : OnePassSignature, ∃ before r after,
      c.now = .ofSeconds 30 ∧ s.creationTimes = [10] ∧ s.lifetimes = [20] ∧
        c.requirements s none (some a) = before ++ r :: after ∧ (∀ b ∈ before, b.holds) ∧ ¬ r.holds ∧
        (c.verify s none (some a) .onePass).verified = false ∧
          (c.verify s none (some a) .onePass).failure = some .expired := by
  let c : VerificationContext := trusting 30 .sha256 (.ofSeconds 60)
  let s : Signature := briefSignature .sha256
  let a : OnePassSignature := briefAnnouncement .sha256
  let times := c.timeRequirements s none (some a)
  have hnow : (Instant.ofSeconds 10).nanoseconds ≤ c.now.nanoseconds + c.policy.clockSkew.total := by decide
  have hbefore : ∀ b ∈ c.requirementsBeforeClock s (some a) ++ times.take 2, b.holds := by
    rw [List.forall_mem_append]
    refine ⟨forall_requirementsBeforeClock_trusting _ _ _ ?_, ?_⟩
    · rintro _ ⟨⟩
      rfl
    simp only [times, timeRequirements, List.take_succ_cons, List.take_zero, List.forall_mem_cons,
      List.not_mem_nil, false_implies, implies_true, and_true]
    exact ⟨⟨10, rfl, hnow⟩, earlyKey, isSigner_trusting _ _ _, 10, rfl, by decide⟩
  have hfails : ¬ times[2].holds := by
    intro h
    obtain h | ⟨created, ⟨⟩, h⟩ := h 20 rfl
    · cases h
    · exact absurd h (by decide)
  have hsplit : c.requirements s none (some a) =
      (c.requirementsBeforeClock s (some a) ++ times.take 2) ++ times[2] :: times.drop 3 := rfl
  obtain ⟨hoverflow, -, hjudged⟩ := verify_requirements c s none (some a) .onePass
  have hresult : (c.verify s none (some a) .onePass).failure ≠ some .overflow := fun h =>
    absurd (hoverflow.mp h).2 (by decide)
  exact ⟨c, s, a, _, _, _, rfl, rfl, rfl, hsplit, hbefore, hfails,
    (hjudged hresult).2 _ _ _ hsplit hbefore hfails⟩

/-- **A signature that is not judged.** Its hash is accepted and not implemented, which is the first
requirement that does not hold; but with the greatest tolerance there is, the check gives up before. -/
theorem not_verify_requirements :
    ∃ c : VerificationContext, ∃ s : Signature, ∃ a : OnePassSignature, ∃ before r after,
      c = trusting 15 (.ofCode 12) (.ofSeconds 0xFFFFFFFFFFFFFFFF) ∧ s = briefSignature (.ofCode 12) ∧
        a = briefAnnouncement (.ofCode 12) ∧ SignatureHasher.begin? s.hashAlgorithm s.type = none ∧
        c.requirements s none (some a) = before ++ r :: after ∧ (∀ b ∈ before, b.holds) ∧ ¬ r.holds ∧
        r.failure = .unsupportedHash (.ofCode 12) ∧
        (c.verify s none (some a) .onePass).failure ≠ some r.failure ∧
          (c.verify s none (some a) .onePass).failure = some .overflow := by
  have ha : ∀ a ∈ some (briefAnnouncement (.ofCode 12)), a = briefAnnouncement (.ofCode 12) := by
    rintro _ ⟨⟩
    rfl
  obtain ⟨before, r, after, hsplit, hbefore, hfails, hr⟩ :=
    exists_requirements_trusting (.ofCode 12) (.ofSeconds 0xFFFFFFFFFFFFFFFF) ha
  have hoverflow : ((trusting 15 (.ofCode 12) (.ofSeconds 0xFFFFFFFFFFFFFFFF)).verify
      (briefSignature (.ofCode 12)) none (some (briefAnnouncement (.ofCode 12))) .onePass).failure =
        some .overflow :=
    failure_eq_some_iff.mpr
      (check_eq_overflow_iff.mpr ⟨forall_requirementsBeforeClock_trusting _ _ _ ha, by decide⟩)
  refine ⟨_, _, _, before, r, after, rfl, rfl, rfl, rfl, hsplit, hbefore, hfails, hr, ?_, hoverflow⟩
  rw [hoverflow, hr]
  nofun

end Examples

end VerificationContext

end OpenPGP
