import OpenPGP.Compose.Draft
import OpenPGP.Proofs.Hashing
import OpenPGP.Proofs.KeySizes
import OpenPGP.Proofs.PacketCodec
import OpenPGP.Proofs.Requirements
import OpenPGP.Proofs.SigningEquation
/-!
# Signatures that verify

What a signer made of some data verifies over the same data, wherever it stands
and however the data was read, for whoever has the key of the signer and a clock
that has not moved. The hash covers the data as the type of the signature takes
it and everything that is in its hashed area, and both sides compute it alike.

Results:
* `SigningContext.verify_signed`: a composed signature verifies.
* `SigningContext.wellFormed_signature`, `SigningContext.length_signature`: it is read back, and how long
  it is.
-/
namespace OpenPGP

open Crypto

/-- How a signature is made, once the clock was read. -/
structure SigningContext where
  signer : Signer
  hash : HashFunction
  type : SignatureType
  created : UInt32
  lifetime : Option UInt32

/-- A signer with an Ed25519 key that may sign and was there when the clock stood at some time. -/
structure Signer.Genuine (s : Signer) (now : UInt32) : Prop where
  key : ∃ created flags, s.key = .ed25519 (Ed25519.publicKey s.seed) created flags
  canSign : s.key.flags.canSign = true
  created : s.key.created ≤ now

theorem Signer.genuine_ofSeed (seed : UInt8) {now : UInt32} (h : Environment.keysCreated ≤ now) :
    (Signer.ofSeed seed).Genuine now where
  key := ⟨_, _, rfl⟩
  canSign := show KeyFlags.signData.canSign = true by decide
  created := h

namespace SigningContext

variable (c : SigningContext)

/-- What the signature says under its hash. -/
def hashed : List Subpacket :=
  [.plain (.creationTime c.created), .plain (.issuerFingerprint c.signer.key.fingerprint)] ++
    (c.lifetime.map fun t => Subpacket.plain (.expirationTime t)).toList

/-- The signature with the first octets of a digest and a value. -/
def signature (start : Octets.Sized 2) (value : Octets.Sized 64) : Signature :=
  .ofSubpackets c.type .ed25519 c.hash.algorithm c.hashed [.plain (.issuer c.signer.key.fingerprint.keyId)]
    start (.ed25519 value)

/-- What is signed: the data as the signature takes it and what the signature says. -/
def digest (data : Octets) : Octets :=
  c.hash.hash (SignatureHasher.taken c.type data ++ (c.signature (.zero 2) (.zero 64)).hashTrailer)

/-- The signature over data. -/
def signed (data : Octets) : Signature :=
  c.signature (Octets.resize 2 (c.digest data)) (c.signer.sign (c.digest data))

/-- The announcement of the signature. -/
def announcement : OnePassSignature :=
  { type := c.type, hashAlgorithm := c.hash.algorithm, publicKeyAlgorithm := .ed25519,
    issuer := c.signer.key.fingerprint.keyId, last := true }

variable {c}

/-! ## On the wire -/

theorem length_fingerprint {signer : Signer} {now : UInt32} (h : signer.Genuine now) :
    signer.key.fingerprint.octets.length = 20 := by
  obtain ⟨created, flags, hkey⟩ := h.key
  rw [hkey]
  exact (Octets.resize 20 _).property

theorem length_hashed {now : UInt32} (h : c.signer.Genuine now) :
    (Subpacket.encodeArea c.hashed).length = 29 + (c.lifetime.map fun _ => 6).getD 0 := by
  have hf := length_fingerprint h
  cases hl : c.lifetime <;>
    simp [hashed, hl, Subpacket.encodeArea, Subpacket.encode, Subpacket.plain, SubpacketContent.data,
      Subpacket.encodeLength, hf]

theorem length_unhashed : (Subpacket.encodeArea
    [.plain (.issuer c.signer.key.fingerprint.keyId)]).length = 10 := by
  simp [Subpacket.encodeArea, Subpacket.encode, Subpacket.plain, SubpacketContent.data,
    Subpacket.encodeLength, c.signer.key.fingerprint.keyId.property]

theorem isCanonical_announcement (ht : c.type.IsCanonical) : c.announcement.IsCanonical :=
  ⟨ht, c.hash.isCanonical_algorithm, Identifier.isCanonical_registered _ _⟩

theorem wellFormed_signature {now : UInt32} (h : c.signer.Genuine now) (ht : c.type.IsCanonical)
    (start : Octets.Sized 2) (value : Octets.Sized 64) : (c.signature start value).WellFormed := by
  have hcanonical : (c.signature start value).IsCanonical :=
    ⟨ht, Identifier.isCanonical_registered _ _, c.hash.isCanonical_algorithm⟩
  refine Signature.wellFormed_ofSubpackets _ hcanonical (.ed25519 _) (fun p hp => ?_)
    (List.forall_mem_singleton.mpr trivial) ?_ ?_
  · simp only [hashed, List.mem_append, List.mem_cons, List.not_mem_nil, or_false, Option.mem_toList,
      Option.map_eq_some_iff] at hp
    obtain (rfl | rfl) | ⟨t, -, rfl⟩ := hp <;> trivial
  · rw [length_hashed h]
    cases c.lifetime <;> simp
  · rw [length_unhashed]
    decide

theorem length_signature {now : UInt32} (h : c.signer.Genuine now) (start : Octets.Sized 2)
    (value : Octets.Sized 64) :
    (c.signature start value).encode.length = 113 + (c.lifetime.map fun _ => 6).getD 0 := by
  have hh := length_hashed h
  have hu := length_unhashed (c := c)
  simp only [Signature.encode, signature, Signature.ofSubpackets, Signature.start, Signature.areaLength,
    SignatureMaterial.octets, List.length_append, List.length_cons, List.length_nil,
    Octets.length_bigEndian, start.property, value.property, hh, hu]
  omega

/-! ## What it says -/

theorem issuers_signature (start : Octets.Sized 2) (value : Octets.Sized 64) :
    (c.signature start value).issuers =
      [.fingerprint c.signer.key.fingerprint, .keyId c.signer.key.fingerprint.keyId] := by
  cases hl : c.lifetime <;>
    simp [Signature.issuers, signature, Signature.ofSubpackets, hashed, Subpacket.plain, hl]

theorem creationTime_signature (start : Octets.Sized 2) (value : Octets.Sized 64) :
    (c.signature start value).creationTime = some c.created := rfl

theorem expirationTime_signature (start : Octets.Sized 2) (value : Octets.Sized 64) :
    (c.signature start value).expirationTime = c.lifetime := by
  cases hl : c.lifetime <;>
    simp [Signature.expirationTime, signature, Signature.ofSubpackets, hashed, Subpacket.plain, hl]

theorem unknownCritical_signature (start : Octets.Sized 2) (value : Octets.Sized 64) :
    (c.signature start value).unknownCritical = none := by
  cases hl : c.lifetime <;>
    simp [Signature.unknownCritical, signature, Signature.ofSubpackets, hashed, Subpacket.plain, hl]

/-! ## Verification -/

theorem finish_covering (data : Octets) : ∃ hasher,
    SignatureHasher.covering c.hash.algorithm c.type data = some hasher ∧
      hasher.finish (c.signed data).hashTrailer = c.digest data := by
  have h := SignatureHasher.finish_covering c.hash.algorithm c.type data (c.signed data).hashTrailer
  rw [HashFunction.ofAlgorithm?_algorithm, Option.map_some] at h
  obtain ⟨hasher, hc, hd⟩ := Option.map_eq_some_iff.mp h
  exact ⟨hasher, hc, hd⟩

theorem length_digest (data : Octets) : c.hash.algorithm.digestSize = some (c.digest data).length :=
  c.hash.length_hash _

theorem two_le_length_digest (data : Octets) : 2 ≤ (c.digest data).length := by
  have hsize : ∀ f : HashFunction, ∃ n, f.algorithm.digestSize = some n ∧ 2 ≤ n := by
    rintro (_ | _ | _ | _ | _) <;> exact ⟨_, rfl, by decide⟩
  obtain ⟨n, hn, hle⟩ := hsize c.hash
  rw [length_digest data, Option.some_inj] at hn
  exact hn ▸ hle

/-- The one-time scalar of the signature. -/
def nonce (c : SigningContext) (data : Octets) : Nat := Ed25519.nonce c.signer.seed (c.digest data)

/-- The key of the signer accepts what was signed, unless the one-time scalar is zero. -/
theorem verify_digest_iff {now : UInt32} (h : c.signer.Genuine now) (data : Octets) :
    c.signer.key.verify c.hash.algorithm (c.digest data) (c.signed data).material = .ok () ↔
      c.nonce data ≠ 0 := by
  obtain ⟨created, flags, hkey⟩ := h.key
  have hpoint : c.signer.key.point = Ed25519.publicKey c.signer.seed := by rw [hkey]; rfl
  have hmaterial : (c.signed data).material = .ed25519 (Ed25519.sign c.signer.seed (c.digest data)) := rfl
  simp only [VerifyingKey.verify, length_digest data, hmaterial, hpoint, ne_eq, not_true_eq_false,
    if_false]
  exact Ed25519.verify_sign_iff _ _

/-- How a reader with a policy of its own stands to a signer: it has the key of the signer, and its clock
is the one the signature was made by. -/
structure KnownTo (c : SigningContext) (v : VerificationContext) : Prop where
  policy : v.policy = .standard
  now : v.now = .ofSeconds c.created
  certificate : v.certificate? (.fingerprint c.signer.key.fingerprint) = some c.signer.key
  hash : Policy.standard.acceptsHash c.hash.algorithm = true

/-- A minute behind the time of a packet is still a time. -/
theorem isSome_after?_standard (created : UInt32) :
    ((Instant.ofSeconds created).after? Policy.standard.clockSkew).isSome = true := by
  have hlt := created.toNat_lt
  rw [Option.isSome_iff_ne_none, Ne, Instant.after?_eq_none]
  simp only [Instant.ofSeconds, Duration.total, Policy.standard, Duration.ofSeconds, endOfTime,
    nanosecondsPerSecond, UInt64.reduceToNat]
  omega

theorem KnownTo.decides {v : VerificationContext} (hv : c.KnownTo v) : v.Decides := by
  apply VerificationContext.decides_of_clock
  rw [hv.now, hv.policy]
  exact isSome_after?_standard c.created

theorem checkWithKey_signed {v : VerificationContext} (hv : c.KnownTo v) (h : c.signer.Genuine c.created)
    (data : Octets) : v.checkWithKey (c.signed data) c.signer.key
      (SignatureHasher.covering c.hash.algorithm c.type data) =
        if c.nonce data = 0 then .error .badSignature else .ok () := by
  obtain ⟨hasher, hcover, hdigest⟩ := finish_covering (c := c) data
  have halgorithm : c.signer.key.algorithm = (c.signed data).publicKeyAlgorithm := rfl
  have hcreated : (c.signed data).creationTime = some c.created := creationTime_signature _ _
  have hexpires : (c.signed data).expirationTime = c.lifetime := expirationTime_signature _ _
  obtain ⟨latest, hlatest⟩ := Option.isSome_iff_exists.mp (isSome_after?_standard c.created)
  have hpast : v.policy.isCreatedInPast? (c.signed data) v.now = some true := by
    rw [Policy.isCreatedInPast?, hcreated, hv.now, hv.policy]
    simp [hlatest, Instant.le_of_after? hlatest]
  have hvalid : (c.signed data).isNotExpired v.now = true := by
    simp only [Signature.isNotExpired, hcreated, hexpires, hv.now]
    cases c.lifetime with
    | none => rfl
    | some t =>
      by_cases ht : t = 0
      · simp [ht]
      · have hpos : 0 < t.toNat := Nat.pos_of_ne_zero fun h0 => ht (UInt32.toNat_inj.mp h0)
        simp only [ht, Instant.ofSeconds, nanosecondsPerSecond, decide_false, Bool.false_or]
        exact decide_eq_true (by omega)
  have hstart : (c.signed data).digestStart.val = (c.digest data).take 2 := by
    show (Octets.resize 2 (c.digest data)).val = _
    simp [Octets.resize, Nat.sub_eq_zero_of_le (two_le_length_digest data)]
  simp only [VerificationContext.checkWithKey, h.canSign, halgorithm, hcreated, hpast, hvalid, hcover,
    hdigest, hstart, UInt32.not_lt.mpr h.created, show (c.signed data).hashAlgorithm = c.hash.algorithm from rfl,
    ne_eq, not_true_eq_false, Bool.not_true, Bool.false_eq_true, if_false]
  have hverify := verify_digest_iff h data
  by_cases hn : c.nonce data = 0
  · cases hk : c.signer.key.verify c.hash.algorithm (c.digest data) (c.signed data).material with
    | ok =>
      rw [hk] at hverify
      exact absurd hn (hverify.mp rfl)
    | error e => rw [if_pos hn]
  · rw [if_neg hn, hverify.mpr hn]

theorem precheck_signed {v : VerificationContext} (hv : c.KnownTo v) (data : Octets)
    {announcement : Option OnePassSignature} (ha : ∀ a ∈ announcement, a = c.announcement) :
    v.precheck (c.signed data) announcement = .ok () := by
  have hkind : announcement.any (fun a => !VerificationContext.hasAnnouncedKind (c.signed data) a) = false := by
    cases announcement with
    | none => rfl
    | some a =>
      rw [ha a rfl]
      simp [VerificationContext.hasAnnouncedKind, announcement, signed, signature, Signature.ofSubpackets]
  have hissuer : announcement.any (fun a => !VerificationContext.hasAnnouncedIssuer (c.signed data) a) = false := by
    cases announcement with
    | none => rfl
    | some a =>
      rw [ha a rfl]
      simp [VerificationContext.hasAnnouncedIssuer, show (c.signed data).issuers = _ from issuers_signature _ _,
        KeyIdentifier.matches_self, announcement]
  have hkey : Policy.standard.acceptsPublicKey (c.signed data).publicKeyAlgorithm = true :=
    show Policy.standard.acceptsPublicKey .ed25519 = true by decide
  simp only [VerificationContext.precheck, hkind, hissuer, hkey,
    show v.policy = .standard from hv.policy, hv.hash,
    show (c.signed data).unknownCritical = none from unknownCritical_signature _ _,
    show (c.signed data).hashAlgorithm = c.hash.algorithm from rfl, Bool.not_true, Bool.false_eq_true,
    if_false]

/-- What comes of checking the signature. -/
def outcome (c : SigningContext) (data : Octets) (placement : SignaturePlacement) :
    SignatureVerification where
  issuer := some (.fingerprint c.signer.key.fingerprint)
  signer := some c.signer.key.fingerprint
  type := c.type
  created := some c.created.toNat
  hashAlgorithm := c.hash.algorithm
  placement := placement
  verified := c.nonce data ≠ 0
  failure := if c.nonce data = 0 then some .badSignature else none

/-- **A composed signature verifies**, announced or not, unless its one-time scalar is zero. -/
theorem verify_signed {v : VerificationContext} (hv : c.KnownTo v) (h : c.signer.Genuine c.created)
    (data : Octets) {announcement : Option OnePassSignature} (ha : ∀ a ∈ announcement, a = c.announcement)
    (placement : SignaturePlacement) :
    v.verify (c.signed data) (SignatureHasher.covering c.hash.algorithm c.type data) announcement
      placement = c.outcome data placement := by
  have hissuers : (c.signed data).issuers = _ := issuers_signature _ _
  have hcertificate : v.signer? (c.signed data) announcement = some c.signer.key := by
    rw [VerificationContext.signer?, hissuers]
    simp [hv.certificate]
  have hcheck : v.check (c.signed data) (SignatureHasher.covering c.hash.algorithm c.type data)
      announcement = (some c.signer.key, if c.nonce data = 0 then .error .badSignature else .ok ()) := by
    simp only [VerificationContext.check, precheck_signed hv data ha, hcertificate, checkWithKey_signed hv h data]
  have hcreated : (c.signed data).creationTime = some c.created := creationTime_signature _ _
  have htype : (c.signed data).type = c.type := rfl
  have hhash : (c.signed data).hashAlgorithm = c.hash.algorithm := rfl
  by_cases hn : c.nonce data = 0 <;>
    simp [VerificationContext.verify, hcheck, hissuers, hcreated, htype, hhash, outcome, hn, Except.isOk,
      Except.toBool]

end SigningContext

end OpenPGP
