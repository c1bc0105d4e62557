import OpenPGP.Credentials
import OpenPGP.Crypto.Hash
import OpenPGP.Policy
/-!
# Checking a signature

A signature over data already hashed is checked in a fixed order, and the first
check that fails is its failure. A signature announced in front of the data must
be the one announced. The result is a record and not an error, but for one case:
the sum of the clock and the tolerance may be out of range, and then there is no
result at all. The record says so in the place of a failure, and whoever asked
for it has to give up.
-/
namespace OpenPGP

/-- Why a signature did not verify. -/
inductive SignatureFailure where
  | onePassMismatch
  | issuerMismatch
  | unknownCritical (tag : UInt8)
  | hashRejected (algorithm : HashAlgorithm)
  | publicKeyRejected (algorithm : PublicKeyAlgorithm)
  | missingCertificate
  | notSigningKey
  | keyAlgorithmMismatch
  | missingCreationTime
  | createdInFuture
  | predatesKey
  | expired
  | unsupportedHash (algorithm : HashAlgorithm)
  | digestStartMismatch
  | badSignature
  /-- No failure of the signature: the sum of the clock and the tolerance was out of range. -/
  | overflow
  deriving DecidableEq

def SignatureFailure.message : SignatureFailure → String
  | onePassMismatch => "signature does not match its one-pass signature"
  | issuerMismatch => "signature issuer does not match its one-pass signature"
  | unknownCritical tag => s!"unknown critical subpacket {tag}"
  | hashRejected algorithm => s!"hash algorithm {algorithm.name} rejected by policy"
  | publicKeyRejected algorithm => s!"public-key algorithm {algorithm.name} rejected by policy"
  | missingCertificate => "no certificate for the issuer"
  | notSigningKey => "issuer key is not a signing key"
  | keyAlgorithmMismatch => "issuer key algorithm does not match the signature"
  | missingCreationTime => "signature has no creation time"
  | createdInFuture => "signature created in the future"
  | predatesKey => "signature predates its key"
  | expired => "signature expired"
  | unsupportedHash algorithm => s!"unsupported hash algorithm {algorithm.name}"
  | digestStartMismatch => "digest prefix mismatch"
  | badSignature => "bad signature"
  | overflow => Instant.overflowMessage

/-- Where a signature stood: behind the data, announced, or in front of it. -/
inductive SignaturePlacement where
  | onePass | preceding
  deriving DecidableEq, Repr

/-- What came of checking a signature. -/
structure SignatureVerification where
  /-- The first issuer the signature names, or the announced one. -/
  issuer : Option KeyIdentifier
  /-- The key that was found for the issuer. -/
  signer : Option Fingerprint
  type : SignatureType
  /-- Seconds since the epoch, from the hashed subpackets. -/
  created : Option Nat
  hashAlgorithm : HashAlgorithm
  placement : SignaturePlacement
  verified : Bool
  /-- The first check that failed. -/
  failure : Option SignatureFailure
  deriving DecidableEq

/-- Whether checking did not come to a result. -/
def SignatureVerification.hasOverflowed (v : SignatureVerification) : Bool := v.failure = some .overflow

/-- What a signature is checked by: whoever provides certificates, a clock and a policy. -/
structure VerificationContext where
  certificate? : KeyIdentifier → Option VerifyingKey
  now : Instant
  policy : Policy

/-- A computation of the hash of signed data, if the hash is implemented. -/
def Crypto.SignatureHasher.begin? (algorithm : HashAlgorithm) (type : SignatureType) :
    Option Crypto.SignatureHasher :=
  (Crypto.HashFunction.ofAlgorithm? algorithm).map fun f => .initial (.initial f) type

namespace VerificationContext

/-- The name an announcement gives its issuer. -/
def announced (announcement : Option OnePassSignature) : Option KeyIdentifier :=
  announcement.map fun a => .keyId a.issuer

/-- Whether a signature is of the kind that was announced. -/
def hasAnnouncedKind (signature : Signature) (a : OnePassSignature) : Bool :=
  a.type = signature.type && a.hashAlgorithm = signature.hashAlgorithm &&
    a.publicKeyAlgorithm = signature.publicKeyAlgorithm

/-- Whether a signature names no issuer or one that can be the announced one. -/
def hasAnnouncedIssuer (signature : Signature) (a : OnePassSignature) : Bool :=
  signature.issuers.isEmpty || signature.issuers.any fun id => id.matches (.keyId a.issuer)

/-- The checks that need no key. -/
def precheck (c : VerificationContext) (signature : Signature)
    (announcement : Option OnePassSignature) : Except SignatureFailure Unit :=
  if announcement.any fun a => !hasAnnouncedKind signature a then .error .onePassMismatch
  else if announcement.any fun a => !hasAnnouncedIssuer signature a then .error .issuerMismatch
  else match signature.unknownCritical with
    | some tag => .error (.unknownCritical tag)
    | none =>
      if !c.policy.acceptsHash signature.hashAlgorithm then
        .error (.hashRejected signature.hashAlgorithm)
      else if !c.policy.acceptsPublicKey signature.publicKeyAlgorithm then
        .error (.publicKeyRejected signature.publicKeyAlgorithm)
      else .ok ()

/-- The key of the first issuer that has one; the announced issuer comes last. -/
def signer? (c : VerificationContext) (signature : Signature)
    (announcement : Option OnePassSignature) : Option VerifyingKey :=
  (signature.issuers ++ (announced announcement).toList).findSome? c.certificate?

/-- The checks that need the key and the hashed data. -/
def checkWithKey (c : VerificationContext) (signature : Signature) (key : VerifyingKey)
    (hasher : Option Crypto.SignatureHasher) : Except SignatureFailure Unit :=
  if !key.flags.canSign then .error .notSigningKey
  else if key.algorithm ≠ signature.publicKeyAlgorithm then .error .keyAlgorithmMismatch
  else match signature.creationTime with
    | none => .error .missingCreationTime
    | some created =>
      match c.policy.isCreatedInPast? signature c.now with
      | none => .error .overflow
      | some false => .error .createdInFuture
      | some true =>
        if created < key.created then .error .predatesKey
        else if !signature.isNotExpired c.now then .error .expired
        else match hasher with
          | none => .error (.unsupportedHash signature.hashAlgorithm)
          | some hasher =>
            let digest := hasher.finish signature.hashTrailer
            if digest.take 2 ≠ signature.digestStart.val then .error .digestStartMismatch
            else match key.verify signature.hashAlgorithm digest signature.material with
              | .ok () => .ok ()
              | .error _ => .error .badSignature

/-- The key found for a signature, if the checks before got so far, and the result of all checks. -/
def check (c : VerificationContext) (signature : Signature) (hasher : Option Crypto.SignatureHasher)
    (announcement : Option OnePassSignature) : Option VerifyingKey × Except SignatureFailure Unit :=
  match c.precheck signature announcement with
  | .error failure => (none, .error failure)
  | .ok () =>
    match c.signer? signature announcement with
    | none => (none, .error .missingCertificate)
    | some key => (some key, c.checkWithKey signature key hasher)

/-- Checks a signature over the data its hash context has seen. -/
def verify (c : VerificationContext) (signature : Signature) (hasher : Option Crypto.SignatureHasher)
    (announcement : Option OnePassSignature) (placement : SignaturePlacement) :
    SignatureVerification :=
  let (key, result) := c.check signature hasher announcement
  { issuer := signature.issuers.head?.or (announced announcement)
    signer := key.map (·.fingerprint)
    type := signature.type
    created := signature.creationTime.map (·.toNat)
    hashAlgorithm := signature.hashAlgorithm
    placement
    verified := result.isOk
    failure := match result with
      | .ok () => none
      | .error failure => some failure }

end VerificationContext

/-- What signatures are judged by, with the certificates in a list. -/
structure Verifier where
  certificates : Certificates
  now : Instant
  policy : Policy

namespace Verifier

def context (v : Verifier) : VerificationContext := ⟨v.certificates.find?, v.now, v.policy⟩

instance : Coe Verifier VerificationContext := ⟨context⟩

end Verifier

end OpenPGP
