import OpenPGP.Crypto.Curve.Ed25519
import OpenPGP.Crypto.Curve.X25519
import OpenPGP.Crypto.Derivation
import OpenPGP.Crypto.KeyWrap
import OpenPGP.Packet
/-!
# Keys

Keys that decrypt session keys (X25519) and keys that verify signatures
(Ed25519), with the fingerprint each is known by, and the session keys
themselves.
-/
namespace OpenPGP

open Crypto

/-- The version 4 fingerprint of a key: a hash of its creation time, algorithm and public octets. -/
def Fingerprint.ofKey (created : UInt32) (algorithm : PublicKeyAlgorithm) (material : Octets) :
    Fingerprint :=
  .v4 (Octets.resize 20 (HashFunction.hash .sha1
    (0x99 :: Octets.bigEndian 2 (min (6 + material.length) 0xFFFF) ++ [4] ++
      Octets.bigEndian 4 created.toNat ++ [algorithm.code] ++ material)))

/-! ## Session keys -/

/-- A session key; version 6 key packets do not say for which cipher. -/
structure SessionKey where
  algorithm : Option SymmetricAlgorithm
  octets : Octets
  deriving DecidableEq

/-- The cipher of a session key as an optional value. -/
def SessionKey.describeAlgorithm (k : SessionKey) : String :=
  k.algorithm.elim "None" fun a => s!"Some({a.identifier})"

/-- Describes a session key without showing it. -/
def SessionKey.describe (k : SessionKey) : String :=
  s!"SessionKey \x7b algorithm: {k.describeAlgorithm}, key: \"<redacted {k.octets.length} bytes>\" \x7d"

/-! ## Decryption keys -/

/-- An X25519 key: its secret scalar, public point, fingerprint and uses. -/
structure DecryptionKey where
  fingerprint : Fingerprint
  flags : KeyFlags
  secret : Octets.Sized 32
  point : Octets.Sized 32
  deriving DecidableEq

namespace DecryptionKey

def x25519 (secret : Octets.Sized 32) (created : UInt32) (flags : KeyFlags) : DecryptionKey :=
  let point := X25519.publicKey secret
  { fingerprint := .ofKey created .x25519 point.val, flags, secret, point }

def algorithm (_ : DecryptionKey) : PublicKeyAlgorithm := .x25519

def describe (k : DecryptionKey) : String :=
  s!"DecryptionKey \x7b fingerprint: {k.fingerprint.describe}, algorithm: {k.algorithm.identifier}, " ++
    s!"flags: {k.flags.describe}, .. \x7d"

end DecryptionKey

namespace Crypto.X25519

/-- The key wrapping key of a shared secret, bound to both public points. -/
def wrappingKey (ephemeral recipient secret : Octets.Sized 32) : Except CryptoError Aes.Key := do
  let key ← Hkdf.sha256 (ephemeral.val ++ recipient.val ++ secret.val) none
    (Octets.ofText "OpenPGP X25519") 16
  return Aes.expand .bits128 key

/-- Recovers a session key wrapped to the point of a secret scalar. -/
def unwrapSessionKey (secret ephemeral : Octets.Sized 32) (wrapped : Octets) :
    Except CryptoError Octets := do
  let secretPoint := shared secret ephemeral
  if secretPoint = Octets.Sized.zero 32 then throw (.invalidKeyMaterial .lowOrderEphemeral)
  let key ← wrappingKey ephemeral (publicKey secret) secretPoint
  match KeyWrap.unwrap? key wrapped with
  | some sessionKey => return sessionKey
  | none => throw .authenticationFailed

/-- Wraps a session key to a point with a one-time scalar, giving that scalar's point as well. -/
def wrapSessionKey (recipient ephemeralSecret : Octets.Sized 32) (sessionKey : Octets) :
    Except CryptoError (Octets.Sized 32 × Octets) := do
  let ephemeral := publicKey ephemeralSecret
  let secretPoint := shared ephemeralSecret recipient
  if secretPoint = Octets.Sized.zero 32 then throw (.invalidKeyMaterial .lowOrderRecipient)
  let key ← wrappingKey ephemeral recipient secretPoint
  match KeyWrap.wrap? key sessionKey with
  | some wrapped => return (ephemeral, wrapped)
  | none => throw (.invalidKeyLength 16 sessionKey.length)

end Crypto.X25519

/-- The session key in the material of a key packet. -/
def DecryptionKey.decryptSessionKey (k : DecryptionKey) :
    SessionKeyMaterial → Except CryptoError Octets
  | .x25519 ephemeral _ wrapped => X25519.unwrapSessionKey k.secret ephemeral wrapped
  | .uninterpreted _ => .error (.invalidKeyMaterial .materialMismatch)

/-! ## Verifying keys -/

/-- An Ed25519 key: its public point, creation time, fingerprint and uses. -/
structure VerifyingKey where
  fingerprint : Fingerprint
  flags : KeyFlags
  created : UInt32
  point : Octets.Sized 32
  deriving DecidableEq

namespace VerifyingKey

def ed25519 (point : Octets.Sized 32) (created : UInt32) (flags : KeyFlags) : VerifyingKey :=
  { fingerprint := .ofKey created .ed25519 point.val, flags, created, point }

def algorithm (_ : VerifyingKey) : PublicKeyAlgorithm := .ed25519

/-- Checks a signature over a finished digest, which must have the size of its hash. -/
def verify (k : VerifyingKey) (hash : HashAlgorithm) (digest : Octets) (material : SignatureMaterial) :
    Except CryptoError Unit :=
  if hash.digestSize ≠ some digest.length then .error (.unsupported (.hash hash))
  else match material with
    | .ed25519 signature => Ed25519.verify k.point digest signature
    | .uninterpreted _ => .error .badSignature

end VerifyingKey

end OpenPGP
