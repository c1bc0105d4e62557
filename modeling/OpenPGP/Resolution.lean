import OpenPGP.Crypto.Passphrase
import OpenPGP.Policy
import OpenPGP.Protection
/-!
# Finding the session key of a layer

Session keys given beforehand are tried first, then every key packet of the
layer with every credential that matches it. The first key under which the
whole layer decrypts and authenticates ends the search. Until then the search
records every failure, and `verdict` tells from the record why there was no key.

A key that was not authenticated itself, because it was given or came out of a
version 4 passphrase packet, must pass the quick check before the layer is
decrypted under it.
-/
namespace OpenPGP

/-! ## Key packets -/

/-- A session key packet of either kind. -/
inductive KeyPacket where
  | publicKey (packet : PublicKeySessionKey)
  | passphrase (packet : PassphraseSessionKey)
  deriving DecidableEq

namespace KeyPacket

def version : KeyPacket → UInt8
  | publicKey packet => packet.version
  | passphrase packet => packet.version

/-- Whether a packet may open encrypted data of a version. -/
def fits (p : KeyPacket) (dataVersion : UInt8) : Bool :=
  (p.version = 3 || p.version = 4) && dataVersion = 1 || p.version = 6 && dataVersion = 2

end KeyPacket

/-- A session key under which a layer decrypted: its source and the content of the layer. -/
structure ResolvedKey where
  algorithm : SymmetricAlgorithm
  key : SessionKey
  source : KeySource
  plaintext : Octets
  deriving DecidableEq

namespace Resolution

/-- A session key before it is checked against the layer. -/
structure Candidate where
  algorithm : Option SymmetricAlgorithm
  octets : Octets
  /-- Whether a wrong key would already have been noticed. -/
  authenticated : Bool
  deriving DecidableEq

/-! ## Unlocking -/

/-- Lets a failed primitive be the failure of an attempt. -/
def attempting {α : Type} (result : Except CryptoError α) : Except AttemptFailure α :=
  result.mapError .crypto

/-- The candidate in a public-key packet. -/
def decryptWith (policy : Policy) (packet : PublicKeySessionKey) (key : DecryptionKey) :
    Except AttemptFailure Candidate := do
  if !policy.acceptsPublicKey packet.algorithm then throw (.rejected (.publicKey packet.algorithm))
  if key.algorithm ≠ packet.algorithm then
    throw (.crypto (.invalidKeyMaterial .algorithmMismatch))
  let octets ← attempting (key.decryptSessionKey packet.material)
  let algorithm := match packet.material with
    | .x25519 _ algorithm _ => algorithm
    | .uninterpreted _ => none
  return ⟨algorithm, octets, true⟩

/-- The key of a cipher's size that a specifier makes of a passphrase. -/
def deriveFor (policy : Policy) (algorithm : SymmetricAlgorithm) (specifier : Specifier)
    (passphrase : Octets) : Except AttemptFailure Octets := do
  if !policy.acceptsSymmetric algorithm then throw (.rejected (.symmetric algorithm))
  match algorithm.keySize with
  | none => throw (.rejected (.symmetric algorithm))
  | some size => attempting (specifier.deriveKey passphrase size)

/-- The associated data and the derivation info of a version 6 passphrase packet. -/
def passphraseInfo (algorithm : SymmetricAlgorithm) (mode : AeadAlgorithm) : Octets :=
  [0xC3, 6, algorithm.code, mode.code]

/-- The candidate in a passphrase packet. -/
def deriveWith (policy : Policy) (packet : PassphraseSessionKey) (passphrase : Octets) :
    Except AttemptFailure Candidate := do
  match packet with
  | .v4 algorithm specifier none =>
    return ⟨some algorithm, ← deriveFor policy algorithm specifier passphrase, false⟩
  | .v4 algorithm specifier (some encrypted) =>
    let key ← deriveFor policy algorithm specifier passphrase
    match ← attempting (Crypto.CipherFeedback.decrypt algorithm key encrypted) with
    | [] => throw .invalidSessionKey
    | cipher :: octets => return ⟨some (.ofCode cipher), octets, false⟩
  | .v6 algorithm mode specifier iv encrypted =>
    if !policy.acceptsAead mode then throw (.rejected (.aead mode))
    let derived ← deriveFor policy algorithm specifier passphrase
    let info := passphraseInfo algorithm mode
    let key ← attempting (Crypto.Hkdf.sha256 derived none info derived.length)
    return ⟨none, ← attempting (Crypto.Aead.opening algorithm mode key iv info encrypted), true⟩

/-! ## Acceptance -/

/-- The cipher a candidate is for. Version 2 data names it, and a candidate that names one too must
name the same; for version 1 data the candidate has to name it. -/
def cipherFor (data : EncryptedData) (candidate : Candidate) :
    Except AttemptFailure SymmetricAlgorithm :=
  match data, candidate.algorithm with
  | .v1 _, some algorithm => .ok algorithm
  | .v1 _, none => .error .invalidSessionKey
  | .v2 algorithm .., none => .ok algorithm
  | .v2 algorithm .., some named => if named = algorithm then .ok named else .error .invalidSessionKey

/-- Decrypts the layer under a candidate. A key that was not authenticated and names a cipher that is
not accepted is most likely the product of a wrong passphrase. -/
def accept (policy : Policy) (data : EncryptedData) (source : KeySource) (candidate : Candidate) :
    Except AttemptFailure ResolvedKey := do
  let algorithm ← cipherFor data candidate
  if !policy.acceptsSymmetric algorithm then
    throw (if candidate.authenticated then .rejected (.symmetric algorithm) else .invalidSessionKey)
  if algorithm.keySize ≠ some candidate.octets.length then throw .invalidSessionKey
  if !candidate.authenticated then
    if !(← attempting (data.quickCheck algorithm candidate.octets)) then throw .quickCheckFailed
  let key : SessionKey := ⟨some algorithm, candidate.octets⟩
  let plaintext ← (data.decrypt key).mapError .ofDecryption
  return { algorithm, key, source, plaintext }

/-! ## The search -/

/-- A search for a session key. It ends with the first key it finds, and records the attempts that
failed before. -/
abbrev Search := EStateM ResolvedKey (List KeyAttempt)

namespace Search

/-- Records a failed attempt behind those before it. -/
def record (attempt : KeyAttempt) : Search Unit := modify (· ++ [attempt])

/-- Ends the search with a key, or records why a credential gave none. -/
def attempt (packet : Option Nat) (source : KeySource) :
    Except AttemptFailure ResolvedKey → Search Unit
  | .ok resolved => throw resolved
  | .error failure => record ⟨packet, some source, failure⟩

end Search

/-- The keys tried on a public-key packet: those its recipient can denote or, for an anonymous
recipient, those of its algorithm that may encrypt. -/
def keysFor (provider : CredentialProvider) (packet : PublicKeySessionKey) : List DecryptionKey :=
  match packet.recipient with
  | some id => provider.keysFor id
  | none => provider.keys.filter fun key => key.flags.canEncrypt && key.algorithm = packet.algorithm

variable (provider : CredentialProvider) (policy : Policy) (data : EncryptedData)

/-- Tries the session keys known beforehand. -/
def trySessionKeys : Search Unit :=
  provider.sessionKeys.zipIdx.forM fun (key, i) =>
    .attempt none (.sessionKey i) (accept policy data (.sessionKey i) ⟨key.algorithm, key.octets, false⟩)

/-- Tries the keys for a public-key packet, the one at `index` in its layer. -/
def tryPrivateKeys (index : Nat) (packet : PublicKeySessionKey) : Search Unit :=
  match keysFor provider packet with
  | [] => .record ⟨some index, none, .noMatchingKey packet.recipient⟩
  | keys => keys.forM fun key =>
    .attempt (some index) (.publicKey key.fingerprint) do
      accept policy data (.publicKey key.fingerprint) (← decryptWith policy packet key)

/-- Tries the passphrases on a packet. -/
def tryPassphrases (index : Nat) (packet : PassphraseSessionKey) : Search Unit :=
  provider.passphrases.zipIdx.forM fun (passphrase, i) =>
    .attempt (some index) (.passphrase i) do
      accept policy data (.passphrase i) (← deriveWith policy packet passphrase)

def tryPacket (index : Nat) (packet : KeyPacket) : Search Unit :=
  if !packet.fits data.version then
    .record ⟨some index, none, .versionMismatch packet.version data.version⟩
  else match packet with
    | .publicKey packet => tryPrivateKeys provider policy data index packet
    | .passphrase packet => tryPassphrases provider policy data index packet

def search (packets : List KeyPacket) : Search Unit := do
  trySessionKeys provider policy data
  packets.zipIdx.forM fun (packet, i) => tryPacket provider policy data i packet

/-- Why no attempt succeeded: an algorithm, if every attempt failed for one; else the first layer that
was decrypted and did not authenticate; else the attempts themselves. -/
def verdict (attempts : List KeyAttempt) : MessageError :=
  match attempts.mapM fun a => a.failure.unsupported? with
  | some (first :: _) => .unsupported first
  | _ =>
    match attempts.findSome? fun a => a.failure.integrity? with
    | some defect => .integrity defect
    | none => .noAcceptableKey attempts

end Resolution

/-- Finds the session key of a layer by trial. -/
def EncryptedData.resolveBy (data : EncryptedData) (policy : Policy) (provider : CredentialProvider)
    (packets : List KeyPacket) : Except MessageError ResolvedKey :=
  match Resolution.search provider policy data packets [] with
  | .error resolved _ => .ok resolved
  | .ok () attempts => .error (Resolution.verdict attempts)

/-- Finds the session key of a layer among credentials in lists. -/
def EncryptedData.resolve (data : EncryptedData) (policy : Policy) (credentials : Credentials) :
    (packets : List KeyPacket) → Except MessageError ResolvedKey :=
  data.resolveBy policy credentials

end OpenPGP
