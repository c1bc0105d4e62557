import OpenPGP.Compose.Environment
import OpenPGP.Compression
import OpenPGP.Crypto.Passphrase
import OpenPGP.Framing
import OpenPGP.Protection
import OpenPGP.Resolution
/-!
# Composing a message

A draft is the packets of the outermost layer of a message and the data that
signatures cover. It starts from literal data, or from any packets, and is
wrapped step by step: in signatures, in compressed data, in encrypted data with
key packets for passphrases and recipients.
-/
namespace OpenPGP

open Crypto

/-- Why a message could not be composed. -/
inductive ComposeError where
  | crypto (error : CryptoError)
  | packet (error : PacketError)
  /-- There is nothing to sign. -/
  | noLiteral
  deriving DecidableEq

def ComposeError.message : ComposeError → String
  | crypto error => error.message
  | packet error => error.message
  | noLiteral => "no literal data to sign"

/-- Composes in an environment. -/
abbrev Composing (α : Type) := StateT Environment (Except ComposeError) α

namespace Composing

def ofCrypto {α : Type} (result : Except CryptoError α) : Composing α :=
  StateT.lift (result.mapError .crypto)

/-- The time as packets hold it. -/
def clock : Composing UInt32 := do return (← get).clock

/-- The next `n` random octets. -/
def random (n : Nat) : Composing Octets := fun e => .ok (e.random n)

/-- The next `n` random octets, as a string of that size. -/
def randomSized (n : Nat) : Composing (Octets.Sized n) := do return Octets.resize n (← random n)

/-- The wire form of packets. -/
def encoded (packets : List Packet) : Composing Octets :=
  StateT.lift ((Packet.encodeAll packets).mapError .packet)

end Composing

open Composing

/-! ## Parameters -/

/-- How to sign. -/
structure SignatureParameters where
  hash : HashAlgorithm
  type : SignatureType
  /-- The creation time; the clock's if there is none. -/
  created : Option UInt32
  /-- The validity period in seconds. -/
  lifetime : Option UInt32
  deriving DecidableEq

def SignatureParameters.standard : SignatureParameters := ⟨.sha256, .binary, none, none⟩

/-- How encrypted data is protected. -/
inductive Scheme where
  | modificationDetection
  | chunked (mode : AeadAlgorithm) (chunkSize : UInt8)
  deriving DecidableEq

/-- How to encrypt, and for whom. -/
structure Encryption where
  scheme : Scheme
  cipher : SymmetricAlgorithm
  passphrases : List String
  recipients : List Recipient
  /-- Whether recipients are not named. -/
  anonymous : Bool
  /-- The session key; a random one if there is none. -/
  sessionKey : Option Octets
  deriving DecidableEq

/-- AES-256 for nobody yet. -/
def Encryption.ofScheme (scheme : Scheme) : Encryption := ⟨scheme, .aes256, [], [], false, none⟩

/-! ## Key packets -/

namespace Encryption

/-- A key packet for a passphrase. -/
def passphrasePacket (e : Encryption) (passphrase : String) (key : Octets) :
    Composing PassphraseSessionKey := do
  let passphrase := Octets.ofText passphrase
  match e.scheme with
  | .modificationDetection =>
    let specifier : Specifier := .iterated .sha256 (← randomSized 8) 0x60
    let derived ← ofCrypto (specifier.deriveKey passphrase key.length)
    let encrypted ← ofCrypto (CipherFeedback.encrypt e.cipher derived (e.cipher.code :: key))
    return .v4 e.cipher specifier (some encrypted)
  | .chunked mode _ =>
    let specifier : Specifier := .argon2 (← randomSized 16) 1 1 10
    let derived ← ofCrypto (specifier.deriveKey passphrase key.length)
    let info := Resolution.passphraseInfo e.cipher mode
    let wrapping ← ofCrypto (Hkdf.sha256 derived none info key.length)
    let iv ← random (← ofCrypto (Protection.ChunkedAead.nonceSizeOf mode))
    let encrypted ← ofCrypto (Aead.sealing e.cipher mode wrapping iv info key)
    return .v6 e.cipher mode specifier iv encrypted

/-- A key packet for a recipient. -/
def recipientPacket (e : Encryption) (recipient : Recipient) (key : Octets) :
    Composing PublicKeySessionKey := do
  let (ephemeral, wrapped) ←
    ofCrypto (X25519.wrapSessionKey recipient.key.point (← randomSized 32) key)
  let fingerprint := recipient.key.fingerprint
  let (version, name, cipher) : UInt8 × KeyIdentifier × Option SymmetricAlgorithm :=
    match e.scheme with
    | .modificationDetection => (3, .keyId fingerprint.keyId, some e.cipher)
    | .chunked .. => (6, .fingerprint fingerprint, none)
  return { version
           recipient := if e.anonymous then none else some name
           algorithm := .x25519
           material := .x25519 ephemeral cipher wrapped }

/-- Encrypted data with a content. -/
def dataPacket (e : Encryption) (key content : Octets) : Composing EncryptedData := do
  match e.scheme with
  | .modificationDetection =>
    let start ← random (← ofCrypto (Protection.blockSizeOf e.cipher))
    return .v1 (← ofCrypto (Protection.encryptWithCode e.cipher key start content))
  | .chunked mode chunkSize =>
    let salt ← randomSized 32
    let chunked ← ofCrypto (Protection.ChunkedAead.derive e.cipher mode chunkSize salt.val key)
    return .v2 e.cipher mode chunkSize salt (← ofCrypto (chunked.encrypt content))

/-- The session key to be used. -/
def chosenKey (e : Encryption) : Composing Octets := do
  match e.cipher.keySize, e.sessionKey with
  | none, _ => throw (.crypto (.unsupported (.symmetric e.cipher)))
  | some _, some key => return key
  | some size, none => random size

/-- Key packets and encrypted data with a content, and the session key. -/
def packets (e : Encryption) (content : List Packet) : Composing (List Packet × SessionKey) := do
  let key ← e.chosenKey
  let content ← encoded content
  let passphrases ← e.passphrases.mapM fun p => e.passphrasePacket p key
  let recipients ← e.recipients.mapM fun r => e.recipientPacket r key
  let data ← e.dataPacket key content
  return (passphrases.map .passphraseSessionKey ++ recipients.map .publicKeySessionKey ++
    [.encryptedData data], ⟨some e.cipher, key⟩)

end Encryption

/-! ## Drafts -/

/-- The outermost layer of a message and the data that signatures cover. -/
structure Draft where
  packets : List Packet
  signedData : Option Octets

namespace Draft

/-- Literal data, modified now. -/
def literal (filename : String) (format : LiteralFormat) (body : Octets) : Composing Draft := do
  let filename := Octets.ofText filename
  return ⟨[.literalData { format, filename, modificationTime := ← clock, body }], some body⟩

/-- Any packets; they cannot be signed. -/
def ofPackets (packets : List Packet) : Draft := ⟨packets, none⟩

/-- A signature over the data. -/
def signature (d : Draft) (signer : Signer) (parameters : SignatureParameters) :
    Composing Signature := do
  match d.signedData with
  | none => throw .noLiteral
  | some data =>
    let created := parameters.created.getD (← clock)
    let hashed : List Subpacket :=
      [.plain (.creationTime created), .plain (.issuerFingerprint signer.key.fingerprint)] ++
        (parameters.lifetime.map fun t => Subpacket.plain (.expirationTime t)).toList
    let unhashed : List Subpacket := [.plain (.issuer signer.key.fingerprint.keyId)]
    let signed (start : Octets.Sized 2) (value : Octets.Sized 64) : Signature :=
      .ofSubpackets parameters.type .ed25519 parameters.hash hashed unhashed start (.ed25519 value)
    let hasher ← ofCrypto (Hasher.ofAlgorithm parameters.hash)
    let digest := ((SignatureHasher.initial hasher parameters.type).update data).finish
      (signed (.zero 2) (.zero 64)).hashTrailer
    return signed (Octets.resize 2 digest) (signer.sign digest)

/-- Puts a one-pass signature in front and the signature behind. -/
def sign (d : Draft) (signer : Signer) (parameters : SignatureParameters) : Composing Draft := do
  let signature ← d.signature signer parameters
  let announcement : OnePassSignature :=
    { type := parameters.type, hashAlgorithm := parameters.hash, publicKeyAlgorithm := .ed25519,
      issuer := signer.key.fingerprint.keyId, last := true }
  return { d with packets := .onePassSignature announcement :: d.packets ++ [.signature signature] }

/-- Puts a signature in front. -/
def precede (d : Draft) (signer : Signer) : Composing Draft := do
  return { d with packets := .signature (← d.signature signer .standard) :: d.packets }

/-- Wraps the packets in compressed data. -/
def compress (d : Draft) (algorithm : CompressionAlgorithm) : Composing Draft := do
  return { d with packets := [.compressedData (.ofContent algorithm (← encoded d.packets))] }

/-- Wraps the packets in encrypted data, giving the session key as well. -/
def encrypt (d : Draft) (encryption : Encryption) : Composing (Draft × SessionKey) := do
  let (packets, key) ← encryption.packets d.packets
  return ({ d with packets }, key)

/-- Puts a marker in front. -/
def withMarker (d : Draft) : Draft := { d with packets := .marker :: d.packets }

/-- Puts padding behind. -/
def withPadding (d : Draft) (length : Nat) : Draft :=
  { d with packets := d.packets ++ [.padding length] }

end Draft

end OpenPGP
