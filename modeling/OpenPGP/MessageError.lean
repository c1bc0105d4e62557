import OpenPGP.Credentials
import OpenPGP.Grammar.Automaton
import OpenPGP.Policy
/-!
# Failures of reading a message

Why a message, or one attempt to open a layer of it, failed. Signatures that do
not verify are not among them: they are results. A sum that the machine cannot
hold is not a failure that reading reports: it gives up there, which is listed
so that the outcomes of reading are complete.
-/
namespace OpenPGP

/-- The check that encrypted data failed. -/
inductive IntegrityDefect where
  | shorterThanCode | codeMissing | codeMismatch | shorterThanTag | truncatedChunk | chunkTag | finalTag
  deriving DecidableEq, Repr

def IntegrityDefect.message : IntegrityDefect → String
  | shorterThanCode => "encrypted data shorter than its MDC"
  | codeMissing => "missing modification detection code"
  | codeMismatch => "modification detection code mismatch"
  | shorterThanTag => "encrypted data shorter than its tag"
  | truncatedChunk => "truncated chunk"
  | chunkTag => "chunk tag mismatch"
  | finalTag => "final tag mismatch"

/-- Why encrypted data could not be decrypted. -/
inductive DecryptionError where
  | integrity (defect : IntegrityDefect)
  | crypto (error : CryptoError)
  deriving DecidableEq

/-- What is wrong with compressed data. -/
inductive CompressionDefect where
  | corrupt | incomplete
  deriving DecidableEq, Repr

def CompressionDefect.message : CompressionDefect → String
  | corrupt => "corrupt deflate stream"
  | incomplete => "incomplete deflate stream"

/-! ## Attempts -/

/-- Why a credential did not open a layer. -/
inductive AttemptFailure where
  | noMatchingKey (recipient : Option KeyIdentifier)
  | versionMismatch (keyPacket data : UInt8)
  | rejected (algorithm : Unsupported)
  | crypto (error : CryptoError)
  /-- What was decrypted is no session key for the data. -/
  | invalidSessionKey
  | quickCheckFailed
  | integrity (defect : IntegrityDefect)
  deriving DecidableEq

namespace AttemptFailure

def message : AttemptFailure → String
  | noMatchingKey recipient =>
    let name := recipient.elim "<anonymous>" KeyIdentifier.display
    s!"no private key for recipient {name}"
  | versionMismatch keyPacket data =>
    s!"version {keyPacket} key packet cannot open version {data} encrypted data"
  | rejected algorithm => s!"{algorithm.message} rejected by policy"
  | crypto error => error.message
  | invalidSessionKey => "decrypted session key is malformed"
  | quickCheckFailed => "session key failed the quick check"
  | integrity defect => s!"layer failed authentication: {defect.message}"

/-- A layer that could not be decrypted. -/
def ofDecryption : DecryptionError → AttemptFailure
  | .integrity defect => integrity defect
  | .crypto error => crypto error

/-- The algorithm that alone made an attempt fail. -/
def unsupported? : AttemptFailure → Option Unsupported
  | rejected algorithm | crypto (.unsupported algorithm) => some algorithm
  | _ => none

def integrity? : AttemptFailure → Option IntegrityDefect
  | integrity defect => some defect
  | _ => none

end AttemptFailure

/-- A failed attempt: the key packet, by its place in the layer, the credential and the failure. A
session key given beforehand belongs to no packet; a packet nothing fits has no credential. -/
structure KeyAttempt where
  packet : Option Nat
  credential : Option KeySource
  failure : AttemptFailure
  deriving DecidableEq

/-! ## Messages -/

/-- Why a message could not be read. -/
inductive MessageError where
  | malformed (rejection : Rejection)
  | noAcceptableKey (attempts : List KeyAttempt)
  | integrity (defect : IntegrityDefect)
  | unsupported (algorithm : Unsupported)
  /-- Encrypted data without integrity protection. -/
  | unprotected
  | nestingTooDeep (limit : Nat)
  | limitExceeded (limit : UInt64)
  | decompression (defect : CompressionDefect)
  | packet (error : PacketError)
  | crypto (error : CryptoError)
  /-- Asked for before all literal data was read. -/
  | incomplete
  /-- An earlier failure made the reader unusable. -/
  | poisoned
  /-- Checking a signature gave up: the sum of the clock and the tolerance was out of range. -/
  | overflow
  deriving DecidableEq

/-- A broad class of failures. -/
inductive ErrorCategory where
  | structural | decryption | integrity | unsupported | resource | usage
  /-- Reading gave up and reported nothing. -/
  | fault
  deriving DecidableEq, Repr

namespace MessageError

/-- A failed primitive; a missing capability is reported as such. -/
def ofCrypto : CryptoError → MessageError
  | .unsupported algorithm => unsupported algorithm
  | error => crypto error

def ofDecryption : DecryptionError → MessageError
  | .integrity defect => integrity defect
  | .crypto error => ofCrypto error

def message : MessageError → String
  | malformed rejection => s!"malformed message: {rejection.message}"
  | noAcceptableKey attempts => s!"no acceptable decryption key after {attempts.length} attempts"
  | integrity defect => s!"integrity check failed: {defect.message}"
  | unsupported algorithm => s!"unsupported {algorithm.message}"
  | unprotected => "encrypted data is not integrity protected"
  | nestingTooDeep limit => s!"message nests more than {limit} layers"
  | limitExceeded limit => s!"decompressed data exceeds {limit} bytes"
  | decompression defect => s!"decompression failed: {defect.message}"
  | packet error => s!"packet error: {error.message}"
  | crypto error => s!"crypto error: {error.message}"
  | incomplete => "message not fully consumed"
  | poisoned => "stream failed earlier and is unusable"
  | overflow => Instant.overflowMessage

def category : MessageError → ErrorCategory
  | overflow | packet .overflow => .fault
  | malformed _ | packet _ | decompression _ => .structural
  | noAcceptableKey _ | crypto _ => .decryption
  | integrity _ | unprotected => .integrity
  | unsupported _ => .unsupported
  | nestingTooDeep _ | limitExceeded _ => .resource
  | incomplete | poisoned => .usage

/-- Whether the reader cannot go on. -/
def isFatal (e : MessageError) : Bool := e ≠ incomplete

end MessageError

end OpenPGP
