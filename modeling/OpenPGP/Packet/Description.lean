import OpenPGP.Packet
import OpenPGP.Text
/-!
# Descriptions of data packets

One-line descriptions for logs. Data is described by its length only, so that
no plaintext or ciphertext gets into a log.
-/
namespace OpenPGP

def LiteralData.describe (p : LiteralData) : String :=
  s!"LiteralData \x7b format: {p.format.identifier}, filename: {Text.quoted (Text.lossy p.filename)}, " ++
    s!"modification_time: {p.modificationTime}, body: \"<{p.body.length} bytes>\" \x7d"

def EncryptedData.describe : EncryptedData → String
  | v1 body => s!"V1 \x7b body_len: {body.length} \x7d"
  | v2 algorithm mode chunkSize _ body =>
    s!"V2 \x7b symmetric_algorithm: {algorithm.identifier}, aead_algorithm: {mode.identifier}, " ++
      s!"chunk_size: {chunkSize}, body_len: {body.length} \x7d"

/-- The description of a packet of data, if it is one. -/
def Packet.describe? : Packet → Option String
  | literalData p => some s!"LiteralData({p.describe})"
  | unprotectedData body =>
    some s!"SymmetricallyEncryptedData(SymmetricallyEncryptedData \x7b body_len: {body.length} \x7d)"
  | encryptedData p => some s!"IntegrityProtectedData({p.describe})"
  | _ => none

/-! ## Secrets -/

def Octets.describePassphrase (passphrase : Octets) : String :=
  s!"Passphrase(<redacted {passphrase.length} bytes>)"

def Octets.describePlaintext (plaintext : Octets) : String :=
  s!"Plaintext \x7b len: {plaintext.length}, .. \x7d"

end OpenPGP
