import OpenPGP.Packet
/-!
# Grammar symbols

The terminals packets stand for in the message grammar, and the control states
and stack symbols of the automaton that recognises it. Markers, padding and
unknown packets of the non-critical range are transparent: they stand for no
terminal and may occur anywhere.
-/
namespace OpenPGP

/-- A terminal of the message grammar. -/
inductive InputSymbol where
  | encryptedSessionKey
  | encryptedData
  | compressedData
  | literalData
  | onePassSignature
  | signature
  | unexpectedPacket
  | endOfSequence
  deriving DecidableEq, Repr

/-- A control state. -/
inductive ControlState where
  | openPgpMessage
  | literalMessage
  | compressedMessage
  | encryptedData
  | signedMessage
  | valid
  deriving DecidableEq, Repr

/-- A stack symbol: the bottom, a message still expected, a trailing signature still owed. -/
inductive StackSymbol where
  | terminus
  | msg
  | sig
  deriving DecidableEq, Repr

def InputSymbol.display : InputSymbol → String
  | encryptedSessionKey => "EncryptedSessionKey"
  | encryptedData => "EncryptedData"
  | compressedData => "CompressedData"
  | literalData => "LiteralData"
  | onePassSignature => "OnePassSignature"
  | signature => "Signature"
  | unexpectedPacket => "UnexpectedPacket"
  | endOfSequence => "EndOfSequence"

def ControlState.display : ControlState → String
  | openPgpMessage => "OpenPgpMessage"
  | literalMessage => "LiteralMessage"
  | compressedMessage => "CompressedMessage"
  | encryptedData => "EncryptedData"
  | signedMessage => "SignedMessage"
  | valid => "Valid"

def StackSymbol.display : StackSymbol → String
  | terminus => "Terminus"
  | msg => "Msg"
  | sig => "Sig"

/-- The terminal a packet stands for, if it is not transparent. -/
def Packet.symbol? : Packet → Option InputSymbol
  | publicKeySessionKey _ | passphraseSessionKey _ => some .encryptedSessionKey
  | unprotectedData _ | encryptedData _ => some .encryptedData
  | compressedData _ => some .compressedData
  | literalData _ => some .literalData
  | onePassSignature _ => some .onePassSignature
  | signature _ => some .signature
  | marker | padding _ => none
  | unknown tag _ => if isNonCritical tag then none else some .unexpectedPacket

end OpenPGP
