import OpenPGP.Grammar.Symbol
/-!
# The message grammar read recursively

    Message   := Encrypted | Signed | Compressed | Literal
    Encrypted := SessionKey* EncryptedData
    Signed    := Signature Message | OnePassSignature Message Signature

`InputSymbol.message?` reads one message off the front of a sequence of symbols
and gives what follows it. `Token` is a packet whose containers hold their inner
message; `Token.isMessage` asks the same of every layer of a tree of tokens.
-/
namespace OpenPGP

namespace InputSymbol

/-- What follows the message at the front of a sequence, if there is one. -/
def message? : List InputSymbol → Option (List InputSymbol)
  | .encryptedSessionKey :: rest =>
    match rest.dropWhile (· = .encryptedSessionKey) with
    | .encryptedData :: rest => some rest
    | _ => none
  | .encryptedData :: rest | .compressedData :: rest | .literalData :: rest => some rest
  | .signature :: rest => message? rest
  | .onePassSignature :: rest =>
    match message? rest with
    | some (.signature :: rest) => some rest
    | _ => none
  | _ => none

/-- Whether a sequence is one message and nothing else. -/
def isMessage (symbols : List InputSymbol) : Bool := message? symbols = some []

end InputSymbol

/-! ## Trees of tokens -/

/-- A packet of a message; a container holds the tokens of its inner message. -/
inductive Token where
  | sessionKey
  | encrypted (content : List Token)
  | compressed (content : List Token)
  | literal (seed : UInt8)
  | onePassSignature
  | signature
  | marker
  | padding
  | unexpected

namespace Token

def symbol? : Token → Option InputSymbol
  | sessionKey => some .encryptedSessionKey
  | encrypted _ => some .encryptedData
  | compressed _ => some .compressedData
  | literal _ => some .literalData
  | onePassSignature => some .onePassSignature
  | signature => some .signature
  | unexpected => some .unexpectedPacket
  | marker | padding => none

/-- The symbols of one layer. -/
def symbols (tokens : List Token) : List InputSymbol := tokens.filterMap symbol?

/-- Whether the layer's own sequence is a message; what containers hold is not looked at. -/
def isLayer (tokens : List Token) : Bool := InputSymbol.isMessage (symbols tokens)

mutual

/-- Whether the content of a container is a message in every layer; true of other tokens. -/
def holdsMessage : Token → Bool
  | encrypted content | compressed content => isLayer content && allHoldMessages content
  | _ => true

def allHoldMessages : List Token → Bool
  | [] => true
  | t :: ts => t.holdsMessage && allHoldMessages ts

end

/-- Whether a tree is a message in every layer. -/
def isMessage (tokens : List Token) : Bool := isLayer tokens && allHoldMessages tokens

mutual

/-- The number of layers, the token's own included. -/
def depth : Token → Nat
  | encrypted [] | compressed [] => 2
  | encrypted content | compressed content => 1 + maxDepth content
  | _ => 1

def maxDepth : List Token → Nat
  | [] => 0
  | t :: ts => max t.depth (maxDepth ts)

end

end Token

end OpenPGP
