import OpenPGP.Compose.Draft
import OpenPGP.Grammar.Recognizer
/-!
# Packets for tokens

Turns a tree of tokens into packets of that structure. Every container is real:
encrypted data is encrypted under one fixed session key, compressed data holds
its content as it is. Signatures have no valid value, which only the check of
the signature notices.
-/
namespace OpenPGP.Token

open Composing

/-- The session key of all encrypted data. -/
def layerKey : SessionKey := ⟨some .aes128, List.replicate 16 0x5A⟩

/-- The issuer all signatures name. -/
def issuer : KeyId := ⟨List.replicate 8 0x11, rfl⟩

/-- The encryption of all encrypted data. -/
def encryption : Encryption :=
  { Encryption.ofScheme .modificationDetection with
    cipher := .aes128
    sessionKey := some layerKey.octets }

/-- A key packet that names no session key of its own. -/
def keyPacket : Packet := .passphraseSessionKey (.v4 .aes128 (.simple .sha256) none)

def announcement : OnePassSignature where
  type := .binary
  hashAlgorithm := .sha256
  publicKeyAlgorithm := .ed25519
  issuer := issuer
  last := true

def emptySignature (created : UInt32) : Signature :=
  .ofSubpackets .binary .ed25519 .sha256 [.plain (.creationTime created)] [.plain (.issuer issuer)]
    (.zero 2) (.ed25519 (.zero 64))

mutual

/-- The packets of a token. -/
def render : Token → Composing (List Packet)
  | sessionKey => return [keyPacket]
  | encrypted content => do
    return (← encryption.packets (← renderAll content)).1
  | compressed content => do
    return [.compressedData (.ofContent .uncompressed (← encoded (← renderAll content)))]
  | literal seed => do
    return (← Draft.literal "" .binary (List.replicate (seed.toNat % 16) seed)).packets
  | onePassSignature => return [.onePassSignature announcement]
  | signature => do return [.signature (emptySignature (← clock))]
  | marker => return [.marker]
  | padding => return [.padding 4]
  | unexpected => return [.unknown 6 (Octets.ofText "key")]

/-- The packets of a layer. -/
def renderAll : List Token → Composing (List Packet)
  | [] => return []
  | token :: tokens => do return (← token.render) ++ (← renderAll tokens)

end

end OpenPGP.Token
