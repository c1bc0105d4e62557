import OpenPGP.Field
import OpenPGP.KeyIdentifier
/-!
# Signature subpackets

A subpacket is a length, a type octet whose high bit marks it critical, and
data. Lengths below 192 take one octet, below 8384 two, others five. Five types
are read further; any other type, and data that does not fit its type, is kept
as it came.
-/
namespace OpenPGP

/-- What a subpacket says. -/
inductive SubpacketContent where
  | creationTime (seconds : UInt32)
  | expirationTime (seconds : UInt32)
  | issuer (id : KeyId)
  | keyFlags (flags : KeyFlags)
  | issuerFingerprint (fingerprint : Fingerprint)
  | other (tag : UInt8) (data : Octets)
  deriving DecidableEq

/-- A subpacket: its content and whether a reader that cannot interpret it must refuse the signature. -/
structure Subpacket where
  critical : Bool
  content : SubpacketContent
  deriving DecidableEq

namespace SubpacketContent

/-- The type, without the critical bit. -/
def tag : SubpacketContent → UInt8
  | creationTime _ => 2
  | expirationTime _ => 3
  | issuer _ => 16
  | keyFlags _ => 27
  | issuerFingerprint _ => 33
  | other tag _ => tag

def data : SubpacketContent → Octets
  | creationTime t | expirationTime t => Octets.bigEndian 4 t.toNat
  | issuer id => id.val
  | keyFlags flags => [flags.bits]
  | issuerFingerprint f => f.version :: f.octets
  | other _ data => data

/-- What data of a type says, if it fits that type. -/
def interpret? (tag : UInt8) (data : Octets) : Option SubpacketContent :=
  match tag with
  | 2 => if data.length = 4 then some (creationTime (Octets.ofBigEndian data).toUInt32) else none
  | 3 => if data.length = 4 then some (expirationTime (Octets.ofBigEndian data).toUInt32) else none
  | 16 => (Octets.sized? 8 data).map issuer
  | 27 => data.head?.map fun flags => keyFlags ⟨flags⟩
  | 33 =>
    match data with
    | [] => none
    | version :: octets => (Fingerprint.ofOctets? version octets).map issuerFingerprint
  | _ => none

def ofData (tag : UInt8) (data : Octets) : SubpacketContent :=
  (interpret? tag data).getD (other tag data)

end SubpacketContent

namespace Subpacket

def plain (content : SubpacketContent) : Subpacket := ⟨false, content⟩

/-- The wire form of the length of a subpacket, type octet included. -/
def encodeLength (length : Nat) : Octets :=
  if length < 192 then [UInt8.ofNat length]
  else if length < 8384 then [UInt8.ofNat ((length - 192) / 256 + 192), UInt8.ofNat (length - 192)]
  else 255 :: Octets.bigEndian 4 (min length 0xFFFFFFFF)

def encode (s : Subpacket) : Octets :=
  let data := s.content.data
  encodeLength (data.length + 1) ++
    (s.content.tag ||| (if s.critical then 0x80 else 0)) :: data

/-- The wire form of a subpacket area, without its length. -/
def encodeArea (area : List Subpacket) : Octets := area.flatMap encode

/-- The length in front of a subpacket. -/
def lengthField : Field Nat := do
  let first ← Field.octet
  if first.toNat < 192 then return first.toNat
  else if first.toNat < 255 then
    return (first.toNat - 192) * 256 + (← Field.octet).toNat + 192
  else Field.number 4

def field : Field Subpacket := do
  let length ← lengthField
  if length = 0 then Field.fail (.invalidField .subpacketLength)
  else
    let tag ← Field.octet
    let data ← Field.take (length - 1)
    return ⟨tag &&& 0x80 ≠ 0, SubpacketContent.ofData (tag &&& 0x7F) data⟩

/-- The subpackets of an area. The area loses at least one octet to each subpacket; a step that took
none would end the reading. -/
def decodeArea (area : Octets) : Except PacketError (List Subpacket) :=
  if area.isEmpty then .ok [] else
    match field.run .subpacket area with
    | .error e => .error e
    | .ok (subpacket, rest) =>
      if _shorter : rest.length < area.length then
        match decodeArea rest with
        | .error e => .error e
        | .ok subpackets => .ok (subpacket :: subpackets)
      else .ok [subpacket]
termination_by area.length

end Subpacket

end OpenPGP
