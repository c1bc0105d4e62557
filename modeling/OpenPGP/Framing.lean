import OpenPGP.Packet
import OpenPGP.Source
/-!
# Framing

A packet is a tag, a length and a body. New-format headers have lengths of one,
two or five octets and, for the four kinds of data, partial lengths that
announce another length behind their octets; old-format headers have lengths of
one, two or four octets or none at all, in which case the body is all that is
left. `PacketReader.next` reads one packet off a source within a body limit,
and `Packet.encode` writes one with a definite new-format length.

Limits are 64-bit words. Whether an unbounded body is too large is decided by a
request for one octet more than the limit; at the greatest limit there is no
such number, and reading gives up. A source that complains of its end inside a
body of known length is reported like one that ends there, and any other failure
as what it is.
-/
namespace OpenPGP

/-- How the body behind a header is delimited. -/
inductive BodyLength where
  | definite (length : Nat)
  /-- This many octets, then another length. -/
  | partialLength (length : Nat)
  /-- Everything up to the end of the source. -/
  | indeterminate
  deriving DecidableEq, Repr

structure PacketHeader where
  tag : UInt8
  length : BodyLength
  deriving DecidableEq, Repr

/-- Reads off a source; a failure leaves the source where it stopped. -/
abbrev Framed (α : Type) := EStateM PacketError Source α

namespace Framed

/-- Asks the source for `n` octets. -/
def pull (n : Nat) : Framed (Octets × Stop) := fun source =>
  match source.pull n with
  | (octets, stop, rest) => .ok (octets, stop) rest

/-- The next octet, or nothing at the end of the source. -/
def octet? : Framed (Option UInt8) := do
  match ← pull 1 with
  | (_, .failed failure) => throw (.unreadable failure)
  | ([], _) => return none
  | (b :: _, _) => return some b

/-- The next octet of a part that must have one. -/
def octet (part : Part) : Framed UInt8 := do
  match ← octet? with
  | some b => return b
  | none => throw (.truncated part)

/-- Exactly `n` octets of a part. -/
def exactly (n : Nat) (part : Part) : Framed Octets := do
  match ← pull n with
  | (octets, .full) => return octets
  | (_, .ended) => throw (.truncated part)
  | (_, .failed failure) =>
    throw (if failure.kind = .unexpectedEnd then .truncated part else .unreadable failure)

/-- At most `n` octets, fewer only if the source ends. -/
def upTo (n : Nat) : Framed Octets := do
  match ← pull n with
  | (_, .failed failure) => throw (.unreadable failure)
  | (octets, _) => return octets

end Framed

namespace BodyLength

/-- A length of `width` octets, most significant first. -/
def fixedWidth : (width : Nat) → (value : Nat) → Framed Nat
  | 0, value => return value
  | width + 1, value => do fixedWidth width (value * 256 + (← Framed.octet .packetLength).toNat)

/-- A new-format length. -/
def newFormat : Framed BodyLength := do
  let first := (← Framed.octet .packetLength).toNat
  if first < 192 then return definite first
  else if first < 224 then
    return definite ((first - 192) * 256 + (← Framed.octet .packetLength).toNat + 192)
  else if first < 255 then return partialLength (1 <<< (first % 32))
  else return definite (← fixedWidth 4 0)

/-- The old-format length of a length type. -/
def oldFormat (type : UInt8) : Framed BodyLength :=
  match type with
  | 0 => return definite (← fixedWidth 1 0)
  | 1 => return definite (← fixedWidth 2 0)
  | 2 => return definite (← fixedWidth 4 0)
  | _ => return indeterminate

def isPartial : BodyLength → Bool
  | partialLength _ => true
  | _ => false

end BodyLength

namespace PacketHeader

/-- The new-format header that begins with an octet. -/
def newFormat (first : UInt8) : Framed PacketHeader := do
  let tag := first &&& 0x3F
  let length ← BodyLength.newFormat
  if length.isPartial && !Packet.allowsPartialLength tag then throw (.invalidHeader .partialLength)
  else return { tag, length }

/-- The old-format header that begins with an octet. -/
def oldFormat (first : UInt8) : Framed PacketHeader := do
  return { tag := (first >>> 2) &&& 0x0F, length := ← BodyLength.oldFormat (first &&& 0x03) }

/-- A header whose tag is not the reserved one. -/
def checked (header : PacketHeader) : Framed PacketHeader :=
  if header.tag = 0 then throw (.invalidHeader .reservedTag) else return header

/-- The header that begins with an octet. -/
def ofFirst (first : UInt8) : Framed PacketHeader :=
  if first &&& 0x80 = 0 then throw (.invalidHeader .highBitClear)
  else if first &&& 0x40 = 0 then oldFormat first >>= checked
  else newFormat first >>= checked

/-- The next header, or nothing at the end of the source. -/
def read : Framed (Option PacketHeader) := do
  match ← Framed.octet? with
  | none => return none
  | some first => return some (← ofFirst first)

/-- A new-format header with a definite length in the fewest octets. -/
def encode (tag : UInt8) (length : Nat) : Octets :=
  (0xC0 ||| tag) ::
    if length < 192 then [UInt8.ofNat length]
    else if length < 8384 then
      [UInt8.ofNat ((length - 192) / 256 + 192), UInt8.ofNat (length - 192)]
    else 255 :: Octets.bigEndian 4 length

end PacketHeader

/-! ## Bodies -/

namespace PacketBody

/-- `length` more octets of a body that has `before` already, if they stay within the limit. -/
def chunk (limit : UInt64) (before length : Nat) : Framed Octets :=
  if before + length > limit.toNat then throw (.tooLarge (before + length) limit.toNat)
  else Framed.exactly length .packetBody

/-- The rest of a body that goes on with a partial length: chunks up to the first definite length.
Every length and chunk takes octets off the source, so its size bounds the number of chunks. -/
def parts (limit : UInt64) : (size : Nat) → (before : Octets) → (length : Nat) → Framed Octets
  | 0, _, _ => throw (.truncated .packetBody)
  | size + 1, before, length => do
    let body := before ++ (← chunk limit before.length length)
    match ← BodyLength.newFormat with
    | .partialLength length => parts limit size body length
    | .definite length => return body ++ (← chunk limit body.length length)
    | .indeterminate => return body

/-- Everything up to the end of the source, by asking for one octet more than the limit. -/
def rest (limit : UInt64) : Framed Octets :=
  if limit.toNat + 1 = UInt64.size then throw .overflow
  else do
    let body ← Framed.upTo (limit.toNat + 1)
    if body.length > limit.toNat then throw (.tooLarge body.length limit.toNat) else return body

def read (limit : UInt64) : BodyLength → Framed Octets
  | .definite length => chunk limit 0 length
  | .partialLength length => do parts limit ((← get).octets.length + 1) [] length
  | .indeterminate => rest limit

end PacketBody

/-! ## Packets -/

/-- Reads packets off a source, no body longer than the limit. -/
structure PacketReader where
  source : Source
  limit : UInt64
  deriving DecidableEq, Repr

namespace PacketReader

/-- The greatest body read unless another limit is given: 512 MiB. -/
def defaultLimit : UInt64 := 512 * 1024 * 1024

/-- The next packet of a source, or nothing at its end. -/
def packet (limit : UInt64) : Framed (Option Packet) := do
  match ← PacketHeader.read with
  | none => return none
  | some header =>
    let body ← PacketBody.read limit header.length
    match Packet.decode header.tag body with
    | .ok packet => return some packet
    | .error error => throw error

/-- The next packet, or nothing at the end, and the reader for what follows. -/
def next (r : PacketReader) : Except PacketError (Option Packet) × PacketReader :=
  match packet r.limit r.source with
  | .ok packet source => (.ok packet, { r with source })
  | .error error source => (.error error, { r with source })

end PacketReader

namespace Packet

/-- The wire form, unless the body is too long for a four-octet length. -/
def encode (p : Packet) : Except PacketError Octets :=
  let body := p.body
  if body.length > 0xFFFFFFFF then .error (.tooLarge body.length 0xFFFFFFFF)
  else .ok (PacketHeader.encode p.tag body.length ++ body)

/-- The wire form of a sequence of packets. -/
def encodeAll : List Packet → Except PacketError Octets
  | [] => .ok []
  | p :: ps => do return (← p.encode) ++ (← encodeAll ps)

end Packet

end OpenPGP
