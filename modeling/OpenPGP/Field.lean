import OpenPGP.Source
/-!
# Packet defects and field reading

`PacketError` lists what can be wrong with the framing or the body of a packet,
by cause; `PacketError.message` is its wording. One more outcome is no defect of
the packet: a sum that the machine cannot hold, where reading gives up
altogether. `Field α` reads a value off the
front of a packet body: it fails with the name of the body's part when octets
are missing, and otherwise gives the value and the octets left.

Results:
* `Field.take_append`: a field takes exactly its own octets from a longer body.
-/
namespace OpenPGP

/-- The parts of the wire format that input can end in the middle of. -/
inductive Part where
  | packetLength | packetBody
  | publicKeySessionKey | signature | passphraseSessionKey | onePassSignature
  | compressedData | literalData | encryptedData | specifier | subpacket
  deriving DecidableEq, Repr

def Part.display : Part → String
  | packetLength => "packet length"
  | packetBody => "packet body"
  | publicKeySessionKey => "PKESK"
  | signature => "signature"
  | passphraseSessionKey => "SKESK"
  | onePassSignature => "one-pass signature"
  | compressedData => "compressed data"
  | literalData => "literal data"
  | encryptedData => "SEIPD"
  | specifier => "SKESK S2K"
  | subpacket => "signature subpacket"

/-- What makes a packet header invalid. -/
inductive HeaderDefect where
  | highBitClear | partialLength | reservedTag
  deriving DecidableEq, Repr

def HeaderDefect.message : HeaderDefect → String
  | highBitClear => "high bit of tag octet is clear"
  | partialLength => "partial length on a packet that does not allow it"
  | reservedTag => "reserved tag 0"

/-- A field whose value the layout of its packet does not allow. -/
inductive FieldDefect where
  | recipient | wrappedKeyLength | fieldCount | chunkSize | subpacketLength | markerBody
  deriving DecidableEq, Repr

def FieldDefect.message : FieldDefect → String
  | recipient => "invalid recipient in PKESK packet"
  | wrappedKeyLength => "invalid wrapped key length in PKESK packet"
  | fieldCount => "invalid field count in SKESK packet"
  | chunkSize => "invalid chunk size in SEIPD packet"
  | subpacketLength => "invalid subpacket length in signature packet"
  | markerBody => "invalid body in marker packet"

/-- Why a packet could not be framed or decoded. -/
inductive PacketError where
  | truncated (part : Part)
  | invalidHeader (defect : HeaderDefect)
  | invalidField (defect : FieldDefect)
  | unsupportedVersion (packet : Part) (version : UInt8)
  | tooLarge (length limit : Nat)
  | unreadable (failure : SourceFailure)
  /-- A sum was out of range, and nothing was reported at all. -/
  | overflow
  deriving DecidableEq, Repr

def PacketError.message : PacketError → String
  | truncated part => s!"truncated {part.display}"
  | invalidHeader defect => s!"invalid packet header: {defect.message}"
  | invalidField defect => defect.message
  | unsupportedVersion packet version => s!"unsupported {packet.display} packet version {version}"
  | tooLarge length limit => s!"packet body of {length} bytes exceeds limit of {limit} bytes"
  | unreadable failure => s!"I/O error: {failure.reason}"
  | overflow => "attempt to add with overflow"

/-! ## Fields -/

/-- Reads a value off the front of the octets of a part. -/
abbrev Field (α : Type) := ReaderT Part (StateT Octets (Except PacketError)) α

namespace Field

/-- Reads `part`, whose octets are `octets`, giving the value and what is left over. -/
def run {α : Type} (field : Field α) (part : Part) (octets : Octets) :
    Except PacketError (α × Octets) :=
  field part octets

/-- Gives a value reached without reading, or its error. -/
def ofExcept {α : Type} (result : Except PacketError α) : Field α := fun _ octets =>
  match result with
  | .ok a => .ok (a, octets)
  | .error e => .error e

def fail {α : Type} (error : PacketError) : Field α := fun _ _ => .error error

/-- The next `n` octets. -/
def take (n : Nat) : Field Octets := fun part octets =>
  let field := octets.take n
  if field.length = n then .ok (field, octets.drop n) else .error (.truncated part)

/-- The next `n` octets, as a string of that size. -/
def sized (n : Nat) : Field (Octets.Sized n) := fun part octets =>
  let field := octets.take n
  if h : field.length = n then .ok (⟨field, h⟩, octets.drop n) else .error (.truncated part)

/-- The next octet. -/
def octet : Field UInt8 := fun part octets =>
  match octets with
  | [] => .error (.truncated part)
  | b :: rest => .ok (b, rest)

/-- A number in the next `width` octets, most significant first. -/
def number (width : Nat) : Field Nat := do return Octets.ofBigEndian (← take width)

/-- Everything that is left. -/
def rest : Field Octets := fun _ octets => .ok (octets, [])

/-- Whether anything is left. -/
def isEmpty : Field Bool := fun _ octets => .ok (octets.isEmpty, octets)

theorem take_append (part : Part) (field rest : Octets) :
    (take field.length).run part (field ++ rest) = .ok (field, rest) := by
  simp [run, take]

theorem sized_append {n : Nat} (part : Part) (field : Octets.Sized n) (rest : Octets) :
    (sized n).run part (field.val ++ rest) = .ok (field, rest) := by
  obtain ⟨field, rfl⟩ := field
  simp [run, sized]

end Field

end OpenPGP
