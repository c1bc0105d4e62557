import OpenPGP.Framing.Progress
import OpenPGP.Grammar.Automaton
import OpenPGP.Resolution
/-!
# Open layers

A layer that is being read is a source of packets, the automaton that watches
over their order and the key packets that wait for encrypted data.

Results:
* `PacketSource.remaining_lt`: taking a packet leaves less.
-/
namespace OpenPGP

/-- Where the packets of a layer come from: they are read, or already there, or someone else gives
them until that fails. -/
inductive PacketSource where
  | reader (reader : PacketReader)
  | packets (packets : List Packet)
  | failing (packets : List Packet) (error : PacketError)

namespace PacketSource

/-- The next packet and the source behind it, or nothing at the end. -/
def next : PacketSource → Except PacketError (Option (Packet × PacketSource))
  | reader r =>
    match r.next with
    | (.ok (some packet), r) => .ok (some (packet, reader r))
    | (.ok none, _) => .ok none
    | (.error error, _) => .error error
  | packets [] => .ok none
  | packets (packet :: rest) => .ok (some (packet, packets rest))
  | failing [] error => .error error
  | failing (packet :: rest) error => .ok (some (packet, failing rest error))

/-- What is left: octets, or packets. -/
def remaining : PacketSource → Nat
  | reader r => r.source.octets.length
  | packets rest | failing rest _ => rest.length

theorem remaining_lt {s s' : PacketSource} {p : Packet} (h : s.next = .ok (some (p, s'))) :
    s'.remaining < s.remaining := by
  cases s with
  | reader r =>
    simp only [next] at h
    split at h
    · next packet r' e =>
      cases h
      have := PacketReader.length_next_lt (congrArg Prod.fst e)
      rwa [e] at this
    · cases h
    · cases h
  | packets rest | failing rest error =>
    cases rest with
    | nil => cases h
    | cons packet rest =>
      cases h
      exact Nat.lt_succ_self _

end PacketSource

/-- What a layer is the content of. -/
inductive LayerKind where
  /-- The message itself. -/
  | message
  | compressed
  | encrypted
  deriving DecidableEq, Repr

/-- A layer that is being read. -/
structure Frame where
  kind : LayerKind
  source : PacketSource
  automaton : Automaton
  /-- The key packets since the last encrypted data. -/
  keyPackets : List KeyPacket

namespace Frame

/-- A layer of which nothing was read. -/
def ofSource (kind : LayerKind) (source : PacketSource) : Frame := ⟨kind, source, .initial, []⟩

/-- The content of a container. -/
def ofContent (kind : LayerKind) (content : Octets) (limit : UInt64) : Frame :=
  ofSource kind (.reader ⟨.ofOctets content, limit⟩)

/-- Whether the layer's data is still to come, so that a signature precedes it. -/
def isBeforeData (f : Frame) : Bool := f.automaton.configuration.state = .openPgpMessage

def addKeyPacket (f : Frame) (packet : KeyPacket) : Frame :=
  { f with keyPackets := f.keyPackets ++ [packet] }

end Frame

end OpenPGP
