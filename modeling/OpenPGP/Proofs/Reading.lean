import OpenPGP.MessageReader
import OpenPGP.Proofs.Grammar.Language
import OpenPGP.Proofs.Hashing
import OpenPGP.Proofs.LayerTree
import OpenPGP.Proofs.Opening
/-!
# What a message reads as

Independently of how a reader goes about it, a source of packets reads as a
chain of layers: the packets of a layer are a message of the grammar, its one
container opens to the content of the next layer, and the data of the last layer
is literal. `Reading` is this chain. It fixes what every signature is checked
against (`LayerRecord.verifications`) and the tree of layers (`LayerRecord.nodes`).
`LeadsTo` is the same chain as far as it goes before anything is read behind the
literal data, with what had to hold of every container on the way.

A `LayerSketch` is what the packets of a layer that were taken so far come to.

Results:
* `erase_layerSketch`: the sketch of packets is that of the grammar.
* `LayerRecord.isMessage_ofSketch`: a layer that was accepted to its end is a message.
* `LeadsTo.of_opens`: a container that was opened is a step of the way.
-/
namespace OpenPGP

open Crypto

/-! ## Packets of a source -/

namespace PacketSource

/-- Taking packets from a source gives some in order and leaves another source. -/
inductive Yields : PacketSource → List Packet → PacketSource → Prop
  | nil (s : PacketSource) : Yields s [] s
  | snoc {s s₁ s₂ : PacketSource} {ps : List Packet} {p : Packet} (h : Yields s ps s₁)
      (hp : s₁.next = .ok (some (p, s₂))) : Yields s (ps ++ [p]) s₂

/-- The packets of the content of a container. -/
def ofContent (o : ReadingContext) (content : Octets) : PacketSource :=
  .reader ⟨.ofOctets content, o.restrictions.packetLength⟩

end PacketSource

theorem Packet.symbol?_ne_end (p : Packet) : p.symbol? ≠ some .endOfSequence := by
  cases p <;> simp [Packet.symbol?]

theorem Packet.symbol?_eq_signature {p : Packet} (h : p.symbol? = some .signature) :
    ∃ s, p = .signature s := by
  cases p with
  | signature s => exact ⟨s, rfl⟩
  | unknown tag body => simp only [Packet.symbol?] at h; split at h <;> cases h
  | _ => cases h

/-- A key packet as a packet. -/
def KeyPacket.packet : KeyPacket → Packet
  | publicKey p => .publicKeySessionKey p
  | passphrase p => .passphraseSessionKey p

/-! ## Sketches of layers -/

/-- What the packets of a layer taken so far come to. -/
structure LayerSketch where
  /-- Announcements whose signature is to come, last first. -/
  owed : List OnePassSignature
  preceding : List Signature
  keys : List KeyPacket
  data : Option Packet
  settled : List (OnePassSignature × Signature)

namespace LayerSketch

def empty : LayerSketch := ⟨[], [], [], none, []⟩

/-- A signature behind the data belongs to the announcement made last. -/
def settle (k : LayerSketch) (s : Signature) : LayerSketch :=
  match k.owed with
  | [] => k
  | a :: owed => { k with owed, settled := k.settled ++ [(a, s)] }

def add (k : LayerSketch) : Packet → LayerSketch
  | .onePassSignature a => { k with owed := a :: k.owed }
  | .signature s =>
    if k.data.isNone then { k with preceding := k.preceding ++ [s] } else k.settle s
  | .publicKeySessionKey p => { k with keys := k.keys ++ [.publicKey p] }
  | .passphraseSessionKey p => { k with keys := k.keys ++ [.passphrase p] }
  | .encryptedData d => { k with data := some (.encryptedData d) }
  | .unprotectedData b => { k with data := some (.unprotectedData b) }
  | .compressedData c => { k with data := some (.compressedData c) }
  | .literalData p => { k with data := some (.literalData p) }
  | .marker | .padding _ | .unknown .. => k

/-- An announcement and its signature, as packets. -/
def pair (p : OnePassSignature × Signature) : Packet × Packet :=
  (.onePassSignature p.1, .signature p.2)

/-- The sketch with packets for what they hold. -/
def erase (k : LayerSketch) : Sketch Packet where
  owed := k.owed.map .onePassSignature
  preceding := k.preceding.map .signature
  keys := k.keys.map KeyPacket.packet
  data := k.data
  settled := k.settled.map pair

theorem erase_add (k : LayerSketch) (p : Packet) :
    (k.add p).erase = k.erase.add Packet.symbol? p := by
  cases p with
  | signature s =>
    simp only [add, Sketch.add, Packet.symbol?]
    cases hd : k.data with
    | none => simp [erase, Sketch.precede, hd]
    | some d =>
      cases ho : k.owed with
      | nil => simp [erase, settle, Sketch.settle, hd, ho]
      | cons a owed => simp [erase, settle, Sketch.settle, hd, ho, pair]
  | unknown tag body =>
    simp only [add, Sketch.add, Packet.symbol?]
    by_cases ht : Packet.isNonCritical tag <;> simp [ht]
  | _ => simp [add, Sketch.add, Packet.symbol?, erase, Sketch.announce, Sketch.addKey,
      Sketch.reach, KeyPacket.packet]

theorem add_of_symbol?_none {k : LayerSketch} {p : Packet} (h : p.symbol? = none) : k.add p = k := by
  cases p <;> first | rfl | simp [Packet.symbol?] at h

end LayerSketch

/-- The sketch of the packets of a layer. -/
def layerSketch (packets : List Packet) : LayerSketch := packets.foldl .add .empty

@[simp] theorem layerSketch_append (packets : List Packet) (p : Packet) :
    layerSketch (packets ++ [p]) = (layerSketch packets).add p := by
  simp [layerSketch, List.foldl_append]

theorem erase_layerSketch (packets : List Packet) :
    (layerSketch packets).erase = sketch Packet.symbol? packets := by
  induction packets using List.reverseRecOn with
  | nil => rfl
  | append_singleton packets p ih => rw [layerSketch_append, LayerSketch.erase_add, ih, sketch_append]

/-- The configuration behind accepted packets is the one their sketch tells. -/
theorem layerSketch_fits {packets : List Packet} {a : Automaton}
    (h : Automaton.initial.accept? (packets.filterMap Packet.symbol?) = some a) :
    (layerSketch packets).erase.Fits a.configuration := by
  rw [erase_layerSketch]
  exact (fits_of_run? (fun p _ => p.symbol?_ne_end) (Automaton.run?_of_accept? h)).1

/-! ## Layers -/

/-- A layer that was read to its end. -/
structure LayerRecord where
  /-- All its packets. -/
  packets : List Packet
  /-- The key packets in front of encrypted data. -/
  keys : List KeyPacket
  data : Packet
  /-- What the data is recorded as. -/
  layer : Layer
  /-- The signatures behind the data, in order, each with its announcement. -/
  settled : List (OnePassSignature × Signature)
  /-- The signatures in front of the data, in order. -/
  preceding : List Signature

namespace LayerRecord

def outline (l : LayerRecord) : Outline Packet where
  keys := l.keys.map KeyPacket.packet
  data := l.data
  settled := l.settled.map LayerSketch.pair
  preceding := l.preceding.map .signature

/-- The packets of the layer are a message, in which each signature behind the data belongs to its
announcement. -/
def IsMessage (l : LayerRecord) : Prop :=
  Message Packet.symbol? (visible Packet.symbol? l.packets) l.outline

def ofSketch (packets : List Packet) (d : Packet) (layer : Layer) : LayerRecord where
  packets := packets
  keys := (layerSketch packets).keys
  data := d
  layer := layer
  settled := (layerSketch packets).settled
  preceding := (layerSketch packets).preceding

/-- What comes of a signature over data that was announced: the hash is of the announced kind. -/
def verifySettled (v : VerificationContext) (data : Octets) (p : OnePassSignature × Signature) :
    SignatureVerification :=
  v.verify p.2 (SignatureHasher.covering p.1.hashAlgorithm p.1.type data) (some p.1) .onePass

/-- What comes of a signature that stood in front of data. -/
def verifyPreceding (v : VerificationContext) (data : Octets) (s : Signature) : SignatureVerification :=
  v.verify s (SignatureHasher.covering s.hashAlgorithm s.type data) none .preceding

/-- What comes of the signatures of a layer over data. -/
def verifications (v : VerificationContext) (data : Octets) (l : LayerRecord) : List SignatureVerification :=
  l.settled.map (verifySettled v data) ++ l.preceding.map (verifyPreceding v data)

/-- The nodes of a layer and those inside it: the data first, then its signatures. -/
def nodes (v : VerificationContext) (data : Octets) : List LayerRecord → List LayerNode
  | [] => []
  | l :: inner => ⟨l.layer, nodes v data inner⟩ ::
      (l.verifications v data).map fun s => .leaf (.signature s)

/-- The tree of a layer holds what is inside its data and then its own results. -/
theorem walk_nodes_cons (v : VerificationContext) (data : Octets) (l : LayerRecord)
    (inner : List LayerRecord) :
    LayerNode.walk (nodes v data (l :: inner)) =
      l.layer :: (LayerNode.walk (nodes v data inner) ++
        (l.verifications v data).map Layer.signature) := by
  rw [nodes, LayerNode.walk, LayerNode.walk_append, LayerNode.walk_map_leaf]

end LayerRecord

/-- A container opens, by the key packets in front of it, to a content and is recorded as a layer. -/
inductive Opens (o : ReadingContext) (keys : List KeyPacket) : Packet → Layer → Octets → Prop
  | compressed {c : CompressedData} {content : Octets}
      (hp : o.restrictions.policy.acceptsCompression c.algorithm = true)
      (hd : c.decompress o.restrictions.decompressedLength = .ok content) :
      Opens o keys (.compressedData c) (.compression c.algorithm) content
  | encrypted {d : EncryptedData} {integrity : IntegrityProtection} {resolved : ResolvedKey}
      (hi : MessageReader.integrityOf o.restrictions.policy d = .ok integrity)
      (hr : d.resolveBy o.restrictions.policy o.credentials keys = .ok resolved) :
      Opens o keys (.encryptedData d)
        (.encryption ⟨resolved.algorithm, integrity, resolved.source⟩) resolved.plaintext

/-- A source reads as a chain of layers, outermost first, down to literal data. -/
inductive Reading (o : ReadingContext) : PacketSource → List LayerRecord → LiteralData → Prop
  | literal {s s' : PacketSource} {l : LayerRecord} {p : LiteralData} (hy : s.Yields l.packets s')
      (he : s'.next = .ok none) (hm : l.IsMessage) (hd : l.data = .literalData p)
      (hl : l.layer = .literal (.ofPacket p)) : Reading o s [l] p
  | inside {s s' : PacketSource} {l : LayerRecord} {content : Octets} {inner : List LayerRecord}
      {p : LiteralData} (hy : s.Yields l.packets s') (he : s'.next = .ok none) (hm : l.IsMessage)
      (ho : Opens o l.keys l.data l.layer content)
      (h : Reading o (.ofContent o content) inner p) : Reading o s (l :: inner) p

/-- What lies within the data of a layer: nothing more if it is literal, else the layers inside. -/
inductive Within (o : ReadingContext) (keys : List KeyPacket) :
    Packet → Layer → List LayerRecord → LiteralData → Prop
  | literal (p : LiteralData) : Within o keys (.literalData p) (.literal (.ofPacket p)) [] p
  | opened {d : Packet} {layer : Layer} {content : Octets} {inner : List LayerRecord}
      {p : LiteralData} (ho : Opens o keys d layer content)
      (h : Reading o (.ofContent o content) inner p) : Within o keys d layer inner p

theorem Reading.of_within {o : ReadingContext} {s s' : PacketSource} {l : LayerRecord}
    {inner : List LayerRecord} {p : LiteralData} (hy : s.Yields l.packets s')
    (he : s'.next = .ok none) (hm : l.IsMessage) (hw : Within o l.keys l.data l.layer inner p) :
    Reading o s (l :: inner) p := by
  obtain ⟨packets, keys, data, layer, settled, preceding⟩ := l
  cases hw with
  | literal => exact .literal hy he hm rfl rfl
  | opened ho h => exact .inside hy he hm ho h

/-- Packets accepted to their end are a message, and its outline is their sketch. -/
theorem LayerRecord.isMessage_ofSketch {packets : List Packet} {a a' : Automaton}
    (h : Automaton.initial.accept? (packets.filterMap Packet.symbol?) = some a)
    (hn : a.next .endOfSequence = (.ok (), a')) :
    (layerSketch packets).owed = [] ∧ ∃ d, (layerSketch packets).data = some d ∧
      ∀ layer, (LayerRecord.ofSketch packets d layer).IsMessage := by
  obtain ⟨-, c, hc, rfl⟩ := Automaton.next_eq_ok_iff.mp hn
  obtain ⟨-, ho, d, hd, hm⟩ := message_of_run? (fun p _ => p.symbol?_ne_end)
    (Automaton.run?_of_accept? h) hc
  rw [← erase_layerSketch] at ho hd hm
  exact ⟨by simpa [LayerSketch.erase] using ho, d, hd, fun _ => hm⟩

/-! ## The way to literal data -/

/-- A source gives packets of which the automaton of their layer accepts all, `p` being the last.
Encrypted data without integrity protection is not among them. -/
structure PacketSource.Admits (s : PacketSource) (packets : List Packet) (p : Packet) : Prop where
  yields : ∃ s', s.Yields (packets ++ [p]) s'
  accepted : ∃ a, Automaton.initial.accept? ((packets ++ [p]).filterMap Packet.symbol?) = some a
  isProtected : ∀ body, .unprotectedData body ∉ packets ++ [p]

/-- Literal data is reached from a source: it stands there, or in what a container opened to. Compressed
data is of an accepted algorithm; encrypted data was decrypted whole, under an accepted cipher, and is
authentic. -/
inductive LeadsTo (o : ReadingContext) : PacketSource → LiteralData → Prop
  | literal {s : PacketSource} {packets : List Packet} {p : LiteralData}
      (h : s.Admits packets (.literalData p)) : LeadsTo o s p
  | compressed {s : PacketSource} {packets : List Packet} {c : CompressedData} {content : Octets}
      {p : LiteralData} (h : s.Admits packets (.compressedData c))
      (hp : o.restrictions.policy.acceptsCompression c.algorithm = true)
      (hd : c.decompress o.restrictions.decompressedLength = .ok content)
      (hc : LeadsTo o (.ofContent o content) p) : LeadsTo o s p
  | encrypted {s : PacketSource} {packets : List Packet} {d : EncryptedData}
      {algorithm : SymmetricAlgorithm} {key content : Octets} {p : LiteralData}
      (h : s.Admits packets (.encryptedData d))
      (hp : o.restrictions.policy.acceptsSymmetric algorithm = true)
      (hd : d.decrypt ⟨some algorithm, key⟩ = .ok content) (ha : Authentic algorithm key d content)
      (hc : LeadsTo o (.ofContent o content) p) : LeadsTo o s p

theorem LeadsTo.of_opens {o : ReadingContext} {s : PacketSource} {packets : List Packet}
    {keys : List KeyPacket} {d : Packet} {layer : Layer} {content : Octets} {p : LiteralData}
    (h : s.Admits packets d) (ho : Opens o keys d layer content)
    (hc : LeadsTo o (.ofContent o content) p) : LeadsTo o s p := by
  cases ho with
  | compressed hp hd => exact .compressed h hp hd hc
  | encrypted hi hr =>
    obtain ⟨hp, key, hd, ha⟩ := EncryptedData.decrypt_of_resolveBy hr
    exact .encrypted h hp hd ha hc

end OpenPGP
