import OpenPGP.Proofs.Completeness
import OpenPGP.Proofs.Encrypting
import OpenPGP.Proofs.Signing
import OpenPGP.Proofs.StoredBlocks
/-!
# Drafts read back

At every stage of composing, the packets of a draft are those of a layer that can be
read: they are well formed, they are a message, and within their data lie the layers
that were composed before, down to the literal packet. `Draft.Reads` is this
invariant; signing adds to the layer, and compressing and encrypting close it and
begin another one around it.

Results:
* `Draft.Reads.reading`: the wire form of a draft reads as its layers.
* `Draft.Reads.signed`, `Draft.Reads.preceded`, `Draft.Reads.compressed`, `Draft.Reads.encrypted`: what a
  step does to the layers.
* `Draft.signature_makes`: which signature is made.
-/
namespace OpenPGP

open Crypto Composing

/-! ## Lengths -/

/-- The lengths of the bodies of the packets. -/
def Draft.bodyLengths (d : Draft) : List Nat := d.packets.map (·.body.length)

/-- The length of a layer, by the lengths of its bodies: of every packet its tag, its length and its
body. -/
def layerLength (bodies : List Nat) : Nat :=
  (bodies.map fun n => 1 + (PacketHeader.lengthOctets n).length + n).sum

theorem Packet.length_encodeAll {packets : List Packet} {octets : Octets}
    (h : encodeAll packets = .ok octets) :
    octets.length = layerLength (packets.map (·.body.length)) := by
  induction packets generalizing octets with
  | nil =>
    cases h
    rfl
  | cons p packets ih =>
    obtain ⟨first, rest, hf, hr, rfl⟩ := encodeAll_cons_eq_ok.mp h
    obtain ⟨-, rfl⟩ := encode_eq_ok.mp hf
    rw [List.length_append, List.length_append, ih hr, PacketHeader.encode_eq, List.length_cons]
    simp only [layerLength, List.map_cons, List.sum_cons]
    omega

/-- Bodies that fit their headers and that a reader takes. -/
def Restrictions.Takes (r : Restrictions) (bodies : List Nat) : Prop :=
  ∀ n ∈ bodies, n ≤ Packet.maxBodyLength ∧ n ≤ r.packetLength.toNat

/-! ## Packets of a layer -/

theorem PacketSource.Yields.cons {s s₁ s' : PacketSource} {p : Packet} {ps : List Packet}
    (hp : s.next = .ok (some (p, s₁))) (h : s₁.Yields ps s') : s.Yields (p :: ps) s' := by
  induction h with
  | nil => exact Yields.snoc (.nil s) hp
  | snoc h hq ih => exact Yields.snoc ih hq

theorem PacketReader.Gives.yields {r : PacketReader} {packets : List Packet} (h : r.Gives packets) :
    ∃ s', (PacketSource.reader r).Yields packets s' ∧ s'.next = .ok none := by
  induction h with
  | @nil r r' h => exact ⟨_, .nil _, by rw [PacketSource.next, h]⟩
  | @cons r r' p ps h hs ih =>
    obtain ⟨s', hy, he⟩ := ih
    exact ⟨s', hy.cons (by rw [PacketSource.next, h]), he⟩

/-! ## Drafts -/

/-- What a reader makes of a draft: its packets are those of the layer `l`, and within the data of it
are the layers `inner`, down to the literal packet `p`, whose body is what signatures cover. -/
structure Draft.Reads (o : ReadingContext) (p : LiteralData) (d : Draft) (l : LayerRecord)
    (inner : List LayerRecord) : Prop where
  packets : d.packets.map Packet.readAs = l.packets
  wellFormed : ∀ q ∈ l.packets, q.WellFormed
  isMessage : l.IsMessage
  within : Within o l.keys l.data l.layer inner p
  signedData : d.signedData = some p.body

namespace Draft

variable {o : ReadingContext} {p : LiteralData} {d : Draft} {l : LayerRecord} {inner : List LayerRecord}

theorem bodyLengths_eq (h : d.packets.map Packet.readAs = l.packets) :
    d.bodyLengths = l.packets.map (·.body.length) := by
  simp [bodyLengths, ← h, Packet.body_readAs]

namespace Reads

theorem literal (p : LiteralData) (h : p.filename.length ≤ 255) :
    Reads o p ⟨[.literalData p], some p.body⟩
      ⟨[.literalData p], [], .literalData p, .literal (.ofPacket p), [], []⟩ [] where
  packets := rfl
  wellFormed := List.forall_mem_singleton.mpr (.literalData h)
  isMessage := .literal rfl
  within := .literal p
  signedData := rfl

/-- The wire form of a draft reads as its layers. -/
theorem reading (h : d.Reads o p l inner) (ht : o.restrictions.Takes d.bodyLengths) :
    ∃ octets, Packet.encodeAll d.packets = .ok octets ∧ octets.length = layerLength d.bodyLengths ∧
      Reading o (.ofContent o octets) (l :: inner) p := by
  have hbodies : ∀ q ∈ l.packets, q.body.length ≤ Packet.maxBodyLength ∧
      q.body.length ≤ o.restrictions.packetLength.toNat := by
    rw [bodyLengths_eq h.packets] at ht
    exact fun q hq => ht _ (List.mem_map_of_mem hq)
  obtain ⟨⟨octets, he, hgives⟩, -⟩ := PacketReader.gives_of_encodeAll h.wellFormed
    (fun q hq => (hbodies q hq).1) fun q hq => (hbodies q hq).2
  obtain ⟨s', hy, hend⟩ := (hgives _ (Source.delivers_ofOctets octets)).yields
  rw [← h.packets, Packet.encodeAll_readAs] at he
  exact ⟨octets, he, Packet.length_encodeAll he, .of_within hy hend h.isMessage h.within⟩

/-! ## Signing -/

/-- An announcement in front and its signature behind. -/
theorem signed (h : d.Reads o p l inner) {a : OnePassSignature} (ha : a.IsCanonical) {s : Signature}
    (hs : s.WellFormed) :
    Reads o p { d with packets := .onePassSignature a :: d.packets ++ [.signature s] }
      { l with
        packets := .onePassSignature a :: l.packets ++ [.signature s]
        settled := l.settled ++ [(a, s)] } inner where
  packets := by simp [← h.packets, Packet.readAs]
  wellFormed := by
    simp only [List.cons_append, List.mem_cons, List.mem_append, List.not_mem_nil, or_false]
    rintro q (rfl | hq | rfl)
    · exact .onePassSignature ha
    · exact h.wellFormed q hq
    · exact .signature hs
  isMessage := by
    have hm := Message.onePass (a := .onePassSignature a) (s := .signature s) rfl rfl h.isMessage
    simpa [LayerRecord.IsMessage, LayerRecord.outline, LayerSketch.pair, visible, Packet.symbol?] using hm
  within := h.within
  signedData := h.signedData

/-- A signature in front. -/
theorem preceded (h : d.Reads o p l inner) {s : Signature} (hs : s.WellFormed) :
    Reads o p { d with packets := .signature s :: d.packets }
      { l with packets := .signature s :: l.packets, preceding := s :: l.preceding } inner where
  packets := by simp [← h.packets, Packet.readAs]
  wellFormed := List.forall_mem_cons.mpr ⟨.signature hs, h.wellFormed⟩
  isMessage := by
    have hm := Message.preceding (s := .signature s) rfl h.isMessage
    simpa [LayerRecord.IsMessage, LayerRecord.outline, visible, Packet.symbol?] using hm
  within := h.within
  signedData := h.signedData

/-! ## Containers -/

/-- Compressed data that expands to the wire form of a draft. -/
theorem compressed {octets : Octets} (h : Reading o (.ofContent o octets) (l :: inner) p)
    (hs : d.signedData = some p.body) {c : CompressedData} {layer : Layer}
    (ho : Opens o [] (.compressedData c) layer octets) (hc : c.algorithm.IsCanonical) :
    Reads o p { d with packets := [.compressedData c] }
      ⟨[.compressedData c], [], .compressedData c, layer, [], []⟩ (l :: inner) where
  packets := rfl
  wellFormed := List.forall_mem_singleton.mpr (.compressedData hc)
  isMessage := .compressed rfl
  within := .opened ho h
  signedData := hs

/-- A key packet and encrypted data that opens behind it to the wire form of a draft. -/
theorem encrypted {octets : Octets} (h : Reading o (.ofContent o octets) (l :: inner) p)
    (hs : d.signedData = some p.body) {k : KeyPacket} {data : EncryptedData} {layer : Layer}
    (ho : Opens o [k] (.encryptedData data) layer octets)
    (hp : d.packets.map Packet.readAs = [k.packet, .encryptedData data]) (hk : k.packet.WellFormed)
    (hd : data.WellFormed) :
    Reads o p d ⟨[k.packet, .encryptedData data], [k], .encryptedData data, layer, [], []⟩ (l :: inner) where
  packets := hp
  wellFormed := List.forall_mem_cons.mpr ⟨hk, List.forall_mem_singleton.mpr (.encryptedData hd)⟩
  isMessage := by
    have hkey : k.packet.symbol? = some .encryptedSessionKey := by cases k <;> rfl
    have hvisible : visible Packet.symbol? [k.packet, .encryptedData data] =
        [k.packet] ++ [.encryptedData data] := by cases k <;> rfl
    rw [LayerRecord.IsMessage, hvisible]
    exact .encrypted (List.forall_mem_singleton.mpr hkey) rfl
  within := .opened ho h
  signedData := hs

end Reads

/-! ## Signatures -/

/-- The signature that is made says what its parameters and the clock say, over the data of the draft. -/
theorem signature_makes (c : SigningContext) {now : UInt32} {data : Octets} (hd : d.signedData = some data)
    {created : Option UInt32} (hc : c.created = created.getD now) :
    Makes now (d.signature c.signer ⟨c.hash.algorithm, c.type, created, c.lifetime⟩) (· = c.signed data) := by
  have hhasher : Hasher.ofAlgorithm c.hash.algorithm = .ok (.initial c.hash) := by
    rw [Hasher.ofAlgorithm, HashFunction.ofAlgorithm?_algorithm]
  obtain ⟨hasher, hcover, hdigest⟩ := SigningContext.finish_covering (c := c) data
  rw [SignatureHasher.covering, SignatureHasher.begin?, HashFunction.ofAlgorithm?_algorithm, Option.map_some,
    Option.map_some, Option.some_inj] at hcover
  rw [signature, hd]
  refine Makes.clock.bind fun time ht => ?_
  rw [ht, ← hc]
  refine Makes.ofCrypto_bind hhasher (Makes.pure ?_)
  have hdigest' : ((SignatureHasher.initial (.initial c.hash) c.type).update data).finish
      (c.signature (.zero 2) (.zero 64)).hashTrailer = c.digest data := by
    rw [hcover]
    exact hdigest
  exact congrArg (fun digest => c.signature (Octets.resize 2 digest) (c.signer.sign digest)) hdigest'

end Draft

end OpenPGP
