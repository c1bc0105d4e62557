import OpenPGP.Proofs.Outcome
import OpenPGP.Proofs.SessionKeyCodec
/-!
# Reading back packets

A packet that is `WellFormed` is read back from what it is written as, and so is
a sequence of such packets: a reader gives them in order, then the end of the
source. A packet takes its own octets off a source and no others.

Results:
* `Packet.WellFormed.readsBack`: the body of a well-formed packet decodes to it.
* `PacketReader.reads_encode_of_wellFormed`: a packet is read back whatever follows it.
* `PacketReader.gives_of_encodeAll`: so are all packets of a sequence, and nothing else.
-/
namespace OpenPGP

open Framed

/-! ## Encoding -/

namespace Packet

/-- The greatest length of a body that a header can hold. -/
def maxBodyLength : Nat := 0xFFFFFFFF

theorem encode_eq_ok {p : Packet} {octets : Octets} : p.encode = .ok octets ↔
    p.body.length ≤ maxBodyLength ∧ PacketHeader.encode p.tag p.body.length ++ p.body = octets := by
  unfold encode maxBodyLength
  dsimp only
  split
  · exact ⟨fun h => (by cases h), fun h => (by omega)⟩
  · next h => exact ⟨fun e => ⟨by omega, Except.ok.inj e⟩, fun e => congrArg _ e.2⟩

theorem encodeAll_cons_eq_ok {p : Packet} {ps : List Packet} {octets : Octets} :
    encodeAll (p :: ps) = .ok octets ↔
      ∃ first rest, p.encode = .ok first ∧ encodeAll ps = .ok rest ∧ first ++ rest = octets := by
  constructor
  · intro h
    obtain ⟨first, hf, h⟩ := Except.bind_eq_ok.mp h
    obtain ⟨rest, hr, h⟩ := Except.bind_eq_ok.mp h
    exact ⟨first, rest, hf, hr, Except.ok.inj h⟩
  · rintro ⟨first, rest, hf, hr, rfl⟩
    exact Except.bind_eq_ok.mpr ⟨first, hf, Except.bind_eq_ok.mpr ⟨rest, hr, rfl⟩⟩

/-! ## Well-formed packets -/

/-- The tags that have a meaning in a message. -/
def knownTags : List UInt8 := [1, 2, 3, 4, 8, 9, 10, 11, 18, 21]

/-- Packets that are read back: their identifiers are in canonical form and their parts fit. -/
inductive WellFormed : Packet → Prop
  | publicKeySessionKey {p : PublicKeySessionKey} (h : p.WellFormed) :
      WellFormed (.publicKeySessionKey p)
  | signature {s : Signature} (h : s.WellFormed) : WellFormed (.signature s)
  | passphraseSessionKey {p : PassphraseSessionKey} (h : p.WellFormed) :
      WellFormed (.passphraseSessionKey p)
  | onePassSignature {p : OnePassSignature} (h : p.IsCanonical) : WellFormed (.onePassSignature p)
  | compressedData {p : CompressedData} (h : p.algorithm.IsCanonical) : WellFormed (.compressedData p)
  | unprotectedData (body : Octets) : WellFormed (.unprotectedData body)
  | marker : WellFormed .marker
  | literalData {p : LiteralData} (h : p.filename.length ≤ 255) : WellFormed (.literalData p)
  | encryptedData {p : EncryptedData} (h : p.WellFormed) : WellFormed (.encryptedData p)
  | padding (length : Nat) : WellFormed (.padding length)
  /-- A tag that fits into a header, is not reserved and has no meaning. -/
  | unknown {tag : UInt8} (hpos : tag ≠ 0) (hlt : tag.toNat < 64) (h : tag ∉ knownTags)
      (body : Octets) : WellFormed (.unknown tag body)

namespace WellFormed

variable {p : Packet}

theorem tag_lt (h : p.WellFormed) : p.tag ≠ 0 ∧ p.tag.toNat < 64 := by
  cases h with
  | unknown hpos hlt => exact ⟨hpos, hlt⟩
  | _ => exact ⟨by simp [tag], by simp [tag]⟩

/-- The body of a packet decodes to it. -/
theorem readsBack (h : p.WellFormed) : decode p.tag p.body = .ok p := by
  cases h with
  | publicKeySessionKey h =>
    exact congrArg (Except.map fun r : PublicKeySessionKey × Octets => Packet.publicKeySessionKey r.1)
      (PublicKeySessionKey.reads_encode h)
  | signature h =>
    exact congrArg (Except.map fun r : Signature × Octets => Packet.signature r.1)
      (Signature.reads_encode h)
  | passphraseSessionKey h =>
    exact congrArg (Except.map fun r : PassphraseSessionKey × Octets => Packet.passphraseSessionKey r.1)
      (PassphraseSessionKey.reads_encode h)
  | onePassSignature h =>
    exact congrArg (Except.map fun r : OnePassSignature × Octets => Packet.onePassSignature r.1)
      (OnePassSignature.reads_encode h)
  | @compressedData p h =>
    have hdecode : decode 8 (p.algorithm.code :: p.body) = .ok (.compressedData ⟨.ofCode p.algorithm.code, p.body⟩) :=
      rfl
    rwa [h.ofCode_code] at hdecode
  | unprotectedData body => rfl
  | marker => rfl
  | literalData h =>
    exact congrArg (Except.map fun r : LiteralData × Octets => Packet.literalData r.1)
      (LiteralData.reads_encode h)
  | encryptedData h =>
    exact congrArg (Except.map fun r : EncryptedData × Octets => Packet.encryptedData r.1)
      (EncryptedData.reads_encode h)
  | padding length => simp [decode, tag, body]
  | @unknown tag hpos hlt h body =>
    simp only [knownTags, List.mem_cons, not_or] at h
    unfold decode
    split <;> simp_all [Packet.tag, Packet.body]

end WellFormed

end Packet

/-! ## Packets off a source -/

namespace PacketReader

/-- A packet takes its own octets and no others, if its body is within the limit. -/
theorem reads_encode_of_wellFormed {p : Packet} {octets : Octets} {limit : UInt64}
    (h : p.WellFormed) (he : p.encode = .ok octets) (hl : p.body.length ≤ limit.toNat)
    (rest : Octets) : Reads (packet limit) (octets ++ rest) (some p) rest :=
  reads_encode he h.readsBack h.tag_lt.1 h.tag_lt.2 hl rest

theorem next_of_reads {limit : UInt64} {octets rest : Octets} {p : Option Packet}
    (h : Reads (packet limit) octets p rest) {source : Source} (hs : source.Delivers octets) :
    ∃ source', next ⟨source, limit⟩ = (.ok p, ⟨source', limit⟩) ∧ source'.Delivers rest := by
  obtain ⟨source', hread, hd⟩ := h source hs
  exact ⟨source', by rw [next, hread], hd⟩

/-- A reader gives packets one after the other, and then the end. -/
inductive Gives : PacketReader → List Packet → Prop
  | nil {r r' : PacketReader} (h : r.next = (.ok none, r')) : Gives r []
  | cons {r r' : PacketReader} {p : Packet} {ps : List Packet} (h : r.next = (.ok (some p), r'))
      (hs : Gives r' ps) : Gives r (p :: ps)

/-- **Packets are read back.** Well-formed packets whose bodies fit their headers have a wire form. A
reader of it, however it is delivered and with a limit that no body exceeds, gives exactly these packets
in order and then the end. The wire form of each alone is read back whatever follows it, and what
follows is left as it is. -/
theorem gives_of_encodeAll {packets : List Packet} (hw : ∀ p ∈ packets, p.WellFormed)
    (hb : ∀ p ∈ packets, p.body.length ≤ Packet.maxBodyLength) {limit : UInt64}
    (hl : ∀ p ∈ packets, p.body.length ≤ limit.toNat) :
    (∃ octets, Packet.encodeAll packets = .ok octets ∧
      ∀ source : Source, source.Delivers octets → Gives ⟨source, limit⟩ packets) ∧
    ∀ p ∈ packets, ∃ octets, p.encode = .ok octets ∧
      ∀ (rest : Octets) (source : Source), source.Delivers (octets ++ rest) →
        ∃ source', next ⟨source, limit⟩ = (.ok (some p), ⟨source', limit⟩) ∧ source'.Delivers rest := by
  have hone : ∀ p ∈ packets, ∃ octets, p.encode = .ok octets ∧
      ∀ rest, Reads (packet limit) (octets ++ rest) (some p) rest := by
    intro p hp
    have he := Packet.encode_eq_ok.mpr ⟨hb p hp, rfl⟩
    exact ⟨_, he, reads_encode_of_wellFormed (hw p hp) he (hl p hp)⟩
  refine ⟨?_, fun p hp => ?_⟩
  · clear hw hb hl
    induction packets with
    | nil =>
      refine ⟨[], rfl, fun source hs => ?_⟩
      obtain ⟨source', hnext, -⟩ := next_of_reads (reads_nil limit) hs
      exact .nil hnext
    | cons p ps ih =>
      obtain ⟨first, hf, hread⟩ := hone p (by simp)
      obtain ⟨rest, hr, hgives⟩ := ih fun q hq => hone q (by simp [hq])
      refine ⟨first ++ rest, Packet.encodeAll_cons_eq_ok.mpr ⟨first, rest, hf, hr, rfl⟩,
        fun source hs => ?_⟩
      obtain ⟨source', hnext, hd⟩ := next_of_reads (hread rest) hs
      exact .cons hnext (hgives source' hd)
  · obtain ⟨octets, he, hread⟩ := hone p hp
    exact ⟨octets, he, fun rest source hs => next_of_reads (hread rest) hs⟩

/-- A session key for a recipient and one for a passphrase, encrypted data in chunks, a signature with a
critical subpacket of an unknown type, and a packet of an unknown tag. -/
def assortedPackets : List Packet :=
  [.publicKeySessionKey ⟨3, some (.keyId ⟨List.replicate 8 1, rfl⟩), .x25519,
      .x25519 (.zero 32) (some .aes256) (List.replicate 40 0)⟩,
    .passphraseSessionKey (.v6 .aes128 .ocb (.argon2 (.zero 16) 1 4 15) (List.replicate 15 0) [1, 2]),
    .encryptedData (.v2 .aes128 .ocb 16 (.zero 32) [3]),
    .signature (.ofSubpackets .text .ed25519 .sha512 [⟨true, .other 100 (List.replicate 200 7)⟩] []
      (.zero 2) (.ed25519 (.zero 64))),
    .unknown 60 []]

theorem gives_of_encodeAll_assorted : ∃ octets, Packet.encodeAll assortedPackets = .ok octets ∧
    Gives ⟨.ofOctets octets, 300⟩ assortedPackets := by
  have hw : ∀ p ∈ assortedPackets, p.WellFormed := by
    simp only [assortedPackets, List.forall_mem_cons, List.not_mem_nil, false_implies, implies_true,
      and_true]
    refine ⟨.publicKeySessionKey ⟨.keyId (by decide), by decide, .clear _ (by decide) (by decide)⟩,
      .passphraseSessionKey (.v6 (by decide) (by decide) _ (.argon2 _ _ _ _) (by decide)),
      .encryptedData (.v2 _ _ (by decide) (by decide) (by decide)),
      .signature (Signature.wellFormed_ofSubpackets _ ⟨by decide, by decide, by decide⟩ (.ed25519 _) ?_ (by simp)
        (by decide +kernel) (by decide)),
      .unknown (by decide) (by decide) (by decide) _⟩
    exact List.forall_mem_singleton.mpr ⟨by decide, rfl⟩
  have hb : ∀ p ∈ assortedPackets, p.body.length ≤ Packet.maxBodyLength := by decide +kernel
  have hl : ∀ p ∈ assortedPackets, p.body.length ≤ (300 : UInt64).toNat := by decide +kernel
  obtain ⟨⟨octets, he, hgives⟩, -⟩ := gives_of_encodeAll hw hb hl
  exact ⟨octets, he, hgives _ (Source.delivers_ofOctets octets)⟩

end PacketReader

end OpenPGP
