import Mathlib.Data.Nat.Init
import OpenPGP.Packet
import OpenPGP.Proofs.Wire
/-!
# Reading back packet bodies

The body a packet is written with decodes to the packet. `Field.Reads` is to
fields what `Framed.Reads` is to reads off a source. It is shown here for
signatures and their announcements and for data; session key packets are next
door.

Results:
* `Subpacket.decodeArea_encodeArea`: subpackets that are read back alone are read back in an area.
* `Signature.reads_encode`, `OnePassSignature.reads_encode`, `LiteralData.reads_encode`,
  `EncryptedData.reads_encode`: so are these bodies.
-/
namespace OpenPGP

/-! ## Fields -/

namespace Field

/-- A field reads a value off the front of some octets and leaves the rest. -/
def Reads {α : Type} (f : Field α) (part : Part) (octets : Octets) (a : α) (rest : Octets) : Prop :=
  f.run part octets = .ok (a, rest)

variable {α β : Type} {part : Part} {octets between left : Octets}

theorem Reads.pure (a : α) : Reads (pure a) part octets a octets := rfl

theorem Reads.bind {f : Field α} {g : α → Field β} {a : α} {b : β} (hf : f.Reads part octets a between)
    (hg : (g a).Reads part between b left) : Reads (f >>= g) part octets b left := by
  change (f part octets >>= fun r => g r.1 part r.2) = .ok (b, left)
  rw [show f part octets = .ok (a, between) from hf]
  exact hg

theorem reads_octet (b : UInt8) : octet.Reads part (b :: left) b left := rfl

theorem reads_take (field : Octets) : (take field.length).Reads part (field ++ left) field left :=
  take_append part field left

theorem reads_sized {n : Nat} (field : Octets.Sized n) :
    (sized n).Reads part (field.val ++ left) field left := sized_append part field left

theorem reads_take_last (field : Octets) : (take field.length).Reads part field field [] := by
  have h : (take field.length).Reads part (field ++ []) field [] := reads_take field
  rwa [List.append_nil] at h

theorem reads_sized_last {n : Nat} (field : Octets.Sized n) :
    (sized n).Reads part field.val field [] := by
  have h : (sized n).Reads part (field.val ++ []) field [] := reads_sized field
  rwa [List.append_nil] at h

theorem reads_rest : rest.Reads part octets octets [] := rfl

theorem reads_number {width n : Nat} (h : n < Nat.pow 256 width) :
    (number width).Reads part (Octets.bigEndian width n ++ left) n left := by
  have hread : (take (Octets.bigEndian width n).length).Reads part
      (Octets.bigEndian width n ++ left) (Octets.bigEndian width n) left := reads_take _
  rw [Octets.length_bigEndian] at hread
  apply hread.bind
  rw [Octets.ofBigEndian_bigEndian, Nat.mod_eq_of_lt h]
  exact Reads.pure n

theorem reads_ofExcept {a : α} {result : Except PacketError α} (h : result = .ok a) :
    (ofExcept result).Reads part octets a octets := by
  rw [h]
  rfl

/-! ### What a read took -/

theorem reads_bind_iff {f : Field α} {g : α → Field β} {b : β} : (f >>= g).Reads part octets b left ↔
    ∃ a between, f.Reads part octets a between ∧ (g a).Reads part between b left := by
  refine ⟨fun h => ?_, fun ⟨a, between, hf, hg⟩ => hf.bind hg⟩
  change (f part octets >>= fun r => g r.1 part r.2) = .ok (b, left) at h
  cases hf : f part octets with
  | error e => rw [hf] at h; cases h
  | ok r => rw [hf] at h; exact ⟨r.1, r.2, hf, h⟩

theorem reads_pure_iff {a b : α} : (Pure.pure a : Field α).Reads part octets b left ↔ b = a ∧ left = octets := by
  refine ⟨fun h => ?_, fun h => by rw [h.1, h.2]; exact Reads.pure a⟩
  cases h
  exact ⟨rfl, rfl⟩

theorem not_reads_fail {error : PacketError} {a : α} : ¬ (fail error : Field α).Reads part octets a left :=
  fun h => by cases h

theorem reads_octet_iff {b : UInt8} : octet.Reads part octets b left ↔ octets = b :: left := by
  refine ⟨fun h => ?_, fun h => by rw [h]; exact reads_octet b⟩
  cases octets with
  | nil => cases h
  | cons first octets => cases h; rfl

theorem reads_take_iff {n : Nat} {field : Octets} :
    (take n).Reads part octets field left ↔ field.length = n ∧ octets = field ++ left := by
  refine ⟨fun h => ?_, fun ⟨hn, h⟩ => by rw [h, ← hn]; exact reads_take field⟩
  unfold Reads run take at h
  dsimp only at h
  split at h
  · next hn =>
    cases h
    exact ⟨hn, (List.take_append_drop n octets).symm⟩
  · cases h

theorem reads_sized_iff {n : Nat} {field : Octets.Sized n} :
    (sized n).Reads part octets field left ↔ octets = field.val ++ left := by
  refine ⟨fun h => ?_, fun h => by rw [h]; exact reads_sized field⟩
  unfold Reads run sized at h
  dsimp only at h
  split at h
  · cases h
    exact (List.take_append_drop n octets).symm
  · cases h

theorem reads_number_iff {width n : Nat} : (number width).Reads part octets n left ↔
    ∃ written : Octets, written.length = width ∧ Octets.ofBigEndian written = n ∧ octets = written ++ left := by
  unfold number
  rw [reads_bind_iff]
  constructor
  · rintro ⟨written, between, htake, hpure⟩
    obtain ⟨hlength, rfl⟩ := reads_take_iff.mp htake
    obtain ⟨rfl, rfl⟩ := reads_pure_iff.mp hpure
    exact ⟨written, hlength, rfl, rfl⟩
  · rintro ⟨written, hlength, hn, ho⟩
    exact ⟨written, left, reads_take_iff.mpr ⟨hlength, ho⟩, reads_pure_iff.mpr ⟨hn.symm, rfl⟩⟩

theorem reads_rest_iff {field : Octets} : rest.Reads part octets field left ↔ field = octets ∧ left = [] := by
  refine ⟨fun h => ?_, fun h => by rw [h.1, h.2]; exact reads_rest⟩
  cases h
  exact ⟨rfl, rfl⟩

theorem reads_ofExcept_iff {a : α} {result : Except PacketError α} :
    (ofExcept result).Reads part octets a left ↔ result = .ok a ∧ left = octets := by
  refine ⟨fun h => ?_, fun h => by rw [h.2]; exact reads_ofExcept h.1⟩
  cases result with
  | error e => cases h
  | ok b => cases h; exact ⟨rfl, rfl⟩

end Field

open OpenPGP.Field

/-! ## Subpackets -/

theorem Fingerprint.ofOctets?_octets (f : Fingerprint) : ofOctets? f.version f.octets = some f := by
  cases f with
  | v4 octets => simp [version, Fingerprint.octets, ofOctets?, Octets.sized?, octets.property]
  | v6 octets => simp [version, Fingerprint.octets, ofOctets?, Octets.sized?, octets.property]

namespace SubpacketContent

/-- Content that its type and data mean: what is kept uninterpreted has a type of seven bits and means
nothing else. -/
def WellFormed : SubpacketContent → Prop
  | other tag data => tag.toNat < 128 ∧ interpret? tag data = none
  | _ => True

theorem ofBigEndian_data (t : UInt32) : (Octets.ofBigEndian (Octets.bigEndian 4 t.toNat)).toUInt32 = t := by
  rw [Octets.ofBigEndian_bigEndian, Nat.mod_eq_of_lt t.toNat_lt]
  simp

theorem ofData_data {c : SubpacketContent} (h : c.WellFormed) : ofData c.tag c.data = c := by
  cases c with
  | creationTime t => simp [tag, data, ofData, interpret?, ofBigEndian_data]
  | expirationTime t => simp [tag, data, ofData, interpret?, ofBigEndian_data]
  | issuer id => simp [tag, data, ofData, interpret?, Octets.sized?, id.property]
  | keyFlags flags => rfl
  | issuerFingerprint f => simp [tag, data, ofData, interpret?, Fingerprint.ofOctets?_octets]
  | other tag data => simp only [SubpacketContent.tag, SubpacketContent.data, ofData, h.2, Option.getD_none]

theorem tag_lt {c : SubpacketContent} (h : c.WellFormed) : c.tag.toNat < 128 := by
  cases c with
  | other tag data => exact h.1
  | _ => simp [tag]

end SubpacketContent

namespace Subpacket

/-- A subpacket that is read back, unless it is too long. -/
def WellFormed (s : Subpacket) : Prop := s.content.WellFormed

/-- Of the type octet one bit marks a critical subpacket and the others are the type. -/
theorem typeOctet {tag : UInt8} (h : tag.toNat < 128) (critical : Bool) :
    (tag ||| (if critical then 0x80 else 0)) &&& 0x7F = tag ∧
      ((tag ||| (if critical then 0x80 else 0)) &&& 0x80 ≠ 0 ↔ critical = true) := by
  have all : ∀ n : Fin 128, ∀ critical : Bool,
      (UInt8.ofNat n ||| (if critical then 0x80 else 0)) &&& 0x7F = UInt8.ofNat n ∧
        ((UInt8.ofNat n ||| (if critical then 0x80 else 0)) &&& 0x80 ≠ 0 ↔ critical = true) := by
    decide
  simpa using all ⟨tag.toNat, h⟩ critical

theorem reads_encodeLength {n : Nat} (h : n ≤ 0xFFFFFFFF) (left : Octets) :
    lengthField.Reads .subpacket (encodeLength n ++ left) n left := by
  unfold encodeLength
  by_cases hone : n < 192
  · rw [if_pos hone]
    apply (reads_octet _).bind
    have hfirst : (UInt8.ofNat n).toNat = n := by
      rw [UInt8.toNat_ofNat']
      omega
    rw [hfirst, if_pos hone]
    exact Reads.pure _
  rw [if_neg hone]
  by_cases htwo : n < 8384
  · rw [if_pos htwo]
    apply (reads_octet _).bind
    have hfirst : (UInt8.ofNat ((n - 192) / 256 + 192)).toNat = (n - 192) / 256 + 192 := by
      rw [UInt8.toNat_ofNat']
      omega
    have hsecond : (UInt8.ofNat (n - 192)).toNat = (n - 192) % 256 := UInt8.toNat_ofNat'
    rw [hfirst, if_neg (by omega), if_pos (by omega)]
    apply (reads_octet _).bind
    rw [hsecond, show ((n - 192) / 256 + 192 - 192) * 256 + (n - 192) % 256 + 192 = n by omega]
    exact Reads.pure _
  · rw [if_neg htwo, Nat.min_eq_left h]
    apply (reads_octet 255).bind
    rw [if_neg (by decide), if_neg (by decide)]
    exact reads_number (by have : Nat.pow 256 4 = 0x100000000 := rfl; omega)

theorem reads_encode {s : Subpacket} (h : s.WellFormed) (hl : s.content.data.length < 0xFFFFFFFF)
    (left : Octets) : field.Reads .subpacket (s.encode ++ left) s left := by
  obtain ⟨htag, hcritical⟩ := typeOctet (SubpacketContent.tag_lt h) s.critical
  rw [encode, List.append_assoc]
  apply (reads_encodeLength hl _).bind
  rw [if_neg (Nat.succ_ne_zero _)]
  apply (reads_octet _).bind
  apply (reads_take s.content.data).bind
  obtain ⟨critical, content⟩ := s
  rw [htag, SubpacketContent.ofData_data h]
  simp only [hcritical, Bool.decide_eq_true]
  exact Reads.pure _

theorem length_data_lt_encodeArea {area : List Subpacket} {s : Subpacket} (h : s ∈ area) :
    s.content.data.length < (encodeArea area).length := by
  obtain ⟨before, after, rfl⟩ := List.append_of_mem h
  simp only [encodeArea, encode, List.flatMap_append, List.flatMap_cons, List.length_append,
    List.length_cons]
  omega

theorem encode_ne_nil (s : Subpacket) : s.encode ≠ [] := by simp [encode]

theorem decodeArea_cons {octets rest : Octets} {s : Subpacket}
    (h : field.Reads .subpacket octets s rest) (hl : rest.length < octets.length) :
    decodeArea octets = (decodeArea rest).map (s :: ·) := by
  have hne : octets.isEmpty = false := by
    rw [List.isEmpty_eq_false_iff]
    intro he
    rw [he] at hl
    cases hl
  rw [decodeArea, hne, show field.run .subpacket octets = .ok (s, rest) from h]
  simp only [Bool.false_eq_true, if_false, hl, dite_true]
  cases decodeArea rest <;> rfl

theorem decodeArea_encode_append {s : Subpacket} (h : s.WellFormed)
    (hl : s.content.data.length < 0xFFFFFFFF) (rest : Octets) :
    decodeArea (s.encode ++ rest) = (decodeArea rest).map (s :: ·) := by
  refine decodeArea_cons (reads_encode h hl rest) ?_
  have := List.length_pos_iff.mpr s.encode_ne_nil
  rw [List.length_append]
  omega

theorem decodeArea_encodeArea {area : List Subpacket} (h : ∀ s ∈ area, s.WellFormed)
    (hl : ∀ s ∈ area, s.content.data.length < 0xFFFFFFFF) :
    decodeArea (encodeArea area) = .ok area := by
  induction area with
  | nil => rw [encodeArea, List.flatMap_nil, decodeArea]; rfl
  | cons s area ih =>
    rw [encodeArea, List.flatMap_cons, ← encodeArea, decodeArea_encode_append (h s (by simp)) (hl s (by simp)),
      ih (fun s hs => h s (by simp [hs])) fun s hs => hl s (by simp [hs])]
    rfl

end Subpacket

/-! ## Signatures -/

/-- The values that signatures of an algorithm have. -/
inductive SignatureMaterial.Fits : PublicKeyAlgorithm → SignatureMaterial → Prop
  | ed25519 (value : Octets.Sized 64) : Fits .ed25519 (.ed25519 value)
  | uninterpreted {algorithm : PublicKeyAlgorithm} (h : algorithm ≠ .ed25519) (octets : Octets) :
      Fits algorithm (.uninterpreted octets)

namespace Signature

/-- A signature whose identifiers are in canonical form. -/
structure IsCanonical (s : Signature) : Prop where
  type : s.type.IsCanonical
  publicKeyAlgorithm : s.publicKeyAlgorithm.IsCanonical
  hashAlgorithm : s.hashAlgorithm.IsCanonical

/-- A signature of subpackets that are read back, none of its areas too long. -/
structure WellFormed (s : Signature) : Prop where
  canonical : s.IsCanonical
  area : s.hashedArea = Subpacket.encodeArea s.hashed
  material : s.material.Fits s.publicKeyAlgorithm
  hashed : ∀ p ∈ s.hashed, p.WellFormed
  unhashed : ∀ p ∈ s.unhashed, p.WellFormed
  hashed_le : (Subpacket.encodeArea s.hashed).length ≤ 0xFFFF
  unhashed_le : (Subpacket.encodeArea s.unhashed).length ≤ 0xFFFF

theorem wellFormed_ofSubpackets {type : SignatureType} {publicKey : PublicKeyAlgorithm}
    {hash : HashAlgorithm} {hashed unhashed : List Subpacket} (start : Octets.Sized 2)
    {material : SignatureMaterial} (hc : (ofSubpackets type publicKey hash hashed unhashed start material).IsCanonical)
    (hm : material.Fits publicKey) (hh : ∀ p ∈ hashed, p.WellFormed)
    (hu : ∀ p ∈ unhashed, p.WellFormed) (hhl : (Subpacket.encodeArea hashed).length ≤ 0xFFFF)
    (hul : (Subpacket.encodeArea unhashed).length ≤ 0xFFFF) :
    (ofSubpackets type publicKey hash hashed unhashed start material).WellFormed :=
  ⟨hc, rfl, hm, hh, hu, hhl, hul⟩

/-- A signature that is read back: its hashed area, kept as it is, says what its hashed subpackets say,
its unhashed subpackets are read back, and no area is too long. -/
structure Legible (s : Signature) : Prop where
  canonical : s.IsCanonical
  hashed : Subpacket.decodeArea s.hashedArea = .ok s.hashed
  hashed_le : s.hashedArea.length ≤ 0xFFFF
  unhashed : ∀ p ∈ s.unhashed, p.WellFormed
  unhashed_le : (Subpacket.encodeArea s.unhashed).length ≤ 0xFFFF
  material : s.material.Fits s.publicKeyAlgorithm

theorem decodeArea_of_le {area : List Subpacket} (h : ∀ p ∈ area, p.WellFormed)
    (hl : (Subpacket.encodeArea area).length ≤ 0xFFFF) :
    Subpacket.decodeArea (Subpacket.encodeArea area) = .ok area :=
  Subpacket.decodeArea_encodeArea h fun p hp => by
    have := Subpacket.length_data_lt_encodeArea hp
    omega

theorem WellFormed.legible {s : Signature} (h : s.WellFormed) : s.Legible where
  canonical := h.canonical
  hashed := h.area ▸ decodeArea_of_le h.hashed h.hashed_le
  hashed_le := h.area ▸ h.hashed_le
  unhashed := h.unhashed
  unhashed_le := h.unhashed_le
  material := h.material

theorem reads_areaLength {n : Nat} (h : n ≤ 0xFFFF) (left : Octets) :
    (Field.number 2).Reads .signature (areaLength n ++ left) n left := by
  rw [areaLength, Nat.min_eq_left h]
  exact reads_number (by have : Nat.pow 256 2 = 0x10000 := rfl; omega)

theorem Legible.reads_encode {s : Signature} (h : s.Legible) : field.Reads .signature s.encode s [] := by
  obtain ⟨type, publicKey, hash, area, hashed, unhashed, start, material⟩ := s
  obtain ⟨⟨htype, hpublicKey, hhash⟩, hhashed, hhl, hu, hul, hmaterial⟩ := h
  dsimp only at htype hpublicKey hhash hhashed hhl hu hul hmaterial
  have hencode : encode ⟨type, publicKey, hash, area, hashed, unhashed, start, material⟩ =
      4 :: type.code :: publicKey.code :: hash.code ::
        (areaLength area.length ++ (area ++ (areaLength (Subpacket.encodeArea unhashed).length ++
          (Subpacket.encodeArea unhashed ++ (start.val ++ material.octets))))) := by
    simp [encode, Signature.start]
  rw [hencode]
  apply (reads_octet _).bind
  rw [if_neg (by decide)]
  apply (reads_octet _).bind
  apply (reads_octet _).bind
  apply (reads_octet _).bind
  apply (reads_areaLength hhl _).bind
  apply (reads_take _).bind
  apply (reads_ofExcept hhashed).bind
  apply (reads_areaLength hul _).bind
  apply (reads_take _).bind
  apply (reads_ofExcept (decodeArea_of_le hu hul)).bind
  apply (reads_sized start).bind
  rw [htype.ofCode_code, hpublicKey.ofCode_code, hhash.ofCode_code]
  cases hmaterial with
  | ed25519 value =>
    exact (reads_sized_last value).bind ((Reads.pure _).bind (Reads.pure _))
  | uninterpreted hne octets =>
    split
    · exact absurd rfl hne
    · exact reads_rest.bind ((Reads.pure _).bind (Reads.pure _))

theorem reads_encode {s : Signature} (h : s.WellFormed) : field.Reads .signature s.encode s [] :=
  h.legible.reads_encode

end Signature

/-- An announcement whose identifiers are in canonical form. -/
structure OnePassSignature.IsCanonical (p : OnePassSignature) : Prop where
  type : p.type.IsCanonical
  hashAlgorithm : p.hashAlgorithm.IsCanonical
  publicKeyAlgorithm : p.publicKeyAlgorithm.IsCanonical

theorem OnePassSignature.reads_encode {p : OnePassSignature} (h : p.IsCanonical) :
    field.Reads .onePassSignature p.encode p [] := by
  obtain ⟨type, hash, publicKey, issuer, last⟩ := p
  obtain ⟨htype, hhash, hpublicKey⟩ := h
  dsimp only at htype hhash hpublicKey
  have hencode : encode ⟨type, hash, publicKey, issuer, last⟩ = 3 :: type.code :: hash.code ::
      publicKey.code :: (issuer.val ++ (if last then 1 else 0) :: []) := by
    simp [encode]
  rw [hencode]
  apply (reads_octet _).bind
  rw [if_neg (by decide)]
  apply (reads_octet _).bind
  apply (reads_octet _).bind
  apply (reads_octet _).bind
  apply (reads_sized issuer).bind
  apply (reads_octet _).bind
  rw [htype.ofCode_code, hhash.ofCode_code, hpublicKey.ofCode_code]
  cases last <;> exact Reads.pure _

/-! ## Data -/

/-- The file name must not be longer than fits. -/
theorem LiteralData.reads_encode {p : LiteralData} (h : p.filename.length ≤ 255) :
    field.Reads .literalData p.encode p [] := by
  obtain ⟨format, filename, time, body⟩ := p
  dsimp only at h
  have hlength : (UInt8.ofNat filename.length).toNat = filename.length := by
    rw [UInt8.toNat_ofNat']
    omega
  have hencode : encode ⟨format, filename, time, body⟩ =
      format.code :: UInt8.ofNat filename.length ::
        (filename ++ (Octets.bigEndian 4 time.toNat ++ body)) := by
    simp [encode, List.take_of_length_le h]
  rw [hencode]
  apply (reads_octet _).bind
  apply (reads_octet _).bind
  rw [hlength]
  apply (reads_take filename).bind
  apply (reads_number time.toNat_lt).bind
  apply reads_rest.bind
  simp only [Nat.toUInt32_eq, UInt32.ofNat_toNat]
  exact Reads.pure _

/-- Encrypted data whose chunks have a size that is allowed, with identifiers in canonical form. -/
inductive EncryptedData.WellFormed : EncryptedData → Prop
  | v1 (body : Octets) : WellFormed (.v1 body)
  | v2 {algorithm : SymmetricAlgorithm} {mode : AeadAlgorithm} {chunkSize : UInt8}
      (salt : Octets.Sized 32) (body : Octets) (ha : algorithm.IsCanonical) (hm : mode.IsCanonical)
      (h : chunkSize ≤ maxChunkSize) : WellFormed (.v2 algorithm mode chunkSize salt body)

theorem EncryptedData.reads_encode {p : EncryptedData} (h : p.WellFormed) :
    field.Reads .encryptedData p.encode p [] := by
  cases h with
  | v1 body => exact (reads_octet 1).bind (reads_rest.bind (Reads.pure _))
  | @v2 algorithm mode chunkSize salt body ha hm h =>
    have hencode : encode (.v2 algorithm mode chunkSize salt body) =
        2 :: algorithm.code :: mode.code :: chunkSize :: (salt.val ++ body) := by
      simp [encode]
    rw [hencode]
    apply (reads_octet 2).bind
    apply (reads_octet _).bind
    apply (reads_octet _).bind
    apply (reads_octet _).bind
    rw [if_neg (UInt8.not_lt.mpr h)]
    apply (reads_sized salt).bind
    rw [ha.ofCode_code, hm.ofCode_code]
    exact reads_rest.bind (Reads.pure _)

end OpenPGP
