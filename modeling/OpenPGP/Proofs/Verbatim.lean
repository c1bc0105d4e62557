import OpenPGP.Proofs.Reencoding
/-!
# Bodies written as they were read

An encoder rewrites what a decoder normalises: lengths of subpackets, octets behind the last field, the
flag of an announcement, the filling of padding. In other packets nothing is normalised. Every octet of
their body is in a field of its own, a code that is not known stands for itself, and what is optional is
there exactly if octets are left for it. `Packet.IsVerbatim` lists them: the four kinds of data, markers,
version 4 session keys for passphrases and packets of tags without a meaning.

Results:
* `Packet.tag_of_decode`: a packet has the tag it was decoded for.
* `Packet.body_of_decode`: these packets are written with the body they were decoded from.
* `Packet.decode_verbatim`: so they can be decoded from that body only.
-/
namespace OpenPGP

namespace Packet

/-- The packets that lose nothing of the body they are decoded from. -/
inductive IsVerbatim : Packet → Prop
  | compressedData (p : CompressedData) : IsVerbatim (.compressedData p)
  | unprotectedData (body : Octets) : IsVerbatim (.unprotectedData body)
  | marker : IsVerbatim .marker
  | literalData (p : LiteralData) : IsVerbatim (.literalData p)
  | encryptedData (p : EncryptedData) : IsVerbatim (.encryptedData p)
  | passphraseSessionKey {p : PassphraseSessionKey} (h : p.version = 4) :
      IsVerbatim (.passphraseSessionKey p)
  | unknown (tag : UInt8) (body : Octets) : IsVerbatim (.unknown tag body)

variable {tag : UInt8} {body : Octets} {p : Packet}

/-- A packet has the tag it was decoded for. -/
theorem tag_of_decode (h : decode tag body = .ok p) : p.tag = tag := by
  unfold decode at h
  split at h
  case h_5 => split at h <;> cases h; rfl
  case h_7 => split at h <;> cases h; rfl
  case h_6 | h_10 | h_11 => cases h; rfl
  all_goals
    obtain ⟨read, -, rfl⟩ := Except.map_eq_ok.mp h
    rfl

/-- A packet that loses nothing is written with the body it was decoded from. -/
theorem body_of_decode (hp : p.IsVerbatim) (h : decode tag body = .ok p) : p.body = body := by
  unfold decode at h
  split at h
  · obtain ⟨⟨q, left⟩, -, rfl⟩ := Except.map_eq_ok.mp h
    cases hp
  · obtain ⟨⟨s, left⟩, -, rfl⟩ := Except.map_eq_ok.mp h
    cases hp
  · obtain ⟨⟨q, left⟩, hread, rfl⟩ := Except.map_eq_ok.mp h
    cases hp with
    | passphraseSessionKey hversion => exact ((PassphraseSessionKey.of_reads hread).2.2 hversion).symm
  · obtain ⟨⟨q, left⟩, -, rfl⟩ := Except.map_eq_ok.mp h
    cases hp
  · split at h
    · cases h
    · cases h; simp [Packet.body]
  · cases h; rfl
  · split at h
    · next hmarker => cases h; exact hmarker.symm
    · cases h
  · obtain ⟨⟨q, left⟩, hread, rfl⟩ := Except.map_eq_ok.mp h
    exact (LiteralData.of_reads hread).2.symm
  · obtain ⟨⟨q, left⟩, hread, rfl⟩ := Except.map_eq_ok.mp h
    exact (EncryptedData.of_reads hread).2.symm
  · cases h
    cases hp
  · cases h; rfl

/-- **Decoding loses nothing where nothing is normalised.** Data of any kind, markers, version 4 session
keys for passphrases and packets of tags without a meaning are written with exactly the body they were
decoded from, behind a header that says its length, if that fits a header. No other body of any tag is
decoded to the same packet. -/
theorem decode_verbatim (hp : p.IsVerbatim) (h : decode tag body = .ok p) :
    p.body = body ∧
    (∀ octets, p.encode = .ok octets ↔
      body.length ≤ maxBodyLength ∧ octets = PacketHeader.encode tag body.length ++ body) ∧
    ∀ tag' body', decode tag' body' = .ok p → tag' = tag ∧ body' = body := by
  have hbody := body_of_decode hp h
  have htag := tag_of_decode h
  refine ⟨hbody, fun octets => ?_, fun tag' body' h' => ⟨?_, ?_⟩⟩
  · rw [encode_eq_ok, hbody, htag, eq_comm (b := octets)]
  · exact (tag_of_decode h').symm.trans htag
  · exact (body_of_decode hp h').symm.trans hbody

/-- A session key for a passphrase whose specifier is of a type that is not known takes everything behind
the type as parameters. -/
theorem decode_verbatim_unknownSpecifier :
    ∃ p, p = .passphraseSessionKey (.v4 .aes256 (.unknown 101 [2, 0x47]) none) ∧ p.IsVerbatim ∧
      decode 3 [4, 9, 101, 2, 0x47] = .ok p ∧ p.body = [4, 9, 101, 2, 0x47] ∧
      (∀ octets, p.encode = .ok octets ↔ octets = [0xC3, 5, 4, 9, 101, 2, 0x47]) ∧
      ∀ tag body, decode tag body = .ok p → tag = 3 ∧ body = [4, 9, 101, 2, 0x47] := by
  have hp : IsVerbatim (.passphraseSessionKey (.v4 .aes256 (.unknown 101 [2, 0x47]) none)) :=
    .passphraseSessionKey rfl
  have h : decode 3 [4, 9, 101, 2, 0x47] = .ok (.passphraseSessionKey
    (.v4 .aes256 (.unknown 101 [2, 0x47]) none)) := rfl
  obtain ⟨hbody, hencode, hunique⟩ := decode_verbatim hp h
  refine ⟨_, rfl, hp, h, hbody, fun octets => ?_, hunique⟩
  rw [hencode, and_iff_right (by decide)]
  exact Iff.rfl

end Packet

end OpenPGP
