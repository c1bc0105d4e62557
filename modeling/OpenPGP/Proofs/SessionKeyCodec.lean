import OpenPGP.Proofs.PacketCodec
/-!
# Reading back session key packets

What names the recipient of a session key, what carries the key and how a key
comes from a passphrase is read back, by version. Each part has a predicate with
one constructor for every form it is read back in. Identifiers are read back in
canonical form.

Results:
* `Specifier.reads_encode`: specifiers of a known type are read back whatever follows them.
* `PublicKeySessionKey.reads_encode`, `PassphraseSessionKey.reads_encode`: so are the packets.
-/
namespace OpenPGP

open OpenPGP.Field

variable {part : Part} {left : Octets}

/-! ## Specifiers -/

namespace Specifier

/-- A specifier of a known type, or one of another type in front of nothing. -/
inductive WellFormed (left : Octets) : Specifier → Prop
  | simple {hash : HashAlgorithm} (hc : hash.IsCanonical) : WellFormed left (.simple hash)
  | salted {hash : HashAlgorithm} (hc : hash.IsCanonical) (salt : Octets.Sized 8) :
      WellFormed left (.salted hash salt)
  | iterated {hash : HashAlgorithm} (hc : hash.IsCanonical) (salt : Octets.Sized 8) (count : UInt8) :
      WellFormed left (.iterated hash salt count)
  | argon2 (salt : Octets.Sized 16) (passes parallelism memoryExponent : UInt8) :
      WellFormed left (.argon2 salt passes parallelism memoryExponent)
  | unknown {kind : UInt8} (h : kind ∉ [0, 1, 3, 4]) (parameters : Octets) (hl : left = []) :
      WellFormed left (.unknown kind parameters)

theorem reads_encode {s : Specifier} (h : s.WellFormed left) :
    field.Reads part (s.encode ++ left) s left := by
  cases h with
  | simple hc =>
    apply (reads_octet 0).bind
    apply (reads_octet _).bind
    rw [hc.ofCode_code]
    exact Reads.pure _
  | salted hc salt =>
    apply (reads_octet 1).bind
    apply (reads_octet _).bind
    apply (reads_sized salt).bind
    rw [hc.ofCode_code]
    exact Reads.pure _
  | iterated hc salt count =>
    rw [encode, List.append_assoc, List.append_assoc]
    apply (reads_octet 3).bind
    apply (reads_octet _).bind
    apply (reads_sized salt).bind
    apply (reads_octet count).bind
    rw [hc.ofCode_code]
    exact Reads.pure _
  | argon2 salt passes parallelism memoryExponent =>
    rw [encode, List.append_assoc, List.append_assoc]
    apply (reads_octet 4).bind
    apply (reads_sized salt).bind
    apply (reads_octet _).bind
    apply (reads_octet _).bind
    exact (reads_octet _).bind (Reads.pure _)
  | @unknown kind h parameters hl =>
    subst hl
    rw [encode, List.append_nil]
    apply (reads_octet kind).bind
    split
    · exact absurd (by decide) h
    · exact absurd (by decide) h
    · exact absurd (by decide) h
    · exact absurd (by decide) h
    · exact reads_rest.bind (Reads.pure _)

end Specifier

/-! ## Session keys for recipients -/

namespace PublicKeySessionKey

/-- The recipients that a version can name. The key ID of an anonymous one is no name. -/
inductive Names : UInt8 → Option KeyIdentifier → Prop
  | nobody {version : UInt8} (h : version = 3 ∨ version = 6) : Names version none
  | keyId {id : KeyId} (h : id ≠ .wildcard) : Names 3 (some (.keyId id))
  | fingerprint (f : Fingerprint) : Names 6 (some (.fingerprint f))

/-- What a version can carry for an algorithm. The cipher stands in clear in version 3 only. -/
inductive Carries : UInt8 → PublicKeyAlgorithm → SessionKeyMaterial → Prop
  | clear (ephemeral : Octets.Sized 32) {cipher : SymmetricAlgorithm} (hc : cipher.IsCanonical)
      {wrapped : Octets} (h : wrapped.length + 1 ≤ 255) : Carries 3 .x25519 (.x25519 ephemeral (some cipher) wrapped)
  | inside {version : UInt8} (hv : version ≠ 3) (ephemeral : Octets.Sized 32) {wrapped : Octets}
      (h : wrapped.length ≤ 255) : Carries version .x25519 (.x25519 ephemeral none wrapped)
  | uninterpreted {version : UInt8} {algorithm : PublicKeyAlgorithm} (h : algorithm ≠ .x25519)
      (octets : Octets) : Carries version algorithm (.uninterpreted octets)

structure WellFormed (p : PublicKeySessionKey) : Prop where
  recipient : Names p.version p.recipient
  canonical : p.algorithm.IsCanonical
  material : Carries p.version p.algorithm p.material

theorem reads_encodeRecipient {p : PublicKeySessionKey} (h : Names p.version p.recipient) :
    (recipientField p.version).Reads part (p.encodeRecipient ++ left) p.recipient left := by
  obtain ⟨version, recipient, algorithm, material⟩ := p
  cases h with
  | nobody h =>
    obtain rfl | rfl := h
    · exact (reads_sized KeyId.wildcard).bind (Reads.pure _)
    · exact (reads_octet 0).bind (Reads.pure _)
  | @keyId id h =>
    refine (reads_sized id).bind ?_
    rw [KeyId.isWildcard, if_neg (by simpa using h)]
    exact Reads.pure _
  | fingerprint f =>
    have hlength : (UInt8.ofNat (f.octets.length + 1)).toNat = f.octets.length + 1 := by
      cases f with
      | v4 octets => simp [Fingerprint.octets, octets.property]
      | v6 octets => simp [Fingerprint.octets, octets.property]
    have hne : UInt8.ofNat (f.octets.length + 1) ≠ 0 := fun e => by
      rw [e] at hlength
      simp at hlength
    refine (reads_octet _).bind ?_
    rw [if_neg hne]
    apply (reads_octet f.version).bind
    rw [hlength, Nat.add_sub_cancel]
    apply (reads_take f.octets).bind
    rw [Fingerprint.ofOctets?_octets]
    exact Reads.pure _

theorem reads_encodeMaterial {version : UInt8} {algorithm : PublicKeyAlgorithm}
    {material : SessionKeyMaterial} (h : Carries version algorithm material) :
    (materialField version algorithm).Reads part (encodeMaterial material) material [] := by
  cases h with
  | @clear ephemeral cipher hc wrapped h =>
    have hlength : (UInt8.ofNat (wrapped.length + 1)).toNat = wrapped.length + 1 := by
      rw [UInt8.toNat_ofNat']
      omega
    have hne : UInt8.ofNat (wrapped.length + 1) ≠ 0 := fun e => by
      rw [e] at hlength
      simp at hlength
    apply (reads_sized ephemeral).bind
    apply (reads_octet _).bind
    rw [if_pos rfl]
    apply (reads_octet cipher.code).bind
    rw [if_neg hne, hlength, Nat.add_sub_cancel, hc.ofCode_code]
    exact (reads_take_last wrapped).bind (Reads.pure _)
  | @inside _ hv ephemeral wrapped h =>
    have hlength : (UInt8.ofNat wrapped.length).toNat = wrapped.length := by
      rw [UInt8.toNat_ofNat']
      omega
    apply (reads_sized ephemeral).bind
    apply (reads_octet _).bind
    rw [if_neg hv, hlength]
    exact (reads_take_last wrapped).bind (Reads.pure _)
  | uninterpreted h octets =>
    unfold materialField
    split
    · exact absurd rfl h
    · exact reads_rest.bind (Reads.pure _)

theorem reads_encode {p : PublicKeySessionKey} (h : p.WellFormed) :
    field.Reads .publicKeySessionKey p.encode p [] := by
  obtain ⟨hr, hc, hm⟩ := h
  have hencode : p.encode =
      p.version :: (p.encodeRecipient ++ p.algorithm.code :: encodeMaterial p.material) := by
    simp [encode]
  rw [hencode]
  apply (reads_octet _).bind
  apply (reads_encodeRecipient hr).bind
  apply (reads_octet _).bind
  rw [hc.ofCode_code]
  exact (reads_encodeMaterial hm).bind (Reads.pure _)

end PublicKeySessionKey

/-! ## Session keys for passphrases -/

namespace PassphraseSessionKey

/-- Session key packets whose parts can be told apart: an encrypted key is not empty where it may be
missing, and in version 6 the parts in front of it fit the octet that counts them. -/
inductive WellFormed : PassphraseSessionKey → Prop
  | derived {algorithm : SymmetricAlgorithm} (ha : algorithm.IsCanonical) {specifier : Specifier}
      (h : specifier.WellFormed []) : WellFormed (.v4 algorithm specifier none)
  | encrypted {algorithm : SymmetricAlgorithm} (ha : algorithm.IsCanonical) {specifier : Specifier}
      {key : Octets} (hk : key ≠ []) (h : specifier.WellFormed key) :
      WellFormed (.v4 algorithm specifier (some key))
  | v6 {algorithm : SymmetricAlgorithm} {mode : AeadAlgorithm} (ha : algorithm.IsCanonical)
      (hm : mode.IsCanonical) {specifier : Specifier} {iv : Octets} (key : Octets)
      (h : specifier.WellFormed [])
      (hl : 3 + specifier.encode.length + iv.length ≤ 255) :
      WellFormed (.v6 algorithm mode specifier iv key)

theorem reads_encode {p : PassphraseSessionKey} (h : p.WellFormed) :
    field.Reads .passphraseSessionKey p.encode p [] := by
  cases h with
  | derived ha h =>
    refine (reads_octet 4).bind ((reads_octet _).bind ((Specifier.reads_encode h).bind ?_))
    rw [ha.ofCode_code]
    exact reads_rest.bind (Reads.pure _)
  | @encrypted algorithm ha specifier key hk h =>
    refine (reads_octet 4).bind ((reads_octet _).bind ((Specifier.reads_encode h).bind ?_))
    apply reads_rest.bind
    rw [if_neg (by simpa using hk), ha.ofCode_code]
    exact Reads.pure _
  | @v6 algorithm mode ha hm specifier iv key h hl =>
    have hcount : (UInt8.ofNat (3 + specifier.encode.length + iv.length)).toNat =
        3 + specifier.encode.length + iv.length := by
      rw [UInt8.toNat_ofNat']
      omega
    have hlength : (UInt8.ofNat specifier.encode.length).toNat = specifier.encode.length := by
      rw [UInt8.toNat_ofNat']
      omega
    have hencode : encode (.v6 algorithm mode specifier iv key) =
        6 :: UInt8.ofNat (3 + specifier.encode.length + iv.length) :: algorithm.code :: mode.code ::
          UInt8.ofNat specifier.encode.length :: (specifier.encode ++ (iv ++ key)) := by
      simp [encode]
    rw [hencode]
    apply (reads_octet 6).bind
    apply (reads_octet _).bind
    apply (reads_octet _).bind
    apply (reads_octet _).bind
    apply (reads_octet _).bind
    rw [hlength]
    apply (reads_take specifier.encode).bind
    have hread : Specifier.field.Reads .specifier (specifier.encode ++ []) specifier [] :=
      Specifier.reads_encode h
    rw [List.append_nil] at hread
    apply (reads_ofExcept hread).bind
    dsimp only
    rw [hcount, if_neg (by omega), show 3 + specifier.encode.length + iv.length -
      (3 + specifier.encode.length) = iv.length by omega]
    apply (reads_take iv).bind
    rw [ha.ofCode_code, hm.ofCode_code]
    exact reads_rest.bind (Reads.pure _)

end PassphraseSessionKey

end OpenPGP
