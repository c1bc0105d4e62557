import OpenPGP.Proofs.RoundTrip
/-!
# Writing again what was read

A decoder accepts more forms than an encoder writes: lengths in more octets than they
need, octets behind the last field, parameters cut short. Whatever it accepts is
well-formed and no longer than it was when it is written again, so that it is read back
as it is, with one exception. The lengths of subpackets in two octets reach further
when they are read than when they are written. An unhashed area that was read may so be
too long for the two octets in front of it when it is written, and is then written with
a wrong length.

Results:
* `Signature.readsBack_iff`: a signature that was read is read back unless its area grew too long.
* `Packet.isReadBack_of_decode`: everything else that was read is read back.
* `Packet.not_isReadBack_overlong`: an accepted signature that is not.
-/
namespace OpenPGP

open OpenPGP.Field

variable {part : Part} {octets left : Octets}

/-! ## Numbers and names -/

theorem Octets.ofBigEndian_lt (octets : Octets) : ofBigEndian octets < Nat.pow 256 octets.length := by
  have hle : ∀ octets : Octets, ofLittleEndian octets < Nat.pow 256 octets.length := by
    intro octets
    induction octets with
    | nil => decide
    | cons b rest ih =>
      have hb := b.toNat_lt
      rw [ofLittleEndian, List.length_cons,
        show Nat.pow 256 (rest.length + 1) = Nat.pow 256 rest.length * 256 from rfl]
      omega
  have := hle octets.reverse
  rwa [← ofBigEndian_reverse, List.reverse_reverse, List.length_reverse] at this

theorem Octets.sized?_eq_some {n : Nat} {octets : Octets} {sized : Sized n}
    (h : sized? n octets = some sized) : sized.val = octets := by
  unfold sized? at h
  split at h <;> cases h
  rfl

theorem Fingerprint.ofOctets?_eq_some {version : UInt8} {octets : Octets} {f : Fingerprint}
    (h : ofOctets? version octets = some f) : version = f.version ∧ octets = f.octets := by
  unfold ofOctets? at h
  split at h
  · obtain ⟨o, ho, rfl⟩ := Option.map_eq_some_iff.mp h
    exact ⟨rfl, (Octets.sized?_eq_some ho).symm⟩
  · obtain ⟨o, ho, rfl⟩ := Option.map_eq_some_iff.mp h
    exact ⟨rfl, (Octets.sized?_eq_some ho).symm⟩
  · cases h

/-! ## Octets behind a field -/

namespace Field

variable {α β : Type}

/-- A field that does not look at the octets behind it. -/
def Steady (f : Field α) : Prop := ∀ part octets a left more, f.Reads part octets a left →
  f.Reads part (octets ++ more) a (left ++ more)

theorem Steady.bind {f : Field α} {g : α → Field β} (hf : f.Steady) (hg : ∀ a, (g a).Steady) :
    Steady (f >>= g) := by
  intro part octets b left more h
  obtain ⟨a, between, hread, hrest⟩ := reads_bind_iff.mp h
  exact (hf _ _ _ _ more hread).bind (hg a _ _ _ _ more hrest)

theorem steady_pure (a : α) : Steady (pure a) := by
  intro part octets b left more h
  obtain ⟨rfl, rfl⟩ := reads_pure_iff.mp h
  exact Reads.pure _

theorem steady_fail (error : PacketError) : Steady (fail error : Field α) :=
  fun _ _ _ _ _ h => (not_reads_fail h).elim

theorem steady_octet : Steady octet := by
  intro part octets b left more h
  rw [reads_octet_iff.mp h]
  exact reads_octet b

theorem steady_take (n : Nat) : Steady (take n) := by
  intro part octets field left more h
  obtain ⟨hn, ho⟩ := reads_take_iff.mp h
  exact reads_take_iff.mpr ⟨hn, by rw [ho, List.append_assoc]⟩

theorem steady_number (width : Nat) : Steady (number width) :=
  (steady_take width).bind fun _ => steady_pure _

end Field

/-! ## Subpackets -/

theorem SubpacketContent.wellFormed_ofData {tag : UInt8} (h : tag.toNat < 128) (data : Octets) :
    (ofData tag data).WellFormed ∧ (ofData tag data).data.length ≤ data.length := by
  unfold ofData
  cases hi : interpret? tag data with
  | none => exact ⟨⟨h, hi⟩, Nat.le_refl _⟩
  | some c =>
    rw [Option.getD_some]
    unfold interpret? at hi
    split at hi
    · split at hi
      · next hl => cases hi; exact ⟨trivial, by simp [SubpacketContent.data, hl]⟩
      · cases hi
    · split at hi
      · next hl => cases hi; exact ⟨trivial, by simp [SubpacketContent.data, hl]⟩
      · cases hi
    · obtain ⟨id, hid, rfl⟩ := Option.map_eq_some_iff.mp hi
      exact ⟨trivial, Nat.le_of_eq (congrArg List.length (Octets.sized?_eq_some hid))⟩
    · obtain ⟨flags, hflags, rfl⟩ := Option.map_eq_some_iff.mp hi
      cases data with
      | nil => cases hflags
      | cons first data => exact ⟨trivial, Nat.succ_le_succ (Nat.zero_le _)⟩
    · split at hi
      · cases hi
      · obtain ⟨f, hf, rfl⟩ := Option.map_eq_some_iff.mp hi
        obtain ⟨rfl, rfl⟩ := Fingerprint.ofOctets?_eq_some hf
        exact ⟨trivial, Nat.le_refl _⟩
    · cases hi

namespace Subpacket

theorem steady_lengthField : Steady lengthField := by
  refine steady_octet.bind fun first => ?_
  split
  · exact steady_pure _
  · split
    · exact steady_octet.bind fun _ => steady_pure _
    · exact steady_number 4

theorem shrinking_lengthField {n : Nat} (h : lengthField.Reads part octets n left) :
    left.length ≤ octets.length := by
  obtain ⟨first, between, hfirst, h⟩ := reads_bind_iff.mp h
  rw [reads_octet_iff.mp hfirst, List.length_cons]
  split at h
  · obtain ⟨-, rfl⟩ := reads_pure_iff.mp h
    omega
  split at h
  · obtain ⟨second, _, hsecond, h⟩ := reads_bind_iff.mp h
    obtain ⟨-, rfl⟩ := reads_pure_iff.mp h
    rw [reads_octet_iff.mp hsecond, List.length_cons]
    omega
  · obtain ⟨written, -, -, rfl⟩ := reads_number_iff.mp h
    rw [List.length_append]
    omega

theorem reads_of_length {octets data : Octets} {type : UInt8}
    (h : lengthField.Reads part octets (data.length + 1) (type :: (data ++ left))) :
    field.Reads part octets ⟨type &&& 0x80 ≠ 0, .ofData (type &&& 0x7F) data⟩ left := by
  apply h.bind
  rw [if_neg (Nat.succ_ne_zero _)]
  apply (reads_octet _).bind
  exact (reads_take data).bind (Reads.pure _)

theorem steady_field : Steady field := by
  refine steady_lengthField.bind fun length => ?_
  split
  · exact steady_fail _
  · exact steady_octet.bind fun _ => (steady_take _).bind fun _ => steady_pure _

theorem of_reads {s : Subpacket} (h : field.Reads part octets s left) :
    s.WellFormed ∧ s.content.data.length < octets.length ∧ left.length < octets.length := by
  obtain ⟨length, between, hlength, h⟩ := reads_bind_iff.mp h
  have hle : between.length ≤ octets.length := shrinking_lengthField hlength
  split at h
  · exact (not_reads_fail h).elim
  obtain ⟨tag, _, htag, h⟩ := reads_bind_iff.mp h
  obtain ⟨data, _, hdata, h⟩ := reads_bind_iff.mp h
  obtain ⟨rfl, rfl⟩ := reads_pure_iff.mp h
  rw [reads_octet_iff] at htag
  obtain ⟨-, rfl⟩ := reads_take_iff.mp hdata
  have hseven : (tag &&& 0x7F).toNat < 128 := by
    rw [UInt8.toNat_and]
    exact Nat.lt_of_le_of_lt Nat.and_le_right (by decide)
  obtain ⟨hw, hl⟩ := SubpacketContent.wellFormed_ofData hseven data
  rw [htag, List.length_cons, List.length_append] at hle
  exact ⟨hw, by dsimp only; omega, by omega⟩

theorem of_decodeArea {area : Octets} {subpackets : List Subpacket}
    (h : decodeArea area = .ok subpackets) :
    ∀ s ∈ subpackets, s.WellFormed ∧ s.content.data.length < area.length := by
  fun_induction decodeArea area generalizing subpackets with
  | case1 area he => cases h; exact List.forall_mem_nil _
  | case2 area he e hr => cases h
  | case3 area he s rest hr hs e hd ih => cases h
  | case4 area he s rest hr hs behind hd ih =>
    cases h
    obtain ⟨hw, hl, -⟩ := of_reads hr
    exact List.forall_mem_cons.mpr ⟨⟨hw, hl⟩, fun s hs' =>
      ⟨(ih hd s hs').1, Nat.lt_trans (ih hd s hs').2 hs⟩⟩
  | case5 area he s rest hr hs =>
    cases h
    exact absurd (of_reads hr).2.2 hs

theorem not_reads_take {s s' : Subpacket} (h : s.WellFormed) (hl : s.content.data.length < 0xFFFFFFFF)
    {n : Nat} (hn : n < s.encode.length) : ¬ field.Reads .subpacket (s.encode.take n) s' left := by
  intro hread
  have hcut := steady_field _ _ _ _ (s.encode.drop n) hread
  have hwhole := reads_encode h hl []
  rw [List.append_nil] at hwhole
  rw [List.take_append_drop] at hcut
  have heq : (s', left ++ s.encode.drop n) = (s, []) := Except.ok.inj (hcut.symm.trans hwhole)
  have hdrop : s.encode.drop n = [] := (List.append_eq_nil_iff.mp (Prod.mk.inj heq).2).2
  exact absurd (List.drop_eq_nil_iff.mp hdrop) (by omega)

theorem decodeArea_take {area : List Subpacket} (h : ∀ s ∈ area, s.WellFormed)
    (hl : ∀ s ∈ area, s.content.data.length < 0xFFFFFFFF) {n : Nat} (hn : n < (encodeArea area).length) :
    decodeArea ((encodeArea area).take n) ≠ .ok area := by
  induction area generalizing n with
  | nil => cases hn
  | cons s area ih =>
    obtain ⟨hs, h⟩ := List.forall_mem_cons.mp h
    obtain ⟨hsl, hl⟩ := List.forall_mem_cons.mp hl
    rw [encodeArea, List.flatMap_cons, ← encodeArea] at hn ⊢
    intro hd
    by_cases hcut : n < s.encode.length
    · rw [List.take_append_of_le_length (Nat.le_of_lt hcut), decodeArea] at hd
      split at hd
      · cases hd
      · split at hd
        · cases hd
        · next hr => exact not_reads_take hs hsl hcut hr
    · have hcut : s.encode.length ≤ n := Nat.le_of_not_lt hcut
      rw [List.take_append, List.take_of_length_le hcut, decodeArea_encode_append hs hsl] at hd
      obtain ⟨behind, hbehind, heq⟩ := Except.map_eq_ok.mp hd
      rw [(List.cons.inj heq).2] at hbehind
      rw [List.length_append] at hn
      exact ih h hl (by omega) hbehind

end Subpacket

/-! ## Signatures -/

namespace Signature

variable {s : Signature}

theorem ofBigEndian_le_of_length {length : Octets} (h : length.length = 2) :
    Octets.ofBigEndian length ≤ 0xFFFF := by
  have hlt := Octets.ofBigEndian_lt length
  rw [h] at hlt
  exact Nat.le_of_lt_succ hlt

/-- What a signature was read off: its fields in order, each area behind its length. What an octet names is
in canonical form. -/
theorem of_reads (h : field.Reads .signature octets s left) :
    ∃ length length' area : Octets, ∃ behind, length.length = 2 ∧ length'.length = 2 ∧
      octets = s.start ++ (length ++ (s.hashedArea ++ (length' ++ (area ++ behind)))) ∧
      Octets.ofBigEndian length = s.hashedArea.length ∧ Octets.ofBigEndian length' = area.length ∧
      Subpacket.decodeArea s.hashedArea = .ok s.hashed ∧ Subpacket.decodeArea area = .ok s.unhashed ∧
      s.material.Fits s.publicKeyAlgorithm ∧ s.IsCanonical := by
  obtain ⟨version, _, hversion, h⟩ := reads_bind_iff.mp h
  split at h
  · exact (not_reads_fail h).elim
  next hfour =>
  obtain ⟨type, _, htype, h⟩ := reads_bind_iff.mp h
  obtain ⟨publicKey, _, hkey, h⟩ := reads_bind_iff.mp h
  obtain ⟨hash, _, hhash, h⟩ := reads_bind_iff.mp h
  obtain ⟨n, _, hn, h⟩ := reads_bind_iff.mp h
  obtain ⟨hashedArea, _, hhashedArea, h⟩ := reads_bind_iff.mp h
  obtain ⟨hashed, _, hhashed, h⟩ := reads_bind_iff.mp h
  obtain ⟨n', _, hn', h⟩ := reads_bind_iff.mp h
  obtain ⟨area, _, harea, h⟩ := reads_bind_iff.mp h
  obtain ⟨unhashed, behind, hunhashed, h⟩ := reads_bind_iff.mp h
  obtain ⟨start, _, hstart, h⟩ := reads_bind_iff.mp h
  obtain ⟨material, hfits, rfl⟩ : ∃ material, material.Fits (.ofCode publicKey) ∧ s = {
      type := .ofCode type, publicKeyAlgorithm := .ofCode publicKey, hashAlgorithm := .ofCode hash,
      hashedArea, hashed, unhashed, digestStart := start, material } := by
    dsimp only at h
    split at h
    · next hcode =>
      obtain ⟨value, _, -, h⟩ := reads_bind_iff.mp h
      obtain ⟨material, _, hmaterial, h⟩ := reads_bind_iff.mp h
      obtain ⟨rfl, -⟩ := reads_pure_iff.mp hmaterial
      exact ⟨_, hcode.symm ▸ SignatureMaterial.Fits.ed25519 value, (reads_pure_iff.mp h).1⟩
    · next hcode =>
      obtain ⟨value, _, -, h⟩ := reads_bind_iff.mp h
      obtain ⟨material, _, hmaterial, h⟩ := reads_bind_iff.mp h
      obtain ⟨rfl, -⟩ := reads_pure_iff.mp hmaterial
      exact ⟨_, .uninterpreted hcode value, (reads_pure_iff.mp h).1⟩
  rw [reads_octet_iff] at hversion htype hkey hhash
  obtain ⟨length, hl, rfl, rfl⟩ := reads_number_iff.mp hn
  obtain ⟨length', hl', rfl, rfl⟩ := reads_number_iff.mp hn'
  obtain ⟨hsize, rfl⟩ := reads_take_iff.mp hhashedArea
  obtain ⟨hsize', rfl⟩ := reads_take_iff.mp harea
  obtain ⟨hdecoded, rfl⟩ := reads_ofExcept_iff.mp hhashed
  obtain ⟨hdecoded', rfl⟩ := reads_ofExcept_iff.mp hunhashed
  refine ⟨length, length', area, behind, hl, hl', ?_, hsize.symm, hsize'.symm, hdecoded, hdecoded', hfits,
    Identifier.isCanonical_ofCode _, Identifier.isCanonical_ofCode _, Identifier.isCanonical_ofCode _⟩
  rw [hversion, htype, hkey, hhash, Decidable.not_not.mp hfour]
  simp [Signature.start]

/-- A signature that was read is read back unless its unhashed area grew too long. -/
theorem readsBack_iff (h : field.Reads .signature octets s left) :
    (∃ left', field.Reads .signature s.encode s left') ↔
      (Subpacket.encodeArea s.unhashed).length ≤ 0xFFFF := by
  obtain ⟨length, length', area, behind, hl, hl', -, hn, hn', hhashed, hunhashed, hm, hc⟩ := of_reads h
  have hle : s.hashedArea.length ≤ 0xFFFF := hn ▸ ofBigEndian_le_of_length hl
  have hle' : area.length ≤ 0xFFFF := hn' ▸ ofBigEndian_le_of_length hl'
  have hw := Subpacket.of_decodeArea hunhashed
  constructor
  · rintro ⟨left', hback⟩
    refine Decidable.byContradiction fun hlong => ?_
    obtain ⟨l, l', cut, more, h₁, h₂, ho, -, hcut, -, hdecode, -⟩ := of_reads hback
    have hencode : s.encode = s.start ++ (areaLength s.hashedArea.length ++ (s.hashedArea ++
        (areaLength (Subpacket.encodeArea s.unhashed).length ++ (Subpacket.encodeArea s.unhashed ++
          (s.digestStart.val ++ s.material.octets))))) := by
      simp [encode]
    rw [hencode, List.append_cancel_left_eq] at ho
    obtain ⟨-, hareas⟩ := List.append_inj ho (by simp [areaLength, h₁])
    obtain ⟨rfl, harea⟩ := List.append_inj (List.append_cancel_left hareas) (by simp [areaLength, h₂])
    -- what is read as the area is its beginning, which does not hold all its subpackets
    have hlength : cut.length = 0xFFFF := by
      rw [areaLength, Nat.min_eq_right (Nat.le_of_not_le hlong), Octets.ofBigEndian_bigEndian] at hcut
      exact hcut.symm
    have hbeginning : cut = (Subpacket.encodeArea s.unhashed).take 0xFFFF := by
      rw [← List.take_append_of_le_length (Nat.le_of_not_le hlong), harea, ← hlength, List.take_left]
    refine Subpacket.decodeArea_take (fun p hp => (hw p hp).1) (fun p hp => ?_) (Nat.lt_of_not_le hlong)
      (hbeginning ▸ hdecode)
    have := (hw p hp).2
    omega
  · intro hshort
    exact ⟨[], Legible.reads_encode ⟨hc, hhashed, hle, fun p hp => (hw p hp).1, hshort, hm⟩⟩

end Signature

/-! ## Other packets -/

namespace Specifier

theorem WellFormed.nil {s : Specifier} (h : s.WellFormed left) : s.WellFormed [] := by
  cases h with
  | simple hc => exact .simple hc
  | salted hc salt => exact .salted hc salt
  | iterated hc salt count => exact .iterated hc salt count
  | argon2 salt passes parallelism memoryExponent => exact .argon2 salt passes parallelism memoryExponent
  | unknown h parameters hl => exact .unknown h parameters rfl

theorem of_reads {s : Specifier} (h : field.Reads part octets s left) :
    s.WellFormed left ∧ octets = s.encode ++ left := by
  obtain ⟨kind, _, hkind, h⟩ := reads_bind_iff.mp h
  rw [reads_octet_iff.mp hkind]
  split at h
  · obtain ⟨hash, _, hhash, h⟩ := reads_bind_iff.mp h
    obtain ⟨rfl, rfl⟩ := reads_pure_iff.mp h
    exact ⟨.simple (Identifier.isCanonical_ofCode _), by rw [reads_octet_iff.mp hhash]; simp [encode]⟩
  · obtain ⟨hash, _, hhash, h⟩ := reads_bind_iff.mp h
    obtain ⟨salt, _, hsalt, h⟩ := reads_bind_iff.mp h
    obtain ⟨rfl, rfl⟩ := reads_pure_iff.mp h
    refine ⟨.salted (Identifier.isCanonical_ofCode _) _, ?_⟩
    rw [reads_octet_iff.mp hhash, reads_sized_iff.mp hsalt]
    simp [encode]
  · obtain ⟨hash, _, hhash, h⟩ := reads_bind_iff.mp h
    obtain ⟨salt, _, hsalt, h⟩ := reads_bind_iff.mp h
    obtain ⟨count, _, hcount, h⟩ := reads_bind_iff.mp h
    obtain ⟨rfl, rfl⟩ := reads_pure_iff.mp h
    refine ⟨.iterated (Identifier.isCanonical_ofCode _) _ _, ?_⟩
    rw [reads_octet_iff.mp hhash, reads_sized_iff.mp hsalt, reads_octet_iff.mp hcount]
    simp [encode]
  · obtain ⟨salt, _, hsalt, h⟩ := reads_bind_iff.mp h
    obtain ⟨passes, _, hpasses, h⟩ := reads_bind_iff.mp h
    obtain ⟨parallelism, _, hparallelism, h⟩ := reads_bind_iff.mp h
    obtain ⟨memory, _, hmemory, h⟩ := reads_bind_iff.mp h
    obtain ⟨rfl, rfl⟩ := reads_pure_iff.mp h
    refine ⟨.argon2 _ _ _ _, ?_⟩
    rw [reads_sized_iff.mp hsalt, reads_octet_iff.mp hpasses, reads_octet_iff.mp hparallelism,
      reads_octet_iff.mp hmemory]
    simp [encode]
  · next hzero hone hthree hfour =>
    obtain ⟨parameters, _, hparameters, h⟩ := reads_bind_iff.mp h
    obtain ⟨rfl, rfl⟩ := reads_pure_iff.mp h
    obtain ⟨rfl, rfl⟩ := reads_rest_iff.mp hparameters
    refine ⟨.unknown (fun hmem => ?_) _ rfl, by simp [encode]⟩
    simp only [List.mem_cons, List.not_mem_nil, or_false] at hmem
    obtain rfl | rfl | rfl | rfl := hmem
    · exact hzero rfl
    · exact hone rfl
    · exact hthree rfl
    · exact hfour rfl

end Specifier

namespace PublicKeySessionKey

theorem length_of_counted {length : UInt8} {n : Nat} (hzero : length ≠ 0) (hn : n = length.toNat - 1) :
    UInt8.ofNat (n + 1) = length := by
  have hpos : length.toNat ≠ 0 := fun e => hzero (UInt8.toNat_inj.mp e)
  rw [hn, Nat.sub_add_cancel (Nat.pos_of_ne_zero hpos), UInt8.ofNat_toNat]

theorem recipient_of_reads {version : UInt8} {recipient : Option KeyIdentifier}
    (h : (recipientField version).Reads part octets recipient left) (algorithm : PublicKeyAlgorithm)
    (material : SessionKeyMaterial) :
    Names version recipient ∧ octets = encodeRecipient ⟨version, recipient, algorithm, material⟩ ++ left := by
  unfold recipientField at h
  split at h
  · obtain ⟨id, _, hid, h⟩ := reads_bind_iff.mp h
    obtain ⟨rfl, rfl⟩ := reads_pure_iff.mp h
    rw [reads_sized_iff.mp hid]
    by_cases hw : id = KeyId.wildcard
    · simp [KeyId.isWildcard, hw, encodeRecipient, Names.nobody]
    · simp [KeyId.isWildcard, hw, encodeRecipient, Names.keyId, KeyIdentifier.id]
  · obtain ⟨length, _, hlength, h⟩ := reads_bind_iff.mp h
    rw [reads_octet_iff.mp hlength]
    split at h
    · next hzero =>
      obtain ⟨rfl, rfl⟩ := reads_pure_iff.mp h
      exact ⟨.nobody (.inr rfl), by rw [hzero]; rfl⟩
    · next hzero =>
      obtain ⟨keyVersion, _, hversion, h⟩ := reads_bind_iff.mp h
      obtain ⟨field, _, hfield, h⟩ := reads_bind_iff.mp h
      split at h
      · next f hf =>
        obtain ⟨rfl, rfl⟩ := reads_pure_iff.mp h
        obtain ⟨rfl, rfl⟩ := Fingerprint.ofOctets?_eq_some hf
        obtain ⟨hn, rfl⟩ := reads_take_iff.mp hfield
        refine ⟨.fingerprint f, ?_⟩
        rw [reads_octet_iff.mp hversion]
        simp [encodeRecipient, length_of_counted hzero hn]
      · exact (not_reads_fail h).elim
  · exact (not_reads_fail h).elim

theorem material_of_reads {version : UInt8} {algorithm : PublicKeyAlgorithm}
    {material : SessionKeyMaterial} (h : (materialField version algorithm).Reads part octets material left) :
    Carries version algorithm material ∧ octets = encodeMaterial material ++ left := by
  unfold materialField at h
  split at h
  · obtain ⟨ephemeral, _, hephemeral, h⟩ := reads_bind_iff.mp h
    obtain ⟨length, _, hlength, h⟩ := reads_bind_iff.mp h
    have hlt := length.toNat_lt
    rw [reads_sized_iff.mp hephemeral, reads_octet_iff.mp hlength]
    split at h
    · next hthree =>
      obtain ⟨cipher, _, hcipher, h⟩ := reads_bind_iff.mp h
      split at h
      · exact (not_reads_fail h).elim
      · next hzero =>
        obtain ⟨wrapped, _, hwrapped, h⟩ := reads_bind_iff.mp h
        obtain ⟨rfl, rfl⟩ := reads_pure_iff.mp h
        obtain ⟨hn, rfl⟩ := reads_take_iff.mp hwrapped
        refine ⟨hthree ▸ .clear _ (Identifier.isCanonical_ofCode _) (by omega), ?_⟩
        rw [reads_octet_iff.mp hcipher]
        simp [encodeMaterial, length_of_counted hzero hn]
    · next hthree =>
      obtain ⟨wrapped, _, hwrapped, h⟩ := reads_bind_iff.mp h
      obtain ⟨rfl, rfl⟩ := reads_pure_iff.mp h
      obtain ⟨hn, rfl⟩ := reads_take_iff.mp hwrapped
      refine ⟨.inside hthree _ (by omega), ?_⟩
      simp [encodeMaterial, hn]
  · next hne =>
    obtain ⟨field, _, hfield, h⟩ := reads_bind_iff.mp h
    obtain ⟨rfl, rfl⟩ := reads_pure_iff.mp h
    obtain ⟨rfl, rfl⟩ := reads_rest_iff.mp hfield
    exact ⟨.uninterpreted hne _, (List.append_nil _).symm⟩

theorem of_reads {p : PublicKeySessionKey} (h : field.Reads part octets p left) :
    p.WellFormed ∧ octets = p.encode ++ left := by
  obtain ⟨version, _, hversion, h⟩ := reads_bind_iff.mp h
  obtain ⟨recipient, _, hrecipient, h⟩ := reads_bind_iff.mp h
  obtain ⟨algorithm, _, halgorithm, h⟩ := reads_bind_iff.mp h
  obtain ⟨material, _, hmaterial, h⟩ := reads_bind_iff.mp h
  obtain ⟨rfl, rfl⟩ := reads_pure_iff.mp h
  obtain ⟨hnames, hrecipient⟩ := recipient_of_reads hrecipient (.ofCode algorithm) material
  obtain ⟨hcarries, hmaterial⟩ := material_of_reads hmaterial
  refine ⟨⟨hnames, Identifier.isCanonical_ofCode _, hcarries⟩, ?_⟩
  rw [reads_octet_iff.mp hversion, hrecipient, reads_octet_iff.mp halgorithm, hmaterial]
  simp [encode]

end PublicKeySessionKey

/-- In version 6 the octets of the specifier that say nothing are left out; version 4 was written as it
would be. -/
theorem PassphraseSessionKey.of_reads {p : PassphraseSessionKey} (h : field.Reads part octets p left) :
    p.WellFormed ∧ p.encode.length ≤ octets.length ∧ (p.version = 4 → octets = p.encode) := by
  obtain ⟨version, _, hversion, h⟩ := reads_bind_iff.mp h
  rw [reads_octet_iff.mp hversion]
  split at h
  · obtain ⟨algorithm, _, halgorithm, h⟩ := reads_bind_iff.mp h
    obtain ⟨specifier, _, hspecifier, h⟩ := reads_bind_iff.mp h
    obtain ⟨key, _, hkey, h⟩ := reads_bind_iff.mp h
    obtain ⟨rfl, rfl⟩ := reads_pure_iff.mp h
    obtain ⟨hw, hoctets⟩ := Specifier.of_reads hspecifier
    obtain ⟨rfl, rfl⟩ := reads_rest_iff.mp hkey
    rw [reads_octet_iff.mp halgorithm, hoctets]
    cases key with
    | nil =>
      exact ⟨.derived (Identifier.isCanonical_ofCode _) hw, by simp [encode], fun _ => by simp [encode]⟩
    | cons first key =>
      exact ⟨.encrypted (Identifier.isCanonical_ofCode _) (List.cons_ne_nil _ _) hw, by simp [encode],
        fun _ => by simp [encode]⟩
  · obtain ⟨count, _, hcount, h⟩ := reads_bind_iff.mp h
    obtain ⟨algorithm, _, halgorithm, h⟩ := reads_bind_iff.mp h
    obtain ⟨mode, _, hmode, h⟩ := reads_bind_iff.mp h
    obtain ⟨length, _, hlength, h⟩ := reads_bind_iff.mp h
    obtain ⟨written, _, hwritten, h⟩ := reads_bind_iff.mp h
    obtain ⟨⟨specifier, unread⟩, _, hspecifier, h⟩ := reads_bind_iff.mp h
    dsimp only at h
    split at h
    · exact (not_reads_fail h).elim
    next hfits =>
    obtain ⟨iv, _, hiv, h⟩ := reads_bind_iff.mp h
    obtain ⟨key, _, hkey, h⟩ := reads_bind_iff.mp h
    obtain ⟨rfl, rfl⟩ := reads_pure_iff.mp h
    obtain ⟨hn, rfl⟩ := reads_take_iff.mp hwritten
    obtain ⟨hread, rfl⟩ := reads_ofExcept_iff.mp hspecifier
    obtain ⟨hw, hoctets⟩ := Specifier.of_reads hread
    obtain ⟨hn', rfl⟩ := reads_take_iff.mp hiv
    obtain ⟨rfl, rfl⟩ := reads_rest_iff.mp hkey
    have hlt := count.toNat_lt
    rw [hoctets, List.length_append] at hn
    rw [reads_octet_iff.mp hcount, reads_octet_iff.mp halgorithm, reads_octet_iff.mp hmode,
      reads_octet_iff.mp hlength, hoctets]
    refine ⟨.v6 (Identifier.isCanonical_ofCode _) (Identifier.isCanonical_ofCode _) _ hw.nil (by omega), ?_,
    fun hversion => by cases hversion⟩
    simp only [encode, List.length_append, List.length_cons, List.length_nil]
    omega
  · exact (not_reads_fail h).elim

theorem OnePassSignature.of_reads {p : OnePassSignature} (h : field.Reads part octets p left) :
    p.IsCanonical ∧ p.encode.length ≤ octets.length := by
  obtain ⟨version, _, hversion, h⟩ := reads_bind_iff.mp h
  split at h
  · exact (not_reads_fail h).elim
  obtain ⟨type, _, htype, h⟩ := reads_bind_iff.mp h
  obtain ⟨hash, _, hhash, h⟩ := reads_bind_iff.mp h
  obtain ⟨publicKey, _, hkey, h⟩ := reads_bind_iff.mp h
  obtain ⟨issuer, _, hissuer, h⟩ := reads_bind_iff.mp h
  obtain ⟨last, _, hlast, h⟩ := reads_bind_iff.mp h
  obtain ⟨rfl, rfl⟩ := reads_pure_iff.mp h
  rw [reads_octet_iff.mp hversion, reads_octet_iff.mp htype, reads_octet_iff.mp hhash,
    reads_octet_iff.mp hkey, reads_sized_iff.mp hissuer, reads_octet_iff.mp hlast]
  refine ⟨⟨Identifier.isCanonical_ofCode _, Identifier.isCanonical_ofCode _, Identifier.isCanonical_ofCode _⟩, ?_⟩
  simp [encode]

theorem LiteralData.of_reads {p : LiteralData} (h : field.Reads part octets p left) :
    p.filename.length ≤ 255 ∧ octets = p.encode := by
  obtain ⟨format, _, hformat, h⟩ := reads_bind_iff.mp h
  obtain ⟨length, _, hlength, h⟩ := reads_bind_iff.mp h
  obtain ⟨filename, _, hfilename, h⟩ := reads_bind_iff.mp h
  obtain ⟨time, _, htime, h⟩ := reads_bind_iff.mp h
  obtain ⟨body, _, hbody, h⟩ := reads_bind_iff.mp h
  obtain ⟨rfl, rfl⟩ := reads_pure_iff.mp h
  obtain ⟨hn, rfl⟩ := reads_take_iff.mp hfilename
  obtain ⟨written, hwritten, rfl, rfl⟩ := reads_number_iff.mp htime
  obtain ⟨rfl, rfl⟩ := reads_rest_iff.mp hbody
  have hlt := length.toNat_lt
  have hname : filename.take 255 = filename := List.take_of_length_le (by omega)
  have htime : Octets.bigEndian 4 (Octets.ofBigEndian written).toUInt32.toNat = written := by
    have hfits := Octets.ofBigEndian_lt written
    rw [hwritten] at hfits
    rw [Nat.toUInt32_eq, UInt32.toNat_ofNat', Nat.mod_eq_of_lt hfits, ← hwritten,
      Octets.bigEndian_ofBigEndian]
  rw [reads_octet_iff.mp hformat, reads_octet_iff.mp hlength]
  refine ⟨by dsimp only; omega, ?_⟩
  simp only [encode, hname, htime, hn, UInt8.ofNat_toNat]
  simp

theorem EncryptedData.of_reads {p : EncryptedData} (h : field.Reads part octets p left) :
    p.WellFormed ∧ octets = p.encode := by
  obtain ⟨version, _, hversion, h⟩ := reads_bind_iff.mp h
  rw [reads_octet_iff.mp hversion]
  split at h
  · obtain ⟨body, _, hbody, h⟩ := reads_bind_iff.mp h
    obtain ⟨rfl, rfl⟩ := reads_pure_iff.mp h
    obtain ⟨rfl, rfl⟩ := reads_rest_iff.mp hbody
    exact ⟨.v1 _, rfl⟩
  · obtain ⟨algorithm, _, halgorithm, h⟩ := reads_bind_iff.mp h
    obtain ⟨mode, _, hmode, h⟩ := reads_bind_iff.mp h
    obtain ⟨chunkSize, _, hchunkSize, h⟩ := reads_bind_iff.mp h
    split at h
    · exact (not_reads_fail h).elim
    next hle =>
    obtain ⟨salt, _, hsalt, h⟩ := reads_bind_iff.mp h
    obtain ⟨body, _, hbody, h⟩ := reads_bind_iff.mp h
    obtain ⟨rfl, rfl⟩ := reads_pure_iff.mp h
    obtain ⟨rfl, rfl⟩ := reads_rest_iff.mp hbody
    rw [reads_octet_iff.mp halgorithm, reads_octet_iff.mp hmode, reads_octet_iff.mp hchunkSize,
      reads_sized_iff.mp hsalt]
    exact ⟨.v2 _ _ (Identifier.isCanonical_ofCode _) (Identifier.isCanonical_ofCode _)
      (UInt8.not_lt.mp hle), by simp [encode]⟩
  · exact (not_reads_fail h).elim

/-! ## Packets -/

namespace Packet

/-- A packet has a wire form, and it alone is read back from it, however it is delivered and under any
limit that its body keeps. -/
def IsReadBack (p : Packet) : Prop :=
  ∃ octets, p.encode = .ok octets ∧ ∀ (source : Source) (limit : UInt64), source.Delivers octets →
    p.body.length ≤ limit.toNat → PacketReader.Gives ⟨source, limit⟩ [p]

/-- A packet is read back if its body fits a header and decodes to it. -/
theorem isReadBack_iff {p : Packet} (hpos : p.tag ≠ 0) (hlt : p.tag.toNat < 64) :
    p.IsReadBack ↔ p.body.length ≤ maxBodyLength ∧ decode p.tag p.body = .ok p := by
  constructor
  · rintro ⟨octets, he, hgives⟩
    have hle := (encode_eq_ok.mp he).1
    refine ⟨hle, ?_⟩
    have hlimit : (UInt64.ofNat p.body.length).toNat = p.body.length := by
      rw [UInt64.toNat_ofNat', Nat.mod_eq_of_lt (Nat.lt_of_le_of_lt hle (by decide))]
    have hd := Source.delivers_ofOctets octets
    have hd' : (Source.ofOctets octets).Delivers (octets ++ []) := by rwa [List.append_nil]
    obtain ⟨source', -, hread⟩ := PacketReader.packet_of_encode he hpos hlt (Nat.le_of_eq hlimit.symm) hd'
    cases hgives _ _ hd (Nat.le_of_eq hlimit.symm) with
    | cons h hs =>
      rw [PacketReader.next, hread] at h
      cases hdecode : decode p.tag p.body with
      | error error => rw [hdecode] at h; cases h
      | ok q => rw [hdecode] at h; cases h; rfl
  · rintro ⟨hle, hdecode⟩
    have he := encode_eq_ok.mpr ⟨hle, rfl⟩
    refine ⟨_, he, fun source limit hs hl => ?_⟩
    rw [← List.append_nil (PacketHeader.encode _ _ ++ _)] at hs
    obtain ⟨source', hnext, hd⟩ :=
      PacketReader.next_of_reads (PacketReader.reads_encode he hdecode hpos hlt hl []) hs
    obtain ⟨source'', hnil, -⟩ := PacketReader.next_of_reads (PacketReader.reads_nil limit) hd
    exact .cons hnext (.nil hnil)

theorem WellFormed.isReadBack {p : Packet} (h : p.WellFormed) (hl : p.body.length ≤ maxBodyLength) :
    p.IsReadBack :=
  (isReadBack_iff h.tag_lt.1 h.tag_lt.2).mpr ⟨hl, h.readsBack⟩

/-- What is decoded is well-formed and no longer than it was, but for signatures. -/
theorem of_decode {tag : UInt8} (hpos : tag ≠ 0) (hlt : tag.toNat < 64) {body : Octets} {p : Packet}
    (h : decode tag body = .ok p) :
    ((∀ s, p ≠ .signature s) ∧ p.WellFormed ∧ p.body.length ≤ body.length) ∨
      ∃ s left, p = .signature s ∧ Signature.field.Reads .signature body s left := by
  unfold decode at h
  split at h
  · obtain ⟨⟨q, left⟩, hread, rfl⟩ := Except.map_eq_ok.mp h
    obtain ⟨hw, hbody⟩ := PublicKeySessionKey.of_reads hread
    exact .inl ⟨by rintro _ ⟨⟩, .publicKeySessionKey hw, by simp [Packet.body, hbody]⟩
  · obtain ⟨⟨s, left⟩, hread, rfl⟩ := Except.map_eq_ok.mp h
    exact .inr ⟨s, left, rfl, hread⟩
  · obtain ⟨⟨q, left⟩, hread, rfl⟩ := Except.map_eq_ok.mp h
    obtain ⟨hw, hl, -⟩ := PassphraseSessionKey.of_reads hread
    exact .inl ⟨by rintro _ ⟨⟩, .passphraseSessionKey hw, hl⟩
  · obtain ⟨⟨q, left⟩, hread, rfl⟩ := Except.map_eq_ok.mp h
    obtain ⟨hc, hl⟩ := OnePassSignature.of_reads hread
    exact .inl ⟨by rintro _ ⟨⟩, .onePassSignature hc, hl⟩
  · split at h
    · cases h
    · cases h
      exact .inl ⟨by rintro _ ⟨⟩, .compressedData (Identifier.isCanonical_ofCode _), by simp [Packet.body]⟩
  · cases h; exact .inl ⟨by rintro _ ⟨⟩, .unprotectedData _, Nat.le_refl _⟩
  · split at h
    · next hmarker => cases h; exact .inl ⟨by rintro _ ⟨⟩, .marker, by rw [hmarker]; exact Nat.le_refl _⟩
    · cases h
  · obtain ⟨⟨q, left⟩, hread, rfl⟩ := Except.map_eq_ok.mp h
    obtain ⟨hw, hbody⟩ := LiteralData.of_reads hread
    exact .inl ⟨by rintro _ ⟨⟩, .literalData hw, Nat.le_of_eq (congrArg List.length hbody.symm)⟩
  · obtain ⟨⟨q, left⟩, hread, rfl⟩ := Except.map_eq_ok.mp h
    obtain ⟨hw, hbody⟩ := EncryptedData.of_reads hread
    exact .inl ⟨by rintro _ ⟨⟩, .encryptedData hw, Nat.le_of_eq (congrArg List.length hbody.symm)⟩
  · cases h; exact .inl ⟨by rintro _ ⟨⟩, .padding _, by simp [Packet.body]⟩
  · cases h
    refine .inl ⟨by rintro _ ⟨⟩, .unknown hpos hlt (fun hmem => ?_) _, Nat.le_refl _⟩
    simp only [knownTags, List.mem_cons, List.not_mem_nil, or_false] at hmem
    grind

/-- A signature that was read is read back if its unhashed area and its body fit their lengths. -/
theorem isReadBack_signature_iff {octets left : Octets} {s : Signature}
    (h : Signature.field.Reads .signature octets s left) : (Packet.signature s).IsReadBack ↔
      (Subpacket.encodeArea s.unhashed).length ≤ 0xFFFF ∧ s.encode.length ≤ maxBodyLength := by
  have htag : (Packet.signature s).tag ≠ 0 := show (2 : UInt8) ≠ 0 by decide
  have htag' : (Packet.signature s).tag.toNat < 64 := show (2 : UInt8).toNat < 64 by decide
  rw [isReadBack_iff htag htag', ← Signature.readsBack_iff h, and_comm]
  refine and_congr_left fun _ => ⟨fun hdecode => ?_, fun ⟨left', hback⟩ => ?_⟩
  · obtain ⟨⟨s', left'⟩, hback, heq⟩ := Except.map_eq_ok.mp hdecode
    cases heq
    exact ⟨left', hback⟩
  · exact Except.map_eq_ok.mpr ⟨_, hback, rfl⟩

/-- **What was read is read back.** A packet that was decoded from the body of a tag is written so that
it alone is read back, unless it is a signature. A signature is read back exactly if the area of its
unhashed subpackets fits its two octets of length, and its body a header. -/
theorem isReadBack_of_decode {tag : UInt8} (hpos : tag ≠ 0) (hlt : tag.toNat < 64) {body : Octets}
    (hb : body.length ≤ maxBodyLength) {p : Packet} (h : decode tag body = .ok p) :
    ((∀ s, p ≠ .signature s) → p.IsReadBack) ∧
    ∀ s, p = .signature s → (p.IsReadBack ↔
      (Subpacket.encodeArea s.unhashed).length ≤ 0xFFFF ∧ s.encode.length ≤ maxBodyLength) := by
  obtain ⟨hne, hw, hl⟩ | ⟨s, left, rfl, hread⟩ := of_decode hpos hlt h
  · exact ⟨fun _ => hw.isReadBack (Nat.le_trans hl hb), fun s e => absurd e (hne s)⟩
  · refine ⟨fun hne => absurd rfl (hne s), ?_⟩
    rintro _ ⟨⟩
    exact isReadBack_signature_iff hread

/-- A session key for a passphrase that says the size of its specifier with an octet to spare. -/
theorem isReadBack_of_decode_spare :
    (Packet.passphraseSessionKey (.v6 .aes128 .ocb (.simple .sha256) [7] [9])).IsReadBack := by
  have h : decode 3 [6, 7, 7, 2, 3, 0, 8, 0xFF, 7, 9] =
      .ok (.passphraseSessionKey (.v6 .aes128 .ocb (.simple .sha256) [7] [9])) := rfl
  exact (isReadBack_of_decode (by decide) (by decide) (by decide) h).1 (by rintro _ ⟨⟩)

/-! ### An area that grows -/

section Overlong

variable (a : Octets.Sized 8383) (b : Octets.Sized 57143)

/-- An area as long as two octets can tell. The length of its first subpacket is in two octets, in which
none of this size is written. -/
def overlongArea : Octets :=
  0xE0 :: 0x00 :: 100 :: (a.val ++ (255 :: 0x00 :: 0x00 :: 0xDF :: 0x38 :: 100 :: b.val))

/-- What it says. -/
def overlongSubpackets : List Subpacket := [⟨false, .other 100 a.val⟩, ⟨false, .other 100 b.val⟩]

/-- The body of a signature with this unhashed area. -/
def overlongBody : Octets := [4, 0, 1, 8, 0, 0, 0xFF, 0xFF] ++ overlongArea a b ++ [0, 0]

def overlongSignature : Signature :=
  ⟨.ofCode 0, .ofCode 1, .ofCode 8, [], [], overlongSubpackets a b, .zero 2, .uninterpreted []⟩

theorem length_overlongArea : (overlongArea a b).length = 0xFFFF := by
  simp [overlongArea, a.property, b.property]

theorem length_encodeArea_overlong : (Subpacket.encodeArea (overlongSubpackets a b)).length = 65538 := by
  simp [Subpacket.encodeArea, overlongSubpackets, Subpacket.encode, Subpacket.encodeLength,
    SubpacketContent.data, a.property, b.property]

theorem decodeArea_overlongArea : Subpacket.decodeArea (overlongArea a b) = .ok (overlongSubpackets a b) := by
  have hother {octets data left : Octets}
      (h : Subpacket.lengthField.Reads .subpacket octets (data.length + 1) (100 :: (data ++ left))) :
      Subpacket.field.Reads .subpacket octets ⟨false, .other 100 data⟩ left := Subpacket.reads_of_length h
  have hfirst (rest : Octets) : Subpacket.lengthField.Reads .subpacket
      (0xE0 :: 0x00 :: 100 :: (a.val ++ rest)) (a.val.length + 1) (100 :: (a.val ++ rest)) := by
    rw [a.property]
    exact (reads_octet 0xE0).bind ((reads_octet 0).bind (Reads.pure _))
  have hsecond : Subpacket.lengthField.Reads .subpacket
      (255 :: 0x00 :: 0x00 :: 0xDF :: 0x38 :: 100 :: b.val) (b.val.length + 1) (100 :: (b.val ++ [])) := by
    rw [b.property, List.append_nil]
    exact (reads_octet 255).bind (reads_number (n := 57144) (by decide))
  rw [overlongArea, Subpacket.decodeArea_cons (hother (hfirst _)) (by simp; omega),
    Subpacket.decodeArea_cons (hother hsecond) (by simp), Subpacket.decodeArea]
  rfl

theorem reads_overlongBody :
    Signature.field.Reads .signature (overlongBody a b) (overlongSignature a b) [] := by
  have hnone (left : Octets) : (Field.number 2).Reads .signature (0 :: 0 :: left) 0 left :=
    reads_number (n := 0) (by decide)
  have hnumber (left : Octets) : (Field.number 2).Reads .signature (0xFF :: 0xFF :: left)
      (overlongArea a b).length left := by
    rw [length_overlongArea]
    exact reads_number (n := 0xFFFF) (by decide)
  have hempty : Subpacket.decodeArea [] = .ok [] := by rw [Subpacket.decodeArea]; rfl
  apply (reads_octet 4).bind
  rw [if_neg (by decide)]
  apply (reads_octet 0).bind
  apply (reads_octet 1).bind
  apply (reads_octet 8).bind
  apply (hnone _).bind
  apply (reads_take []).bind
  apply (reads_ofExcept hempty).bind
  apply (hnumber _).bind
  apply (reads_take (overlongArea a b)).bind
  apply (reads_ofExcept (decodeArea_overlongArea a b)).bind
  apply (reads_sized_last (.zero 2)).bind
  exact reads_rest.bind ((Reads.pure _).bind (Reads.pure _))

/-- Whatever its subpackets hold, it is accepted and written without a failure, but not read back. -/
theorem overlong_accepted : (overlongBody a b).length ≤ maxBodyLength ∧
    decode 2 (overlongBody a b) = .ok (.signature (overlongSignature a b)) ∧
    (∃ octets, (Packet.signature (overlongSignature a b)).encode = .ok octets) ∧
    ¬ (Packet.signature (overlongSignature a b)).IsReadBack := by
  have hb : (overlongBody a b).length ≤ maxBodyLength := by
    simp [overlongBody, length_overlongArea, maxBodyLength]
  have hdecode : decode 2 (overlongBody a b) = .ok (.signature (overlongSignature a b)) :=
    Except.map_eq_ok.mpr ⟨_, reads_overlongBody a b, rfl⟩
  have hencode : (overlongSignature a b).encode.length ≤ maxBodyLength := by
    simp [Signature.encode, overlongSignature, length_encodeArea_overlong, maxBodyLength, Signature.start,
      Signature.areaLength, SignatureMaterial.octets, Octets.Sized.zero]
  refine ⟨hb, hdecode, ⟨_, encode_eq_ok.mpr ⟨hencode, rfl⟩⟩, fun hback => ?_⟩
  have hle := ((isReadBack_signature_iff (reads_overlongBody a b)).mp hback).1
  rw [overlongSignature, length_encodeArea_overlong] at hle
  exact absurd hle (by decide)

end Overlong

/-- **Not everything that is accepted is read back**: this signature is written without a failure, but
with a wrong length. -/
theorem not_isReadBack_overlong : ∃ body : Octets, body = overlongBody (.zero 8383) (.zero 57143) ∧
    body.length ≤ maxBodyLength ∧
    ∃ p, decode 2 body = .ok p ∧ (∃ octets, p.encode = .ok octets) ∧ ¬ p.IsReadBack :=
  have ⟨hb, hdecode, hencode, hback⟩ := overlong_accepted (.zero 8383) (.zero 57143)
  ⟨_, rfl, hb, _, hdecode, hencode, hback⟩

end Packet

end OpenPGP
