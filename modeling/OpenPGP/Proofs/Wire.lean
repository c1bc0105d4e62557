import OpenPGP.Framing
/-!
# Reading back the wire form

What `Packet.encode` writes is read back by `PacketReader.next`, whatever follows
it and however the octets are delivered, as long as the source does not fail.
`Framed.Reads` says that a read gives a value off the front of some octets and
leaves the rest; it goes through sequences of reads (`Reads.bind`).

Results:
* `Source.Delivers.pull`: asking a source that does not fail gives the octets asked for.
* `BodyLength.Writes.reads`, `PacketHeader.reads_encode`: lengths and headers are read back.
* `PacketReader.reads_encode`: so are packets whose bodies are.
-/
namespace OpenPGP

/-! ## Numbers -/

namespace Octets

theorem ofBigEndian_reverse (octets : Octets) : ofBigEndian octets.reverse = ofLittleEndian octets := by
  induction octets with
  | nil => rfl
  | cons b rest ih =>
    rw [List.reverse_cons, ofBigEndian, List.foldl_append, ofLittleEndian, ← ih]
    simp only [List.foldl_cons, List.foldl_nil, ofBigEndian]
    omega

theorem ofBigEndian_bigEndian (width n : Nat) :
    ofBigEndian (bigEndian width n) = n % Nat.pow 256 width := by
  rw [bigEndian, ofBigEndian_reverse, ofLittleEndian_littleEndian]

theorem bigEndian_inj {width i j : Nat} (hi : i < Nat.pow 256 width) (hj : j < Nat.pow 256 width)
    (e : bigEndian width i = bigEndian width j) : i = j := by
  have hnumber := congrArg ofBigEndian e
  rwa [ofBigEndian_bigEndian, ofBigEndian_bigEndian, Nat.mod_eq_of_lt hi, Nat.mod_eq_of_lt hj] at hnumber

theorem littleEndian_ofLittleEndian (octets : Octets) :
    littleEndian octets.length (ofLittleEndian octets) = octets := by
  induction octets with
  | nil => rfl
  | cons b rest ih =>
    have hb := b.toNat_lt
    have hfirst : UInt8.ofNat (b.toNat + 256 * ofLittleEndian rest) = b := by
      rw [← UInt8.toNat_inj, UInt8.toNat_ofNat']
      omega
    have hrest : (b.toNat + 256 * ofLittleEndian rest) / 256 = ofLittleEndian rest := by omega
    rw [ofLittleEndian, List.length_cons, littleEndian, hfirst, hrest, ih]

theorem bigEndian_ofBigEndian (octets : Octets) :
    bigEndian octets.length (ofBigEndian octets) = octets := by
  have h := littleEndian_ofLittleEndian octets.reverse
  rw [← ofBigEndian_reverse, List.reverse_reverse, List.length_reverse] at h
  rw [bigEndian, h, List.reverse_reverse]

end Octets

/-! ## Sources -/

namespace Source

/-- A source will deliver exactly some octets and does not fail. -/
structure Delivers (s : Source) (octets : Octets) : Prop where
  octets_eq : s.octets = octets
  not_failed : ∀ reason, .failed reason ∉ s.deliveries

theorem delivers_ofOctets (octets : Octets) : (ofOctets octets).Delivers octets where
  octets_eq := List.append_nil octets
  not_failed := fun reason h => by simp [ofOctets] at h

theorem pullFrom_of_not_failed (n : Nat) (ds : List Delivery) (h : ∀ reason, .failed reason ∉ ds) :
    (pullFrom n ds).1 = (octetsOf ds).take n ∧
      (pullFrom n ds).2.1 = (if n ≤ (octetsOf ds).length then .full else .ended) ∧
      ∀ reason, .failed reason ∉ (pullFrom n ds).2.2 := by
  fun_induction pullFrom n ds with
  | case1 ds => simp [h]
  | case2 n => simp [octetsOf]
  | case3 n ds ih => exact ih fun reason hr => h reason (by simp [hr])
  | case4 n reason ds => exact absurd (by simp) (h reason)
  | case5 n piece ds hd later stop rest e ih =>
    obtain ⟨h1, h2, h3⟩ := ih fun reason hr => h reason (by simp [hr])
    rw [e] at h1 h2 h3
    dsimp only at h1 h2 h3
    have hlen : piece.length ≤ n + 1 := List.drop_eq_nil_iff.mp hd
    refine ⟨?_, ?_, h3⟩
    · simp only [octetsOf]
      rw [List.take_append, List.take_of_length_le hlen, h1]
    · have hiff : n + 1 - piece.length ≤ (octetsOf ds).length ↔
          n + 1 ≤ piece.length + (octetsOf ds).length := by omega
      simp only [octetsOf, List.length_append, h2, hiff]
  | case6 n piece ds hd =>
    have hlen : n + 1 < piece.length := by
      by_cases hle : piece.length ≤ n + 1
      · exact absurd (List.drop_eq_nil_iff.mpr hle) (by assumption)
      · omega
    refine ⟨?_, ?_, fun reason hr => h reason ?_⟩
    · simp only [octetsOf]
      rw [List.take_append_of_le_length (by omega)]
    · simp only [octetsOf, List.length_append]
      rw [if_pos (by omega)]
    · simpa using hr

theorem Delivers.pull {s : Source} {octets : Octets} (h : s.Delivers octets) (n : Nat) :
    ∃ s', s.pull n = (octets.take n, if n ≤ octets.length then .full else .ended, s') ∧
      s'.Delivers (octets.drop n) := by
  obtain ⟨h1, h2, h3⟩ := pullFrom_of_not_failed n s.deliveries h.not_failed
  have hoctets : octetsOf s.deliveries = octets := h.octets_eq
  rw [hoctets] at h1 h2
  refine ⟨⟨(pullFrom n s.deliveries).2.2⟩, ?_, ?_, h3⟩
  · rw [← h1, ← h2]
    rfl
  · have := octetsOf_pullFrom n s.deliveries
    rw [h1, hoctets] at this
    exact List.append_cancel_left (this.trans (List.take_append_drop n octets).symm)

end Source

/-! ## Reads -/

namespace Framed

theorem bind_eq_ok {α β : Type} {m : Framed α} {f : α → Framed β} {s s' : Source} {b : β} :
    (m >>= f) s = .ok b s' ↔ ∃ a s₁, m s = .ok a s₁ ∧ f a s₁ = .ok b s' := by
  simp only [Bind.bind, EStateM.bind]
  cases hm : m s with
  | ok a s₁ =>
    refine ⟨fun h => ⟨a, s₁, rfl, h⟩, ?_⟩
    rintro ⟨a', s', he, h⟩
    cases he
    exact h
  | error e s₁ => exact ⟨fun h => (by cases h), fun ⟨_, _, h, _⟩ => (by cases h)⟩

theorem bind_eq_error {α β : Type} {m : Framed α} {f : α → Framed β} {s s' : Source}
    {error : PacketError} : (m >>= f) s = .error error s' ↔
      m s = .error error s' ∨ ∃ a s₁, m s = .ok a s₁ ∧ f a s₁ = .error error s' := by
  simp only [Bind.bind, EStateM.bind]
  cases hm : m s with
  | ok a s₁ =>
    refine ⟨fun h => .inr ⟨a, s₁, rfl, h⟩, ?_⟩
    rintro (h | ⟨a', s', he, h⟩)
    · cases h
    · cases he
      exact h
  | error e s₁ =>
    refine ⟨fun h => by cases h; exact .inl rfl, ?_⟩
    rintro (h | ⟨_, _, h, _⟩)
    · cases h; rfl
    · cases h

/-- A read off the front of some octets gives a value and leaves the rest. -/
def Reads {α : Type} (m : Framed α) (octets : Octets) (a : α) (rest : Octets) : Prop :=
  ∀ s, s.Delivers octets → ∃ s', m s = .ok a s' ∧ s'.Delivers rest

variable {α β : Type} {octets between rest : Octets}

theorem Reads.pure (a : α) : Reads (pure a) octets a octets := fun s h => ⟨s, rfl, h⟩

theorem Reads.bind {m : Framed α} {f : α → Framed β} {a : α} {b : β}
    (hm : Reads m octets a between) (hf : Reads (f a) between b rest) :
    Reads (m >>= f) octets b rest := by
  intro s h
  obtain ⟨s₁, h₁, hs₁⟩ := hm s h
  obtain ⟨s₂, h₂, hs₂⟩ := hf s₁ hs₁
  refine ⟨s₂, ?_, hs₂⟩
  rw [← h₂]
  change EStateM.bind m f s = f a s₁
  rw [EStateM.bind, h₁]

theorem reads_pull (n : Nat) : Reads (pull n) octets
    (octets.take n, if n ≤ octets.length then .full else .ended) (octets.drop n) := by
  intro s h
  obtain ⟨s', hs', hd⟩ := h.pull n
  exact ⟨s', by rw [pull, hs'], hd⟩

theorem reads_octet?_cons (b : UInt8) : Reads octet? (b :: rest) (some b) rest :=
  (reads_pull 1).bind (by simpa using Reads.pure (some b))

theorem reads_octet?_nil : Reads octet? [] none [] := (reads_pull 1).bind (Reads.pure none)

theorem reads_octet (part : Part) (b : UInt8) : Reads (octet part) (b :: rest) b rest :=
  (reads_octet?_cons b).bind (Reads.pure b)

theorem reads_exactly (part : Part) (field : Octets) :
    Reads (exactly field.length part) (field ++ rest) field rest := by
  apply (reads_pull field.length).bind
  rw [List.take_left, List.drop_left, if_pos (by simp)]
  exact Reads.pure field

end Framed

open Framed

/-! ## Lengths -/

namespace BodyLength

theorem reads_fixedWidth (octets : Octets) (value : Nat) (rest : Octets) :
    Reads (fixedWidth octets.length value) (octets ++ rest)
      (octets.foldl (fun n b => n * 256 + b.toNat) value) rest := by
  induction octets generalizing value with
  | nil => exact Reads.pure value
  | cons b octets ih => exact (reads_octet .packetLength b).bind (ih (value * 256 + b.toNat))

theorem reads_fixedWidth_bigEndian {width length : Nat} (h : length < Nat.pow 256 width)
    (rest : Octets) : Reads (fixedWidth width 0) (Octets.bigEndian width length ++ rest) length rest := by
  have hread := reads_fixedWidth (Octets.bigEndian width length) 0 rest
  rw [Octets.length_bigEndian] at hread
  have hvalue := Octets.ofBigEndian_bigEndian width length
  rw [Nat.mod_eq_of_lt h, Octets.ofBigEndian] at hvalue
  rwa [hvalue] at hread

/-- The octets of a new-format length, in any of its forms. -/
inductive Writes : BodyLength → Octets → Prop
  | one {length : Nat} (h : length < 192) : Writes (.definite length) [UInt8.ofNat length]
  | two {length : Nat} (h : 192 ≤ length) (h' : length < 8384) : Writes (.definite length)
      [UInt8.ofNat ((length - 192) / 256 + 192), UInt8.ofNat (length - 192)]
  | five {length : Nat} (h : length ≤ 0xFFFFFFFF) :
      Writes (.definite length) (255 :: Octets.bigEndian 4 length)
  /-- A power of two, by its exponent. -/
  | chunk {exponent : Nat} (h : exponent ≤ 30) :
      Writes (.partialLength (Nat.pow 2 exponent)) [UInt8.ofNat (224 + exponent)]

theorem Writes.ne_nil {length : BodyLength} {octets : Octets} (h : Writes length octets) : octets ≠ [] := by
  cases h <;> simp

theorem Writes.reads {length : BodyLength} {octets : Octets} (h : Writes length octets)
    (rest : Octets) : Reads newFormat (octets ++ rest) length rest := by
  have hoctet {n : Nat} (hn : n < 256) : (UInt8.ofNat n).toNat = n := by
    rw [UInt8.toNat_ofNat']
    omega
  unfold newFormat
  cases h with
  | one h =>
    apply (reads_octet .packetLength _).bind
    rw [hoctet (by omega), if_pos h]
    exact Reads.pure _
  | @two length h h' =>
    have hsecond : (UInt8.ofNat (length - 192)).toNat = (length - 192) % 256 := UInt8.toNat_ofNat'
    apply (reads_octet .packetLength _).bind
    rw [hoctet (by omega), if_neg (by omega), if_pos (by omega)]
    apply (reads_octet .packetLength _).bind
    rw [hsecond, show ((length - 192) / 256 + 192 - 192) * 256 + (length - 192) % 256 + 192 = length
      by omega]
    exact Reads.pure _
  | five h =>
    apply (reads_octet .packetLength 255).bind
    rw [if_neg (by decide), if_neg (by decide), if_neg (by decide)]
    exact (reads_fixedWidth_bigEndian (Nat.lt_of_le_of_lt h (by decide)) rest).bind (Reads.pure _)
  | @chunk exponent h =>
    apply (reads_octet .packetLength _).bind
    rw [hoctet (by omega), if_neg (by omega), if_neg (by omega), if_pos (by omega),
      show (224 + exponent) % 32 = exponent by omega, Nat.one_shiftLeft]
    exact Reads.pure _

end BodyLength

namespace PacketHeader

/-- The octets of a definite length behind a tag. -/
def lengthOctets (length : Nat) : Octets :=
  if length < 192 then [UInt8.ofNat length]
  else if length < 8384 then [UInt8.ofNat ((length - 192) / 256 + 192), UInt8.ofNat (length - 192)]
  else 255 :: Octets.bigEndian 4 length

theorem encode_eq (tag : UInt8) (length : Nat) :
    encode tag length = (0xC0 ||| tag) :: lengthOctets length := rfl

theorem writes_lengthOctets {length : Nat} (h : length ≤ 0xFFFFFFFF) :
    BodyLength.Writes (.definite length) (lengthOctets length) := by
  unfold lengthOctets
  split
  · next hone => exact .one hone
  split
  · next htwo => exact .two (by omega) htwo
  · exact .five h

theorem tagOctet {tag : UInt8} (h : tag.toNat < 64) :
    (0xC0 ||| tag) &&& 0x80 ≠ 0 ∧ (0xC0 ||| tag) &&& 0x40 ≠ 0 ∧ (0xC0 ||| tag) &&& 0x3F = tag := by
  have all : ∀ n : Fin 64, (0xC0 ||| UInt8.ofNat n) &&& 0x80 ≠ 0 ∧
      (0xC0 ||| UInt8.ofNat n) &&& 0x40 ≠ 0 ∧
      (0xC0 ||| UInt8.ofNat n) &&& 0x3F = UInt8.ofNat n := by decide
  simpa using all ⟨tag.toNat, h⟩

theorem reads_newFormat {tag : UInt8} {length : BodyLength} {octets : Octets} (htag : tag.toNat < 64)
    (h : length.Writes octets)
    (hpartial : length.isPartial = true → Packet.allowsPartialLength tag = true) (rest : Octets) :
    Reads (newFormat (0xC0 ||| tag)) (octets ++ rest) ⟨tag, length⟩ rest := by
  obtain ⟨-, -, hmask⟩ := tagOctet htag
  apply (h.reads rest).bind
  rw [hmask, if_neg (by simpa using hpartial)]
  exact Reads.pure _

/-- A header is read back. -/
theorem reads_encode {tag : UInt8} {length : Nat} (hpos : tag ≠ 0) (htag : tag.toNat < 64)
    (h : length ≤ 0xFFFFFFFF) (rest : Octets) :
    Reads read (encode tag length ++ rest) (some ⟨tag, .definite length⟩) rest := by
  obtain ⟨hhigh, hnew, -⟩ := tagOctet htag
  refine (reads_octet?_cons _).bind (Reads.bind ?_ (Reads.pure _))
  rw [ofFirst, if_neg hhigh, if_neg hnew]
  apply (reads_newFormat htag (writes_lengthOctets h) (fun h => by cases h) rest).bind
  rw [checked, if_neg hpos]
  exact Reads.pure _

end PacketHeader

/-! ## Packets -/

namespace PacketReader

/-- What a packet is written as is read as what its body decodes to, whatever follows, if the body is
within the limit. -/
theorem packet_of_encode {p : Packet} {octets : Octets} {limit : UInt64} (he : p.encode = .ok octets)
    (hpos : p.tag ≠ 0) (htag : p.tag.toNat < 64) (hl : p.body.length ≤ limit.toNat) {rest : Octets}
    {source : Source} (hs : source.Delivers (octets ++ rest)) :
    ∃ source', source'.Delivers rest ∧ packet limit source = match Packet.decode p.tag p.body with
      | .ok q => .ok (some q) source'
      | .error error => .error error source' := by
  unfold Packet.encode at he
  dsimp only at he
  split at he
  · cases he
  · next hlong =>
    cases he
    rw [List.append_assoc] at hs
    obtain ⟨s₁, h₁, hs₁⟩ := PacketHeader.reads_encode hpos htag (by omega) (p.body ++ rest) source hs
    have hbody : Reads (PacketBody.read limit (.definite p.body.length)) (p.body ++ rest) p.body
        rest := by
      rw [PacketBody.read, PacketBody.chunk, if_neg (by omega)]
      exact reads_exactly .packetBody p.body
    obtain ⟨s₂, h₂, hs₂⟩ := hbody s₁ hs₁
    refine ⟨s₂, hs₂, ?_⟩
    simp only [packet, bind, EStateM.bind, h₁, h₂]
    cases Packet.decode p.tag p.body <;> rfl

/-- A packet is read back if its body is, within the limit. -/
theorem reads_encode {p : Packet} {octets : Octets} {limit : UInt64} (he : p.encode = .ok octets)
    (hd : Packet.decode p.tag p.body = .ok p) (hpos : p.tag ≠ 0) (htag : p.tag.toNat < 64)
    (hl : p.body.length ≤ limit.toNat) (rest : Octets) :
    Reads (packet limit) (octets ++ rest) (some p) rest := by
  intro source hs
  obtain ⟨source', hs', hread⟩ := packet_of_encode he hpos htag hl hs
  rw [hd] at hread
  exact ⟨source', hread, hs'⟩

theorem reads_nil (limit : UInt64) : Reads (packet limit) [] none [] := by
  have hheader : Reads PacketHeader.read [] none [] := reads_octet?_nil.bind (Reads.pure none)
  exact hheader.bind (Reads.pure none)

end PacketReader

end OpenPGP
