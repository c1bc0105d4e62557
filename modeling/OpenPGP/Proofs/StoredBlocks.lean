import Mathlib.Data.Nat.Init
import OpenPGP.Compression
import OpenPGP.Policy
import OpenPGP.Proofs.BlockCipher
import OpenPGP.Proofs.Wire
/-!
# Expanding stored blocks

What is compressed here is written in blocks of octets as they are. Expanding
reads them back: bit by bit, least significant first, across the windows the
input comes in. `Inflating.Reads` says what a step takes off the input and adds
to the output; every step of a block has one rule.

Results:
* `Inflating.reads_octet`, `Inflating.reads_storedBlock`: an octet and a block are read back.
* `Inflating.reads_inflate`: so are blocks up to the last, whatever stands behind them.
* `CompressedData.length_ofContent`: how long compressed data is.
* `Compressor.lossless_stored`, `Compressor.Lossless.decompress_packet`: what was compressed expands to its
  content within the limit.
-/
namespace OpenPGP

open Compression

namespace Compression

/-! ## Bits -/

/-- The number whose bits stand least significant first. -/
def ofBits : List Bool → Nat
  | [] => 0
  | b :: bits => b.toNat + 2 * ofBits bits

theorem ofBits_bitsOf (b : UInt8) : ofBits (bitsOf b) = b.toNat := by
  have all : ∀ n : Fin 256, ofBits (bitsOf (UInt8.ofNat n)) = (UInt8.ofNat n).toNat := by
    decide +kernel
  simpa using all ⟨b.toNat, b.toNat_lt⟩

/-- What an expansion has before it and behind it: what is left of the octet begun, the octets after it,
and what was written. -/
structure View where
  begun : List Bool
  octets : Octets
  output : Octets

/-- The input comes in pieces, none of them empty. -/
structure Inflater.Shows (s : Inflater) (v : View) : Prop where
  begun : s.input.begun = v.begun
  octets : s.input.rest ++ s.input.later.flatten = v.octets
  pieces : ∀ piece ∈ s.input.later, piece ≠ []
  output : s.output.toList = v.output

theorem ne_nil_of_mem_pieces {size : Nat} {octets piece : Octets}
    (hp : piece ∈ Octets.pieces size octets) : piece ≠ [] := by
  fun_induction Octets.pieces size octets with
  | case1 => cases hp
  | case2 octets hne ih =>
    rcases List.mem_cons.mp hp with rfl | hp
    · rw [ne_eq, List.take_eq_nil_iff]
      exact hne
    · exact ih hp

theorem Inflater.shows_ofOctets (octets : Octets) :
    (Inflater.ofOctets windowSize octets).Shows ⟨[], octets, []⟩ where
  begun := rfl
  octets := Octets.flatten_pieces (by decide) octets
  pieces _ hp := ne_nil_of_mem_pieces hp
  output := rfl

namespace Inflating

/-- A step succeeds with a result and goes from one view to another. -/
def Reads {α : Type} (x : Inflating α) (v : View) (a : α) (v' : View) : Prop :=
  ∀ s : Inflater, s.Shows v → ∃ s', x s = .ok a s' ∧ s'.Shows v'

namespace Reads

variable {α β : Type} {v v' v'' : View}

theorem pure (a : α) : Reads (Pure.pure a) v a v := fun s hs => ⟨s, rfl, hs⟩

theorem bind {x : Inflating α} {f : α → Inflating β} {a : α} {b : β} (hx : Reads x v a v')
    (hf : Reads (f a) v' b v'') : Reads (x >>= f) v b v'' := by
  intro s hs
  obtain ⟨s', hx, hs'⟩ := hx s hs
  obtain ⟨s'', hf, hs''⟩ := hf s' hs'
  exact ⟨s'', (bind_of_ok hx).trans hf, hs''⟩

theorem get_bind {f : Inflater → Inflating β} {b : β} (h : ∀ s, s.Shows v → Reads (f s) v b v') :
    Reads (get >>= f) v b v' := fun s hs => h s hs s hs

end Reads

variable {octets out : Octets} {begun : List Bool}

/-! ## Bits and numbers -/

theorem reads_bit (b : Bool) : Reads bit ⟨b :: begun, octets, out⟩ b ⟨begun, octets, out⟩ := by
  intro s hs
  obtain ⟨⟨begun', rest, later⟩, output, delivered⟩ := s
  obtain ⟨rfl, ho, hp, hout⟩ := hs
  exact ⟨_, rfl, rfl, ho, hp, hout⟩

/-- The first bit of an octet, which may be the first of a piece. -/
theorem reads_firstBit (o : UInt8) :
    Reads bit ⟨[], o :: octets, out⟩ (o.toNat.testBit 0) ⟨(bitsOf o).tail, octets, out⟩ := by
  intro s hs
  obtain ⟨⟨begun', rest, later⟩, output, delivered⟩ := s
  obtain ⟨rfl, ho, hp, hout⟩ := hs
  cases rest with
  | cons o' rest =>
    obtain ⟨rfl, hrest⟩ := List.cons.inj ho
    exact ⟨_, rfl, rfl, hrest, hp, hout⟩
  | nil =>
    cases later with
    | nil => cases ho
    | cons piece later =>
      cases piece with
      | nil => exact absurd rfl (hp [] List.mem_cons_self)
      | cons o' piece =>
        obtain ⟨rfl, hrest⟩ := List.cons.inj ho
        exact ⟨_, rfl, rfl, hrest, fun q hq => hp q (List.mem_cons_of_mem _ hq), hout⟩

/-- A number is the bits that it has, least significant first. -/
theorem reads_number (bits : List Bool) :
    Reads (number bits.length) ⟨bits ++ begun, octets, out⟩ (ofBits bits) ⟨begun, octets, out⟩ := by
  induction bits with
  | nil => exact Reads.pure 0
  | cons b bits ih => exact (reads_bit b).bind (ih.bind (Reads.pure _))

/-- A number of eight bits is an octet. -/
theorem reads_octet (o : UInt8) : Reads (number 8) ⟨[], o :: octets, out⟩ o.toNat ⟨[], octets, out⟩ := by
  have htail : Reads (number (bitsOf o).tail.length) ⟨(bitsOf o).tail ++ [], octets, out⟩ _ _ :=
    reads_number (bitsOf o).tail
  rw [List.append_nil] at htail
  have hvalue : (o.toNat.testBit 0).toNat + 2 * ofBits (bitsOf o).tail = o.toNat := ofBits_bitsOf o
  rw [← hvalue]
  exact (reads_firstBit o).bind (htail.bind (Reads.pure _))

theorem reads_align : Reads align ⟨begun, octets, out⟩ () ⟨[], octets, out⟩ := by
  intro s hs
  exact ⟨_, rfl, rfl, hs.octets, hs.pieces, hs.output⟩

theorem number_add (m n : Nat) :
    number (m + n) = number m >>= fun a => number n >>= fun b => Pure.pure (a + b <<< m) := by
  induction m with
  | zero =>
    simp only [number, pure_bind, Nat.zero_add, Nat.shiftLeft_zero, bind_pure]
  | succ m ih =>
    rw [Nat.add_right_comm]
    simp only [number, ih, bind_assoc, pure_bind]
    have harith (b : Bool) (x y : Nat) :
        b.toNat + 2 * (x + y <<< m) = b.toNat + 2 * x + y <<< (m + 1) := by
      rw [Nat.shiftLeft_succ, Nat.mul_add, Nat.add_assoc]
    simp only [harith]

theorem ofLittleEndian_two (n : Nat) (h : n ≤ 0xFFFF) :
    (UInt8.ofNat n).toNat + (UInt8.ofNat (n / 256)).toNat <<< 8 = n := by
  rw [UInt8.toNat_ofNat', UInt8.toNat_ofNat', Nat.shiftLeft_eq]
  omega

theorem reads_littleEndian {n : Nat} (h : n ≤ 0xFFFF) :
    Reads (number 16) ⟨[], Octets.littleEndian 2 n ++ octets, out⟩ n ⟨[], octets, out⟩ := by
  rw [show (16 : Nat) = 8 + 8 from rfl, number_add]
  refine (reads_octet (UInt8.ofNat n)).bind ((reads_octet (UInt8.ofNat (n / 256))).bind ?_)
  rw [ofLittleEndian_two n h]
  exact Reads.pure n

/-! ## Blocks -/

theorem reads_put {space : Nat} (h : out.length < space) (o : UInt8) :
    Reads (put space o) ⟨begun, octets, out⟩ () ⟨begun, octets, out ++ [o]⟩ := by
  intro s hs
  have hsize : s.output.size < space := by
    rw [← Array.length_toList, hs.output]
    exact h
  refine ⟨{ s with output := s.output.push o }, ?_, hs.begun, hs.octets, hs.pieces, ?_⟩
  · rw [put, if_pos hsize]
  · simp [hs.output]

theorem reads_stored {space : Nat} {content : Octets} (h : out.length + content.length ≤ space) :
    Reads (stored space content.length) ⟨[], content ++ octets, out⟩ () ⟨[], octets, out ++ content⟩ := by
  induction content generalizing out with
  | nil =>
    rw [List.append_nil]
    exact Reads.pure ()
  | cons o content ih =>
    rw [List.length_cons] at h
    have hput : Reads (put space o) ⟨[], content ++ octets, out⟩ () ⟨[], content ++ octets, out ++ [o]⟩ :=
      reads_put (by omega) o
    have hspace : (out ++ [o]).length + content.length ≤ space := by
      rw [List.length_append, List.length_singleton]
      omega
    have hrest := ih hspace
    rw [List.append_assoc] at hrest
    rw [List.length_cons, stored]
    refine (reads_octet o).bind ?_
    have ho : o.toNat.toUInt8 = o := by simp
    rw [ho]
    exact hput.bind hrest

/-- A block that is not compressed is read back. -/
theorem reads_storedBlock {space : Nat} {content : Octets} (hl : content.length ≤ 0xFFFF)
    (h : out.length + content.length ≤ space) :
    Reads (storedBlock space) ⟨begun, Octets.littleEndian 2 content.length ++
      Octets.littleEndian 2 (0xFFFF - content.length) ++ content ++ octets, out⟩ ()
      ⟨[], octets, out ++ content⟩ := by
  rw [List.append_assoc, List.append_assoc]
  refine reads_align.bind ((reads_littleEndian hl).bind ((reads_littleEndian (by omega)).bind ?_))
  rw [if_neg (by omega)]
  exact reads_stored h

/-- The first octet of a block: whether it is the last, and that it is not compressed. -/
theorem reads_blockHeader {α : Type} (last : Bool) {f : Bool → Nat → Inflating α} {a : α} {v : View}
    (h : ∀ begun, Reads (f last 0) ⟨begun, octets, out⟩ a v) :
    Reads (bit >>= fun b => number 2 >>= fun kind => f b kind)
      ⟨[], (if last then 1 else 0) :: octets, out⟩ a v := by
  have hkind : Reads (number 2) ⟨[false, false] ++ List.replicate 5 false, octets, out⟩ 0
      ⟨List.replicate 5 false, octets, out⟩ := reads_number [false, false]
  cases last with
  | true => exact (reads_firstBit 1).bind (hkind.bind (h _))
  | false => exact (reads_firstBit 0).bind (hkind.bind (h _))

/-- A block is read back, and then what is behind it if it is not the last. -/
theorem reads_block {space fuel : Nat} {piece : Octets} (hp : piece.length ≤ 0xFFFF)
    (h : out.length + piece.length ≤ space) (last : Bool) {v : View}
    (hl : Reads (if last then Pure.pure () else blocks space fuel) ⟨[], octets, out ++ piece⟩ () v) :
    Reads (blocks space (fuel + 1)) ⟨[], Compression.storedBlock last piece ++ octets, out⟩ () v := by
  refine reads_blockHeader last fun begun => ?_
  exact (reads_storedBlock hp h).bind hl

theorem reads_blocks {space fuel : Nat} {pieces : List Octets}
    (hp : ∀ piece ∈ pieces, piece.length ≤ 0xFFFF) (hf : pieces.length ≤ fuel)
    (h : out.length + pieces.flatten.length ≤ space) :
    Reads (blocks space (fuel + 1)) ⟨[], storedBlocks pieces ++ octets, out⟩ ()
      ⟨[], octets, out ++ pieces.flatten⟩ := by
  fun_induction storedBlocks pieces generalizing fuel out with
  | case1 => exact reads_block (Nat.zero_le _) h true (Reads.pure ())
  | case2 last =>
    rw [List.flatten_singleton] at *
    exact reads_block (hp last List.mem_cons_self) h true (Reads.pure ())
  | case3 piece pieces hne ih =>
    obtain ⟨fuel, rfl⟩ : ∃ n, fuel = n + 1 := ⟨fuel - 1, by rw [List.length_cons] at hf; omega⟩
    rw [List.flatten_cons, List.length_append] at h
    rw [List.append_assoc]
    refine reads_block (hp piece List.mem_cons_self) (by omega) false ?_
    have hspace : (out ++ piece).length + pieces.flatten.length ≤ space := by
      rw [List.length_append]
      omega
    have hrest := ih (fun q hq => hp q (List.mem_cons_of_mem _ hq)) (Nat.le_of_succ_le_succ hf) hspace
    rwa [List.append_assoc, ← List.flatten_cons] at hrest

end Inflating

theorem length_storedBlocks (pieces : List Octets) :
    (storedBlocks pieces).length = pieces.flatten.length + 5 * max 1 pieces.length := by
  have hblock (last : Bool) (octets : Octets) : (storedBlock last octets).length = octets.length + 5 := by
    simp [storedBlock]
    omega
  fun_induction storedBlocks pieces with
  | case1 => rw [hblock]; rfl
  | case2 last => rw [hblock]; simp
  | case3 piece pieces hne ih =>
    have := List.length_pos_iff.mpr hne
    rw [List.length_append, hblock, ih, List.flatten_cons, List.length_append, List.length_cons]
    omega

namespace Inflating

theorem reads_bitsLeft : Reads bitsLeft ⟨begun, octets, out⟩ (begun.length + 8 * octets.length)
    ⟨begun, octets, out⟩ := by
  intro s hs
  have hpieces (later : List Octets) (n : Nat) :
      later.foldl (fun total piece => total + 8 * piece.length) n = n + 8 * later.flatten.length := by
    induction later generalizing n with
    | nil => rfl
    | cons piece later ih =>
      rw [List.foldl_cons, ih, List.flatten_cons, List.length_append]
      omega
  refine ⟨s, congrArg (EStateM.Result.ok · s) ?_, hs⟩
  have hlength : s.input.rest.length + s.input.later.flatten.length = octets.length := by
    rw [← List.length_append, hs.octets]
  rw [Bits.count, hpieces, hs.begun]
  simp only
  omega

/-- **Deflated data is expanded.** -/
theorem reads_inflate {space : Nat} {content : Octets} (h : content.length ≤ space) :
    Reads (inflate space) ⟨[], deflateStored content ++ octets, []⟩ () ⟨[], octets, content⟩ := by
  have hpieces : (Octets.pieces 0xFFFF content).flatten = content :=
    Octets.flatten_pieces (by decide) content
  have hlength := length_storedBlocks (Octets.pieces 0xFFFF content)
  -- there are more bits left than blocks
  have hfuel : (Octets.pieces 0xFFFF content).length ≤ 0 + 8 * (deflateStored content ++ octets).length := by
    rw [List.length_append, deflateStored]
    omega
  have hmax : ∀ piece ∈ Octets.pieces 0xFFFF content, piece.length ≤ 0xFFFF := fun _ hp =>
    Octets.length_le_of_mem_pieces hp
  have hspace : ([] : Octets).length + (Octets.pieces 0xFFFF content).flatten.length ≤ space := by
    rw [hpieces, List.length_nil, Nat.zero_add]
    exact h
  have hblocks : Reads _ ⟨[], deflateStored content ++ octets, []⟩ () ⟨[], octets, _⟩ :=
    reads_blocks hmax hfuel hspace
  rw [hpieces] at hblocks
  exact reads_bitsLeft.bind hblocks

/-! ## Checksums -/

theorem adler32_lt (octets : Array UInt8) : adler32 octets < 0x100000000 := by
  have hsums (l : List UInt8) (s : Nat × Nat) (h : s.1 < 65521 ∧ s.2 < 65521) :
      let sums := l.foldl (fun s (o : UInt8) =>
        ((s.1 + o.toNat) % 65521, (s.2 + (s.1 + o.toNat) % 65521) % 65521)) s
      sums.1 < 65521 ∧ sums.2 < 65521 := by
    induction l generalizing s with
    | nil => exact h
    | cons o l ih => exact ih _ ⟨Nat.mod_lt _ (by decide), Nat.mod_lt _ (by decide)⟩
  obtain ⟨ha, hb⟩ := hsums octets.toList (1, 0) (by decide)
  rw [adler32, ← Array.foldl_toList]
  simp only
  omega

theorem reads_inflateZlib {space : Nat} {content : Octets} (h : content.length ≤ space) :
    Reads (inflateZlib space) ⟨[], zlibStored content, []⟩ () ⟨[], [], content⟩ := by
  obtain ⟨a, b, c, d, hsum⟩ : ∃ a b c d : UInt8, Octets.bigEndian 4 (adler32 content.toArray) = [a, b, c, d] :=
    ⟨_, _, _, _, rfl⟩
  have hvalue : ((a.toNat * 256 + b.toNat) * 256 + c.toNat) * 256 + d.toNat = adler32 content.toArray := by
    have := (Octets.ofBigEndian_bigEndian 4 (adler32 content.toArray)).trans
      (Nat.mod_eq_of_lt (adler32_lt _))
    rw [hsum] at this
    simpa [Octets.ofBigEndian] using this
  rw [zlibStored, hsum, List.append_assoc]
  refine (reads_octet 0x78).bind ((reads_octet 0x01).bind ?_)
  rw [if_neg (by decide)]
  refine (reads_inflate h).bind (reads_align.bind ?_)
  refine (reads_octet a).bind ((reads_octet b).bind ((reads_octet c).bind ((reads_octet d).bind ?_)))
  rw [hvalue]
  refine Reads.get_bind fun s hs => ?_
  have houtput : s.output = content.toArray := congrArg List.toArray hs.output
  rw [houtput, if_neg (Decidable.not_not.mpr rfl)]
  exact Reads.pure ()

end Inflating

theorem expand_of_reads {inflate : Nat → Inflating Unit} {body content : Octets} {limit : UInt64}
    (h : ∀ space, content.length ≤ space → (inflate space).Reads ⟨[], body, []⟩ () ⟨[], [], content⟩)
    (hl : content.length ≤ limit.toNat) : expand inflate body limit = .ok content := by
  have hspace : content.length ≤ spaceFor limit := by
    rw [spaceFor, windowSize]
    omega
  obtain ⟨s, hs, hshows⟩ := h _ hspace _ (Inflater.shows_ofOctets body)
  rw [expand, hs, Expansion.ofRun, hshows.output, Expansion.read_of_le rfl hl]

end Compression

/-- The length of deflated data, which takes five octets for every block, of which there is at least one. -/
def Compression.storedLength (content : Nat) : Nat := content + 5 * max 1 ((content + 0xFFFE) / 0xFFFF)

/-- The length of compressed data with a content of some octets. -/
def CompressionAlgorithm.bodyLength (content : Nat) : CompressionAlgorithm → Nat
  | .zip => storedLength content
  | .zlib => storedLength content + 6
  | _ => content

theorem Compression.length_deflateStored (content : Octets) :
    (deflateStored content).length = storedLength content.length := by
  have hpieces : (Octets.pieces 0xFFFF content).flatten = content :=
    Octets.flatten_pieces (by decide) content
  rw [deflateStored, length_storedBlocks, hpieces, Octets.length_pieces (by decide)]
  rfl

theorem CompressedData.length_ofContent (algorithm : CompressionAlgorithm) (content : Octets) :
    (ofContent algorithm content).body.length = algorithm.bodyLength content.length := by
  unfold ofContent
  split
  · exact length_deflateStored content
  · simp [zlibStored, length_deflateStored, CompressionAlgorithm.bodyLength]
  · next hzip hzlib => rw [CompressionAlgorithm.bodyLength.eq_3 _ _ hzip hzlib]

/-! ## Encoders -/

/-- An encoder for each of the formats that compress. -/
structure Compressor where
  zip : Octets → Octets
  zlib : Octets → Octets

namespace Compressor

/-- A compressed data packet with a content; without an encoder for it the content stands as it is. -/
def packet (z : Compressor) (algorithm : CompressionAlgorithm) (content : Octets) : CompressedData :=
  ⟨algorithm, match algorithm with
    | .zip => z.zip content
    | .zlib => z.zlib content
    | _ => content⟩

/-- Nothing is lost: what is encoded expands to what it was, wherever that has room. -/
structure Lossless (z : Compressor) : Prop where
  zip : ∀ (content : Octets) (limit : UInt64), content.length ≤ limit.toNat →
    expand Inflating.inflate (z.zip content) limit = .ok content
  zlib : ∀ (content : Octets) (limit : UInt64), content.length ≤ limit.toNat →
    expand Inflating.inflateZlib (z.zlib content) limit = .ok content

/-- **Compressed data expands to its content.** -/
theorem Lossless.decompress_packet {z : Compressor} (h : z.Lossless) {algorithm : CompressionAlgorithm}
    (ha : Policy.standard.acceptsCompression algorithm = true) {content : Octets} {limit : UInt64}
    (hl : content.length ≤ limit.toNat) : (z.packet algorithm content).decompress limit = .ok content := by
  have hcases : algorithm = .uncompressed ∨ algorithm = .zip ∨ algorithm = .zlib := by
    simpa [Policy.acceptsCompression, Policy.standard] using ha
  obtain rfl | rfl | rfl := hcases
  · exact Expansion.read_of_le rfl hl
  · exact h.zip content limit hl
  · exact h.zlib content limit hl

/-- The encoder that writes stored blocks only. -/
def stored : Compressor := ⟨deflateStored, zlibStored⟩

theorem packet_stored (algorithm : CompressionAlgorithm) (content : Octets) :
    stored.packet algorithm content = .ofContent algorithm content := rfl

theorem lossless_stored : stored.Lossless where
  zip content limit hl := by
    refine expand_of_reads (fun space hs => ?_) hl
    have hread : Inflating.Reads _ ⟨[], deflateStored content ++ [], []⟩ () ⟨[], [], content⟩ :=
      Inflating.reads_inflate hs
    rwa [List.append_nil] at hread
  zlib content limit hl := expand_of_reads (fun space hs => Inflating.reads_inflateZlib hs) hl

end Compressor

end OpenPGP
