import OpenPGP.Crypto.Error
/-!
# AES

The block cipher on a state of four columns of four octets: substitution,
row shifts, column mixing over GF(2^8) and round keys, each with its inverse.
`Aes.Key` is an expanded key; `encrypt` and `decrypt` work on blocks of sixteen
octets.

Results:
* `substitute_restore`, `restore_substitute`: the two substitution tables are inverse.
* `unshiftRows_shiftRows`: shifting rows is undone.
-/
namespace OpenPGP.Crypto

namespace Aes

/-- The implemented key sizes. -/
inductive KeySize where
  | bits128 | bits192 | bits256
  deriving DecidableEq, Repr

namespace KeySize

/-- The key size of a cipher identifier, if the cipher is AES. -/
def ofAlgorithm? : SymmetricAlgorithm → Option KeySize
  | .aes128 => some bits128
  | .aes192 => some bits192
  | .aes256 => some bits256
  | _ => none

def algorithm : KeySize → SymmetricAlgorithm
  | bits128 => .aes128
  | bits192 => .aes192
  | bits256 => .aes256

/-- Four-octet words in a key. -/
def words : KeySize → Nat
  | bits128 => 4
  | bits192 => 6
  | bits256 => 8

def octets (k : KeySize) : Nat := 4 * k.words

def rounds (k : KeySize) : Nat := k.words + 6

end KeySize

/-! ## The state -/

/-- A column of the state, or a word of a key, top row first. -/
structure Column where
  a : UInt8
  b : UInt8
  c : UInt8
  d : UInt8
  deriving DecidableEq, Repr, Inhabited

/-- The state: four columns. -/
structure Block where
  w : Column
  x : Column
  y : Column
  z : Column
  deriving DecidableEq, Repr, Inhabited

namespace Column

def map (f : UInt8 → UInt8) (k : Column) : Column := ⟨f k.a, f k.b, f k.c, f k.d⟩

def xor (k l : Column) : Column := ⟨k.a ^^^ l.a, k.b ^^^ l.b, k.c ^^^ l.c, k.d ^^^ l.d⟩

end Column

namespace Block

def map (f : Column → Column) (s : Block) : Block := ⟨f s.w, f s.x, f s.y, f s.z⟩

def xor (s t : Block) : Block := ⟨s.w.xor t.w, s.x.xor t.x, s.y.xor t.y, s.z.xor t.z⟩

/-- The state of a block of sixteen octets; a shorter string is no block and gives zeros. -/
def ofOctets : Octets → Block
  | a :: b :: c :: d :: e :: f :: g :: h :: i :: j :: k :: l :: m :: n :: o :: p :: _ =>
    ⟨⟨a, b, c, d⟩, ⟨e, f, g, h⟩, ⟨i, j, k, l⟩, ⟨m, n, o, p⟩⟩
  | _ => ⟨⟨0, 0, 0, 0⟩, ⟨0, 0, 0, 0⟩, ⟨0, 0, 0, 0⟩, ⟨0, 0, 0, 0⟩⟩

def octets (s : Block) : Octets :=
  [s.w.a, s.w.b, s.w.c, s.w.d, s.x.a, s.x.b, s.x.c, s.x.d,
   s.y.a, s.y.b, s.y.c, s.y.d, s.z.a, s.z.b, s.z.c, s.z.d]

@[simp] theorem length_octets (s : Block) : s.octets.length = 16 := rfl

@[simp] theorem ofOctets_octets (s : Block) : ofOctets s.octets = s := rfl

end Block

/-! ## Substitution -/

def substitution : Array UInt8 :=
  #[0x63, 0x7c, 0x77, 0x7b, 0xf2, 0x6b, 0x6f, 0xc5, 0x30, 0x01, 0x67, 0x2b, 0xfe, 0xd7, 0xab, 0x76,
    0xca, 0x82, 0xc9, 0x7d, 0xfa, 0x59, 0x47, 0xf0, 0xad, 0xd4, 0xa2, 0xaf, 0x9c, 0xa4, 0x72, 0xc0,
    0xb7, 0xfd, 0x93, 0x26, 0x36, 0x3f, 0xf7, 0xcc, 0x34, 0xa5, 0xe5, 0xf1, 0x71, 0xd8, 0x31, 0x15,
    0x04, 0xc7, 0x23, 0xc3, 0x18, 0x96, 0x05, 0x9a, 0x07, 0x12, 0x80, 0xe2, 0xeb, 0x27, 0xb2, 0x75,
    0x09, 0x83, 0x2c, 0x1a, 0x1b, 0x6e, 0x5a, 0xa0, 0x52, 0x3b, 0xd6, 0xb3, 0x29, 0xe3, 0x2f, 0x84,
    0x53, 0xd1, 0x00, 0xed, 0x20, 0xfc, 0xb1, 0x5b, 0x6a, 0xcb, 0xbe, 0x39, 0x4a, 0x4c, 0x58, 0xcf,
    0xd0, 0xef, 0xaa, 0xfb, 0x43, 0x4d, 0x33, 0x85, 0x45, 0xf9, 0x02, 0x7f, 0x50, 0x3c, 0x9f, 0xa8,
    0x51, 0xa3, 0x40, 0x8f, 0x92, 0x9d, 0x38, 0xf5, 0xbc, 0xb6, 0xda, 0x21, 0x10, 0xff, 0xf3, 0xd2,
    0xcd, 0x0c, 0x13, 0xec, 0x5f, 0x97, 0x44, 0x17, 0xc4, 0xa7, 0x7e, 0x3d, 0x64, 0x5d, 0x19, 0x73,
    0x60, 0x81, 0x4f, 0xdc, 0x22, 0x2a, 0x90, 0x88, 0x46, 0xee, 0xb8, 0x14, 0xde, 0x5e, 0x0b, 0xdb,
    0xe0, 0x32, 0x3a, 0x0a, 0x49, 0x06, 0x24, 0x5c, 0xc2, 0xd3, 0xac, 0x62, 0x91, 0x95, 0xe4, 0x79,
    0xe7, 0xc8, 0x37, 0x6d, 0x8d, 0xd5, 0x4e, 0xa9, 0x6c, 0x56, 0xf4, 0xea, 0x65, 0x7a, 0xae, 0x08,
    0xba, 0x78, 0x25, 0x2e, 0x1c, 0xa6, 0xb4, 0xc6, 0xe8, 0xdd, 0x74, 0x1f, 0x4b, 0xbd, 0x8b, 0x8a,
    0x70, 0x3e, 0xb5, 0x66, 0x48, 0x03, 0xf6, 0x0e, 0x61, 0x35, 0x57, 0xb9, 0x86, 0xc1, 0x1d, 0x9e,
    0xe1, 0xf8, 0x98, 0x11, 0x69, 0xd9, 0x8e, 0x94, 0x9b, 0x1e, 0x87, 0xe9, 0xce, 0x55, 0x28, 0xdf,
    0x8c, 0xa1, 0x89, 0x0d, 0xbf, 0xe6, 0x42, 0x68, 0x41, 0x99, 0x2d, 0x0f, 0xb0, 0x54, 0xbb, 0x16]

def restoration : Array UInt8 :=
  #[0x52, 0x09, 0x6a, 0xd5, 0x30, 0x36, 0xa5, 0x38, 0xbf, 0x40, 0xa3, 0x9e, 0x81, 0xf3, 0xd7, 0xfb,
    0x7c, 0xe3, 0x39, 0x82, 0x9b, 0x2f, 0xff, 0x87, 0x34, 0x8e, 0x43, 0x44, 0xc4, 0xde, 0xe9, 0xcb,
    0x54, 0x7b, 0x94, 0x32, 0xa6, 0xc2, 0x23, 0x3d, 0xee, 0x4c, 0x95, 0x0b, 0x42, 0xfa, 0xc3, 0x4e,
    0x08, 0x2e, 0xa1, 0x66, 0x28, 0xd9, 0x24, 0xb2, 0x76, 0x5b, 0xa2, 0x49, 0x6d, 0x8b, 0xd1, 0x25,
    0x72, 0xf8, 0xf6, 0x64, 0x86, 0x68, 0x98, 0x16, 0xd4, 0xa4, 0x5c, 0xcc, 0x5d, 0x65, 0xb6, 0x92,
    0x6c, 0x70, 0x48, 0x50, 0xfd, 0xed, 0xb9, 0xda, 0x5e, 0x15, 0x46, 0x57, 0xa7, 0x8d, 0x9d, 0x84,
    0x90, 0xd8, 0xab, 0x00, 0x8c, 0xbc, 0xd3, 0x0a, 0xf7, 0xe4, 0x58, 0x05, 0xb8, 0xb3, 0x45, 0x06,
    0xd0, 0x2c, 0x1e, 0x8f, 0xca, 0x3f, 0x0f, 0x02, 0xc1, 0xaf, 0xbd, 0x03, 0x01, 0x13, 0x8a, 0x6b,
    0x3a, 0x91, 0x11, 0x41, 0x4f, 0x67, 0xdc, 0xea, 0x97, 0xf2, 0xcf, 0xce, 0xf0, 0xb4, 0xe6, 0x73,
    0x96, 0xac, 0x74, 0x22, 0xe7, 0xad, 0x35, 0x85, 0xe2, 0xf9, 0x37, 0xe8, 0x1c, 0x75, 0xdf, 0x6e,
    0x47, 0xf1, 0x1a, 0x71, 0x1d, 0x29, 0xc5, 0x89, 0x6f, 0xb7, 0x62, 0x0e, 0xaa, 0x18, 0xbe, 0x1b,
    0xfc, 0x56, 0x3e, 0x4b, 0xc6, 0xd2, 0x79, 0x20, 0x9a, 0xdb, 0xc0, 0xfe, 0x78, 0xcd, 0x5a, 0xf4,
    0x1f, 0xdd, 0xa8, 0x33, 0x88, 0x07, 0xc7, 0x31, 0xb1, 0x12, 0x10, 0x59, 0x27, 0x80, 0xec, 0x5f,
    0x60, 0x51, 0x7f, 0xa9, 0x19, 0xb5, 0x4a, 0x0d, 0x2d, 0xe5, 0x7a, 0x9f, 0x93, 0xc9, 0x9c, 0xef,
    0xa0, 0xe0, 0x3b, 0x4d, 0xae, 0x2a, 0xf5, 0xb0, 0xc8, 0xeb, 0xbb, 0x3c, 0x83, 0x53, 0x99, 0x61,
    0x17, 0x2b, 0x04, 0x7e, 0xba, 0x77, 0xd6, 0x26, 0xe1, 0x69, 0x14, 0x63, 0x55, 0x21, 0x0c, 0x7d]

def substitute (b : UInt8) : UInt8 := substitution.getD b.toNat 0

def restore (b : UInt8) : UInt8 := restoration.getD b.toNat 0

theorem restore_substitute (b : UInt8) : restore (substitute b) = b := by
  have all : ∀ n : Fin 256, restore (substitute (UInt8.ofNat n)) = UInt8.ofNat n := by
    decide +kernel
  simpa using all ⟨b.toNat, b.toNat_lt⟩

theorem substitute_restore (b : UInt8) : substitute (restore b) = b := by
  have all : ∀ n : Fin 256, substitute (restore (UInt8.ofNat n)) = UInt8.ofNat n := by
    decide +kernel
  simpa using all ⟨b.toNat, b.toNat_lt⟩

/-! ## Rows -/

/-- Row `r` moves left by `r`. -/
def shiftRows (s : Block) : Block :=
  ⟨⟨s.w.a, s.x.b, s.y.c, s.z.d⟩, ⟨s.x.a, s.y.b, s.z.c, s.w.d⟩,
   ⟨s.y.a, s.z.b, s.w.c, s.x.d⟩, ⟨s.z.a, s.w.b, s.x.c, s.y.d⟩⟩

/-- Row `r` moves right by `r`. -/
def unshiftRows (s : Block) : Block :=
  ⟨⟨s.w.a, s.z.b, s.y.c, s.x.d⟩, ⟨s.x.a, s.w.b, s.z.c, s.y.d⟩,
   ⟨s.y.a, s.x.b, s.w.c, s.z.d⟩, ⟨s.z.a, s.y.b, s.x.c, s.w.d⟩⟩

theorem unshiftRows_shiftRows (s : Block) : unshiftRows (shiftRows s) = s := rfl

/-! ## Columns -/

/-- Multiplication by `x` in GF(2^8). -/
def double (b : UInt8) : UInt8 := (b <<< 1) ^^^ (if b &&& 0x80 = 0 then 0 else 0x1B)

/-- Multiplication of a column by the polynomial `3x^3 + x^2 + x + 2`. -/
def mixColumn (k : Column) : Column :=
  let all := k.a ^^^ k.b ^^^ k.c ^^^ k.d
  ⟨k.a ^^^ all ^^^ double (k.a ^^^ k.b), k.b ^^^ all ^^^ double (k.b ^^^ k.c),
   k.c ^^^ all ^^^ double (k.c ^^^ k.d), k.d ^^^ all ^^^ double (k.d ^^^ k.a)⟩

/-- Multiplication of a column by `11x^3 + 13x^2 + 9x + 14`: first by `4x^2 + 5`, then mixing. -/
def unmixColumn (k : Column) : Column :=
  let u := double (double (k.a ^^^ k.c))
  let v := double (double (k.b ^^^ k.d))
  mixColumn ⟨k.a ^^^ u, k.b ^^^ v, k.c ^^^ u, k.d ^^^ v⟩

/-! ## Keys -/

/-- An expanded key: the first round key, those of the middle rounds, and the last. -/
structure Key where
  first : Block
  middle : List Block
  last : Block
  deriving DecidableEq, Repr

/-- Powers of `x` for the key expansion. -/
def roundConstants : List UInt8 := [0x01, 0x02, 0x04, 0x08, 0x10, 0x20, 0x40, 0x80, 0x1B, 0x36]

/-- The word after `words`: the word one key size back and the last, which every key size is rotated,
substituted and given a constant, and in the middle of a long key substituted. -/
def nextWord (size : KeySize) (words : Array Column) : Column :=
  let i := words.size
  let last := words.getD (i - 1) default
  let changed :=
    if i % size.words = 0 then
      let r := (Column.mk last.b last.c last.d last.a).map substitute
      { r with a := r.a ^^^ roundConstants.getD (i / size.words - 1) 0 }
    else if size.words = 8 ∧ i % 8 = 4 then last.map substitute
    else last
  (words.getD (i - size.words) default).xor changed

/-- The words of a key's octets. -/
def columns : Octets → List Column
  | a :: b :: c :: d :: rest => ⟨a, b, c, d⟩ :: columns rest
  | _ => []

/-- Four words to a round key. -/
def roundKeys : List Column → List Block
  | w :: x :: y :: z :: rest => ⟨w, x, y, z⟩ :: roundKeys rest
  | _ => []

/-- The expanded key of a key of the right size. -/
def expand (size : KeySize) (key : Octets) : Key :=
  let words := (List.range (4 * (size.rounds + 1) - size.words)).foldl
    (fun words _ => words.push (nextWord size words)) (columns key).toArray
  match roundKeys words.toList with
  | [] => ⟨default, [], default⟩
  | first :: rest => ⟨first, rest.dropLast, rest.getLast?.getD default⟩

/-! ## The cipher -/

def middleRound (s key : Block) : Block :=
  ((shiftRows (s.map (·.map substitute))).map mixColumn).xor key

def undoMiddleRound (s key : Block) : Block :=
  (unshiftRows ((s.xor key).map unmixColumn)).map (·.map restore)

def Key.encryptBlock (k : Key) (s : Block) : Block :=
  let s := k.middle.foldl middleRound (s.xor k.first)
  (shiftRows (s.map (·.map substitute))).xor k.last

def Key.decryptBlock (k : Key) (s : Block) : Block :=
  let s := (unshiftRows (s.xor k.last)).map (·.map restore)
  (k.middle.foldr (fun key s => undoMiddleRound s key) s).xor k.first

def Key.encrypt (k : Key) (block : Octets) : Octets := (k.encryptBlock (Block.ofOctets block)).octets

def Key.decrypt (k : Key) (block : Octets) : Octets := (k.decryptBlock (Block.ofOctets block)).octets

/-- The expanded key of a cipher, or why there is none. -/
def key (algorithm : SymmetricAlgorithm) (key : Octets) : Except CryptoError Key :=
  match KeySize.ofAlgorithm? algorithm with
  | none => .error (.unsupported (.symmetric algorithm))
  | some size =>
    if key.length = size.octets then .ok (expand size key)
    else .error (.invalidKeyLength size.octets key.length)

end Aes

end OpenPGP.Crypto
