import OpenPGP.Compression.Deflate
/-!
# Deflated data with a checksum

The zlib form puts two octets in front of deflated data, which name the method
and the reach of distances, and the Adler-32 checksum of the expanded octets
behind it.
-/
namespace OpenPGP.Compression

/-- The Adler-32 checksum: the sum of the octets plus one, and the sum of all those sums. -/
def adler32 (octets : Array UInt8) : Nat :=
  let (a, b) := octets.foldl (fun (a, b) o =>
    let a := (a + o.toNat) % 65521
    (a, (b + a) % 65521)) (1, 0)
  b * 65536 + a

/-- Whether two octets open zlib data: method deflate, distances up to 32768, no preset dictionary, and
together a multiple of 31. -/
def isZlibHeader (first second : Nat) : Bool :=
  first % 16 = 8 && first / 16 ≤ 7 && !second.testBit 5 && (first * 256 + second) % 31 = 0

namespace Inflating

/-- Zlib data into a space. -/
def inflateZlib (space : Nat) : Inflating Unit := do
  let first ← number 8
  let second ← number 8
  if !isZlibHeader first second then corrupt
  inflate space
  align
  let a ← number 8
  let b ← number 8
  let c ← number 8
  let d ← number 8
  if adler32 (← get).output ≠ ((a * 256 + b) * 256 + c) * 256 + d then corrupt

end Inflating

/-- Zlib data that expands to a string. -/
def zlibStored (octets : Octets) : Octets :=
  [0x78, 0x01] ++ deflateStored octets ++ Octets.bigEndian 4 (adler32 octets.toArray)

end OpenPGP.Compression
