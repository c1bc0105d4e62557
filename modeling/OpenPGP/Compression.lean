import OpenPGP.Compression.Zlib
/-!
# Compressed data

`CompressedData.decompress` expands the body of a compressed data packet within
a limit. Octets are taken in and given out 32768 at a time, in windows: what was
written is given out when a window of either side is full or used up. One octet
more than the limit is asked for, so that the end or a defect behind the last one
allowed is still met; once more was given out, the limit is what counts.

Results:
* `Expansion.read_of_le`: what keeps the limit is given out.
* `Compression.Expansion.length_read_le`: nothing longer than the limit is given out.
-/
namespace OpenPGP

open Compression

namespace Compression

/-- The octets taken in or given out at a time. -/
def windowSize : Nat := 32768

/-- The end of the window in which a limit is passed. -/
def spaceFor (limit : UInt64) : Nat := (limit.toNat / windowSize + 1) * windowSize

/-- Expanded octets, if they stay within the limit. -/
def within (limit : UInt64) (octets : Octets) : Except MessageError Octets :=
  if octets.length > limit.toNat then .error (.limitExceeded limit) else .ok octets

/-- How many octets are asked for under a limit: one more than it allows, as far as a word goes. -/
def request (limit : UInt64) : Nat := min (limit.toNat + 1) 0xFFFFFFFFFFFFFFFF

/-- What expanding gives out: octets, and behind them the end or a defect. -/
structure Expansion where
  octets : Octets
  defect : Option CompressionDefect

/-- How many octets were given out before a defect: those written before the piece of input at hand was
begun, and the windows that more was written behind. -/
def Inflater.given (s : Inflater) : Nat :=
  max s.delivered ((s.output.size - 1) / windowSize * windowSize)

namespace Expansion

/-- What a run of expansion gives out. Before input that ends too early it is everything written. -/
def ofRun : EStateM.Result Stop Inflater Unit → Expansion
  | .ok _ s | .error .full s => ⟨s.output.toList, none⟩
  | .error (.defect .corrupt) s => ⟨s.output.toList.take s.given, some .corrupt⟩
  | .error (.defect .incomplete) s => ⟨s.output.toList, some .incomplete⟩

/-- What reading to the end comes to. -/
def whole (e : Expansion) : Except MessageError Octets :=
  match e.defect with
  | some defect => .error (.decompression defect)
  | none => .ok e.octets

/-- Reads up to a number of octets. The end is met only if there are fewer. -/
def take (e : Expansion) (count : Nat) : Except MessageError Octets :=
  if e.octets.length < count then e.whole else .ok (e.octets.take count)

/-- Reads under a limit. -/
def read (e : Expansion) (limit : UInt64) : Except MessageError Octets := do
  within limit (← e.take (request limit))

end Expansion

/-- Runs an expansion of a body under a limit, in space up to the end of the window in which the limit is
passed. -/
def expand (inflate : (space : Nat) → Inflating Unit) (body : Octets) (limit : UInt64) :
    Except MessageError Octets :=
  (Expansion.ofRun (inflate (spaceFor limit) (.ofOctets windowSize body))).read limit

end Compression

/-- The content of a compressed data packet. -/
def CompressedData.decompress (p : CompressedData) (limit : UInt64) : Except MessageError Octets :=
  match p.algorithm with
  | .uncompressed => (Expansion.mk p.body none).read limit
  | .zip => expand Inflating.inflate p.body limit
  | .zlib => expand Inflating.inflateZlib p.body limit
  | algorithm => .error (.unsupported (.compression algorithm))

/-- A compressed data packet with a content; algorithms other than zip and zlib take it as it is. -/
def CompressedData.ofContent (algorithm : CompressionAlgorithm) (content : Octets) : CompressedData :=
  ⟨algorithm, match algorithm with
    | .zip => deflateStored content
    | .zlib => zlibStored content
    | _ => content⟩

theorem Compression.within_eq_ok {limit : UInt64} {octets out : Octets}
    (h : within limit octets = .ok out) : octets = out := by
  unfold within at h
  split at h <;> cases h
  rfl

theorem Compression.length_within_le {limit : UInt64} {octets out : Octets}
    (h : within limit octets = .ok out) : out.length ≤ limit.toNat := by
  unfold within at h
  split at h
  · cases h
  · cases h; omega

/-- All that is given out is read if it keeps the limit and no defect is behind it. -/
theorem Compression.Expansion.read_of_le {e : Expansion} {limit : UInt64} (hdefect : e.defect = none)
    (h : e.octets.length ≤ limit.toNat) : e.read limit = .ok e.octets := by
  have htake : e.take (request limit) = .ok e.octets := by
    rw [take, whole, hdefect]
    split
    · rfl
    · have := limit.toNat_lt
      rw [request] at *
      rw [List.take_of_length_le (by omega)]
  rw [read, htake]
  exact if_neg (Nat.not_lt.mpr h)

theorem Compression.Expansion.length_read_le {e : Expansion} {limit : UInt64} {out : Octets}
    (h : e.read limit = .ok out) : out.length ≤ limit.toNat := by
  unfold read at h
  cases htake : e.take (request limit) with
  | error error =>
    rw [htake] at h
    cases h
  | ok octets =>
    rw [htake] at h
    exact length_within_le h

end OpenPGP
