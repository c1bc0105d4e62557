import OpenPGP.Crypto.Aes
/-!
# AES key wrap

Wraps a string of half blocks of eight octets under a key: six passes over the
halves, each step encrypting the running check value with one half and mixing in
the number of the step. Unwrapping runs the steps backwards and refuses unless
the check value comes out as it went in.
-/
namespace OpenPGP.Crypto.KeyWrap

/-- The check value wrapping starts from. -/
def check : Octets := List.replicate 8 0xA6

/-- One pass over the halves, the first step having number `t`. -/
def wrapPass (key : Aes.Key) (t : Nat) (value : Octets) : List Octets → Octets × List Octets
  | [] => (value, [])
  | half :: rest =>
    let block := key.encrypt (value ++ half)
    let (value, rest) :=
      wrapPass key (t + 1) (Octets.xor (block.take 8) (Octets.bigEndian 8 t)) rest
    (value, block.drop 8 :: rest)

/-- Undoes a pass, last half first. -/
def unwrapPass (key : Aes.Key) (t : Nat) (value : Octets) : List Octets → Octets × List Octets
  | [] => (value, [])
  | half :: rest =>
    let (value, rest) := unwrapPass key (t + 1) value rest
    let block := key.decrypt (Octets.xor value (Octets.bigEndian 8 t) ++ half)
    (block.take 8, block.drop 8 :: rest)

/-- Wraps whole half blocks. -/
def wrap? (key : Aes.Key) (data : Octets) : Option Octets :=
  if data.length % 8 ≠ 0 then none
  else
    let halves := Octets.pieces 8 data
    let (value, halves) := (List.range 6).foldl
      (fun (value, halves) pass => wrapPass key (halves.length * pass + 1) value halves) (check, halves)
    some (value ++ halves.flatten)

/-- What was wrapped, if the check value comes out right. -/
def unwrap? (key : Aes.Key) (wrapped : Octets) : Option Octets :=
  if wrapped.length % 8 ≠ 0 ∨ wrapped.length < 8 then none
  else
    let halves := Octets.pieces 8 (wrapped.drop 8)
    let (value, halves) := (List.range 6).foldl
      (fun (value, halves) pass => unwrapPass key (halves.length * (5 - pass) + 1) value halves)
      (wrapped.take 8, halves)
    if value = check then some halves.flatten else none

end OpenPGP.Crypto.KeyWrap
