import OpenPGP.Crypto.Aead.Counter
/-!
# EAX

Counter encryption from the authentication of the nonce, and a tag that is the
exclusive or of the authentications of nonce, associated data and ciphertext,
each under its own leading block.
-/
namespace OpenPGP.Crypto.Eax

/-- The chain of a cipher block chaining authentication over blocks before the last. -/
def chain (cipher : Octets → Octets) (state : Octets) : List Octets → Octets
  | [] => state
  | [last] => Octets.xor state last
  | block :: rest => chain cipher (cipher (Octets.xor state block)) rest

/-- One-key authentication: the last block is masked with a double of the encryption of zeros, once
if it is whole and, after filling up with `0x80` and zeros, twice if not. -/
def authenticate (cipher : Octets → Octets) (data : Octets) : Octets :=
  let zeros := List.replicate 16 0
  let once := doubled (cipher zeros)
  let blocks := data.pieces 16
  let last := blocks.getLast?.getD []
  let masked :=
    if last.length = 16 then Octets.xor last once
    else Octets.xor (Octets.resize 16 (last ++ [0x80])).val (doubled once)
  cipher (chain cipher zeros (blocks.dropLast ++ [masked]))

/-- The authentication of data under a leading block that says what the data is. -/
def tagged (cipher : Octets → Octets) (kind : UInt8) (data : Octets) : Octets :=
  authenticate cipher (List.replicate 15 0 ++ kind :: data)

/-- The stream of encrypted counters from the authentication of the nonce. -/
def stream (cipher : Octets → Octets) (nonce : Octets) : Nat → Octets.Sized 16 :=
  let start := Octets.ofBigEndian (tagged cipher 0 nonce)
  fun i => wholeBlock cipher (Octets.bigEndian 16 (start + i))

def tag (cipher : Octets → Octets) (nonce associated ciphertext : Octets) : Octets :=
  Octets.xor (Octets.xor (tagged cipher 0 nonce) (tagged cipher 1 associated))
    (tagged cipher 2 ciphertext)

end OpenPGP.Crypto.Eax
