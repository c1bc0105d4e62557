import OpenPGP.Crypto.Keys
/-!
# Credentials and certificates

The secrets that may open a message and the keys that may have signed it, as
lists searched in order.
-/
namespace OpenPGP

/-- Whoever provides the secrets that may open a message. -/
structure CredentialProvider where
  /-- The keys a name can denote. -/
  keysFor : KeyIdentifier → List DecryptionKey
  keys : List DecryptionKey
  passphrases : List Octets
  /-- Session keys known beforehand. -/
  sessionKeys : List SessionKey

/-- The secrets that may open a message, in lists. -/
structure Credentials where
  keys : List DecryptionKey
  passphrases : List Octets
  /-- Session keys known beforehand. -/
  sessionKeys : List SessionKey
  deriving DecidableEq

namespace Credentials

def empty : Credentials := ⟨[], [], []⟩

/-- The keys a name can denote. -/
def keysFor (c : Credentials) (id : KeyIdentifier) : List DecryptionKey :=
  c.keys.filter fun key => id.matchesFingerprint key.fingerprint

def provider (c : Credentials) : CredentialProvider :=
  ⟨c.keysFor, c.keys, c.passphrases, c.sessionKeys⟩

instance : Coe Credentials CredentialProvider := ⟨provider⟩

end Credentials

/-- The keys that may have signed a message. -/
structure Certificates where
  keys : List VerifyingKey
  deriving DecidableEq

namespace Certificates

/-- The first key a name can denote. -/
def find? (c : Certificates) (id : KeyIdentifier) : Option VerifyingKey :=
  c.keys.find? fun key => id.matchesFingerprint key.fingerprint

end Certificates

/-- The credential a session key came from. -/
inductive KeySource where
  | sessionKey (index : Nat)
  | passphrase (index : Nat)
  | publicKey (fingerprint : Fingerprint)
  deriving DecidableEq

end OpenPGP
