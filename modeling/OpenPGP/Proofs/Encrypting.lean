import OpenPGP.Proofs.Reading
import OpenPGP.Proofs.RoundTrip
import OpenPGP.Proofs.SessionKeys
/-!
# Encrypting for one credential

`Composing.Makes` says what comes of composing wherever the random octets stand.
Encrypting to a passphrase or to a recipient, named or not, makes a key packet and
encrypted data that a reader with that credential opens at the first trial, whatever
the cipher and the protection. A recipient whose key ID is all zeros is read back as
an anonymous one, so the key packet that is read may be another one with the same
octets.

Results:
* `Encryption.passphrasePacket_makes`, `Encryption.recipientPacket_makes`: key packets and what they give.
* `Encryption.dataPacket_makes`: encrypted data and the keys that open it.
* `Encryption.packets_makes`: both together open to the content, and how long they are.
-/
namespace OpenPGP

open Crypto

/-! ## Composing -/

/-- There are random octets, and the clock stands at a time. -/
structure Environment.Ready (e : Environment) (now : UInt32) : Prop where
  key : e.generator.key.length = 8
  clock : e.clock = now

namespace Composing

/-- Composing succeeds wherever the random octets stand, what comes of it is as described, and the clock
has not moved. -/
def Makes {α : Type} (now : UInt32) (x : Composing α) (P : α → Prop) : Prop :=
  ∀ e : Environment, e.Ready now → ∃ a e', x e = .ok (a, e') ∧ e'.Ready now ∧ P a

namespace Makes

variable {α β γ : Type} {now : UInt32} {P : α → Prop} {Q : β → Prop} {x : Composing α} {f : α → Composing β}

theorem pure {a : α} (h : P a) : Makes now (Pure.pure a) P := fun e he => ⟨a, e, rfl, he, h⟩

theorem bind (hx : Makes now x P) (hf : ∀ a, P a → Makes now (f a) Q) : Makes now (x >>= f) Q := by
  intro e he
  obtain ⟨a, e₁, hxa, he₁, ha⟩ := hx e he
  obtain ⟨b, e₂, hfb, he₂, hb⟩ := hf a ha e₁ he₁
  exact ⟨b, e₂, Except.bind_eq_ok.mpr ⟨(a, e₁), hxa, hfb⟩, he₂, hb⟩

theorem mono {P' : α → Prop} (hx : Makes now x P) (h : ∀ a, P a → P' a) : Makes now x P' := by
  intro e he
  obtain ⟨a, e₁, hxa, he₁, ha⟩ := hx e he
  exact ⟨a, e₁, hxa, he₁, h a ha⟩

theorem ofCrypto_bind {result : Except CryptoError α} {a : α} (h : result = .ok a)
    (hf : Makes now (f a) Q) : Makes now (ofCrypto result >>= f) Q := by
  subst h
  exact hf

theorem clock : Makes now Composing.clock (· = now) := fun e he => ⟨e.clock, e, rfl, he, he.clock⟩

theorem random (n : Nat) : Makes now (Composing.random n) fun octets => octets.length = n := by
  intro e he
  obtain ⟨hlength, hkey⟩ := Generator.length_octets he.key n
  exact ⟨_, _, rfl, ⟨(congrArg List.length hkey).trans he.key, he.clock⟩, hlength⟩

theorem randomSized (n : Nat) : Makes now (Composing.randomSized n) fun _ => True :=
  (random n).bind fun _ _ => pure trivial

theorem mapM_nil (f : γ → Composing α) : Makes now ([].mapM f) (· = []) := pure rfl

theorem mapM_singleton {f : γ → Composing α} {c : γ} (h : Makes now (f c) P) :
    Makes now ([c].mapM f) fun as => ∃ a, as = [a] ∧ P a := by
  rw [List.mapM_cons]
  exact h.bind fun a ha => pure ⟨a, rfl, ha⟩

theorem encoded {packets : List Packet} {octets : Octets} (h : Packet.encodeAll packets = .ok octets) :
    Makes now (Composing.encoded packets) (· = octets) := by
  intro e he
  refine ⟨octets, e, ?_, he, rfl⟩
  rw [Composing.encoded, h]
  rfl

end Makes

end Composing

open Composing

/-! ## Schemes -/

/-- The protections that are implemented. -/
inductive Scheme.Usable : Scheme → Prop
  | modificationDetection : Usable .modificationDetection
  | chunked (mode : AeadMode) {chunkSize : UInt8} (h : chunkSize ≤ EncryptedData.maxChunkSize) :
      Usable (.chunked mode.algorithm chunkSize)

namespace Scheme

/-- The version of the data. -/
def version : Scheme → UInt8
  | modificationDetection => 1
  | chunked .. => 2

def integrity : Scheme → IntegrityProtection
  | modificationDetection => .modificationDetection
  | chunked mode _ => .aead mode

/-- The length of a key packet for a passphrase, for keys of some octets. -/
def passphraseLength (keySize : Nat) : Scheme → Nat
  | modificationDetection => keySize + 14
  | chunked mode _ => keySize + mode.nonceSize.getD 0 + 41

/-- The length of a key packet for a recipient. -/
def recipientLength (keySize : Nat) (anonymous : Bool) : Scheme → Nat
  | modificationDetection => keySize + 52
  | chunked .. => keySize + if anonymous then 44 else 65

/-- The length of data with a content of some octets: a tag of 16 octets for every chunk and one more. -/
def dataLength (content : Nat) : Scheme → Nat
  | modificationDetection => content + 41
  | chunked _ chunkSize =>
    content + ((content + EncryptedData.chunkLength chunkSize - 1) / EncryptedData.chunkLength chunkSize + 1) *
      16 + 36

end Scheme

namespace Resolution

/-- A candidate that opens data of a scheme: next to version 1 data the cipher must be named, and version
2 data is not checked beforehand. -/
inductive Candidate.Suits (cipher : SymmetricAlgorithm) (key : Octets) : Scheme → Candidate → Prop
  | named (authenticated : Bool) :
      Candidate.Suits cipher key .modificationDetection ⟨some cipher, key, authenticated⟩
  | authenticated (mode : AeadAlgorithm) (chunkSize : UInt8) :
      Candidate.Suits cipher key (.chunked mode chunkSize) ⟨none, key, true⟩

end Resolution

open Resolution

/-- The secrets of a recipient who has a passphrase as well. -/
def Recipient.credentials (r : Recipient) (passphrase : String) : Credentials :=
  ⟨[r.key], [Octets.ofText passphrase], []⟩

/-- A key packet that stands alone gives a candidate at the first trial. -/
def KeyPacket.Gives (k : KeyPacket) (credentials : CredentialProvider) (version : UInt8) (source : KeySource)
    (candidate : Candidate) : Prop :=
  ∃ unlocking others, trials credentials [k] version = .attempt (some 0) source unlocking :: others ∧
    unlocking.candidate .standard = .ok candidate

namespace Encryption

variable {e : Encryption} {size : Aes.KeySize} {now : UInt32} {key : Octets}

theorem acceptsSymmetric_algorithm (size : Aes.KeySize) :
    Policy.standard.acceptsSymmetric size.algorithm = true := by
  cases size <;> decide

theorem isCanonical_algorithm (mode : AeadMode) : mode.algorithm.IsCanonical := by
  cases mode <;> exact Identifier.isCanonical_registered _ _

theorem acceptsAead_algorithm (mode : AeadMode) : Policy.standard.acceptsAead mode.algorithm = true := by
  cases mode <;> decide

/-! ## Key packets for a passphrase -/

theorem trials_passphrase {credentials : Credentials} {passphrase : Octets}
    (hc : credentials.passphrases = [passphrase]) (hn : credentials.sessionKeys = [])
    {k : PassphraseSessionKey} {version : UInt8} (hf : (KeyPacket.passphrase k).fits version = true) :
    trials credentials [.passphrase k] version =
      [.attempt (some 0) (.passphrase 0) (.derivation k passphrase)] := by
  simp [trials, sessionKeyTrials, trialsOf, passphraseTrials, Credentials.provider, hc, hn, hf]

/-- A key packet for a passphrase is read back, and gives the key to who has the passphrase. -/
theorem passphrasePacket_makes (hs : e.scheme.Usable) (he : e.cipher = size.algorithm)
    (hk : key.length = size.octets) (passphrase : String) {credentials : Credentials}
    (hc : credentials.passphrases = [Octets.ofText passphrase]) (hn : credentials.sessionKeys = []) :
    Makes now (e.passphrasePacket passphrase key) fun k => k.WellFormed ∧
      k.encode.length = e.scheme.passphraseLength size.octets ∧
      ∃ candidate, candidate.Suits size.algorithm key e.scheme ∧
        (KeyPacket.passphrase k).Gives credentials e.scheme.version (.passphrase 0) candidate := by
  obtain ⟨scheme, cipher, passphrases, recipients, anonymous, sessionKey⟩ := e
  dsimp only at he hs
  subst he
  have hp := acceptsSymmetric_algorithm size
  cases hs with
  | modificationDetection =>
    refine (Makes.randomSized 8).bind fun salt _ => ?_
    obtain ⟨derived, hderive, hlength⟩ :=
      Specifier.deriveKey_iterated salt 0x60 (Octets.ofText passphrase) size.octets
    obtain ⟨encrypted, hencrypt, hopens, hlong⟩ := deriveWith_v4 hp hderive hlength key
    refine Makes.ofCrypto_bind (hk.symm ▸ hderive) (Makes.ofCrypto_bind hencrypt (Makes.pure ⟨?_, ?_, ?_⟩))
    · exact .encrypted size.isCanonical_algorithm (List.length_pos_iff.mp (by omega))
        (.iterated (Identifier.isCanonical_registered _ _) _ _)
    · simp [PassphraseSessionKey.encode, Specifier.encode, hlong, hk, Scheme.passphraseLength, salt.property]
      omega
    · exact ⟨_, .named false, _, _, trials_passphrase hc hn rfl, hopens⟩
  | @chunked mode chunkSize hchunk =>
    refine (Makes.randomSized 16).bind fun salt _ => ?_
    have hsize : 4 ≤ size.octets ∧ size.octets ≤ 64 := by cases size <;> decide
    have hnonce : mode.algorithm.nonceSize = some mode.nonceSize := by cases mode <;> rfl
    have hshort : mode.nonceSize ≤ 16 := by cases mode <;> decide
    obtain ⟨derived, hderive, hlength⟩ :=
      Specifier.deriveKey_argon2 salt (Octets.ofText passphrase) hsize.1 hsize.2
    refine Makes.ofCrypto_bind (hk.symm ▸ hderive) ?_
    obtain ⟨wrapping, hw, -⟩ := Hkdf.sha256_sized derived none (passphraseInfo size.algorithm mode.algorithm)
      (show size.octets ≤ 255 * 32 by omega)
    refine Makes.ofCrypto_bind (hk.symm ▸ hw) ?_
    refine Makes.ofCrypto_bind (Protection.ChunkedAead.nonceSizeOf_algorithm mode) ?_
    refine (Makes.random mode.nonceSize).bind fun iv hiv => ?_
    obtain ⟨wrapping', encrypted, hw', hseal, hopens, hlong⟩ :=
      deriveWith_v6 hp (acceptsAead_algorithm mode) hderive hlength hiv key
    obtain rfl : wrapping = wrapping' := Except.ok.inj (hw.symm.trans hw')
    refine Makes.ofCrypto_bind hseal (Makes.pure ⟨?_, ?_, ?_⟩)
    · refine .v6 size.isCanonical_algorithm (isCanonical_algorithm mode) _ (.argon2 _ _ _ _) ?_
      simp [Specifier.encode, salt.property, hiv]
      omega
    · simp [PassphraseSessionKey.encode, Specifier.encode, hlong, hk, hiv, Scheme.passphraseLength,
        salt.property, hnonce]
      omega
    · exact ⟨_, .authenticated _ _, _, _, trials_passphrase hc hn rfl, hopens⟩

end Encryption

/-! ## Key packets for a recipient -/

/-- A recipient with an X25519 key that may encrypt. -/
def Recipient.Genuine (r : Recipient) : Prop :=
  ∃ secret created flags, r.key = .x25519 secret created flags ∧ flags.canEncrypt = true

theorem Recipient.genuine_ofSeed (seed : UInt8) : (Recipient.ofSeed seed).Genuine :=
  ⟨_, _, _, rfl, by decide⟩

namespace PublicKeySessionKey

/-- The packet that is read where a packet was written: a key ID of zeros is no name. -/
def readAs (k : PublicKeySessionKey) : PublicKeySessionKey :=
  { k with recipient := k.recipient.filter (· ≠ .keyId .wildcard) }

theorem encode_readAs (k : PublicKeySessionKey) : k.readAs.encode = k.encode := by
  obtain ⟨version, recipient, algorithm, material⟩ := k
  by_cases hr : recipient = some (.keyId .wildcard)
  · subst hr
    simp [readAs, encode, encodeRecipient, KeyIdentifier.id, Option.filter]
  · have hkeep : recipient.filter (· ≠ .keyId .wildcard) = recipient := by
      cases recipient with
      | none => rfl
      | some id => simpa using hr
    rw [readAs, hkeep]

theorem names_filter_keyId (id : KeyId) (anonymous : Bool) :
    Names 3 ((if anonymous then none else some (.keyId id)).filter (· ≠ .keyId .wildcard)) := by
  cases anonymous with
  | true => exact .nobody (.inl rfl)
  | false =>
    by_cases hid : id = .wildcard
    · simpa [hid, Option.filter] using Names.nobody (.inl rfl)
    · simpa [hid, Option.filter] using Names.keyId hid

theorem names_filter_fingerprint (f : Fingerprint) (anonymous : Bool) :
    Names 6 ((if anonymous then none else some (.fingerprint f)).filter (· ≠ .keyId .wildcard)) := by
  cases anonymous with
  | true => exact .nobody (.inr rfl)
  | false => exact .fingerprint f

theorem mem_recipient_readAs {k : PublicKeySessionKey} {id : KeyIdentifier}
    (h : id ∈ k.readAs.recipient) : id ∈ k.recipient :=
  (Option.mem_filter_iff.mp h).1

end PublicKeySessionKey

/-- The packet that is read where a packet was written. -/
def Packet.readAs : Packet → Packet
  | .publicKeySessionKey k => .publicKeySessionKey k.readAs
  | p => p

theorem Packet.tag_readAs (p : Packet) : p.readAs.tag = p.tag := by cases p <;> rfl

theorem Packet.body_readAs (p : Packet) : p.readAs.body = p.body := by
  cases p <;> first | rfl | exact PublicKeySessionKey.encode_readAs _

theorem Packet.encodeAll_readAs (packets : List Packet) :
    encodeAll (packets.map readAs) = encodeAll packets := by
  induction packets with
  | nil => rfl
  | cons p packets ih => simp only [List.map_cons, encodeAll, ih, encode, tag_readAs, body_readAs]

namespace Encryption

variable {e : Encryption} {size : Aes.KeySize} {now : UInt32} {key : Octets}

theorem trials_recipient {credentials : Credentials} {r : Recipient} (hr : r.Genuine)
    (hc : credentials.keys = [r.key]) (hn : credentials.sessionKeys = []) {k : PublicKeySessionKey}
    {version : UInt8} (hf : (KeyPacket.publicKey k).fits version = true) (ha : k.algorithm = .x25519)
    (hname : ∀ id ∈ k.recipient, id.matchesFingerprint r.key.fingerprint = true) :
    trials credentials [.publicKey k] version =
      [.attempt (some 0) (.publicKey r.key.fingerprint) (.decryption k r.key)] := by
  obtain ⟨secret, created, flags, hkey, hflags⟩ := hr
  have hencrypt : r.key.flags.canEncrypt = true := by rw [hkey]; exact hflags
  have hkeys : keysFor credentials k = [r.key] := by
    cases hk : k.recipient with
    | none => simp [keysFor, Credentials.provider, hk, hc, hencrypt, ha, DecryptionKey.algorithm]
    | some id => simp [keysFor, Credentials.provider, hk, Credentials.keysFor, hc, hname id hk]
  simp [trials, sessionKeyTrials, trialsOf, keyTrials, hkeys, show credentials.provider.sessionKeys = []
    from hn, hf]

/-- A key packet for a recipient is read back, and gives the key to the recipient. -/
theorem recipientPacket_makes (hs : e.scheme.Usable) (he : e.cipher = size.algorithm)
    (hk : key.length = size.octets) {r : Recipient} (hr : r.Genuine) {credentials : Credentials}
    (hc : credentials.keys = [r.key]) (hn : credentials.sessionKeys = []) :
    Makes now (e.recipientPacket r key) fun k => k.readAs.WellFormed ∧
      k.encode.length = e.scheme.recipientLength size.octets e.anonymous ∧
      ∃ candidate, candidate.Suits size.algorithm key e.scheme ∧
        (KeyPacket.publicKey k.readAs).Gives credentials e.scheme.version (.publicKey r.key.fingerprint)
          candidate := by
  obtain ⟨secret, created, flags, hkey, hflags⟩ := id hr
  have hpoint : r.key.point = X25519.publicKey secret := by rw [hkey]; rfl
  have height : key.length % 8 = 0 := by rw [hk]; cases size <;> rfl
  have hshort : size.octets ≤ 32 := by cases size <;> decide
  refine (Makes.randomSized 32).bind fun ephemeral _ => ?_
  obtain ⟨wrapped, hwrap, hunwrap, hlong⟩ :=
    X25519.unwrapSessionKey_wrapSessionKey secret ephemeral height
  rw [← hpoint] at hwrap
  refine Makes.ofCrypto_bind hwrap ?_
  obtain ⟨scheme, cipher, passphrases, recipients, anonymous, sessionKey⟩ := e
  dsimp only at he hs ⊢
  subst he
  have hopens (version : UInt8) (name : Option KeyIdentifier) (algorithm : Option SymmetricAlgorithm) :
      decryptWith .standard ⟨version, name, .x25519,
        .x25519 (X25519.publicKey ephemeral) algorithm wrapped⟩ (.x25519 secret created flags) =
          .ok ⟨algorithm, key, true⟩ :=
    decryptWith_x25519 (by decide) hunwrap version name algorithm
  have hfingerprint : r.key.fingerprint.octets.length = 20 := by
    rw [hkey]
    exact (Octets.resize 20 _).property
  -- whoever is named is the recipient
  have hname {name : KeyIdentifier} (hm : name.matchesFingerprint r.key.fingerprint = true)
      {k : PublicKeySessionKey} (hk : k.recipient = if anonymous then none else some name) :
      ∀ id ∈ k.readAs.recipient, id.matchesFingerprint r.key.fingerprint = true := by
    intro id hid
    have hid := PublicKeySessionKey.mem_recipient_readAs hid
    rw [hk] at hid
    cases anonymous with
    | true => cases hid
    | false =>
      cases hid
      exact hm
  cases hs with
  | modificationDetection =>
    refine Makes.pure ⟨⟨?_, Identifier.isCanonical_registered _ _, .clear _ size.isCanonical_algorithm (by omega)⟩,
      ?_, _, .named true, _, _, trials_recipient hr hc hn rfl rfl (hname ?_ rfl), ?_⟩
    · exact PublicKeySessionKey.names_filter_keyId _ _
    · cases anonymous <;> simp [PublicKeySessionKey.encode, PublicKeySessionKey.encodeRecipient,
        PublicKeySessionKey.encodeMaterial, KeyIdentifier.id, Scheme.recipientLength, hlong, hk,
        (X25519.publicKey ephemeral).property, r.key.fingerprint.keyId.property, KeyId.wildcard,
        (Octets.Sized.zero 8).property] <;> omega
    · simp [KeyIdentifier.matchesFingerprint, KeyIdentifier.matches, KeyIdentifier.id]
    · rw [hkey]
      exact hopens _ _ _
  | @chunked mode chunkSize hchunk =>
    refine Makes.pure ⟨⟨?_, Identifier.isCanonical_registered _ _,
        .inside (show (6 : UInt8) ≠ 3 by decide) _ (by omega)⟩, ?_, _, .authenticated _ _, _, _,
      trials_recipient hr hc hn rfl rfl (hname (KeyIdentifier.matches_self _) rfl), ?_⟩
    · exact PublicKeySessionKey.names_filter_fingerprint _ _
    · cases anonymous <;> simp [PublicKeySessionKey.encode, PublicKeySessionKey.encodeRecipient,
        PublicKeySessionKey.encodeMaterial, Scheme.recipientLength, hlong, hk,
        (X25519.publicKey ephemeral).property, hfingerprint] <;> omega
    · rw [hkey]
      exact hopens _ _ _

/-! ## Encrypted data -/

/-- Encrypted data is read back, and the key opens it however it is come by. -/
theorem dataPacket_makes (hs : e.scheme.Usable) (he : e.cipher = size.algorithm)
    (hk : key.length = size.octets) (content : Octets) :
    Makes now (e.dataPacket key content) fun d => d.WellFormed ∧ d.version = e.scheme.version ∧
      d.encode.length = e.scheme.dataLength content.length ∧
      MessageReader.integrityOf .standard d = .ok e.scheme.integrity ∧
      ∀ candidate source, candidate.Suits size.algorithm key e.scheme →
        accept .standard d source candidate =
          .ok ⟨size.algorithm, ⟨some size.algorithm, key⟩, source, content⟩ := by
  have hp := acceptsSymmetric_algorithm size
  have hsize : size.algorithm.keySize = some key.length := by rw [hk, size.keySize_algorithm]
  obtain ⟨scheme, cipher, passphrases, recipients, anonymous, sessionKey⟩ := e
  dsimp only at he hs
  subst he
  cases hs with
  | modificationDetection =>
    have hblock : Protection.blockSizeOf size.algorithm = .ok 16 := by
      rw [Protection.blockSizeOf, size.blockSize_algorithm]
    refine Makes.ofCrypto_bind hblock ((Makes.random 16).bind fun start hstart => ?_)
    have hencrypt : Protection.encryptWithCode size.algorithm key start content = .ok _ :=
      Except.bind_eq_ok.mpr ⟨_, size.key_algorithm hk, rfl⟩
    obtain ⟨hopen, hquick, hlength⟩ :=
      Protection.open_encryptWithCode size.blockSize_algorithm hstart hencrypt
    refine Makes.ofCrypto_bind hencrypt (Makes.pure ⟨.v1 _, rfl, ?_, rfl, ?_⟩)
    · rw [EncryptedData.encode, List.length_cons, hlength]
      rfl
    · rintro _ source (authenticated | _)
      exact accept_of_decrypt rfl hp hsize (fun _ => hquick) hopen
  | @chunked mode chunkSize hchunk =>
    refine (Makes.randomSized 32).bind fun salt _ => ?_
    obtain ⟨c, hderive, hsized, hfits, hlong⟩ :=
      Protection.ChunkedAead.deriveSized_fits size mode chunkSize salt.val hk
    obtain ⟨body, hencrypt, hdecrypt, hlength⟩ := hfits.decrypt_encrypt content
    refine Makes.ofCrypto_bind hderive (Makes.ofCrypto_bind hencrypt (Makes.pure
      ⟨.v2 _ _ size.isCanonical_algorithm (isCanonical_algorithm mode) hchunk, rfl, ?_, ?_, ?_⟩))
    · have hpos := hfits.chunkLength
      rw [Octets.length_pieces hpos, hlong] at hlength
      simp [EncryptedData.encode, hlength, salt.property, Scheme.dataLength, Protection.ChunkedAead.tagLength]
      omega
    · simp [MessageReader.integrityOf, hp, acceptsAead_algorithm, Scheme.integrity]
    · rintro _ source (_ | _)
      have hopen : (EncryptedData.v2 size.algorithm mode.algorithm chunkSize salt body).decrypt
          ⟨some size.algorithm, key⟩ = .ok content :=
        Except.bind_eq_ok.mpr ⟨c, Except.mapError_eq_ok.mpr hsized, hdecrypt⟩
      exact accept_of_decrypt rfl hp hsize (fun h => by cases h) hopen

/-! ## Key packets and data -/

theorem chosenKey_makes (he : e.cipher = size.algorithm) (hn : e.sessionKey = none) :
    Makes now e.chosenKey fun key => key.length = size.octets := by
  simp only [chosenKey, he, size.keySize_algorithm, hn]
  exact Makes.random size.octets

/-- Where the session key is found. -/
def source (e : Encryption) : KeySource :=
  match e.recipients with
  | [] => .passphrase 0
  | r :: _ => .publicKey r.key.fingerprint

/-- What the encrypted data is recorded as. -/
def layer (e : Encryption) : EncryptionLayer := ⟨e.cipher, e.scheme.integrity, e.source⟩

/-- The lengths of the bodies of all packets, over a content of some octets. -/
def bodyLengths (e : Encryption) (content : Nat) : List Nat :=
  e.passphrases.map (fun _ => e.scheme.passphraseLength (e.cipher.keySize.getD 0)) ++
    e.recipients.map (fun _ => e.scheme.recipientLength (e.cipher.keySize.getD 0) e.anonymous) ++
    [e.scheme.dataLength content]

/-- Encryption that can be undone with a passphrase or with the key of a recipient. -/
structure Usable (e : Encryption) (passphrase : String) (recipient : Recipient) : Prop where
  scheme : e.scheme.Usable
  cipher : ∃ size : Aes.KeySize, e.cipher = size.algorithm
  sessionKey : e.sessionKey = none
  credential : (e.passphrases = [passphrase] ∧ e.recipients = []) ∨
    (e.passphrases = [] ∧ e.recipients = [recipient])

/-- Encrypted data that is made under a key opens behind a key packet that gives the key. -/
theorem opens_of_gives {o : ReadingContext} (hp : o.restrictions.policy = .standard) {k : KeyPacket}
    {d : EncryptedData} {source : KeySource} {candidate : Candidate} {integrity : IntegrityProtection}
    {content : Octets} (hg : k.Gives o.credentials d.version source candidate)
    (hi : MessageReader.integrityOf .standard d = .ok integrity)
    (ha : accept .standard d source candidate =
      .ok ⟨size.algorithm, ⟨some size.algorithm, key⟩, source, content⟩) :
    Opens o [k] (.encryptedData d) (.encryption ⟨size.algorithm, integrity, source⟩) content := by
  obtain ⟨unlocking, others, ht, hu⟩ := hg
  have hr : d.resolveBy o.restrictions.policy o.credentials [k] = .ok _ :=
    EncryptedData.resolveBy_of_trial ht (hp ▸ hu) (hp ▸ ha)
  exact .encrypted (hp ▸ hi) hr

theorem packets_makes {o : ReadingContext} {passphrase : String} {r : Recipient} (hr : r.Genuine)
    (hp : o.restrictions.policy = .standard)
    (hc : o.credentials = r.credentials passphrase) (hu : e.Usable passphrase r)
    {content : List Packet} {octets : Octets} (hcontent : Packet.encodeAll content = .ok octets) :
    Makes now (e.packets content) fun made => ∃ k d,
      made.1.map Packet.readAs = [KeyPacket.packet k, .encryptedData d] ∧
      (KeyPacket.packet k).WellFormed ∧ d.WellFormed ∧
      Opens o [k] (.encryptedData d) (.encryption e.layer) octets ∧
      made.1.map (·.body.length) = e.bodyLengths octets.length := by
  obtain ⟨size, he⟩ := hu.cipher
  refine (chosenKey_makes he hu.sessionKey).bind fun key hk => ?_
  refine (Makes.encoded hcontent).bind fun _ h => ?_
  subst h
  have hkeySize : e.cipher.keySize.getD 0 = size.octets := by rw [he, size.keySize_algorithm]; rfl
  have hkeys : (r.credentials passphrase).keys = [r.key] := rfl
  have hpassphrases : (r.credentials passphrase).passphrases = [Octets.ofText passphrase] := rfl
  have hnone : (r.credentials passphrase).sessionKeys = [] := rfl
  obtain ⟨hpass, hrec⟩ | ⟨hpass, hrec⟩ := hu.credential
  · rw [hpass, hrec]
    refine (Makes.mapM_singleton (passphrasePacket_makes hu.scheme he hk passphrase hpassphrases hnone)).bind ?_
    rintro _ ⟨k, rfl, hw, hl, candidate, hsuits, hgives⟩
    rw [← hc] at hgives
    refine (Makes.mapM_nil _).bind ?_
    rintro _ rfl
    refine (dataPacket_makes hu.scheme he hk _).bind fun d ⟨hdw, hv, hdl, hi, ha⟩ => Makes.pure ?_
    refine ⟨.passphrase k, d, rfl, .passphraseSessionKey hw, hdw, ?_, ?_⟩
    · have := opens_of_gives hp (hv ▸ hgives) hi (ha _ _ hsuits)
      rwa [layer, source, hrec, he]
    · simp [bodyLengths, hpass, hrec, Packet.body, hl, hdl, hkeySize]
  · rw [hpass, hrec]
    refine (Makes.mapM_nil _).bind ?_
    rintro _ rfl
    refine (Makes.mapM_singleton (recipientPacket_makes hu.scheme he hk hr hkeys hnone)).bind ?_
    rintro _ ⟨k, rfl, hw, hl, candidate, hsuits, hgives⟩
    rw [← hc] at hgives
    refine (dataPacket_makes hu.scheme he hk _).bind fun d ⟨hdw, hv, hdl, hi, ha⟩ => Makes.pure ?_
    refine ⟨.publicKey k.readAs, d, rfl, .publicKeySessionKey hw, hdw, ?_, ?_⟩
    · have := opens_of_gives hp (hv ▸ hgives) hi (ha _ _ hsuits)
      rwa [layer, source, hrec, he]
    · simp [bodyLengths, hpass, hrec, Packet.body, hl, hdl, hkeySize]

end Encryption

end OpenPGP
