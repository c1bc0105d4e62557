import OpenPGP.Proofs.Trials
/-!
# What opening a layer proves

A content comes out of encrypted data only if all of the data was authentic:
`Authentic` says what that means for either version. The trials for a session
key do not weaken it. Whichever trial succeeds, and whatever quick check came
before, the content it gives is that of a full decryption under a cipher the
policy accepts.

Results:
* `EncryptedData.authentic_of_decrypt`: content is given out only if all of it was authentic.
* `EncryptedData.decrypt_of_resolveBy`: so is the content of a layer whose key was found.
* `EncryptedData.publicKey_of_resolveBy`: a key that opened a layer is of an accepted algorithm.
-/
namespace OpenPGP

open Crypto Protection

/-! ## Authentic content -/

/-- What the content of encrypted data is, when nothing of the data was changed. -/
inductive Authentic (algorithm : SymmetricAlgorithm) (key : Octets) : EncryptedData → Octets → Prop
  /-- Version 1: at the end stands the code of everything before it. -/
  | coded {body front : Octets} {block : Nat} (hb : algorithm.blockSize = some block)
      (hd : CipherFeedback.decrypt algorithm key body =
        .ok (front ++ codeHeader ++ modificationCode (front ++ codeHeader))) :
      Authentic algorithm key (.v1 body) (front.drop (block + 2))
  /-- Version 2: every chunk opens under its number, the tag at the end under the next one and over the
  length of all content. -/
  | chunked {mode : AeadAlgorithm} {chunkSize : UInt8} {salt : Octets.Sized 32} {tag : Octets}
      {c : ChunkedAead} {sealed contents : List Octets}
      (hc : ChunkedAead.deriveSized algorithm mode chunkSize salt.val key = .ok c)
      (ht : tag.length = ChunkedAead.tagLength) (hl : sealed.length = contents.length)
      (hs : ∀ i chunk, sealed[i]? = some chunk →
        ∃ content, contents[i]? = some content ∧ c.openChunk i chunk = .ok content)
      (hf : c.openFinal sealed.length contents.flatten.length tag = .ok ()) :
      Authentic algorithm key (.v2 algorithm mode chunkSize salt (sealed.flatten ++ tag))
        contents.flatten

/-- Data whose code is right is its front, the header and the code of both. -/
theorem Protection.withoutCode_eq_ok {block : Nat} {data content : Octets}
    (h : withoutCode block data = .ok content) :
    ∃ front, data = front ++ codeHeader ++ modificationCode (front ++ codeHeader) ∧
      content = front.drop (block + 2) := by
  simp only [withoutCode] at h
  split at h
  · cases h
  · next hheader =>
    split at h
    · cases h
    · next hcode =>
      cases h
      have hheader := Decidable.not_not.mp hheader
      have hcode := Decidable.not_not.mp hcode
      refine ⟨data.take (data.length - codeLength), ?_, rfl⟩
      rw [List.take_add, hheader] at hcode
      calc data
          = data.take (data.length - codeLength) ++ ((data.drop (data.length - codeLength)).take 2 ++
              (data.drop (data.length - codeLength)).drop 2) := by simp only [List.take_append_drop]
        _ = _ := by rw [hheader, hcode, List.append_assoc]

theorem Protection.decryptWithCode_eq_ok {algorithm : SymmetricAlgorithm} {key body content : Octets}
    (h : decryptWithCode algorithm key body = .ok content) :
    Authentic algorithm key (.v1 body) content := by
  obtain ⟨block, hb, h⟩ := Except.bind_eq_ok.mp h
  have hb := Except.mapError_eq_ok.mp hb
  dsimp only at h
  split at h
  · cases h
  obtain ⟨data, hd, h⟩ := Except.bind_eq_ok.mp h
  obtain ⟨front, rfl, rfl⟩ := withoutCode_eq_ok (Except.mapError_eq_ok.mp h)
  refine .coded ?_ (Except.mapError_eq_ok.mp hd)
  unfold blockSizeOf at hb
  split at hb
  · next size hsize => cases hb; exact hsize
  · cases hb

namespace Protection.ChunkedAead

/-- Chunks whose contents come out open one by one, each under its number. -/
theorem openFrom_eq_ok {c : ChunkedAead} {index : Nat} {sealed : List Octets} {content : Octets}
    (h : c.openFrom index sealed = .ok content) :
    ∃ contents : List Octets, content = contents.flatten ∧ sealed.length = contents.length ∧
      ∀ i chunk, sealed[i]? = some chunk →
        ∃ content, contents[i]? = some content ∧ c.openChunk (index + i) chunk = .ok content := by
  induction sealed generalizing index content with
  | nil =>
    cases h
    exact ⟨[], rfl, rfl, fun i chunk hi => by simp at hi⟩
  | cons chunk sealed ih =>
    unfold openFrom at h
    split at h
    · cases h
    · obtain ⟨first, hfirst, h⟩ := Except.bind_eq_ok.mp h
      have hfirst := Except.mapError_eq_ok.mp hfirst
      obtain ⟨rest, hrest, h⟩ := Except.bind_eq_ok.mp h
      cases h
      obtain ⟨contents, rfl, hlength, hopen⟩ := ih hrest
      refine ⟨first :: contents, rfl, by simp [hlength], fun i chunk' hi => ?_⟩
      cases i with
      | zero =>
        obtain rfl : chunk = chunk' := by simpa using hi
        exact ⟨first, rfl, hfirst⟩
      | succ i =>
        obtain ⟨content, hcontent, hc⟩ := hopen i chunk' (by simpa using hi)
        refine ⟨content, by simpa using hcontent, ?_⟩
        rwa [Nat.add_right_comm] at hc

theorem decrypt_eq_ok {algorithm : SymmetricAlgorithm} {mode : AeadAlgorithm} {chunkSize : UInt8}
    {salt : Octets.Sized 32} {key body content : Octets} {c : ChunkedAead}
    (hc : deriveSized algorithm mode chunkSize salt.val key = .ok c)
    (h : c.decrypt body = .ok content) :
    Authentic algorithm key (.v2 algorithm mode chunkSize salt body) content := by
  unfold decrypt at h
  dsimp only at h
  split at h
  · cases h
  next hshort =>
  have hlong : tagLength ≤ body.length := Nat.le_of_not_lt hshort
  obtain ⟨content', hopen, h⟩ := Except.bind_eq_ok.mp h
  obtain ⟨⟨⟩, hfinal, h⟩ := Except.bind_eq_ok.mp h
  cases h
  obtain ⟨contents, rfl, hlength, hchunks⟩ := openFrom_eq_ok hopen
  have hbody : (c.chunks body).flatten ++ body.drop (body.length - tagLength) = body := by
    rw [chunks, Octets.flatten_pieces (by simp [tagLength]), List.take_append_drop]
  have htag : (body.drop (body.length - tagLength)).length = tagLength := by
    rw [List.length_drop]
    omega
  have := Authentic.chunked hc htag hlength (by simpa using hchunks)
    (Except.mapError_eq_ok.mp hfinal)
  rwa [hbody] at this

end Protection.ChunkedAead

namespace EncryptedData

/-- **Nothing is given out unchecked.** A content that is given out is authentic. Version 2 data names
its cipher itself. -/
theorem authentic_of_decrypt {d : EncryptedData} {algorithm : SymmetricAlgorithm}
    {key content : Octets} (h : d.decrypt ⟨some algorithm, key⟩ = .ok content)
    (hd : ∀ named mode chunkSize salt body, d = .v2 named mode chunkSize salt body →
      named = algorithm) : Authentic algorithm key d content := by
  cases d with
  | v1 body => exact decryptWithCode_eq_ok h
  | v2 named mode chunkSize salt body =>
    obtain rfl := hd named mode chunkSize salt body rfl
    obtain ⟨c, hc, h⟩ := Except.bind_eq_ok.mp h
    exact ChunkedAead.decrypt_eq_ok (Except.mapError_eq_ok.mp hc) h

end EncryptedData

/-! ## Trials -/

namespace Resolution

theorem cipherFor_v2 {named algorithm : SymmetricAlgorithm} {mode : AeadAlgorithm}
    {chunkSize : UInt8} {salt : Octets.Sized 32} {body : Octets} {candidate : Candidate}
    (h : cipherFor (.v2 named mode chunkSize salt body) candidate = .ok algorithm) :
    named = algorithm := by
  obtain ⟨algorithm', octets, authenticated⟩ := candidate
  cases algorithm' with
  | none => cases h; rfl
  | some other =>
    simp only [cipherFor] at h
    split at h
    · next hn => cases h; exact hn.symm
    · cases h

theorem accept_eq_ok {policy : Policy} {d : EncryptedData} {source : KeySource}
    {candidate : Candidate} {r : ResolvedKey} (h : accept policy d source candidate = .ok r) :
    r.source = source ∧ policy.acceptsSymmetric r.algorithm = true ∧
      d.decrypt ⟨some r.algorithm, candidate.octets⟩ = .ok r.plaintext ∧
      Authentic r.algorithm candidate.octets d r.plaintext := by
  obtain ⟨algorithm, plaintext, hadmitted, hd, rfl⟩ := accept_eq_ok_iff.mp h
  refine ⟨rfl, hadmitted.accepted, hd, EncryptedData.authentic_of_decrypt hd ?_⟩
  rintro named mode chunkSize salt body rfl
  exact cipherFor_v2 hadmitted.cipher

theorem Trial.run_eq_ok {policy : Policy} {d : EncryptedData} {trial : Trial} {r : ResolvedKey}
    (h : trial.run policy d = .ok r) : ∃ packet source unlocking candidate,
      trial = .attempt packet source unlocking ∧ unlocking.candidate policy = .ok candidate ∧
      accept policy d source candidate = .ok r := by
  cases trial with
  | hopeless packet failure => cases h
  | attempt packet source unlocking =>
    obtain ⟨candidate, hcandidate, h⟩ := Except.bind_eq_ok.mp h
    exact ⟨packet, source, unlocking, candidate, rfl, hcandidate, h⟩

theorem decryptWith_eq_ok {policy : Policy} {packet : PublicKeySessionKey} {key : DecryptionKey}
    {candidate : Candidate} (h : decryptWith policy packet key = .ok candidate) :
    policy.acceptsPublicKey packet.algorithm = true ∧ key.algorithm = packet.algorithm := by
  unfold decryptWith at h
  dsimp only at h
  split at h
  · cases h
  next hpolicy =>
  split at h
  · cases h
  next halgorithm => exact ⟨by simpa using hpolicy, Decidable.not_not.mp halgorithm⟩

/-- A trial in the name of a key decrypts a key packet of the layer with that key. -/
theorem publicKey_of_mem_trials {credentials : CredentialProvider} {packets : List KeyPacket}
    {version : UInt8} {index : Option Nat} {fingerprint : Fingerprint} {unlocking : Unlocking}
    (h : .attempt index (.publicKey fingerprint) unlocking ∈ trials credentials packets version) :
    ∃ packet key, .publicKey packet ∈ packets ∧ key ∈ keysFor credentials packet ∧
      key.fingerprint = fingerprint ∧ unlocking = .decryption packet key := by
  obtain ⟨_, _, -, ⟨⟩⟩ | ⟨_, _, _, hnames, ⟨⟩⟩ := mem_trials h
  cases hnames with
  | publicKey hp _ hkey => exact ⟨_, _, hp, hkey, rfl, rfl⟩

end Resolution

/-- The content of a layer whose key was found is that of a full decryption under a cipher that is
accepted, whatever else was tried. -/
theorem EncryptedData.decrypt_of_resolveBy {d : EncryptedData} {policy : Policy}
    {credentials : CredentialProvider} {packets : List KeyPacket} {r : ResolvedKey}
    (h : d.resolveBy policy credentials packets = .ok r) :
    policy.acceptsSymmetric r.algorithm = true ∧
      ∃ key, d.decrypt ⟨some r.algorithm, key⟩ = .ok r.plaintext ∧
        Authentic r.algorithm key d r.plaintext := by
  obtain ⟨_, hruns⟩ := EncryptedData.runs_of_resolveBy_eq_ok h
  obtain ⟨trial, -, hrun⟩ := hruns.exists_run
  obtain ⟨-, source, -, candidate, -, -, ha⟩ := Resolution.Trial.run_eq_ok hrun
  obtain ⟨-, hp, hd, hauth⟩ := Resolution.accept_eq_ok ha
  exact ⟨hp, candidate.octets, hd, hauth⟩

/-- A layer that was opened with a key was opened by a key packet in front of it, and both are of an
algorithm that is accepted. -/
theorem EncryptedData.publicKey_of_resolveBy {d : EncryptedData} {policy : Policy}
    {credentials : CredentialProvider} {packets : List KeyPacket} {r : ResolvedKey}
    {fingerprint : Fingerprint} (h : d.resolveBy policy credentials packets = .ok r)
    (hs : r.source = .publicKey fingerprint) : ∃ packet key, .publicKey packet ∈ packets ∧
      key ∈ Resolution.keysFor credentials packet ∧ key.fingerprint = fingerprint ∧
      key.algorithm = packet.algorithm ∧ policy.acceptsPublicKey packet.algorithm = true := by
  obtain ⟨_, hruns⟩ := EncryptedData.runs_of_resolveBy_eq_ok h
  obtain ⟨trial, htrial, hrun⟩ := hruns.exists_run
  obtain ⟨index, source, unlocking, candidate, rfl, hcandidate, ha⟩ :=
    Resolution.Trial.run_eq_ok hrun
  obtain rfl : source = .publicKey fingerprint := (Resolution.accept_eq_ok ha).1.symm.trans hs
  obtain ⟨packet, key, hpacket, hkey, hfingerprint, rfl⟩ :=
    Resolution.publicKey_of_mem_trials htrial
  obtain ⟨hpolicy, halgorithm⟩ := Resolution.decryptWith_eq_ok hcandidate
  exact ⟨packet, key, hpacket, hkey, hfingerprint, halgorithm, hpolicy⟩

end OpenPGP
