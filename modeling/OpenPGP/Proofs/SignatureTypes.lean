import OpenPGP.Proofs.Composition
import OpenPGP.Proofs.Requirements
/-!
# What is reported of signatures

Behind a message that was read to its end, the metadata holds one result for every
signature of every layer, over all of the literal data, however it was asked for.

The type of a signature says what it was made for: documents, and also user IDs, keys
or other signatures. None of the requirements on a signature asks which of them it is.
The type must be the announced one, it says how the data is hashed, and the trailer
names it. So a signature is reported by the type it was made with and by no other; but
a signature that is not for documents verifies like those that are, if it was made over
the octets of the data.

Results:
* `VerificationContext.holdsFor_of_requirements`: a key that may sign has signed the data and the type.
* `SigningContext.readMessage_signed`: a message with one signature, of any type, which verifies.
* `MessageReader.verifications_of_finish`: which results metadata holds, and in which order.
* `MessageReader.signature_types_of_finish`: what each of them says of the type of its signature.
* `readMessage_certification`: one that certifies a user ID.
-/
namespace OpenPGP

open Crypto

/-! ## The type among the requirements -/

/-- A key that may sign accepts the signature over data: over the hash of the data as the type of the
signature takes it, followed by the trailer, which names the type. -/
def VerificationContext.HoldsFor (c : VerificationContext) (s : Signature)
    (announcement : Option OnePassSignature) (data : Octets) : Prop :=
  ∃ key f, c.IsSigner s announcement key ∧ key.flags.canSign = true ∧
    HashFunction.ofAlgorithm? s.hashAlgorithm = some f ∧
    key.verify s.hashAlgorithm (f.hash (SignatureHasher.taken s.type data ++ s.hashTrailer)) s.material = .ok ()

/-- What a signature over some data must fulfil, whatever is announced. -/
def VerificationContext.requirementsOver (c : VerificationContext) (s : Signature)
    (announcement : Option OnePassSignature) (data : Octets) : List Requirement :=
  c.requirements s (SignatureHasher.covering s.hashAlgorithm s.type data) announcement

namespace VerificationContext

variable {c : VerificationContext} {s : Signature} {hasher : Option SignatureHasher}
  {announcement : Option OnePassSignature} {data : Octets}

/-- A signature that verifies is of the announced kind. -/
theorem announced_of_requirements (h : ∀ r ∈ c.requirements s hasher announcement, r.holds) :
    ∀ a ∈ announcement, a.type = s.type ∧ a.hashAlgorithm = s.hashAlgorithm ∧
      a.publicKeyAlgorithm = s.publicKeyAlgorithm :=
  h _ (List.mem_append_left _ List.mem_cons_self)

/-- It is all the same whether the announcement or the signature says how the data is hashed: where they
differ, no signature verifies. -/
theorem requirements_announced_iff {a : OnePassSignature} :
    (∀ r ∈ c.requirements s (SignatureHasher.covering a.hashAlgorithm a.type data) (some a), r.holds) ↔
      ∀ r ∈ c.requirementsOver s (some a) data, r.holds := by
  constructor
  · intro h
    obtain ⟨htype, hhash, -⟩ := announced_of_requirements h a rfl
    rwa [htype, hhash] at h
  · intro h
    obtain ⟨htype, hhash, -⟩ := announced_of_requirements h a rfl
    rwa [htype, hhash]

/-- Where all requirements hold, a key that may sign accepts the signature over the data. -/
theorem holdsFor_of_requirements (h : ∀ r ∈ c.requirementsOver s announcement data, r.holds) :
    c.HoldsFor s announcement data := by
  obtain ⟨hbefore, htimes⟩ := List.forall_mem_append.mp h
  obtain ⟨-, hbefore⟩ := List.forall_mem_append.mp hbefore
  obtain ⟨⟨key, hsigner⟩, hbefore⟩ := List.forall_mem_cons.mp hbefore
  obtain ⟨hsign, -⟩ := List.forall_mem_cons.mp hbefore
  have hverify := htimes _ (List.mem_of_getLast? rfl)
  have hkey := isSigner_iff.mp hsigner
  obtain ⟨hasher, hcover, hvalid⟩ := (exists_isSigner_iff hkey).mp hverify
  have hfinish := SignatureHasher.finish_covering s.hashAlgorithm s.type data s.hashTrailer
  rw [hcover, Option.map_some] at hfinish
  obtain ⟨f, hf, hdigest⟩ := Option.map_eq_some_iff.mp hfinish.symm
  exact ⟨key, f, hsigner, (exists_isSigner_iff hkey).mp hsign, hf, hdigest ▸ hvalid⟩

end VerificationContext

/-! ## Signatures of any type -/

/-- Literal data with an announcement in front and its signature behind. -/
def SigningContext.packets (c : SigningContext) (p : LiteralData) : List Packet :=
  [.onePassSignature c.announcement, .literalData p, .signature (c.signed p.body)]

theorem SigningContext.lengths_packets {c : SigningContext} (hg : c.signer.Genuine c.created)
    (p : LiteralData) : (c.packets p).map (·.body.length) =
      [13, p.encode.length, 113 + (c.lifetime.map fun _ => 6).getD 0] := by
  simp [packets, Packet.body, OnePassSignature.encode, announcement, signed, length_signature hg,
    c.signer.key.fingerprint.keyId.property]

/-- **A signature of any type verifies over literal data**: what a signer makes of the data under the
type. The type need not be one of a document. -/
theorem SigningContext.readMessage_signed {o : ReadingContext} {c : SigningContext}
    (hv : c.KnownTo o.verifier) (hg : c.signer.Genuine c.created) (hc : c.type.IsCanonical)
    {p : LiteralData} (hf : p.filename.length ≤ 255)
    (ht : o.restrictions.Takes ((c.packets p).map (·.body.length))) :
    ∃ message m, Packet.encodeAll (c.packets p) = .ok message ∧
      readMessage o message = .ok (p.body, m) ∧ m.signatures = [c.outcome p.body .onePass] := by
  have hsigned : (c.signed p.body).WellFormed := wellFormed_signature hg hc _ _
  have hreads := (Draft.Reads.literal (o := o) p hf).signed (isCanonical_announcement hc) hsigned
  obtain ⟨message, hmessage, -, hreading⟩ := hreads.reading ht
  obtain ⟨m, hread, hroots⟩ :=
    readMessage_of_reading hv.decides hreading (Nat.succ_le_succ (Nat.zero_le _))
  refine ⟨message, m, hmessage, hread, ?_⟩
  rw [MessageMetadata.signatures, MessageMetadata.layers, hroots, LayerNode.signatures_nodes hreading]
  simpa [LayerRecord.verifications] using LayerRecord.verifySettled_signed hv hg p.body

theorem SigningContext.verified_outcome {c : SigningContext} {data : Octets} (h : c.nonce data ≠ 0)
    (placement : SignaturePlacement) : (c.outcome data placement).verified = true ∧
      (c.outcome data placement).failure = none := by
  simp [outcome, h]

/-- How a signer certifies a user ID. -/
def certifying : SigningContext := ⟨.ofSeed 1, .sha256, .ofCode 0x10, Environment.start, none⟩

/-- What is certified here is no user ID: it is literal data of one octet. -/
def certifiedData : LiteralData := ⟨.binary, [], Environment.start, [0x61]⟩

/-- The reader with the key of the signer. -/
def certifyingOptions : ReadingContext :=
  ReadingOptions.context ⟨.empty, ⟨[certifying.signer.key]⟩, .ofSeconds Environment.start, .standard⟩

theorem nonce_certifying : certifying.nonce [0x61] ≠ 0 := by decide +kernel

theorem genuine_certifying : certifying.signer.Genuine certifying.created :=
  Signer.genuine_ofSeed 1 (by decide)

theorem knownTo_certifying : certifying.KnownTo certifyingOptions.verifier where
  policy := rfl
  now := rfl
  certificate := Certificates.find?_fingerprint List.mem_cons_self fun k hk _ => List.mem_singleton.mp hk
  hash := by decide

/-- The data is read, and the certification over it is what its metadata holds. -/
theorem readMessage_certifying : ∃ message m,
    Packet.encodeAll (certifying.packets certifiedData) = .ok message ∧
    readMessage certifyingOptions message = .ok ([0x61], m) ∧
    m.signatures = [certifying.outcome [0x61] .onePass] := by
  have hc : certifying.type.IsCanonical := Identifier.isCanonical_ofCode 0x10
  have htakes : certifyingOptions.restrictions.Takes
      ((certifying.packets certifiedData).map (·.body.length)) := by
    rw [SigningContext.lengths_packets genuine_certifying]
    decide
  exact SigningContext.readMessage_signed knownTo_certifying genuine_certifying hc (by decide) htakes

/-! ## Results -/

/-- **Every signature, once.** A reader of any source that gave out its metadata, after any requests,
has read a chain of layers down to one literal packet and given out its data. The metadata holds,
innermost layer first, the results of the signatures behind the data of each layer, checked against the
announcements its derivation pairs them with, and then of those in front of the data. These are all
signatures of the layer, and all its announcements are paired. The hash is one over all of the data, as
the announced type or the signature's takes it, and the trailer of the signature. -/
theorem MessageReader.verifications_of_finish {o : ReadingContext} {source : PacketSource}
    {r r' : MessageReader o} {out : Octets} {m : MessageMetadata} (h : Reaches o source r out)
    (e : r.finish = (.ok m, r')) :
    ∃ layers p, Reading o source layers p ∧ out = p.body ∧
      m.signatures = layers.reverse.flatMap (LayerRecord.verifications o.verifier p.body) ∧
      (∀ l ∈ layers, l.IsMessage ∧ l.signatures = l.preceding ++ l.settled.map Prod.snd ∧
        l.announcements = (l.settled.map Prod.fst).reverse) ∧
      ∀ algorithm type trailer,
        (SignatureHasher.covering algorithm type p.body).map (fun h => h.finish trailer) =
          (HashFunction.ofAlgorithm? algorithm).map fun f =>
            f.hash (SignatureHasher.taken type p.body ++ trailer) := by
  obtain ⟨-, hfinish⟩ := h.holds.finish
  obtain ⟨layers, p, hread, hout, hroots⟩ := hfinish m (by rw [e])
  refine ⟨layers, p, hread, hout, ?_, fun l hl => ?_, fun algorithm type trailer => ?_⟩
  · have := LayerNode.signatures_nodes hread o.verifier p.body
    rwa [← hroots] at this
  · have hm := hread.isMessage l hl
    exact ⟨hm, LayerRecord.signatures_eq hm, LayerRecord.announcements_eq hm⟩
  · exact SignatureHasher.finish_covering algorithm type p.body trailer

/-- The certification, announced and in front of the data as well. -/
def certifiedTwice : List Packet :=
  .signature (certifying.signed [0x61]) :: certifying.packets certifiedData

/-- What is read of it: one layer with one signature behind the data and one in front. -/
def certifiedLayer : LayerRecord :=
  ⟨certifiedTwice, [], .literalData certifiedData, .literal (.ofPacket certifiedData),
    [(certifying.announcement, certifying.signed [0x61])], [certifying.signed [0x61]]⟩

theorem reading_certifiedTwice :
    Reading certifyingOptions (.packets certifiedTwice) [certifiedLayer] certifiedData := by
  have hannounced : Message Packet.symbol? _ _ := .onePass (a := .onePassSignature certifying.announcement)
    (s := .signature (certifying.signed [0x61])) rfl rfl (.literal (d := .literalData certifiedData) rfl)
  have hmessage := Message.preceding (s := .signature (certifying.signed [0x61])) rfl hannounced
  exact .literal (.snoc (.snoc (.snoc (.snoc (.nil _) rfl) rfl) rfl) rfl) rfl hmessage rfl rfl

theorem verifications_certifiedLayer : certifiedLayer.verifications certifyingOptions.verifier [0x61] =
    [certifying.outcome [0x61] .onePass, certifying.outcome [0x61] .preceding] := by
  rw [LayerRecord.verifications, certifiedLayer, List.map_singleton, List.map_singleton,
    LayerRecord.verifySettled_signed knownTo_certifying genuine_certifying,
    LayerRecord.verifyPreceding_signed knownTo_certifying genuine_certifying]
  rfl

/-- Both signatures are in the metadata, and both verified. -/
theorem MessageReader.verifications_of_certifiedTwice :
    ∃ r m r', Reaches certifyingOptions (.packets certifiedTwice) r [0x61] ∧ r.finish = (.ok m, r') ∧
      (∃ layers p, Reading certifyingOptions (.packets certifiedTwice) layers p ∧ [0x61] = p.body ∧
        m.signatures = layers.reverse.flatMap
          (LayerRecord.verifications certifyingOptions.verifier p.body)) ∧
      m.signatures = [certifying.outcome [0x61] .onePass, certifying.outcome [0x61] .preceding] ∧
      ∀ v ∈ m.signatures, v.verified = true := by
  have hdepth : [certifiedLayer].length ≤ certifyingOptions.maxLayers := by decide
  obtain ⟨r, m, r', hreach, hfinish⟩ :=
    (Delivers.of_start knownTo_certifying.decides reading_certifiedTwice hdepth).exists_finish
  obtain ⟨layers, p, hread, hout, hsignatures, -⟩ := verifications_of_finish hreach hfinish
  have hboth : m.signatures = [certifying.outcome [0x61] .onePass, certifying.outcome [0x61] .preceding] := by
    have hnodes := (hread.readsAs.unique reading_certifiedTwice.readsAs).2
    rw [hsignatures, ← LayerNode.signatures_nodes hread, hnodes,
      LayerNode.signatures_nodes reading_certifiedTwice, ← verifications_certifiedLayer]
    exact List.append_nil _
  refine ⟨r, m, r', hreach, hfinish, ⟨layers, p, hread, hout, hsignatures⟩, hboth, ?_⟩
  rw [hboth]
  intro v hv
  obtain rfl | rfl : v = certifying.outcome [0x61] .onePass ∨ v = certifying.outcome [0x61] .preceding := by
    simpa using hv
  · exact (SigningContext.verified_outcome nonce_certifying .onePass).1
  · exact (SigningContext.verified_outcome nonce_certifying .preceding).1

/-- What the result of checking a signature over some data says. -/
structure SignatureVerification.Reports (x : SignatureVerification) (c : VerificationContext)
    (s : Signature) (announcement : Option OnePassSignature) (data : Octets) : Prop where
  type : x.type = s.type
  verified : x.verified = true ↔ ∀ r ∈ c.requirementsOver s announcement data, r.holds
  failure : x.failure = none ↔ x.verified = true

theorem VerificationContext.reports_verify {c : VerificationContext} {s : Signature}
    {hasher : Option SignatureHasher} {announcement : Option OnePassSignature}
    {placement : SignaturePlacement} {data : Octets}
    (hv : (c.verify s hasher announcement placement).hasOverflowed = false)
    (h : (∀ r ∈ c.requirements s hasher announcement, r.holds) ↔
      ∀ r ∈ c.requirementsOver s announcement data, r.holds) :
    (c.verify s hasher announcement placement).Reports c s announcement data where
  type := rfl
  verified := verified_iff.trans ((checks_of_hasOverflowed hv).eq_ok_iff.trans h)
  failure := failure_eq_none_iff.trans verified_iff.symm

/-- What a signature of a layer is paired with: the announcement it settles, or nothing if it stands in
front of the data. -/
def LayerRecord.Pairs (l : LayerRecord) (s : Signature) : Option OnePassSignature → Prop
  | some a => (a, s) ∈ l.settled
  | none => s ∈ l.preceding

theorem LayerRecord.mem_of_pairs {l : LayerRecord} {s : Signature} {announcement : Option OnePassSignature}
    (hm : l.IsMessage) (h : l.Pairs s announcement) :
    s ∈ l.signatures ∧ ∀ a ∈ announcement, a ∈ l.announcements := by
  rw [signatures_eq hm, announcements_eq hm]
  cases announcement with
  | none => exact ⟨List.mem_append_left _ h, fun a ha => absurd ha (Option.not_mem_none a)⟩
  | some a =>
    refine ⟨List.mem_append_right _ (List.mem_map_of_mem h), ?_⟩
    rintro _ ⟨⟩
    exact List.mem_reverse.mpr (List.mem_map_of_mem h)

theorem LayerRecord.reports_of_mem_verifications {v : VerificationContext} {data : Octets} {l : LayerRecord}
    {x : SignatureVerification} (h : x ∈ l.verifications v data) (hx : x.hasOverflowed = false) :
    ∃ s announcement, l.Pairs s announcement ∧ x.Reports v s announcement data := by
  obtain ⟨a, s, hpair, rfl⟩ | ⟨s, hs, rfl⟩ := mem_verifications_iff.mp h
  · exact ⟨s, some a, hpair,
      VerificationContext.reports_verify hx VerificationContext.requirements_announced_iff⟩
  · exact ⟨s, none, hs, VerificationContext.reports_verify hx Iff.rfl⟩

/-- **The type that is reported is the type that was signed.** Every signature in the metadata of a
message that was read is a signature packet of one of its layers, reported by the type of the packet:
one behind the data with the announcement that the derivation of the layer pairs it with, or one in front
of the data with none. If it verified, this announcement names the same type, and a key that may sign
accepts it over the literal data, hashed as this type takes it, and a trailer that names this type. Of
whatever type it is, it verified if all requirements hold, and otherwise it has a failure. -/
theorem MessageReader.signature_types_of_finish {o : ReadingContext} {source : PacketSource}
    {r r' : MessageReader o} {out : Octets} {m : MessageMetadata} (h : Reaches o source r out)
    (e : r.finish = (.ok m, r')) :
    ∃ layers p, Reading o source layers p ∧ out = p.body ∧ ∀ x ∈ m.signatures,
      ∃ l ∈ layers, l.IsMessage ∧ ∃ s announcement, l.Pairs s announcement ∧
        (s ∈ l.signatures ∧ ∀ a ∈ announcement, a ∈ l.announcements) ∧
        x.type = s.type ∧
        (x.verified = true ↔ ∀ q ∈ o.verifier.requirementsOver s announcement out, q.holds) ∧
        (x.failure = none ↔ x.verified = true) ∧
        (x.verified = true → (∀ a ∈ announcement, a.type = x.type) ∧
          o.verifier.HoldsFor s announcement out) := by
  obtain ⟨-, hfinish⟩ := h.holds.finish
  obtain ⟨layers, p, hread, rfl, hroots⟩ := hfinish m (by rw [e])
  refine ⟨layers, p, hread, rfl, fun x hx => ?_⟩
  have hdecided : x.hasOverflowed = false := Decided.signatures_of_finish h e x hx
  rw [MessageMetadata.signatures, MessageMetadata.layers, hroots, LayerNode.signatures_nodes hread] at hx
  obtain ⟨l, hl, hx⟩ := List.mem_flatMap.mp hx
  rw [List.mem_reverse] at hl
  have hm := hread.isMessage l hl
  obtain ⟨s, announcement, hpair, hreports⟩ := LayerRecord.reports_of_mem_verifications hx hdecided
  refine ⟨l, hl, hm, s, announcement, hpair, LayerRecord.mem_of_pairs hm hpair, hreports.type,
    hreports.verified, hreports.failure, fun hv => ?_⟩
  have hall := hreports.verified.mp hv
  refine ⟨fun a ha => ?_, VerificationContext.holdsFor_of_requirements hall⟩
  rw [hreports.type]
  exact (VerificationContext.announced_of_requirements hall a ha).1

/-- It reads a certification over the octet of literal data: announced as one, and signed as one. -/
theorem MessageReader.signature_types_of_certifying : ∃ source r r' m,
    Reaches certifyingOptions source r [0x61] ∧ r.finish = (.ok m, r') ∧
    ∃ x ∈ m.signatures, x.verified = true ∧ ∃ layers : List LayerRecord, ∃ l ∈ layers, ∃ s announcement,
      l.Pairs s announcement ∧ x.type = s.type ∧ (∀ a ∈ announcement, a.type = x.type) ∧
        certifyingOptions.verifier.HoldsFor s announcement [0x61] := by
  obtain ⟨message, m, -, hread, hsignatures⟩ := readMessage_certifying
  obtain ⟨r, r', hreach, hfinish⟩ := readMessage_eq_ok hread
  have hx : certifying.outcome [0x61] .onePass ∈ m.signatures := hsignatures ▸ List.mem_singleton_self _
  have hverified := (SigningContext.verified_outcome nonce_certifying .onePass).1
  obtain ⟨layers, p, -, -, htypes⟩ := signature_types_of_finish hreach hfinish
  obtain ⟨l, hl, -, s, announcement, hpair, -, htype, -, -, hholds⟩ := htypes _ hx
  obtain ⟨hannounced, hholds⟩ := hholds hverified
  exact ⟨_, r, r', m, hreach, hfinish, _, hx, hverified, layers, l, hl, s, announcement, hpair, htype,
    hannounced, hholds⟩

/-- **Not only the signatures of documents verify**: the certification of a user ID does, over literal
data. -/
theorem readMessage_certification : ∃ message m,
    Packet.encodeAll (certifying.packets certifiedData) = .ok message ∧
    readMessage certifyingOptions message = .ok ([0x61], m) ∧
    ∃ x ∈ m.signatures, x.verified = true ∧ x.failure = none ∧ x.type = .ofCode 0x10 ∧
      x.type ≠ .binary ∧ x.type ≠ .text := by
  obtain ⟨message, m, hmessage, hread, hsignatures⟩ := readMessage_certifying
  obtain ⟨hverified, hfailure⟩ := SigningContext.verified_outcome nonce_certifying .onePass
  refine ⟨message, m, hmessage, hread, certifying.outcome [0x61] .onePass,
    hsignatures ▸ List.mem_singleton_self _, hverified, hfailure, rfl, ?_, ?_⟩
  · exact show .ofCode 0x10 ≠ SignatureType.binary by decide
  · exact show .ofCode 0x10 ≠ SignatureType.text by decide

end OpenPGP
