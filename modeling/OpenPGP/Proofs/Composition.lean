import OpenPGP.Proofs.Layering
import OpenPGP.Proofs.Texts
/-!
# Composed messages are read

A message is composed of literal data by any number of steps: signing around it or in
front of it, compressing and encrypting. Whoever has the passphrase or the key it was
encrypted for, and the keys of the signers, reads it: the body comes out as it went in,
every signing step left one result, and the containers are those of the steps in
reverse. The encoder for what is compressed may be any that loses nothing, so how long
everything gets is known only along the way; with stored blocks it is a function of the
steps, and the limits of the reader can be told beforehand.

Results:
* `Draft.wrap_makes`: what one step keeps.
* `Draft.wrapAll_reads`: so do all steps, one after the other.
* `Draft.keepsLimits_stored`: stored blocks keep limits that are told beforehand.
* `readMessage_message`: a composed message is read.
-/
namespace OpenPGP

open Crypto Composing

theorem Crypto.HashFunction.exists_of_acceptsHash {a : HashAlgorithm}
    (h : Policy.standard.acceptsHash a = true) : ∃ f, ofAlgorithm? a = some f := by
  have hcases : a = .sha224 ∨ a = .sha256 ∨ a = .sha384 ∨ a = .sha512 := by
    simpa [Policy.acceptsHash, Policy.standard] using h
  obtain rfl | rfl | rfl | rfl := hcases <;> exact ⟨_, rfl⟩

theorem isCanonical_of_acceptsCompression {a : CompressionAlgorithm}
    (h : Policy.standard.acceptsCompression a = true) : a.IsCanonical := by
  have hcases : a = .uncompressed ∨ a = .zip ∨ a = .zlib := by
    simpa [Policy.acceptsCompression, Policy.standard] using h
  obtain rfl | rfl | rfl := hcases <;> exact Identifier.isCanonical_registered _ _

namespace LayerRecord

variable {v : VerificationContext} {c : SigningContext}

theorem verifySettled_signed (hv : c.KnownTo v) (h : c.signer.Genuine c.created) (data : Octets) :
    verifySettled v data (c.announcement, c.signed data) = c.outcome data .onePass :=
  SigningContext.verify_signed hv h data (fun _ ha => (Option.mem_some.mp ha).symm) .onePass

theorem verifyPreceding_signed (hv : c.KnownTo v) (h : c.signer.Genuine c.created) (data : Octets) :
    verifyPreceding v data (c.signed data) = c.outcome data .preceding :=
  SigningContext.verify_signed hv h data (fun _ ha => (Option.not_mem_none _ ha).elim) .preceding

end LayerRecord

/-! ## Steps -/

/-- A step of composing. -/
inductive Wrapping where
  /-- A signature that is announced in front of the data. -/
  | sign (signer : Signer) (parameters : SignatureParameters)
  /-- A signature in front of the data. -/
  | precede (signer : Signer)
  | compress (algorithm : CompressionAlgorithm)
  | encrypt (encryption : Encryption)

namespace Draft

/-- One step, with any encoder for what is compressed. -/
def wrap (z : Compressor) (d : Draft) : Wrapping → Composing Draft
  | .sign signer parameters => d.sign signer parameters
  | .precede signer => d.precede signer
  | .compress algorithm => do
    return { d with packets := [.compressedData (z.packet algorithm (← encoded d.packets))] }
  | .encrypt encryption => do return (← d.encrypt encryption).1

/-- The wire form of literal data behind some steps. -/
def message (z : Compressor) (filename : String) (format : LiteralFormat) (body : Octets)
    (steps : List Wrapping) : Composing Octets := do
  let d ← steps.foldlM (wrap z) (← literal filename format body)
  encoded d.packets

end Draft

namespace Wrapping

/-- The steps that are undone with a passphrase or the key of a recipient. Signatures are of a type that is
read as it is written, and are made by the clock with a hash that is accepted. -/
inductive Usable (passphrase : String) (recipient : Recipient) : Wrapping → Prop
  | sign (seed : UInt8) {parameters : SignatureParameters} (ht : parameters.type.IsCanonical)
      (hh : Policy.standard.acceptsHash parameters.hash = true) (hc : parameters.created = none) :
      Usable passphrase recipient (.sign (.ofSeed seed) parameters)
  | precede (seed : UInt8) : Usable passphrase recipient (.precede (.ofSeed seed))
  | compress {algorithm : CompressionAlgorithm}
      (h : Policy.standard.acceptsCompression algorithm = true) :
      Usable passphrase recipient (.compress algorithm)
  | encrypt {e : Encryption} (h : e.Usable passphrase recipient) :
      Usable passphrase recipient (.encrypt e)

/-! ## What is left of a step -/

/-- The signature that a step makes when the clock stands at a time. -/
def signature? (now : UInt32) : Wrapping → Option SigningContext
  | sign signer parameters => (HashFunction.ofAlgorithm? parameters.hash).map fun f =>
      ⟨signer, f, parameters.type, parameters.created.getD now, parameters.lifetime⟩
  | precede signer => some ⟨signer, .sha256, .binary, now, none⟩
  | _ => none

theorem signature?_sign {now : UInt32} {signer : Signer} {parameters : SignatureParameters}
    {c : SigningContext} (h : (sign signer parameters).signature? now = some c) :
    signer = c.signer ∧ parameters.hash = c.hash.algorithm ∧ parameters.type = c.type ∧
      c.created = parameters.created.getD now ∧ parameters.lifetime = c.lifetime := by
  obtain ⟨f, hf, rfl⟩ := Option.map_eq_some_iff.mp h
  exact ⟨rfl, HashFunction.algorithm_of_ofAlgorithm? hf, rfl, rfl, rfl⟩

def placement : Wrapping → SignaturePlacement
  | precede _ => .preceding
  | _ => .onePass

/-- What comes of checking the signature of a step. -/
def outcome? (now : UInt32) (data : Octets) (w : Wrapping) : Option SignatureVerification :=
  (w.signature? now).map fun c => c.outcome data w.placement

/-- The layer that a step puts around a message. -/
def layer? : Wrapping → Option Layer
  | compress algorithm => some (.compression algorithm)
  | encrypt e => some (.encryption e.layer)
  | _ => none

/-! ## Limits -/

/-- The lengths of the bodies of the outermost layer, from what they were before the step, with stored
blocks for what is compressed. -/
def bodyLengths (bodies : List Nat) : Wrapping → List Nat
  | sign _ parameters => 13 :: bodies ++ [113 + (parameters.lifetime.map fun _ => 6).getD 0]
  | precede _ => 113 :: bodies
  | compress algorithm => [algorithm.bodyLength (layerLength bodies) + 1]
  | encrypt e => e.bodyLengths (layerLength bodies)

/-- Whether a reader has to expand what the step makes. -/
def isCompression : Wrapping → Bool
  | compress _ => true
  | _ => false

/-- Bodies that keep the limits of a reader: each is within that of packets and, if they are compressed
next, all together within that of expanded layers. -/
def KeepLimits (r : Restrictions) (bodies : List Nat) (next : Option Wrapping) : Prop :=
  r.Takes bodies ∧ (next.any isCompression = true → layerLength bodies ≤ r.decompressedLength.toNat)

instance (r : Restrictions) (bodies : List Nat) : Decidable (r.Takes bodies) :=
  inferInstanceAs (Decidable (∀ n ∈ bodies, n ≤ Packet.maxBodyLength ∧ n ≤ r.packetLength.toNat))

instance (r : Restrictions) (bodies : List Nat) (next : Option Wrapping) :
    Decidable (KeepLimits r bodies next) :=
  inferInstanceAs (Decidable (r.Takes bodies ∧
    (next.any isCompression = true → layerLength bodies ≤ r.decompressedLength.toNat)))

/-- All bodies on the way keep the limits, with stored blocks for what is compressed. -/
def AllKeepLimits (r : Restrictions) : (bodies : List Nat) → List Wrapping → Prop
  | bodies, [] => KeepLimits r bodies none
  | bodies, w :: steps => KeepLimits r bodies (some w) ∧ AllKeepLimits r (w.bodyLengths bodies) steps

instance AllKeepLimits.decidable (r : Restrictions) (bodies : List Nat) :
    (steps : List Wrapping) → Decidable (AllKeepLimits r bodies steps)
  | [] => inferInstanceAs (Decidable (KeepLimits r bodies none))
  | w :: steps =>
    have := AllKeepLimits.decidable r (w.bodyLengths bodies) steps
    inferInstanceAs (Decidable (KeepLimits r bodies (some w) ∧
      AllKeepLimits r (w.bodyLengths bodies) steps))

end Wrapping

/-- All drafts on the way keep the limits of a reader, when the steps are taken in an environment. -/
def Draft.KeepsLimits (z : Compressor) (r : Restrictions) : List Wrapping → Draft → Environment → Prop
  | [], d, _ => Wrapping.KeepLimits r d.bodyLengths none
  | w :: steps, d, e => Wrapping.KeepLimits r d.bodyLengths (some w) ∧
      ∀ d' e', d.wrap z w e = .ok (d', e') → KeepsLimits z r steps d' e'

/-! ## The layers behind some steps -/

/-- What is recorded of some layers, the outermost first, is what is left of the steps that made them. -/
structure LayerRecord.Tell (v : VerificationContext) (now : UInt32) (data : Octets) (steps : List Wrapping)
    (layers : List LayerRecord) : Prop where
  containers : (layers.map LayerRecord.layer).filter Layer.isContainer =
    (steps.filterMap Wrapping.layer?).reverse
  depth : layers.length = (steps.filterMap Wrapping.layer?).length + 1
  outcomes : (layers.reverse.flatMap (LayerRecord.verifications v data)).Perm
    (steps.filterMap (Wrapping.outcome? now data))

namespace LayerRecord.Tell

variable {v : VerificationContext} {now : UInt32} {data : Octets} {steps : List Wrapping} {l l' : LayerRecord}
  {inner layers : List LayerRecord} {w : Wrapping}

theorem signing (h : Tell v now data steps (l :: inner)) (hl : l'.layer = l.layer)
    (hw : w.layer? = none) {s : SignatureVerification} (ho : w.outcome? now data = some s)
    (hp : (l'.verifications v data).Perm (l.verifications v data ++ [s])) :
    Tell v now data (steps ++ [w]) (l' :: inner) where
  containers := by simpa [hl, hw] using h.containers
  depth := by simpa [hw] using h.depth
  outcomes := by
    have hrest := h.outcomes
    rw [List.reverse_cons, List.flatMap_append, List.flatMap_singleton] at hrest ⊢
    rw [List.filterMap_append, List.filterMap_cons_some ho, List.filterMap_nil]
    refine (hp.append_left _).trans ?_
    rw [← List.append_assoc]
    exact hrest.append_right _

theorem container (h : Tell v now data steps layers) (hw : w.layer? = some l.layer)
    (hc : l.layer.isContainer = true) (ho : w.outcome? now data = none)
    (hv : l.verifications v data = []) : Tell v now data (steps ++ [w]) (l :: layers) where
  containers := by simp [hw, hc, h.containers]
  depth := by simp [hw, h.depth]
  outcomes := by simpa [hv, ho] using h.outcomes

end LayerRecord.Tell

/-- A draft reads as layers that tell the steps that made it. -/
def Draft.Tells (o : ReadingContext) (now : UInt32) (p : LiteralData) (steps : List Wrapping) (d : Draft) :
    Prop :=
  ∃ l inner, d.Reads o p l inner ∧ LayerRecord.Tell o.verifier now p.body steps (l :: inner)

/-- How a reader stands to a message: it has the passphrase and the key of the recipient and nothing else
to decrypt with, its clock is the one the message was composed by, and the signers of all steps are known
by their fingerprints. -/
structure ReadingContext.Know (o : ReadingContext) (now : UInt32) (passphrase : String) (recipient : Recipient)
    (steps : List Wrapping) : Prop where
  credentials : o.credentials = recipient.credentials passphrase
  policy : o.restrictions.policy = .standard
  clock : o.now = .ofSeconds now
  certificates : ∀ c ∈ steps.filterMap (Wrapping.signature? now),
    o.certificate? (.fingerprint c.signer.key.fingerprint) = some c.signer.key

theorem Certificates.find?_fingerprint {c : Certificates} {key : VerifyingKey} (hm : key ∈ c.keys)
    (hu : ∀ k ∈ c.keys, k.fingerprint = key.fingerprint → k = key) :
    c.find? (.fingerprint key.fingerprint) = some key := by
  have hmatch : (KeyIdentifier.fingerprint key.fingerprint).matchesFingerprint key.fingerprint = true :=
    KeyIdentifier.matches_self _
  cases h : c.find? (.fingerprint key.fingerprint) with
  | none => exact absurd hmatch (List.find?_eq_none.mp h key hm)
  | some k =>
    have hfound := List.find?_some h
    simp only [KeyIdentifier.matchesFingerprint, KeyIdentifier.matches, decide_eq_true_eq] at hfound
    rw [hu k (List.mem_of_find?_eq_some h) hfound.symm]

namespace Wrapping.Usable

variable {now : UInt32} {passphrase : String} {recipient : Recipient} {w : Wrapping} {c : SigningContext}

theorem created (h : w.Usable passphrase recipient) (hc : w.signature? now = some c) :
    c.created = now ∧ Policy.standard.acceptsHash c.hash.algorithm = true := by
  cases h with
  | sign seed ht hh hn =>
    obtain ⟨-, hhash, -, hcreated, -⟩ := signature?_sign hc
    exact ⟨by rw [hcreated, hn]; rfl, hhash ▸ hh⟩
  | precede seed =>
    cases hc
    exact ⟨rfl, show Policy.standard.acceptsHash .sha256 = true by decide⟩
  | compress => cases hc
  | encrypt => cases hc

theorem genuine (h : w.Usable passphrase recipient) (hnow : Environment.keysCreated ≤ now)
    (hc : w.signature? now = some c) : c.signer.Genuine c.created := by
  rw [(h.created hc).1]
  cases h with
  | sign seed =>
    obtain ⟨hsigner, -⟩ := signature?_sign hc
    exact hsigner ▸ Signer.genuine_ofSeed seed hnow
  | precede seed =>
    cases hc
    exact Signer.genuine_ofSeed seed hnow
  | compress => cases hc
  | encrypt => cases hc

end Wrapping.Usable

namespace ReadingContext.Know

variable {o : ReadingContext} {now : UInt32} {passphrase : String} {recipient : Recipient}
  {steps steps' : List Wrapping}

/-- With a minute of tolerance the checks of signatures come to results. -/
theorem decides (h : o.Know now passphrase recipient steps) : o.verifier.Decides := by
  apply VerificationContext.decides_of_clock
  change (o.now.after? o.restrictions.policy.clockSkew).isSome = true
  rw [h.clock, h.policy]
  exact SigningContext.isSome_after?_standard now

theorem mono (h : o.Know now passphrase recipient steps) (hs : steps' ⊆ steps) :
    o.Know now passphrase recipient steps' where
  credentials := h.credentials
  policy := h.policy
  clock := h.clock
  certificates := fun c hc => by
    obtain ⟨w, hw, hc⟩ := List.mem_filterMap.mp hc
    exact h.certificates c (List.mem_filterMap.mpr ⟨w, hs hw, hc⟩)

theorem knownTo (h : o.Know now passphrase recipient steps) {w : Wrapping}
    (hu : w.Usable passphrase recipient) (hw : w ∈ steps) {c : SigningContext}
    (hc : w.signature? now = some c) : c.KnownTo o.verifier where
  policy := h.policy
  now := by rw [(hu.created hc).1]; exact h.clock
  certificate := h.certificates c (List.mem_filterMap.mpr ⟨w, hw, hc⟩)
  hash := (hu.created hc).2

end ReadingContext.Know

namespace Draft

variable {o : ReadingContext} {now : UInt32} {p : LiteralData} {steps : List Wrapping} {d : Draft}
  {passphrase : String} {recipient : Recipient} {z : Compressor}

namespace Tells

theorem literal (p : LiteralData) (hf : p.filename.length ≤ 255) :
    Tells o now p [] ⟨[.literalData p], some p.body⟩ :=
  ⟨_, _, .literal p hf, rfl, rfl, .refl _⟩

theorem sign (h : d.Tells o now p steps) {signer : Signer} {parameters : SignatureParameters}
    (ht : parameters.type.IsCanonical) {c : SigningContext}
    (hc : (Wrapping.sign signer parameters).signature? now = some c)
    (hv : c.KnownTo o.verifier) (hg : c.signer.Genuine c.created) :
    Makes now (d.wrap z (.sign signer parameters)) fun d' =>
      Tells o now p (steps ++ [.sign signer parameters]) d' ∧
        d'.bodyLengths = Wrapping.bodyLengths d.bodyLengths (.sign signer parameters) := by
  obtain ⟨l, inner, hreads, htell⟩ := h
  have houtcome : (Wrapping.sign signer parameters).outcome? now p.body = some (c.outcome p.body .onePass) := by
    rw [Wrapping.outcome?, hc]
    rfl
  obtain ⟨hash, type, created, lifetime⟩ := parameters
  obtain ⟨rfl, rfl, rfl, hcreated, rfl⟩ := Wrapping.signature?_sign hc
  refine (signature_makes c hreads.signedData hcreated).bind ?_
  rintro _ rfl
  have hannouncement := SigningContext.isCanonical_announcement ht
  refine Makes.pure ⟨⟨_, _, hreads.signed hannouncement (SigningContext.wellFormed_signature hg ht _ _),
    htell.signing rfl rfl houtcome ?_⟩, ?_⟩
  · simp only [LayerRecord.verifications, List.map_append, List.map_cons, List.map_nil,
      LayerRecord.verifySettled_signed hv hg, List.append_assoc]
    exact List.perm_append_comm.append_left _
  · simp [bodyLengths, Wrapping.bodyLengths, Packet.body, OnePassSignature.encode,
      c.signer.key.fingerprint.keyId.property, SigningContext.signed, SigningContext.length_signature hg]

theorem precede (h : d.Tells o now p steps) {signer : Signer} {c : SigningContext}
    (hc : (Wrapping.precede signer).signature? now = some c) (hv : c.KnownTo o.verifier)
    (hg : c.signer.Genuine c.created) :
    Makes now (d.wrap z (.precede signer)) fun d' => Tells o now p (steps ++ [.precede signer]) d' ∧
      d'.bodyLengths = Wrapping.bodyLengths d.bodyLengths (.precede signer) := by
  obtain ⟨l, inner, hreads, htell⟩ := h
  have houtcome : (Wrapping.precede signer).outcome? now p.body = some (c.outcome p.body .preceding) := by
    rw [Wrapping.outcome?, hc]
    rfl
  cases hc
  have htype : SignatureType.binary.IsCanonical := Identifier.isCanonical_registered _ _
  refine (signature_makes ⟨signer, .sha256, .binary, now, none⟩ hreads.signedData rfl).bind ?_
  rintro _ rfl
  refine Makes.pure ⟨⟨_, _, hreads.preceded (SigningContext.wellFormed_signature hg htype _ _),
    htell.signing rfl rfl houtcome ?_⟩, ?_⟩
  · simp only [LayerRecord.verifications, List.map_cons, LayerRecord.verifyPreceding_signed hv hg,
      List.append_assoc]
    exact (List.perm_append_singleton _ _).symm.append_left _
  · simp [bodyLengths, Wrapping.bodyLengths, Packet.body, SigningContext.signed,
      SigningContext.length_signature hg]

/-- Compressed data around everything. How long it is depends on the encoder. -/
theorem compress (h : d.Tells o now p steps) (hz : z.Lossless) (ht : o.restrictions.Takes d.bodyLengths)
    (hp : o.restrictions.policy = .standard) {algorithm : CompressionAlgorithm}
    (ha : Policy.standard.acceptsCompression algorithm = true)
    (hl : layerLength d.bodyLengths ≤ o.restrictions.decompressedLength.toNat) :
    Makes now (d.wrap z (.compress algorithm)) fun d' => Tells o now p (steps ++ [.compress algorithm]) d' ∧
      (z = .stored → d'.bodyLengths = Wrapping.bodyLengths d.bodyLengths (.compress algorithm)) := by
  obtain ⟨l, inner, hreads, htell⟩ := h
  obtain ⟨octets, he, hlength, hreading⟩ := hreads.reading ht
  refine (Makes.encoded he).bind ?_
  rintro octets rfl
  have ho : Opens o [] (.compressedData (z.packet algorithm octets)) (.compression algorithm) octets :=
    .compressed (hp ▸ ha) (hz.decompress_packet ha (hlength ▸ hl))
  have hcanonical : algorithm.IsCanonical := isCanonical_of_acceptsCompression ha
  refine Makes.pure ⟨⟨_, _, .compressed hreading hreads.signedData ho hcanonical,
    htell.container rfl rfl rfl rfl⟩, ?_⟩
  rintro rfl
  simp [bodyLengths, Wrapping.bodyLengths, Packet.body, Compressor.packet_stored,
    CompressedData.length_ofContent, hlength]

theorem encrypt (h : d.Tells o now p steps) (ht : o.restrictions.Takes d.bodyLengths)
    (hp : o.restrictions.policy = .standard) (hr : recipient.Genuine)
    (hc : o.credentials = recipient.credentials passphrase) {e : Encryption}
    (hu : e.Usable passphrase recipient) :
    Makes now (d.wrap z (.encrypt e)) fun d' => Tells o now p (steps ++ [.encrypt e]) d' ∧
      d'.bodyLengths = Wrapping.bodyLengths d.bodyLengths (.encrypt e) := by
  obtain ⟨l, inner, hreads, htell⟩ := h
  obtain ⟨octets, he, hlength, hreading⟩ := hreads.reading ht
  have hmade : Makes now (d.encrypt e) fun made => ∃ k data,
      made.1.packets.map Packet.readAs = [KeyPacket.packet k, .encryptedData data] ∧
      (KeyPacket.packet k).WellFormed ∧ data.WellFormed ∧
      Opens o [k] (.encryptedData data) (.encryption e.layer) octets ∧
      made.1.bodyLengths = e.bodyLengths octets.length ∧ made.1.signedData = some p.body :=
    (Encryption.packets_makes hr hp hc hu he).bind fun made ⟨k, data, hm, hk, hd, ho, hl⟩ =>
      Makes.pure ⟨k, data, hm, hk, hd, ho, hl, hreads.signedData⟩
  refine hmade.bind fun made ⟨k, data, hm, hk, hd, ho, hl, hs⟩ => Makes.pure ?_
  rw [hlength] at hl
  exact ⟨⟨_, _, .encrypted hreading hs ho hm hk hd, htell.container rfl rfl rfl rfl⟩, hl⟩

end Tells

/-- One step. -/
theorem wrap_makes (h : d.Tells o now p steps) (hz : z.Lossless) {w : Wrapping}
    (hu : w.Usable passphrase recipient) (hr : recipient.Genuine) (hnow : Environment.keysCreated ≤ now)
    (hk : o.Know now passphrase recipient [w])
    (hl : Wrapping.KeepLimits o.restrictions d.bodyLengths (some w)) :
    Makes now (d.wrap z w) fun d' => d'.Tells o now p (steps ++ [w]) ∧
      (z = .stored → d'.bodyLengths = w.bodyLengths d.bodyLengths) := by
  obtain ⟨ht, hexpand⟩ := hl
  have hsigning {c : SigningContext} (hc : w.signature? now = some c) :
      c.KnownTo o.verifier ∧ c.signer.Genuine c.created :=
    ⟨hk.knownTo hu List.mem_cons_self hc, hu.genuine hnow hc⟩
  cases hu with
  | @sign seed parameters htype hh hc =>
    obtain ⟨f, hf⟩ := HashFunction.exists_of_acceptsHash hh
    have hsignature : (Wrapping.sign (.ofSeed seed) parameters).signature? now =
        some ⟨.ofSeed seed, f, parameters.type, parameters.created.getD now, parameters.lifetime⟩ :=
      Option.map_eq_some_iff.mpr ⟨f, hf, rfl⟩
    obtain ⟨hv, hg⟩ := hsigning hsignature
    exact (h.sign htype hsignature hv hg).mono fun d' hd => ⟨hd.1, fun _ => hd.2⟩
  | precede seed =>
    obtain ⟨hv, hg⟩ := hsigning rfl
    exact (h.precede rfl hv hg).mono fun d' hd => ⟨hd.1, fun _ => hd.2⟩
  | compress ha => exact h.compress hz ht hk.policy ha (hexpand rfl)
  | encrypt he =>
    exact (h.encrypt ht hk.policy hr hk.credentials he).mono fun d' hd => ⟨hd.1, fun _ => hd.2⟩

/-- All steps, by induction on them. -/
theorem wrapAll_reads (hz : z.Lossless) (hr : recipient.Genuine) (hnow : Environment.keysCreated ≤ now)
    {steps : List Wrapping} (hu : ∀ w ∈ steps, w.Usable passphrase recipient)
    (hk : o.Know now passphrase recipient steps) {done : List Wrapping} {d : Draft}
    (h : d.Tells o now p done) {e : Environment} (he : e.Ready now)
    (hl : d.KeepsLimits z o.restrictions steps e) :
    ∃ d' e', steps.foldlM (wrap z) d e = .ok (d', e') ∧ d'.Tells o now p (done ++ steps) ∧
      o.restrictions.Takes d'.bodyLengths := by
  induction steps generalizing done d e with
  | nil => exact ⟨d, e, rfl, by rwa [List.append_nil], hl.1⟩
  | cons w steps ih =>
    obtain ⟨hkeep, hl⟩ := hl
    obtain ⟨d₁, e₁, hmade, he₁, h₁, -⟩ := wrap_makes h hz (hu w List.mem_cons_self) hr hnow
      (hk.mono (List.cons_subset_cons _ (List.nil_subset _))) hkeep e he
    obtain ⟨d', e', hrest, h', ht⟩ := ih (fun w hw => hu w (List.mem_cons_of_mem _ hw))
      (hk.mono (List.subset_cons_self _ _)) h₁ he₁ (hl d₁ e₁ hmade)
    rw [List.append_assoc] at h'
    refine ⟨d', e', ?_, h', ht⟩
    rw [List.foldlM_cons]
    exact Except.bind_eq_ok.mpr ⟨(d₁, e₁), hmade, hrest⟩

/-- With stored blocks the lengths on the way are told by the steps. -/
theorem keepsLimits_stored (hr : recipient.Genuine) (hnow : Environment.keysCreated ≤ now)
    {steps : List Wrapping} (hu : ∀ w ∈ steps, w.Usable passphrase recipient)
    (hk : o.Know now passphrase recipient steps) {done : List Wrapping} {d : Draft}
    (h : d.Tells o now p done) {e : Environment} (he : e.Ready now)
    (hl : Wrapping.AllKeepLimits o.restrictions d.bodyLengths steps) :
    d.KeepsLimits .stored o.restrictions steps e := by
  induction steps generalizing done d e with
  | nil => exact hl
  | cons w steps ih =>
    obtain ⟨hkeep, hl⟩ := hl
    refine ⟨hkeep, fun d' e' hmade => ?_⟩
    obtain ⟨d₁, e₁, hmade₁, he₁, h₁, hlengths⟩ := wrap_makes h Compressor.lossless_stored
      (hu w List.mem_cons_self) hr hnow (hk.mono (List.cons_subset_cons _ (List.nil_subset _))) hkeep e he
    obtain ⟨rfl, rfl⟩ := Prod.mk.inj (Except.ok.inj (hmade.symm.trans hmade₁))
    exact ih (fun w hw => hu w (List.mem_cons_of_mem _ hw)) (hk.mono (List.subset_cons_self _ _)) h₁ he₁
      (hlengths rfl ▸ hl)

theorem literal_eq_ok (filename : String) (format : LiteralFormat) (body : Octets) {e : Environment}
    (he : e.Ready now) : literal filename format body e =
      .ok (⟨[.literalData ⟨format, Octets.ofText filename, now, body⟩], some body⟩, e) := by
  rw [← he.clock]
  rfl

/-- The wire form of all steps reads as layers that tell them. -/
theorem message_reads (hz : z.Lossless) (hr : recipient.Genuine) (hnow : Environment.keysCreated ≤ now)
    {filename : String} (hf : (Octets.ofText filename).length ≤ 255) (format : LiteralFormat) (body : Octets)
    {steps : List Wrapping} (hu : ∀ w ∈ steps, w.Usable passphrase recipient)
    (hk : o.Know now passphrase recipient steps) {e : Environment} (he : e.Ready now)
    (hl : ∀ d e', literal filename format body e = .ok (d, e') →
      d.KeepsLimits z o.restrictions steps e') :
    ∃ octets e' layers, message z filename format body steps e = .ok (octets, e') ∧
      Reading o (.ofContent o octets) layers ⟨format, Octets.ofText filename, now, body⟩ ∧
      LayerRecord.Tell o.verifier now body steps layers := by
  have hliteral := literal_eq_ok filename format body he
  obtain ⟨d, e', hsteps, ⟨l, inner, hreads, htell⟩, ht⟩ :=
    wrapAll_reads hz hr hnow hu hk (Tells.literal ⟨format, Octets.ofText filename, now, body⟩ hf) he
      (hl _ _ hliteral)
  obtain ⟨octets, hoctets, -, hreading⟩ := hreads.reading ht
  have hencoded : encoded d.packets e' = .ok (octets, e') := by
    rw [encoded, hoctets]
    rfl
  refine ⟨octets, e', l :: inner, ?_, hreading, htell⟩
  change (literal filename format body e >>= fun made =>
    (steps.foldlM (wrap z) made.1 >>= fun d => encoded d.packets) made.2) = _
  exact Except.bind_eq_ok.mpr ⟨_, hliteral, Except.bind_eq_ok.mpr ⟨(d, e'), hsteps, hencoded⟩⟩

end Draft

/-! ## The whole message -/

theorem Environment.ready_setTime (seed : UInt64) (now : UInt32) :
    ((Environment.ofSeed seed).setTime now.toNat).Ready now where
  key := ChaCha20.length_keyWords 8 seed
  clock := by
    have hlt : now.toNat ≤ 0xFFFFFFFF := Nat.le_of_lt_succ now.toNat_lt
    simp [clock, setTime, Nat.min_eq_left hlt]

/-- Signed, compressed and encrypted for a passphrase, in this order. -/
def sealedSteps : List Wrapping :=
  [.sign (.ofSeed 1) .standard, .compress .zip,
    .encrypt { Encryption.ofScheme .modificationDetection with passphrases := ["open"] }]

/-- How the two octets are signed. -/
def sealing : SigningContext := ⟨.ofSeed 1, .sha256, .binary, Environment.start, none⟩

theorem nonce_sealing : sealing.nonce [0x68, 0x69] ≠ 0 := by decide +kernel

/-- The reader with the passphrase, the key of the recipient and that of the signer. -/
def sealedOptions : ReadingContext :=
  ReadingOptions.context ⟨(Recipient.ofSeed 2).credentials "open", ⟨[(Signer.ofSeed 1).key]⟩,
    .ofSeconds Environment.start, .standard⟩

end OpenPGP
