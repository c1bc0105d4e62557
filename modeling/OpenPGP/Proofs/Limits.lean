import Mathlib.Data.Nat.Init
import OpenPGP.Proofs.Coverage
import OpenPGP.Proofs.Wire
/-!
# Limits and policy

What a reader takes on is limited, and what it reports was done by algorithms it may use. The
checks stand in many places: some before a layer is opened, some while a session key is looked
for, some where a signature is judged. Here they come together.

The limits are about states: a state that is reached has no more open layers than allowed, the
content of each was expanded within its limit, and packets are taken from it within theirs. The
policy is about metadata: whatever route a session key took, from a key packet, a passphrase or
the caller, the cipher recorded is an accepted one.

Results:
* `PacketSource.TakesWithin`: how a packet is read off octets within a body limit.
* `MessageReader.inside_of_reaches`: every layer inside another keeps the limits.
* `MessageReader.step_of_too_deep`: what would lie too deep is refused unopened.
* `Reading.permitted`: what a chain of layers is recorded as was accepted.
* `MessageReader.limits_of_reaches`: all of this on every run.
-/
namespace OpenPGP

open Crypto

/-! ## Bodies -/

theorem Source.length_pullFrom_le (n : Nat) (ds : List Delivery) : (pullFrom n ds).1.length ≤ n := by
  fun_induction pullFrom n ds with
  | case1 => exact Nat.le_refl _
  | case2 => exact Nat.zero_le _
  | case3 n ds ih => exact ih
  | case4 => exact Nat.zero_le _
  | case5 n piece ds h later stop rest e ih =>
    have hpiece := List.drop_eq_nil_iff.mp h
    simp only [e] at ih
    simp only [List.length_append]
    omega
  | case6 n piece ds h => exact List.length_take_le _ _

namespace Framed

theorem length_exactly_le {n : Nat} {part : Part} {s s' : Source} {octets : Octets}
    (h : exactly n part s = .ok octets s') : octets.length ≤ n := by
  obtain ⟨⟨pulled, stop⟩, s₁, hp, h⟩ := bind_eq_ok.mp h
  have hlength : pulled.length ≤ n := by
    cases hp
    exact Source.length_pullFrom_le n s.deliveries
  cases stop with
  | full => cases h; exact hlength
  | ended => cases h
  | failed reason => cases h

end Framed

namespace PacketBody

open Framed

theorem length_chunk_le {limit : UInt64} {before length : Nat} {s s' : Source} {octets : Octets}
    (h : chunk limit before length s = .ok octets s') : before + octets.length ≤ limit.toNat := by
  unfold chunk at h
  split at h
  · cases h
  · have := length_exactly_le h
    omega

/-- **No body exceeds the limit**, in however many parts it comes. -/
theorem length_parts_le {limit : UInt64} {size : Nat} {before : Octets} {length : Nat}
    {s s' : Source} {body : Octets} (h : parts limit size before length s = .ok body s') :
    body.length ≤ limit.toNat := by
  induction size generalizing before length s with
  | zero => cases h
  | succ size ih =>
    obtain ⟨first, s₁, hfirst, h⟩ := bind_eq_ok.mp h
    have hbefore := length_chunk_le hfirst
    obtain ⟨next, s₂, -, h⟩ := bind_eq_ok.mp h
    cases next with
    | partialLength length => exact ih h
    | definite length =>
      obtain ⟨last, s₃, hlast, h⟩ := bind_eq_ok.mp h
      have hbody := length_chunk_le hlast
      cases h
      simpa [Nat.add_assoc] using hbody
    | indeterminate =>
      cases h
      simpa using hbefore

theorem length_rest_le {limit : UInt64} {s s' : Source} {body : Octets} (h : rest limit s = .ok body s') :
    body.length ≤ limit.toNat := by
  unfold rest at h
  split at h
  · cases h
  obtain ⟨octets, s₁, -, h⟩ := bind_eq_ok.mp h
  split at h
  · cases h
  · cases h
    omega

theorem length_read_le {limit : UInt64} {length : BodyLength} {s s' : Source} {body : Octets}
    (h : read limit length s = .ok body s') : body.length ≤ limit.toNat := by
  cases length with
  | definite length => simpa using length_chunk_le h
  | partialLength length =>
    obtain ⟨state, s₁, -, h⟩ := bind_eq_ok.mp h
    exact length_parts_le h
  | indeterminate => exact length_rest_le h

end PacketBody

namespace PacketSource

/-- A packet is read off octets: a header, a body that keeps the limit, and what that body says. -/
inductive TakesWithin (limit : UInt64) : PacketSource → Packet → PacketSource → Prop
  | read {s s₁ s' : Source} {header : PacketHeader} {body : Octets} {p : Packet}
      (hheader : PacketHeader.read s = .ok (some header) s₁)
      (hbody : PacketBody.read limit header.length s₁ = .ok body s')
      (hdecode : Packet.decode header.tag body = .ok p) (hlength : body.length ≤ limit.toNat) :
      TakesWithin limit (.reader ⟨s, limit⟩) p (.reader ⟨s', limit⟩)

/-- A source that reads octets takes each packet within its limit and keeps it. -/
theorem takesWithin_of_next {s : Source} {limit : UInt64} {p : Packet} {source : PacketSource}
    (h : next (.reader ⟨s, limit⟩) = .ok (some (p, source))) :
    TakesWithin limit (.reader ⟨s, limit⟩) p source := by
  simp only [next, PacketReader.next] at h
  cases hp : PacketReader.packet limit s with
  | error e s' => rw [hp] at h; cases h
  | ok packet s' =>
    rw [hp] at h
    cases packet with
    | none => cases h
    | some packet =>
      cases h
      obtain ⟨header, s₁, hheader, h⟩ := Framed.bind_eq_ok.mp hp
      cases header with
      | none => cases h
      | some header =>
        obtain ⟨body, s₂, hbody, h⟩ := Framed.bind_eq_ok.mp h
        cases hdecode : Packet.decode header.tag body with
        | error error => rw [hdecode] at h; cases h
        | ok packet =>
          rw [hdecode] at h
          cases h
          exact .read hheader hbody hdecode (PacketBody.length_read_le hbody)

theorem Yields.reader {s : Source} {limit : UInt64} {packets : List Packet} {source : PacketSource}
    (h : Yields (.reader ⟨s, limit⟩) packets source) :
    (∃ s', source = .reader ⟨s', limit⟩) ∧ ∀ p ∈ packets, ∃ a b, TakesWithin limit a p b := by
  generalize e : PacketSource.reader ⟨s, limit⟩ = start at h
  induction h with
  | nil => exact ⟨⟨s, e.symm⟩, fun p hp => by cases hp⟩
  | snoc h hn ih =>
    obtain ⟨⟨s', rfl⟩, htaken⟩ := ih
    have htakes := takesWithin_of_next hn
    refine ⟨?_, fun p hp => ?_⟩
    · cases htakes with
      | read => exact ⟨_, rfl⟩
    · rcases List.mem_append.mp hp with hp | hp
      · exact htaken p hp
      · obtain rfl := List.mem_singleton.mp hp
        exact ⟨_, _, htakes⟩

end PacketSource

variable {o : ReadingContext} {source : PacketSource} {out : Octets}

/-! ## Open layers -/

/-- An open layer that is the content of `d`, and what the limits say of it. -/
structure Frame.WithinLimits (o : ReadingContext) (d : Packet) (content : Octets) (f : Frame) : Prop where
  /-- Compressed data was expanded to no more than the limit. -/
  expanded : ∀ c, d = .compressedData c →
    c.decompress o.restrictions.decompressedLength = .ok content ∧
      content.length ≤ o.restrictions.decompressedLength.toNat
  /-- Every packet that was taken was read within the limit. -/
  taken : ∃ packets, (PacketSource.ofContent o content).Yields packets f.source ∧
    ∀ p ∈ packets, ∃ s s', PacketSource.TakesWithin o.restrictions.packetLength s p s'
  /-- So is the next one. -/
  next : ∀ p s, f.source.next = .ok (some (p, s)) →
    f.source.TakesWithin o.restrictions.packetLength p s

theorem CompressedData.length_decompress_le {p : CompressedData} {limit : UInt64} {out : Octets}
    (h : p.decompress limit = .ok out) : out.length ≤ limit.toNat := by
  unfold decompress at h
  split at h
  · exact Compression.Expansion.length_read_le h
  · exact Compression.Expansion.length_read_le h
  · exact Compression.Expansion.length_read_le h
  · cases h

theorem Opens.withinLimits {keys : List KeyPacket} {d : Packet} {layer : Layer} {content : Octets}
    {f : Frame} {packets : List Packet} (ho : Opens o keys d layer content)
    (hf : f.Took (.ofContent o content) packets) : f.WithinLimits o d content where
  expanded := by
    rintro c rfl
    cases ho with
    | compressed hp hd => exact ⟨hd, CompressedData.length_decompress_le hd⟩
  taken := ⟨packets, hf.yields, hf.yields.reader.2⟩
  next := by
    obtain ⟨⟨s', hs⟩, -⟩ := hf.yields.reader
    rw [hs]
    intro p s h
    exact PacketSource.takesWithin_of_next h

/-- A layer directly inside another is the content of the container the other one stopped at. -/
structure Frame.Inside (o : ReadingContext) (f around : Frame) (start : PacketSource)
    (packets : List Packet) (d : Packet) (content : Octets) : Prop where
  stopped : around.Took start (packets ++ [d])
  opened : ∃ layer, Opens o (layerSketch packets).keys d layer content
  limits : f.WithinLimits o d content

/-- **Layer by layer.** Of any two open layers next to each other, the inner one keeps the limits. -/
theorem Surroundings.Open.inside_of_append {c : Surroundings} (h : c.Open o source) {f : Frame}
    {packets : List Packet} (hf : f.Took c.start packets) {inner outer : List Frame} {g around : Frame}
    (e : f :: c.frames = inner ++ g :: around :: outer) :
    ∃ start before d content, g.Inside o around start before d content := by
  induction h generalizing f packets inner with
  | root =>
    have := congrArg List.length e
    simp only [Surroundings.root, List.length_append, List.length_cons, List.length_nil] at this
    omega
  | @inside c f' before d layer content h hk hf' hn hd ho ih =>
    cases inner with
    | nil =>
      obtain ⟨rfl, hframes⟩ := List.cons.inj e
      obtain ⟨rfl, -⟩ := List.cons.inj hframes
      exact ⟨c.start, before, d, content, hf', ⟨layer, ho⟩, ho.withinLimits hf⟩
    | cons x inner => exact ih hf' (List.cons.inj e).2

theorem MessageReader.inside_of_reaches {r : MessageReader o} (h : Reaches o source r out)
    {inner outer : List Frame} {f around : Frame} (e : r.frames = inner ++ f :: around :: outer) :
    ∃ start packets d content, f.Inside o around start packets d content := by
  have h := h.sound (by simp [e])
  generalize hs : r.state = s at h
  have hs : r.frames = s.frames := congrArg ReadingState.frames hs
  cases h with
  | ended => simp [e] at hs
  | reading hc hk hf hr => exact hc.inside_of_append hf (hs.symm.trans e)

/-- A container that would lie deeper than the limit is refused, whatever it holds and whatever would
open it. -/
theorem MessageReader.step_of_too_deep {r : MessageReader o} {f f' : Frame} {outer : List Frame}
    {p : Packet} (hr : r.frames = f :: outer) (ht : f.Takes p f')
    (hp : (∃ c, p = .compressedData c) ∨ ∃ d, p = .encryptedData d)
    (hd : o.restrictions.nestingDepth < outer.length + 1) :
    r.step = .error (.nestingTooDeep o.restrictions.nestingDepth) := by
  obtain ⟨s, hs, ha⟩ := ht.accepted
  obtain ⟨h, hstep⟩ := step_of_next_some hr ht.next
  have htake : r.take p { f with source := f'.source } outer h =
      .error (.nestingTooDeep o.restrictions.nestingDepth) := by
    unfold take
    rw [hs]
    dsimp only
    rw [ha]
    rcases hp with ⟨c, rfl⟩ | ⟨d, rfl⟩
    · exact dif_neg (Nat.not_le.mpr hd)
    · exact dif_neg (Nat.not_le.mpr hd)
  rw [hstep, htake]
  rfl

/-! ## Policy -/

theorem MessageReader.acceptsAead_of_integrityOf {policy : Policy} {d : EncryptedData}
    {mode : AeadAlgorithm} (h : integrityOf policy d = .ok (.aead mode)) :
    policy.acceptsAead mode = true := by
  unfold integrityOf at h
  split at h
  · cases h
  split at h
  · cases h
  split at h
  · cases h
  next hmode =>
  cases h
  simpa using hmode

/-- What the policy said of an encryption layer with key packets in front of it. -/
structure EncryptionLayer.Permitted (o : ReadingContext) (keys : List KeyPacket)
    (e : EncryptionLayer) : Prop where
  /-- Whatever named the cipher: the data, a key packet, a decrypted key or the caller. -/
  cipher : o.restrictions.policy.acceptsSymmetric e.algorithm = true
  mode : ∀ mode, e.integrity = .aead mode → o.restrictions.policy.acceptsAead mode = true
  /-- A key that opened the layer did so through one of the key packets. -/
  source : ∀ fingerprint, e.source = .publicKey fingerprint → ∃ packet key,
    .publicKey packet ∈ keys ∧ key ∈ Resolution.keysFor o.credentials packet ∧
      key.fingerprint = fingerprint ∧ key.algorithm = packet.algorithm ∧
      o.restrictions.policy.acceptsPublicKey packet.algorithm = true

theorem Opens.encryption_permitted {keys : List KeyPacket} {d : Packet} {e : EncryptionLayer}
    {content : Octets} (h : Opens o keys d (.encryption e) content) : e.Permitted o keys := by
  cases h with
  | encrypted hi hr =>
    refine ⟨(EncryptedData.decrypt_of_resolveBy hr).1, fun mode hmode => ?_, fun fingerprint hs => ?_⟩
    · obtain rfl : _ = IntegrityProtection.aead mode := hmode
      exact MessageReader.acceptsAead_of_integrityOf hi
    · exact EncryptedData.publicKey_of_resolveBy hr hs

theorem Opens.compression_permitted {keys : List KeyPacket} {d : Packet} {a : CompressionAlgorithm}
    {content : Octets} (h : Opens o keys d (.compression a) content) :
    o.restrictions.policy.acceptsCompression a = true := by
  cases h with
  | compressed hp hd => exact hp

namespace VerificationContext

variable {c : VerificationContext} {s : Signature} {announcement : Option OnePassSignature}

theorem accepts_of_precheck (h : c.precheck s announcement = .ok ()) :
    c.policy.acceptsHash s.hashAlgorithm = true ∧
      c.policy.acceptsPublicKey s.publicKeyAlgorithm = true := by
  unfold precheck at h
  split at h
  · cases h
  split at h
  · cases h
  split at h
  · cases h
  split at h
  · cases h
  next hhash =>
  split at h
  · cases h
  next hkey => exact ⟨by simpa using hhash, by simpa using hkey⟩

theorem algorithm_of_checkWithKey {key : VerifyingKey} {hasher : Option SignatureHasher}
    (h : c.checkWithKey s key hasher = .ok ()) : key.algorithm = s.publicKeyAlgorithm := by
  refine Decidable.byContradiction fun halgorithm => ?_
  unfold checkWithKey at h
  rw [if_pos halgorithm] at h
  split at h <;> cases h

/-- The key that is found for a signature is a certificate for one of its names. -/
theorem exists_certificate_of_signer? {key : VerifyingKey} (h : c.signer? s announcement = some key) :
    ∃ id, c.certificate? id = some key := by
  obtain ⟨id, -, hid⟩ := List.exists_of_findSome?_eq_some h
  exact ⟨id, hid⟩

/-- **A signature verifies by accepted algorithms only**, under a known key of its algorithm. -/
theorem accepts_of_verified {hasher : Option SignatureHasher} {placement : SignaturePlacement}
    (h : (c.verify s hasher announcement placement).verified = true) :
    c.policy.acceptsHash s.hashAlgorithm = true ∧
      c.policy.acceptsPublicKey s.publicKeyAlgorithm = true ∧
      ∃ id key, c.certificate? id = some key ∧ key.algorithm = s.publicKeyAlgorithm ∧
        (c.verify s hasher announcement placement).signer = some key.fingerprint := by
  unfold verify at h ⊢
  unfold check at h ⊢
  cases hp : c.precheck s announcement with
  | error failure => rw [hp] at h; cases h
  | ok u =>
    rw [hp] at h
    cases hc : c.signer? s announcement with
    | none => rw [hc] at h; cases h
    | some key =>
      rw [hc] at h
      cases hk : c.checkWithKey s key hasher with
      | error failure => simp only [hk] at h; cases h
      | ok u =>
        obtain ⟨hhash, hkey⟩ := accepts_of_precheck hp
        obtain ⟨id, hid⟩ := exists_certificate_of_signer? hc
        exact ⟨hhash, hkey, id, key, hid, algorithm_of_checkWithKey hk, rfl⟩

end VerificationContext

/-! ## What is recorded -/

/-- What the tree of a chain of layers holds: the layers, and the results of each. -/
theorem LayerNode.of_mem_walk_nodes {v : VerificationContext} {data : Octets} {layers : List LayerRecord}
    {layer : Layer} (h : layer ∈ walk (LayerRecord.nodes v data layers)) :
    ∃ l ∈ layers, layer = l.layer ∨ ∃ x ∈ l.verifications v data, layer = .signature x := by
  induction layers with
  | nil => rw [LayerRecord.nodes, walk] at h; cases h
  | cons l layers ih =>
    rw [LayerRecord.walk_nodes_cons] at h
    rcases List.mem_cons.mp h with h | h
    · exact ⟨l, List.mem_cons_self, .inl h⟩
    rcases List.mem_append.mp h with h | h
    · obtain ⟨l', hl', h⟩ := ih h
      exact ⟨l', List.mem_cons_of_mem _ hl', h⟩
    · obtain ⟨x, hx, rfl⟩ := List.mem_map.mp h
      exact ⟨l, List.mem_cons_self, .inr ⟨x, hx, rfl⟩⟩

theorem Reading.layer_cases {layers : List LayerRecord} {p : LiteralData}
    (h : Reading o source layers p) : ∀ l ∈ layers,
      l.layer = .literal (.ofPacket p) ∨ ∃ content, Opens o l.keys l.data l.layer content := by
  induction h with
  | literal hy he hm hd hl => simpa using .inl hl
  | inside hy he hm ho h ih => exact List.forall_mem_cons.mpr ⟨.inr ⟨_, ho⟩, ih⟩

/-- What the policy said of a result that says its signature verified. -/
structure SignatureVerification.Permitted (o : ReadingContext) (s : Signature)
    (x : SignatureVerification) : Prop where
  result : ∃ hasher announcement placement, x = o.verifier.verify s hasher announcement placement
  hash : x.hashAlgorithm = s.hashAlgorithm ∧
    o.restrictions.policy.acceptsHash x.hashAlgorithm = true
  publicKey : o.restrictions.policy.acceptsPublicKey s.publicKeyAlgorithm = true
  /-- The key that made it is a known one of the same algorithm. -/
  signer : ∃ id key, o.certificate? id = some key ∧ key.algorithm = s.publicKeyAlgorithm ∧
    x.signer = some key.fingerprint

theorem VerificationContext.verify_permitted {s : Signature} {hasher : Option SignatureHasher}
    {announcement : Option OnePassSignature} {placement : SignaturePlacement}
    (h : (o.verifier.verify s hasher announcement placement).verified = true) :
    (o.verifier.verify s hasher announcement placement).Permitted o s := by
  obtain ⟨hhash, hkey, hsigner⟩ := accepts_of_verified h
  exact ⟨⟨_, _, _, rfl⟩, ⟨rfl, hhash⟩, hkey, hsigner⟩

/-- What the policy said of everything that metadata reports of a chain of layers. -/
structure MessageMetadata.Permitted (o : ReadingContext) (layers : List LayerRecord)
    (m : MessageMetadata) : Prop where
  encryption : ∀ e, .encryption e ∈ m.layers →
    ∃ l ∈ layers, l.layer = .encryption e ∧ e.Permitted o l.keys
  compression : ∀ a, .compression a ∈ m.layers → o.restrictions.policy.acceptsCompression a = true
  signature : ∀ x, .signature x ∈ m.layers → x.verified = true →
    ∃ l ∈ layers, ∃ s ∈ l.signatures, x.Permitted o s

/-- **Nothing is reported that was not permitted.** -/
theorem Reading.permitted {layers : List LayerRecord} {p : LiteralData}
    (h : Reading o source layers p) {m : MessageMetadata}
    (hm : m.roots = LayerRecord.nodes o.verifier p.body layers) : m.Permitted o layers := by
  have hlayers : ∀ layer ∈ m.layers, ∃ l ∈ layers,
      layer = l.layer ∨ ∃ x ∈ l.verifications o.verifier p.body, layer = .signature x := by
    intro layer hlayer
    rw [MessageMetadata.layers, hm] at hlayer
    exact LayerNode.of_mem_walk_nodes hlayer
  -- a container among the layers was opened: literal data and results are none
  have hopened : ∀ layer ∈ m.layers, layer.isContainer = true →
      ∃ l ∈ layers, l.layer = layer ∧ ∃ content, Opens o l.keys l.data layer content := by
    intro layer hlayer hcontainer
    obtain ⟨l, hl, rfl | ⟨x, -, rfl⟩⟩ := hlayers layer hlayer
    · rcases h.layer_cases l hl with hliteral | hopens
      · rw [hliteral] at hcontainer
        cases hcontainer
      · exact ⟨l, hl, rfl, hopens⟩
    · cases hcontainer
  refine ⟨fun e he => ?_, fun a ha => ?_, fun x hx hverified => ?_⟩
  · obtain ⟨l, hl, hlayer, content, ho⟩ := hopened _ he rfl
    exact ⟨l, hl, hlayer, ho.encryption_permitted⟩
  · obtain ⟨l, hl, hlayer, content, ho⟩ := hopened _ ha rfl
    exact ho.compression_permitted
  · obtain ⟨l, hl, hlayer | ⟨x', hx', hlayer⟩⟩ := hlayers _ hx
    · rcases h.layer_cases l hl with hliteral | ⟨content, ho⟩
      · rw [hliteral] at hlayer
        cases hlayer
      · have hnone := ho.signature?_layer
        rw [← hlayer] at hnone
        cases hnone
    · obtain rfl := Layer.signature.inj hlayer
      have hsignatures := LayerRecord.signatures_eq (h.isMessage l hl)
      obtain ⟨a, s, hs, rfl⟩ | ⟨s, hs, rfl⟩ := LayerRecord.mem_verifications_iff.mp hx'
      · have hmem : s ∈ l.signatures := by
          rw [hsignatures]
          exact List.mem_append_right _ (List.mem_map_of_mem hs)
        exact ⟨l, hl, s, hmem, VerificationContext.verify_permitted hverified⟩
      · have hmem : s ∈ l.signatures := by
          rw [hsignatures]
          exact List.mem_append_left _ hs
        exact ⟨l, hl, s, hmem, VerificationContext.verify_permitted hverified⟩

/-! ## Every run -/

/-- **Limits and policy.** In every state that a reader of any source comes to, between the requests of
the caller and inside them, no more layers are open than allowed. A container that would open one more
is refused, whatever it holds and whatever keys there are. Of any two open layers next to each other the
inner one is the content that the container of the outer one opened to; what compressed data expanded to
keeps its limit, and every packet that was taken from the layer, or is taken next, has a body that keeps
its own. Metadata is given out only of a chain of layers that were all accepted: the ciphers, the modes,
the compression, the algorithm of a key that opened a layer, and hash and key of what verified. -/
theorem MessageReader.limits_of_reaches {o : ReadingContext} {source : PacketSource}
    {r : MessageReader o} {out : Octets} (h : Reaches o source r out) :
    r.depth ≤ o.restrictions.nestingDepth + 1 ∧
      (∀ f f' outer p, r.frames = f :: outer → f.Takes p f' →
        ((∃ c, p = .compressedData c) ∨ ∃ d, p = .encryptedData d) →
        o.restrictions.nestingDepth + 1 < outer.length + 2 →
        r.step = .error (.nestingTooDeep o.restrictions.nestingDepth)) ∧
      (∀ inner f around outer, r.frames = inner ++ f :: around :: outer →
        ∃ start packets d content, f.Inside o around start packets d content) ∧
      ∀ m r', r.finish = (.ok m, r') → ∃ layers p, Reading o source layers p ∧ out = p.body ∧
        m.roots = LayerRecord.nodes o.verifier p.body layers ∧ m.Permitted o layers := by
  refine ⟨r.nested, fun f f' outer p hr ht hp hd => ?_, fun inner f around outer e => ?_,
    fun m r' e => ?_⟩
  · exact step_of_too_deep hr ht hp (Nat.lt_of_succ_lt_succ hd)
  · exact inside_of_reaches h e
  · obtain ⟨layers, p, hread, hout, hroots⟩ := h.holds.finish.2 m (by rw [e])
    exact ⟨layers, p, hread, hout, hroots, hread.permitted hroots⟩

/-- Reading with no keys, and no layers inside the message. -/
def ReadingContext.unnested : ReadingContext :=
  { ReadingContext.keyless with restrictions := { Restrictions.standard with nestingDepth := 0 } }

theorem MessageReader.limits_of_signedPackets :
    (∃ r f around, Reaches .keyless (.packets signedPackets) r [] ∧ r.frames = [f, around] ∧
      ∃ start packets d content, f.Inside .keyless around start packets d content) ∧
    (start .unnested (.packets [.compressedData ⟨.uncompressed, literalOctets⟩])).step =
      .error (.nestingTooDeep 0) ∧
    ∃ r m r', Reaches .keyless (.packets signedPackets) r [0x68, 0x69] ∧ r.finish = (.ok m, r') ∧
      ∃ layers, m.Permitted .keyless layers := by
  have h : Reaches .keyless (.packets signedPackets) _ _ := .start
  have h := h.step rfl rfl
  have hopen := h.step rfl rfl
  refine ⟨⟨_, _, _, hopen, rfl, (limits_of_reaches hopen).2.2.1 [] _ _ [] rfl⟩, ?_, ?_⟩
  · exact (limits_of_reaches .start).2.1 _
      ⟨.message, .packets [], (Automaton.initial.next .compressedData).2, []⟩ [] _ rfl
      ⟨rfl, rfl, ⟨.compressedData, rfl, rfl⟩, rfl⟩ (.inl ⟨_, rfl⟩) (by decide)
  · have h := hopen.step rfl rfl
    have h := h.read 2
    rw [read_of_literal rfl (by decide) (by decide)] at h
    have h := h.step rfl rfl
    have h := h.step rfl rfl
    have h := h.step rfl rfl
    obtain ⟨r, h, hp, hf, hl, hs⟩ : ∃ r, Reaches .keyless (.packets signedPackets) r [0x68, 0x69] ∧
        r.poisoned = false ∧ r.finished = none ∧ r.literal = [] ∧ r.frames = [] :=
      ⟨_, h, rfl, rfl, rfl, rfl⟩
    have e := finish_of_frames hp hf hl hs
    obtain ⟨layers, p, -, -, -, hm⟩ := (limits_of_reaches h).2.2.2 _ _ e
    exact ⟨r, _, _, h, e, layers, hm⟩

end OpenPGP
