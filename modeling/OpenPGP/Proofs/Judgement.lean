import OpenPGP.Proofs.Failures
import OpenPGP.Proofs.Lockstep
/-!
# Readers before different judges

By what signatures are judged decides nothing but the judgement: neither what is given
out nor where reading fails depends on the known certificates, the clock, the hashes that
are accepted or the skew that is allowed. Two readers of the same packets that differ
in these only stay `Alike` at every step, in everything but what became of the signatures
in their trees, and `unjudged` takes that out of a tree.

There is one exception. A check compares the time of a signature with the sum of the clock and the
skew, and gives up if the sum is out of range. So a reader is compared with one whose checks all come to
results, up to where it gives up itself.

Results:
* `VerificationContext.unjudged_verify`: what a check says besides its judgement is in the packets.
* `MessageReader.Alike.step`: one step of two readers.
* `MessageReader.Alike.lockstep`: they cannot be told apart, up to where the first gives up.
* `MessageReader.Alike.answersInTurn`: nor can they where every request has a judge of its own.
-/
namespace OpenPGP

/-! ## Judges -/

/-- By what signatures are judged. -/
structure Judge where
  certificate? : KeyIdentifier → Option VerifyingKey
  now : Instant
  signatureHash : List HashAlgorithm
  clockSkew : Duration

def Policy.judgedBy (p : Policy) (j : Judge) : Policy :=
  { p with signatureHash := j.signatureHash, clockSkew := j.clockSkew }

/-- The context with another judge. -/
def ReadingContext.judgedBy (o : ReadingContext) (j : Judge) : ReadingContext :=
  { o with
    certificate? := j.certificate?
    now := j.now
    restrictions := { o.restrictions with policy := o.restrictions.policy.judgedBy j } }

/-! ## Without judgements -/

/-- A result of checking a signature without what was found: who made it, and whether it verified. -/
def SignatureVerification.unjudged (v : SignatureVerification) : SignatureVerification :=
  { v with signer := none, verified := false, failure := none }

def Layer.unjudged : Layer → Layer
  | signature v => signature v.unjudged
  | layer => layer

namespace LayerNode

mutual

/-- A tree without the judgements of its signatures. -/
def unjudged : LayerNode → LayerNode
  | mk layer children => mk layer.unjudged (unjudgedAll children)

/-- Trees without the judgements of their signatures. -/
def unjudgedAll : List LayerNode → List LayerNode
  | [] => []
  | node :: nodes => node.unjudged :: unjudgedAll nodes

end

end LayerNode

def MessageMetadata.unjudged (m : MessageMetadata) : MessageMetadata := ⟨LayerNode.unjudgedAll m.roots⟩

def MetadataBuilder.unjudged (b : MetadataBuilder) : MetadataBuilder :=
  ⟨LayerNode.unjudgedAll b.roots, b.position⟩

@[simp] theorem Layer.isContainer_unjudged (layer : Layer) :
    layer.unjudged.isContainer = layer.isContainer := by
  cases layer <;> rfl

namespace LayerNode

theorem unjudgedAll_eq_map (nodes : List LayerNode) : unjudgedAll nodes = nodes.map unjudged := by
  induction nodes with
  | nil => rfl
  | cons node nodes ih => rw [unjudgedAll, ih, List.map_cons]

@[simp] theorem unjudged_leaf (layer : Layer) : (leaf layer).unjudged = leaf layer.unjudged := rfl

@[simp] theorem children_unjudged (node : LayerNode) :
    node.unjudged.children = unjudgedAll node.children := by
  cases node
  rfl

theorem unjudgedAll_childrenAt (path : List Nat) (nodes : List LayerNode) :
    unjudgedAll (childrenAt path nodes) = childrenAt path (unjudgedAll nodes) := by
  induction path generalizing nodes with
  | nil => rfl
  | cons i path ih =>
    rw [childrenAt, childrenAt, unjudgedAll_eq_map nodes, List.getElem?_map]
    cases nodes[i]? with
    | none => exact unjudgedAll_eq_map nodes
    | some node =>
      dsimp only [Option.map_some]
      rw [children_unjudged]
      exact ih node.children

theorem unjudgedAll_insertAt (node : LayerNode) (path : List Nat) (nodes : List LayerNode) :
    unjudgedAll (insertAt node path nodes) = insertAt node.unjudged path (unjudgedAll nodes) := by
  induction path generalizing nodes with
  | nil => simp [insertAt, unjudgedAll_eq_map]
  | cons i path ih =>
    rw [insertAt, insertAt, unjudgedAll_eq_map nodes, List.getElem?_map]
    cases nodes[i]? with
    | none => simp [unjudgedAll_eq_map]
    | some inner =>
      obtain ⟨layer, children⟩ := inner
      rw [unjudgedAll_eq_map, List.map_set, Option.map_some, unjudged, unjudged, ih]

end LayerNode

namespace MetadataBuilder

variable (b : MetadataBuilder)

theorem unjudged_record (layer : Layer) : (b.record layer).unjudged = b.unjudged.record layer.unjudged := by
  simp only [record, unjudged, LayerNode.unjudgedAll_insertAt, LayerNode.unjudged_leaf,
    Layer.isContainer_unjudged, ← LayerNode.unjudgedAll_childrenAt]
  simp [LayerNode.unjudgedAll_eq_map]

theorem unjudged_recordAt (position : List Nat) (layer : Layer) :
    (b.recordAt position layer).unjudged = b.unjudged.recordAt position layer.unjudged := by
  simp only [recordAt, unjudged, LayerNode.unjudgedAll_insertAt, LayerNode.unjudged_leaf]

theorem unjudged_recordAll (settled : List (List Nat × SignatureVerification)) :
    (settled.foldl (fun m x => m.recordAt x.1 (.signature x.2)) b).unjudged =
      (settled.map fun x => (x.1, x.2.unjudged)).foldl (fun m x => m.recordAt x.1 (.signature x.2))
        b.unjudged := by
  induction settled generalizing b with
  | nil => rfl
  | cons x settled ih =>
    rw [List.foldl_cons, ih, unjudged_recordAt, List.map_cons, List.foldl_cons]
    rfl

end MetadataBuilder

/-! ## What no judge decides -/

/-- Besides its judgement a check says what the packets say. -/
theorem VerificationContext.unjudged_verify (c c' : VerificationContext) (signature : Signature)
    (hasher : Option Crypto.SignatureHasher) (announcement : Option OnePassSignature)
    (placement : SignaturePlacement) :
    (c.verify signature hasher announcement placement).unjudged =
      (c'.verify signature hasher announcement placement).unjudged := by
  unfold verify
  generalize c.check signature hasher announcement = result
  generalize c'.check signature hasher announcement = result'
  rfl

/-- No judge decides which signatures are settled, and where. -/
theorem Correlation.unjudged_settlePreceding (c : Correlation) (v v' : VerificationContext) (depth : Nat) :
    (c.settlePreceding v depth).1.map (fun x => (x.1, x.2.unjudged)) =
      (c.settlePreceding v' depth).1.map fun x => (x.1, x.2.unjudged) := by
  simp only [settlePreceding, List.map_map]
  exact List.map_congr_left fun p _ => congrArg (p.position, ·) (v.unjudged_verify v' _ _ _ _)

namespace Resolution

variable (p : Policy) (j : Judge)

theorem run_judgedBy (data : EncryptedData) (t : Trial) : t.run (p.judgedBy j) data = t.run p data := by
  cases t with
  | hopeless => rfl
  | attempt packet source unlocking => cases unlocking <;> rfl

variable {p} in
theorem Runs.judgedBy {data : EncryptedData} {ts : List Trial} {attempts : List KeyAttempt}
    {found : Option ResolvedKey} (h : Runs p data ts attempts found) :
    Runs (p.judgedBy j) data ts attempts found := by
  induction h with
  | nil => exact .nil
  | success h => exact .success ((run_judgedBy p j data _).trans h)
  | failure h _ ih => exact .failure ((run_judgedBy p j data _).trans h) ih

end Resolution

/-- Session keys are found without regard to signatures. -/
theorem EncryptedData.resolveBy_judgedBy (data : EncryptedData) (p : Policy) (j : Judge)
    (credentials : CredentialProvider) (packets : List KeyPacket) :
    data.resolveBy (p.judgedBy j) credentials packets = data.resolveBy p credentials packets := by
  obtain ⟨attempts, found, h⟩ := Resolution.exists_runs p data
    (Resolution.trials credentials packets data.version)
  exact (resolveBy_of_runs (h.judgedBy j)).trans (resolveBy_of_runs h).symm

theorem MessageReader.integrityOf_judgedBy (p : Policy) (j : Judge) (data : EncryptedData) :
    integrityOf (p.judgedBy j) data = integrityOf p data := by
  cases data <;> rfl

/-! ## Two readers -/

namespace MessageReader

variable {o : ReadingContext} {j : Judge} {r : MessageReader o} {r' : MessageReader (o.judgedBy j)}

/-- Two readers that differ at most in what became of the signatures they have read. -/
structure Alike (r : MessageReader o) (r' : MessageReader (o.judgedBy j)) : Prop where
  frames : r'.frames = r.frames
  correlation : r'.correlation = r.correlation
  metadata : r'.metadata.unjudged = r.metadata.unjudged
  literal : r'.literal = r.literal
  poisoned : r'.poisoned = r.poisoned
  finished : r'.finished.map MessageMetadata.unjudged = r.finished.map MessageMetadata.unjudged

namespace Alike

theorem position (h : Alike r r') : r'.metadata.position = r.metadata.position := by
  have := congrArg MetadataBuilder.position h.metadata
  exact this

theorem record (h : Alike r r') (layer : Layer) :
    (r'.metadata.record layer).unjudged = (r.metadata.record layer).unjudged := by
  rw [MetadataBuilder.unjudged_record, MetadataBuilder.unjudged_record, h.metadata]

theorem withFrames (h : Alike r r') {frames : List Frame} (hf : frames.length ≤ o.maxLayers) :
    Alike (r.withFrames frames hf) (r'.withFrames frames hf) :=
  ⟨rfl, h.correlation, h.metadata, h.literal, h.poisoned, h.finished⟩

theorem enter (h : Alike r r') (kind : LayerKind) (layer : Layer) (content : Octets) (frame : Frame)
    (outer : List Frame) (hd : outer.length + 1 ≤ o.restrictions.nestingDepth) :
    Alike (r.enter kind layer content frame outer hd) (r'.enter kind layer content frame outer hd) :=
  ⟨rfl, h.correlation, h.record layer, h.literal, h.poisoned, h.finished⟩

theorem enterCompressed (h : Alike r r') (packet : CompressedData) (frame : Frame) (outer : List Frame) :
    SameOutcome Alike (r.enterCompressed packet frame outer) (r'.enterCompressed packet frame outer) := by
  have hpolicy : (o.judgedBy j).restrictions.policy.acceptsCompression =
    o.restrictions.policy.acceptsCompression := rfl
  have hlength : (o.judgedBy j).restrictions.decompressedLength = o.restrictions.decompressedLength := rfl
  unfold MessageReader.enterCompressed
  rw [hpolicy, hlength]
  by_cases hd : outer.length + 1 ≤ o.restrictions.nestingDepth
  · have hd' : outer.length + 1 ≤ (o.judgedBy j).restrictions.nestingDepth := hd
    rw [dif_pos hd, dif_pos hd']
    split
    · exact .error _
    · cases packet.decompress o.restrictions.decompressedLength with
      | error e => exact .error e
      | ok content => exact .ok (h.enter ..)
  · have hd' : ¬ outer.length + 1 ≤ (o.judgedBy j).restrictions.nestingDepth := hd
    rw [dif_neg hd, dif_neg hd']
    exact .error _

theorem enterEncrypted (h : Alike r r') (data : EncryptedData) (frame : Frame) (outer : List Frame) :
    SameOutcome Alike (r.enterEncrypted data frame outer) (r'.enterEncrypted data frame outer) := by
  have hpolicy : (o.judgedBy j).restrictions.policy = o.restrictions.policy.judgedBy j := rfl
  have hcredentials : (o.judgedBy j).credentials = o.credentials := rfl
  unfold MessageReader.enterEncrypted
  rw [hpolicy, hcredentials, integrityOf_judgedBy, EncryptedData.resolveBy_judgedBy]
  by_cases hd : outer.length + 1 ≤ o.restrictions.nestingDepth
  · have hd' : outer.length + 1 ≤ (o.judgedBy j).restrictions.nestingDepth := hd
    rw [dif_pos hd, dif_pos hd']
    cases integrityOf o.restrictions.policy data with
    | error e => exact .error e
    | ok integrity =>
      cases data.resolveBy o.restrictions.policy o.credentials frame.keyPackets with
      | error e => exact .error e
      | ok resolved => exact .ok (h.enter ..)
  · have hd' : ¬ outer.length + 1 ≤ (o.judgedBy j).restrictions.nestingDepth := hd
    rw [dif_neg hd, dif_neg hd']
    exact .error _

/-! The second reader comes to a result at every check, and the first to the same, or it gives up. -/

section
variable (hj : (o.judgedBy j).verifier.Decides)

include hj

theorem settleSignature (h : Alike r r') (signature : Signature) : SameUnless MessageError.IsOverflow Alike
    (r.settleSignature signature) (r'.settleSignature signature) := by
  obtain ⟨last', e', -⟩ := exists_settleSignature hj r' signature
  rw [e']
  cases e : r.settleSignature signature with
  | error error =>
    obtain ⟨rfl, -⟩ := settleSignature_eq_error e
    exact .fails (p := MessageError.IsOverflow) rfl _
  | ok last =>
    have hc := h.correlation
    obtain ⟨hp, rfl⟩ | ⟨obligation, pending, hp, -, rfl⟩ := settleSignature_eq_ok e <;>
      obtain ⟨hp', rfl⟩ | ⟨obligation', pending', hp', -, rfl⟩ := settleSignature_eq_ok e' <;>
      rw [hc, hp] at hp' <;> cases hp'
    · exact .same (.ok h)
    · refine .same (.ok ⟨h.frames, by rw [hc], ?_, h.literal, h.poisoned, h.finished⟩)
      dsimp only
      rw [MetadataBuilder.unjudged_recordAt, MetadataBuilder.unjudged_recordAt, h.metadata]
      simp only [Layer.unjudged, o.verifier.unjudged_verify (o.judgedBy j).verifier]

theorem act (h : Alike r r') (beforeData : Bool) (packet : Packet) (frame : Frame) (outer : List Frame)
    (hb : outer.length + 1 ≤ o.maxLayers) : SameUnless MessageError.IsOverflow Alike
      (r.act beforeData packet frame outer hb) (r'.act beforeData packet frame outer hb) := by
  unfold MessageReader.act
  dsimp only
  split
  · exact .same (.ok (h.withFrames _))
  · exact .same (.ok (h.withFrames _))
  · exact .same (h.enterEncrypted _ _ _)
  · exact .same (.error _)
  · exact .same (h.enterCompressed _ _ _)
  · refine .same (.ok ⟨rfl, ?_, h.metadata, h.literal, h.poisoned, h.finished⟩)
    dsimp only
    rw [h.correlation, h.position]
  · split
    · refine .same (.ok ⟨rfl, ?_, h.metadata, h.literal, h.poisoned, h.finished⟩)
      dsimp only
      rw [h.correlation, h.position]
    · exact (h.withFrames _).settleSignature hj _
  · exact .same (.ok ⟨rfl, h.correlation, h.record _, rfl, h.poisoned, h.finished⟩)
  · exact .same (.ok (h.withFrames _))
  · exact .same (.ok (h.withFrames _))
  · exact .same (.ok (h.withFrames _))

theorem take (h : Alike r r') (packet : Packet) (frame : Frame) (outer : List Frame)
    (hb : outer.length + 1 ≤ o.maxLayers) : SameUnless MessageError.IsOverflow Alike
      (r.take packet frame outer hb) (r'.take packet frame outer hb) := by
  unfold MessageReader.take
  split
  · exact .same (.ok (h.withFrames _))
  · split
    · exact .same (.error _)
    · exact h.act hj _ _ _ _ _

theorem leave (h : Alike r r') (frame : Frame) (outer : List Frame) (hb : outer.length ≤ o.maxLayers) :
    SameUnless MessageError.IsOverflow Alike (r.leave frame outer hb) (r'.leave frame outer hb) := by
  have hdecided : ((r'.correlation.settlePreceding (o.judgedBy j).verifier outer.length).1.any
      fun x => x.2.hasOverflowed) = false := by
    rw [List.any_eq_false]
    intro x hx
    obtain ⟨p, -, rfl⟩ := List.mem_map.mp hx
    simp [hj p.signature p.hasher none .preceding]
  unfold MessageReader.leave
  split
  · exact .same (.error _)
  split
  · exact .same (.error _)
  dsimp only
  rw [hdecided]
  split
  · exact .fails (p := MessageError.IsOverflow) rfl _
  have hmetadata : ((r'.correlation.settlePreceding (o.judgedBy j).verifier outer.length).1.foldl
        (fun m x => m.recordAt x.1 (.signature x.2)) r'.metadata).unjudged =
      ((r.correlation.settlePreceding o.verifier outer.length).1.foldl
        (fun m x => m.recordAt x.1 (.signature x.2)) r.metadata).unjudged := by
    rw [MetadataBuilder.unjudged_recordAll, MetadataBuilder.unjudged_recordAll, h.metadata, h.correlation,
      r.correlation.unjudged_settlePreceding (o.judgedBy j).verifier o.verifier]
  refine .same (.ok ⟨rfl, ?_, ?_, h.literal, h.poisoned, h.finished⟩)
  · dsimp only
    rw [h.correlation]
    rfl
  · dsimp only
    split
    · exact hmetadata
    · exact congrArg MetadataBuilder.close hmetadata

/-- **One step.** -/
theorem step (h : Alike r r') : SameUnless MessageError.IsOverflow (Option.Rel Alike) r.step r'.step :=
  step_of_frames_eq h.frames (fun f outer hb _ => h.leave hj f outer hb) fun p f outer hb _ =>
    h.take hj p f outer hb

end

theorem poison (h : Alike r r') : Alike r.poison r'.poison :=
  ⟨rfl, h.correlation, h.metadata, rfl, rfl, h.finished⟩

theorem release (h : Alike r r') (n : Nat) : Alike (r.release n) (r'.release n) := by
  refine ⟨h.frames, ?_, h.metadata, ?_, h.poisoned, h.finished⟩
  · simp only [MessageReader.release, h.correlation, h.literal]
  · simp only [MessageReader.release, h.literal]

/-- **Going on.** -/
theorem settle (hj : (o.judgedBy j).verifier.Decides) (h : Alike r r') : (∃ result next next',
    r.settle = (result, next) ∧ r'.settle = (result, next') ∧ Alike next next') ∨
      ∃ e next, r.settle = (.error e, next) ∧ e = .overflow := by
  fun_induction MessageReader.settle r generalizing r' with
  | case1 r hl =>
    rw [MessageReader.settle, if_pos (h.literal ▸ hl)]
    exact .inl ⟨_, _, _, rfl, rfl, h⟩
  | case2 r hl error hs =>
    have hstep := h.step hj
    rw [hs] at hstep
    obtain hs' | rfl := hstep.of_error
    · rw [settle_of_error (h.literal.trans (Decidable.not_not.mp hl)) hs']
      exact .inl ⟨_, _, _, rfl, rfl, h.poison⟩
    · exact .inr ⟨_, _, rfl, rfl⟩
  | case3 r hl hs =>
    rw [settle_of_frames (h.literal.trans (Decidable.not_not.mp hl))
      (h.frames.trans (step_eq_none_iff.mp hs))]
    exact .inl ⟨_, _, _, rfl, rfl, h⟩
  | case4 r hl next hs ih =>
    have hstep := h.step hj
    rw [hs] at hstep
    obtain ⟨_, hs', ⟨hnext⟩⟩ := hstep.of_ok
    rw [settle_of_step (h.literal.trans (Decidable.not_not.mp hl)) hs']
    exact ih hnext

/-- Two such readers cannot be told apart until the first gives up, but for the judgements in a tree. -/
theorem lockstep (hj : (o.judgedBy j).verifier.Decides) :
    Lockstep MessageError.IsOverflow MessageMetadata.unjudged (@Alike o j) where
  settle := settle hj
  release := release
  give h _ _ hm := ⟨h.frames, h.correlation, rfl, h.literal, h.poisoned, hm⟩
  ended h := by rw [h.frames]
  metadata h := congrArg (fun b : MetadataBuilder => MessageMetadata.mk b.roots) h.metadata
  literal := literal
  poisoned := poisoned
  finished := finished

end Alike

/-! ## Requests -/

/-- An answer without the judgements of the signatures in a tree. -/
def Answer.unjudged : Answer → Answer
  | octets result => octets result
  | metadata result => metadata (result.map MessageMetadata.unjudged)

theorem Answer.unjudged_eq_through : Answer.unjudged = Answer.through MessageMetadata.unjudged := by
  funext a
  cases a <;> rfl

/-- The same reader before another judge. -/
def judgedBy (r : MessageReader o) (j : Judge) : MessageReader (o.judgedBy j) :=
  ⟨r.frames, r.correlation, r.metadata, r.literal, r.poisoned, r.finished, r.nested⟩

/-- The answers to requests while certificates come and go and the clock runs: what is checked for a
request is judged by the judge it stands with. -/
def answersInTurn : {o : ReadingContext} → MessageReader o → List (Judge × Request) → List Answer
  | _, _, [] => []
  | _, r, (j, request) :: requests =>
    ((r.judgedBy j).answer request).1 :: ((r.judgedBy j).answer request).2.answersInTurn requests

/-- It does not matter who judged before. -/
theorem Alike.rejudge (h : Alike r r') (j' : Judge) :
    Alike (o := o.judgedBy j') (j := j) (r.judgedBy j') r' :=
  ⟨h.frames, h.correlation, h.metadata, h.literal, h.poisoned, h.finished⟩

/-- **Any requests, each before its own judge.** -/
theorem Alike.answersInTurn (hj : (o.judgedBy j).verifier.Decides) (h : Alike r r')
    (requests : List (Judge × Request)) (hn : ∀ a ∈ r.answersInTurn requests, ¬ a.Fails MessageError.IsOverflow) :
    (r'.answers (requests.map Prod.snd)).map (Answer.through MessageMetadata.unjudged) =
      (r.answersInTurn requests).map (Answer.through MessageMetadata.unjudged) := by
  induction requests generalizing o r with
  | nil => rfl
  | cons request requests ih =>
    obtain ⟨j', request⟩ := request
    obtain ⟨hhere, hn⟩ := List.forall_mem_cons.mp hn
    -- the reader behind the request has only the judge of the request
    have hj' : ((o.judgedBy j').judgedBy j).verifier.Decides := hj
    obtain ⟨hanswer, hnext⟩ := ((Alike.lockstep hj').answer (h.rejudge j') request).resolve_right hhere
    rw [MessageReader.answersInTurn, List.map_cons, List.map_cons, MessageReader.answers, List.map_cons]
    exact congrArg₂ List.cons hanswer (ih hj' hnext hn)

theorem Alike.start (o : ReadingContext) (j : Judge) (source : PacketSource) :
    Alike (start o source) (start (o.judgedBy j) source) :=
  ⟨rfl, rfl, rfl, rfl, rfl, rfl⟩

end MessageReader

end OpenPGP
