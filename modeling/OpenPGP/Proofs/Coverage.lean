import OpenPGP.Proofs.Runs
/-!
# What signatures cover

The tree of a chain of layers holds one result for every signature of every layer,
and for no other. A signature behind the data is checked against the announcement the
grammar pairs it with, one in front of the data against none, and each over all of the
literal data. Every result that is recorded is one: where a check gives up, so does reading.

Results:
* `LayerRecord.signatures_eq`, `LayerRecord.announcements_eq`: the signatures and announcements of a
  layer are those its derivation pairs, no other.
* `LayerNode.signatures_nodes`: the tree of a chain of layers holds their results, innermost first.
* `LayerNode.literals_nodes`, `LayerNode.containers_nodes`: what else it holds.
* `Decided.of_reaches`: every check of a signature that is recorded came to a result.
-/
namespace OpenPGP

open Crypto

/-! ## The signatures of a layer -/

namespace Packet

def signature? : Packet → Option Signature
  | .signature s => some s
  | _ => none

def announcement? : Packet → Option OnePassSignature
  | .onePassSignature a => some a
  | _ => none

theorem filterMap_of_symbol {β : Type} {select : Packet → Option β} {s : InputSymbol}
    (h : ∀ p b, select p = some b → p.symbol? = some s) (packets : List Packet) :
    ((visible symbol? packets).filter fun p => symbol? p = some s).filterMap select =
      packets.filterMap select := by
  rw [visible, List.filter_filter, List.filterMap_filter]
  refine congrArg (fun f => packets.filterMap f) (funext fun p => ?_)
  cases hp : select p with
  | none => simp
  | some b => simp [h p b hp]

theorem symbol?_of_signature? (p : Packet) (s : Signature) (h : p.signature? = some s) :
    p.symbol? = some .signature := by
  cases p <;> first | rfl | cases h

theorem symbol?_of_announcement? (p : Packet) (a : OnePassSignature) (h : p.announcement? = some a) :
    p.symbol? = some .onePassSignature := by
  cases p <;> first | rfl | cases h

end Packet

namespace LayerRecord

/-- The signature packets of a layer, in order. -/
def signatures (l : LayerRecord) : List Signature := l.packets.filterMap Packet.signature?

/-- The announcements of a layer, in order. -/
def announcements (l : LayerRecord) : List OnePassSignature :=
  l.packets.filterMap Packet.announcement?

/-- Every signature of a layer stands in front of its data or is paired, and none twice. -/
theorem signatures_eq {l : LayerRecord} (h : l.IsMessage) :
    l.signatures = l.preceding ++ l.settled.map Prod.snd := by
  rw [signatures, ← Packet.filterMap_of_symbol Packet.symbol?_of_signature?, h.filter_signature]
  simp [outline, LayerSketch.pair, Packet.signature?, Function.comp_def]

/-- Every announcement of a layer is paired, the last first. -/
theorem announcements_eq {l : LayerRecord} (h : l.IsMessage) :
    l.announcements = (l.settled.map Prod.fst).reverse := by
  rw [announcements, ← Packet.filterMap_of_symbol Packet.symbol?_of_announcement?,
    h.filter_onePassSignature]
  simp [outline, LayerSketch.pair, Packet.announcement?, Function.comp_def]

theorem mem_verifications_iff {v : VerificationContext} {data : Octets} {l : LayerRecord}
    {x : SignatureVerification} : x ∈ l.verifications v data ↔
      (∃ a s, (a, s) ∈ l.settled ∧ x = verifySettled v data (a, s)) ∨
        ∃ s ∈ l.preceding, x = verifyPreceding v data s := by
  simp only [verifications, List.mem_append, List.mem_map, Prod.exists, eq_comm (a := x)]

end LayerRecord

/-! ## The tree -/

theorem Opens.signature?_layer {o : ReadingContext} {keys : List KeyPacket} {d : Packet}
    {layer : Layer} {content : Octets} (h : Opens o keys d layer content) :
    layer.signature? = none := by
  cases h <;> rfl

theorem Opens.literal?_layer {o : ReadingContext} {keys : List KeyPacket} {d : Packet}
    {layer : Layer} {content : Octets} (h : Opens o keys d layer content) : layer.literal? = none := by
  cases h <;> rfl

/-- The tree of a chain of layers holds the results of each, the innermost first. -/
theorem LayerNode.signatures_nodes {o : ReadingContext} {source : PacketSource}
    {layers : List LayerRecord} {p : LiteralData} (h : Reading o source layers p) (v : VerificationContext)
    (data : Octets) : (walk (LayerRecord.nodes v data layers)).filterMap Layer.signature? =
      layers.reverse.flatMap (LayerRecord.verifications v data) := by
  have hown : ∀ l : LayerRecord, ((l.verifications v data).map Layer.signature).filterMap
      Layer.signature? = l.verifications v data := by
    intro l
    simp [List.filterMap_map, Function.comp_def, Layer.signature?]
  induction h with
  | @literal s s' l p hy he hm hd hl =>
    have hlayer : l.layer.signature? = none := by rw [hl]; rfl
    rw [LayerRecord.walk_nodes_cons, List.filterMap_cons_none hlayer, List.filterMap_append, hown]
    simp [LayerRecord.nodes, walk]
  | @inside s s' l content inner p hy he hm ho h ih =>
    rw [LayerRecord.walk_nodes_cons, List.filterMap_cons_none ho.signature?_layer,
      List.filterMap_append, hown, ih]
    simp

/-- The tree of a chain of layers holds what was read as the data of the innermost one, and no other
literal data. -/
theorem LayerNode.literals_nodes {o : ReadingContext} {source : PacketSource}
    {layers : List LayerRecord} {p : LiteralData} (h : Reading o source layers p) (v : VerificationContext)
    (data : Octets) :
    (walk (LayerRecord.nodes v data layers)).filterMap Layer.literal? = [.ofPacket p] := by
  have hown : ∀ l : LayerRecord, ((l.verifications v data).map Layer.signature).filterMap
      Layer.literal? = [] := by
    intro l
    simp [List.filterMap_map, Function.comp_def, Layer.literal?]
  induction h with
  | @literal s s' l p hy he hm hd hl =>
    have hlayer : l.layer.literal? = some (.ofPacket p) := by rw [hl]; rfl
    rw [LayerRecord.walk_nodes_cons, List.filterMap_cons_some hlayer, List.filterMap_append, hown]
    simp [LayerRecord.nodes, walk]
  | @inside s s' l content inner p hy he hm ho h ih =>
    rw [LayerRecord.walk_nodes_cons, List.filterMap_cons_none ho.literal?_layer, List.filterMap_append,
      ih, hown, List.append_nil]

/-- The containers of the tree are those of the chain, the outermost first. -/
theorem LayerNode.containers_nodes (v : VerificationContext) (data : Octets) (layers : List LayerRecord) :
    (walk (LayerRecord.nodes v data layers)).filter Layer.isContainer =
      (layers.map LayerRecord.layer).filter Layer.isContainer := by
  have hown : ∀ l : LayerRecord, ((l.verifications v data).map Layer.signature).filter
      Layer.isContainer = [] := by
    intro l
    simp [Layer.isContainer]
  induction layers with
  | nil => rw [LayerRecord.nodes, walk]; rfl
  | cons l layers ih =>
    rw [LayerRecord.walk_nodes_cons, List.filter_cons, List.filter_append, ih, hown, List.append_nil,
      List.map_cons, List.filter_cons]

/-! ## Results -/

/-- Among layers every check of a signature came to a result. -/
def Decided (layers : List Layer) : Prop := ∀ v, Layer.signature v ∈ layers → v.hasOverflowed = false

namespace Decided

variable {o : ReadingContext} {source : PacketSource} {out : Octets} {b : MetadataBuilder}

theorem recordAt (h : Decided (LayerNode.walk b.roots)) (position : List Nat) {layer : Layer}
    (hl : ∀ v, layer = .signature v → v.hasOverflowed = false) :
    Decided (LayerNode.walk (b.recordAt position layer).roots) := by
  intro v hv
  obtain hold | hnew := (LayerNode.mem_walk_insertAt _ _ _).mp hv
  · exact h v hold
  · rw [LayerNode.leaf, LayerNode.walk, List.nil_append, LayerNode.walk, List.mem_singleton] at hnew
    exact hl v hnew.symm

theorem record (h : Decided (LayerNode.walk b.roots)) {layer : Layer}
    (hl : ∀ v, layer = .signature v → v.hasOverflowed = false) :
    Decided (LayerNode.walk (b.record layer).roots) :=
  h.recordAt b.position hl

theorem recordAll (h : Decided (LayerNode.walk b.roots))
    {settled : List (List Nat × SignatureVerification)} (hs : ∀ x ∈ settled, x.2.hasOverflowed = false) :
    Decided (LayerNode.walk
      (settled.foldl (fun m x => m.recordAt x.1 (.signature x.2)) b).roots) := by
  induction settled generalizing b with
  | nil => exact h
  | cons x settled ih =>
    obtain ⟨hx, hs⟩ := List.forall_mem_cons.mp hs
    refine ih (h.recordAt x.1 ?_) hs
    rintro _ ⟨⟩
    exact hx

/-- **One step** records no signature without a result. -/
theorem step {s s' : ReadingState} (h : Decided (LayerNode.walk s.metadata.roots)) (hs : Step o s s') :
    Decided (LayerNode.walk s'.metadata.roots) := by
  cases hs with
  | pass | key | announce | precede | unannounced => exact h
  | settle _ _ _ hv =>
    refine h.recordAt _ ?_
    rintro _ ⟨⟩
    exact hv
  | literal => exact h.record fun v hl => by cases hl
  | enter _ ho _ =>
    refine h.record fun v hl => ?_
    have hnone := ho.signature?_layer
    rw [hl] at hnone
    cases hnone
  | leave _ hv =>
    have hall := h.recordAll hv
    dsimp only
    split
    · exact hall
    · exact hall

/-- Neither in the tree that grows nor in the one that was given out is there such a signature. -/
theorem preserves : MessageReader.Preserves fun r : MessageReader o =>
    Decided (LayerNode.walk r.metadata.roots) ∧ ∀ m ∈ r.finished, Decided m.layers where
  step r r' h hs := by
    obtain ⟨⟨-, hfinished⟩, hstep⟩ := MessageReader.step_of_eq_some hs
    rw [hfinished]
    exact ⟨h.1.step hstep, h.2⟩
  poison r h := h
  release r n h := h
  give r h := by
    refine ⟨fun v hv => ?_, ?_⟩
    · rw [MetadataBuilder.empty, LayerNode.walk] at hv
      cases hv
    · rintro _ ⟨⟩
      exact h.1

/-- **Every run**: so it is in every state. -/
theorem of_reaches {r : MessageReader o} (h : MessageReader.Reaches o source r out) :
    Decided (LayerNode.walk r.metadata.roots) ∧ ∀ m ∈ r.finished, Decided m.layers := by
  refine h.preserved preserves ⟨fun v hv => ?_, fun m hm => absurd hm (Option.not_mem_none m)⟩
  rw [MessageReader.start, MetadataBuilder.empty, LayerNode.walk] at hv
  cases hv

/-- The signatures of metadata that is given out were all judged. -/
theorem signatures_of_finish {r r' : MessageReader o} {m : MessageMetadata}
    (h : MessageReader.Reaches o source r out) (e : r.finish = (.ok m, r')) :
    ∀ v ∈ m.signatures, v.hasOverflowed = false := by
  intro v hv
  have hfinished : m ∈ r'.finished := MessageReader.finished_of_finish e
  obtain ⟨layer, hlayer, hsignature⟩ := List.mem_filterMap.mp hv
  have hreach := h.finish
  rw [e] at hreach
  refine (of_reaches hreach).2 m hfinished v ?_
  cases layer <;> cases hsignature
  exact hlayer

end Decided

theorem Reading.isMessage {o : ReadingContext} {source : PacketSource} {layers : List LayerRecord}
    {p : LiteralData} (h : Reading o source layers p) : ∀ l ∈ layers, l.IsMessage := by
  induction h with
  | literal hy he hm hd hl => simpa using hm
  | inside hy he hm ho h ih =>
    intro l hl
    rcases List.mem_cons.mp hl with rfl | hl
    · exact hm
    · exact ih l hl

end OpenPGP
