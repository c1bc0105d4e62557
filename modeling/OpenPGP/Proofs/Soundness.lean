import OpenPGP.Proofs.Nesting
/-!
# What holds while a message is read

`Sound` ties the state of a reader, and the octets it has given out, to what the
packets say: the innermost layer with the packets taken from it, the layers
around it, and what became of the data. It is kept by every step, so it holds of
everything a reader comes to. Where all layers have ended it says that the source
reads as a chain of layers, and that the tree is theirs.

Results:
* `Sound.step`: a step that is taken when nothing waits to be given out keeps it.
* `Sound.recorded`: every container in the tree was opened.
-/
namespace OpenPGP

open Crypto

variable {o : ReadingContext} {source : PacketSource} {out : Octets}

/-- What became of the data of a layer, and the nodes recorded for the layer: none before the data is
met, then the data with what is inside and the signatures behind it. -/
inductive Reached (o : ReadingContext) (source : PacketSource) (out literal : Octets)
    (k : LayerSketch) : List LayerNode → Prop
  | before (hd : k.data = none) (ho : out = []) (hl : literal = []) :
      Reached o source out literal k []
  | behind {d : Packet} {layer : Layer} {inner : List LayerRecord} {p : LiteralData}
      (hd : k.data = some d) (hw : Within o k.keys d layer inner p) (ho : out ++ literal = p.body)
      (hp : LeadsTo o source p) :
      Reached o source out literal k
        (⟨layer, LayerRecord.nodes o.verifier p.body inner⟩ ::
          k.settled.map fun x => .leaf (.signature (LayerRecord.verifySettled o.verifier p.body x)))

/-- What a reader of a source has come to after octets were given out. -/
inductive Sound (o : ReadingContext) (source : PacketSource) (out : Octets) : ReadingState → Prop
  | reading {c : Surroundings} {f : Frame} {packets : List Packet} {nodes : List LayerNode}
      {literal : Octets} (hc : c.Open o source) (hk : c.kind? = some f.kind)
      (hf : f.Took c.start packets) (hr : Reached o source out literal (layerSketch packets) nodes) :
      Sound o source out ⟨f :: c.frames,
        .covering out (c.owing (layerSketch packets)) (c.holding (layerSketch packets)),
        .within c.layers nodes, literal⟩
  | ended {layers : List LayerRecord} {p : LiteralData} (h : Reading o source layers p)
      (hp : LeadsTo o source p) (ho : out = p.body) :
      Sound o source out ⟨[], .covering out [] [],
        .within [] (LayerRecord.nodes o.verifier p.body layers), []⟩

theorem Reached.of_data_none {literal : Octets} {k : LayerSketch} {nodes : List LayerNode}
    (h : Reached o source out literal k nodes) (hd : k.data = none) :
    out = [] ∧ literal = [] ∧ nodes = [] := by
  cases h with
  | before _ ho hl => exact ⟨ho, hl, rfl⟩
  | behind hd' => rw [hd] at hd'; cases hd'

namespace Sound

theorem start (o : ReadingContext) (source : PacketSource) :
    Sound o source [] ⟨[.ofSource .message source], .empty, .empty, []⟩ :=
  have hr : Reached o source [] [] (layerSketch []) [] := .before rfl rfl rfl
  .reading .root rfl (.ofSource .message source) hr

/-- Where all layers inside were read, the surroundings go on behind the container, or have ended. -/
theorem climb {c : Surroundings} (hc : c.Open o source) {layers : List LayerRecord} {p : LiteralData}
    (h : Reading o c.start layers p) (hp : LeadsTo o source p) :
    Sound o source p.body ⟨c.frames, .covering p.body c.owed c.preceding,
      if c.frames = [] then .within c.layers (LayerRecord.nodes o.verifier p.body layers)
      else (MetadataBuilder.within c.layers (LayerRecord.nodes o.verifier p.body layers)).close, []⟩ := by
  cases hc with
  | root => exact .ended h hp rfl
  | @inside c f packets d layer content hc hk hf hn hd ho =>
    have hdata : (layerSketch (packets ++ [d])).data = some d := by rw [hd]
    have hw : Within o (layerSketch (packets ++ [d])).keys d layer layers p := by
      rw [hd]
      exact .opened ho h
    have := Sound.reading hc hk hf (.behind hdata hw (List.append_nil p.body) hp)
    simp only [hd, LayerSketch.settled_of_data_none hn, List.map_nil] at this
    rw [if_neg (by simp [Surroundings.inside])]
    simp only [Surroundings.inside, MetadataBuilder.close_within]
    exact this

section
variable {c : Surroundings} {f f' : Frame} {packets : List Packet} {nodes : List LayerNode}
  (hc : c.Open o source) (hk : c.kind? = some f.kind) (hf : f.Took c.start packets)

include hc hk hf

theorem key {k : KeyPacket} (ht : f.Takes k.packet f')
    (hr : Reached o source out [] (layerSketch packets) nodes) :
    Sound o source out ⟨f'.addKeyPacket k :: c.frames,
      .covering out (c.owing (layerSketch packets)) (c.holding (layerSketch packets)),
      .within c.layers nodes, []⟩ := by
  have hd := hf.data_none_of_takes ht (by cases k <;> simp [KeyPacket.packet])
  obtain ⟨rfl, -, rfl⟩ := hr.of_data_none hd
  have hsketch : layerSketch (packets ++ [k.packet]) =
      { layerSketch packets with keys := (layerSketch packets).keys ++ [k] } := by
    cases k <;> simp [LayerSketch.add, KeyPacket.packet]
  have hnew : (f'.addKeyPacket k).Took c.start (packets ++ [k.packet]) := by
    refine hf.take ht (fun _ => ?_) (by cases k <;> simp [KeyPacket.packet])
    rw [hsketch, ht.keys, hf.keys hd]
  have hr' : Reached o source [] [] (layerSketch (packets ++ [k.packet])) [] :=
    .before (by rw [hsketch]; exact hd) rfl rfl
  have := Sound.reading hc (by simpa [Frame.addKeyPacket, ht.kind] using hk) hnew hr'
  rwa [hsketch] at this

theorem announce {a : OnePassSignature} (ht : f.Takes (.onePassSignature a) f')
    (hr : Reached o source out [] (layerSketch packets) nodes) :
    Sound o source out ⟨f' :: c.frames,
      (Correlation.covering out (c.owing (layerSketch packets)) (c.holding (layerSketch packets))).announce
        a (List.replicate c.layers.length 0), .within c.layers nodes, []⟩ := by
  have hd := hf.data_none_of_takes ht (by simp)
  obtain ⟨rfl, -, rfl⟩ := hr.of_data_none hd
  have hsketch : layerSketch (packets ++ [.onePassSignature a]) =
      { layerSketch packets with owed := a :: (layerSketch packets).owed } := layerSketch_append ..
  have hnew : f'.Took c.start (packets ++ [.onePassSignature a]) :=
    hf.take ht (fun _ => by rw [hsketch, ht.keys, hf.keys hd]) (by simp)
  have hr' : Reached o source [] [] (layerSketch (packets ++ [.onePassSignature a])) [] :=
    .before (by rw [hsketch]; exact hd) rfl rfl
  have := Sound.reading hc (by rw [ht.kind]; exact hk) hnew hr'
  rw [hsketch] at this
  rw [hc.length_layers, Correlation.announce_covering]
  exact this

theorem precede {s : Signature} (ht : f.Takes (.signature s) f') (hb : f.isBeforeData = true)
    (hr : Reached o source out [] (layerSketch packets) nodes) :
    Sound o source out ⟨f' :: c.frames,
      (Correlation.covering out (c.owing (layerSketch packets)) (c.holding (layerSketch packets))).precede
        s (List.replicate c.layers.length 0) c.frames.length, .within c.layers nodes, []⟩ := by
  obtain ⟨hd, -⟩ | ⟨hb', -⟩ := hf.of_takes ht
  · obtain ⟨rfl, -, rfl⟩ := hr.of_data_none hd
    have hsketch : layerSketch (packets ++ [.signature s]) =
        { layerSketch packets with preceding := (layerSketch packets).preceding ++ [s] } := by
      simp [LayerSketch.add, hd]
    have hnew : f'.Took c.start (packets ++ [.signature s]) :=
      hf.take ht (fun _ => by rw [hsketch, ht.keys, hf.keys hd]) (by simp)
    have hr' : Reached o source [] [] (layerSketch (packets ++ [.signature s])) [] :=
      .before (by rw [hsketch]; exact hd) rfl rfl
    have := Sound.reading hc (by rw [ht.kind]; exact hk) hnew hr'
    rw [hsketch] at this
    rw [hc.length_layers, Correlation.precede_covering]
    simpa [Surroundings.holding, Surroundings.owing] using this
  · rw [hb] at hb'
    cases hb'

theorem settle {s : Signature} {obligation : Obligation} {pending : List Obligation}
    (ht : f.Takes (.signature s) f') (hb : f.isBeforeData = false)
    (hp : Obligation.covering out (c.owing (layerSketch packets)) = obligation :: pending)
    (hr : Reached o source out [] (layerSketch packets) nodes) :
    Sound o source out ⟨f' :: c.frames,
      ⟨pending, PrecedingSignature.covering out (c.holding (layerSketch packets))⟩,
      (MetadataBuilder.within c.layers nodes).recordAt obligation.position (.signature
        (o.verifier.verify s obligation.hasher (some obligation.announcement) .onePass)), []⟩ := by
  obtain ⟨-, hb'⟩ | ⟨-, d, a, owed, s', hd, howed, hs⟩ := hf.of_takes ht
  · rw [hb' rfl] at hb
    cases hb
  · obtain rfl : s = s' := Packet.signature.inj hs
    cases hr with
    | before hd' => rw [hd] at hd'; cases hd'
    | @behind d' layer inner p hd' hw ho hl =>
      obtain rfl : out = p.body := by simpa using ho
      have hsketch : layerSketch (packets ++ [.signature s]) =
          { layerSketch packets with
            owed, settled := (layerSketch packets).settled ++ [(a, s)] } := by
        simp [LayerSketch.add, hd, LayerSketch.settle, howed]
      have hnew : f'.Took c.start (packets ++ [.signature s]) :=
        hf.take ht (fun h => by rw [hsketch] at h; rw [hd] at h; cases h) (by simp)
      have := Sound.reading hc (by rw [ht.kind]; exact hk) hnew
        (.behind (by rw [hsketch]; exact hd') (by rw [hsketch]; exact hw) ho hl)
      simp only [hsketch, List.map_append] at this
      have howing : c.owing (layerSketch packets) =
          (a, c.frames.length) :: c.owing { layerSketch packets with owed } := by
        simp [Surroundings.owing, howed]
      rw [howing] at hp
      obtain ⟨rfl, rfl⟩ := List.cons.inj hp
      rw [← hc.length_layers, MetadataBuilder.recordAt_within]
      exact this

theorem literal {p : LiteralData} (ht : f.Takes (.literalData p) f')
    (hr : Reached o source out [] (layerSketch packets) nodes) :
    Sound o source out ⟨f' :: c.frames,
      .covering out (c.owing (layerSketch packets)) (c.holding (layerSketch packets)),
      (MetadataBuilder.within c.layers nodes).record (.literal (.ofPacket p)), p.body⟩ := by
  have hd := hf.data_none_of_takes ht (by simp)
  obtain ⟨rfl, -, rfl⟩ := hr.of_data_none hd
  have hsketch : layerSketch (packets ++ [.literalData p]) =
      { layerSketch packets with data := some (.literalData p) } := layerSketch_append ..
  have hnew : f'.Took c.start (packets ++ [.literalData p]) :=
    hf.take ht (fun h => by rw [hsketch] at h; cases h) (by simp)
  have hsettled := LayerSketch.settled_of_data_none hd
  have ho : [] ++ p.body = p.body := rfl
  have := Sound.reading hc (by rw [ht.kind]; exact hk) hnew
    (.behind (by rw [hsketch]) (.literal p) ho (hc.leadsTo (.literal hnew.admits)))
  simp only [hsketch, hsettled, LayerRecord.nodes, List.map_nil] at this
  rw [MetadataBuilder.record_within c.layers [] rfl]
  exact this

theorem enter {d : Packet} {layer : Layer} {content : Octets} {kind : LayerKind}
    {keys : List KeyPacket} (ht : f.Takes d f') (ho : Opens o f.keyPackets d layer content)
    (hkind : layer.kind? = some kind) (hr : Reached o source out [] (layerSketch packets) nodes) :
    Sound o source out ⟨Frame.ofContent kind content o.restrictions.packetLength ::
        { f' with keyPackets := keys } :: c.frames,
      .covering out (c.owing (layerSketch packets)) (c.holding (layerSketch packets)),
      (MetadataBuilder.within c.layers nodes).record layer, []⟩ := by
  have hkinds : (∀ s, d ≠ .signature s) ∧ (∀ body, d ≠ .unprotectedData body) ∧
      layer.isContainer = true ∧
      layerSketch (packets ++ [d]) = { layerSketch packets with data := some d } := by
    cases ho <;> simp [Layer.isContainer, LayerSketch.add]
  obtain ⟨hsig, hprotected, hlayer, hsketch⟩ := hkinds
  have hd := hf.data_none_of_takes ht hsig
  obtain ⟨rfl, -, rfl⟩ := hr.of_data_none hd
  have hnew : Frame.Took { f' with keyPackets := keys } c.start (packets ++ [d]) :=
    hf.take ht (fun h => by rw [hsketch] at h; cases h) hprotected
  rw [hf.keys hd] at ho
  have hinside := Surroundings.Open.inside hc (by simpa [ht.kind] using hk) hnew hd hsketch ho
  have hr' : Reached o source [] [] (layerSketch []) [] := .before rfl rfl rfl
  have := Sound.reading (f := .ofSource kind (.ofContent o content)) hinside hkind
    (.ofSource kind (.ofContent o content)) hr'
  have hholding : (c.inside o { f' with keyPackets := keys } (layerSketch packets) layer
      content).holding (layerSketch []) = c.holding (layerSketch packets) := List.append_nil _
  rw [hholding] at this
  rw [MetadataBuilder.record_container c.layers hlayer]
  exact this

/-- Where a layer ends, its data was met, nothing of it is owed any more, and all of it together is a
layer of the chain. -/
theorem leave (he : f.Ends) (hr : Reached o source out [] (layerSketch packets) nodes) :
    Sound o source out ⟨c.frames,
      ((Correlation.covering out (c.owing (layerSketch packets)) (c.holding (layerSketch packets))
        ).settlePreceding o.verifier c.frames.length).2,
      (let m := ((Correlation.covering out (c.owing (layerSketch packets))
          (c.holding (layerSketch packets))).settlePreceding o.verifier c.frames.length).1.foldl
            (fun m x => m.recordAt x.1 (.signature x.2)) (MetadataBuilder.within c.layers nodes)
        if f.kind = .message then m else m.close), []⟩ := by
  obtain ⟨a, ha⟩ := he.accepted
  obtain ⟨howed, d, hd, hm⟩ := LayerRecord.isMessage_ofSketch hf.accepted ha
  cases hr with
  | before hd' _ _ =>
    rw [hd] at hd'
    cases hd'
  | @behind d' layer inner p hd' hw ho hp =>
    obtain rfl : out = p.body := by simpa using ho
    obtain rfl : d = d' := Option.some.inj (hd.symm.trans hd')
    have howing : c.owing (layerSketch packets) = c.owed := by simp [Surroundings.owing, howed]
    have hread : Reading o c.start (.ofSketch packets d layer :: inner) p :=
      .of_within hf.yields he.next (hm layer) hw
    have hfold : ((layerSketch packets).preceding.map fun s => (List.replicate c.frames.length 0,
          LayerRecord.verifyPreceding o.verifier p.body s)).foldl
            (fun m x => m.recordAt x.1 (.signature x.2))
            (MetadataBuilder.within c.layers (⟨layer, LayerRecord.nodes o.verifier p.body inner⟩ ::
              (layerSketch packets).settled.map fun x =>
                .leaf (.signature (LayerRecord.verifySettled o.verifier p.body x)))) =
        MetadataBuilder.within c.layers
          (LayerRecord.nodes o.verifier p.body (.ofSketch packets d layer :: inner)) := by
      have := MetadataBuilder.foldl_recordAt_within c.layers
        (⟨layer, LayerRecord.nodes o.verifier p.body inner⟩ :: (layerSketch packets).settled.map
          fun x => .leaf (.signature (LayerRecord.verifySettled o.verifier p.body x)))
        ((layerSketch packets).preceding.map (LayerRecord.verifyPreceding o.verifier p.body))
      rw [List.map_map, hc.length_layers] at this
      simpa [LayerRecord.nodes, LayerRecord.verifications, LayerRecord.ofSketch, Function.comp_def]
        using this
    rw [howing, Surroundings.holding, Correlation.settlePreceding_covering _ _ _ _ _ _ hc.depth_lt]
    simp only [hfold, hc.kind_eq_message_iff hk]
    exact climb hc hread hp

end

end Sound

/-- **One step.** What holds of a reader that has nothing to give out holds after its next step. -/
theorem Sound.step {s s' : ReadingState} (h : Sound o source out s) (hs : Step o s s')
    (hl : s.literal = []) : Sound o source out s' := by
  cases h with
  | ended h hp ho => cases hs
  | @reading c f packets nodes literal hc hk hf hr =>
    obtain rfl : literal = [] := hl
    cases hs with
    | pass hn hp =>
      have hsketch := LayerSketch.add_of_symbol?_none (k := layerSketch packets) hp
      rw [← layerSketch_append] at hsketch
      rw [← hsketch] at hr ⊢
      exact .reading hc hk (hf.pass hn hp) hr
    | key ht => exact .key hc hk hf ht hr
    | announce ht => exact .announce hc hk hf ht hr
    | precede ht hb => exact .precede hc hk hf ht hb hr
    | settle ht hb hp => exact .settle hc hk hf ht hb hp hr
    | unannounced ht hb hp =>
      obtain ⟨-, hb'⟩ | ⟨-, d, a, owed, s', hd, howed, hs⟩ := hf.of_takes ht
      · rw [hb' rfl] at hb
        cases hb
      · simp [Correlation.covering, Obligation.covering, Surroundings.owing, howed] at hp
    | literal ht => exact .literal hc hk hf ht hr
    | enter ht ho hkind => exact .enter hc hk hf ht ho hkind hr
    | leave he => exact .leave hc hk hf he hr

/-! ## What is recorded -/

/-- Every container among layers was opened by the key packets in front of it. -/
def Recorded (o : ReadingContext) (layers : List Layer) : Prop :=
  ∀ layer ∈ layers, layer.isContainer = true → ∃ keys d content, Opens o keys d layer content

namespace Recorded

theorem nil : Recorded o [] := fun layer hl => by cases hl

theorem cons {layer : Layer} {layers : List Layer}
    (hl : layer.isContainer = true → ∃ keys d content, Opens o keys d layer content)
    (h : Recorded o layers) : Recorded o (layer :: layers) := by
  intro l hm
  rcases List.mem_cons.mp hm with rfl | hm
  · exact hl
  · exact h l hm

theorem append {a b : List Layer} (ha : Recorded o a) (hb : Recorded o b) :
    Recorded o (a ++ b) := by
  intro l hm
  rcases List.mem_append.mp hm with hm | hm
  · exact ha l hm
  · exact hb l hm

theorem results {α : Type} (f : α → SignatureVerification) (xs : List α) :
    Recorded o (xs.map fun x => .signature (f x)) := by
  intro l hm hcontainer
  obtain ⟨x, -, rfl⟩ := List.mem_map.mp hm
  cases hcontainer

theorem of_reading {layers : List LayerRecord} {p : LiteralData} (h : Reading o source layers p)
    (v : VerificationContext) (data : Octets) :
    Recorded o (LayerNode.walk (LayerRecord.nodes v data layers)) := by
  induction h with
  | @literal s s' l p hy he hm hd hl =>
    rw [LayerRecord.walk_nodes_cons, hl, LayerRecord.nodes, LayerNode.walk]
    exact cons (fun hcontainer => by cases hcontainer) (append nil (results id _))
  | @inside s s' l content inner p hy he hm ho h ih =>
    rw [LayerRecord.walk_nodes_cons]
    exact cons (fun _ => ⟨_, _, _, ho⟩) (append ih (results id _))

theorem of_within {keys : List KeyPacket} {d : Packet} {layer : Layer} {inner : List LayerRecord}
    {p : LiteralData} (h : Within o keys d layer inner p) (v : VerificationContext) (data : Octets) :
    Recorded o (layer :: LayerNode.walk (LayerRecord.nodes v data inner)) := by
  cases h with
  | literal =>
    rw [LayerRecord.nodes, LayerNode.walk]
    exact cons (fun hcontainer => by cases hcontainer) nil
  | opened ho h => exact cons (fun _ => ⟨_, _, _, ho⟩) (of_reading h v data)

theorem of_open {c : Surroundings} (h : c.Open o source) : Recorded o c.layers := by
  induction h with
  | root => exact nil
  | inside h hk hf hn hd ho ih => exact cons (fun _ => ⟨_, _, _, ho⟩) ih

end Recorded

/-- **Nothing is recorded that was not opened.** -/
theorem Sound.recorded {s : ReadingState} (h : Sound o source out s) :
    Recorded o (LayerNode.walk s.metadata.roots) := by
  cases h with
  | ended h hp ho => exact .of_reading h o.verifier _
  | @reading c f packets nodes literal hc hk hf hr =>
    have hnodes : Recorded o (LayerNode.walk nodes) := by
      cases hr with
      | before hd ho hl =>
        rw [LayerNode.walk]
        exact .nil
      | @behind d layer inner p hd hw ho hp =>
        rw [LayerNode.walk, LayerNode.walk_append, LayerNode.walk_map_leaf]
        exact .append (.of_within hw o.verifier p.body) (.results _ _)
    have hopen : Recorded o c.layers.reverse := fun l hl =>
      Recorded.of_open hc l (List.mem_reverse.mp hl)
    have := hopen.append hnodes
    rwa [← LayerNode.walk_enclose] at this

end OpenPGP
