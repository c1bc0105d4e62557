import OpenPGP.Proofs.Coverage
/-!
# The tree of a message, read off its packets

`ReadsAs` says what tree the packets of a source stand for, layer by layer and
with no reader in sight: the data of the layer first, with the tree of its content
if it is a container, then a result for each signature behind the data and one for
each in front of it, in the order of the packets. The announcements are paired
with the signatures behind the data from the inside out.

Results:
* `LayerRecord.packets_eq`: where the parts of a layer stand among its packets.
* `ReadsAs.unique`: the packets stand for no other tree.
* `ReadsAs.leaf_of_inside`, `ReadsAs.literals`: only containers have anything inside, and there is one
  literal node.
* `MessageReader.tree_of_finish`: the metadata of a message that was read is that tree.
-/
namespace OpenPGP

/-! ## Where the parts of a layer stand -/

/-- A message has its data in one place, with what belongs in front of it there, and only the
signatures of its announcements behind it. -/
theorem Message.split {α : Type} {symbol? : α → Option InputSymbol} {xs : List α} {o : Outline α}
    (h : Message symbol? xs o) : ∃ before, xs = before ++ o.data :: o.settled.map Prod.snd ∧
      (symbol? o.data).any InputSymbol.isData = true ∧
      (∀ x ∈ before ++ o.settled.map Prod.snd, (symbol? x).any InputSymbol.isData = false) ∧
      before.filter (fun x => symbol? x = some .signature) = o.preceding ∧
      before.filter (fun x => symbol? x = some .onePassSignature) =
        (o.settled.map Prod.fst).reverse ∧
      before.filter (fun x => symbol? x = some .encryptedSessionKey) = o.keys := by
  induction h with
  | @encrypted ks d hk hd =>
    refine ⟨ks, rfl, by simp [hd, InputSymbol.isData], ?_, ?_, ?_, ?_⟩
    · simpa [InputSymbol.isData] using fun x hx => by simp [hk x hx, InputSymbol.isData]
    · simpa using fun x hx => by simp [hk x hx]
    · simpa using fun x hx => by simp [hk x hx]
    · simpa using hk
  | compressed hd => exact ⟨[], by simp [hd, InputSymbol.isData]⟩
  | literal hd => exact ⟨[], by simp [hd, InputSymbol.isData]⟩
  | @preceding s xs o hs h ih =>
    obtain ⟨before, hxs, hd, hn, hsig, hops, hkeys⟩ := ih
    refine ⟨s :: before, by rw [hxs]; rfl, hd, ?_, ?_, ?_, ?_⟩
    · simpa [hs, InputSymbol.isData] using hn
    · simp [hs, hsig]
    · simpa [hs] using hops
    · simpa [hs] using hkeys
  | @onePass a s xs o ha hs h ih =>
    obtain ⟨before, hxs, hd, hn, hsig, hops, hkeys⟩ := ih
    refine ⟨a :: before, by simp [hxs], hd, ?_, ?_, ?_, ?_⟩
    · intro x hx
      simp only [List.map_append, List.map_cons, List.map_nil, List.cons_append, List.mem_cons,
        List.mem_append, List.not_mem_nil, or_false] at hx
      rcases hx with rfl | hx | hx | rfl
      · simp [ha, InputSymbol.isData]
      · exact hn x (List.mem_append.mpr (.inl hx))
      · exact hn x (List.mem_append.mpr (.inr hx))
      · simp [hs, InputSymbol.isData]
    · simpa [ha] using hsig
    · simp [ha, hops]
    · simpa [ha] using hkeys

namespace Packet

/-- Whether a packet is the data of a layer. -/
def isData (p : Packet) : Bool := p.symbol?.any InputSymbol.isData

def keyPacket? : Packet → Option KeyPacket
  | .publicKeySessionKey p => some (.publicKey p)
  | .passphraseSessionKey p => some (.passphrase p)
  | _ => none

theorem symbol?_of_keyPacket? (p : Packet) (k : KeyPacket) (h : p.keyPacket? = some k) :
    p.symbol? = some .encryptedSessionKey := by
  cases p <;> first | rfl | cases h

theorem keyPacket?_packet (k : KeyPacket) : k.packet.keyPacket? = some k := by
  cases k <;> rfl

end Packet

namespace LayerRecord

/-- The data of a layer stands once among its packets; all signatures in front of it are its preceding
ones, and those behind it the settled ones, whose announcements are in front, last first. -/
theorem packets_eq {l : LayerRecord} (h : l.IsMessage) : ∃ before after,
    l.packets = before ++ l.data :: after ∧ l.data.isData = true ∧
      (∀ p ∈ before ++ after, p.isData = false) ∧
      before.filterMap Packet.signature? = l.preceding ∧
      before.filterMap Packet.announcement? = (l.settled.map Prod.fst).reverse ∧
      before.filterMap Packet.keyPacket? = l.keys ∧
      after.filterMap Packet.signature? = l.settled.map Prod.snd := by
  obtain ⟨front, hpackets, hd, hn, hsig, hops, hkeys⟩ := h.split
  obtain ⟨before, behind, hl, hbefore, hbehind⟩ := List.filter_eq_append_iff.mp hpackets
  obtain ⟨skipped, after, rfl, hskipped, -, hafter⟩ := List.filter_eq_cons_iff.mp hbehind
  -- what is passed over between the front and the data belongs to the front
  have hfront : visible Packet.symbol? (before ++ skipped) = front := by
    rw [visible, List.filter_append, hbefore, List.filter_eq_nil_iff.mpr hskipped, List.append_nil]
  refine ⟨before ++ skipped, after, by rw [hl, List.append_assoc]; rfl, hd, fun p hp => ?_, ?_, ?_, ?_, ?_⟩
  · cases hs : p.symbol? with
    | none => rw [Packet.isData, hs]; rfl
    | some s =>
      refine hn p ?_
      rw [← hfront, ← hafter, visible, ← List.filter_append]
      exact List.mem_filter.mpr ⟨hp, by simp [hs]⟩
  · rw [← Packet.filterMap_of_symbol Packet.symbol?_of_signature?, hfront, hsig]
    simp [outline, Packet.signature?, Function.comp_def]
  · rw [← Packet.filterMap_of_symbol Packet.symbol?_of_announcement?, hfront, hops]
    simp [outline, LayerSketch.pair, Packet.announcement?, Function.comp_def]
  · have hpacket : Packet.keyPacket? ∘ KeyPacket.packet = some := funext Packet.keyPacket?_packet
    rw [← Packet.filterMap_of_symbol Packet.symbol?_of_keyPacket?, hfront, hkeys, outline,
      List.filterMap_map, hpacket, List.filterMap_some]
  · have hsettled : (visible Packet.symbol? after).filter (fun p => p.symbol? = some .signature) =
        l.settled.map fun x => .signature x.2 := by
      have hpackets : l.outline.settled.map Prod.snd = l.settled.map fun x => .signature x.2 := by
        simp [outline, LayerSketch.pair]
      rw [visible, hafter, hpackets]
      refine List.filter_eq_self.mpr fun p hp => ?_
      obtain ⟨x, -, rfl⟩ := List.mem_map.mp hp
      rfl
    rw [← Packet.filterMap_of_symbol Packet.symbol?_of_signature?, hsettled]
    simp [Packet.signature?, Function.comp_def]

end LayerRecord

/-! ## The tree of packets -/

/-- The nodes for the signatures of a layer: behind the data in order, the first one announced last, and
then those in front of it in order. -/
def signatureNodes (v : VerificationContext) (data : Octets) (before after : List Packet) : List LayerNode :=
  (((before.filterMap Packet.announcement?).reverse.zip (after.filterMap Packet.signature?)).map
      (LayerRecord.verifySettled v data) ++
    (before.filterMap Packet.signature?).map (LayerRecord.verifyPreceding v data)).map
      fun s => .leaf (.signature s)

/-- What stands around the data of a source: all its packets, of which no other is data, and as many
announcements in front as signatures behind. -/
structure PacketSource.Around (s : PacketSource) (before : List Packet) (d : Packet)
    (after : List Packet) : Prop where
  yields : ∃ s', s.Yields (before ++ d :: after) s' ∧ s'.next = .ok none
  isData : d.isData = true
  others : ∀ p ∈ before ++ after, p.isData = false
  paired : (before.filterMap Packet.announcement?).length = (after.filterMap Packet.signature?).length

/-- The nodes that the packets of a source stand for, over the literal data at the end of them. -/
inductive ReadsAs (o : ReadingContext) (data : Octets) : PacketSource → List LayerNode → Prop
  | literal {s : PacketSource} {before after : List Packet} {p : LiteralData}
      (ha : s.Around before (.literalData p) after) (hp : p.body = data) :
      ReadsAs o data s (.leaf (.literal (.ofPacket p)) :: signatureNodes o.verifier data before after)
  | inside {s : PacketSource} {before after : List Packet} {d : Packet} {layer : Layer}
      {content : Octets} {inner : List LayerNode} (ha : s.Around before d after)
      (ho : Opens o (before.filterMap Packet.keyPacket?) d layer content)
      (h : ReadsAs o data (.ofContent o content) inner) :
      ReadsAs o data s (⟨layer, inner⟩ :: signatureNodes o.verifier data before after)

theorem LayerRecord.around {l : LayerRecord} {s s' : PacketSource} (h : l.IsMessage)
    (hy : s.Yields l.packets s') (he : s'.next = .ok none) : ∃ before after,
      s.Around before l.data after ∧ before.filterMap Packet.keyPacket? = l.keys ∧
      ∀ v data, signatureNodes v data before after =
        (l.verifications v data).map fun s => .leaf (.signature s) := by
  obtain ⟨before, after, hpackets, hdata, hothers, hsig, hops, hkeys, hsettled⟩ := packets_eq h
  rw [hpackets] at hy
  refine ⟨before, after, ⟨⟨s', hy, he⟩, hdata, hothers, ?_⟩, hkeys, fun v data => ?_⟩
  · simp [hops, hsettled]
  · rw [signatureNodes, hsig, hops, hsettled, List.reverse_reverse, List.zip_map']
    simp [verifications]

/-- A chain of layers stands for the tree of its nodes. -/
theorem Reading.readsAs {o : ReadingContext} {source : PacketSource} {layers : List LayerRecord}
    {p : LiteralData} (h : Reading o source layers p) :
    ReadsAs o p.body source (LayerRecord.nodes o.verifier p.body layers) := by
  induction h with
  | @literal s s' l p hy he hm hd hl =>
    obtain ⟨before, after, ha, -, hnodes⟩ := LayerRecord.around hm hy he
    rw [LayerRecord.nodes, ← hnodes, hl]
    rw [hd] at ha
    exact .literal ha rfl
  | @inside s s' l content inner p hy he hm ho h ih =>
    obtain ⟨before, after, ha, hkeys, hnodes⟩ := LayerRecord.around hm hy he
    rw [LayerRecord.nodes, ← hnodes]
    rw [← hkeys] at ho
    exact .inside ha ho ih

/-! ## No other tree -/

namespace PacketSource

theorem Yields.eq_of_nil {s s' : PacketSource} (h : s.Yields [] s') : s' = s := by
  generalize e : ([] : List Packet) = ps at h
  cases h with
  | nil => rfl
  | snoc h hp => exact absurd e (by simp)

theorem Yields.of_cons {s s' : PacketSource} {p : Packet} {ps : List Packet}
    (h : s.Yields (p :: ps) s') : ∃ s₁, s.next = .ok (some (p, s₁)) ∧ s₁.Yields ps s' := by
  generalize e : p :: ps = all at h
  induction h generalizing ps with
  | nil => cases e
  | @snoc s₁ s₂ qs q h hq ih =>
    cases qs with
    | nil =>
      cases e
      obtain rfl := h.eq_of_nil
      exact ⟨_, hq, .nil _⟩
    | cons q' qs =>
      cases e
      obtain ⟨s₀, hp, hqs⟩ := ih rfl
      exact ⟨s₀, hp, .snoc hqs hq⟩

theorem Yields.of_append {s s' : PacketSource} {ps qs : List Packet} (h : s.Yields (ps ++ qs) s') :
    ∃ s₁, s.Yields ps s₁ ∧ s₁.Yields qs s' := by
  induction qs using List.reverseRecOn generalizing s' with
  | nil => exact ⟨s', by simpa using h, .nil s'⟩
  | append_singleton qs q ih =>
    rw [← List.append_assoc] at h
    generalize e : ps ++ qs ++ [q] = all at h
    cases h with
    | nil => simp at e
    | snoc h hq =>
      obtain ⟨rfl, rfl⟩ := List.append_inj' e rfl |>.imp id List.singleton_inj.mp
      obtain ⟨s₁, hps, hqs⟩ := ih h
      exact ⟨s₁, hps, .snoc hqs hq⟩

/-- All packets of a source are determined by it. -/
theorem Yields.unique {s s₁ s₂ : PacketSource} {ps qs : List Packet} (hp : s.Yields ps s₁)
    (hpe : s₁.next = .ok none) (hq : s.Yields qs s₂) (hqe : s₂.next = .ok none) : ps = qs := by
  induction ps generalizing s qs with
  | nil =>
    obtain rfl := hp.eq_of_nil
    cases qs with
    | nil => rfl
    | cons q qs =>
      obtain ⟨s₀, hn, -⟩ := hq.of_cons
      rw [hpe] at hn
      cases hn
  | cons p ps ih =>
    obtain ⟨s₀, hn, hps⟩ := hp.of_cons
    cases qs with
    | nil =>
      obtain rfl := hq.eq_of_nil
      rw [hqe] at hn
      cases hn
    | cons q qs =>
      obtain ⟨s₀', hn', hqs⟩ := hq.of_cons
      rw [hn] at hn'
      cases hn'
      rw [ih hps hqs]

/-- So is where the data stands. -/
theorem Around.unique {s : PacketSource} {before after before' after' : List Packet} {d d' : Packet}
    (h : s.Around before d after) (h' : s.Around before' d' after') :
    before = before' ∧ d = d' ∧ after = after' := by
  obtain ⟨s₁, hy, he⟩ := h.yields
  obtain ⟨s₂, hy', he'⟩ := h'.yields
  have hpackets := hy.unique he hy' he'
  rcases List.append_eq_append_iff.mp hpackets with ⟨more, rfl, hmore⟩ | ⟨more, rfl, hmore⟩
  · cases more with
    | nil =>
      obtain ⟨rfl, rfl⟩ := List.cons.inj (by simpa using hmore)
      exact ⟨by simp, rfl, rfl⟩
    | cons x more =>
      obtain ⟨rfl, -⟩ := List.cons.inj hmore
      exact absurd h.isData (by simp [h'.others d (by simp)])
  · cases more with
    | nil =>
      obtain ⟨rfl, rfl⟩ := List.cons.inj (by simpa using hmore)
      exact ⟨by simp, rfl, rfl⟩
    | cons x more =>
      obtain ⟨rfl, -⟩ := List.cons.inj hmore
      exact absurd h'.isData (by simp [h.others d' (by simp)])

end PacketSource

/-- A container opens in one way. -/
theorem Opens.unique {o : ReadingContext} {keys : List KeyPacket} {d : Packet} {layer layer' : Layer}
    {content content' : Octets} (h : Opens o keys d layer content) (h' : Opens o keys d layer' content') :
    layer = layer' ∧ content = content' := by
  cases h with
  | compressed hp hd =>
    cases h' with
    | compressed hp' hd' =>
      rw [hd] at hd'
      cases hd'
      exact ⟨rfl, rfl⟩
  | encrypted hi hr =>
    cases h' with
    | encrypted hi' hr' =>
      rw [hi] at hi'
      rw [hr] at hr'
      cases hi'
      cases hr'
      exact ⟨rfl, rfl⟩

namespace ReadsAs

variable {o : ReadingContext} {data data' : Octets} {source : PacketSource}
  {nodes nodes' : List LayerNode}

/-- **One tree.** The packets of a source stand for one tree over one literal data. -/
theorem unique (h : ReadsAs o data source nodes) (h' : ReadsAs o data' source nodes') :
    data = data' ∧ nodes = nodes' := by
  induction h generalizing nodes' with
  | @literal s before after p ha hp =>
    cases h' with
    | literal ha' hp' =>
      obtain ⟨rfl, hd, rfl⟩ := ha.unique ha'
      cases hd
      obtain rfl : data = data' := hp.symm.trans hp'
      exact ⟨rfl, rfl⟩
    | inside ha' ho' h' =>
      obtain ⟨rfl, rfl, rfl⟩ := ha.unique ha'
      cases ho'
  | @inside s before after d layer content inner ha ho h ih =>
    cases h' with
    | literal ha' hp' =>
      obtain ⟨rfl, rfl, rfl⟩ := ha.unique ha'
      cases ho
    | inside ha' ho' h' =>
      obtain ⟨rfl, rfl, rfl⟩ := ha.unique ha'
      obtain ⟨rfl, rfl⟩ := ho.unique ho'
      obtain ⟨rfl, rfl⟩ := ih h'
      exact ⟨rfl, rfl⟩

end ReadsAs

/-! ## What has anything inside -/

/-- A node occurs in trees: among their roots or further inside. -/
inductive LayerNode.Inside (node : LayerNode) : List LayerNode → Prop
  | root {nodes : List LayerNode} (h : node ∈ nodes) : node.Inside nodes
  | child {nodes : List LayerNode} {parent : LayerNode} (h : parent ∈ nodes)
      (hi : node.Inside parent.children) : node.Inside nodes

theorem mem_signatureNodes {v : VerificationContext} {data : Octets} {before after : List Packet}
    {node : LayerNode} (h : node ∈ signatureNodes v data before after) :
    ∃ s, node = .leaf (.signature s) := by
  obtain ⟨s, -, rfl⟩ := List.mem_map.mp h
  exact ⟨s, rfl⟩

/-- What occurs in the nodes of a layer is the node of its data, something inside that, or a result. -/
theorem LayerNode.Inside.of_layer {v : VerificationContext} {data : Octets} {before after : List Packet}
    {node : LayerNode} {layer : Layer} {inner : List LayerNode}
    (h : node.Inside (⟨layer, inner⟩ :: signatureNodes v data before after)) :
    node = ⟨layer, inner⟩ ∨ node.Inside inner ∨ ∃ s, node = .leaf (.signature s) := by
  cases h with
  | root h =>
    rcases List.mem_cons.mp h with h | h
    · exact .inl h
    · exact .inr (.inr (mem_signatureNodes h))
  | @child _ parent h hi =>
    rcases List.mem_cons.mp h with rfl | h
    · exact .inr (.inl hi)
    · obtain ⟨s, rfl⟩ := mem_signatureNodes h
      rcases hi with h | ⟨h, -⟩ <;> cases h

theorem Opens.isContainer {o : ReadingContext} {keys : List KeyPacket} {d : Packet} {layer : Layer}
    {content : Octets} (h : Opens o keys d layer content) : layer.isContainer = true := by
  cases h <;> rfl

namespace ReadsAs

variable {o : ReadingContext} {data : Octets} {source : PacketSource} {nodes : List LayerNode}

/-- Nothing but containers has anything inside. -/
theorem leaf_of_inside (h : ReadsAs o data source nodes) {node : LayerNode}
    (hn : node.Inside nodes) (hl : node.layer.isContainer = false) : node.children = [] := by
  induction h with
  | literal ha hp =>
    rcases hn.of_layer with rfl | hn | ⟨s, rfl⟩
    · rfl
    · rcases hn with h | ⟨h, -⟩ <;> cases h
    · rfl
  | inside ha ho h ih =>
    rcases hn.of_layer with rfl | hn | ⟨s, rfl⟩
    · rw [LayerNode.layer, ho.isContainer] at hl
      cases hl
    · exact ih hn
    · rfl

/-- There is one literal node, that of the literal packet whose data it is. -/
theorem literals (h : ReadsAs o data source nodes) : ∃ p : LiteralData, p.body = data ∧
    (LayerNode.walk nodes).filterMap Layer.literal? = [.ofPacket p] := by
  have hresults : ∀ before after, (LayerNode.walk
      (signatureNodes o.verifier data before after)).filterMap Layer.literal? = [] := by
    intro before after
    rw [signatureNodes, LayerNode.walk_map_leaf]
    simp [List.filterMap_map, Function.comp_def, Layer.literal?]
  induction h with
  | @literal s before after p ha hp =>
    refine ⟨p, hp, ?_⟩
    rw [LayerNode.leaf, LayerNode.walk, List.nil_append]
    simp [Layer.literal?, hresults]
  | @inside s before after d layer content inner ha ho h ih =>
    obtain ⟨p, hp, hinner⟩ := ih
    have hlayer : layer.literal? = none := by cases ho <;> rfl
    refine ⟨p, hp, ?_⟩
    rw [LayerNode.walk, List.filterMap_cons_none hlayer, LayerNode.walk_append,
      List.filterMap_append, hinner, hresults, List.append_nil]

end ReadsAs

/-! ## The metadata -/

/-- **The metadata is the tree of the packets.** A reader of any source that gave out its metadata, after
any requests, gave out the literal data at the end of the layers. The nodes are those that the packets
stand for, and they stand for no others; nothing but containers has anything inside, and there is one
literal node. -/
theorem MessageReader.tree_of_finish {o : ReadingContext} {source : PacketSource}
    {r r' : MessageReader o} {out : Octets} {m : MessageMetadata} (h : Reaches o source r out)
    (e : r.finish = (.ok m, r')) :
    ReadsAs o out source m.roots ∧
      (∀ data nodes, ReadsAs o data source nodes → data = out ∧ nodes = m.roots) ∧
      (∀ node : LayerNode, node.Inside m.roots → node.layer.isContainer = false →
        node.children = []) ∧
      ∃ p : LiteralData, p.body = out ∧ m.layers.filterMap Layer.literal? = [.ofPacket p] := by
  obtain ⟨-, hfinish⟩ := h.holds.finish
  obtain ⟨layers, p, hread, rfl, hroots⟩ := hfinish m (by rw [e])
  have htree : ReadsAs o p.body source m.roots := by
    rw [hroots]
    exact hread.readsAs
  refine ⟨htree, fun data nodes hother => hother.unique htree, fun node => htree.leaf_of_inside, ?_⟩
  exact htree.literals

/-- A signature in front of compressed data around a literal packet. -/
def precededPackets : List Packet :=
  [.signature (.ofSubpackets .text .ed25519 .sha512 [] [] (.zero 2) (.ed25519 (.zero 64))),
    .compressedData ⟨.uncompressed, literalOctets⟩]

theorem MessageReader.tree_of_precededPackets :
    ∃ r m r', Reaches .keyless (.packets precededPackets) r [0x68, 0x69] ∧ r.finish = (.ok m, r') ∧
      ReadsAs .keyless [0x68, 0x69] (.packets precededPackets) m.roots ∧
      ∃ p : LiteralData, p.body = [0x68, 0x69] ∧
        m.layers.filterMap Layer.literal? = [.ofPacket p] := by
  have h : Reaches .keyless (.packets precededPackets) _ _ := .start
  have h := h.step rfl rfl
  have h := h.step rfl rfl
  have h := h.step rfl rfl
  have h := h.read 2
  rw [read_of_literal rfl (by decide) (by decide)] at h
  have h := h.step rfl rfl
  have h := h.step rfl rfl
  obtain ⟨r, h, hp, hf, hl, hs⟩ : ∃ r, Reaches .keyless (.packets precededPackets) r [0x68, 0x69] ∧
      r.poisoned = false ∧ r.finished = none ∧ r.literal = [] ∧ r.frames = [] :=
    ⟨_, h, rfl, rfl, rfl, rfl⟩
  have e := finish_of_frames hp hf hl hs
  obtain ⟨htree, -, -, hliteral⟩ := tree_of_finish h e
  exact ⟨r, _, _, h, e, htree, hliteral⟩

end OpenPGP
