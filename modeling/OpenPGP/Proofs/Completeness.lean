import OpenPGP.Proofs.MessageTree
import OpenPGP.Proofs.Schedules
/-!
# Reading to the end

Where a source reads as a chain of layers, a reader does not fail on it: every
packet of a layer is accepted, its container opens, the layers inside are read,
and the packets behind the data follow. What a reader has yet to do outside the
layer it is in is a continuation here, so that a layer is dealt with in the same
way wherever it lies.

Results:
* `MessageReader.Delivers.of_reading`: one layer with everything inside it.
* `MessageReader.Delivers.exists_finish`: a run that gives out the data and the metadata.
* `readMessage_of_reading`: the whole message, its data and its metadata.
-/
namespace OpenPGP

open Crypto

variable {o : ReadingContext}

theorem Reading.length_pos {source : PacketSource} {layers : List LayerRecord} {p : LiteralData}
    (h : Reading o source layers p) : 0 < layers.length := by
  cases h <;> exact Nat.succ_pos _

namespace MessageReader

/-- Reading everything succeeds and gives some data. -/
def Delivers (r : MessageReader o) (data : Octets) : Prop := ∃ m, r.Promises data m

/-- A reader in the middle of some layers with nothing to give out. -/
structure Ready (r : MessageReader o) (frames : List Frame) : Prop where
  frames : r.frames = frames
  poisoned : r.poisoned = false
  finished : r.finished = none
  literal : r.literal = []

theorem Promises.of_step {r r' : MessageReader o} {data : Octets} {m : MessageMetadata}
    (hl : r.literal = []) (hs : r.step = .ok (some r')) (h : r'.Promises data m) :
    r.Promises data m := by
  obtain ⟨⟨hp', hf'⟩, -⟩ := step_of_eq_some hs
  have hsettle := settle_of_step hl hs
  cases h with
  | done hp hr hl' hm => exact .done (hp'.symm.trans hp) (hsettle.trans hr) hl' hm
  | more hp hf hr hl' h => exact .more (hp'.symm.trans hp) (hf'.symm.trans hf) (hsettle.trans hr) hl' h

theorem Promises.settle {r : MessageReader o} {data : Octets} {m : MessageMetadata}
    (h : r.Promises data m) : ∃ r', r.settle = (.ok (), r') ∧ r'.Promises data m := by
  cases h with
  | @done _ r' _ hp hs hl hm =>
    have hp' : r'.poisoned = false := (settle_eq_ok hs).1.1.trans hp
    exact ⟨r', hs, .done hp' (settle_of_settle hs) hl hm⟩
  | @more _ r' _ _ hp hf hs hl h =>
    obtain ⟨hp', hf'⟩ := (settle_eq_ok hs).1
    exact ⟨r', hs, .of_literal (hp'.trans hp) (hf'.trans hf) hl h⟩

/-- What is promised is what reading everything and finishing gives. -/
theorem Promises.readAll_eq {r : MessageReader o} {data : Octets} {m : MessageMetadata}
    (h : r.Promises data m) : ∃ last, r.readAll = (data, .ok (), last) ∧ last.finish.1 = .ok m := by
  induction h with
  | done hp hs hl hm => exact ⟨_, readAll_of_done hp hs hl, hm⟩
  | more hp hf hs hl h ih =>
    obtain ⟨last, hlast, hm⟩ := ih
    exact ⟨last, readAll_of_more hp hs hl hlast, hm⟩

theorem take_of_next {r : MessageReader o} {p : Packet} {f : Frame} {outer : List Frame}
    {source : PacketSource} {symbol : InputSymbol} {a : Automaton} {h : outer.length + 1 ≤ o.maxLayers}
    (hs : p.symbol? = some symbol) (ha : f.automaton.next symbol = (.ok (), a)) :
    r.take p { f with source } outer h =
      r.act f.isBeforeData p { f with source, automaton := a } outer h := by
  rw [take, hs]
  simp only [ha]
  rfl

/-! ## Packets other than the data -/

theorem act_of_others (hv : o.verifier.Decides) {r : MessageReader o} {b : Bool} {p : Packet} {f : Frame}
    {outer : List Frame} {h : outer.length + 1 ≤ o.maxLayers} (hp : p.isData = false)
    (hs : p.symbol?.isSome) :
    ∃ r', r.act b p f outer h = .ok r' ∧ r'.literal = r.literal ∧ r'.poisoned = r.poisoned ∧
      r'.finished = r.finished ∧
      r'.frames = { f with keyPackets := f.keyPackets ++ p.keyPacket?.toList } :: outer := by
  have hf : { f with keyPackets := f.keyPackets ++ [] } = f := by rw [List.append_nil]
  cases p with
  | signature s =>
    unfold act
    cases b with
    | true => exact ⟨_, rfl, rfl, rfl, rfl, by simp [Packet.keyPacket?, withFrames]⟩
    | false =>
      obtain ⟨r', hr', hframes, hl, hp', hf'⟩ := exists_settleSignature hv (r.withFrames (f :: outer) h) s
      refine ⟨r', hr', hl, hp', hf', ?_⟩
      rw [hframes]
      simp [Packet.keyPacket?, withFrames]
  | publicKeySessionKey k => exact ⟨_, rfl, rfl, rfl, rfl, rfl⟩
  | passphraseSessionKey k => exact ⟨_, rfl, rfl, rfl, rfl, rfl⟩
  | onePassSignature a => exact ⟨_, rfl, rfl, rfl, rfl, by simp [Packet.keyPacket?, withFrames]⟩
  | marker => cases hs
  | padding n => cases hs
  | unknown tag body => exact ⟨_, rfl, rfl, rfl, rfl, by simp [Packet.keyPacket?, withFrames]⟩
  | encryptedData d => cases hp
  | unprotectedData d => cases hp
  | compressedData d => cases hp
  | literalData d => cases hp

theorem step_of_others (hv : o.verifier.Decides) {r : MessageReader o} {f : Frame} {outer : List Frame}
    {p : Packet} {source : PacketSource} {symbols : List InputSymbol} (hr : r.Ready (f :: outer))
    (hn : f.source.next = .ok (some (p, source))) (hp : p.isData = false)
    (hc : f.automaton.Completes (p.symbol?.toList ++ symbols)) :
    ∃ r' f', r.step = .ok (some r') ∧ r'.Ready (f' :: outer) ∧ f'.source = source ∧
      f'.automaton.Completes symbols ∧ f'.keyPackets = f.keyPackets ++ p.keyPacket?.toList := by
  obtain ⟨hb, hstep⟩ := step_of_next_some hr.frames hn
  cases hs : p.symbol? with
  | none =>
    have hk : p.keyPacket? = none := by
      cases hk : p.keyPacket? with
      | none => rfl
      | some k => rw [p.symbol?_of_keyPacket? k hk] at hs; cases hs
    rw [take, hs] at hstep
    rw [hs] at hc
    exact ⟨_, _, hstep, ⟨rfl, hr.poisoned, hr.finished, hr.literal⟩, rfl, hc, by simp [hk]⟩
  | some s =>
    rw [hs] at hc
    obtain ⟨a, ha, hc⟩ := Automaton.completes_cons_iff.mp hc
    obtain ⟨r', hact, hl, hp', hf', hframes⟩ := act_of_others hv (r := r) (b := f.isBeforeData)
      (f := { f with source, automaton := a }) (h := hb) hp (by rw [hs]; rfl)
    refine ⟨r', _, ?_, ⟨hframes, hp'.trans hr.poisoned, hf'.trans hr.finished, hl.trans hr.literal⟩,
      rfl, hc, rfl⟩
    rw [hstep, take_of_next hs ha, hact]
    rfl

namespace Delivers

/-- Packets other than the data come before what follows them. -/
theorem of_others (hv : o.verifier.Decides) {outer : List Frame} {data : Octets} {source : PacketSource}
    {symbols : List InputSymbol} {packets : List Packet} (hp : ∀ p ∈ packets, p.isData = false)
    {r : MessageReader o} {f : Frame} (hr : r.Ready (f :: outer)) (hy : f.source.Yields packets source)
    (hc : f.automaton.Completes (packets.filterMap Packet.symbol? ++ symbols))
    (hk : ∀ (r' : MessageReader o) (f' : Frame), r'.Ready (f' :: outer) → f'.source = source →
      f'.automaton.Completes symbols →
      f'.keyPackets = f.keyPackets ++ packets.filterMap Packet.keyPacket? → r'.Delivers data) :
    r.Delivers data := by
  induction packets generalizing r f with
  | nil => exact hk r f hr hy.eq_of_nil.symm hc (List.append_nil _).symm
  | cons p packets ih =>
    obtain ⟨source₁, hn, hy⟩ := hy.of_cons
    have hsymbols : (p :: packets).filterMap Packet.symbol? ++ symbols =
        p.symbol?.toList ++ (packets.filterMap Packet.symbol? ++ symbols) := by
      cases hs : p.symbol? <;> simp [hs]
    rw [hsymbols] at hc
    obtain ⟨r', f', hstep, hr', rfl, hc', hkeys⟩ := step_of_others hv hr hn (hp p List.mem_cons_self) hc
    obtain ⟨m, hm⟩ := ih (fun q hq => hp q (List.mem_cons_of_mem _ hq)) hr' hy hc'
      fun r'' f'' hr'' hsource hc'' hkeys'' => by
        refine hk r'' f'' hr'' hsource hc'' ?_
        rw [hkeys'', hkeys, List.append_assoc]
        cases hq : p.keyPacket? <;> simp [hq]
    exact ⟨m, hm.of_step hr.literal hstep⟩

theorem of_behind (hv : o.verifier.Decides) {outer : List Frame} {source : PacketSource}
    {packets : List Packet} (hp : ∀ p ∈ packets, p.isData = false) {r : MessageReader o} {f : Frame}
    (hr : r.Ready (f :: outer)) (hy : f.source.Yields packets source) (he : source.next = .ok none)
    (hc : f.automaton.Completes (packets.filterMap Packet.symbol?))
    (hk : ∀ r' : MessageReader o, r'.Ready outer → r'.Delivers []) : r.Delivers [] := by
  rw [← List.append_nil (packets.filterMap _)] at hc
  refine of_others hv hp hr hy hc fun r' f' hr' hsource hc' _ => ?_
  subst hsource
  obtain ⟨hb, hstep⟩ := step_of_next_none hr'.frames he
  rcases leave_verdict_of_decides (r := r') hv hb with ⟨-, r'', hleave, hframes, hl⟩ | ⟨hn, -⟩
  · rw [hleave] at hstep
    obtain ⟨⟨hp'', hf''⟩, -⟩ := step_of_eq_some hstep
    obtain ⟨m, hm⟩ := hk r'' ⟨hframes, hp''.trans hr'.poisoned, hf''.trans hr'.finished,
      hl.trans hr'.literal⟩
    exact ⟨m, hm.of_step hr'.literal hstep⟩
  · exact absurd hc' hn

/-- Literal data that waits is given out before what is behind it. -/
theorem of_waiting {frames : List Frame} {data : Octets} {r : MessageReader o} (hf : r.frames = frames)
    (hp : r.poisoned = false) (hn : r.finished = none)
    (hk : ∀ r' : MessageReader o, r'.Ready frames → r'.Delivers data) :
    r.Delivers (r.literal ++ data) := by
  by_cases hl : r.literal = []
  · rw [hl]
    exact hk r ⟨hf, hp, hn, hl⟩
  · obtain ⟨m, hm⟩ := hk (r.release r.literal.length) ⟨hf, hp, hn, List.drop_length⟩
    exact ⟨m, .of_literal hp hn hl hm⟩

end Delivers

/-! ## The data -/

theorem act_of_opens {r : MessageReader o} {b : Bool} {d : Packet} {layer : Layer} {content : Octets}
    {f : Frame} {outer : List Frame} {h : outer.length + 1 ≤ o.maxLayers}
    (ho : Opens o f.keyPackets d layer content) (hd : outer.length + 1 ≤ o.restrictions.nestingDepth) :
    ∃ (r' : MessageReader o) (kind : LayerKind) (f' : Frame), r.act b d f outer h = .ok r' ∧
      r'.frames = .ofSource kind (.ofContent o content) :: f' :: outer ∧ r'.literal = r.literal ∧
      f'.source = f.source ∧ f'.automaton = f.automaton := by
  cases ho with
  | @compressed c content hp hd' =>
    refine ⟨r.enter .compressed (.compression c.algorithm) content f outer hd, .compressed, f, ?_,
      rfl, rfl, rfl, rfl⟩
    simp [act, enterCompressed, hd, hp, hd']
  | @encrypted d integrity resolved hi hr =>
    refine ⟨r.enter .encrypted (.encryption ⟨resolved.algorithm, integrity, resolved.source⟩)
      resolved.plaintext { f with keyPackets := [] } outer hd, .encrypted, _, ?_, rfl, rfl, rfl, rfl⟩
    simp [act, enterEncrypted, hd, hi, hr]

namespace Delivers

/-- A layer that is a message is read to its end, if its data is. What is read within the data is left
to the caller, who is told what is behind the data. -/
theorem of_layer (hv : o.verifier.Decides) {source source' : PacketSource} {l : LayerRecord}
    {outer : List Frame} {data : Octets}
    (hy : source.Yields l.packets source') (he : source'.next = .ok none) (hm : l.IsMessage)
    {r : MessageReader o} {kind : LayerKind} (hr : r.Ready (.ofSource kind source :: outer))
    (hk : ∀ r' : MessageReader o, r'.Ready outer → r'.Delivers [])
    (hd : ∀ (r' : MessageReader o) (f' : Frame) (symbol : InputSymbol) (a : Automaton)
      (source₁ : PacketSource), r'.Ready (f' :: outer) →
      f'.source.next = .ok (some (l.data, source₁)) → l.data.symbol? = some symbol →
      f'.automaton.next symbol = (.ok (), a) → f'.keyPackets = l.keys →
      (∀ (r'' : MessageReader o) (f'' : Frame), r''.Ready (f'' :: outer) → f''.source = source₁ →
        f''.automaton = a → r''.Delivers []) → r'.Delivers data) : r.Delivers data := by
  obtain ⟨before, after, hpackets, hdata, hothers, -, -, hkeys, -⟩ := LayerRecord.packets_eq hm
  have hc : Automaton.initial.Completes (l.packets.filterMap Packet.symbol?) := by
    rw [← filterMap_visible]
    exact Automaton.completes_of_message hm
  rw [hpackets] at hy hc
  obtain ⟨source₁, hbefore, hy⟩ := hy.of_append
  obtain ⟨source₂, hn, hafter⟩ := hy.of_cons
  obtain ⟨symbol, hs⟩ : ∃ symbol, l.data.symbol? = some symbol := by
    cases hs : l.data.symbol? with
    | some symbol => exact ⟨symbol, rfl⟩
    | none => rw [Packet.isData, hs] at hdata; cases hdata
  rw [List.filterMap_append, List.filterMap_cons, hs] at hc
  refine of_others hv (fun p hp => hothers p (List.mem_append.mpr (.inl hp))) hr hbefore hc
    fun r' f' hr' hsource hc' hk' => ?_
  obtain ⟨a, ha, hc'⟩ := Automaton.completes_cons_iff.mp hc'
  refine hd r' f' symbol a source₂ hr' (hsource ▸ hn) hs ha (hk'.trans hkeys) ?_
  intro r'' f'' hr'' hsource' ha'
  subst hsource' ha'
  exact of_behind hv (fun p hp => hothers p (List.mem_append.mpr (.inr hp))) hr'' hafter he hc' hk

/-- A layer that reads as a chain of layers gives out the literal data at the end of them. -/
theorem of_reading (hv : o.verifier.Decides) {source : PacketSource} {layers : List LayerRecord}
    {p : LiteralData} (h : Reading o source layers p) {outer : List Frame}
    (hd : layers.length + outer.length ≤ o.maxLayers) {r : MessageReader o} {kind : LayerKind}
    (hr : r.Ready (.ofSource kind source :: outer))
    (hk : ∀ r' : MessageReader o, r'.Ready outer → r'.Delivers []) : r.Delivers p.body := by
  induction h generalizing outer r kind with
  | @literal s s' l p hy he hm hdata hl =>
    refine of_layer hv hy he hm hr hk fun r' f' symbol a source₁ hr' hn hs ha hkeys hbehind => ?_
    obtain ⟨hb, hstep⟩ := step_of_next_some hr'.frames hn
    rw [take_of_next hs ha, hdata] at hstep
    -- what waits is given out, and then the rest of the layer is read
    obtain ⟨m, hm⟩ := of_waiting (r := { r'.withFrames ({ f' with source := source₁, automaton := a } ::
        outer) hb with
      metadata := r'.metadata.record (.literal (.ofPacket p)), literal := p.body })
      rfl hr'.poisoned hr'.finished fun r'' hr'' => hbehind r'' _ hr'' rfl rfl
    rw [List.append_nil] at hm
    exact ⟨m, hm.of_step hr'.literal hstep⟩
  | @inside s s' l content inner p hy he hm ho h ih =>
    refine of_layer hv hy he hm hr hk fun r' f' symbol a source₁ hr' hn hs ha hkeys hbehind => ?_
    obtain ⟨hb, hstep⟩ := step_of_next_some hr'.frames hn
    rw [← hkeys] at ho
    have hinner := h.length_pos
    rw [List.length_cons] at hd
    have hdepth : outer.length + 1 ≤ o.restrictions.nestingDepth := by
      rw [ReadingContext.maxLayers] at hd
      omega
    obtain ⟨r'', kind', f'', hact, hframes, hl, hsource, ha'⟩ := act_of_opens (r := r')
      (b := f'.isBeforeData) (f := { f' with source := source₁, automaton := a }) (h := hb) ho hdepth
    rw [take_of_next hs ha, hact] at hstep
    obtain ⟨⟨hp', hf'⟩, -⟩ := step_of_eq_some hstep
    have hlayers : inner.length + (f'' :: outer).length ≤ o.maxLayers := by
      rw [List.length_cons]
      omega
    obtain ⟨m, hm⟩ := ih hlayers ⟨hframes, hp'.trans hr'.poisoned, hf'.trans hr'.finished,
      hl.trans hr'.literal⟩ fun r₃ hr₃ => hbehind r₃ f'' hr₃ hsource ha'
    exact ⟨m, hm.of_step hr'.literal hstep⟩

theorem of_ended {r : MessageReader o} (hr : r.Ready []) : r.Delivers [] :=
  ⟨_, .done hr.poisoned (settle_of_frames hr.literal hr.frames) hr.literal
    (congrArg Prod.fst (finish_of_frames hr.poisoned hr.finished hr.literal hr.frames))⟩

theorem of_start (hv : o.verifier.Decides) {source : PacketSource} {layers : List LayerRecord}
    {p : LiteralData} (h : Reading o source layers p) (hd : layers.length ≤ o.maxLayers) :
    (start o source).Delivers p.body := by
  have hready : (start o source).Ready [.ofSource .message source] := ⟨rfl, rfl, rfl, rfl⟩
  have hlayers : layers.length + ([] : List Frame).length ≤ o.maxLayers := hd
  exact of_reading hv h hlayers hready fun _ => of_ended

/-- Some run gives out what is delivered, and the metadata. -/
theorem exists_finish {source : PacketSource} {data : Octets} (h : (start o source).Delivers data) :
    ∃ r m r', Reaches o source r data ∧ r.finish = (.ok m, r') := by
  obtain ⟨m, hm⟩ := h
  obtain ⟨last, hlast, hfinish⟩ := hm.readAll_eq
  exact ⟨last, m, last.finish.2, Reaches.start.readAll hlast, Prod.ext hfinish rfl⟩

end Delivers

end MessageReader

/-- **Whatever can be read is read.** Where a message reads as a chain of layers, no more of them than
the nesting depth allows, and the checks of its signatures come to results, it is read to its end: the
data is that of the literal packet, and the metadata is the tree of all layers. -/
theorem readMessage_of_reading (hv : o.verifier.Decides) {message : Octets} {layers : List LayerRecord}
    {p : LiteralData} (h : Reading o (.ofContent o message) layers p) (hd : layers.length ≤ o.maxLayers) :
    ∃ m, readMessage o message = .ok (p.body, m) ∧
      m.roots = LayerRecord.nodes o.verifier p.body layers := by
  have hnodes := h.readsAs
  obtain ⟨m, hm⟩ := MessageReader.Delivers.of_start hv h hd
  obtain ⟨r, hsettle, hr⟩ := hm.settle
  obtain ⟨last, hlast, hfinish⟩ := hr.readAll_eq
  have hread := readMessage_of_readAll hsettle hlast hfinish
  refine ⟨m, hread, ?_⟩
  obtain ⟨r₁, r', hreach, hfinish⟩ := readMessage_eq_ok hread
  obtain ⟨layers', p', h', hp, hroots⟩ := hreach.holds.finish.2 m (by rw [hfinish])
  rw [hroots]
  exact (h'.readsAs.unique hnodes).2

end OpenPGP
