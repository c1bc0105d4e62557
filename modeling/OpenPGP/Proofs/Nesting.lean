import OpenPGP.Proofs.LayerTree
import OpenPGP.Proofs.Steps
/-!
# Layers inside layers

A reader keeps one list of open obligations, one list of preceding signatures
and one tree for all layers together. Here it is said what belongs to which
layer. `Frame.Took` is a layer with the packets taken from it; `Surroundings`
are the layers around the innermost one, each of them stopped at a container,
with what they owe and with the path of the tree that leads through them.

Results:
* `Frame.Took.of_takes`: before the data everything is announced, behind it only owed signatures come.
* `Correlation.settlePreceding_covering`: the end of a layer settles what belongs to it.
* `Surroundings.Open.depth_lt`: what the surroundings hold belongs to layers further out.
* `Surroundings.Open.leadsTo`: the way to literal data leads through all open layers.
-/
namespace OpenPGP

open Crypto

/-! ## One layer -/

/-- The packets taken from a layer so far, every one accepted by its automaton. -/
structure Frame.Took (f : Frame) (start : PacketSource) (packets : List Packet) : Prop where
  yields : start.Yields packets f.source
  accepted : Automaton.initial.accept? (packets.filterMap Packet.symbol?) = some f.automaton
  /-- Until the data is met, the key packets are those that wait. -/
  keys : (layerSketch packets).data = none → f.keyPackets = (layerSketch packets).keys
  isProtected : ∀ body, .unprotectedData body ∉ packets

namespace LayerSketch

theorem settled_of_data_none {packets : List Packet} (h : (layerSketch packets).data = none) :
    (layerSketch packets).settled = [] := by
  induction packets using List.reverseRecOn with
  | nil => rfl
  | append_singleton packets p ih =>
    rw [layerSketch_append] at h ⊢
    cases p with
    | signature s =>
      simp only [add] at h ⊢
      cases hd : (layerSketch packets).data with
      | none => simpa [hd] using ih hd
      | some d =>
        cases ho : (layerSketch packets).owed <;> simp [hd, ho, settle] at h
    | encryptedData d => cases h
    | unprotectedData b => cases h
    | compressedData c => cases h
    | literalData p => cases h
    | _ => exact ih h

end LayerSketch

namespace Frame.Took

variable {f f' : Frame} {start : PacketSource} {packets : List Packet} {p : Packet}

theorem ofSource (kind : LayerKind) (start : PacketSource) :
    (Frame.ofSource kind start).Took start [] where
  yields := .nil start
  accepted := rfl
  keys := fun _ => rfl
  isProtected := fun _ h => by cases h

theorem pass {source : PacketSource} (h : f.Took start packets)
    (hn : f.source.next = .ok (some (p, source))) (hp : p.symbol? = none) :
    Took { f with source } start (packets ++ [p]) where
  yields := .snoc h.yields hn
  accepted := by
    rw [List.filterMap_append, List.filterMap_cons_none hp]
    simpa using h.accepted
  keys := by
    rw [layerSketch_append, LayerSketch.add_of_symbol?_none hp]
    exact h.keys
  isProtected := fun body hb => by
    rcases List.mem_append.mp hb with hb | hb
    · exact h.isProtected body hb
    · rw [← List.mem_singleton.mp hb] at hp
      cases hp

/-- An accepted packet is one more; the key packets that wait then are a matter of its kind. -/
theorem take {keys : List KeyPacket} (h : f.Took start packets) (ht : f.Takes p f')
    (hk : (layerSketch (packets ++ [p])).data = none → keys = (layerSketch (packets ++ [p])).keys)
    (hu : ∀ body, p ≠ .unprotectedData body) :
    Took { f' with keyPackets := keys } start (packets ++ [p]) where
  yields := .snoc h.yields ht.next
  accepted := by
    obtain ⟨s, hs, ha⟩ := ht.accepted
    rw [List.filterMap_append, show [p].filterMap Packet.symbol? = [s] by simp [hs]]
    exact Automaton.accept?_concat h.accepted ha
  keys := hk
  isProtected := fun body hb => by
    rcases List.mem_append.mp hb with hb | hb
    · exact h.isProtected body hb
    · exact hu body (List.mem_singleton.mp hb).symm

/-- What is taken comes before the data, or is a signature behind it that was announced; a reader tells
the two apart by the state of the automaton. -/
theorem of_takes (h : f.Took start packets) (ht : f.Takes p f') :
    ((layerSketch packets).data = none ∧ (p.symbol? = some .signature → f.isBeforeData = true)) ∨
    (f.isBeforeData = false ∧ ∃ d a owed s, (layerSketch packets).data = some d ∧
      (layerSketch packets).owed = a :: owed ∧ p = .signature s) := by
  obtain ⟨s, hs, ha⟩ := ht.accepted
  obtain ⟨-, c, hc, -⟩ := Automaton.next_eq_ok_iff.mp ha
  have hfits := layerSketch_fits h.accepted
  cases hd : (layerSketch packets).data with
  | none =>
    refine .inl ⟨rfl, fun hp => ?_⟩
    obtain rfl : s = .signature := by rw [hs] at hp; exact Option.some.inj hp
    rcases Sketch.next?_none hd hfits hs hc with ⟨e, -⟩ | ⟨e, -⟩ | ⟨hkeys, -⟩
    · cases e
    · cases e
    · have hstate := ((Sketch.fits_none hd).mp hfits).1
      simpa [isBeforeData, hkeys] using hstate
  | some d =>
    rcases Sketch.next?_some hd hfits hs hc with ⟨x, owed, ho, rfl, -⟩ | ⟨-, rfl, -⟩
    · have hstate := ((Sketch.fits_some hd).mp hfits).1
      obtain ⟨a, owed', ho'⟩ : ∃ a owed', (layerSketch packets).owed = a :: owed' := by
        cases hk : (layerSketch packets).owed with
        | nil => simp [LayerSketch.erase, hk] at ho
        | cons a owed' => exact ⟨a, owed', rfl⟩
      obtain ⟨sig, rfl⟩ := Packet.symbol?_eq_signature hs
      refine .inr ⟨?_, d, a, owed', sig, rfl, ho', rfl⟩
      cases hst : f.automaton.configuration.state <;>
        simp [isBeforeData, hst, ControlState.isElement] at hstate ⊢
    · exact absurd hs (Packet.symbol?_ne_end p)

theorem data_none_of_takes (h : f.Took start packets) (ht : f.Takes p f')
    (hp : ∀ s, p ≠ .signature s) : (layerSketch packets).data = none := by
  rcases h.of_takes ht with ⟨hd, -⟩ | ⟨-, d, a, owed, s, -, -, rfl⟩
  · exact hd
  · exact absurd rfl (hp s)

theorem admits (h : f.Took start (packets ++ [p])) : start.Admits packets p :=
  ⟨⟨_, h.yields⟩, ⟨_, h.accepted⟩, h.isProtected⟩

end Frame.Took

/-! ## What is owed -/

/-- Open obligations over data seen so far, of announcements with the number of containers around. -/
def Obligation.covering (data : Octets) (owed : List (OnePassSignature × Nat)) : List Obligation :=
  owed.map fun x =>
    ⟨x.1, SignatureHasher.covering x.1.hashAlgorithm x.1.type data, List.replicate x.2 0⟩

/-- Preceding signatures over data seen so far, with the number of containers around. -/
def PrecedingSignature.covering (data : Octets) (preceding : List (Signature × Nat)) :
    List PrecedingSignature :=
  preceding.map fun x =>
    ⟨x.1, SignatureHasher.covering x.1.hashAlgorithm x.1.type data, List.replicate x.2 0, x.2⟩

namespace Correlation

/-- What is owed over data seen so far. -/
def covering (data : Octets) (owed : List (OnePassSignature × Nat)) (preceding : List (Signature × Nat)) :
    Correlation :=
  ⟨Obligation.covering data owed, PrecedingSignature.covering data preceding⟩

theorem announce_covering (owed : List (OnePassSignature × Nat)) (preceding : List (Signature × Nat))
    (a : OnePassSignature) (depth : Nat) :
    (covering [] owed preceding).announce a (List.replicate depth 0) =
      covering [] ((a, depth) :: owed) preceding := by
  simp [covering, announce, Obligation.covering, SignatureHasher.covering_nil]

theorem precede_covering (owed : List (OnePassSignature × Nat)) (preceding : List (Signature × Nat))
    (s : Signature) (depth : Nat) :
    (covering [] owed preceding).precede s (List.replicate depth 0) depth =
      covering [] owed (preceding ++ [(s, depth)]) := by
  simp [covering, precede, PrecedingSignature.covering, SignatureHasher.covering_nil]

theorem update_update (c : Correlation) (a b : Octets) :
    (c.update a).update b = c.update (a ++ b) := by
  simp [update, Function.comp_def, SignatureHasher.update_update]

theorem update_covering (a b : Octets) (owed : List (OnePassSignature × Nat))
    (preceding : List (Signature × Nat)) :
    (covering a owed preceding).update b = covering (a ++ b) owed preceding := by
  simp [covering, update, Obligation.covering, PrecedingSignature.covering, Function.comp_def,
    SignatureHasher.map_update_covering]

/-- Where the preceding signatures of a depth stand behind those further out, the end of a layer of that
depth settles them in order and keeps the others. -/
theorem settlePreceding_append (v : VerificationContext) (pending : List Obligation)
    {outer own : List PrecedingSignature} {depth : Nat} (houter : ∀ p ∈ outer, p.depth < depth)
    (hown : ∀ p ∈ own, p.depth = depth) :
    (⟨pending, outer ++ own⟩ : Correlation).settlePreceding v depth =
      (own.map fun p => (p.position, v.verify p.signature p.hasher none .preceding),
        ⟨pending, outer⟩) := by
  have hpass : ∀ p ∈ outer, decide (p.depth < depth) = true := fun p hp => by simpa using houter p hp
  simp only [settlePreceding, List.dropWhile_append_of_pos hpass, List.takeWhile_append_of_pos hpass]
  cases own with
  | nil => simp
  | cons p own =>
    have hstop : decide (p.depth < depth) = false := by
      simp [hown p List.mem_cons_self]
    simp [hstop]

/-- At the end of a layer its own preceding signatures are settled, and those further out are kept. -/
theorem settlePreceding_covering (v : VerificationContext) (data : Octets) (owed : List (OnePassSignature × Nat))
    (outer : List (Signature × Nat)) (preceding : List Signature) (depth : Nat)
    (h : ∀ x ∈ outer, x.2 < depth) :
    (covering data owed (outer ++ preceding.map fun s => (s, depth))).settlePreceding v depth =
      (preceding.map fun s => (List.replicate depth 0, LayerRecord.verifyPreceding v data s),
        covering data owed outer) := by
  have houter : ∀ p ∈ PrecedingSignature.covering data outer, p.depth < depth := by
    intro p hp
    obtain ⟨x, hx, rfl⟩ := List.mem_map.mp hp
    exact h x hx
  have hown : ∀ p ∈ PrecedingSignature.covering data (preceding.map fun s => (s, depth)),
      p.depth = depth := by
    simp [PrecedingSignature.covering]
  have hsplit : PrecedingSignature.covering data (outer ++ preceding.map fun s => (s, depth)) =
      PrecedingSignature.covering data outer ++
        PrecedingSignature.covering data (preceding.map fun s => (s, depth)) := List.map_append
  rw [covering, hsplit, settlePreceding_append v _ houter hown]
  simp [covering, PrecedingSignature.covering, LayerRecord.verifyPreceding]

end Correlation

/-! ## The layers around -/

/-- The layers around the innermost one. -/
structure Surroundings where
  /-- Where the packets of the innermost layer come from. -/
  start : PacketSource
  frames : List Frame
  /-- The containers the frames stopped at, as they are recorded. -/
  layers : List Layer
  /-- Announcements whose signature is to come, with the number of containers around. -/
  owed : List (OnePassSignature × Nat)
  preceding : List (Signature × Nat)

namespace Surroundings

/-- The message itself is surrounded by nothing. -/
def root (source : PacketSource) : Surroundings := ⟨source, [], [], [], []⟩

/-- The kind of the layer inside. -/
def kind? (c : Surroundings) : Option LayerKind :=
  match c.layers with
  | [] => some .message
  | layer :: _ => layer.kind?

/-- What is owed in all, with a layer inside. -/
def owing (c : Surroundings) (k : LayerSketch) : List (OnePassSignature × Nat) :=
  k.owed.map (fun a => (a, c.frames.length)) ++ c.owed

/-- What is held back in all, with a layer inside. -/
def holding (c : Surroundings) (k : LayerSketch) : List (Signature × Nat) :=
  c.preceding ++ k.preceding.map fun s => (s, c.frames.length)

/-- The surroundings of the content of a container that a layer stopped at. -/
def inside (c : Surroundings) (o : ReadingContext) (f : Frame) (k : LayerSketch) (layer : Layer)
    (content : Octets) : Surroundings where
  start := .ofContent o content
  frames := f :: c.frames
  layers := layer :: c.layers
  owed := c.owing k
  preceding := c.holding k

/-- Surroundings a reader of a source can be in: each layer stopped at the container that opened to the
next one, and is of the kind of the container around it. -/
inductive Open (o : ReadingContext) (source : PacketSource) : Surroundings → Prop
  | root : Open o source (root source)
  | inside {c : Surroundings} {f : Frame} {packets : List Packet} {d : Packet} {layer : Layer}
      {content : Octets} (h : c.Open o source) (hk : c.kind? = some f.kind)
      (hf : f.Took c.start (packets ++ [d])) (hn : (layerSketch packets).data = none)
      (hd : layerSketch (packets ++ [d]) = { layerSketch packets with data := some d })
      (ho : Opens o (layerSketch packets).keys d layer content) :
      Open o source (c.inside o f (layerSketch packets) layer content)

variable {o : ReadingContext} {source : PacketSource} {c : Surroundings}

theorem Open.length_layers (h : c.Open o source) : c.layers.length = c.frames.length := by
  induction h with
  | root => rfl
  | inside h hk hf hn hd ho ih => simp [Surroundings.inside, ih]

theorem Open.kind_eq_message_iff (h : c.Open o source) {kind : LayerKind} (hk : c.kind? = some kind) :
    kind = .message ↔ c.frames = [] := by
  rw [← List.length_eq_zero_iff, ← h.length_layers, List.length_eq_zero_iff]
  unfold kind? at hk
  split at hk
  · next hl => simpa [hl] using (Option.some.inj hk).symm
  · next layer layers hl => cases layer <;> cases hk <;> simp [hl]

/-- What the surroundings hold back belongs to layers further out. -/
theorem Open.depth_lt (h : c.Open o source) : ∀ x ∈ c.preceding, x.2 < c.frames.length := by
  induction h with
  | root => intro x hx; cases hx
  | inside h hk hf hn hd ho ih =>
    intro x hx
    simp only [Surroundings.inside, holding, List.length_cons] at hx ⊢
    rcases List.mem_append.mp hx with hx | hx
    · exact Nat.lt_succ_of_lt (ih x hx)
    · obtain ⟨s, -, rfl⟩ := List.mem_map.mp hx
      exact Nat.lt_succ_self _

/-- The way from the innermost layer to literal data begins at the message. -/
theorem Open.leadsTo (h : c.Open o source) {p : LiteralData} (hp : LeadsTo o c.start p) :
    LeadsTo o source p := by
  induction h with
  | root => exact hp
  | inside h hk hf hn hd ho ih => exact ih (.of_opens hf.admits ho hp)

end Surroundings

end OpenPGP
