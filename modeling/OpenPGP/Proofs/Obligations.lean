import Mathlib.Algebra.Ring.Nat
import OpenPGP.Proofs.Coverage
/-!
# Whose signatures are still to come

A reader keeps one list of open obligations and one list of preceding signatures for all open layers,
beside the automatons of the layers, and nothing in the lists says to which layer an entry belongs.
`Apportioned` shares them out: each layer has a part of its own, which is what its packets leave open and
what its automaton has on the stack. The parts of the obligations stand innermost first, those of the
preceding signatures innermost last. So the obligation on top belongs to the innermost layer, and so do
the preceding signatures that its end settles.

Results:
* `Sound.apportioned`: the lists are shared out among the open layers.
* `Apportioned.length_pending`, `Apportioned.pairwise_depth`: how long and how ordered they are.
* `Apportioned.settle_eq_some`, `Apportioned.leave`: what settling takes from them.
* `MessageReader.obligations_of_reaches`: all of this on every run.
-/
namespace OpenPGP

variable {o : ReadingContext} {source : PacketSource} {out : Octets}

/-! ## One layer -/

/-- The signatures that are owed on the stack of a layer. -/
def Frame.owedSignatures (f : Frame) : Nat := f.automaton.configuration.stack.count .sig

/-- Where the packets of a layer come from: from the message, or from what the container opened to that
the layer around it stopped at. -/
inductive Begins (o : ReadingContext) (source : PacketSource) : List Frame → PacketSource → Prop
  | message : Begins o source [] source
  | content {f : Frame} {outer : List Frame} {start : PacketSource} {packets : List Packet} {d : Packet}
      {layer : Layer} {content : Octets} (h : Begins o source outer start)
      (hf : f.Took start (packets ++ [d])) (ho : Opens o (layerSketch packets).keys d layer content) :
      Begins o source (f :: outer) (.ofContent o content)

/-- What a layer at a depth leaves open, as it was saved when the tree was open at a path. -/
structure Frame.LeavesOpen (f : Frame) (start : PacketSource) (depth : Nat) (path : List Nat)
    (pending : List Obligation) (preceding : List PrecedingSignature) : Prop where
  /-- Of the packets taken from it: the announcements whose signature has not come, last first, and the
  signatures in front of the data, in order. -/
  packets : ∃ packets, f.Took start packets ∧
    pending.map (·.announcement) = (layerSketch packets).owed ∧
    preceding.map (·.signature) = (layerSketch packets).preceding
  owedSignatures : f.owedSignatures = pending.length
  position : (∀ x ∈ pending, x.position = path) ∧ ∀ x ∈ preceding, x.position = path
  depth : ∀ x ∈ preceding, x.depth = depth

/-- Obligations and preceding signatures shared out among open layers, with the path of the innermost
container: what the innermost layer leaves open stands first among the obligations and last among the
preceding signatures. -/
inductive Apportioned (o : ReadingContext) (source : PacketSource) (path : List Nat) :
    List Frame → List Obligation → List PrecedingSignature → Prop
  | nil : Apportioned o source path [] [] []
  | cons {f : Frame} {outer : List Frame} {start : PacketSource} {own pending : List Obligation}
      {held preceding : List PrecedingSignature} (hb : Begins o source outer start)
      (hf : f.LeavesOpen start outer.length (path.take outer.length) own held)
      (h : Apportioned o source path outer pending preceding) :
      Apportioned o source path (f :: outer) (own ++ pending) (preceding ++ held)

namespace Frame.Took

variable {f : Frame} {start : PacketSource} {packets : List Packet}

/-- On the stack lies a signature for every announcement that waits for one. -/
theorem owedSignatures_eq (h : f.Took start packets) :
    f.owedSignatures = (layerSketch packets).owed.length := by
  have hfits := layerSketch_fits h.accepted
  have hlength : (layerSketch packets).erase.owed.length = (layerSketch packets).owed.length :=
    List.length_map _
  rw [Frame.owedSignatures, ← hlength]
  cases hd : (layerSketch packets).data with
  | none =>
    obtain ⟨-, hstack⟩ := (Sketch.fits_none hd).mp hfits
    simp [hstack]
  | some d =>
    obtain ⟨-, hstack⟩ := (Sketch.fits_some hd).mp hfits
    simp [hstack]

theorem owedSignatures_of_ends (h : f.Took start packets) (he : f.Ends) : f.owedSignatures = 0 := by
  obtain ⟨a, ha⟩ := he.accepted
  obtain ⟨howed, -⟩ := LayerRecord.isMessage_ofSketch h.accepted ha
  rw [h.owedSignatures_eq, howed, List.length_nil]

theorem owedSignatures_ne_zero {f' : Frame} {s : Signature} (h : f.Took start packets)
    (ht : f.Takes (.signature s) f') (hb : f.isBeforeData = false) : f.owedSignatures ≠ 0 := by
  rcases h.of_takes ht with ⟨-, hb'⟩ | ⟨-, d, a, owed, s', -, howed, -⟩
  · rw [hb' rfl] at hb
    cases hb
  · simp [h.owedSignatures_eq, howed]

theorem leavesOpen (h : f.Took start packets) (data : Octets) (depth : Nat) :
    f.LeavesOpen start depth (List.replicate depth 0)
      (Obligation.covering data ((layerSketch packets).owed.map fun a => (a, depth)))
      (PrecedingSignature.covering data ((layerSketch packets).preceding.map fun s => (s, depth))) where
  packets := ⟨packets, h, by simp [Obligation.covering, Function.comp_def],
    by simp [PrecedingSignature.covering, Function.comp_def]⟩
  owedSignatures := by simp [h.owedSignatures_eq, Obligation.covering]
  position := by simp [Obligation.covering, PrecedingSignature.covering]
  depth := by simp [PrecedingSignature.covering]

end Frame.Took

/-! ## All layers -/

namespace Apportioned

variable {path : List Nat} {frames : List Frame} {pending : List Obligation}
  {preceding : List PrecedingSignature}

/-- As many obligations are open as there are signatures on all stacks. -/
theorem length_pending (h : Apportioned o source path frames pending preceding) :
    pending.length = (frames.map Frame.owedSignatures).sum := by
  induction h with
  | nil => rfl
  | cons hb hf h ih => rw [List.length_append, ih, ← hf.owedSignatures, List.map_cons, List.sum_cons]

/-- No preceding signature belongs deeper than the innermost layer. -/
theorem depth_lt (h : Apportioned o source path frames pending preceding) :
    ∀ p ∈ preceding, p.depth < frames.length := by
  induction h with
  | nil => intro p hp; cases hp
  | cons hb hf h ih =>
    intro p hp
    rw [List.length_cons]
    rcases List.mem_append.mp hp with hp | hp
    · exact Nat.lt_succ_of_lt (ih p hp)
    · rw [hf.depth p hp]
      exact Nat.lt_succ_self _

/-- Preceding signatures stand in the order of their depths. -/
theorem pairwise_depth (h : Apportioned o source path frames pending preceding) :
    (preceding.map (·.depth)).Pairwise (· ≤ ·) := by
  rw [List.pairwise_map]
  induction h with
  | nil => exact .nil
  | cons hb hf h ih =>
    refine List.pairwise_append.mpr ⟨ih, ?_, fun p hp q hq => ?_⟩
    · exact List.pairwise_of_forall_mem_list fun p hp q hq =>
        Nat.le_of_eq ((hf.depth p hp).trans (hf.depth q hq).symm)
    · rw [hf.depth q hq]
      exact Nat.le_of_lt (h.depth_lt p hp)

variable {f f' : Frame} {outer : List Frame}

/-- A signature behind the data finds the obligation on top, which is one of its own layer. -/
theorem settle_eq_some (h : Apportioned o source path (f :: outer) pending preceding) {s : Signature}
    (ht : f.Takes (.signature s) f') (hb : f.isBeforeData = false) (v : VerificationContext) :
    ∃ x, ((⟨pending, preceding⟩ : Correlation).settle v s).1 = some (path.take outer.length, x) := by
  cases h with
  | @cons _ _ start own pending held preceding hbegins hf h =>
    obtain ⟨packets, htook, -⟩ := hf.packets
    have hown := htook.owedSignatures_ne_zero ht hb
    rw [hf.owedSignatures] at hown
    obtain ⟨obligation, rest, rfl⟩ := List.exists_cons_of_length_pos (Nat.pos_of_ne_zero hown)
    have hposition := hf.position.1 obligation List.mem_cons_self
    exact ⟨_, by rw [← hposition]; rfl⟩

/-- The end of a layer finds none of its obligations open, settles its preceding signatures in order and
leaves to the layers around it what is theirs. -/
theorem leave (h : Apportioned o source path (f :: outer) pending preceding) (he : f.Ends)
    (v : VerificationContext) : ∃ start held kept, Begins o source outer start ∧
      f.LeavesOpen start outer.length (path.take outer.length) [] held ∧ preceding = kept ++ held ∧
      Apportioned o source path outer pending kept ∧
      (⟨pending, preceding⟩ : Correlation).settlePreceding v outer.length =
        (held.map fun p => (p.position, v.verify p.signature p.hasher none .preceding),
          ⟨pending, kept⟩) := by
  cases h with
  | @cons _ _ start own pending held kept hb hf h =>
    obtain ⟨packets, htook, -⟩ := hf.packets
    -- it has no obligations of its own left, so those that are open are of the layers around it
    have hown := htook.owedSignatures_of_ends he
    rw [hf.owedSignatures, List.length_eq_zero_iff] at hown
    subst hown
    exact ⟨start, held, kept, hb, hf, rfl, h,
      Correlation.settlePreceding_append v _ h.depth_lt hf.depth⟩

end Apportioned

/-! ## Every run -/

namespace Surroundings.Open

variable {c : Surroundings}

theorem begins (h : c.Open o source) : Begins o source c.frames c.start := by
  induction h with
  | root => exact .message
  | inside h hk hf hn hd ho ih => exact .content ih hf ho

theorem apportioned_cons {f : Frame} {packets : List Packet} {data : Octets} {depth : Nat}
    (h : c.Open o source) (hf : f.Took c.start packets) (hdepth : c.frames.length ≤ depth)
    (hc : Apportioned o source (List.replicate depth 0) c.frames (Obligation.covering data c.owed)
      (PrecedingSignature.covering data c.preceding)) :
    Apportioned o source (List.replicate depth 0) (f :: c.frames)
      (Obligation.covering data (c.owing (layerSketch packets)))
      (PrecedingSignature.covering data (c.holding (layerSketch packets))) := by
  have hpath : (List.replicate depth 0).take c.frames.length = List.replicate c.frames.length 0 := by
    rw [List.take_replicate, Nat.min_eq_left hdepth]
  have hopen := hf.leavesOpen data c.frames.length
  rw [← hpath] at hopen
  rw [owing, holding, Obligation.covering, PrecedingSignature.covering, List.map_append,
    List.map_append]
  exact .cons h.begins hopen hc

/-- What the layers around leave open, with containers on the path that may lie deeper. -/
theorem apportioned (h : c.Open o source) (data : Octets) {depth : Nat}
    (hdepth : c.frames.length ≤ depth) :
    Apportioned o source (List.replicate depth 0) c.frames (Obligation.covering data c.owed)
      (PrecedingSignature.covering data c.preceding) := by
  induction h with
  | root => exact .nil
  | @inside c f packets d layer content h hk hf hn hd ho ih =>
    have hdepth : c.frames.length ≤ depth := Nat.le_of_succ_le hdepth
    have := h.apportioned_cons hf hdepth (ih hdepth)
    -- the container the layer stopped at changes nothing of what the layer leaves open
    rwa [hd] at this

end Surroundings.Open

/-- What waits for signatures, and the signatures that wait, shared out among the open layers. -/
theorem Sound.apportioned {s : ReadingState} (h : Sound o source out s) :
    Apportioned o source s.metadata.position s.frames s.correlation.pending s.correlation.preceding := by
  cases h with
  | ended => exact .nil
  | @reading c f packets nodes literal hc hk hf hr =>
    have hdepth : c.frames.length ≤ c.frames.length := Nat.le_refl _
    have := hc.apportioned_cons hf hdepth (hc.apportioned out hdepth)
    rw [← hc.length_layers] at this
    exact this

namespace MessageReader

variable {r r' : MessageReader o}

theorem Reaches.apportioned (h : Reaches o source r out) (hp : r.poisoned = false) :
    Apportioned o source r.metadata.position r.frames r.correlation.pending
      r.correlation.preceding := by
  cases h.holds with
  | reading _ _ h => exact h.apportioned
  | finished _ _ hs _ _ _ _ _ _ hc =>
    rw [hs, hc]
    exact .nil
  | failed hp' => rw [hp] at hp'; cases hp'

theorem ends_of_step {f : Frame} {outer : List Frame} (hr : r.frames = f :: outer)
    (hn : f.source.next = .ok none) (e : r.step = .ok (some r')) :
    f.Ends ∧ r'.frames = outer ∧
      r'.correlation = (r.correlation.settlePreceding o.verifier outer.length).2 := by
  obtain ⟨h, hstep⟩ := step_of_next_none hr hn
  obtain ⟨r₁, hleave, h₁⟩ := Except.map_eq_ok.mp (hstep ▸ e)
  obtain rfl := Option.some.inj h₁
  obtain ⟨ha, -, -, hstate⟩ := leave_eq_ok hleave
  exact ⟨⟨hn, ha⟩, congrArg ReadingState.frames hstate, congrArg ReadingState.correlation hstate⟩

/-- **Every signature belongs to one open layer.** In every state that a reader of any source comes to
and that has not failed, the open obligations and the preceding signatures are shared out among the open
layers, those of inner layers on top of those of outer ones. There are as many obligations as signatures
on the stacks of all automatons. The preceding signatures stand in the order of their depths, none
belongs deeper than the innermost layer. So a signature behind the data always finds an obligation, one
of its own layer. Where a layer ends, none of its obligations is open any more and its preceding
signatures are settled, in order; the others are left, and belong to the layers that are still open. -/
theorem obligations_of_reaches (h : Reaches o source r out) (hp : r.poisoned = false) :
    Apportioned o source r.metadata.position r.frames r.correlation.pending r.correlation.preceding ∧
      r.correlation.pending.length = (r.frames.map Frame.owedSignatures).sum ∧
      (r.correlation.preceding.map (·.depth)).Pairwise (· ≤ ·) ∧
      (∀ p ∈ r.correlation.preceding, p.depth < r.frames.length) ∧
      ∀ f outer, r.frames = f :: outer →
        (∀ s f', f.Takes (.signature s) f' → f.isBeforeData = false → ∃ x,
          (r.correlation.settle o.verifier s).1 = some (r.metadata.position.take outer.length, x)) ∧
        ∀ r', f.source.next = .ok none → r.step = .ok (some r') →
          r'.frames = outer ∧ f.owedSignatures = 0 ∧
            r'.correlation.pending = r.correlation.pending ∧
            Apportioned o source r.metadata.position outer r'.correlation.pending
              r'.correlation.preceding ∧
            ∃ start held, Begins o source outer start ∧
              f.LeavesOpen start outer.length (r.metadata.position.take outer.length) [] held ∧
              r.correlation.preceding = r'.correlation.preceding ++ held ∧
              (r.correlation.settlePreceding o.verifier outer.length).1 = held.map fun p =>
                (p.position, o.verifier.verify p.signature p.hasher none .preceding) := by
  have happortioned := h.apportioned hp
  refine ⟨happortioned, happortioned.length_pending, happortioned.pairwise_depth,
    happortioned.depth_lt, fun f outer hr => ?_⟩
  rw [hr] at happortioned
  refine ⟨fun s f' ht hb => happortioned.settle_eq_some ht hb o.verifier, fun r' hn hs => ?_⟩
  obtain ⟨he, hframes, hcorrelation⟩ := ends_of_step hr hn hs
  obtain ⟨start, held, kept, hbegins, hopen, hpreceding, hkept, hsettled⟩ :=
    happortioned.leave he o.verifier
  rw [hsettled] at hcorrelation
  rw [hcorrelation]
  exact ⟨hframes, hopen.owedSignatures, rfl, hkept, start, held, hbegins, hopen, hpreceding,
    congrArg Prod.fst hsettled⟩

/-- A signature in front of an announcement, compressed data and the signature announced. -/
def doublySignedPackets : List Packet :=
  .signature (.ofSubpackets .text .ed25519 .sha512 [] [] (.zero 2) (.ed25519 (.zero 64))) ::
    signedPackets

theorem obligations_of_doublySignedPackets :
    (∃ r, Reaches .keyless (.packets doublySignedPackets) r [] ∧ r.frames.length = 2 ∧
      r.correlation.pending.length = 1 ∧
      r.correlation.pending.length = (r.frames.map Frame.owedSignatures).sum) ∧
    ∃ r f s f' x r₁ r₂, Reaches .keyless (.packets doublySignedPackets) r [0x68, 0x69] ∧
      r.frames = [f] ∧ f.Takes (.signature s) f' ∧ f.isBeforeData = false ∧
      (r.correlation.settle ReadingContext.keyless.verifier s).1 = some ([], x) ∧
      r.step = .ok (some r₁) ∧ r₁.step = .ok (some r₂) ∧ r₂.frames = [] ∧
      ∃ held : List PrecedingSignature, r₁.correlation.preceding = r₂.correlation.preceding ++ held ∧
        held.length = 1 := by
  have h : Reaches .keyless (.packets doublySignedPackets) _ _ := .start
  have h := h.step rfl rfl
  have h := h.step rfl rfl
  have hopen := h.step rfl rfl
  obtain ⟨-, hlength, -⟩ := obligations_of_reaches hopen rfl
  refine ⟨⟨_, hopen, rfl, rfl, hlength⟩, ?_⟩
  have h := hopen.step rfl rfl
  have h := h.read 2
  rw [read_of_literal rfl (by decide) (by decide)] at h
  have hbehind := h.step rfl rfl
  have hlast := hbehind.step rfl rfl
  obtain ⟨-, -, -, -, hsettle⟩ := obligations_of_reaches hbehind rfl
  obtain ⟨-, -, -, -, hleave⟩ := obligations_of_reaches hlast rfl
  obtain ⟨x, hx⟩ := (hsettle _ _ rfl).1 _ ⟨.message, .packets [], _, []⟩
    ⟨rfl, rfl, ⟨.signature, rfl, rfl⟩, rfl⟩ rfl
  obtain ⟨hframes, -, -, -, start, held, -, hopen, hheld, -⟩ := (hleave _ _ rfl).2 _ rfl rfl
  exact ⟨_, _, _, ⟨.message, .packets [], _, []⟩, x, _, _, hbehind, rfl,
    ⟨rfl, rfl, ⟨.signature, rfl, rfl⟩, rfl⟩, rfl, hx, rfl, rfl, hframes, held, hheld,
    (congrArg List.length hheld).symm⟩

end MessageReader

end OpenPGP
