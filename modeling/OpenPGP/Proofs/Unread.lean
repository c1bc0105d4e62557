import OpenPGP.Proofs.Rendering
import OpenPGP.Proofs.Steps
/-!
# Layers that were composed and are still to be read

A reader of a composed message stands in a stack of layers, and of each it has
read some tokens. `Awaits` says which tokens are left of every layer. One step
either finds the tokens that are left malformed, or goes on to a stack that is
well formed exactly if the one before it was: no packet of any layer is judged
by the automaton of another, and nothing else can fail.

Results:
* `PacketSource.Unread.next_cons`: the next packet is the one of the next token.
* `Awaits.verdict`: what one step comes to.
-/
namespace OpenPGP

open Token

/-! ## Limits -/

/-- What it takes to open every layer that tokens are rendered to. -/
structure ReadingContext.OpensLayers (o : ReadingContext) : Prop where
  /-- The key of the layers is tried first. -/
  key : ∃ others, o.credentials.sessionKeys = layerKey :: others
  cipher : o.restrictions.policy.acceptsSymmetric .aes128 = true
  compression : o.restrictions.policy.acceptsCompression .uncompressed = true
  /-- Either no certificate is known, or the sum of the clock and the tolerance is a time. -/
  clock : (∀ name, o.certificate? name = none) ∨ (o.now.after? o.restrictions.policy.clockSkew).isSome = true

theorem ReadingContext.OpensLayers.decides {o : ReadingContext} (ho : o.OpensLayers) : o.verifier.Decides := by
  obtain hnone | hclock := ho.clock
  · exact VerificationContext.decides_of_no_certificate hnone
  · exact VerificationContext.decides_of_clock hclock

/-- Whether the layer of some tokens, inside `outer` others, keeps within all limits. -/
structure Token.KeepsLimits (r : Restrictions) (outer : Nat) (tokens : List Token) : Prop where
  depth : maxDepth tokens + outer ≤ r.nestingDepth + 1
  body : longestBody tokens ≤ r.packetLength.toNat
  expansion : longestExpansion tokens ≤ r.decompressedLength.toNat

theorem Token.depth_pos (t : Token) : 1 ≤ t.depth := by
  cases t with
  | encrypted content => cases content <;> simp [depth]
  | compressed content => cases content <;> simp [depth]
  | _ => exact Nat.le_refl 1

/-- A token is a container with some content. -/
inductive Token.Contains : Token → List Token → Prop
  | encrypted (content : List Token) : Contains (.encrypted content) content
  | compressed (content : List Token) : Contains (.compressed content) content

namespace Token.Contains

variable {t : Token} {content : List Token}

/-- A container is a layer deeper than what it holds, and an empty one counts for two. -/
theorem depth_le (h : t.Contains content) : 2 ≤ t.depth ∧ maxDepth content + 1 ≤ t.depth := by
  cases content with
  | nil => cases h <;> simp [depth, maxDepth]
  | cons c cs =>
    have hpos : 1 ≤ maxDepth (c :: cs) := by
      unfold maxDepth
      exact Nat.le_trans c.depth_pos (Nat.le_max_left _ _)
    have hdepth : t.depth = 1 + maxDepth (c :: cs) := by
      cases h <;> simp [depth]
    omega

theorem longestInside_eq (h : t.Contains content) : t.longestInside = longestBody content := by
  cases h <;> rw [longestInside]

theorem longestExpansion_le (h : t.Contains content) : longestExpansion content ≤ t.expansion := by
  cases h with
  | encrypted => simp only [Token.expansion, Nat.le_refl]
  | compressed => simp only [Token.expansion, Nat.le_max_right]

theorem holdsMessage_eq (h : t.Contains content) : t.holdsMessage = isMessage content := by
  cases h <;> rw [holdsMessage, isMessage]

end Token.Contains

namespace Token.KeepsLimits

variable {r : Restrictions} {outer : Nat} {t : Token} {content ts : List Token}

theorem tail (h : KeepsLimits r outer (t :: ts)) : KeepsLimits r outer ts where
  depth := by have := h.depth; rw [maxDepth] at this; omega
  body := by have := h.body; rw [longestBody] at this; omega
  expansion := by have := h.expansion; rw [longestExpansion] at this; omega

theorem head_body (h : KeepsLimits r outer (t :: ts)) : t.bodyLength ≤ r.packetLength.toNat := by
  have := h.body
  rw [longestBody] at this
  omega

theorem inside (h : KeepsLimits r outer (t :: ts)) (hc : t.Contains content) :
    outer + 1 ≤ r.nestingDepth ∧ KeepsLimits r (outer + 1) content := by
  obtain ⟨hd, hb, he⟩ := h
  have hdepth := hc.depth_le
  have hinside := hc.longestInside_eq
  have hexpansion := hc.longestExpansion_le
  unfold maxDepth at hd
  unfold longestBody at hb
  unfold longestExpansion at he
  exact ⟨by omega, by omega, by omega, by omega⟩

theorem length_compressed (h : KeepsLimits r outer (.compressed content :: ts)) :
    layerLength content ≤ r.decompressedLength.toNat := by
  have := h.expansion
  rw [longestExpansion, Token.expansion] at this
  omega

end Token.KeepsLimits

/-! ## Sources -/

/-- Whether a source reads the wire form of packets for some tokens, and nothing else. -/
def PacketSource.Unread (limit : UInt64) (s : PacketSource) (tokens : List Token) : Prop :=
  ∃ source packets octets, s = .reader ⟨source, limit⟩ ∧ RendersAll tokens packets ∧
    Packet.encodeAll packets = .ok octets ∧ source.Delivers octets

namespace PacketSource.Unread

variable {limit : UInt64} {s : PacketSource} {t : Token} {ts : List Token}

theorem of_rendersAll {packets : List Packet} {octets : Octets} {tokens : List Token}
    (h : RendersAll tokens packets) (he : Packet.encodeAll packets = .ok octets) :
    PacketSource.Unread limit (.reader ⟨.ofOctets octets, limit⟩) tokens :=
  ⟨_, packets, octets, rfl, h, he, Source.delivers_ofOctets octets⟩

theorem next_nil (h : s.Unread limit []) : s.next = .ok none := by
  obtain ⟨source, packets, octets, rfl, hp, he, hd⟩ := h
  cases hp
  cases he
  obtain ⟨source', hs, -⟩ := PacketReader.reads_nil limit source hd
  rw [PacketSource.next, PacketReader.next, hs]

/-- The next packet is the one of the next token, if that is not longer than a packet may be. -/
theorem next_cons (h : s.Unread limit (t :: ts)) (hl : t.bodyLength ≤ limit.toNat) :
    ∃ p s', s.next = .ok (some (p, s')) ∧ Renders t p ∧ s'.Unread limit ts := by
  obtain ⟨source, packets, octets, rfl, hp, he, hd⟩ := h
  obtain _ | ⟨hp, hps⟩ := hp
  obtain ⟨first, rest, hf, hr, rfl⟩ := Packet.encodeAll_cons_eq_ok.mp he
  rw [← hp.length_body] at hl
  obtain ⟨source', hs, hd'⟩ :=
    PacketReader.reads_encode_of_wellFormed hp.wellFormed hf hl rest source hd
  refine ⟨_, .reader ⟨source', limit⟩, ?_, hp, source', _, rest, rfl, hps, hr, hd'⟩
  rw [PacketSource.next, PacketReader.next, hs]

end PacketSource.Unread

/-! ## Stacks -/

/-- An open layer and the tokens that were not read yet. -/
structure Remainder where
  frame : Frame
  tokens : List Token

/-- Whether a layer comes out as a message, and every container that is still to be opened. -/
def Remainder.Completes (x : Remainder) : Prop :=
  x.frame.automaton.Completes (symbols x.tokens) ∧ allHoldMessages x.tokens = true

theorem Remainder.completes_ofSource (kind : LayerKind) (source : PacketSource) (tokens : List Token) :
    Completes ⟨.ofSource kind source, tokens⟩ ↔ isMessage tokens = true := by
  have hlayer : Automaton.initial.Completes (symbols tokens) ↔ isLayer tokens = true := by
    rw [Automaton.initial_completes_iff, ← InputSymbol.message?_eq_some_nil_iff, isLayer,
      InputSymbol.isMessage, decide_eq_true_iff]
  rw [isMessage, Bool.and_eq_true, ← hlayer]
  rfl

/-- Whether the whole stack does. -/
def Completable (stack : List Remainder) : Prop := ∀ x ∈ stack, x.Completes

theorem completable_cons {x : Remainder} {outer : List Remainder} :
    Completable (x :: outer) ↔ x.Completes ∧ Completable outer := List.forall_mem_cons

theorem completable_append {inner outer : List Remainder} :
    Completable (inner ++ outer) ↔ Completable inner ∧ Completable outer := List.forall_mem_append

/-- The layers of composed tokens, innermost first, all within the limits. -/
inductive Awaiting (o : ReadingContext) : List Remainder → Prop
  | nil : Awaiting o []
  | cons {x : Remainder} {outer : List Remainder}
      (hu : x.frame.source.Unread o.restrictions.packetLength x.tokens)
      (hl : KeepsLimits o.restrictions outer.length x.tokens) (h : Awaiting o outer) :
      Awaiting o (x :: outer)

/-- A reader that stands in a stack of composed layers. -/
structure MessageReader.Awaits {o : ReadingContext} (r : MessageReader o) (stack : List Remainder) :
    Prop where
  frames : r.frames = stack.map Remainder.frame
  awaiting : Awaiting o stack

namespace MessageReader

variable {o : ReadingContext} {r : MessageReader o}

/-! ## Steps -/

/-- What one step of a reader comes to that stands in a stack of composed layers. -/
inductive Verdict (r : MessageReader o) (stack : List Remainder) : Prop
  /-- Every layer has ended. -/
  | ended (hs : stack = []) (h : r.step = .ok none)
  | malformed (rejection : Rejection) (h : r.step = .error (.malformed rejection))
      (hbad : ¬ Completable stack)
  /-- The stack goes on to one that is as good. -/
  | next (r' : MessageReader o) (stack' : List Remainder) (h : r.step = .ok (some r'))
      (ha : r'.Awaits stack') (hiff : Completable stack ↔ Completable stack')

/-- What acting on the packet of a token opened: nothing, or the layer the token holds. -/
inductive Opened (o : ReadingContext) (outer : Nat) (t : Token) : List Remainder → Prop
  | nothing (h : t.holdsMessage = true) : Opened o outer t []
  | layer {x : Remainder} (hu : x.frame.source.Unread o.restrictions.packetLength x.tokens)
      (hl : KeepsLimits o.restrictions (outer + 1) x.tokens)
      (hiff : t.holdsMessage = true ↔ x.Completes) : Opened o outer t [x]

namespace Opened

variable {outer : List Remainder} {t : Token} {inner : List Remainder}

/-- What was opened completes if the content of its container is a message in every layer. -/
theorem completable_iff {n : Nat} (h : Opened o n t inner) :
    t.holdsMessage = true ↔ Completable inner := by
  cases h with
  | nothing h => exact ⟨fun _ x hx => (by cases hx), fun _ => h⟩
  | layer hu hl hiff => rw [hiff, Completable, List.forall_mem_singleton]

theorem awaiting {x : Remainder} (h : Opened o outer.length t inner) (hx : Awaiting o (x :: outer)) :
    Awaiting o (inner ++ x :: outer) := by
  cases h with
  | nothing h => exact hx
  | layer hu hl hiff => exact .cons hu hl hx

end Opened

theorem Opened.ofContent {outer : Nat} {t : Token} {content : List Token} {packets : List Packet}
    {octets : Octets} {kind : LayerKind} (hc : t.Contains content)
    (hp : RendersAll content packets) (he : Packet.encodeAll packets = .ok octets)
    (hl : KeepsLimits o.restrictions (outer + 1) content) : Opened o outer t
      [⟨Frame.ofContent kind octets o.restrictions.packetLength, content⟩] := by
  refine .layer (PacketSource.Unread.of_rendersAll hp he) hl ?_
  rw [hc.holdsMessage_eq]
  exact (Remainder.completes_ofSource _ _ _).symm

/-- Acting on the packet of a token never fails, whatever the layer is. -/
theorem act_opens (ho : o.OpensLayers) {t : Token} {ts : List Token} {p : Packet} (hp : Renders t p)
    {outer : List Frame} (hl : KeepsLimits o.restrictions outer.length (t :: ts)) (before : Bool)
    (frame : Frame) (h : outer.length + 1 ≤ o.maxLayers) :
    ∃ r' f' inner, r.act before p frame outer h = .ok r' ∧
      r'.frames = inner.map Remainder.frame ++ f' :: outer ∧ f'.source = frame.source ∧
      f'.automaton = frame.automaton ∧ Opened o outer.length t inner := by
  cases hp with
  | sessionKey => exact ⟨_, frame.addKeyPacket _, [], rfl, rfl, rfl, rfl, .nothing rfl⟩
  | @encrypted content packets octets start body hc he hs hb =>
    obtain ⟨others, hk⟩ := ho.key
    obtain ⟨hdepth, hinside⟩ := hl.inside (.encrypted content)
    have hresolve :=
      EncryptedData.resolveBy_encryptWithCode hk ho.cipher rfl rfl hs hb frame.keyPackets
    have henter : r.enterEncrypted (.v1 body) frame outer =
        .ok (r.enter .encrypted (.encryption ⟨.aes128, .modificationDetection, .sessionKey 0⟩) octets
          { frame with keyPackets := [] } outer hdepth) := by
      rw [enterEncrypted, dif_pos hdepth]
      simp only [integrityOf, hresolve]
    exact ⟨_, { frame with keyPackets := [] }, _, henter, rfl, rfl, rfl,
      Opened.ofContent (.encrypted content) hc he hinside⟩
  | @compressed content packets octets hc he =>
    obtain ⟨hdepth, hinside⟩ := hl.inside (.compressed content)
    have hlength : octets.length ≤ o.restrictions.decompressedLength.toNat := by
      have := hl.length_compressed
      rw [hc.length_encodeAll he]
      omega
    have hexpand : CompressedData.decompress ⟨.uncompressed, octets⟩ o.restrictions.decompressedLength =
        .ok octets := Compression.Expansion.read_of_le rfl hlength
    have henter : r.enterCompressed ⟨.uncompressed, octets⟩ frame outer =
        .ok (r.enter .compressed (.compression .uncompressed) octets frame outer hdepth) := by
      rw [enterCompressed, dif_pos hdepth]
      simp only [ho.compression, Bool.not_true, Bool.false_eq_true, if_false, hexpand]
    exact ⟨_, frame, _, henter, rfl, rfl, rfl, Opened.ofContent (.compressed content) hc he hinside⟩
  | literal seed time => exact ⟨_, frame, [], rfl, rfl, rfl, rfl, .nothing rfl⟩
  | onePassSignature => exact ⟨_, frame, [], rfl, rfl, rfl, rfl, .nothing rfl⟩
  | signature created =>
    cases before with
    | true => exact ⟨_, frame, [], rfl, rfl, rfl, rfl, .nothing rfl⟩
    | false =>
      obtain ⟨r', hr', hframes, -⟩ := exists_settleSignature ho.decides (r.withFrames (frame :: outer) h)
        (emptySignature created)
      exact ⟨r', frame, [], hr', hframes, rfl, rfl, .nothing rfl⟩
  | marker => exact ⟨_, frame, [], rfl, rfl, rfl, rfl, .nothing rfl⟩
  | padding => exact ⟨_, frame, [], rfl, rfl, rfl, rfl, .nothing rfl⟩
  | unexpected => exact ⟨_, frame, [], rfl, rfl, rfl, rfl, .nothing rfl⟩

/-- The packet of a token is refused by the automaton of its own layer, or taken and acted on. -/
theorem take_verdict (ho : o.OpensLayers) {t : Token} {ts : List Token} {p : Packet} (hp : Renders t p)
    {outer : List Frame} (hl : KeepsLimits o.restrictions outer.length (t :: ts)) (frame : Frame)
    (h : outer.length + 1 ≤ o.maxLayers) :
    (¬ frame.automaton.Completes (symbols (t :: ts)) ∧
        ∃ rejection, r.take p frame outer h = .error (.malformed rejection)) ∨
      ∃ r' f' inner, r.take p frame outer h = .ok r' ∧
        r'.frames = inner.map Remainder.frame ++ f' :: outer ∧ f'.source = frame.source ∧
        Opened o outer.length t inner ∧ (frame.automaton.Completes (symbols (t :: ts)) ↔
          f'.automaton.Completes (symbols ts)) := by
  have hsymbol := hp.symbol?_eq
  unfold take
  split
  · next hn =>
    rw [hn] at hsymbol
    have hholds : t.holdsMessage = true := by
      cases t <;> first | rfl | cases hsymbol
    refine .inr ⟨_, frame, [], rfl, rfl, rfl, .nothing hholds, ?_⟩
    rw [symbols, List.filterMap_cons_none hsymbol.symm, symbols]
  · next s hs =>
    rw [hs] at hsymbol
    have hcons : symbols (t :: ts) = s :: symbols ts := List.filterMap_cons_some hsymbol.symm
    rw [hcons, Automaton.completes_cons_iff]
    split
    · next rejection a hn => exact .inl ⟨by simp [hn], rejection, rfl⟩
    · next a hn =>
      obtain ⟨r', f', inner, hact, hframes, hsource, hautomaton, hopened⟩ :=
        act_opens (r := r) ho hp hl frame.isBeforeData { frame with automaton := a } h
      refine .inr ⟨r', f', inner, hact, hframes, hsource, hopened, ?_⟩
      rw [hautomaton]
      simp [hn]

end MessageReader

open MessageReader in
/-- **One step.** Where composed layers are read, a step takes the next token of the innermost one or
ends it; it fails only as malformed, and only if the tokens that are left do not complete. -/
theorem MessageReader.Awaits.verdict {o : ReadingContext} (ho : o.OpensLayers) {r : MessageReader o}
    {stack : List Remainder} (h : r.Awaits stack) : r.Verdict stack := by
  obtain ⟨hframes, hawaits⟩ := h
  cases hawaits with
  | nil => exact .ended rfl (step_eq_none_iff.mpr hframes)
  | @cons x outer hu hl houter =>
    obtain ⟨f, tokens⟩ := x
    rw [List.map_cons] at hframes
    rw [← List.length_map Remainder.frame] at hl
    cases tokens with
    | nil =>
      -- the layer ends, and the stack goes on with those around it
      obtain ⟨hb, hstep⟩ := step_of_next_none hframes hu.next_nil
      rcases leave_verdict_of_decides (r := r) ho.decides hb with ⟨hc, r', hr, hr', -⟩ | ⟨hc, rejection, hr⟩
      · refine .next r' outer (by rw [hstep, hr]; rfl) ⟨hr', houter⟩ ?_
        rw [completable_cons]
        exact and_iff_right ⟨hc, rfl⟩
      · refine .malformed rejection (by rw [hstep, hr]; rfl) fun hgood => hc ?_
        exact (completable_cons.mp hgood).1.1
    | cons t ts =>
      obtain ⟨p, source, hn, hp, hrest⟩ := hu.next_cons hl.head_body
      obtain ⟨hb, hstep⟩ := step_of_next_some hframes hn
      rcases take_verdict (r := r) ho hp hl { f with source } hb with
        ⟨hc, rejection, hr⟩ | ⟨r', f', inner, hr, hr', hsource, hopened, hiff⟩
      · refine .malformed rejection (by rw [hstep, hr]; rfl) fun hgood => hc ?_
        exact (completable_cons.mp hgood).1.1
      · -- what the token opened, if anything, lies on top of the rest of its layer
        have hrest' : Awaiting o (⟨f', ts⟩ :: outer) := by
          refine .cons (hsource ▸ hrest) ?_ houter
          rw [← List.length_map Remainder.frame]
          exact hl.tail
        have hlength : (outer.map Remainder.frame).length = outer.length := List.length_map _
        rw [hlength] at hopened
        refine .next r' (inner ++ ⟨f', ts⟩ :: outer) (by rw [hstep, hr]; rfl)
          ⟨by rw [hr', List.map_append, List.map_cons], hopened.awaiting hrest'⟩ ?_
        have hhead : Remainder.Completes ⟨f, t :: ts⟩ ↔
            Completable inner ∧ Remainder.Completes ⟨f', ts⟩ := by
          simp only [Remainder.Completes, allHoldMessages, Bool.and_eq_true, hiff,
            hopened.completable_iff]
          exact and_left_comm
        rw [completable_append, completable_cons, completable_cons, hhead, and_assoc]

end OpenPGP
