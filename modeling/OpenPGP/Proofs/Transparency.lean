import OpenPGP.Proofs.Delivery
import OpenPGP.Proofs.Lockstep
/-!
# Transparent packets

Markers, padding and unknown packets of the non-critical range may stand anywhere: between key packets and
their data, between an announcement and the literal data, behind the data, or as all that a layer
holds. Two sources are equal up to transparent packets if what is left without them, layer by layer,
is the same; readers of two such sources answer alike.

Where one of two readers finds a transparent packet, it takes a step that the other does not take, so
their steps do not go in pairs. Readers that have passed over the transparent packets in front of them are
`Clear`, and the next packets of two clear readers correspond.

Results:
* `PacketSource.Matches.next`: what two sources give behind their transparent packets.
* `MessageReader.Matches.step`: one step of two clear readers.
* `MessageReader.Matches.settle`: going on.
* `session_of_matches`: every schedule of requests.
-/
namespace OpenPGP

/-! ## Sequences -/

/-- Whether a packet may stand anywhere: markers, padding, and unknown packets that need not be known. -/
def Packet.isTransparent : Packet → Bool
  | .marker | .padding _ => true
  | .unknown tag _ => isNonCritical tag
  | _ => false

/-- The transparent packets are those that stand for no symbol of the grammar. -/
theorem Packet.symbol?_eq_none_iff {p : Packet} : p.symbol? = none ↔ p.isTransparent = true := by
  cases p with
  | unknown tag body =>
    rw [symbol?, isTransparent]
    cases isNonCritical tag <;> simp
  | _ => simp [symbol?, isTransparent]

/-- A sequence without its transparent packets. -/
def Packet.meaningful (packets : List Packet) : List Packet := packets.filter fun p => !p.isTransparent

namespace PacketSource

/-- The packets of a source, and what is behind them: the end, or a failure. -/
def sequence : PacketSource → List Packet × Except PacketError Unit
  | reader r => (r.run.1, r.run.2.1)
  | packets ps => (ps, .ok ())
  | failing ps error => (ps, .error error)

variable {s rest : PacketSource} {p : Packet}

theorem sequence_of_next_some (h : s.next = .ok (some (p, rest))) :
    s.sequence = (p :: rest.sequence.1, rest.sequence.2) := by
  cases s with
  | reader r =>
    rw [next] at h
    split at h
    · next hr =>
      cases h
      rw [sequence, PacketReader.run_of_next_some hr]
      rfl
    · cases h
    · cases h
  | packets ps | failing ps error =>
    cases ps with
    | nil => cases h
    | cons p ps =>
      cases h
      rfl

theorem sequence_of_next_none (h : s.next = .ok none) : s.sequence = ([], .ok ()) := by
  cases s with
  | reader r =>
    rw [next] at h
    split at h
    · cases h
    · next hr => rw [sequence, PacketReader.run_of_next_none hr]
    · cases h
  | packets ps =>
    cases ps with
    | nil => rfl
    | cons p ps => cases h
  | failing ps error => cases ps <;> cases h

theorem sequence_of_next_error {e : PacketError} (h : s.next = .error e) : s.sequence = ([], .error e) := by
  cases s with
  | reader r =>
    rw [next] at h
    split at h
    · cases h
    · cases h
    · next hr =>
      cases h
      rw [sequence, PacketReader.run_of_next_error hr]
  | packets ps => cases ps <;> cases h
  | failing ps error =>
    cases ps with
    | nil =>
      cases h
      rfl
    | cons p ps => cases h

end PacketSource

/-! ## Equality up to transparent packets -/

/-- The key packets that wait for encrypted data behind a packet. -/
def Packet.keysBehind (keys : List KeyPacket) : Packet → List KeyPacket
  | .publicKeySessionKey p => keys ++ [.publicKey p]
  | .passphraseSessionKey p => keys ++ [.passphrase p]
  | .encryptedData _ => []
  | _ => keys

/-- Whether a packet holds packets that are read. -/
def Packet.isContainer : Packet → Bool
  | .compressedData _ | .encryptedData _ => true
  | _ => false

/-- The algorithms that encrypted data names: none in version 1. -/
def EncryptedData.named? : EncryptedData → Option (SymmetricAlgorithm × AeadAlgorithm)
  | .v1 _ => none
  | .v2 algorithm mode .. => some (algorithm, mode)

section

variable (o : ReadingContext) (C : Octets → Octets → Prop)

/-- Two layers that were opened with one credential, under a key of the same cipher, and whose contents
are related. -/
structure ResolvedKey.Matches (k k' : ResolvedKey) : Prop where
  algorithm : k'.algorithm = k.algorithm
  source : k'.source = k.source
  plaintext : C k.plaintext k'.plaintext

/-- A packet is the same as another, or both are containers of the same kind with the same algorithms that
open alike, by the key packets in front of them, and whose contents `C` relates. -/
inductive SamePacket (keys : List KeyPacket) : Packet → Packet → Prop
  | plain {p : Packet} (h : p.isContainer = false) : SamePacket keys p p
  | compressed {c c' : CompressedData} (ha : c'.algorithm = c.algorithm)
      (h : SameOutcome C (c.decompress o.restrictions.decompressedLength)
        (c'.decompress o.restrictions.decompressedLength)) :
      SamePacket keys (.compressedData c) (.compressedData c')
  | encrypted {d d' : EncryptedData} (hn : d'.named? = d.named?)
      (h : SameOutcome (ResolvedKey.Matches C) (d.resolveBy o.restrictions.policy o.credentials keys)
        (d'.resolveBy o.restrictions.policy o.credentials keys)) :
      SamePacket keys (.encryptedData d) (.encryptedData d')

/-- Two sequences of the same packets, behind some key packets. -/
inductive SamePackets : List KeyPacket → List Packet → List Packet → Prop
  | nil {keys : List KeyPacket} : SamePackets keys [] []
  | cons {keys : List KeyPacket} {p p' : Packet} {ps ps' : List Packet} (h : SamePacket o C keys p p')
      (hs : SamePackets (p.keysBehind keys) ps ps') : SamePackets keys (p :: ps) (p' :: ps')

/-- The sequences of two sources are the same without their transparent packets. -/
structure PacketSource.Matches (keys : List KeyPacket) (s s' : PacketSource) : Prop where
  packets : SamePackets o C keys (Packet.meaningful s.sequence.1) (Packet.meaningful s'.sequence.1)
  behind : s'.sequence.2 = s.sequence.2

end

/-- The contents of two containers are the same without transparent packets in any of the outermost
`depth` layers of them. -/
def SameContent (o : ReadingContext) : (depth : Nat) → Octets → Octets → Prop
  | 0, _, _ => True
  | depth + 1, content, content' =>
    PacketSource.Matches o (SameContent o depth) [] (.ofContent o content) (.ofContent o content')

section

variable {o : ReadingContext} {C : Octets → Octets → Prop} {keys : List KeyPacket}

theorem SamePacket.refl (hC : ∀ content, C content content) (keys : List KeyPacket) (p : Packet) :
    SamePacket o C keys p p := by
  cases hp : p.isContainer with
  | false => exact .plain hp
  | true =>
    cases p with
    | compressedData c =>
      refine .compressed rfl ?_
      cases c.decompress o.restrictions.decompressedLength with
      | error e => exact .error e
      | ok content => exact .ok (hC content)
    | encryptedData d =>
      refine .encrypted rfl ?_
      cases d.resolveBy o.restrictions.policy o.credentials keys with
      | error e => exact .error e
      | ok k => exact .ok ⟨rfl, rfl, hC k.plaintext⟩
    | _ => cases hp

theorem SamePackets.refl (hC : ∀ content, C content content) (keys : List KeyPacket) (ps : List Packet) :
    SamePackets o C keys ps ps := by
  induction ps generalizing keys with
  | nil => exact .nil
  | cons p ps ih => exact .cons (.refl hC keys p) (ih _)

theorem SameContent.refl (o : ReadingContext) (depth : Nat) (content : Octets) :
    SameContent o depth content content := by
  induction depth generalizing content with
  | zero => exact True.intro
  | succ depth ih => exact ⟨.refl ih [] _, rfl⟩

theorem SamePacket.symbol?_eq {p p' : Packet} (h : SamePacket o C keys p p') : p'.symbol? = p.symbol? := by
  cases h <;> rfl

/-! ## Sources -/

namespace PacketSource

/-- A source of which the next packet, if there is one, is not transparent. -/
def Clear (s : PacketSource) : Prop :=
  ∀ p rest, s.next = .ok (some (p, rest)) → p.isTransparent = false

variable {s s' rest : PacketSource} {p : Packet}

theorem meaningful_of_transparent (hn : s.next = .ok (some (p, rest))) (hp : p.isTransparent = true) :
    Packet.meaningful s.sequence.1 = Packet.meaningful rest.sequence.1 ∧
      s.sequence.2 = rest.sequence.2 := by
  rw [sequence_of_next_some hn, Packet.meaningful, List.filter_cons_of_neg (by simp [hp])]
  exact ⟨rfl, rfl⟩

theorem meaningful_of_next (hn : s.next = .ok (some (p, rest))) (hs : s.Clear) :
    Packet.meaningful s.sequence.1 = p :: Packet.meaningful rest.sequence.1 := by
  rw [sequence_of_next_some hn, Packet.meaningful, List.filter_cons_of_pos (by simp [hs p rest hn])]
  rfl

namespace Matches

theorem of_meaningful {depth : Nat}
    (hp : Packet.meaningful s'.sequence.1 = Packet.meaningful s.sequence.1)
    (hb : s'.sequence.2 = s.sequence.2) : s.Matches o (SameContent o depth) keys s' :=
  ⟨hp ▸ .refl (.refl o depth) keys _, hb⟩

theorem pass_left (h : s.Matches o C keys s') (hn : s.next = .ok (some (p, rest)))
    (hp : p.isTransparent = true) : rest.Matches o C keys s' := by
  obtain ⟨hpackets, hbehind⟩ := meaningful_of_transparent hn hp
  exact ⟨hpackets ▸ h.packets, h.behind.trans hbehind⟩

theorem pass_right (h : s.Matches o C keys s') (hn : s'.next = .ok (some (p, rest)))
    (hp : p.isTransparent = true) : s.Matches o C keys rest := by
  obtain ⟨hpackets, hbehind⟩ := meaningful_of_transparent hn hp
  exact ⟨hpackets ▸ h.packets, hbehind.symm.trans h.behind⟩

/-- **The next packets** behind the transparent ones correspond, and so do the sources behind them. -/
theorem next (h : s.Matches o C keys s') (hs : s.Clear) (hs' : s'.Clear) :
    SameOutcome (Option.Rel fun x x' => SamePacket o C keys x.1 x'.1 ∧
      x.2.Matches o C (x.1.keysBehind keys) x'.2) s.next s'.next := by
  obtain ⟨hpackets, hbehind⟩ := h
  cases hn : s.next with
  | error e =>
    rw [sequence_of_next_error hn] at hpackets hbehind
    cases hn' : s'.next with
    | error e' =>
      rw [sequence_of_next_error hn'] at hbehind
      cases hbehind
      exact .error _
    | ok next' =>
      cases next' with
      | none =>
        rw [sequence_of_next_none hn'] at hbehind
        cases hbehind
      | some next' =>
        rw [meaningful_of_next hn' hs'] at hpackets
        cases hpackets
  | ok next =>
    cases next with
    | none =>
      rw [sequence_of_next_none hn] at hpackets hbehind
      cases hn' : s'.next with
      | error e' =>
        rw [sequence_of_next_error hn'] at hbehind
        cases hbehind
      | ok next' =>
        cases next' with
        | none => exact .ok .none
        | some next' =>
          rw [meaningful_of_next hn' hs'] at hpackets
          cases hpackets
    | some next =>
      rw [meaningful_of_next hn hs] at hpackets
      cases hn' : s'.next with
      | error e' =>
        rw [sequence_of_next_error hn'] at hpackets
        cases hpackets
      | ok next' =>
        cases next' with
        | none =>
          rw [sequence_of_next_none hn'] at hpackets
          cases hpackets
        | some next' =>
          rw [meaningful_of_next hn' hs'] at hpackets
          cases hpackets with
          | cons hp hps =>
            rw [sequence_of_next_some hn, sequence_of_next_some hn'] at hbehind
            exact .ok (.some ⟨hp, hps, hbehind⟩)

end Matches

end PacketSource

/-! ## Open layers -/

/-- Two layers with sources that are equal up to transparent packets, behind some key packets. -/
structure Frame.Matches (o : ReadingContext) (C : Octets → Octets → Prop) (keys : List KeyPacket)
    (f f' : Frame) : Prop where
  kind : f'.kind = f.kind
  automaton : f'.automaton = f.automaton
  keyPackets : f'.keyPackets = f.keyPackets
  source : f.source.Matches o C keys f'.source

/-- The contents of two containers are the same without transparent packets, in as many layers as may be
opened for them inside a layer that has some others around it. -/
abbrev SameInside (o : ReadingContext) (outer : List Frame) : Octets → Octets → Prop :=
  SameContent o (o.restrictions.nestingDepth - outer.length)

/-- Open layers, innermost first. -/
inductive SameFrames (o : ReadingContext) : List Frame → List Frame → Prop
  | nil : SameFrames o [] []
  | cons {f f' : Frame} {outer outer' : List Frame}
      (h : f.Matches o (SameInside o outer) f.keyPackets f')
      (hs : SameFrames o outer outer') : SameFrames o (f :: outer) (f' :: outer')

theorem SameFrames.length_eq {frames frames' : List Frame} (h : SameFrames o frames frames') :
    frames'.length = frames.length := by
  induction h with
  | nil => rfl
  | cons h hs ih => rw [List.length_cons, List.length_cons, ih]

theorem SameFrames.pass_left {f : Frame} {outer frames' : List Frame} {p : Packet} {source : PacketSource}
    (h : SameFrames o (f :: outer) frames') (hn : f.source.next = .ok (some (p, source)))
    (hp : p.isTransparent = true) : SameFrames o ({ f with source } :: outer) frames' := by
  obtain _ | ⟨hf, ho⟩ := h
  exact .cons ⟨hf.kind, hf.automaton, hf.keyPackets, hf.source.pass_left hn hp⟩ ho

theorem SameFrames.pass_right {frames outer' : List Frame} {f' : Frame} {p : Packet} {source : PacketSource}
    (h : SameFrames o frames (f' :: outer')) (hn : f'.source.next = .ok (some (p, source)))
    (hp : p.isTransparent = true) : SameFrames o frames ({ f' with source } :: outer') := by
  obtain _ | ⟨hf, ho⟩ := h
  exact .cons ⟨hf.kind, hf.automaton, hf.keyPackets, hf.source.pass_right hn hp⟩ ho

end

/-! ## Readers -/

namespace MessageReader

variable {o : ReadingContext} {r r' next : MessageReader o}

/-- Two readers that differ at most in transparent packets that are still to be read. -/
structure Matches (r r' : MessageReader o) : Prop where
  frames : SameFrames o r.frames r'.frames
  correlation : r'.correlation = r.correlation
  metadata : r'.metadata = r.metadata
  literal : r'.literal = r.literal
  poisoned : r'.poisoned = r.poisoned
  finished : r'.finished = r.finished

/-- A reader of which the next packet, if there is one, is not transparent. -/
def Clear (r : MessageReader o) : Prop := ∀ f outer, r.frames = f :: outer → f.source.Clear

namespace Matches

variable {f f' : Frame} {outer outer' : List Frame}

theorem withFrames (h : Matches r r') {frames frames' : List Frame} (hf : SameFrames o frames frames')
    (hb : frames.length ≤ o.maxLayers) (hb' : frames'.length ≤ o.maxLayers) :
    Matches (r.withFrames frames hb) (r'.withFrames frames' hb') :=
  ⟨hf, h.correlation, h.metadata, h.literal, h.poisoned, h.finished⟩

theorem enter (h : Matches r r') (kind : LayerKind) (layer : Layer) {content content' : Octets}
    (hc : SameInside o outer content content')
    (hf : SameFrames o (f :: outer) (f' :: outer')) (hd : outer.length + 1 ≤ o.restrictions.nestingDepth)
    (hd' : outer'.length + 1 ≤ o.restrictions.nestingDepth) :
    Matches (r.enter kind layer content f outer hd) (r'.enter kind layer content' f' outer' hd') := by
  refine ⟨.cons ⟨rfl, rfl, rfl, ?_⟩ hf, h.correlation, ?_, h.literal, h.poisoned, h.finished⟩
  · have hdepth : o.restrictions.nestingDepth - outer.length =
        o.restrictions.nestingDepth - (f :: outer).length + 1 := by
      rw [List.length_cons]
      omega
    rw [SameInside, hdepth] at hc
    exact hc
  · simp only [MessageReader.enter, h.metadata]

theorem enterCompressed (h : Matches r r') {c c' : CompressedData} (ha : c'.algorithm = c.algorithm)
    (hc : SameOutcome (SameInside o outer) (c.decompress o.restrictions.decompressedLength)
      (c'.decompress o.restrictions.decompressedLength))
    (hf : SameFrames o (f :: outer) (f' :: outer')) :
    SameOutcome Matches (r.enterCompressed c f outer) (r'.enterCompressed c' f' outer') := by
  have hlength : outer'.length = outer.length := Nat.succ.inj hf.length_eq
  unfold MessageReader.enterCompressed
  by_cases hd : outer.length + 1 ≤ o.restrictions.nestingDepth
  · rw [dif_pos hd, dif_pos (hlength ▸ hd), ha]
    split
    · exact .error _
    generalize c.decompress o.restrictions.decompressedLength = x at hc
    generalize c'.decompress o.restrictions.decompressedLength = x' at hc
    cases hc with
    | error e => exact .error e
    | ok hc => exact .ok (h.enter _ _ hc hf hd _)
  · rw [dif_neg hd, dif_neg (hlength ▸ hd)]
    exact .error _

theorem integrityOf_eq {d d' : EncryptedData} (hn : d'.named? = d.named?) (policy : Policy) :
    integrityOf policy d' = integrityOf policy d := by
  cases d <;> cases d' <;> cases hn <;> rfl

theorem enterEncrypted (h : Matches r r') {d d' : EncryptedData} (hn : d'.named? = d.named?)
    (hk : f'.keyPackets = f.keyPackets)
    (hc : SameOutcome (ResolvedKey.Matches (SameInside o outer))
      (d.resolveBy o.restrictions.policy o.credentials f.keyPackets)
      (d'.resolveBy o.restrictions.policy o.credentials f.keyPackets))
    (hf : SameFrames o ({ f with keyPackets := [] } :: outer) ({ f' with keyPackets := [] } :: outer')) :
    SameOutcome Matches (r.enterEncrypted d f outer) (r'.enterEncrypted d' f' outer') := by
  have hlength : outer'.length = outer.length := Nat.succ.inj hf.length_eq
  unfold MessageReader.enterEncrypted
  by_cases hd : outer.length + 1 ≤ o.restrictions.nestingDepth
  · rw [dif_pos hd, dif_pos (hlength ▸ hd), integrityOf_eq hn, hk]
    cases integrityOf o.restrictions.policy d with
    | error e => exact .error e
    | ok integrity =>
      generalize d.resolveBy o.restrictions.policy o.credentials f.keyPackets = x at hc
      generalize d'.resolveBy o.restrictions.policy o.credentials f.keyPackets = x' at hc
      cases hc with
      | error e => exact .error e
      | ok hc =>
        dsimp only
        rw [hc.algorithm, hc.source]
        exact .ok (h.enter _ _ hc.plaintext hf hd _)
  · rw [dif_neg hd, dif_neg (hlength ▸ hd)]
    exact .error _

theorem settleSignature (h : Matches r r') (signature : Signature) :
    SameOutcome Matches (r.settleSignature signature) (r'.settleSignature signature) := by
  unfold MessageReader.settleSignature
  rw [h.correlation]
  split
  · exact .ok ⟨h.frames, rfl, h.metadata, h.literal, h.poisoned, h.finished⟩
  · split
    · exact .error _
    · refine .ok ⟨h.frames, rfl, ?_, h.literal, h.poisoned, h.finished⟩
      dsimp only
      rw [h.metadata]

theorem act (h : Matches r r') (beforeData : Bool) {p p' : Packet}
    (hp : SamePacket o (SameInside o outer) f.keyPackets p p')
    (hf : f.Matches o (SameInside o outer) (p.keysBehind f.keyPackets) f') (ho : SameFrames o outer outer')
    (hb : outer.length + 1 ≤ o.maxLayers) (hb' : outer'.length + 1 ≤ o.maxLayers) :
    SameOutcome Matches (r.act beforeData p f outer hb) (r'.act beforeData p' f' outer' hb') := by
  have hkey (k : KeyPacket)
      (hs : f.source.Matches o (SameInside o outer) (f.keyPackets ++ [k]) f'.source) :
      Matches (r.withFrames (f.addKeyPacket k :: outer) hb)
        (r'.withFrames (f'.addKeyPacket k :: outer') hb') := by
    have hkeys : (f'.addKeyPacket k).keyPackets = (f.addKeyPacket k).keyPackets := by
      simp only [Frame.addKeyPacket, hf.keyPackets]
    have hadded : (f.addKeyPacket k).Matches o (SameInside o outer) (f.addKeyPacket k).keyPackets
        (f'.addKeyPacket k) := ⟨hf.kind, hf.automaton, hkeys, hs⟩
    exact h.withFrames (.cons hadded ho) _ _
  have hframes (hk : p.keysBehind f.keyPackets = f.keyPackets) :
      SameFrames o (f :: outer) (f' :: outer') := .cons (hk ▸ hf) ho
  cases hp with
  | compressed ha hc => exact h.enterCompressed ha hc (hframes rfl)
  | encrypted hn hc =>
    exact h.enterEncrypted hn hf.keyPackets hc (.cons ⟨hf.kind, hf.automaton, rfl, hf.source⟩ ho)
  | plain hplain =>
    cases p with
    | compressedData c => cases hplain
    | encryptedData d => cases hplain
    | publicKeySessionKey k => exact .ok (hkey (.publicKey k) hf.source)
    | passphraseSessionKey k => exact .ok (hkey (.passphrase k) hf.source)
    | unprotectedData body => exact .error _
    | onePassSignature a =>
      refine .ok ⟨hframes rfl, ?_, h.metadata, h.literal, h.poisoned, h.finished⟩
      dsimp only
      rw [h.correlation, h.metadata]
    | signature s =>
      have hread := h.withFrames (hframes rfl) hb hb'
      unfold MessageReader.act
      cases beforeData with
      | false => exact hread.settleSignature s
      | true =>
        refine .ok ⟨hread.frames, ?_, h.metadata, h.literal, h.poisoned, h.finished⟩
        dsimp only
        rw [h.correlation, h.metadata, ho.length_eq]
    | literalData l =>
      refine .ok ⟨hframes rfl, h.correlation, ?_, rfl, h.poisoned, h.finished⟩
      dsimp only
      rw [h.metadata]
    | marker => exact .ok (h.withFrames (hframes rfl) _ _)
    | padding length => exact .ok (h.withFrames (hframes rfl) _ _)
    | unknown tag body => exact .ok (h.withFrames (hframes rfl) _ _)

theorem take (h : Matches r r') {p p' : Packet} (ht : p.isTransparent = false)
    (hp : SamePacket o (SameInside o outer) f.keyPackets p p')
    (hf : f.Matches o (SameInside o outer) (p.keysBehind f.keyPackets) f') (ho : SameFrames o outer outer')
    (hb : outer.length + 1 ≤ o.maxLayers) (hb' : outer'.length + 1 ≤ o.maxLayers) :
    SameOutcome Matches (r.take p f outer hb) (r'.take p' f' outer' hb') := by
  have hbefore : f'.isBeforeData = f.isBeforeData := by rw [Frame.isBeforeData, hf.automaton]; rfl
  unfold MessageReader.take
  rw [hp.symbol?_eq, hf.automaton, hbefore]
  split
  · next hnone =>
    rw [Packet.symbol?_eq_none_iff.mp hnone] at ht
    cases ht
  · split
    · exact .error _
    · next automaton _ =>
      refine h.act (f := { f with automaton }) _ hp ?_ ho hb hb'
      exact ⟨hf.kind, rfl, hf.keyPackets, hf.source⟩

theorem leave (h : Matches r r') {C : Octets → Octets → Prop} {keys : List KeyPacket}
    (hf : f.Matches o C keys f') (ho : SameFrames o outer outer') (hb : outer.length ≤ o.maxLayers)
    (hb' : outer'.length ≤ o.maxLayers) :
    SameOutcome Matches (r.leave f outer hb) (r'.leave f' outer' hb') := by
  unfold MessageReader.leave
  rw [hf.automaton]
  split
  · exact .error _
  split
  · exact .error _
  dsimp only
  rw [h.correlation, h.metadata, ho.length_eq, hf.kind]
  split
  · exact .error _
  · exact .ok ⟨ho, rfl, rfl, h.literal, h.poisoned, h.finished⟩

/-- **One step** of two clear readers. -/
theorem step (h : Matches r r') (hr : r.Clear) (hr' : r'.Clear) :
    SameOutcome (Option.Rel Matches) r.step r'.step := by
  have hframes := h.frames
  cases hfs : r.frames with
  | nil =>
    cases hfs' : r'.frames with
    | nil =>
      rw [step_eq_none_iff.mpr hfs, step_eq_none_iff.mpr hfs']
      exact .ok .none
    | cons f' outer' =>
      rw [hfs, hfs'] at hframes
      cases hframes
  | cons f outer =>
    cases hfs' : r'.frames with
    | nil =>
      rw [hfs, hfs'] at hframes
      cases hframes
    | cons f' outer' =>
      rw [hfs, hfs'] at hframes
      obtain _ | ⟨hf, ho⟩ := hframes
      have hnext := hf.source.next (hr f outer hfs) (hr' f' outer' hfs')
      cases hn : f.source.next with
      | error e =>
        rw [hn] at hnext
        rw [step_of_next_error hfs hn, step_of_next_error hfs' hnext.of_error]
        exact .error _
      | ok next =>
        rw [hn] at hnext
        obtain ⟨_, hn', hrel⟩ := hnext.of_ok
        cases hrel with
        | none =>
          obtain ⟨hb, hstep⟩ := step_of_next_none hfs hn
          obtain ⟨hb', hstep'⟩ := step_of_next_none hfs' hn'
          rw [hstep, hstep']
          exact (h.leave hf ho hb hb').map fun _ _ => .some
        | @some x _ hrel =>
          obtain ⟨hb, hstep⟩ := step_of_next_some hfs hn
          obtain ⟨hb', hstep'⟩ := step_of_next_some hfs' hn'
          rw [hstep, hstep']
          refine (h.take (f := { f with source := x.2 }) (hr f outer hfs _ _ hn) hrel.1 ?_ ho hb hb').map
            fun _ _ => .some
          exact ⟨hf.kind, hf.automaton, hf.keyPackets, hrel.2⟩

end Matches

/-! ## Passing over -/

/-- A step that takes a transparent packet passes over it. -/
theorem step_of_transparent {f : Frame} {outer : List Frame} {p : Packet} {source : PacketSource}
    (hr : r.frames = f :: outer) (hn : f.source.next = .ok (some (p, source)))
    (hp : p.isTransparent = true) :
    ∃ hb, r.step = .ok (some (r.withFrames ({ f with source } :: outer) hb)) := by
  obtain ⟨hb, hstep⟩ := step_of_next_some hr hn
  refine ⟨hb, ?_⟩
  rw [hstep, MessageReader.take, Packet.symbol?_eq_none_iff.mpr hp]
  rfl

theorem clear_or_transparent (r : MessageReader o) : r.Clear ∨ ∃ f outer p source,
    r.frames = f :: outer ∧ f.source.next = .ok (some (p, source)) ∧ p.isTransparent = true := by
  refine Classical.or_iff_not_imp_left.mpr fun h => ?_
  simp only [Clear, PacketSource.Clear, not_forall, Bool.not_eq_false] at h
  obtain ⟨f, outer, hr, p, source, hn, hp⟩ := h
  exact ⟨f, outer, p, source, hr, hn, hp⟩

namespace Matches

/-- The second reader may go on to where it is clear. -/
theorem exists_clear (h : Matches r r') : ∃ clear, Matches r clear ∧ clear.Clear ∧
    (r'.literal = [] → r'.settle = clear.settle) := by
  -- induction on the work of the second reader, which passing over a packet lowers
  induction hw : r'.work using (NestedWork.wellFounded_lt o.maxLayers).induction generalizing r' with
  | h work ih =>
    subst hw
    rcases r'.clear_or_transparent with hclear | ⟨f, outer, p, source, hr, hn, hp⟩
    · exact ⟨r', h, hclear, fun _ => rfl⟩
    · obtain ⟨hb, hstep⟩ := step_of_transparent hr hn hp
      have hframes : SameFrames o r.frames ({ f with source } :: outer) :=
        (hr ▸ h.frames).pass_right hn hp
      have hpassed : Matches r (r'.withFrames ({ f with source } :: outer) hb) :=
        ⟨hframes, h.correlation, h.metadata, h.literal, h.poisoned, h.finished⟩
      obtain ⟨clear, hmatches, hclear, hsettle⟩ := ih _ (work_step_lt hstep) hpassed rfl
      exact ⟨clear, hmatches, hclear, fun hl => (settle_of_step hl hstep).trans (hsettle hl)⟩

/-- A step of the first reader is one that the second does not take, or one that it takes where it is
clear. -/
theorem step_or_pass (h : Matches r r') (hl : r'.literal = []) :
    (∃ next, r.step = .ok (some next) ∧ Matches next r') ∨
      ∃ clear, r'.settle = clear.settle ∧ clear.literal = [] ∧ Matches r clear ∧
        SameOutcome (Option.Rel Matches) r.step clear.step := by
  rcases r.clear_or_transparent with hclear | ⟨f, outer, p, source, hr, hn, hp⟩
  · obtain ⟨clear, hmatches, hclear', hsettle⟩ := h.exists_clear
    have hliteral : clear.literal = [] := hmatches.literal.trans (h.literal.symm.trans hl)
    exact .inr ⟨clear, hsettle hl, hliteral, hmatches, hmatches.step hclear hclear'⟩
  · obtain ⟨hb, hstep⟩ := step_of_transparent hr hn hp
    refine .inl ⟨_, hstep, ?_, h.correlation, h.metadata, h.literal, h.poisoned, h.finished⟩
    exact (hr ▸ h.frames).pass_left hn hp

theorem poison (h : Matches r r') : Matches r.poison r'.poison :=
  ⟨.nil, h.correlation, h.metadata, rfl, rfl, h.finished⟩

/-- **Going on.** -/
theorem settle (h : Matches r r') : ∃ result next next',
    r.settle = (result, next) ∧ r'.settle = (result, next') ∧ Matches next next' := by
  fun_induction MessageReader.settle r generalizing r' with
  | case1 r hl =>
    rw [MessageReader.settle, if_pos (h.literal ▸ hl)]
    exact ⟨_, _, _, rfl, rfl, h⟩
  | case2 r hl error hs =>
    rcases h.step_or_pass (h.literal.trans (Decidable.not_not.mp hl)) with
      ⟨next, hnext, -⟩ | ⟨clear, hsettle, hliteral, hmatches, hstep⟩
    · rw [hs] at hnext
      cases hnext
    · rw [hs] at hstep
      rw [hsettle, settle_of_error hliteral hstep.of_error]
      exact ⟨_, _, _, rfl, rfl, hmatches.poison⟩
  | case3 r hl hs =>
    rcases h.step_or_pass (h.literal.trans (Decidable.not_not.mp hl)) with
      ⟨next, hnext, -⟩ | ⟨clear, hsettle, hliteral, hmatches, hstep⟩
    · rw [hs] at hnext
      cases hnext
    · rw [hs] at hstep
      obtain ⟨_, hs', ⟨⟩⟩ := hstep.of_ok
      rw [hsettle, settle_of_frames hliteral (step_eq_none_iff.mp hs')]
      exact ⟨_, _, _, rfl, rfl, hmatches⟩
  | case4 r hl next hs ih =>
    rcases h.step_or_pass (h.literal.trans (Decidable.not_not.mp hl)) with
      ⟨next, hnext, hpassed⟩ | ⟨clear, hsettle, hliteral, -, hstep⟩
    · cases hs.symm.trans hnext
      exact ih hpassed
    · rw [hs] at hstep
      obtain ⟨_, hs', ⟨hnext⟩⟩ := hstep.of_ok
      rw [hsettle, settle_of_step hliteral hs']
      exact ih hnext

/-- Two such readers cannot be told apart. -/
theorem lockstep : Lockstep (fun _ => False) id (@Matches o) where
  settle h := .inl h.settle
  release h n := by
    refine ⟨h.frames, ?_, h.metadata, ?_, h.poisoned, h.finished⟩
    · simp only [release, h.correlation, h.literal]
    · simp only [release, h.literal]
  give h m m' hm := ⟨h.frames, h.correlation, rfl, h.literal, h.poisoned, by simpa using hm⟩
  ended h := by
    have hlength := h.frames.length_eq
    rw [Bool.eq_iff_iff, List.isEmpty_iff_length_eq_zero, List.isEmpty_iff_length_eq_zero, hlength]
  metadata h := by rw [h.metadata]
  literal := literal
  poisoned := poisoned
  finished h := by rw [h.finished]

end Matches

end MessageReader

open MessageReader in
/-- **Transparent packets make no difference.** Where two sources hold the same packets without the
transparent ones, in the outermost layer and in every layer that may be opened inside, reading them
whole gives the same data and the same metadata or the same failure, and so does every request, whatever
is asked in whatever order. -/
theorem session_of_matches {o : ReadingContext} {source source' : PacketSource}
    (h : source.Matches o (SameContent o o.restrictions.nestingDepth) [] source') :
    readSource o source' = readSource o source ∧
      ∀ requests, session o source' requests = session o source requests := by
  have hstart : Matches (start o source) (start o source') :=
    ⟨.cons ⟨rfl, rfl, rfl, h⟩ .nil, rfl, rfl, rfl, rfl, rfl⟩
  refine ⟨?_, fun requests => ?_⟩
  · simpa using Matches.lockstep.readSource hstart fun ⟨_, _, h⟩ => h
  · simpa using Matches.lockstep.session hstart requests (not_sessionFails (fun _ h => h) _)

open MessageReader in
/-- A marker and padding around compressed data, padding and an unknown packet around the literal data in
it, and the same without them but with another unknown packet at the end. -/
theorem session_of_matches_nested : ∃ source source' : PacketSource,
    source = .packets [.marker, .compressedData ⟨.uncompressed,
      [0xD5, 1, 0, 0xCB, 8, 0x62, 0, 0, 0, 0, 0, 0x68, 0x69, 0xFC, 0]⟩, .padding 4] ∧
    source' = .packets [.compressedData ⟨.uncompressed, [0xCB, 8, 0x62, 0, 0, 0, 0, 0, 0x68, 0x69]⟩,
      .unknown 40 [1]] ∧
    source.Matches .keyless
      (SameContent .keyless ReadingContext.keyless.restrictions.nestingDepth) [] source' ∧
    readSource .keyless source' = readSource .keyless source ∧
    ∀ requests, session .keyless source' requests = session .keyless source requests := by
  have hcontent : SameContent .keyless ReadingContext.keyless.restrictions.nestingDepth
      [0xD5, 1, 0, 0xCB, 8, 0x62, 0, 0, 0, 0, 0, 0x68, 0x69, 0xFC, 0]
      [0xCB, 8, 0x62, 0, 0, 0, 0, 0, 0x68, 0x69] := by
    have hpadding : (PacketSource.ofContent .keyless
        [0xD5, 1, 0, 0xCB, 8, 0x62, 0, 0, 0, 0, 0, 0x68, 0x69, 0xFC, 0]).next =
      .ok (some (.padding 1, .ofContent .keyless
        [0xCB, 8, 0x62, 0, 0, 0, 0, 0, 0x68, 0x69, 0xFC, 0])) := rfl
    have hliteral : (PacketSource.ofContent .keyless
        [0xCB, 8, 0x62, 0, 0, 0, 0, 0, 0x68, 0x69, 0xFC, 0]).next =
      .ok (some (.literalData ⟨.binary, [], 0, [0x68, 0x69]⟩, .ofContent .keyless [0xFC, 0])) := rfl
    have hunknown : (PacketSource.ofContent .keyless [0xFC, 0]).next =
      .ok (some (.unknown 60 [], .reader ⟨⟨[]⟩, _⟩)) := rfl
    have hliteral' : (PacketSource.ofContent .keyless [0xCB, 8, 0x62, 0, 0, 0, 0, 0, 0x68, 0x69]).next =
      .ok (some (.literalData ⟨.binary, [], 0, [0x68, 0x69]⟩, .reader ⟨⟨[]⟩, _⟩)) := rfl
    have hend (limit : UInt64) : (PacketSource.reader ⟨⟨[]⟩, limit⟩).next = .ok none := rfl
    have hdepth : ReadingContext.keyless.restrictions.nestingDepth = 15 + 1 := rfl
    rw [hdepth]
    apply PacketSource.Matches.of_meaningful <;>
      rw [PacketSource.sequence_of_next_some hpadding, PacketSource.sequence_of_next_some hliteral,
        PacketSource.sequence_of_next_some hunknown, PacketSource.sequence_of_next_some hliteral',
        PacketSource.sequence_of_next_none (hend _)]
    rfl
  have h : PacketSource.Matches .keyless
      (SameContent .keyless ReadingContext.keyless.restrictions.nestingDepth) []
      (.packets [.marker, .compressedData ⟨.uncompressed,
        [0xD5, 1, 0, 0xCB, 8, 0x62, 0, 0, 0, 0, 0, 0x68, 0x69, 0xFC, 0]⟩, .padding 4])
      (.packets [.compressedData ⟨.uncompressed, [0xCB, 8, 0x62, 0, 0, 0, 0, 0, 0x68, 0x69]⟩,
        .unknown 40 [1]]) :=
    ⟨.cons (.compressed rfl (.ok hcontent)) .nil, rfl⟩
  exact ⟨_, _, rfl, rfl, h, session_of_matches h⟩

end OpenPGP
