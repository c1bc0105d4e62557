import OpenPGP.Proofs.Runs
import OpenPGP.Proofs.Unread
/-!
# The reader agrees with the grammar

Whatever tokens are composed, the message is read to its end if they are a
message in every layer, and refused as malformed if they are not. No other
failure comes of it, wherever in the tree a packet stands that has no place
there.

Results:
* `Awaits.settle_verdict`, `Awaits.readAll_verdict`: what going on and reading everything come to.
* `readMessage_compose`: a composed message is read exactly if the recursive grammar has it.
-/
namespace OpenPGP

open Token

namespace MessageReader

variable {o : ReadingContext} {r : MessageReader o} {stack : List Remainder}

/-- Going on keeps to what the stack is worth, by induction on the steps. -/
theorem Awaits.settle_verdict (ho : o.OpensLayers) (h : r.Awaits stack) :
    (∃ r' stack', r.settle = (.ok (), r') ∧ r'.Awaits stack' ∧
        (Completable stack ↔ Completable stack')) ∨
      ¬ Completable stack ∧ ∃ rejection r', r.settle = (.error (.malformed rejection), r') := by
  fun_induction settle r generalizing stack with
  | case1 r hl => exact .inl ⟨r, stack, rfl, h, Iff.rfl⟩
  | case2 r hl error hs =>
    cases h.verdict ho with
    | ended _ he => rw [hs] at he; cases he
    | malformed rejection he hbad =>
      rw [hs] at he
      cases he
      exact .inr ⟨hbad, rejection, _, rfl⟩
    | next r' stack' he => rw [hs] at he; cases he
  | case3 r hl hs => exact .inl ⟨r, stack, rfl, h, Iff.rfl⟩
  | case4 r hl next hs ih =>
    cases h.verdict ho with
    | ended _ he => rw [hs] at he; cases he
    | malformed rejection he => rw [hs] at he; cases he
    | next r' stack' he ha hiff =>
      rw [hs] at he
      cases he
      rw [hiff]
      exact ih ha

/-- Where all layers have ended, there is nothing left that could be malformed. -/
theorem Awaits.completable_of_frames (h : r.Awaits stack) (hs : r.frames = []) :
    Completable stack := by
  have hstack : stack = [] := List.map_eq_nil_iff.mp (h.frames ▸ hs)
  rw [hstack]
  exact List.forall_mem_nil _

theorem Awaits.release (h : r.Awaits stack) (n : Nat) : (r.release n).Awaits stack :=
  ⟨h.frames, h.awaiting⟩

/-- Reading everything ends behind all layers, or finds the stack malformed. -/
theorem Awaits.readAll_verdict (ho : o.OpensLayers) (h : r.Awaits stack) (hp : r.poisoned = false) :
    (Completable stack ∧ ∃ octets last, r.readAll = (octets, .ok (), last) ∧ r.SameStatus last ∧
        last.frames = [] ∧ last.literal = []) ∨
      ¬ Completable stack ∧
        ∃ octets rejection last, r.readAll = (octets, .error (.malformed rejection), last) := by
  fun_induction readAll r generalizing stack with
  | case1 r hpoisoned => rw [hp] at hpoisoned; cases hpoisoned
  | case2 r hpoisoned error r' hs =>
    rcases h.settle_verdict ho with ⟨r₁, stack', he, -⟩ | ⟨hbad, rejection, r₁, he⟩
    · rw [hs] at he; cases he
    · rw [hs] at he
      cases he
      exact .inr ⟨hbad, [], rejection, _, rfl⟩
  | case3 r hpoisoned r' hs hl =>
    rcases h.settle_verdict ho with ⟨r₁, stack', he, ha, hiff⟩ | ⟨hbad, rejection, r₁, he⟩
    · rw [hs] at he
      cases he
      -- nothing waits to be given out, so every layer has ended
      obtain ⟨hstatus, hstop⟩ := settle_eq_ok hs
      have hframes : r'.frames = [] := hstop.resolve_left (not_not.mpr hl)
      exact .inl ⟨hiff.mpr (ha.completable_of_frames hframes), [], r', rfl, hstatus, hframes, hl⟩
    · rw [hs] at he; cases he
  | case4 r hpoisoned r' hs hl rest result last hrest ih =>
    rcases h.settle_verdict ho with ⟨r₁, stack', he, ha, hiff⟩ | ⟨hbad, rejection, r₁, he⟩
    · rw [hs] at he
      cases he
      obtain ⟨⟨hp', hf'⟩, -⟩ := settle_eq_ok hs
      rw [hiff]
      rcases ih (ha.release _) (hp'.trans hp) with
        ⟨hgood, octets, last', he, ⟨hp₁, hf₁⟩, hframes, hliteral⟩ |
          ⟨hbad, octets, rejection, last', he⟩
      · rw [hrest] at he
        cases he
        exact .inl ⟨hgood, _, last, rfl, ⟨hp₁.trans hp', hf₁.trans hf'⟩, hframes, hliteral⟩
      · rw [hrest] at he
        cases he
        exact .inr ⟨hbad, _, rejection, last, rfl⟩
    · rw [hs] at he; cases he

theorem awaits_start {tokens : List Token} {packets : List Packet} {message : Octets}
    (hl : KeepsLimits o.restrictions 0 tokens) (hp : RendersAll tokens packets)
    (he : Packet.encodeAll packets = .ok message) :
    (start o (.ofContent o message)).Awaits [⟨.ofSource .message (.ofContent o message), tokens⟩] where
  frames := rfl
  awaiting := .cons (PacketSource.Unread.of_rendersAll hp he) hl .nil

end MessageReader

/-- What reading the wire form of packets for some tokens comes to. -/
theorem readMessage_of_rendersAll {o : ReadingContext} (ho : o.OpensLayers) {tokens : List Token}
    (hl : KeepsLimits o.restrictions 0 tokens) {packets : List Packet} {message : Octets}
    (hp : RendersAll tokens packets) (he : Packet.encodeAll packets = .ok message) :
    (isMessage tokens = true ∧ ∃ octets metadata, readMessage o message = .ok (octets, metadata)) ∨
      (¬ isMessage tokens = true ∧
        ∃ rejection, readMessage o message = .error (.malformed rejection)) := by
  have hstart := MessageReader.awaits_start hl hp he
  have hmessage : Completable [⟨.ofSource .message (.ofContent o message), tokens⟩] ↔
      isMessage tokens = true :=
    List.forall_mem_singleton.trans (Remainder.completes_ofSource _ _ _)
  have hopen : MessageReader.ofReader o (.ofOctets message) =
      MessageReader.ofSource o (.ofContent o message) := rfl
  rw [MessageReader.ofSource_eq] at hopen
  rw [readMessage, hopen, ← hmessage]
  rcases hstart.settle_verdict ho with ⟨r, stack, hs, ha, hiff⟩ | ⟨hbad, rejection, r, hs⟩
  · obtain ⟨hpoisoned, hfinished⟩ := (MessageReader.settle_eq_ok hs).1
    rw [hs, hiff]
    rcases ha.readAll_verdict ho hpoisoned with
      ⟨hgood, octets, last, hread, ⟨hp', hf'⟩, hframes, hliteral⟩ |
        ⟨hbad, octets, rejection, last, hread⟩
    · have hfinish := MessageReader.finish_of_frames (hp'.trans hpoisoned) (hf'.trans hfinished)
        hliteral hframes
      refine .inl ⟨hgood, octets, ⟨last.metadata.roots⟩, Except.bind_eq_ok.mpr ⟨r, rfl, ?_⟩⟩
      rw [hread]
      exact Except.bind_eq_ok.mpr ⟨_, congrArg Prod.fst hfinish, rfl⟩
    · refine .inr ⟨hbad, rejection, Except.bind_eq_error.mpr (.inr ⟨r, rfl, ?_⟩)⟩
      rw [hread]
      rfl
  · rw [hs]
    exact .inr ⟨hbad, rejection, rfl⟩

/-- **The reader agrees with the grammar.** Tokens whose containers are not nested too deep and whose
packets and layers are not too long are composed under any seed, unless a packet does not even fit its
header. The message is read to its end if the recursive grammar finds a message in the layer and in the
content of every container, and otherwise it is malformed and nothing else. -/
theorem readMessage_compose {o : ReadingContext} (ho : o.OpensLayers) (tokens : List Token)
    (hdepth : maxDepth tokens ≤ o.restrictions.nestingDepth + 1)
    (hbody : longestBody tokens ≤ o.restrictions.packetLength.toNat)
    (hexpansion : longestExpansion tokens ≤ o.restrictions.decompressedLength.toNat)
    (seed : UInt64) :
    ((∃ message, compose tokens seed = .ok message) ↔ longestBody tokens ≤ Packet.maxBodyLength) ∧
      ∀ message, compose tokens seed = .ok message →
        (isMessage tokens = true →
          ∃ octets metadata, readMessage o message = .ok (octets, metadata)) ∧
        (isMessage tokens = false →
          ∃ rejection, readMessage o message = .error (.malformed rejection)) := by
  refine ⟨compose_eq_ok_iff tokens seed, fun message hc => ?_⟩
  obtain ⟨packets, hp, he⟩ := rendersAll_of_compose hc
  rcases readMessage_of_rendersAll ho ⟨hdepth, hbody, hexpansion⟩ hp he with
    ⟨hgood, hread⟩ | ⟨hbad, hread⟩
  · exact ⟨fun _ => hread, fun hbad => absurd hgood (by simp [hbad])⟩
  · exact ⟨fun hgood => absurd hgood hbad, fun _ => hread⟩

/-- Reading with the key of composed layers and nothing else. -/
def ReadingContext.withLayerKey : ReadingContext :=
  { ReadingContext.keyless with credentials := Credentials.provider ⟨[], [], [layerKey]⟩ }

theorem ReadingContext.opensLayers_withLayerKey : withLayerKey.OpensLayers where
  key := ⟨[], rfl⟩
  cipher := by decide
  compression := by decide
  clock := .inl fun _ => rfl

/-- A signed message, compressed and encrypted behind a key packet, is read. An announcement outside
encrypted data does not make up for one that is missing inside. -/
theorem readMessage_compose_nested :
    (∃ message octets metadata,
      compose [.sessionKey, .encrypted [.compressed [.onePassSignature, .literal 3, .signature]]] 7 =
        .ok message ∧ readMessage .withLayerKey message = .ok (octets, metadata)) ∧
    ∃ message rejection,
      compose [.onePassSignature, .encrypted [.literal 3, .signature], .signature] 7 = .ok message ∧
        readMessage .withLayerKey message = .error (.malformed rejection) := by
  have ho := ReadingContext.opensLayers_withLayerKey
  constructor
  · obtain ⟨hcompose, hread⟩ := readMessage_compose ho
      [.sessionKey, .encrypted [.compressed [.onePassSignature, .literal 3, .signature]]]
      (by decide) (by decide) (by decide) 7
    obtain ⟨message, hm⟩ := hcompose.mpr (by decide)
    obtain ⟨octets, metadata, hr⟩ := (hread message hm).1 (by decide)
    exact ⟨message, octets, metadata, hm, hr⟩
  · obtain ⟨hcompose, hread⟩ := readMessage_compose ho
      [.onePassSignature, .encrypted [.literal 3, .signature], .signature]
      (by decide) (by decide) (by decide) 7
    obtain ⟨message, hm⟩ := hcompose.mpr (by decide)
    obtain ⟨rejection, hr⟩ := (hread message hm).2 (by decide)
    exact ⟨message, rejection, hm, hr⟩

end OpenPGP
