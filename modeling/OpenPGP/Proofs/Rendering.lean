import OpenPGP.Compose.Rendering
import OpenPGP.Proofs.RoundTrip
import OpenPGP.Proofs.Sealing
/-!
# What a tree of tokens is rendered to

Every token is rendered to one packet. `Token.Renders` says which packets these
can be, whatever the state of the environment: it is all that a reader of the
packets needs to know about how they were made. The sizes of all packets, those
inside containers included, are functions of the tokens alone.

Results:
* `Token.renderAll_outcome`: what rendering gives, and when it fails.
* `Token.RendersAll.length_encodeAll`: the size of a layer.
* `Token.compose_eq_ok_iff`: a message is composed unless a packet is too long for its header.
* `Token.Renders.wellFormed`, `Token.Renders.symbol?_eq`: each packet is read back and stands for
  the symbol of its token.
-/
namespace OpenPGP

theorem Composing.bind_eq_ok {α β : Type} {x : Composing α} {f : α → Composing β}
    {e e' : Environment} {b : β} :
    (x >>= f) e = .ok (b, e') ↔ ∃ a e₁, x e = .ok (a, e₁) ∧ f a e₁ = .ok (b, e') := by
  constructor
  · intro h
    obtain ⟨⟨a, e₁⟩, ha, hb⟩ := Except.bind_eq_ok.mp h
    exact ⟨a, e₁, ha, hb⟩
  · rintro ⟨a, e₁, ha, hb⟩
    exact Except.bind_eq_ok.mpr ⟨⟨a, e₁⟩, ha, hb⟩

namespace Token

/-! ## Sizes -/

mutual

/-- The length of the body of the packet a token is rendered to, whatever packet that is
(`Renders.length_body`). -/
def bodyLength : Token → Nat
  | sessionKey => 4
  | encrypted content => layerLength content + 41
  | compressed content => layerLength content + 1
  | literal seed => 6 + seed.toNat % 16
  | onePassSignature => 13
  | signature => 90
  | marker => 3
  | padding => 4
  | unexpected => 3

/-- The length of a layer: of every packet its tag, its length and its body. -/
def layerLength : List Token → Nat
  | [] => 0
  | t :: ts =>
    1 + (PacketHeader.lengthOctets t.bodyLength).length + t.bodyLength + layerLength ts

end

mutual

/-- The length of the longest body inside a container. -/
def longestInside : Token → Nat
  | encrypted content | compressed content => longestBody content
  | _ => 0

/-- The length of the longest body of a layer and of the layers inside it. -/
def longestBody : List Token → Nat
  | [] => 0
  | t :: ts => max (max t.bodyLength t.longestInside) (longestBody ts)

end

mutual

/-- The length of the longest layer that comes out of compressed data. -/
def expansion : Token → Nat
  | encrypted content => longestExpansion content
  | compressed content => max (layerLength content) (longestExpansion content)
  | _ => 0

/-- The same for the tokens of a layer. -/
def longestExpansion : List Token → Nat
  | [] => 0
  | t :: ts => max t.expansion (longestExpansion ts)

end

theorem longestBody_le_iff {tokens : List Token} {n : Nat} :
    longestBody tokens ≤ n ↔ ∀ t ∈ tokens, t.bodyLength ≤ n ∧ t.longestInside ≤ n := by
  induction tokens with
  | nil => simp [longestBody]
  | cons t ts ih => simp only [longestBody, List.forall_mem_cons, Nat.max_le, ih]

/-! ## Packets -/

mutual

/-- The packets a token may be rendered to. -/
inductive Renders : Token → Packet → Prop
  | sessionKey : Renders .sessionKey keyPacket
  | encrypted {content : List Token} {packets : List Packet} {octets start body : Octets}
      (h : RendersAll content packets) (he : Packet.encodeAll packets = .ok octets)
      (hs : start.length = 16)
      (hb : Protection.encryptWithCode .aes128 layerKey.octets start octets = .ok body) :
      Renders (.encrypted content) (.encryptedData (.v1 body))
  | compressed {content : List Token} {packets : List Packet} {octets : Octets}
      (h : RendersAll content packets) (he : Packet.encodeAll packets = .ok octets) :
      Renders (.compressed content) (.compressedData ⟨.uncompressed, octets⟩)
  | literal (seed : UInt8) (time : UInt32) :
      Renders (.literal seed)
        (.literalData ⟨.binary, Octets.ofText "", time, List.replicate (seed.toNat % 16) seed⟩)
  | onePassSignature : Renders .onePassSignature (.onePassSignature announcement)
  | signature (created : UInt32) : Renders .signature (.signature (emptySignature created))
  | marker : Renders .marker .marker
  | padding : Renders .padding (.padding 4)
  | unexpected : Renders .unexpected (.unknown 6 (Octets.ofText "key"))

/-- The packets the tokens of a layer may be rendered to, one each. -/
inductive RendersAll : List Token → List Packet → Prop
  | nil : RendersAll [] []
  | cons {t : Token} {ts : List Token} {p : Packet} {ps : List Packet} (h : Renders t p)
      (hs : RendersAll ts ps) : RendersAll (t :: ts) (p :: ps)

end

/-- The packet of a token stands for the symbol of the token. -/
theorem Renders.symbol?_eq {t : Token} {p : Packet} (h : Renders t p) : p.symbol? = t.symbol? := by
  cases h <;> rfl

theorem length_noName : (Octets.ofText "").length = 0 := by decide +kernel

theorem wellFormed_emptySignature (created : UInt32) : (emptySignature created).WellFormed := by
  have hcanonical : (emptySignature created).IsCanonical :=
    ⟨Identifier.isCanonical_registered _ _, Identifier.isCanonical_registered _ _,
      Identifier.isCanonical_registered _ _⟩
  refine Signature.wellFormed_ofSubpackets _ hcanonical (.ed25519 _) (List.forall_mem_singleton.mpr trivial)
    (List.forall_mem_singleton.mpr trivial) ?_ ?_
  · simp [Subpacket.encodeArea, Subpacket.encode, Subpacket.plain, SubpacketContent.data,
      Subpacket.encodeLength]
  · simp [Subpacket.encodeArea, Subpacket.encode, Subpacket.plain, SubpacketContent.data,
      Subpacket.encodeLength, issuer.property]

/-- The packet of a token is read back. -/
theorem Renders.wellFormed {t : Token} {p : Packet} (h : Renders t p) : p.WellFormed := by
  cases h with
  | sessionKey => exact .passphraseSessionKey (.derived (by decide) (.simple (by decide)))
  | encrypted h he hs hb => exact .encryptedData (.v1 _)
  | compressed h he => exact .compressedData (Identifier.isCanonical_registered _ _)
  | literal seed time => exact .literalData (length_noName ▸ Nat.zero_le _)
  | onePassSignature => exact .onePassSignature ⟨by decide, by decide, by decide⟩
  | signature created => exact .signature (wellFormed_emptySignature created)
  | marker => exact .marker
  | padding => exact .padding 4
  | unexpected => exact .unknown (by decide) (by decide) (by decide) _

theorem length_emptySignature (created : UInt32) : (emptySignature created).encode.length = 90 := by
  simp [emptySignature, Signature.encode, Signature.ofSubpackets, Signature.start,
    Signature.areaLength, Subpacket.encodeArea, Subpacket.encode, Subpacket.plain,
    SubpacketContent.data, Subpacket.encodeLength, SignatureMaterial.octets, issuer.property,
    (Octets.Sized.zero 2).property, (Octets.Sized.zero 64).property]

theorem length_encrypted {start octets body : Octets} (hs : start.length = 16)
    (hb : Protection.encryptWithCode .aes128 layerKey.octets start octets = .ok body) :
    (Packet.encryptedData (.v1 body)).body.length = octets.length + 41 := by
  obtain ⟨-, -, hlength⟩ := Protection.open_encryptWithCode rfl hs hb
  rw [Packet.body, EncryptedData.encode, List.length_cons, hlength]

mutual

theorem Renders.length_body {t : Token} {p : Packet} (h : Renders t p) :
    p.body.length = t.bodyLength := by
  cases h with
  | sessionKey => rfl
  | encrypted h he hs hb => rw [length_encrypted hs hb, h.length_encodeAll he, bodyLength]
  | compressed h he => rw [Packet.body, List.length_cons, h.length_encodeAll he, bodyLength]
  | literal seed time =>
    simp [Packet.body, LiteralData.encode, bodyLength, length_noName]
    omega
  | onePassSignature => rfl
  | signature created => exact length_emptySignature created
  | marker => rfl
  | padding => rfl
  | unexpected => decide +kernel

/-- The wire form of a layer has the length that belongs to its tokens. -/
theorem RendersAll.length_encodeAll {tokens : List Token} {packets : List Packet} {octets : Octets}
    (h : RendersAll tokens packets) (he : Packet.encodeAll packets = .ok octets) :
    octets.length = layerLength tokens := by
  cases h with
  | nil =>
    cases he
    rfl
  | cons h hs =>
    obtain ⟨first, rest, hf, hr, rfl⟩ := Packet.encodeAll_cons_eq_ok.mp he
    obtain ⟨-, rfl⟩ := Packet.encode_eq_ok.mp hf
    rw [List.length_append, List.length_append, hs.length_encodeAll hr, h.length_body,
      PacketHeader.encode_eq, List.length_cons, layerLength]
    omega

end

/-- A layer has a wire form if no packet of it is too long. -/
theorem RendersAll.encodeAll_eq_ok_iff {tokens : List Token} {packets : List Packet}
    (h : RendersAll tokens packets) : (∃ octets, Packet.encodeAll packets = .ok octets) ↔
      ∀ t ∈ tokens, t.bodyLength ≤ Packet.maxBodyLength := by
  induction tokens generalizing packets with
  | nil =>
    cases h
    exact ⟨fun _ t ht => (by cases ht), fun _ => ⟨[], rfl⟩⟩
  | cons t ts ih =>
    obtain _ | ⟨h, hs⟩ := h
    rw [List.forall_mem_cons, ← ih hs, ← h.length_body]
    constructor
    · rintro ⟨octets, he⟩
      obtain ⟨first, rest, hf, hr, -⟩ := Packet.encodeAll_cons_eq_ok.mp he
      exact ⟨(Packet.encode_eq_ok.mp hf).1, rest, hr⟩
    · rintro ⟨hl, rest, hr⟩
      have hp := Packet.encode_eq_ok.mpr ⟨hl, rfl⟩
      exact ⟨_, Packet.encodeAll_cons_eq_ok.mpr ⟨_, rest, hp, hr, rfl⟩⟩

/-! ## Rendering -/

/-- What became of composing something: it succeeded exactly if something fits, its result is as
described, and there are random octets still. -/
def Outcome {α : Type} (result : Except ComposeError (α × Environment)) (fits : Prop) (P : α → Prop) :
    Prop :=
  match result with
  | .ok (a, e) => P a ∧ e.generator.key.length = 8 ∧ fits
  | .error _ => ¬ fits

namespace Outcome

variable {α β : Type} {e : Environment} {fits fits' : Prop} {P : α → Prop} {Q : β → Prop}

theorem pure {a : α} (ha : P a) (hk : e.generator.key.length = 8) :
    Outcome ((Pure.pure a : Composing α) e) True P := ⟨ha, hk, trivial⟩

theorem bind {x : Composing α} {f : α → Composing β} (hx : Outcome (x e) fits P)
    (hf : ∀ a e', P a → e'.generator.key.length = 8 → Outcome (f a e') fits' Q) :
    Outcome ((x >>= f) e) (fits ∧ fits') Q := by
  rw [show (x >>= f) e = (x e >>= fun r => f r.1 r.2) from rfl]
  cases hr : x e with
  | error error =>
    rw [hr] at hx
    exact fun h => hx h.1
  | ok r =>
    obtain ⟨a, e'⟩ := r
    rw [hr] at hx
    obtain ⟨ha, hk, hfits⟩ := hx
    have h := hf a e' ha hk
    change Outcome (f a e') (fits ∧ fits') Q
    cases hr' : f a e' with
    | error error =>
      rw [hr'] at h
      exact fun hboth => h hboth.2
    | ok r =>
      rw [hr'] at h
      exact ⟨h.1, h.2.1, hfits, h.2.2⟩

theorem bind_of_true {x : Composing α} {f : α → Composing β} (hx : Outcome (x e) True P)
    (hf : ∀ a e', P a → e'.generator.key.length = 8 → Outcome (f a e') fits Q) :
    Outcome ((x >>= f) e) fits Q := by
  have h := hx.bind hf
  rwa [true_and] at h

theorem bind_true {x : Composing α} {f : α → Composing β} (hx : Outcome (x e) fits P)
    (hf : ∀ a e', P a → e'.generator.key.length = 8 → Outcome (f a e') True Q) :
    Outcome ((x >>= f) e) fits Q := by
  have h := hx.bind hf
  rwa [and_true] at h

theorem mono {P' : α → Prop} {result : Except ComposeError (α × Environment)}
    (h : Outcome result fits P) (himp : ∀ a, P a → P' a) : Outcome result fits P' := by
  cases result with
  | error error => exact h
  | ok r => exact ⟨himp r.1 h.1, h.2⟩

theorem congr {result : Except ComposeError (α × Environment)} (h : Outcome result fits P)
    (hiff : fits ↔ fits') : Outcome result fits' P := by rwa [← propext hiff]

end Outcome

theorem encoded_outcome (packets : List Packet) {e : Environment} (hk : e.generator.key.length = 8) :
    Outcome (Composing.encoded packets e) (∃ octets, Packet.encodeAll packets = .ok octets)
      (fun octets => Packet.encodeAll packets = .ok octets) := by
  cases hp : Packet.encodeAll packets with
  | error error =>
    rw [Composing.encoded, hp]
    exact fun ⟨octets, h⟩ => (by cases h)
  | ok octets =>
    rw [Composing.encoded, hp]
    exact ⟨rfl, hk, octets, rfl⟩

theorem exists_encryptWithCode (start octets : Octets) :
    ∃ body, Protection.encryptWithCode .aes128 layerKey.octets start octets = .ok body := by
  have hkey : ∃ k, Crypto.Aes.key .aes128 layerKey.octets = .ok k := ⟨_, rfl⟩
  obtain ⟨k, hk⟩ := hkey
  exact ⟨_, Except.bind_eq_ok.mpr ⟨k, hk, rfl⟩⟩

theorem dataPacket_outcome (octets : Octets) {e : Environment} (hk : e.generator.key.length = 8) :
    Outcome (encryption.dataPacket layerKey.octets octets e) True (fun data => ∃ start body,
      start.length = 16 ∧ data = .v1 body ∧
        Protection.encryptWithCode .aes128 layerKey.octets start octets = .ok body) := by
  obtain ⟨hlength, hkey⟩ := Crypto.Generator.length_octets hk 16
  obtain ⟨body, hb⟩ := exists_encryptWithCode (e.random 16).1 octets
  have hdata : encryption.dataPacket layerKey.octets octets e = .ok (.v1 body, (e.random 16).2) := by
    refine Composing.bind_eq_ok.mpr ⟨16, e, rfl, Composing.bind_eq_ok.mpr ⟨_, _, rfl, ?_⟩⟩
    refine Composing.bind_eq_ok.mpr ⟨body, (e.random 16).2, ?_, rfl⟩
    exact congrArg (fun r => StateT.lift (r.mapError ComposeError.crypto) (e.random 16).2) hb
  rw [hdata]
  exact ⟨⟨_, body, hlength, rfl, hb⟩, hkey.symm ▸ hk, trivial⟩

theorem nobody_outcome {α β : Type} (f : α → Composing β) {e : Environment}
    (hk : e.generator.key.length = 8) : Outcome (([] : List α).mapM f e) True (· = []) :=
  ⟨rfl, hk, trivial⟩

theorem packets_outcome (packets : List Packet) {e : Environment} (hk : e.generator.key.length = 8) :
    Outcome (encryption.packets packets e) (∃ octets, Packet.encodeAll packets = .ok octets)
      (fun r => ∃ octets start body, Packet.encodeAll packets = .ok octets ∧ start.length = 16 ∧
        Protection.encryptWithCode .aes128 layerKey.octets start octets = .ok body ∧
        r.1 = [.encryptedData (.v1 body)]) := by
  have hkey : Outcome (encryption.chosenKey e) True (fun key => key = layerKey.octets) :=
    ⟨rfl, hk, trivial⟩
  apply hkey.bind_of_true
  intro key e₁ h₁ hk₁
  subst h₁
  apply (encoded_outcome packets hk₁).bind_true
  intro octets e₂ h₂ hk₂
  apply (nobody_outcome _ hk₂).bind_true
  intro passphrases e₃ h₃ hk₃
  apply (nobody_outcome _ hk₃).bind_true
  intro recipients e₄ h₄ hk₄
  apply (dataPacket_outcome octets hk₄).bind_true
  intro data e₅ h₅ hk₅
  obtain ⟨start, body, hs, rfl, hb⟩ := h₅
  subst h₃
  subst h₄
  exact Outcome.pure ⟨octets, start, body, h₂, hs, hb, rfl⟩ hk₅

/-- A layer has a wire form if nothing inside its containers and none of its own packets is too long. -/
theorem fits_inside_iff (tokens : List Token) :
    (∀ t ∈ tokens, t.longestInside ≤ Packet.maxBodyLength) ∧
        (∀ t ∈ tokens, t.bodyLength ≤ Packet.maxBodyLength) ↔
      longestBody tokens ≤ Packet.maxBodyLength := by
  rw [longestBody_le_iff]
  constructor
  · intro ⟨hinside, hbody⟩ t ht
    exact ⟨hbody t ht, hinside t ht⟩
  · intro h
    exact ⟨fun t ht => (h t ht).2, fun t ht => (h t ht).1⟩

mutual

/-- A token is rendered to one packet, unless something inside is too long. -/
theorem render_outcome (t : Token) {e : Environment} (hk : e.generator.key.length = 8) :
    Outcome (t.render e) (t.longestInside ≤ Packet.maxBodyLength)
      (fun packets => ∃ p, packets = [p] ∧ Renders t p) := by
  cases t with
  | encrypted content =>
    refine Outcome.congr ?_ (fits_inside_iff content)
    apply (renderAll_outcome content hk).bind
    intro packets e₁ h₁ hk₁
    apply ((packets_outcome packets hk₁).congr h₁.encodeAll_eq_ok_iff).bind_true
    intro r e₂ h₂ hk₂
    obtain ⟨octets, start, body, he, hs, hb, hr⟩ := h₂
    rw [hr]
    exact Outcome.pure ⟨_, rfl, .encrypted h₁ he hs hb⟩ hk₂
  | compressed content =>
    refine Outcome.congr ?_ (fits_inside_iff content)
    apply (renderAll_outcome content hk).bind
    intro packets e₁ h₁ hk₁
    apply ((encoded_outcome packets hk₁).congr h₁.encodeAll_eq_ok_iff).bind_true
    intro octets e₂ he hk₂
    exact Outcome.pure ⟨_, rfl, .compressed h₁ he⟩ hk₂
  | literal seed => exact ⟨⟨_, rfl, .literal seed _⟩, hk, Nat.zero_le _⟩
  | sessionKey => exact ⟨⟨_, rfl, .sessionKey⟩, hk, Nat.zero_le _⟩
  | onePassSignature => exact ⟨⟨_, rfl, .onePassSignature⟩, hk, Nat.zero_le _⟩
  | signature => exact ⟨⟨_, rfl, .signature _⟩, hk, Nat.zero_le _⟩
  | marker => exact ⟨⟨_, rfl, .marker⟩, hk, Nat.zero_le _⟩
  | padding => exact ⟨⟨_, rfl, .padding⟩, hk, Nat.zero_le _⟩
  | unexpected => exact ⟨⟨_, rfl, .unexpected⟩, hk, Nat.zero_le _⟩

/-- A layer is rendered, unless something inside its containers is too long. -/
theorem renderAll_outcome (tokens : List Token) {e : Environment} (hk : e.generator.key.length = 8) :
    Outcome (renderAll tokens e) (∀ t ∈ tokens, t.longestInside ≤ Packet.maxBodyLength)
      (RendersAll tokens) := by
  cases tokens with
  | nil => exact ⟨.nil, hk, fun t ht => (by cases ht)⟩
  | cons t ts =>
    -- the environment of the rest is the one the first token leaves behind
    have hfits : (∀ x ∈ t :: ts, x.longestInside ≤ Packet.maxBodyLength) ↔ _ := List.forall_mem_cons
    refine Outcome.congr ?_ hfits.symm
    apply (render_outcome t hk).bind
    intro packets e₁ h₁ hk₁
    obtain ⟨p, rfl, hp⟩ := h₁
    apply (renderAll_outcome ts hk₁).bind_true
    intro rest e₂ h₂ hk₂
    exact Outcome.pure (.cons hp h₂) hk₂

end

/-- The wire form of what the tokens are rendered to where a seed starts. -/
def compose (tokens : List Token) (seed : UInt64) : Except ComposeError Octets :=
  StateT.run' (do Composing.encoded (← renderAll tokens)) (.ofSeed seed)

theorem compose_outcome (tokens : List Token) {e : Environment} (hk : e.generator.key.length = 8) :
    Outcome ((renderAll tokens >>= Composing.encoded) e) (longestBody tokens ≤ Packet.maxBodyLength)
      (fun octets => ∃ packets, RendersAll tokens packets ∧ Packet.encodeAll packets = .ok octets) := by
  refine Outcome.congr ?_ (fits_inside_iff tokens)
  apply (renderAll_outcome tokens hk).bind
  intro packets e₁ h₁ hk₁
  have h := (encoded_outcome packets hk₁).congr h₁.encodeAll_eq_ok_iff
  exact h.mono fun _ he => ⟨packets, h₁, he⟩

/-- A message is composed unless some packet is too long for its header, and then it is the wire form
of packets for the tokens. -/
theorem compose_outcome_ofSeed (tokens : List Token) (seed : UInt64) :
    (longestBody tokens ≤ Packet.maxBodyLength ∧ ∃ message packets, compose tokens seed = .ok message ∧
        RendersAll tokens packets ∧ Packet.encodeAll packets = .ok message) ∨
      (Packet.maxBodyLength < longestBody tokens ∧ ∃ error, compose tokens seed = .error error) := by
  have hcompose : compose tokens seed =
      ((renderAll tokens >>= Composing.encoded) (.ofSeed seed)).map Prod.fst := rfl
  have h := compose_outcome tokens (e := .ofSeed seed) (Crypto.ChaCha20.length_keyWords 8 seed)
  rw [hcompose]
  cases hr : (renderAll tokens >>= Composing.encoded) (.ofSeed seed) with
  | error error =>
    rw [hr] at h
    exact .inr ⟨Nat.lt_of_not_le h, error, rfl⟩
  | ok r =>
    rw [hr] at h
    obtain ⟨⟨packets, hp, he⟩, -, hfits⟩ := h
    exact .inl ⟨hfits, r.1, packets, rfl, hp, he⟩

/-- **A message is composed unless some packet is too long for its header.** -/
theorem compose_eq_ok_iff (tokens : List Token) (seed : UInt64) :
    (∃ message, compose tokens seed = .ok message) ↔ longestBody tokens ≤ Packet.maxBodyLength := by
  rcases compose_outcome_ofSeed tokens seed with ⟨hfits, message, packets, hc, -⟩ | ⟨hlong, error, hc⟩
  · exact ⟨fun _ => hfits, fun _ => ⟨message, hc⟩⟩
  · constructor
    · intro ⟨message, h⟩
      rw [hc] at h
      cases h
    · intro hfits
      omega

/-- What was composed is the wire form of packets for the tokens. -/
theorem rendersAll_of_compose {tokens : List Token} {seed : UInt64} {message : Octets}
    (h : compose tokens seed = .ok message) :
    ∃ packets, RendersAll tokens packets ∧ Packet.encodeAll packets = .ok message := by
  rcases compose_outcome_ofSeed tokens seed with ⟨-, _, packets, hc, hp, he⟩ | ⟨-, error, hc⟩
  · rw [hc] at h
    cases h
    exact ⟨packets, hp, he⟩
  · rw [hc] at h
    cases h

end Token

end OpenPGP
