import OpenPGP.Grammar.Automaton
/-!
# Derivations of the message grammar

The grammar is stated here over items of any kind that stand for symbols, so
that a derivation keeps the items themselves: packets, tokens or bare symbols.
`Message` is the grammar; its `Outline` says which items are the key packets and
the data, and which announcement each trailing signature belongs to. A `Sketch`
is the same for a beginning of a message, read from left to right; `Fits` and
`Parses` tie it to the configuration of the automaton and to a derivation.

Results:
* `Front.settle`, `Front.close`: the announcement made last takes the next signature.
* `Sketch.fits_add`, `Sketch.parses_add`: what the automaton accepts moves the
  configuration and the derivation along with the sketch.
* `Sketch.message_of_end`: where the end is accepted, a message was read.
-/
namespace OpenPGP

/-! ## The grammar -/

/-- Whether a symbol is that of the data of a message. -/
def InputSymbol.isData : InputSymbol → Bool
  | encryptedData | compressedData | literalData => true
  | _ => false

/-- What a message is made of. -/
structure Outline (α : Type) where
  /-- The key packets in front of encrypted data. -/
  keys : List α
  data : α
  /-- Announcements with the signatures behind the data, in the order of the signatures. -/
  settled : List (α × α)
  /-- The signatures in front of the data, in order. -/
  preceding : List α

section
variable {α : Type} (symbol? : α → Option InputSymbol)

/-- `Message := ESK* EncryptedData | CompressedData | LiteralData | Signature Message |
OnePassSignature Message Signature`. -/
inductive Message : List α → Outline α → Prop
  | encrypted {ks : List α} {d : α} (hk : ∀ k ∈ ks, symbol? k = some .encryptedSessionKey)
      (hd : symbol? d = some .encryptedData) : Message (ks ++ [d]) ⟨ks, d, [], []⟩
  | compressed {d : α} (hd : symbol? d = some .compressedData) : Message [d] ⟨[], d, [], []⟩
  | literal {d : α} (hd : symbol? d = some .literalData) : Message [d] ⟨[], d, [], []⟩
  | preceding {s : α} {xs : List α} {o : Outline α} (hs : symbol? s = some .signature)
      (h : Message xs o) : Message (s :: xs) { o with preceding := s :: o.preceding }
  | onePass {a s : α} {xs : List α} {o : Outline α} (ha : symbol? a = some .onePassSignature)
      (hs : symbol? s = some .signature) (h : Message xs o) :
      Message (a :: (xs ++ [s])) { o with settled := o.settled ++ [(a, s)] }

/-- What stands in front of the data: announcements, last first, and signatures in order. -/
inductive Front : List α → List α → List α → Prop
  | nil : Front [] [] []
  | announce {xs as ss : List α} {a : α} (ha : symbol? a = some .onePassSignature)
      (h : Front xs as ss) : Front (xs ++ [a]) (a :: as) ss
  | precede {xs as ss : List α} {s : α} (hs : symbol? s = some .signature)
      (h : Front xs as ss) : Front (xs ++ [s]) as (ss ++ [s])

variable {symbol?}

/-- The signatures of a message are those in front of its data and those behind it, no other. -/
theorem Message.filter_signature {xs : List α} {o : Outline α} (h : Message symbol? xs o) :
    xs.filter (fun x => symbol? x = some .signature) = o.preceding ++ o.settled.map Prod.snd := by
  induction h with
  | encrypted hk hd => simpa [hd] using fun x hx => by simp [hk x hx]
  | compressed hd => simp [hd]
  | literal hd => simp [hd]
  | preceding hs h ih => simp [hs, ih]
  | onePass ha hs h ih => simp [ha, hs, ih]

theorem Message.filter_onePassSignature {xs : List α} {o : Outline α} (h : Message symbol? xs o) :
    xs.filter (fun x => symbol? x = some .onePassSignature) = (o.settled.map Prod.fst).reverse := by
  induction h with
  | encrypted hk hd => simpa [hd] using fun x hx => by simp [hk x hx]
  | compressed hd => simp [hd]
  | literal hd => simp [hd]
  | preceding hs h ih => simp [hs, ih]
  | onePass ha hs h ih => simp [ha, hs, ih]

/-- A front that owes nothing only adds signatures to the message behind it. -/
theorem Front.close {front as before : List α} (hf : Front symbol? front as before) :
    ∀ {rest : List α} {o : Outline α}, as = [] → Message symbol? rest o →
      Message symbol? (front ++ rest) { o with preceding := before ++ o.preceding } := by
  induction hf with
  | nil => intro rest o _ h; exact h
  | announce ha hf ih => intro rest o e; cases e
  | @precede xs as ss s hs hf ih =>
    intro rest o e h
    have := ih e (.preceding hs h)
    simpa using this

/-- The announcement made last takes the next signature; what stood behind it in front of the data
becomes part of the message. -/
theorem Front.settle {front as' before : List α} (hf : Front symbol? front as' before) :
    ∀ {a s : α} {as rest : List α} {o : Outline α}, as' = a :: as → symbol? s = some .signature →
      Message symbol? rest o →
      ∃ front' inner before' between, Front symbol? front' as before' ∧
        front ++ rest ++ [s] = front' ++ inner ∧ before = before' ++ between ∧
        Message symbol? inner
          { o with settled := o.settled ++ [(a, s)], preceding := between ++ o.preceding } := by
  induction hf with
  | nil => intro a s as rest o e; cases e
  | @announce xs as₀ ss a₀ ha hf ih =>
    intro a s as rest o e hs h
    cases e
    exact ⟨xs, a₀ :: (rest ++ [s]), ss, [], hf, by simp, by simp, .onePass ha hs h⟩
  | @precede xs as₀ ss s₀ hs₀ hf ih =>
    intro a s as rest o e hs h
    obtain ⟨front', inner, before', between, h1, h2, h3, h4⟩ := ih e hs (.preceding hs₀ h)
    refine ⟨front', inner, before', between ++ [s₀], h1, ?_, ?_, ?_⟩
    · simpa using h2
    · rw [h3, List.append_assoc]
    · simpa using h4

end

/-! ## Reading a message from left to right -/

/-- What a beginning of a message has come to. -/
structure Sketch (α : Type) where
  /-- Announcements whose signature is to come, last first. -/
  owed : List α
  preceding : List α
  keys : List α
  data : Option α
  settled : List (α × α)

namespace Sketch

variable {α : Type}

def empty : Sketch α := ⟨[], [], [], none, []⟩

def announce (k : Sketch α) (a : α) : Sketch α := { k with owed := a :: k.owed }
def precede (k : Sketch α) (s : α) : Sketch α := { k with preceding := k.preceding ++ [s] }
def addKey (k : Sketch α) (x : α) : Sketch α := { k with keys := k.keys ++ [x] }
def reach (k : Sketch α) (d : α) : Sketch α := { k with data := some d }

/-- The announcement made last takes a signature. -/
def settle (k : Sketch α) (s : α) : Sketch α :=
  match k.owed with
  | [] => k
  | a :: owed => { k with owed, settled := k.settled ++ [(a, s)] }

/-- The sketch with one more item. -/
def add (symbol? : α → Option InputSymbol) (k : Sketch α) (x : α) : Sketch α :=
  match symbol? x with
  | some .onePassSignature => k.announce x
  | some .signature => if k.data.isNone then k.precede x else k.settle x
  | some .encryptedSessionKey => k.addKey x
  | some .encryptedData | some .compressedData | some .literalData => k.reach x
  | some .unexpectedPacket | some .endOfSequence | none => k

theorem add_none {symbol? : α → Option InputSymbol} {k : Sketch α} {x : α} (hx : symbol? x = none) :
    k.add symbol? x = k := by simp [add, hx]

def outline (k : Sketch α) (d : α) : Outline α := ⟨k.keys, d, k.settled, k.preceding⟩

/-- The configuration a beginning of a message leaves the automaton in: a message is owed until its
data was met, and a signature for every announcement. -/
def Fits (k : Sketch α) (c : Configuration) : Prop :=
  if k.data.isNone then
    c.state = (if k.keys.isEmpty then .openPgpMessage else .encryptedData) ∧
      c.stack = .msg :: (List.replicate k.owed.length .sig ++ [.terminus])
  else c.state.isElement = true ∧ c.stack = List.replicate k.owed.length .sig ++ [.terminus]

/-- How a beginning of a message will be derived: what stands in front, then key packets or the
message inside. -/
def Parses (symbol? : α → Option InputSymbol) (xs : List α) (k : Sketch α) : Prop :=
  ∃ front rest before, Front symbol? front k.owed before ∧ xs = front ++ rest ∧
    match k.data with
    | none => rest = k.keys ∧ before = k.preceding ∧ k.settled = [] ∧
        ∀ x ∈ k.keys, symbol? x = some .encryptedSessionKey
    | some d => ∃ inner, k.preceding = before ++ inner ∧
        Message symbol? rest ⟨k.keys, d, k.settled, inner⟩

end Sketch

/-- The sketch of a sequence of items. -/
def sketch {α : Type} (symbol? : α → Option InputSymbol) (xs : List α) : Sketch α :=
  xs.foldl (Sketch.add symbol?) .empty

@[simp] theorem sketch_append {α : Type} (symbol? : α → Option InputSymbol) (xs : List α) (x : α) :
    sketch symbol? (xs ++ [x]) = (sketch symbol? xs).add symbol? x := by
  simp [sketch, List.foldl_append]

namespace Sketch

variable {α : Type} {symbol? : α → Option InputSymbol}

theorem fits_empty : (empty : Sketch α).Fits .initial := by
  simp [Fits, empty, Configuration.initial]

theorem parses_empty : Parses symbol? [] (empty : Sketch α) :=
  ⟨[], [], [], .nil, rfl, rfl, rfl, rfl, by simp [empty]⟩

/-- Over an owed message the automaton takes exactly what may begin one; behind a key packet only
key packets and encrypted data. -/
theorem next?_msg {st : ControlState} {below : List StackSymbol} {s : InputSymbol} {c : Configuration}
    (h : Configuration.next? ⟨st, .msg :: below⟩ s = some c) :
    ((st = .openPgpMessage ∨ st = .encryptedData) ∧
      (s = .encryptedSessionKey ∧ c = ⟨.encryptedData, .msg :: below⟩ ∨
        s = .encryptedData ∧ c = ⟨.encryptedData, below⟩)) ∨
    (st = .openPgpMessage ∧
      (s = .signature ∧ c = ⟨.openPgpMessage, .msg :: below⟩ ∨
        s = .onePassSignature ∧ c = ⟨.openPgpMessage, .msg :: .sig :: below⟩ ∨
        s = .literalData ∧ c = ⟨.literalMessage, below⟩ ∨
        s = .compressedData ∧ c = ⟨.compressedMessage, below⟩)) := by
  cases st <;> cases s <;>
    simp [Configuration.next?, Configuration.rule] at h <;> subst h <;> simp

/-- Over an owed signature the automaton takes a signature behind an element and nothing else. -/
theorem next?_sig {st : ControlState} {below : List StackSymbol} {s : InputSymbol} {c : Configuration}
    (h : Configuration.next? ⟨st, .sig :: below⟩ s = some c) :
    st.isElement = true ∧ s = .signature ∧ c = ⟨.signedMessage, below⟩ := by
  cases st <;> cases s <;>
    simp [Configuration.next?, Configuration.rule, ControlState.isElement] at h <;> subst h <;>
    simp [ControlState.isElement]

theorem next?_terminus {st : ControlState} {s : InputSymbol} {c : Configuration}
    (h : Configuration.next? ⟨st, [.terminus]⟩ s = some c) :
    st.isElement = true ∧ s = .endOfSequence ∧ c = ⟨.valid, [.terminus]⟩ := by
  cases st <;> cases s <;>
    simp [Configuration.next?, Configuration.rule, ControlState.isElement] at h <;> subst h <;>
    simp [ControlState.isElement]

theorem fits_none {k : Sketch α} {c : Configuration} (hd : k.data = none) : k.Fits c ↔
    c.state = (if k.keys.isEmpty then .openPgpMessage else .encryptedData) ∧
      c.stack = .msg :: (List.replicate k.owed.length .sig ++ [.terminus]) := by
  simp [Fits, hd]

theorem fits_some {k : Sketch α} {c : Configuration} {d : α} (hd : k.data = some d) : k.Fits c ↔
    c.state.isElement = true ∧ c.stack = List.replicate k.owed.length .sig ++ [.terminus] := by
  simp [Fits, hd]

/-- What an accepted item was, and what it made of the sketch: before the data is met. -/
theorem next?_none {k : Sketch α} {c c' : Configuration} {x : α} {s : InputSymbol}
    (hd : k.data = none) (hk : k.Fits c) (hx : symbol? x = some s) (hn : c.next? s = some c') :
    (s = .encryptedSessionKey ∧ k.add symbol? x = k.addKey x ∧
      c' = ⟨.encryptedData, .msg :: (List.replicate k.owed.length .sig ++ [.terminus])⟩) ∨
    (s = .encryptedData ∧ k.add symbol? x = k.reach x ∧
      c' = ⟨.encryptedData, List.replicate k.owed.length .sig ++ [.terminus]⟩) ∨
    (k.keys = [] ∧
      (s = .signature ∧ k.add symbol? x = k.precede x ∧
          c' = ⟨.openPgpMessage, .msg :: (List.replicate k.owed.length .sig ++ [.terminus])⟩ ∨
        s = .onePassSignature ∧ k.add symbol? x = k.announce x ∧
          c' = ⟨.openPgpMessage, .msg :: .sig :: (List.replicate k.owed.length .sig ++ [.terminus])⟩ ∨
        s = .literalData ∧ k.add symbol? x = k.reach x ∧
          c' = ⟨.literalMessage, List.replicate k.owed.length .sig ++ [.terminus]⟩ ∨
        s = .compressedData ∧ k.add symbol? x = k.reach x ∧
          c' = ⟨.compressedMessage, List.replicate k.owed.length .sig ++ [.terminus]⟩)) := by
  obtain ⟨st, stack⟩ := c
  obtain ⟨hst, hstack⟩ := (fits_none hd).mp hk
  dsimp only at hst hstack
  subst hstack
  rcases next?_msg hn with ⟨-, ⟨rfl, rfl⟩ | ⟨rfl, rfl⟩⟩ | ⟨ho, h⟩
  · exact .inl ⟨rfl, by simp [add, hx], rfl⟩
  · exact .inr (.inl ⟨rfl, by simp [add, hx], rfl⟩)
  · have hkeys : k.keys = [] := by
      rw [ho] at hst
      split at hst
      · next h => simpa using h
      · cases hst
    refine .inr (.inr ⟨hkeys, ?_⟩)
    rcases h with ⟨rfl, rfl⟩ | ⟨rfl, rfl⟩ | ⟨rfl, rfl⟩ | ⟨rfl, rfl⟩ <;> simp [add, hx, hd]

/-- What an accepted item was, and what it made of the sketch: behind the data. -/
theorem next?_some {k : Sketch α} {c c' : Configuration} {x d : α} {s : InputSymbol}
    (hd : k.data = some d) (hk : k.Fits c) (hx : symbol? x = some s) (hn : c.next? s = some c') :
    (∃ a owed, k.owed = a :: owed ∧ s = .signature ∧
      k.add symbol? x = { k with owed, settled := k.settled ++ [(a, x)] } ∧
      c' = ⟨.signedMessage, List.replicate owed.length .sig ++ [.terminus]⟩) ∨
    (k.owed = [] ∧ s = .endOfSequence ∧ c' = ⟨.valid, [.terminus]⟩) := by
  obtain ⟨st, stack⟩ := c
  obtain ⟨-, hstack⟩ := (fits_some hd).mp hk
  dsimp only at hstack
  subst hstack
  cases ho : k.owed with
  | nil =>
    rw [ho] at hn
    obtain ⟨-, rfl, rfl⟩ := next?_terminus hn
    exact .inr ⟨rfl, rfl, rfl⟩
  | cons a owed =>
    rw [ho] at hn
    obtain ⟨-, rfl, rfl⟩ := next?_sig hn
    exact .inl ⟨a, owed, rfl, rfl, by simp [add, hx, hd, settle, ho], rfl⟩

/-- An accepted item moves the configuration along with the sketch. -/
theorem fits_add {k : Sketch α} {c c' : Configuration} {x : α} {s : InputSymbol} (hk : k.Fits c)
    (hx : symbol? x = some s) (hs : s ≠ .endOfSequence) (hn : c.next? s = some c') :
    (k.add symbol? x).Fits c' := by
  cases hd : k.data with
  | none =>
    rcases next?_none hd hk hx hn with ⟨-, e, rfl⟩ | ⟨-, e, rfl⟩ | ⟨hkeys, ⟨-, e, rfl⟩ | ⟨-, e, rfl⟩ |
      ⟨-, e, rfl⟩ | ⟨-, e, rfl⟩⟩ <;> rw [e]
    · simp [fits_none, addKey, hd]
    · simp [Fits, reach, ControlState.isElement]
    · simp [fits_none, precede, hd, hkeys]
    · simp [fits_none, announce, hd, hkeys, List.replicate_succ]
    · simp [Fits, reach, ControlState.isElement]
    · simp [Fits, reach, ControlState.isElement]
  | some d =>
    rcases next?_some hd hk hx hn with ⟨a, owed, -, -, e, rfl⟩ | ⟨-, rfl, -⟩
    · rw [e]
      simp [Fits, hd, ControlState.isElement]
    · exact absurd rfl hs

/-- An accepted item extends the derivation along with the sketch. -/
theorem parses_add {k : Sketch α} {c c' : Configuration} {xs : List α} {x : α} {s : InputSymbol}
    (hk : k.Fits c) (hp : k.Parses symbol? xs) (hx : symbol? x = some s) (hs : s ≠ .endOfSequence)
    (hn : c.next? s = some c') : (k.add symbol? x).Parses symbol? (xs ++ [x]) := by
  obtain ⟨front, rest, before, hf, rfl, h⟩ := hp
  cases hd : k.data with
  | none =>
    rw [hd] at h
    obtain ⟨rfl, rfl, hsettled, hkeys⟩ := h
    rcases next?_none hd hk hx hn with ⟨rfl, e, -⟩ | ⟨rfl, e, -⟩ | ⟨hnil, h⟩
    · rw [e]
      refine ⟨front, k.keys ++ [x], k.preceding, hf, by simp, ?_⟩
      simp only [addKey, hd, true_and]
      refine ⟨hsettled, fun y hy => ?_⟩
      rcases List.mem_append.mp hy with hy | hy
      · exact hkeys y hy
      · rw [List.mem_singleton.mp hy, hx]
    · rw [e]
      refine ⟨front, k.keys ++ [x], k.preceding, hf, by simp, [], by simp [reach], ?_⟩
      simpa [reach, hsettled] using Message.encrypted hkeys hx
    · rw [hnil, List.append_nil]
      rcases h with ⟨rfl, e, -⟩ | ⟨rfl, e, -⟩ | ⟨rfl, e, -⟩ | ⟨rfl, e, -⟩ <;> rw [e]
      · refine ⟨front ++ [x], [], k.preceding ++ [x], .precede hx hf, by simp, ?_⟩
        simp [precede, hd, hnil, hsettled]
      · refine ⟨front ++ [x], [], k.preceding, .announce hx hf, by simp, ?_⟩
        simp [announce, hd, hnil, hsettled]
      · refine ⟨front, [x], k.preceding, hf, rfl, [], by simp [reach], ?_⟩
        simpa [reach, hnil, hsettled] using Message.literal hx
      · refine ⟨front, [x], k.preceding, hf, rfl, [], by simp [reach], ?_⟩
        simpa [reach, hnil, hsettled] using Message.compressed hx
  | some d =>
    rw [hd] at h
    obtain ⟨inner, hpre, hm⟩ := h
    rcases next?_some hd hk hx hn with ⟨a, owed, ho, rfl, e, -⟩ | ⟨-, rfl, -⟩
    · obtain ⟨front', rest', before', between, h1, h2, h3, h4⟩ := hf.settle ho hx hm
      rw [e, h2]
      refine ⟨front', rest', before', h1, rfl, ?_⟩
      simp only [hd]
      exact ⟨between ++ inner, by rw [hpre, h3, List.append_assoc], h4⟩
    · exact absurd rfl hs

/-- At the end of what was accepted stands a message. -/
theorem message_of_end {k : Sketch α} {c c' : Configuration} {xs : List α} (hk : k.Fits c)
    (hp : k.Parses symbol? xs) (hn : c.next? .endOfSequence = some c') :
    c' = ⟨.valid, [.terminus]⟩ ∧ k.owed = [] ∧
      ∃ d, k.data = some d ∧ Message symbol? xs (k.outline d) := by
  obtain ⟨front, rest, before, hf, rfl, h⟩ := hp
  cases hd : k.data with
  | none =>
    obtain ⟨st, stack⟩ := c
    obtain ⟨-, hstack⟩ := (fits_none hd).mp hk
    dsimp only at hstack
    subst hstack
    have := next?_msg hn
    simp at this
  | some d =>
    rw [hd] at h
    obtain ⟨inner, hpre, hm⟩ := h
    obtain ⟨st, stack⟩ := c
    obtain ⟨-, hstack⟩ := (fits_some hd).mp hk
    dsimp only at hstack
    subst hstack
    cases ho : k.owed with
    | nil =>
      rw [ho] at hn
      obtain ⟨-, -, rfl⟩ := next?_terminus hn
      exact ⟨rfl, rfl, d, rfl, by simpa [outline, hpre] using hf.close ho hm⟩
    | cons a owed =>
      rw [ho] at hn
      have := (next?_sig hn).2.1
      cases this

end Sketch

end OpenPGP
