import OpenPGP.Proofs.Obligations
import OpenPGP.Proofs.Traversal
/-!
# Where layers are recorded

The builder of the tree follows paths of child numbers that were saved while the tree was smaller, and a
number that no child has would end a path early: the layer would be recorded further out, and nothing
would tell. `LayerNode.childrenAt?` follows a path only as far as there are children. Recording never
takes a path out of range, whatever is recorded where, so it is enough that the paths are in range when
they are saved: the current one leads through the containers of all open layers, and every saved one is
a beginning of it.

Results:
* `LayerNode.insertAt_of_childrenAt?`: on a path in range a node is put where the path leads.
* `LayerNode.isSome_childrenAt?_insertAt`: recording keeps every path in range.
* `Surroundings.Open.kinds`: the containers around a layer and the kinds of the layers inside them.
* `MessageReader.positions_of_reaches`: all of this on every run.
-/
namespace OpenPGP

/-! ## Paths in a tree that grows -/

namespace LayerNode

theorem childrenAt?_append (p q : List Nat) (nodes : List LayerNode) :
    childrenAt? (p ++ q) nodes = (childrenAt? p nodes).bind (childrenAt? q) := by
  induction p generalizing nodes with
  | nil => rfl
  | cons i p ih => simp [childrenAt?, ih, Option.bind_assoc]

theorem descend?_concat (p : List Nat) (i : Nat) (node : LayerNode) :
    descend? (p ++ [i]) node = (childrenAt? p node.children).bind (·[i]?) := by
  induction p generalizing node with
  | nil => simp [descend?, childrenAt?]
  | cons j p ih => simp [descend?, childrenAt?, ih, Option.bind_assoc]

theorem nodeAt?_concat (p : List Nat) (i : Nat) (nodes : List LayerNode) :
    nodeAt? (p ++ [i]) nodes = (childrenAt? p nodes).bind (·[i]?) := by
  cases p with
  | nil => simp [nodeAt?, descend?, childrenAt?]
  | cons j p => simp [nodeAt?, childrenAt?, descend?_concat, Option.bind_assoc]

variable {path q : List Nat} {nodes children : List LayerNode}

theorem isSome_childrenAt?_of_isPrefix (hq : q <+: path) (h : (childrenAt? path nodes).isSome) :
    (childrenAt? q nodes).isSome := by
  obtain ⟨rest, rfl⟩ := hq
  rw [childrenAt?_append, Option.isSome_bind] at h
  exact Option.isSome_of_any h

/-- On a path in range a node is put where the path leads. -/
theorem insertAt_of_childrenAt? (h : childrenAt? path nodes = some children) (node : LayerNode) :
    childrenAt? path (insertAt node path nodes) = some (children ++ [node]) := by
  induction path generalizing nodes with
  | nil => rw [← Option.some.inj h]; rfl
  | cons i path ih =>
    obtain ⟨⟨layer, inner⟩, hnode, h⟩ := Option.bind_eq_some_iff.mp h
    have hlt : i < nodes.length := (List.getElem?_eq_some_iff.mp hnode).1
    simp only [insertAt, hnode, childrenAt?, List.getElem?_set_self hlt, Option.bind_some]
    exact ih h

theorem isSome_childrenAt?_concat (node : LayerNode) (h : (childrenAt? path nodes).isSome) :
    (childrenAt? path (nodes ++ [node])).isSome := by
  cases path with
  | nil => rfl
  | cons i path =>
    obtain ⟨children, h⟩ := Option.isSome_iff_exists.mp h
    obtain ⟨parent, hparent, h⟩ := Option.bind_eq_some_iff.mp h
    have hlt : i < nodes.length := (List.getElem?_eq_some_iff.mp hparent).1
    simp [childrenAt?, List.getElem?_append_left hlt, hparent, h]

/-- A node that is put anywhere keeps every path in range, be the path to it in range or not. -/
theorem isSome_childrenAt?_insertAt (node : LayerNode) (p : List Nat)
    (h : (childrenAt? path nodes).isSome) : (childrenAt? path (insertAt node p nodes)).isSome := by
  induction p generalizing path nodes with
  | nil => exact isSome_childrenAt?_concat node h
  | cons j p ih =>
    unfold insertAt
    split
    · next layer inner hj =>
      cases path with
      | nil => rfl
      | cons i path =>
        have hlt : j < nodes.length := (List.getElem?_eq_some_iff.mp hj).1
        by_cases hij : j = i
        · subst hij
          rw [childrenAt?, hj] at h
          rw [childrenAt?, List.getElem?_set_self hlt]
          exact ih h
        · rw [childrenAt?, List.getElem?_set_ne hij]
          exact h
    · exact isSome_childrenAt?_concat node h

theorem enclose_append (inner outer : List Layer) (nodes : List LayerNode) :
    enclose (inner ++ outer) nodes = enclose outer (enclose inner nodes) := by
  induction inner generalizing nodes with
  | nil => rfl
  | cons layer inner ih => exact ih [⟨layer, nodes⟩]

/-- Among containers that each stand alone, each is at the path through those around it. -/
theorem nodeAt?_enclose (inner outer : List Layer) (layer : Layer) (nodes : List LayerNode) :
    nodeAt? (List.replicate (outer.length + 1) 0) (enclose (inner ++ layer :: outer) nodes) =
      some ⟨layer, enclose inner nodes⟩ := by
  rw [enclose_append, List.replicate_succ', nodeAt?_concat, enclose, childrenAt?_enclose]
  rfl

end LayerNode

namespace MetadataBuilder

/-- Records layers in turn, each inside the container at a path. -/
def recordInTurn (m : MetadataBuilder) (recorded : List (List Nat × Layer)) : MetadataBuilder :=
  recorded.foldl (fun m x => m.recordAt x.1 x.2) m

/-- What is recorded anywhere keeps every path in range. -/
theorem isSome_childrenAt?_recordInTurn {m : MetadataBuilder} {q : List Nat}
    (h : (LayerNode.childrenAt? q m.roots).isSome) (recorded : List (List Nat × Layer)) :
    (LayerNode.childrenAt? q (m.recordInTurn recorded).roots).isSome := by
  induction recorded generalizing m with
  | nil => exact h
  | cons x recorded ih => exact ih (LayerNode.isSome_childrenAt?_insertAt (.leaf x.2) x.1 h)

end MetadataBuilder

/-! ## The containers of the open layers -/

variable {o : ReadingContext} {source : PacketSource} {out : Octets}

namespace Surroundings.Open

variable {c : Surroundings} {f g : Frame} {inner around : List Frame}

/-- The containers around a layer are of the kinds of the layers inside them, from the innermost one to
the message, which has none. -/
theorem kinds (h : c.Open o source) (hk : c.kind? = some f.kind) :
    (f :: c.frames).map (fun g => some g.kind) = c.layers.map Layer.kind? ++ [some .message] := by
  induction h generalizing f with
  | root => exact congrArg (fun kind => [kind]) hk.symm
  | inside h hk' hf hn hd ho ih =>
    rw [List.map_cons, Surroundings.inside, ih hk', ← hk]
    rfl

theorem container (h : c.Open o source) (hk : c.kind? = some f.kind)
    (e : f :: c.frames = inner ++ g :: around) :
    (around = [] ∧ g.kind = .message) ∨ ∃ within layer outer, c.layers = within ++ layer :: outer ∧
      outer.length + 1 = around.length ∧ layer.kind? = some g.kind := by
  have hkinds := h.kinds hk
  rw [e, List.map_append, List.map_cons] at hkinds
  rcases List.eq_nil_or_concat around with rfl | ⟨around, last, rfl⟩
  · exact .inl ⟨rfl, Option.some.inj (List.cons.inj (List.append_inj' hkinds rfl).2).1⟩
  · rw [List.concat_eq_append, List.map_append, ← List.cons_append, ← List.append_assoc] at hkinds
    have hlayers := (List.append_inj' hkinds rfl).1
    obtain ⟨within, rest, hc, -, hrest⟩ := List.map_eq_append_iff.mp hlayers.symm
    obtain ⟨layer, outer, rfl, hlayer, houter⟩ := List.map_eq_cons_iff.mp hrest
    have hlength := congrArg List.length houter
    exact .inr ⟨within, layer, outer, hc, by simpa using hlength, hlayer⟩

end Surroundings.Open

/-! ## Every run -/

/-- Every position that was saved is a beginning of the current one. -/
theorem Apportioned.isPrefix {path : List Nat} {frames : List Frame} {pending : List Obligation}
    {preceding : List PrecedingSignature} (h : Apportioned o source path frames pending preceding) :
    (∀ x ∈ pending, x.position <+: path) ∧ ∀ x ∈ preceding, x.position <+: path := by
  induction h with
  | nil => simp
  | @cons f outer start own pending held preceding hb hf h ih =>
    have hprefix : path.take outer.length <+: path := List.take_prefix _ _
    constructor <;> intro x hx
    · rcases List.mem_append.mp hx with hx | hx
      · rwa [hf.position.1 x hx]
      · exact ih.1 x hx
    · rcases List.mem_append.mp hx with hx | hx
      · exact ih.2 x hx
      · rwa [hf.position.2 x hx]

namespace Sound

variable {s : ReadingState}

theorem isSome_childrenAt? (h : Sound o source out s) :
    (LayerNode.childrenAt? s.metadata.position s.metadata.roots).isSome := by
  cases h with
  | ended => rfl
  | reading hc hk hf hr => exact Option.isSome_of_eq_some (LayerNode.childrenAt?_enclose _ _)

theorem length_position (h : Sound o source out s) {f : Frame} {outer : List Frame}
    (e : s.frames = f :: outer) : s.metadata.position.length = outer.length := by
  cases h with
  | ended => cases e
  | reading hc hk hf hr =>
    obtain ⟨rfl, rfl⟩ := List.cons.inj e
    exact List.length_replicate.trans hc.length_layers

theorem container (h : Sound o source out s) {inner around : List Frame} {g : Frame}
    (e : s.frames = inner ++ g :: around) : (around = [] ∧ g.kind = .message) ∨ ∃ node,
      LayerNode.nodeAt? (s.metadata.position.take around.length) s.metadata.roots = some node ∧
        node.layer.kind? = some g.kind := by
  cases h with
  | ended => simp at e
  | @reading c f packets nodes literal hc hk hf hr =>
    refine (hc.container hk e).imp id ?_
    rintro ⟨within, layer, outer, hlayers, hlength, hkind⟩
    have hle : outer.length + 1 ≤ c.layers.length := by
      rw [hlayers, List.length_append, List.length_cons]
      exact Nat.le_add_left _ _
    refine ⟨⟨layer, LayerNode.enclose within nodes⟩, ?_, hkind⟩
    rw [← hlength, MetadataBuilder.within, List.take_replicate, Nat.min_eq_left hle, hlayers]
    exact LayerNode.nodeAt?_enclose within outer layer nodes

end Sound

/-- **Everything is recorded where it belongs.** In every state that a reader of any source comes to with
a layer open, the current path has one number less than there are open layers. Each beginning of it
denotes a container, of the kind of the layer that is read inside. What was saved with an obligation or a
preceding signature is the beginning that belongs to the layer it was seen in. So a path that is followed,
the current one or a saved one, is in range, whatever was recorded anywhere in the meantime: what is put
there is put where the path leads. -/
theorem MessageReader.positions_of_reaches {r : MessageReader o} (h : Reaches o source r out)
    {f : Frame} {outer : List Frame} (hr : r.frames = f :: outer) :
    r.metadata.position.length = outer.length ∧
      (∀ inner g around, r.frames = inner ++ g :: around → (around = [] ∧ g.kind = .message) ∨
        ∃ node, LayerNode.nodeAt? (r.metadata.position.take around.length) r.metadata.roots =
          some node ∧ node.layer.kind? = some g.kind) ∧
      Apportioned o source r.metadata.position r.frames r.correlation.pending
        r.correlation.preceding ∧
      (∀ x ∈ r.correlation.pending, x.position <+: r.metadata.position) ∧
      (∀ x ∈ r.correlation.preceding, x.position <+: r.metadata.position) ∧
      ∀ path recorded, path <+: r.metadata.position → ∃ children,
        LayerNode.childrenAt? path (r.metadata.recordInTurn recorded).roots = some children ∧
          LayerNode.childrenAt path (r.metadata.recordInTurn recorded).roots = children ∧
          ∀ layer, LayerNode.childrenAt? path ((r.metadata.recordInTurn recorded).recordAt path layer).roots =
            some (children ++ [.leaf layer]) := by
  have hsound := h.sound (by simp [hr])
  have happortioned := hsound.apportioned
  refine ⟨hsound.length_position hr, fun inner g around e => hsound.container e, happortioned,
    happortioned.isPrefix.1, happortioned.isPrefix.2, fun path recorded hpath => ?_⟩
  have hrange := LayerNode.isSome_childrenAt?_of_isPrefix hpath hsound.isSome_childrenAt?
  obtain ⟨children, hchildren⟩ := Option.isSome_iff_exists.mp
    (MetadataBuilder.isSome_childrenAt?_recordInTurn hrange recorded)
  exact ⟨children, hchildren, LayerNode.childrenAt_of_childrenAt? hchildren,
    fun layer => LayerNode.insertAt_of_childrenAt? hchildren (.leaf layer)⟩

/-- Inside the compressed data the path is that of its node, and the announcement in front of it has
saved the empty one. -/
theorem MessageReader.positions_of_doublySignedPackets :
    ∃ r f around, Reaches .keyless (.packets doublySignedPackets) r [] ∧ r.frames = [f, around] ∧
      r.metadata.position = [0] ∧
      (∃ node, LayerNode.nodeAt? [0] r.metadata.roots = some node ∧
        node.layer.kind? = some .compressed) ∧
      r.correlation.pending.map (·.position) = [[]] ∧
      ∃ children, LayerNode.childrenAt? [0] r.metadata.roots = some children := by
  have h : Reaches .keyless (.packets doublySignedPackets) _ _ := .start
  have h := h.step rfl rfl
  have h := h.step rfl rfl
  have h := h.step rfl rfl
  obtain ⟨-, hcontainer, -, -, -, hrange⟩ := positions_of_reaches h rfl
  obtain ⟨hnone, -⟩ | hnode := hcontainer [] _ _ rfl
  · cases hnone
  · obtain ⟨children, hchildren, -⟩ := hrange [0] [] List.prefix_rfl
    exact ⟨_, _, _, h, rfl, rfl, hnode, rfl, children, hchildren⟩

end OpenPGP
