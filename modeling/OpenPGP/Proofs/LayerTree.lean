import Mathlib.Data.List.Induction
import OpenPGP.Metadata
/-!
# The tree of layers while it grows

A reader records into one tree from inside its open containers. At every moment
the way to the innermost one leads through containers that each stand alone: what
stands beside a container is recorded only once it is closed. Recording is stated
here for trees of this form, together with the walk through any tree.

Results:
* `LayerNode.walk_append`, `LayerNode.walk_enclose`: a walk goes through trees one after the other.
* `LayerNode.mem_walk_insertAt`: putting a node somewhere adds it and removes nothing.
* `LayerNode.childrenAt_of_childrenAt?`: a path all of whose numbers are those of children is followed to its end.
* `LayerNode.insertAt_enclose`: recording at the open container changes only what is inside it.
* `MetadataBuilder.record_within`, `MetadataBuilder.close_within`: the builder keeps the form.
-/
namespace OpenPGP

/-! ## Walks -/

namespace LayerNode

theorem walk_append (a b : List LayerNode) : walk (a ++ b) = walk a ++ walk b := by
  fun_induction walk a with
  | case1 => rfl
  | case2 layer children rest ih =>
    rw [List.cons_append, walk, ← List.append_assoc, ih, List.cons_append]

theorem walk_map_leaf {α : Type} (layer : α → Layer) (xs : List α) :
    walk (xs.map fun x => leaf (layer x)) = xs.map layer := by
  induction xs with
  | nil => simp [walk]
  | cons x xs ih => rw [List.map_cons, leaf, walk, List.nil_append, ih, List.map_cons]

/-- A node that is put somewhere stands there besides what was there already. -/
theorem mem_walk_insertAt {layer : Layer} (node : LayerNode) (path : List Nat) (nodes : List LayerNode) :
    layer ∈ walk (insertAt node path nodes) ↔ layer ∈ walk nodes ∨ layer ∈ walk [node] := by
  induction path generalizing nodes with
  | nil => rw [insertAt, walk_append, List.mem_append]
  | cons i path ih =>
    rw [insertAt]
    cases hi : nodes[i]? with
    | none => rw [walk_append, List.mem_append]
    | some inner =>
      obtain ⟨outer, children⟩ := inner
      obtain ⟨hlt, hget⟩ := List.getElem?_eq_some_iff.mp hi
      have hnodes : nodes = nodes.take i ++ ⟨outer, children⟩ :: nodes.drop (i + 1) := by
        rw [← hget, ← List.drop_eq_getElem_cons hlt, List.take_append_drop]
      dsimp only
      rw [List.set_eq_take_append_cons_drop, if_pos hlt]
      nth_rewrite 3 [hnodes]
      simp only [walk_append, walk, List.mem_append, List.mem_cons, ih]
      grind

end LayerNode

/-! ## The tree around the open container -/

namespace LayerNode

/-- Nodes inside containers that each stand alone, innermost first. -/
def enclose : (layers : List Layer) → List LayerNode → List LayerNode
  | [], nodes => nodes
  | layer :: layers, nodes => enclose layers [⟨layer, nodes⟩]

theorem enclose_concat (layers : List Layer) (layer : Layer) (nodes : List LayerNode) :
    enclose (layers ++ [layer]) nodes = [⟨layer, enclose layers nodes⟩] := by
  induction layers generalizing nodes with
  | nil => rfl
  | cons inner layers ih => exact ih [⟨inner, nodes⟩]

/-- The nodes inside the node at a path, if every number on it is that of a child. -/
def childrenAt? : (path : List Nat) → List LayerNode → Option (List LayerNode)
  | [], nodes => some nodes
  | i :: path, nodes => nodes[i]?.bind fun node => childrenAt? path node.children

/-- Such a path does not end early. -/
theorem childrenAt_of_childrenAt? {path : List Nat} {nodes children : List LayerNode}
    (h : childrenAt? path nodes = some children) : childrenAt path nodes = children := by
  induction path generalizing nodes with
  | nil => exact Option.some.inj h
  | cons i path ih =>
    obtain ⟨node, hnode, h⟩ := Option.bind_eq_some_iff.mp h
    simp only [childrenAt, hnode]
    exact ih h

/-- The path through containers that each stand alone leads to what is inside all of them. -/
theorem childrenAt?_enclose (layers : List Layer) (nodes : List LayerNode) :
    childrenAt? (List.replicate layers.length 0) (enclose layers nodes) = some nodes := by
  induction layers using List.reverseRecOn with
  | nil => rfl
  | append_singleton layers layer ih =>
    rw [enclose_concat, List.length_append, List.length_singleton, List.replicate_succ, childrenAt?]
    exact ih

theorem childrenAt_enclose (layers : List Layer) (nodes : List LayerNode) :
    childrenAt (List.replicate layers.length 0) (enclose layers nodes) = nodes :=
  childrenAt_of_childrenAt? (childrenAt?_enclose layers nodes)

theorem walk_enclose (layers : List Layer) (nodes : List LayerNode) :
    walk (enclose layers nodes) = layers.reverse ++ walk nodes := by
  induction layers using List.reverseRecOn with
  | nil => rfl
  | append_singleton layers layer ih =>
    rw [enclose_concat, walk, List.append_nil, ih, List.reverse_append]
    rfl

/-- A node put there stands behind what was inside, and nothing else changes. -/
theorem insertAt_enclose (node : LayerNode) (layers : List Layer) (nodes : List LayerNode) :
    insertAt node (List.replicate layers.length 0) (enclose layers nodes) =
      enclose layers (nodes ++ [node]) := by
  induction layers using List.reverseRecOn with
  | nil => rfl
  | append_singleton layers layer ih =>
    rw [enclose_concat, enclose_concat, List.length_append, List.length_singleton,
      List.replicate_succ, insertAt]
    simp [ih]

end LayerNode

/-- The tree with nodes inside the open containers, innermost first. -/
def MetadataBuilder.within (layers : List Layer) (nodes : List LayerNode) : MetadataBuilder :=
  ⟨LayerNode.enclose layers nodes, List.replicate layers.length 0⟩

namespace MetadataBuilder

variable (layers : List Layer) (nodes : List LayerNode)

theorem recordAt_within (layer : Layer) :
    (within layers nodes).recordAt (List.replicate layers.length 0) layer =
      within layers (nodes ++ [.leaf layer]) := by
  simp only [within, recordAt, LayerNode.insertAt_enclose]

theorem record_within {layer : Layer} (h : layer.isContainer = false) :
    (within layers nodes).record layer = within layers (nodes ++ [.leaf layer]) := by
  simp [within, record, h, LayerNode.insertAt_enclose]

theorem record_container {layer : Layer} (h : layer.isContainer = true) :
    (within layers []).record layer = within (layer :: layers) [] := by
  simp only [within, record, h, if_true, LayerNode.insertAt_enclose, LayerNode.childrenAt_enclose]
  simp [LayerNode.enclose, LayerNode.leaf, List.replicate_succ']

theorem close_within (layer : Layer) :
    (within (layer :: layers) nodes).close = within layers [⟨layer, nodes⟩] := by
  simp [within, close, LayerNode.enclose, List.replicate_succ']

theorem foldl_recordAt_within (recorded : List SignatureVerification) :
    (recorded.map fun s => (List.replicate layers.length 0, s)).foldl
        (fun m x => m.recordAt x.1 (.signature x.2)) (within layers nodes) =
      within layers (nodes ++ recorded.map fun s => .leaf (.signature s)) := by
  induction recorded generalizing nodes with
  | nil => simp
  | cons s recorded ih =>
    rw [List.map_cons, List.foldl_cons, recordAt_within, ih]
    simp

end MetadataBuilder

end OpenPGP
