import OpenPGP.Proofs.LayerTree
/-!
# The walk in recursive order

`LayerNode.walk` keeps the trees that are still to come on a stack: it takes the
first and puts what lies inside in front of the others. Said by recursion, the
order is that of `LayerNode.preorder`: a node, then its children one after the
other. Nodes with the same layer are told apart by their paths of child numbers,
and in this order the paths ascend.

Results:
* `LayerNode.walk_eq_preorders`: the walk is the recursive order, whatever waits on the stack.
* `LayerNode.mem_pathsFrom`, `LayerNode.pairwise_pathsFrom`: the paths of the nodes, each once, ascending.
* `MessageMetadata.layers_preorder`: what metadata lists, and what it finds first.
-/
namespace OpenPGP

namespace LayerNode

/-! ## The recursive order -/

mutual

/-- The layers of a tree: its own, then those inside, child by child. -/
def preorder : LayerNode → List Layer
  | mk layer children => layer :: preorders children

/-- The layers of several trees, one tree after the other. -/
def preorders : List LayerNode → List Layer
  | [] => []
  | node :: nodes => preorder node ++ preorders nodes

end

theorem preorders_append (a b : List LayerNode) :
    preorders (a ++ b) = preorders a ++ preorders b := by
  induction a with
  | nil => rfl
  | cons node a ih => rw [List.cons_append, preorders, ih, preorders, List.append_assoc]

/-- The whole stack of a walk stands for its trees in recursive order. -/
theorem walk_eq_preorders (nodes : List LayerNode) : walk nodes = preorders nodes := by
  fun_induction walk nodes with
  | case1 => rfl
  | case2 layer children rest ih => rw [ih, preorders_append, preorders, preorder, List.cons_append]

mutual

theorem length_preorder : ∀ node : LayerNode, node.preorder.length = node.size
  | mk layer children => by
    rw [preorder, List.length_cons, length_preorders children, size, Nat.add_comm]

theorem length_preorders : ∀ nodes : List LayerNode, (preorders nodes).length = totalSize nodes
  | [] => rfl
  | node :: nodes => by
    rw [preorders, List.length_append, length_preorder node, length_preorders nodes, totalSize]

end

/-! ## Paths -/

/-- The node at a path of child numbers, if every number on it is that of a child. -/
def descend? : (path : List Nat) → LayerNode → Option LayerNode
  | [], node => some node
  | i :: path, node => node.children[i]?.bind fun child => descend? path child

/-- The node of several trees at a path that begins with the number of the tree. -/
def nodeAt? : (path : List Nat) → List LayerNode → Option LayerNode
  | [], _ => none
  | i :: path, nodes => nodes[i]?.bind fun node => node.descend? path

mutual

/-- The paths of the nodes of a tree, in recursive order. -/
def paths : LayerNode → List (List Nat)
  | mk _ children => [] :: pathsFrom 0 children

/-- The paths of the nodes of trees that are numbered from `i` on. -/
def pathsFrom (i : Nat) : List LayerNode → List (List Nat)
  | [] => []
  | node :: nodes => (paths node).map (i :: ·) ++ pathsFrom (i + 1) nodes

end

mutual

theorem mem_paths : ∀ (node : LayerNode) (path : List Nat),
    path ∈ node.paths ↔ (node.descend? path).isSome
  | mk layer nodes, [] => by simp [paths, descend?]
  | mk layer nodes, i :: path => by
    have hinside := mem_pathsFrom 0 nodes (i :: path)
    simpa [paths, descend?, children, Option.isSome_bind, Option.any_eq_true] using hinside

theorem mem_pathsFrom : ∀ (i : Nat) (nodes : List LayerNode) (path : List Nat),
    path ∈ pathsFrom i nodes ↔ ∃ j rest node, path = (i + j) :: rest ∧ nodes[j]? = some node ∧
      (node.descend? rest).isSome
  | i, [], path => by simp [pathsFrom]
  | i, first :: nodes, path => by
    rw [pathsFrom, List.mem_append, List.mem_map, mem_pathsFrom (i + 1) nodes]
    constructor
    · rintro (⟨rest, hrest, rfl⟩ | ⟨j, rest, node, rfl, hnode, hrest⟩)
      · exact ⟨0, rest, first, rfl, rfl, (mem_paths first rest).mp hrest⟩
      · exact ⟨j + 1, rest, node, by rw [Nat.add_right_comm, Nat.add_assoc], hnode, hrest⟩
    · rintro ⟨j, rest, node, rfl, hnode, hrest⟩
      cases j with
      | zero =>
        obtain rfl : first = node := Option.some.inj hnode
        exact .inl ⟨rest, (mem_paths first rest).mpr hrest, rfl⟩
      | succ j => exact .inr ⟨j, rest, node, by rw [Nat.add_right_comm, Nat.add_assoc], hnode, hrest⟩

end

mutual

theorem pairwise_paths : ∀ node : LayerNode, node.paths.Pairwise (· < ·)
  | mk layer nodes => by
    refine List.pairwise_cons.mpr ⟨fun path hpath => ?_, pairwise_pathsFrom 0 nodes⟩
    obtain ⟨j, rest, -, rfl, -⟩ := (mem_pathsFrom _ _ _).mp hpath
    exact List.nil_lt_cons ..

/-- In recursive order the paths ascend, so that none comes twice. -/
theorem pairwise_pathsFrom : ∀ (i : Nat) (nodes : List LayerNode),
    (pathsFrom i nodes).Pairwise (· < ·)
  | i, [] => .nil
  | i, node :: nodes => by
    rw [pathsFrom, List.pairwise_append, List.pairwise_map]
    refine ⟨(pairwise_paths node).imp fun h => List.cons_lt_cons_self.mpr h,
      pairwise_pathsFrom (i + 1) nodes, fun a ha b hb => ?_⟩
    -- the trees behind have greater numbers
    obtain ⟨path, -, rfl⟩ := List.mem_map.mp ha
    obtain ⟨j, rest, -, rfl, -⟩ := (mem_pathsFrom _ _ _).mp hb
    exact List.cons_lt_cons_iff.mpr (.inl (by omega))

end

mutual

theorem map_paths : ∀ node : LayerNode,
    (node.paths.map fun path => (node.descend? path).map layer) = node.preorder.map some
  | mk own nodes => by
    have hinside := map_pathsFrom [] nodes
    rw [paths, preorder, List.map_cons, List.map_cons, ← hinside]
    refine congrArg _ (List.map_congr_left fun path hpath => ?_)
    obtain ⟨j, rest, -, rfl, -⟩ := (mem_pathsFrom _ _ _).mp hpath
    rfl

/-- The node at each path is the item in its place. -/
theorem map_pathsFrom : ∀ (before nodes : List LayerNode),
    ((pathsFrom before.length nodes).map fun path => (nodeAt? path (before ++ nodes)).map layer) =
      (preorders nodes).map some
  | before, [] => rfl
  | before, node :: nodes => by
    have hbehind := map_pathsFrom (before ++ [node]) nodes
    rw [List.length_append, List.length_singleton, List.append_assoc, List.singleton_append] at hbehind
    rw [pathsFrom, preorders, List.map_append, List.map_append, hbehind, ← map_paths node, List.map_map]
    refine congrArg (· ++ _) (List.map_congr_left fun path _ => ?_)
    simp [nodeAt?]

end

end LayerNode

/-! ## What metadata lists -/

namespace MessageMetadata

theorem findSome?_layers_eq_some_iff {β : Type} {select : Layer → Option β} {kind : β → Layer}
    (h : ∀ layer b, select layer = some b ↔ layer = kind b) (m : MessageMetadata) (b : β) :
    m.layers.findSome? select = some b ↔ ∃ before after,
      LayerNode.preorders m.roots = before ++ kind b :: after ∧ ∀ l ∈ before, select l = none := by
  rw [layers, LayerNode.walk_eq_preorders, List.findSome?_eq_some_iff]
  constructor
  · rintro ⟨before, layer, after, hlayers, hlayer, hbefore⟩
    exact ⟨before, after, (h layer b).mp hlayer ▸ hlayers, hbefore⟩
  · rintro ⟨before, after, hlayers, hbefore⟩
    exact ⟨before, kind b, after, hlayers, (h _ b).mpr rfl, hbefore⟩

/-- **Metadata lists its tree in recursive order**, whatever the tree: every node once, by its path, and
as many items as there are nodes. The signatures are those on the way; they are the verified ones and the
rejected ones and no others. The encryption and the literal data are the first on the way. -/
theorem layers_preorder (m : MessageMetadata) :
    m.layers = LayerNode.preorders m.roots ∧
    (∃ paths : List (List Nat), paths.Pairwise (· < ·) ∧
      (∀ path, path ∈ paths ↔ (LayerNode.nodeAt? path m.roots).isSome) ∧
      m.layers.map some = paths.map fun path => (LayerNode.nodeAt? path m.roots).map LayerNode.layer) ∧
    m.layers.length = LayerNode.totalSize m.roots ∧
    m.signatures = (LayerNode.preorders m.roots).filterMap Layer.signature? ∧
    (m.verifiedSignatures.Sublist m.signatures ∧ (∀ s ∈ m.verifiedSignatures, s.verified = true) ∧
      m.rejectedSignatures.Sublist m.signatures ∧ (∀ s ∈ m.rejectedSignatures, s.verified = false) ∧
      (m.verifiedSignatures ++ m.rejectedSignatures).Perm m.signatures) ∧
    (∀ e, m.encryption? = some e ↔ ∃ before after,
      LayerNode.preorders m.roots = before ++ .encryption e :: after ∧
        ∀ l ∈ before, l.encryption? = none) ∧
    ∀ info, m.literal? = some info ↔ ∃ before after,
      LayerNode.preorders m.roots = before ++ .literal info :: after ∧ ∀ l ∈ before, l.literal? = none := by
  have hlayers : m.layers = LayerNode.preorders m.roots := LayerNode.walk_eq_preorders m.roots
  refine ⟨hlayers, ⟨LayerNode.pathsFrom 0 m.roots, LayerNode.pairwise_pathsFrom 0 m.roots,
    fun path => ?_, ?_⟩, ?_, ?_, ?_, ?_, ?_⟩
  · rw [LayerNode.mem_pathsFrom]
    cases path with
    | nil => simp [LayerNode.nodeAt?]
    | cons i rest => simp [LayerNode.nodeAt?, Option.isSome_bind, Option.any_eq_true]
  · rw [hlayers]
    exact (LayerNode.map_pathsFrom [] m.roots).symm
  · rw [hlayers, LayerNode.length_preorders]
  · rw [signatures, hlayers]
  · refine ⟨List.filter_sublist, fun s hs => (List.mem_filter.mp hs).2, List.filter_sublist,
      fun s hs => ?_, List.filter_append_perm _ m.signatures⟩
    simpa using (List.mem_filter.mp hs).2
  · exact m.findSome?_layers_eq_some_iff fun layer e => by cases layer <;> simp [Layer.encryption?]
  · exact m.findSome?_layers_eq_some_iff fun layer info => by cases layer <;> simp [Layer.literal?]

end MessageMetadata

end OpenPGP
