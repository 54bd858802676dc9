import PipelineSyntax.Tree.Basic

/-!
# Trees up to their positions

`Node.erase` puts every position of a tree to zero. Two trees are equal in everything but
their positions exactly if they are equal once erased.

`Node.children` and `Node.Under` say which nodes stand in a tree, for properties that are
asked of all of them, and `Node.all` lists them, for what is counted in a tree. Sequences that
are part of a node, such as the arguments of a command, are passed through: only nodes count.
What concerns nodes alone is proved by `Node.childrenInduction`, which passes through them too.
-/

namespace PipelineSyntax

/-! ### Erasing positions -/

mutual

/-- The node with all its positions put to zero. -/
def Node.erase : Node → Node
  | .list items => .list items.erase
  | .command _ args redirections => .command 0 args.erase (eraseRedirections redirections)
  | .factor _ dollars join node => .factor 0 dollars join node.erase
  | .string _ raw text => .string 0 raw text
  | .table _ elements pairs => .table 0 (eraseNodes elements) (erasePairs pairs)
termination_by structural node => node

/-- The sequence with all its positions put to zero. -/
def Sequence.erase : Sequence Node → Sequence Node
  | ⟨_, kind, nodes⟩ => ⟨0, kind, eraseNodes nodes⟩

/-- The nodes with all their positions put to zero. -/
def eraseNodes : List Node → List Node
  | [] => []
  | node :: nodes => node.erase :: eraseNodes nodes

/-- The pairs with all their positions put to zero. -/
def erasePairs : List (Node × Node) → List (Node × Node)
  | [] => []
  | (key, value) :: pairs => (key.erase, value.erase) :: erasePairs pairs

/-- The redirection with all its positions put to zero. -/
def Redirection.erase : Redirection Node → Redirection Node
  | .file fd mode target => .file fd mode target.erase
  | .duplicate fd old => .duplicate fd old
  | .close fd => .close fd

/-- The redirections with all their positions put to zero. -/
def eraseRedirections : List (Redirection Node) → List (Redirection Node)
  | [] => []
  | redirection :: redirections => redirection.erase :: eraseRedirections redirections

end

theorem eraseNodes_eq_map (nodes : List Node) : eraseNodes nodes = nodes.map Node.erase := by
  induction nodes with
  | nil => rfl
  | cons node nodes ih => rw [eraseNodes, ih, List.map_cons]

theorem erasePairs_eq_map (pairs : List (Node × Node)) :
    erasePairs pairs = pairs.map fun pair ↦ (pair.1.erase, pair.2.erase) := by
  induction pairs with
  | nil => rfl
  | cons pair pairs ih => rw [erasePairs, ih, List.map_cons]

theorem eraseRedirections_eq_map (redirections : List (Redirection Node)) :
    eraseRedirections redirections = redirections.map Redirection.erase := by
  induction redirections with
  | nil => rfl
  | cons redirection redirections ih => rw [eraseRedirections, ih, List.map_cons]

theorem Sequence.erase_mk (pos : Nat) (kind : SequenceKind) (nodes : List Node) :
    Sequence.erase ⟨pos, kind, nodes⟩ = ⟨0, kind, nodes.map Node.erase⟩ := by
  rw [Sequence.erase, eraseNodes_eq_map]

/-! ### Nodes in a tree -/

/-- The nodes of the target of a redirection, if it has one. -/
def Redirection.targetNodes {α : Type} : Redirection α → List α
  | file _ _ target => target.nodes
  | _ => []

/-- The nodes of which a node consists. -/
def Node.children : Node → List Node
  | list items => items.nodes
  | command _ args redirections => args.nodes ++ redirections.flatMap Redirection.targetNodes
  | factor _ _ _ node => [node]
  | string .. => []
  | table _ elements pairs => elements ++ pairs.flatMap fun pair ↦ [pair.1, pair.2]

/-- The node stands in the tree of the other one, or is that tree. -/
inductive Node.Under (node : Node) : Node → Prop
  | refl : Under node node
  | child {parent child : Node} (hmem : child ∈ parent.children) (h : Under node child) :
      Under node parent

/-! ### Induction over nodes -/

section Induction

variable {motive : Node → Prop}

mutual

/-- What passes from the nodes of which a node consists to the node itself holds of all nodes. -/
@[elab_as_elim]
theorem Node.childrenInduction
    (step : ∀ node : Node, (∀ child ∈ node.children, motive child) → motive node) (node : Node) :
    motive node := by
  match node with
  | .list items => exact step _ (items.forall_nodes step)
  | .command _ args redirections =>
    exact step _
      (List.forall_mem_append.2 ⟨args.forall_nodes step, forall_targets step redirections⟩)
  | .factor _ _ _ node => exact step _ (List.forall_mem_singleton.2 (node.childrenInduction step))
  | .string .. => exact step _ fun _ hmem ↦ absurd hmem List.not_mem_nil
  | .table _ elements pairs =>
    exact step _ (List.forall_mem_append.2 ⟨forall_elements step elements, forall_sides step pairs⟩)

theorem Sequence.forall_nodes
    (step : ∀ node : Node, (∀ child ∈ node.children, motive child) → motive node)
    (items : Sequence Node) : ∀ child ∈ items.nodes, motive child := by
  match items with
  | ⟨_, _, nodes⟩ => exact forall_elements step nodes

theorem forall_elements
    (step : ∀ node : Node, (∀ child ∈ node.children, motive child) → motive node)
    (nodes : List Node) : ∀ child ∈ nodes, motive child := by
  match nodes with
  | [] => exact fun _ hmem ↦ absurd hmem List.not_mem_nil
  | node :: nodes =>
    exact List.forall_mem_cons.2 ⟨node.childrenInduction step, forall_elements step nodes⟩

theorem forall_sides
    (step : ∀ node : Node, (∀ child ∈ node.children, motive child) → motive node)
    (pairs : List (Node × Node)) :
    ∀ child ∈ pairs.flatMap fun pair ↦ [pair.1, pair.2], motive child := by
  match pairs with
  | [] => exact fun _ hmem ↦ absurd hmem List.not_mem_nil
  | (key, value) :: pairs =>
    exact List.forall_mem_cons.2 ⟨key.childrenInduction step,
      List.forall_mem_cons.2 ⟨value.childrenInduction step, forall_sides step pairs⟩⟩

theorem Redirection.forall_targetNodes
    (step : ∀ node : Node, (∀ child ∈ node.children, motive child) → motive node)
    (redirection : Redirection Node) : ∀ child ∈ redirection.targetNodes, motive child := by
  match redirection with
  | .file _ _ target => exact target.forall_nodes step
  | .duplicate .. => exact fun _ hmem ↦ absurd hmem List.not_mem_nil
  | .close _ => exact fun _ hmem ↦ absurd hmem List.not_mem_nil

theorem forall_targets
    (step : ∀ node : Node, (∀ child ∈ node.children, motive child) → motive node)
    (redirections : List (Redirection Node)) :
    ∀ child ∈ redirections.flatMap Redirection.targetNodes, motive child := by
  match redirections with
  | [] => exact fun _ hmem ↦ absurd hmem List.not_mem_nil
  | redirection :: redirections =>
    exact List.forall_mem_append.2 ⟨redirection.forall_targetNodes step,
      forall_targets step redirections⟩

end

end Induction

/-! ### All nodes of a tree -/

mutual

/-- The node and all the nodes that stand in it, at any depth. -/
def Node.all : Node → List Node
  | .list items => .list items :: items.all
  | .command pos args redirections =>
    .command pos args redirections :: (args.all ++ allOfRedirections redirections)
  | .factor pos dollars join node => .factor pos dollars join node :: node.all
  | .string pos raw text => [.string pos raw text]
  | .table pos elements pairs =>
    .table pos elements pairs :: (allOfNodes elements ++ allOfPairs pairs)
termination_by structural node => node

/-- All the nodes that stand in a sequence. -/
def Sequence.all : Sequence Node → List Node
  | ⟨_, _, nodes⟩ => allOfNodes nodes

/-- Some nodes and all the nodes that stand in them. -/
def allOfNodes : List Node → List Node
  | [] => []
  | node :: nodes => node.all ++ allOfNodes nodes

/-- All the nodes that stand in pairs. -/
def allOfPairs : List (Node × Node) → List Node
  | [] => []
  | (key, value) :: pairs => key.all ++ (value.all ++ allOfPairs pairs)

/-- All the nodes that stand in a redirection, which are those of its target. -/
def Redirection.all : Redirection Node → List Node
  | .file _ _ target => target.all
  | .duplicate _ _ => []
  | .close _ => []

/-- All the nodes that stand in redirections. -/
def allOfRedirections : List (Redirection Node) → List Node
  | [] => []
  | redirection :: redirections => redirection.all ++ allOfRedirections redirections

end

theorem allOfNodes_eq_flatMap (nodes : List Node) : allOfNodes nodes = nodes.flatMap Node.all := by
  induction nodes with
  | nil => rfl
  | cons node nodes ih => rw [allOfNodes, ih, List.flatMap_cons]

theorem allOfPairs_eq_flatMap (pairs : List (Node × Node)) :
    allOfPairs pairs = (pairs.flatMap fun pair ↦ [pair.1, pair.2]).flatMap Node.all := by
  induction pairs with
  | nil => rfl
  | cons pair pairs ih => simp [allOfPairs, ih]

theorem Sequence.all_eq_flatMap (items : Sequence Node) :
    items.all = items.nodes.flatMap Node.all := by
  rw [Sequence.all, allOfNodes_eq_flatMap]

theorem Redirection.all_eq_flatMap (redirection : Redirection Node) :
    redirection.all = redirection.targetNodes.flatMap Node.all := by
  cases redirection with
  | file => exact Sequence.all_eq_flatMap _
  | duplicate | close => rfl

theorem allOfRedirections_eq_flatMap (redirections : List (Redirection Node)) :
    allOfRedirections redirections =
      (redirections.flatMap Redirection.targetNodes).flatMap Node.all := by
  induction redirections with
  | nil => rfl
  | cons redirection redirections ih =>
    rw [allOfRedirections, ih, Redirection.all_eq_flatMap, List.flatMap_cons, List.flatMap_append]

/-- A tree is its node and the trees of which the node consists. -/
theorem Node.all_eq_cons (node : Node) : node.all = node :: node.children.flatMap Node.all := by
  cases node with
  | list items => rw [Node.all, Sequence.all_eq_flatMap, children]
  | command pos args redirections =>
    rw [Node.all, Sequence.all_eq_flatMap, allOfRedirections_eq_flatMap, children,
      List.flatMap_append]
  | factor pos dollars join node => simp [Node.all, children]
  | string pos raw text => rfl
  | table pos elements pairs =>
    rw [Node.all, allOfNodes_eq_flatMap, allOfPairs_eq_flatMap, children, List.flatMap_append]

/-! ### Terms that open with an equals sign -/

/-- Whether a factor is the word `=`, without a dollar in front of it. -/
def Node.isEqualsFactor : Node → Bool
  | factor _ dollars _ (string _ raw _) => dollars = 0 && raw = "="
  | _ => false

/-- Whether the first factor of a term is the word `=`, without a dollar in front of it. -/
def Node.opensWithEquals : Node → Bool
  | list ⟨_, _, first :: _⟩ => first.isEqualsFactor
  | _ => false

@[simp]
theorem Node.isEqualsFactor_erase (node : Node) :
    node.erase.isEqualsFactor = node.isEqualsFactor := by
  rcases node with _ | _ | ⟨pos, dollars, join, inner⟩ | _ | _
  case factor => cases inner <;> rfl
  all_goals rfl

@[simp]
theorem Node.opensWithEquals_erase (node : Node) :
    node.erase.opensWithEquals = node.opensWithEquals := by
  rcases node with ⟨pos, kind, _ | ⟨first, rest⟩⟩ | _ | _ | _ | _
  case list.cons => exact first.isEqualsFactor_erase
  all_goals rfl

end PipelineSyntax
