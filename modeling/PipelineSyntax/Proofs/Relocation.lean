import PipelineSyntax.Proofs.Positions

/-!
# Moving the positions of a tree

`Node.relocate place` puts every position of a tree where `place` says. A tree that is read from
tokens whose offsets are their indices becomes the one that is read from any other tokens when
its positions are moved to their offsets, so all that is left of it besides is what the offsets
cannot touch: a tree that is moved is the same once erased (`Node.erase_relocate`).

`Sequence.positions` lists all the positions of a tree, and moving the tree moves each of them
(`Sequence.positions_relocate`).
-/

namespace PipelineSyntax

/-! ### Moving -/

mutual

/-- The node with all its positions moved. -/
def Node.relocate (place : Nat → Nat) : Node → Node
  | .list items => .list (items.relocate place)
  | .command pos args redirections =>
    .command (place pos) (args.relocate place) (relocateRedirections place redirections)
  | .factor pos dollars join node => .factor (place pos) dollars join (node.relocate place)
  | .string pos raw text => .string (place pos) raw text
  | .table pos elements pairs =>
    .table (place pos) (relocateNodes place elements) (relocatePairs place pairs)
termination_by structural node => node

/-- The sequence with all its positions moved. -/
def Sequence.relocate (place : Nat → Nat) : Sequence Node → Sequence Node
  | ⟨pos, kind, nodes⟩ => ⟨place pos, kind, relocateNodes place nodes⟩

/-- The nodes with all their positions moved. -/
def relocateNodes (place : Nat → Nat) : List Node → List Node
  | [] => []
  | node :: nodes => node.relocate place :: relocateNodes place nodes

/-- The pairs with all their positions moved. -/
def relocatePairs (place : Nat → Nat) : List (Node × Node) → List (Node × Node)
  | [] => []
  | (key, value) :: pairs =>
    (key.relocate place, value.relocate place) :: relocatePairs place pairs

/-- The redirection with all its positions moved. -/
def Redirection.relocate (place : Nat → Nat) : Redirection Node → Redirection Node
  | .file fd mode target => .file fd mode (target.relocate place)
  | .duplicate fd old => .duplicate fd old
  | .close fd => .close fd

/-- The redirections with all their positions moved. -/
def relocateRedirections (place : Nat → Nat) : List (Redirection Node) → List (Redirection Node)
  | [] => []
  | redirection :: redirections =>
    redirection.relocate place :: relocateRedirections place redirections

end

variable (place : Nat → Nat)

theorem relocateNodes_eq_map (nodes : List Node) :
    relocateNodes place nodes = nodes.map (Node.relocate place) := by
  induction nodes with
  | nil => rfl
  | cons node nodes ih => rw [relocateNodes, ih, List.map_cons]

theorem relocatePairs_eq_map (pairs : List (Node × Node)) :
    relocatePairs place pairs =
      pairs.map (Prod.map (Node.relocate place) (Node.relocate place)) := by
  induction pairs with
  | nil => rfl
  | cons pair pairs ih =>
    rw [relocatePairs, ih, List.map_cons]
    rfl

theorem relocateRedirections_eq_map (redirections : List (Redirection Node)) :
    relocateRedirections place redirections =
      redirections.map (Redirection.relocate place) := by
  induction redirections with
  | nil => rfl
  | cons redirection redirections ih => rw [relocateRedirections, ih, List.map_cons]

theorem Sequence.relocate_eq (items : Sequence Node) :
    items.relocate place =
      ⟨place items.pos, items.kind, items.nodes.map (Node.relocate place)⟩ := by
  cases items
  rw [Sequence.relocate, relocateNodes_eq_map]

theorem Node.pos_relocate (node : Node) : (node.relocate place).pos = place node.pos := by
  cases node with
  | list items => rw [Node.relocate, Sequence.relocate_eq]; rfl
  | command | factor | string | table => rfl

theorem Redirection.targetNodes_relocate (redirection : Redirection Node) :
    (redirection.relocate place).targetNodes =
      redirection.targetNodes.map (Node.relocate place) := by
  cases redirection with
  | file fd mode target => rw [Redirection.relocate, Sequence.relocate_eq, targetNodes, targetNodes]
  | duplicate | close => rfl

/-- A node that is moved consists of the nodes of which it consisted, each of them moved. -/
theorem Node.children_relocate (node : Node) :
    (node.relocate place).children = node.children.map (Node.relocate place) := by
  cases node with
  | list items => rw [Node.relocate, Sequence.relocate_eq, children, children]
  | command pos args redirections =>
    simp [Node.relocate, children, relocateRedirections_eq_map, Sequence.relocate_eq,
      List.flatMap_map, List.map_flatMap, Redirection.targetNodes_relocate]
  | factor | string => simp [Node.relocate, children]
  | table pos elements pairs =>
    simp [Node.relocate, children, relocateNodes_eq_map, relocatePairs_eq_map, List.flatMap_map,
      List.map_flatMap]

/-- Moving a tree moves all its nodes. -/
theorem Node.all_relocate (node : Node) :
    (node.relocate place).all = node.all.map (Node.relocate place) := by
  induction node using Node.childrenInduction with
  | step node ih =>
    rw [all_eq_cons, all_eq_cons, children_relocate, List.map_cons, List.flatMap_map,
      List.map_flatMap, List.flatMap_def, List.flatMap_def, List.map_congr_left ih]

/-! ### What does not move -/

theorem Sequence.erase_relocate_of_nodes (items : Sequence Node)
    (h : ∀ node ∈ items.nodes, (node.relocate place).erase = node.erase) :
    (items.relocate place).erase = items.erase := by
  obtain ⟨pos, kind, nodes⟩ := items
  rw [Sequence.relocate_eq, erase_mk, erase_mk, List.map_map]
  exact congrArg _ (List.map_congr_left h)

theorem Redirection.erase_relocate_of_targetNodes (redirection : Redirection Node)
    (h : ∀ node ∈ redirection.targetNodes, (node.relocate place).erase = node.erase) :
    (redirection.relocate place).erase = redirection.erase := by
  cases redirection with
  | file fd mode target =>
    rw [Redirection.relocate, erase, erase, target.erase_relocate_of_nodes place h]
  | duplicate | close => rfl

/-- A tree that is moved is the same once erased. -/
theorem Node.erase_relocate (node : Node) : (node.relocate place).erase = node.erase := by
  induction node using Node.childrenInduction with
  | step node ih =>
    cases node with
    | list items => rw [Node.relocate, erase, erase, items.erase_relocate_of_nodes place ih]
    | command pos args redirections =>
      obtain ⟨hargs, htargets⟩ := List.forall_mem_append.1 ih
      have hredirections : ∀ redirection ∈ redirections,
          (redirection.relocate place).erase = redirection.erase := fun redirection hmem ↦
        redirection.erase_relocate_of_targetNodes place fun node hnode ↦
          htargets node (List.mem_flatMap.2 ⟨redirection, hmem, hnode⟩)
      rw [Node.relocate, erase, erase, args.erase_relocate_of_nodes place hargs,
        relocateRedirections_eq_map, eraseRedirections_eq_map, eraseRedirections_eq_map,
        List.map_map]
      exact congrArg _ (List.map_congr_left hredirections)
    | factor pos dollars join inner =>
      rw [Node.relocate, erase, erase, ih inner List.mem_cons_self]
    | string pos raw text => rfl
    | table pos elements pairs =>
      obtain ⟨helements, hsides⟩ := List.forall_mem_append.1 ih
      have hpairs : ∀ pair ∈ pairs, (pair.1.relocate place).erase = pair.1.erase ∧
          (pair.2.relocate place).erase = pair.2.erase := fun pair hmem ↦
        ⟨hsides _ (List.mem_flatMap.2 ⟨pair, hmem, by simp⟩),
          hsides _ (List.mem_flatMap.2 ⟨pair, hmem, by simp⟩)⟩
      rw [Node.relocate, erase, erase, relocateNodes_eq_map, relocatePairs_eq_map,
        eraseNodes_eq_map, eraseNodes_eq_map, erasePairs_eq_map, erasePairs_eq_map,
        List.map_map, List.map_map]
      refine congr (congrArg _ (List.map_congr_left helements)) (List.map_congr_left ?_)
      exact fun pair hmem ↦ Prod.ext (hpairs pair hmem).1 (hpairs pair hmem).2

theorem Sequence.erase_relocate (items : Sequence Node) :
    (items.relocate place).erase = items.erase :=
  items.erase_relocate_of_nodes place fun node _ ↦ node.erase_relocate place

/-! ### Positions -/

/-- The position of the target of a redirection, if it has one. -/
def Redirection.ownPositions : Redirection Node → List Nat
  | file _ _ target => [target.pos]
  | _ => []

/-- The positions of a node itself. -/
def Node.ownPositions : Node → List Nat
  | list items => [items.pos]
  | command pos args redirections =>
    pos :: args.pos :: redirections.flatMap Redirection.ownPositions
  | factor pos _ _ _ => [pos]
  | string pos _ _ => [pos]
  | table pos _ _ => [pos]

/-- All the positions in the tree of a sequence. -/
def Sequence.positions (items : Sequence Node) : List Nat :=
  items.pos :: items.all.flatMap Node.ownPositions

theorem Redirection.ownPositions_relocate (redirection : Redirection Node) :
    (redirection.relocate place).ownPositions = redirection.ownPositions.map place := by
  cases redirection with
  | file fd mode target => rw [Redirection.relocate, Sequence.relocate_eq]; rfl
  | duplicate | close => rfl

theorem Node.ownPositions_relocate (node : Node) :
    (node.relocate place).ownPositions = node.ownPositions.map place := by
  cases node with
  | list items => rw [Node.relocate, Sequence.relocate_eq]; rfl
  | command pos args redirections =>
    simp [Node.relocate, ownPositions, Sequence.relocate_eq, relocateRedirections_eq_map,
      List.flatMap_map, List.map_flatMap, Redirection.ownPositions_relocate]
  | factor | string | table => rfl

/-- Moving a tree moves each of its positions. -/
theorem Sequence.positions_relocate (items : Sequence Node) :
    (items.relocate place).positions = items.positions.map place := by
  simp [positions, Sequence.all_eq_flatMap, Sequence.relocate_eq, Node.all_relocate,
    List.flatMap_map, List.map_flatMap, List.flatMap_assoc, Node.ownPositions_relocate]

end PipelineSyntax
