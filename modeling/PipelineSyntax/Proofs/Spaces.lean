import Mathlib.Algebra.Ring.Nat
import PipelineSyntax.Tree.Render

/-!
# Blanks in renderings

How many blanks the rendering of a tree has: those in its literals, and those that separate its
parts. What is separated is counted with a separator behind each part (`spread`), of which the
last part has none.
-/

namespace PipelineSyntax

/-! ### Blanks in texts -/

/-- How many blanks a text has. -/
def countSpaces (text : String) : Nat :=
  text.toList.count ' '

@[simp]
theorem countSpaces_empty : countSpaces "" = 0 :=
  rfl

@[simp]
theorem countSpaces_append (front back : String) :
    countSpaces (front ++ back) = countSpaces front + countSpaces back := by
  rw [countSpaces, String.toList_append, List.count_append]
  rfl

/-- Each text but the last has a separator behind it. -/
theorem countSpaces_intercalate (separator : String) (texts : List String) :
    countSpaces (separator.intercalate texts) =
      (texts.map fun text ↦ countSpaces text + countSpaces separator).sum -
        countSpaces separator := by
  induction texts with
  | nil => simp
  | cons text texts ih =>
    rcases texts with _ | ⟨next, texts⟩
    · simp
    · simp only [String.intercalate_cons_cons, countSpaces_append, ih, List.map_cons, List.sum_cons]
      omega

/-! ### Blanks in renderings -/

/-- How many blanks the rendering of a node has. -/
def Node.spaces (node : Node) : Nat :=
  countSpaces node.render

/-- How many blanks the rendering of a sequence has. -/
def Sequence.spaces (items : Sequence Node) : Nat :=
  countSpaces items.render

/-- How many blanks nodes have with as many behind each of them. -/
def spread (gap : Nat) (nodes : List Node) : Nat :=
  (nodes.map fun node ↦ node.spaces + gap).sum

/-- How many blanks pairs have with one behind each of them. -/
def pairsSpread (pairs : List (Node × Node)) : Nat :=
  (pairs.map fun pair ↦ pair.1.spaces + pair.2.spaces + 1).sum

@[simp]
theorem spread_nil (gap : Nat) : spread gap [] = 0 :=
  rfl

@[simp]
theorem spread_cons (gap : Nat) (node : Node) (nodes : List Node) :
    spread gap (node :: nodes) = node.spaces + gap + spread gap nodes :=
  List.sum_cons

@[simp]
theorem spread_reverse (gap : Nat) (nodes : List Node) :
    spread gap nodes.reverse = spread gap nodes := by
  rw [spread, List.map_reverse, List.sum_reverse]
  rfl

@[simp]
theorem pairsSpread_cons (pair : Node × Node) (pairs : List (Node × Node)) :
    pairsSpread (pair :: pairs) = pair.1.spaces + pair.2.spaces + 1 + pairsSpread pairs :=
  List.sum_cons

@[simp]
theorem pairsSpread_reverse (pairs : List (Node × Node)) :
    pairsSpread pairs.reverse = pairsSpread pairs := by
  rw [pairsSpread, List.map_reverse, List.sum_reverse]
  rfl

theorem Sequence.spaces_mk (pos : Nat) (kind : SequenceKind) (nodes : List Node) :
    Sequence.spaces ⟨pos, kind, nodes⟩ =
      spread (countSpaces kind.separator) nodes - countSpaces kind.separator := by
  rw [Sequence.spaces, Sequence.render, countSpaces_intercalate, renderNodes_eq_map, List.map_map]
  rfl

@[simp]
theorem Node.spaces_list (items : Sequence Node) : (Node.list items).spaces = items.spaces := by
  rw [Node.spaces, Node.render]
  rfl

theorem countSpaces_spelling (join : Join) : countSpaces join.spelling = 0 := by
  cases join <;> rfl

theorem countSpaces_dollarSigns (count : Nat) : countSpaces (dollarSigns count) = 0 := by
  rw [countSpaces, dollarSigns, String.toList_ofList, List.count_replicate]
  rfl

/-- Neither dollars nor parentheses nor carets are blanks. -/
@[simp]
theorem Node.spaces_factor (pos dollars : Nat) (join : Join) (node : Node) :
    (Node.factor pos dollars join node).spaces = node.spaces := by
  have hparens : countSpaces ("(" ++ node.render ++ ")") = countSpaces node.render := by
    rw [countSpaces_append, countSpaces_append]
    exact Nat.zero_add _
  rw [Node.spaces, Node.render]
  split <;> simp [countSpaces_spelling, countSpaces_dollarSigns, hparens, Node.spaces]

@[simp]
theorem Node.spaces_string (pos : Nat) (raw text : String) :
    (Node.string pos raw text).spaces = countSpaces raw := by
  rw [Node.spaces, Node.render]

theorem Node.spaces_table (pos : Nat) (elements : List Node) (pairs : List (Node × Node)) :
    (Node.table pos elements pairs).spaces = spread 1 elements + pairsSpread pairs - 1 := by
  have hpair (pair : Node × Node) :
      countSpaces (pair.1.render ++ "=" ++ pair.2.render) + 1 =
        pair.1.spaces + pair.2.spaces + 1 := by
    rw [countSpaces_append, countSpaces_append]
    rfl
  have hbrackets (inner : String) :
      countSpaces ("[" ++ inner ++ "]") = countSpaces inner := by
    rw [countSpaces_append, countSpaces_append]
    exact Nat.zero_add _
  rw [Node.spaces, Node.render, hbrackets, countSpaces_intercalate, renderNodes_eq_map,
    renderPairs_eq_map, List.map_append, List.sum_append, List.map_map, List.map_map]
  simp only [Function.comp_def, show countSpaces " " = 1 from rfl, hpair]
  rfl

theorem countSpaces_renderRedirections (redirections : List (Redirection Node)) :
    countSpaces (renderRedirections redirections) =
      (redirections.map fun redirection ↦ countSpaces redirection.render + 1).sum := by
  induction redirections with
  | nil => rfl
  | cons redirection redirections ih =>
    rw [renderRedirections, countSpaces_append, countSpaces_append, ih, List.map_cons,
      List.sum_cons, Nat.add_comm (countSpaces " ")]
    rfl

theorem Node.spaces_command (pos : Nat) (args : Sequence Node)
    (redirections : List (Redirection Node)) :
    (Node.command pos args redirections).spaces = args.spaces +
      (redirections.map fun redirection ↦ countSpaces redirection.render + 1).sum := by
  rw [Node.spaces, Node.render, countSpaces_append, countSpaces_renderRedirections]
  rfl

end PipelineSyntax
