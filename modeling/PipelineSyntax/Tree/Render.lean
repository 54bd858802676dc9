import PipelineSyntax.Tree.Basic

/-!
# Rendering trees

The canonical spelling of a tree: one blank wherever blanks are needed, none elsewhere,
and literals as they were spelled. Reading the spelling again is what fixes the choices:

* a redirection names its descriptor only where it is not the direction's own;
* a duplication or a closing is always written with `>`, whose direction plays no part;
* a factor puts parentheses around any list, because a group is the only list that can
  stand there;
* a table writes its elements before its pairs.
-/

namespace PipelineSyntax

/-- What stands between two nodes of a sequence. -/
def SequenceKind.separator : SequenceKind → String
  | pipeline => " | "
  | termList => " "
  | term => ""

/-- What stands between a factor and the one before it. -/
def Join.spelling : Join → String
  | caret => "^"
  | _ => ""

/-- The sigils in front of a factor. -/
def dollarSigns (count : Nat) : String :=
  String.ofList (List.replicate count '$')

/-- The leader that opens a target on a file descriptor. -/
def OpenMode.leader (mode : OpenMode) (fd : Fd) : String :=
  let direction := mode.direction
  if fd = direction.defaultFd then direction.symbol
  else direction.symbol ++ "[" ++ toString fd.toNat ++ "]"

/-- The leader of a redirection: all of it but its target. -/
def Redirection.leader {α : Type} : Redirection α → String
  | file fd mode _ => mode.leader fd
  | duplicate fd old => ">[" ++ toString fd.toNat ++ "=" ++ toString old.toNat ++ "]"
  | close fd => ">[" ++ toString fd.toNat ++ "=]"

mutual

/-- The canonical spelling of a node. -/
def Node.render : Node → String
  | .list items => items.render
  | .command _ args redirections => args.render ++ renderRedirections redirections
  | .factor _ dollars join node =>
    let inner := node.render
    join.spelling ++ dollarSigns dollars ++ if node.isList then "(" ++ inner ++ ")" else inner
  | .string _ raw _ => raw
  | .table _ elements pairs =>
    "[" ++ " ".intercalate (renderNodes elements ++ renderPairs pairs) ++ "]"
termination_by structural node => node

/-- The canonical spelling of a sequence. -/
def Sequence.render : Sequence Node → String
  | ⟨_, kind, nodes⟩ => kind.separator.intercalate (renderNodes nodes)

/-- The canonical spellings of nodes. -/
def renderNodes : List Node → List String
  | [] => []
  | node :: nodes => node.render :: renderNodes nodes

/-- The canonical spellings of a table's pairs. -/
def renderPairs : List (Node × Node) → List String
  | [] => []
  | (key, value) :: pairs => (key.render ++ "=" ++ value.render) :: renderPairs pairs

/-- The canonical spelling of a redirection. -/
def Redirection.render : Redirection Node → String
  | .file fd mode target => mode.leader fd ++ " " ++ target.render
  | .duplicate fd old => (Redirection.duplicate fd old : Redirection Node).leader
  | .close fd => (Redirection.close fd : Redirection Node).leader

/-- The canonical spellings of redirections, each behind a blank. -/
def renderRedirections : List (Redirection Node) → String
  | [] => ""
  | redirection :: redirections =>
    " " ++ redirection.render ++ renderRedirections redirections

end

/-! ### Rendering goes node by node -/

theorem renderNodes_eq_map (nodes : List Node) : renderNodes nodes = nodes.map Node.render := by
  induction nodes with
  | nil => rfl
  | cons node nodes ih => simp [renderNodes, ih]

theorem renderPairs_eq_map (pairs : List (Node × Node)) :
    renderPairs pairs = pairs.map fun pair ↦ pair.1.render ++ "=" ++ pair.2.render := by
  induction pairs with
  | nil => rfl
  | cons pair pairs ih => simp [renderPairs, ih]

end PipelineSyntax
