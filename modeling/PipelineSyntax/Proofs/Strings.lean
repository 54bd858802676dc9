import Mathlib.Algebra.BigOperators.Group.Multiset.Basic
import Mathlib.Algebra.Order.Group.Multiset
import Mathlib.Tactic.Abel
import PipelineSyntax.Proofs.Positions
import PipelineSyntax.Proofs.Soundness

/-!
# The strings of what is being read

A state holds the strings that have been read so far, wherever they will stand in the tree: in a
term, in a bracket that is open, or in a command that is complete. They are kept together as a
multiset (`State.strings`), which forgets their order, because a table keeps its elements apart
from its pairs; each string is told by the hint that it would leave.

A token adds to the strings of a state in one of two ways (`Gained`). Mostly it adds none, and then
it leaves the hint alone too; if it is a literal all the same, it has been taken for the `=` of a
pair, and a term is expected next. Or it adds one string, its own, and then the hint is its own
as well. Nothing that has been read is lost when the line ends. There is one lemma for each
function that a step consists of, and `State.step_gains` is the last of them.
-/

namespace PipelineSyntax

/-! ### Strings of trees -/

/-- The string that a node is, told by the hint that it would leave. -/
def Node.string? : Node → Option Hint
  | string pos raw text => some ⟨pos, raw, text⟩
  | _ => none

/-- The strings in the tree of a node. -/
def Node.strings (node : Node) : Multiset Hint :=
  ↑(node.all.filterMap Node.string?)

/-- The strings in the trees of some nodes. -/
def stringsOf (nodes : List Node) : Multiset Hint :=
  (nodes.map Node.strings).sum

/-- The strings in the trees of some pairs. -/
def pairsStrings (pairs : List (Node × Node)) : Multiset Hint :=
  (pairs.map fun pair ↦ pair.1.strings + pair.2.strings).sum

/-- The strings in the tree of a sequence. -/
def Sequence.strings (items : Sequence Node) : Multiset Hint :=
  stringsOf items.nodes

section Trees

variable {nodes : List Node} {pairs : List (Node × Node)}

@[simp]
theorem stringsOf_nil : stringsOf [] = 0 :=
  rfl

@[simp]
theorem stringsOf_cons (node : Node) :
    stringsOf (node :: nodes) = node.strings + stringsOf nodes := by
  simp [stringsOf]

@[simp]
theorem stringsOf_append (front back : List Node) :
    stringsOf (front ++ back) = stringsOf front + stringsOf back := by
  simp [stringsOf]

@[simp]
theorem stringsOf_reverse : stringsOf nodes.reverse = stringsOf nodes := by
  rw [stringsOf, stringsOf, List.map_reverse, List.sum_reverse]

@[simp]
theorem pairsStrings_cons (key value : Node) :
    pairsStrings ((key, value) :: pairs) = key.strings + value.strings + pairsStrings pairs := by
  simp [pairsStrings]

@[simp]
theorem pairsStrings_reverse : pairsStrings pairs.reverse = pairsStrings pairs := by
  rw [pairsStrings, pairsStrings, List.map_reverse, List.sum_reverse]

theorem stringsOf_sides (pairs : List (Node × Node)) :
    stringsOf (pairs.flatMap fun pair ↦ [pair.1, pair.2]) = pairsStrings pairs := by
  induction pairs with
  | nil => rfl
  | cons pair pairs ih =>
    rw [List.flatMap_cons, stringsOf_append, ih, pairsStrings_cons]
    simp

theorem stringsOf_targets_reverse (redirections : List (Redirection Node)) :
    stringsOf (redirections.reverse.flatMap Redirection.targetNodes) =
      stringsOf (redirections.flatMap Redirection.targetNodes) := by
  induction redirections with
  | nil => rfl
  | cons redirection redirections ih => simp [ih, add_comm]

theorem stringsOf_eq (nodes : List Node) :
    stringsOf nodes = ↑((nodes.flatMap Node.all).filterMap Node.string?) := by
  induction nodes with
  | nil => rfl
  | cons node nodes ih =>
    rw [stringsOf_cons, ih, List.flatMap_cons, List.filterMap_append, ← Multiset.coe_add]
    rfl

/-- The strings of a tree are the node itself, if it is one, and those in what it consists of. -/
theorem Node.strings_eq (node : Node) :
    node.strings = ↑node.string?.toList + stringsOf node.children := by
  rw [stringsOf_eq, strings, all_eq_cons, Multiset.coe_add]
  cases hstring : node.string? <;> simp [hstring]

/-- A string of a sequence is a node in its tree. -/
theorem Sequence.mem_strings {items : Sequence Node} {pos : Nat} {raw text : String} :
    ⟨pos, raw, text⟩ ∈ items.strings ↔ .string pos raw text ∈ items.all := by
  rw [strings, stringsOf_eq, Multiset.mem_coe, List.mem_filterMap, all_eq_flatMap]
  constructor
  · rintro ⟨node, hmem, hstring⟩
    cases node with
    | string =>
      cases hstring
      exact hmem
    | list | command | factor | table => cases hstring
  · intro hmem
    exact ⟨_, hmem, rfl⟩

theorem Node.strings_list (items : Sequence Node) : (list items).strings = items.strings := by
  rw [strings_eq]
  exact zero_add _

theorem Node.strings_factor (pos dollars : Nat) (join : Join) (node : Node) :
    (factor pos dollars join node).strings = node.strings := by
  simp [strings_eq (factor _ _ _ _), string?, children]

theorem Node.strings_string (pos : Nat) (raw text : String) :
    (string pos raw text).strings = {⟨pos, raw, text⟩} := by
  rfl

theorem Node.strings_table (pos : Nat) (elements : List Node) (pairs : List (Node × Node)) :
    (table pos elements pairs).strings = stringsOf elements + pairsStrings pairs := by
  simp [strings_eq (table _ _ _), string?, children, stringsOf_sides]

theorem Node.strings_command (pos : Nat) (args : Sequence Node)
    (redirections : List (Redirection Node)) :
    (command pos args redirections).strings =
      args.strings + stringsOf (redirections.flatMap Redirection.targetNodes) := by
  simp [strings_eq (command _ _ _), string?, children, Sequence.strings]

end Trees

namespace Parser

/-! ### What states hold -/

/-- The strings of a term that is being read. -/
def OpenTerm.strings (term : OpenTerm) : Multiset Hint :=
  stringsOf term.factors

/-- The strings of a table that is being read. -/
def OpenTable.strings (table : OpenTable) : Multiset Hint :=
  stringsOf table.elements + pairsStrings table.pairs

/-- The strings in front of the term that is being read. -/
def Contents.strings : Contents → Multiset Hint
  | .group terms => stringsOf terms
  | .table entries none => entries.strings
  | .table entries (some key) => entries.strings + key.strings

/-- The strings of what a bracket will belong to, and those inside of it. -/
def Bracket.strings (bracket : Bracket) : Multiset Hint :=
  bracket.place.term.strings + bracket.contents.strings

/-- The strings of what is being read. -/
def Expect.strings : Expect → Multiset Hint
  | .line | .term | .tail => 0
  | .primary place | .table place => place.term.strings
  | .joined word | .more word _ => word.strings
  | .element place entries => place.term.strings + entries.strings

/-- The strings of a line that is being read. -/
def OpenLine.strings (line : OpenLine) : Multiset Hint :=
  stringsOf line.commands + stringsOf line.args +
    stringsOf (line.redirections.flatMap Redirection.targetNodes)

/-- The strings around what is being read. -/
def stringsAround (line : OpenLine) (stack : List Bracket) : Multiset Hint :=
  line.strings + (stack.map Bracket.strings).sum

/-- The strings that a state holds. -/
def State.strings (state : State) : Multiset Hint :=
  stringsAround state.line state.stack + state.expect.strings

theorem stringsAround_cons (line : OpenLine) (place : Place) (contents : Contents)
    (stack : List Bracket) : stringsAround line (⟨place, contents⟩ :: stack) =
      stringsAround line stack + place.term.strings + contents.strings := by
  simp only [stringsAround, List.map_cons, List.sum_cons, Bracket.strings]
  abel

theorem OpenTerm.strings_sequence (term : OpenTerm) : term.sequence.strings = term.strings :=
  stringsOf_reverse

theorem OpenTerm.strings_close (term : OpenTerm) : term.close.strings = term.strings := by
  rw [close, Node.strings_list, strings_sequence]

theorem OpenTable.strings_close (table : OpenTable) : table.close.strings = table.strings := by
  rw [close, Node.strings_table, stringsOf_reverse, pairsStrings_reverse, strings]

theorem OpenTable.strings_addElement (table : OpenTable) (element : Node) :
    (table.addElement element).strings = table.strings + element.strings := by
  simp only [strings, addElement, stringsOf_cons]
  abel

theorem OpenTable.strings_addPair (table : OpenTable) (key value : Node) :
    (table.addPair key value).strings = table.strings + key.strings + value.strings := by
  simp only [strings, addPair, pairsStrings_cons]
  abel

theorem Place.strings_fill (place : Place) (node : Node) :
    (place.fill node).strings = place.term.strings + node.strings := by
  rw [fill, OpenTerm.strings, stringsOf_cons, Node.strings_factor, add_comm]
  rfl

theorem strings_termList (latest : List Node) : (termList latest).strings = stringsOf latest :=
  stringsOf_reverse

namespace OpenLine

variable (line : OpenLine)

theorem strings_addArg (arg : Node) : (line.addArg arg).strings = line.strings + arg.strings := by
  simp only [strings, addArg, stringsOf_cons]
  abel

theorem strings_redirect (redirection : Redirection Node) :
    (line.redirect redirection).strings =
      line.strings + stringsOf redirection.targetNodes := by
  simp only [strings, redirect, List.flatMap_cons, stringsOf_append]
  abel

theorem strings_endCommand : line.endCommand.strings = line.strings := by
  simp only [strings, endCommand, stringsOf_cons, Node.strings_command, strings_termList,
    stringsOf_targets_reverse, List.flatMap_nil, stringsOf_nil]
  abel

theorem strings_pipeline_endCommand : line.endCommand.pipeline.strings = line.strings := by
  rw [← strings_endCommand, pipeline, Sequence.strings, stringsOf_reverse]
  simp [strings, endCommand]

end OpenLine

/-! ### What tokens add -/

/-- What a token makes of the strings that were held in front of it, and of the hint. -/
inductive Gained (token : Token) (strings : Multiset Hint) (hint : Option Hint) : State → Prop
  /-- It adds no string. -/
  | nothing {state : State} (hstrings : state.strings = strings) (hhint : state.hint = hint)
      (hliteral : token.kind.isLiteral = true → state.expect = .term) :
      Gained token strings hint state
  /-- It adds its own string and leaves its own hint. -/
  | string {state : State} {text : String} {term : OpenTerm} (hkind : token.kind.isLiteral = true)
      (htext : token.decode = .ok text)
      (hstrings : state.strings = strings + {⟨token.offset, token.text, text⟩})
      (hhint : state.hint = hintOf token text) (hexpect : state.expect = .more term false) :
      Gained token strings hint state

/-- A token that is no literal adds no string. -/
theorem Gained.of_kind {token : Token} {kind : Token.Kind} {strings : Multiset Hint}
    {hint : Option Hint} {state : State} (hkind : token.kind = kind)
    (hliteral : kind.isLiteral = false) (hstrings : state.strings = strings)
    (hhint : state.hint = hint) : Gained token strings hint state := by
  refine .nothing hstrings hhint fun hliteral' ↦ ?_
  rw [hkind, hliteral] at hliteral'
  cases hliteral'

/-- How reading a token may come out with regard to strings. -/
def Gains (token : Token) (strings : Multiset Hint) (hint : Option Hint) :
    Except Abort Progress → Prop
  | .error _ => True
  | .ok (.more state) => Gained token strings hint state
  | .ok (.done parsed) => parsed.root.strings = strings ∧ parsed.hint = hint

namespace State

variable {limit : Nat} {line : OpenLine} {stack : List Bracket} {expect : Expect}
  {hint : Option Hint} {place : Place} {term : OpenTerm} {token : Token} {strings : Multiset Hint}

theorem readPrimary_gains (h : stringsAround line stack + place.term.strings = strings) :
    Gains token strings hint
      ((readPrimary limit ⟨line, stack, expect, hint⟩ place token).map .more) := by
  rw [readPrimary]
  split
  case h_1 hkind => exact .of_kind hkind rfl h rfl
  case h_2 hkind | h_3 hkind | h_4 hkind =>
    cases htext : token.decode with
    | error fault => trivial
    | ok text =>
      refine .string (by rw [hkind]; rfl) htext ?_ rfl rfl
      show stringsAround line stack + (place.fill _).strings = _
      rw [Place.strings_fill, Node.strings_string, ← add_assoc, h]
  case h_5 hkind =>
    rw [enter]
    split
    · refine .of_kind hkind rfl ?_ rfl
      show stringsAround line (⟨place, .group []⟩ :: stack) + 0 = strings
      rw [stringsAround_cons, Contents.strings, stringsOf_nil, add_zero, add_zero, h]
    · trivial
  case h_6 hkind =>
    rw [enter]
    split
    · exact .of_kind hkind rfl h rfl
    · trivial
  case h_7 => trivial

theorem readTerm_gains (h : stringsAround line stack = strings) :
    Gains token strings hint
      ((readTerm limit ⟨line, stack, expect, hint⟩ token).map .more) :=
  readPrimary_gains (by rw [← h]; exact add_zero _)

theorem readElement_gains {table : OpenTable}
    (h : stringsAround line stack + (place.term.strings + table.strings) = strings) :
    Gains token strings hint
      ((readElement limit ⟨line, stack, expect, hint⟩ place table token).map .more) := by
  rw [readElement]
  split
  · refine readTerm_gains ?_
    rw [stringsAround_cons, Contents.strings, add_assoc, h]
  · split
    case h_1 hkind => exact .of_kind hkind rfl h rfl
    case h_2 hkind =>
      refine .of_kind hkind rfl ?_ rfl
      show stringsAround line stack + (place.fill table.close).strings = strings
      rw [Place.strings_fill, OpenTable.strings_close, h]
    case h_3 => trivial

theorem readTail_gains (h : line.strings = strings) :
    Gains token strings hint (readTail ⟨line, [], expect, hint⟩ token) := by
  have haround (line' : OpenLine) : stringsAround line' [] = line'.strings := add_zero _
  rw [readTail]
  split
  case h_1 hkind =>
    rcases Leader.ofToken token with abort | ⟨fd, mode⟩ | ⟨fd, old⟩ | fd
    · trivial
    · refine .of_kind hkind rfl ?_ rfl
      show stringsAround { line with target := some (fd, mode) } [] + 0 = strings
      rw [add_zero, haround, ← h]
      rfl
    all_goals
      refine .of_kind hkind rfl ?_ rfl
      show stringsAround (line.redirect _) [] + 0 = strings
      rw [add_zero, haround, OpenLine.strings_redirect, h]
      exact add_zero _
  case h_2 hkind =>
    refine .of_kind hkind rfl ?_ rfl
    show stringsAround line.endCommand [] + 0 = strings
    rw [add_zero, haround, OpenLine.strings_endCommand, h]
  case h_3 hkind | h_4 hkind => exact ⟨by rw [OpenLine.strings_pipeline_endCommand, h], rfl⟩
  case h_5 => trivial

/-- A term outside of brackets has ended: it is a target or an argument. -/
theorem endLineTerm_gains (h : line.strings + term.strings = strings) :
    Gains token strings hint (endLineTerm limit ⟨line, [], expect, hint⟩ term token) := by
  rw [endLineTerm]
  split
  · refine readTail_gains ?_
    rw [OpenLine.strings_redirect, ← h, ← OpenTerm.strings_sequence]
    rfl
  · have harg : (line.addArg term.close).strings = strings := by
      rw [OpenLine.strings_addArg, OpenTerm.strings_close, h]
    dsimp only
    split
    · exact readTerm_gains (by rw [← harg]; exact add_zero _)
    · exact readTail_gains harg

theorem endTerm_gains (h : stringsAround line stack + term.strings = strings) :
    Gains token strings hint (endTerm limit ⟨line, stack, expect, hint⟩ term token) := by
  have hclose := term.strings_close
  -- a term stands outside of brackets, in a group, at the key of an entry, or at its value
  rcases stack with _ | ⟨⟨place, terms | ⟨table, _ | key⟩⟩, stack⟩
  · refine endLineTerm_gains ?_
    rwa [stringsAround, List.map_nil, List.sum_nil, add_zero] at h
  · rw [stringsAround_cons, Contents.strings] at h
    have hterms : stringsAround line stack + place.term.strings +
        stringsOf (term.close :: terms) = strings := by
      rw [stringsOf_cons, hclose, ← h]
      abel
    show Gains _ _ _
      (if token.kind.startsFactor then _ else if token.kind = .rightParen then _ else _)
    split
    · refine readTerm_gains ?_
      rwa [stringsAround_cons]
    · split
      · rename_i hkind
        refine .of_kind hkind rfl ?_ rfl
        show stringsAround line stack +
          (place.fill (.list (termList (term.close :: terms)))).strings = strings
        rw [Place.strings_fill, Node.strings_list, strings_termList, ← add_assoc, hterms]
      · trivial
  · rw [stringsAround_cons, Contents.strings] at h
    show Gains _ _ _ (if token.isEquals then _ else _)
    split
    · refine .nothing ?_ rfl fun _ ↦ rfl
      show stringsAround line (⟨place, .table table (some term.close)⟩ :: stack) + 0 = strings
      rw [stringsAround_cons, Contents.strings, hclose, ← h]
      abel
    · refine readElement_gains ?_
      rw [OpenTable.strings_addElement, hclose, ← h]
      abel
  · rw [stringsAround_cons, Contents.strings] at h
    refine readElement_gains ?_
    rw [OpenTable.strings_addPair, hclose, ← h]
    abel

theorem readMore_gains {blank : Bool} (h : stringsAround line stack + term.strings = strings) :
    Gains token strings hint
      (readMore limit ⟨line, stack, expect, hint⟩ term blank token) := by
  rw [readMore]
  split
  · rename_i hkind
    exact .of_kind hkind rfl h rfl
  · split
    · rename_i hkind
      exact .of_kind hkind rfl h rfl
    · split
      · exact readPrimary_gains h
      · exact endTerm_gains h

/-! ### The step -/

/-- Blanks that a state skips add nothing. -/
theorem gains_blank {state : State} (hkind : token.kind = .space) :
    Gains token state.strings state.hint (.ok (.more state)) :=
  .of_kind hkind rfl rfl rfl

/-- Every token adds no string, or its own, and the end of the line loses none. -/
theorem step_gains {tokens : List Token} {state : State} (hstate : state.Holds limit tokens)
    (token : Token) : Gains token state.strings state.hint (state.step limit token) := by
  obtain ⟨line, stack, expect, hint⟩ := state
  cases expect with
  | line =>
    obtain ⟨rfl, hline, -⟩ := hstate
    show Gains _ _ _ (if token.kind = .space then _ else _)
    split
    · rename_i hkind
      exact gains_blank hkind
    · show Gains _ _ _ (if token.kind = .endOfInput then _ else _)
      split
      · rw [hline]
        exact ⟨rfl, rfl⟩
      · exact readTerm_gains (add_zero _).symm
  | term =>
    show Gains _ _ _ (if token.kind = .space then _ else _)
    split
    · rename_i hkind
      exact gains_blank hkind
    · exact readTerm_gains (add_zero _).symm
  | primary place => exact readPrimary_gains rfl
  | joined term =>
    show Gains _ _ _ (if token.kind = .space then _ else _)
    split
    · rename_i hkind
      exact gains_blank hkind
    · exact readPrimary_gains rfl
  | table place => exact readElement_gains (congrArg _ (add_zero _))
  | element place table => exact readElement_gains rfl
  | more term blank => exact readMore_gains rfl
  | tail =>
    obtain ⟨rfl, -⟩ := hstate
    show Gains _ _ _ (if token.kind = .space then _ else _)
    split
    · rename_i hkind
      exact gains_blank hkind
    · exact readTail_gains (by simp [State.strings, stringsAround, Expect.strings])

end State

end Parser

end PipelineSyntax
