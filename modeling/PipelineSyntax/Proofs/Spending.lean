import PipelineSyntax.Proofs.Reading
import PipelineSyntax.Proofs.Spaces

/-!
# No more blanks than the tokens ask for

How many blanks the rendering of what is read has can be bounded by the tokens. `weigh` counts,
token by token, the blanks that a token can ask for: those in a literal, those around a bar or
a leader, and one for each factor that stands behind a blank behind a factor. The rendering has
no more of them (`Reads.spaces_le`), and it has fewer as soon as one is looked across: a factor
behind a blank that is the `=` of a pair begins no term.

The count goes by what a state holds (`State.spaces`): the blanks in the rendering of what has
been read, and those that will separate it from the term that is being read. There is one lemma
for each function that a step consists of.
-/

namespace PipelineSyntax

/-! ### What tokens ask for -/

/-- What a redirection is rendered as in front of its target, with the blank before it. -/
def Leader.front : Leader → String
  | target fd mode => " " ++ mode.leader fd ++ " "
  | duplicate fd old => " " ++ (Redirection.duplicate fd old : Redirection Node).leader
  | close fd => " " ++ (Redirection.close fd : Redirection Node).leader

/-- The blanks that come with a token wherever it stands: those in a literal, those around a
bar, and those around a leader. -/
def Token.spaces (token : Token) : Nat :=
  match token.kind with
  | .bare | .singleQuoted | .doubleQuoted => countSpaces token.text
  | .pipe => 2
  | .leader =>
    match Leader.read token.text with
    | .ok said => countSpaces said.front
    | .error _ => 0
  | _ => 0

/-- What stands in front of a token. -/
inductive Lately where
  /-- The end of a factor. -/
  | factor
  /-- Blanks, and the end of a factor in front of them. -/
  | blank
  /-- Anything else, or nothing. -/
  | other
  deriving DecidableEq

namespace Lately

/-- What stands in front of the next token. -/
def after (lately : Lately) (token : Token) : Lately :=
  match token.kind with
  | .bare | .singleQuoted | .doubleQuoted | .rightParen | .rightBracket => factor
  | .space => if lately = other then other else blank
  | _ => other

/-- The blank that a token asks for if it begins a factor behind a blank. -/
def gap (lately : Lately) (token : Token) : Nat :=
  (decide (lately = blank) && token.kind.startsFactor).toNat

end Lately

/-- The blanks that a row of tokens asks for. -/
def weigh : Lately → List Token → Nat
  | _, [] => 0
  | lately, token :: row => token.spaces + lately.gap token + weigh (lately.after token) row

namespace Parser

/-! ### What states hold -/

/-- The blanks of a term that is being read. -/
def OpenTerm.spaces (term : OpenTerm) : Nat :=
  spread 0 term.factors

/-- The blanks of a table that is being read, with one behind each of its entries. -/
def OpenTable.spaces (table : OpenTable) : Nat :=
  spread 1 table.elements + pairsSpread table.pairs

/-- The blanks in front of the term that is being read. -/
def Contents.spaces : Contents → Nat
  | .group terms => spread 1 terms
  | .table entries none => entries.spaces
  | .table entries (some key) => entries.spaces + key.spaces

/-- The blanks of what a bracket will belong to, and those inside of it. -/
def Bracket.spaces (bracket : Bracket) : Nat :=
  bracket.place.term.spaces + bracket.contents.spaces

/-- The blanks of what is being read. -/
def Expect.spaces : Expect → Nat
  | .line | .term | .tail => 0
  | .primary place | .table place => place.term.spaces
  | .joined word | .more word _ => word.spaces
  | .element place entries => place.term.spaces + entries.spaces

/-- No argument can follow any more. -/
def Expect.isTail : Expect → Bool
  | tail => true
  | _ => false

/-- The blanks of a line that is being read. As long as another argument may follow, each of
them has a blank behind it. -/
def OpenLine.spaces (line : OpenLine) (closed : Bool) : Nat :=
  spread 2 line.commands + (spread 1 line.args - (line.target.isSome || closed).toNat) +
    (line.redirections.map fun redirection ↦ countSpaces redirection.render + 1).sum +
    (line.target.map fun (fd, mode) ↦ countSpaces (Leader.target fd mode).front).getD 0

/-- The blanks around what is being read. -/
def around (line : OpenLine) (stack : List Bracket) (closed : Bool) : Nat :=
  line.spaces closed + (stack.map Bracket.spaces).sum

/-- The blanks in the rendering of what a state holds. -/
def State.spaces (state : State) : Nat :=
  around state.line state.stack state.expect.isTail + state.expect.spaces

/-- Around the inside of a bracket there is what is around the bracket, and what it holds. -/
theorem around_cons (line : OpenLine) (place : Place) (contents : Contents) (stack : List Bracket)
    (closed : Bool) :
    around line (⟨place, contents⟩ :: stack) closed =
      around line stack closed + place.term.spaces + contents.spaces := by
  simp only [around, List.map_cons, List.sum_cons, Bracket.spaces]
  omega

theorem OpenTerm.spaces_close (term : OpenTerm) : term.close.spaces = term.spaces := by
  rw [OpenTerm.close, Node.spaces_list, OpenTerm.sequence, Sequence.spaces_mk, spread_reverse]
  rfl

theorem OpenTerm.spaces_sequence (term : OpenTerm) : term.sequence.spaces = term.spaces :=
  (Node.spaces_list _).symm.trans term.spaces_close

theorem OpenTable.spaces_close (table : OpenTable) : table.close.spaces = table.spaces - 1 := by
  rw [OpenTable.close, Node.spaces_table, spread_reverse, pairsSpread_reverse]
  rfl

theorem OpenTable.spaces_addElement (table : OpenTable) (element : Node) :
    (table.addElement element).spaces = table.spaces + (element.spaces + 1) := by
  simp only [OpenTable.spaces, OpenTable.addElement, spread_cons]
  omega

theorem OpenTable.spaces_addPair (table : OpenTable) (key value : Node) :
    (table.addPair key value).spaces = table.spaces + key.spaces + (value.spaces + 1) := by
  simp only [OpenTable.spaces, OpenTable.addPair, pairsSpread_cons]
  omega

theorem Place.spaces_fill (place : Place) (node : Node) :
    (place.fill node).spaces = place.term.spaces + node.spaces := by
  rw [Place.fill, OpenTerm.spaces, spread_cons, Node.spaces_factor]
  exact Nat.add_comm ..

theorem spaces_termList (latest : List Node) : (termList latest).spaces = spread 1 latest - 1 := by
  rw [termList, Sequence.spaces_mk, spread_reverse]
  rfl

namespace OpenLine

variable {line : OpenLine}

theorem spaces_addArg (h : line.target = none) (arg : Node) :
    (line.addArg arg).spaces false = line.spaces false + (arg.spaces + 1) := by
  simp only [spaces, addArg, h, spread_cons, Option.isSome_none, Bool.false_or, Bool.toNat_false]
  omega

/-- No blank stands behind the last argument. -/
theorem spaces_addArg_closed (h : line.target = none) (arg : Node) :
    (line.addArg arg).spaces true = line.spaces false + arg.spaces := by
  simp only [spaces, addArg, h, spread_cons, Option.isSome_none, Bool.false_or, Bool.toNat_false,
    Bool.toNat_true]
  omega

theorem spaces_target (h : line.target = none) (fd : Fd) (mode : OpenMode) (closed : Bool) :
    spaces { line with target := some (fd, mode) } closed =
      line.spaces true + countSpaces (Leader.target fd mode).front := by
  simp only [spaces, h, Option.isSome_none, Option.isSome_some, Bool.true_or, Bool.or_true,
    Option.map_none, Option.map_some, Option.getD_none, Option.getD_some, Nat.add_zero]

theorem spaces_redirect (h : line.target = none) (redirection : Redirection Node) :
    (line.redirect redirection).spaces true =
      line.spaces true + (countSpaces redirection.render + 1) := by
  simp only [spaces, redirect, h, List.map_cons, List.sum_cons]
  omega

/-- A target stands behind its leader and a blank. -/
theorem spaces_redirect_file {fd : Fd} {mode : OpenMode} (h : line.target = some (fd, mode))
    (target : Sequence Node) (closed : Bool) :
    (line.redirect (.file fd mode target)).spaces true = line.spaces closed + target.spaces := by
  have hfile : countSpaces (Redirection.file fd mode target).render + 1 =
      countSpaces (Leader.target fd mode).front + target.spaces := by
    simp only [Redirection.render, Leader.front, countSpaces_append, Sequence.spaces]
    rw [show countSpaces " " = 1 from rfl]
    omega
  simp only [spaces, redirect, h, List.map_cons, List.sum_cons, hfile, Option.isSome_none,
    Option.isSome_some, Bool.true_or, Bool.or_true, Option.map_none, Option.map_some,
    Option.getD_none, Option.getD_some]
  omega

/-- A command has the blanks between its arguments and those of its redirections. -/
theorem spaces_endCommand (h : line.target = none) :
    line.endCommand.spaces false = line.spaces true + 2 := by
  simp only [spaces, endCommand, h, Node.spaces_command, spaces_termList, spread_cons, spread_nil,
    List.map_reverse, List.sum_reverse, List.map_nil, List.sum_nil, Option.isSome_none,
    Bool.false_or, Bool.toNat_false, Bool.toNat_true]
  omega

/-- The last command has no bar behind it. -/
theorem spaces_pipeline (line : OpenLine) :
    line.pipeline.spaces = spread 2 line.commands - 2 := by
  rw [pipeline, Sequence.spaces_mk, spread_reverse]
  rfl

end OpenLine

/-! ### What steps spend -/

/-- What a state knows of what stands in front of it: whether blanks stand behind a factor,
and that behind a redirection no target is missing. -/
def State.Fits (lately : Lately) : State → Prop
  | ⟨_, _, .more _ blank, _⟩ => lately = if blank then .blank else .factor
  | ⟨line, _, .tail, _⟩ => line.target = none
  | _ => True

/-- What reading a token may come to with so many blanks to spend. -/
def Spends (bound : Nat) (lately : Lately) : Except Abort Progress → Prop
  | .error _ => True
  | .ok (.more state) => state.spaces ≤ bound ∧ state.Fits lately
  | .ok (.done parsed) => parsed.root.spaces ≤ bound

namespace State

variable {limit bound : Nat} {line : OpenLine} {stack : List Bracket} {expect : Expect}
  {hint : Option Hint} {place : Place} {term : OpenTerm} {token : Token} {lately : Lately}

theorem readPrimary_spends
    (h : around line stack false + place.term.spaces + token.spaces ≤ bound) :
    Spends bound (lately.after token)
      ((readPrimary limit ⟨line, stack, expect, hint⟩ place token).map .more) := by
  have hle : around line stack false + place.term.spaces ≤ bound :=
    Nat.le_trans (Nat.le_add_right ..) h
  rw [readPrimary]
  split
  case h_1 hkind => exact ⟨hle, trivial⟩
  case h_2 hkind | h_3 hkind | h_4 hkind =>
    cases token.decode with
    | error fault => trivial
    | ok text =>
      rw [Token.spaces, hkind] at h
      refine ⟨?_, by rw [Lately.after, hkind]; rfl⟩
      rw [State.spaces, Expect.spaces, Place.spaces_fill, Node.spaces_string, ← Nat.add_assoc]
      exact h
  case h_5 hkind =>
    rw [enter]
    split
    · refine ⟨?_, trivial⟩
      show around line (⟨place, .group []⟩ :: stack) false ≤ bound
      rw [around_cons]
      exact hle
    · trivial
  case h_6 hkind =>
    rw [enter]
    split
    · exact ⟨hle, trivial⟩
    · trivial
  case h_7 => trivial

theorem readTerm_spends (h : around line stack false + token.spaces ≤ bound) :
    Spends bound (lately.after token)
      ((readTerm limit ⟨line, stack, expect, hint⟩ token).map .more) :=
  readPrimary_spends h

/-- An element of a table, or its end. Behind its last entry a table has no blank. -/
theorem readElement_spends {table : OpenTable}
    (hfactor : token.kind.startsFactor = true →
      around line stack false + place.term.spaces + table.spaces + token.spaces ≤ bound)
    (hspace : token.kind = .space →
      around line stack false + place.term.spaces + table.spaces ≤ bound)
    (hclose : token.kind = .rightBracket →
      around line stack false + place.term.spaces + (table.spaces - 1) ≤ bound) :
    Spends bound (lately.after token)
      ((readElement limit ⟨line, stack, expect, hint⟩ place table token).map .more) := by
  rw [readElement]
  split
  · rename_i hstarts
    refine readTerm_spends ?_
    rw [around_cons]
    exact hfactor hstarts
  · split
    case h_1 hkind =>
      refine ⟨?_, trivial⟩
      rw [State.spaces, Expect.spaces, ← Nat.add_assoc]
      exact hspace hkind
    case h_2 hkind =>
      refine ⟨?_, by rw [Lately.after, hkind]; rfl⟩
      rw [State.spaces, Expect.spaces, Place.spaces_fill, OpenTable.spaces_close, ← Nat.add_assoc]
      exact hclose hkind
    case h_3 => trivial

theorem readTail_spends (htarget : line.target = none)
    (h : line.spaces true + (stack.map Bracket.spaces).sum + token.spaces ≤ bound) :
    Spends bound (lately.after token) (readTail ⟨line, stack, expect, hint⟩ token) := by
  have hcommand := OpenLine.spaces_endCommand htarget
  rw [readTail]
  split
  case h_1 hkind =>
    cases hread : Leader.read token.text with
    | error cause =>
      rw [Leader.ofToken, hread]
      trivial
    | ok leader =>
      have hspaces : token.spaces = countSpaces leader.front := by
        rw [Token.spaces, hkind]
        simp only [hread]
      rw [Leader.ofToken, hread]
      rcases leader with ⟨fd, mode⟩ | ⟨fd, old⟩ | fd
      · refine ⟨?_, trivial⟩
        show OpenLine.spaces { line with target := some (fd, mode) } false +
          (stack.map Bracket.spaces).sum ≤ bound
        rw [OpenLine.spaces_target htarget]
        omega
      all_goals
        rw [Leader.front, countSpaces_append, show countSpaces " " = 1 from rfl] at hspaces
        refine ⟨?_, rfl⟩
        show (line.redirect _).spaces true + (stack.map Bracket.spaces).sum ≤ bound
        rw [OpenLine.spaces_redirect htarget, Redirection.render]
        omega
  case h_2 hkind =>
    have hspaces : token.spaces = 2 := by rw [Token.spaces, hkind]
    refine ⟨?_, trivial⟩
    show line.endCommand.spaces false + (stack.map Bracket.spaces).sum ≤ bound
    omega
  case h_3 hkind | h_4 hkind =>
    show line.endCommand.pipeline.spaces ≤ bound
    have hle : spread 2 line.endCommand.commands ≤ line.endCommand.spaces false := by
      rw [OpenLine.spaces]
      omega
    rw [OpenLine.spaces_pipeline]
    omega
  case h_5 => trivial

/-- A term outside of brackets has ended. A factor that follows it stands behind a blank. -/
theorem endLineTerm_spends
    (h : line.spaces false + (stack.map Bracket.spaces).sum + term.spaces + token.spaces +
      token.kind.startsFactor.toNat ≤ bound) :
    Spends bound (lately.after token)
      (endLineTerm limit ⟨line, stack, expect, hint⟩ term token) := by
  rw [endLineTerm]
  split
  · rename_i fd mode htarget
    have htarget : line.target = some (fd, mode) := htarget
    have hredirect := OpenLine.spaces_redirect_file htarget term.sequence false
    rw [OpenTerm.spaces_sequence] at hredirect
    refine readTail_spends rfl ?_
    show (line.redirect (.file fd mode term.sequence)).spaces true +
      (stack.map Bracket.spaces).sum + token.spaces ≤ bound
    omega
  · rename_i htarget
    have htarget : line.target = none := htarget
    dsimp only
    split
    · rename_i hstarts
      have harg := OpenLine.spaces_addArg htarget term.close
      rw [OpenTerm.spaces_close] at harg
      rw [hstarts, Bool.toNat_true] at h
      refine readTerm_spends ?_
      rw [around]
      omega
    · have harg := OpenLine.spaces_addArg_closed htarget term.close
      rw [OpenTerm.spaces_close] at harg
      exact readTail_spends htarget (by omega)

/-- A term in a table has ended, and with it an entry. -/
theorem endEntry_spends {table : OpenTable} {held : Nat} (hspace : token.kind ≠ .space)
    (htable : table.spaces = held + (term.close.spaces + 1))
    (h : around line stack false + place.term.spaces + held + term.spaces + token.spaces +
      token.kind.startsFactor.toNat ≤ bound) :
    Spends bound (lately.after token)
      ((readElement limit ⟨line, stack, expect, hint⟩ place table token).map .more) := by
  rw [OpenTerm.spaces_close] at htable
  refine readElement_spends (fun hstarts ↦ ?_) (fun hkind ↦ absurd hkind hspace) fun _ ↦ ?_
  · rw [hstarts, Bool.toNat_true] at h
    omega
  · omega

/-- A term has ended. A factor that follows it stands behind a blank, unless it is the `=`
behind a key. -/
theorem endTerm_spends (hspace : token.kind ≠ .space)
    (h : around line stack false + term.spaces + token.spaces +
      (!(atKey ⟨line, stack, expect, hint⟩ && token.isEquals) && token.kind.startsFactor).toNat ≤
        bound) :
    Spends bound (lately.after token)
      (endTerm limit ⟨line, stack, expect, hint⟩ term token) := by
  have hclose := term.spaces_close
  rcases stack with _ | ⟨⟨place, terms | ⟨table, _ | key⟩⟩, stack⟩
  · exact endLineTerm_spends h
  · simp only [around_cons, Contents.spaces, atKey, Bool.false_and, Bool.not_false,
      Bool.true_and] at h
    show Spends _ _
      (if token.kind.startsFactor then _ else if token.kind = .rightParen then _ else _)
    split
    · rename_i hstarts
      rw [hstarts, Bool.toNat_true] at h
      refine readTerm_spends ?_
      show around line (⟨place, .group (term.close :: terms)⟩ :: stack) false + token.spaces ≤ bound
      rw [around_cons, Contents.spaces, spread_cons]
      omega
    · split
      · rename_i hkind
        refine ⟨?_, by rw [Lately.after, hkind]; rfl⟩
        show around line stack false +
          (place.fill (.list (termList (term.close :: terms)))).spaces ≤ bound
        rw [Place.spaces_fill, Node.spaces_list, spaces_termList, spread_cons]
        omega
      · trivial
  · simp only [around_cons, Contents.spaces, atKey, Bool.true_and] at h
    show Spends _ _ (if token.isEquals then _ else _)
    split
    · refine ⟨?_, trivial⟩
      show around line (⟨place, .table table (some term.close)⟩ :: stack) false ≤ bound
      rw [around_cons, Contents.spaces]
      omega
    · rename_i hequals
      rw [Bool.eq_false_iff.2 hequals, Bool.not_false, Bool.true_and] at h
      exact endEntry_spends hspace (table.spaces_addElement term.close) h
  · simp only [around_cons, Contents.spaces, atKey, Bool.false_and, Bool.not_false,
      Bool.true_and] at h
    exact endEntry_spends hspace (table.spaces_addPair key term.close)
      (by simpa only [Nat.add_assoc] using h)

/-- A token behind a factor asks for a blank if it begins a factor behind a blank, unless it
is the `=` behind a key. -/
theorem readMore_spends {blank : Bool} (hlately : Fits lately ⟨line, stack, .more term blank, hint⟩)
    (h : around line stack false + term.spaces + token.spaces +
      (!(atKey ⟨line, stack, expect, hint⟩ && token.isEquals) && blank &&
        token.kind.startsFactor).toNat ≤ bound) :
    Spends bound (lately.after token)
      (readMore limit ⟨line, stack, expect, hint⟩ term blank token) := by
  have hle : around line stack false + term.spaces + token.spaces ≤ bound :=
    Nat.le_trans (Nat.le_add_right ..) h
  rw [readMore]
  split
  · rename_i hkind
    refine ⟨Nat.le_trans (Nat.le_add_right ..) hle, ?_⟩
    rw [Lately.after, hkind, show lately = _ from hlately]
    cases blank <;> rfl
  · rename_i hspace
    split
    · exact ⟨Nat.le_trans (Nat.le_add_right ..) hle, trivial⟩
    · split
      · exact readPrimary_spends hle
      · rename_i hadjacent
        refine endTerm_spends hspace (Nat.le_trans (Nat.add_le_add_left (Nat.le_of_eq ?_) _) h)
        revert hadjacent
        cases token.kind.startsFactor <;> cases blank <;> simp

/-! ### The step -/

/-- The token makes the `=` of a pair of a factor behind a blank. -/
def looksAcross (state : State) (token : Token) : Bool :=
  match state.expect with
  | .more _ blank => blank && (state.atKey && token.isEquals)
  | _ => false

/-- Behind a factor a blank is looked across, asked for, or not needed. -/
theorem gap_eq {blank : Bool} (hlately : Fits lately ⟨line, stack, .more term blank, hint⟩) :
    lately.gap token = (!(atKey ⟨line, stack, expect, hint⟩ && token.isEquals) && blank &&
      token.kind.startsFactor).toNat +
        (looksAcross ⟨line, stack, .more term blank, hint⟩ token).toNat := by
  have hlately : lately = if blank then .blank else .factor := hlately
  have hstarts (hequals : token.isEquals = true) : token.kind.startsFactor = true := by
    have hkind : token.kind = .bare := Token.kind_of_isEquals hequals
    rw [hkind]
    rfl
  have hkey : atKey ⟨line, stack, .more term blank, hint⟩ = atKey ⟨line, stack, expect, hint⟩ := rfl
  rw [Lately.gap, looksAcross, hkey, hlately]
  cases hequals : token.isEquals
  · cases blank <;> simp
  · rw [hstarts hequals]
    cases blank <;> cases atKey ⟨line, stack, expect, hint⟩ <;> rfl

/-- A step spends what its token asks for, or less by the blank that it looks across. -/
theorem step_spends {state : State} (hlately : state.Fits lately)
    (h : state.spaces + token.spaces + lately.gap token ≤
      bound + (state.looksAcross token).toNat) :
    Spends bound (lately.after token) (state.step limit token) := by
  rcases state with ⟨line, stack, expect, hint⟩
  rcases expect with _ | _ | place | term | place | ⟨place, table⟩ | ⟨term, blank⟩ | _
  case more =>
    have hgap := @gap_eq line stack (.more term blank) hint term token lately blank hlately
    refine readMore_spends hlately ?_
    simp only [State.spaces, Expect.isTail, Expect.spaces] at h
    omega
  all_goals
    have hle := Nat.le_trans (Nat.le_add_right _ _) h
    simp only [State.spaces, Expect.isTail, Expect.spaces, looksAcross, Bool.toNat_false,
      Nat.add_zero] at hle
  case line =>
    show Spends _ _ (if token.kind = .space then _ else if token.kind = .endOfInput then _ else _)
    split
    · exact ⟨Nat.le_trans (Nat.le_add_right _ _) hle, trivial⟩
    · split
      · show line.pipeline.spaces ≤ bound
        rw [OpenLine.spaces_pipeline]
        rw [around, OpenLine.spaces] at hle
        omega
      · exact readTerm_spends hle
  case term =>
    show Spends _ _ (if token.kind = .space then _ else _)
    split
    · exact ⟨Nat.le_trans (Nat.le_add_right _ _) hle, trivial⟩
    · exact readTerm_spends hle
  case primary => exact readPrimary_spends hle
  case joined =>
    show Spends _ _ (if token.kind = .space then _ else _)
    split
    · exact ⟨Nat.le_trans (Nat.le_add_right _ _) hle, trivial⟩
    · exact readPrimary_spends hle
  case table =>
    refine readElement_spends (fun _ ↦ hle) (fun _ ↦ ?_) fun _ ↦ ?_
    all_goals exact Nat.le_trans (Nat.le_add_right _ _) hle
  case element =>
    rw [← Nat.add_assoc] at hle
    refine readElement_spends (fun _ ↦ hle) (fun _ ↦ ?_) fun _ ↦ ?_
    · exact Nat.le_trans (Nat.le_add_right _ _) hle
    · omega
  case tail =>
    show Spends _ _ (if token.kind = .space then _ else _)
    split
    · exact ⟨Nat.le_trans (Nat.le_add_right _ _) hle, hlately⟩
    · rw [around] at hle
      exact readTail_spends hlately hle

/-- A blank that is looked across has been asked for. -/
theorem looksAcross_le_gap {state : State} (hlately : state.Fits lately) :
    (state.looksAcross token).toNat ≤ lately.gap token := by
  rcases state with ⟨line, stack, expect, hint⟩
  cases expect
  case more term blank =>
    rw [@gap_eq line stack (.more term blank) hint term token lately blank hlately]
    exact Nat.le_add_left ..
  all_goals exact Nat.zero_le _

end State

/-! ### What runs spend -/

/-- No blank is looked across: no token of the row makes the `=` of a pair of a factor behind a
blank. -/
def Tight (limit : Nat) (state : State) (row : List Token) : Prop :=
  ∀ front token back next, row = front ++ token :: back → Steps limit state front next →
    next.looksAcross token = false

theorem Tight.cons {limit : Nat} {state : State} {token : Token} {row : List Token}
    (hfirst : state.looksAcross token = false)
    (hrest : ∀ next, state.step limit token = .ok (.more next) → Tight limit next row) :
    Tight limit state (token :: row) := by
  intro front token' back last hrow hsteps
  rcases hsteps with _ | ⟨hstep, hsteps⟩
  · obtain ⟨rfl, -⟩ := List.cons_eq_cons.1 hrow
    exact hfirst
  · rw [List.cons_append] at hrow
    obtain ⟨rfl, hback⟩ := List.cons_eq_cons.1 hrow
    exact hrest _ hstep _ _ _ _ hback hsteps

/-- **A rendering has no more blanks than the tokens ask for**, and as many only if no blank is
looked across. -/
theorem Reads.spaces_le {limit : Nat} {state : State} {lately : Lately} {row : List Token}
    {parsed : Parsed} (h : Reads limit state row (.ok parsed)) (hlately : state.Fits lately) :
    parsed.root.spaces ≤ state.spaces + weigh lately row ∧
      (parsed.root.spaces = state.spaces + weigh lately row → Tight limit state row) := by
  induction row generalizing state lately with
  | nil => exact absurd rfl h.ne_nil
  | cons token row ih =>
    have hgap := @State.looksAcross_le_gap token lately state hlately
    have hspends := @State.step_spends limit
      (state.spaces + token.spaces + lately.gap token - (state.looksAcross token).toNat) token
      lately state hlately (by omega)
    rw [weigh]
    -- a blank that is looked across is one that the rendering does not have
    have htight (hcost : parsed.root.spaces + (state.looksAcross token).toNat ≤
        state.spaces + (token.spaces + lately.gap token + weigh (lately.after token) row))
        (heq : parsed.root.spaces =
          state.spaces + (token.spaces + lately.gap token + weigh (lately.after token) row)) :
        state.looksAcross token = false := by
      cases hacross : state.looksAcross token
      · rfl
      · rw [hacross, Bool.toNat_true] at hcost
        omega
    rcases h with hstep | _ | ⟨hstep, hrest⟩
    · rw [hstep] at hspends
      have hcost := Nat.add_le_of_le_sub (Nat.le_trans hgap (Nat.le_add_left ..)) hspends
      rw [weigh] at htight ⊢
      refine ⟨by omega, fun heq ↦ .cons (htight (by omega) heq) fun next hmore ↦ ?_⟩
      rw [hstep] at hmore
      cases hmore
    · rw [hstep] at hspends
      obtain ⟨hle, hfits⟩ := hspends
      obtain ⟨hrest, hagain⟩ := ih hrest hfits
      refine ⟨by omega, fun heq ↦ .cons (htight (by omega) heq) fun next hmore ↦ ?_⟩
      rw [hstep] at hmore
      cases hmore
      exact hagain (by omega)

end Parser

end PipelineSyntax
