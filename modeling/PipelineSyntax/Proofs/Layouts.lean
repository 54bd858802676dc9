import PipelineSyntax.Proofs.Relocation
import PipelineSyntax.Proofs.Soundness

/-!
# What lies where does not steer

A token is told apart from another one by its kind and its text. Where it begins and whether it
may continue is kept beside them, and no step looks at either.

This is said by moving everything at once. Let tokens be known by numbers in place of offsets; a
`Layout` says where the token of each number begins, and whether more input could lengthen it.
Laying out the state in front of a token and the token itself lays out whatever the step comes
to (`State.step_onto`): there is one lemma for each function that a step consists of.

Two things need care. A command without arguments would begin at no token; a state that is
reached has arguments when a command ends (`State.Holds.args_ne_nil`). And a hint stands only
where a token may continue; so the numbered tokens are all taken to, and the layout drops the
hints that are none.
-/

namespace PipelineSyntax

/-! ### Layouts -/

/-- Where tokens that are known by numbers begin, and which of them more input could lengthen. -/
structure Layout where
  /-- Where the token of a number begins. -/
  offset : Nat → Nat
  /-- Whether more input could lengthen it. -/
  mayContinue : Nat → Bool

/-- The token whose number stands for its offset, laid out. -/
def Token.onto (layout : Layout) (token : Token) : Token where
  kind := token.kind
  text := token.text
  offset := layout.offset token.offset
  mayContinue := layout.mayContinue token.offset

/-- The hint that a literal leaves once it is laid out. -/
def Hint.onto (layout : Layout) (hint : Hint) : Option Hint :=
  if layout.mayContinue hint.offset then
    some ⟨layout.offset hint.offset, hint.raw, hint.text⟩
  else none

/-- An abort, laid out. -/
def Abort.onto (layout : Layout) (abort : Abort) : Abort :=
  ⟨layout.offset abort.offset, abort.cause⟩

/-- A line that has been read, laid out. -/
def Parsed.onto (layout : Layout) (parsed : Parsed) : Parsed :=
  ⟨parsed.root.relocate layout.offset, parsed.hint.bind (Hint.onto layout)⟩

/-- What a computation comes to, laid out. -/
def Layout.outcome {α : Type} (layout : Layout) (lay : α → α) : Except Abort α → Except Abort α
  | .error abort => .error (abort.onto layout)
  | .ok a => .ok (lay a)

@[simp]
theorem Layout.outcome_error {α : Type} (layout : Layout) (lay : α → α) (abort : Abort) :
    layout.outcome lay (.error abort) = .error (abort.onto layout) :=
  rfl

@[simp]
theorem Layout.outcome_ok {α : Type} (layout : Layout) (lay : α → α) (a : α) :
    layout.outcome lay (.ok a) = .ok (lay a) :=
  rfl

section Tokens

variable (layout : Layout) (token : Token)

theorem Token.kind_onto : (token.onto layout).kind = token.kind :=
  rfl

theorem Token.isEquals_onto : (token.onto layout).isEquals = token.isEquals :=
  rfl

theorem Token.decode_onto : (token.onto layout).decode = token.decode :=
  rfl

theorem Leader.ofToken_onto :
    Leader.ofToken (token.onto layout) = layout.outcome id (Leader.ofToken token) := by
  have htext : (token.onto layout).text = token.text := rfl
  rw [ofToken, ofToken, htext]
  cases read token.text <;> rfl

/-- A literal that may continue leaves a hint wherever the layout lets it. -/
theorem Parser.hintOf_onto (h : token.mayContinue = true) (text : String) :
    hintOf (token.onto layout) text = (hintOf token text).bind (Hint.onto layout) := by
  rw [hintOf, hintOf, if_pos h]
  rfl

end Tokens

namespace Parser

variable (layout : Layout)

/-! ### Open pieces -/

/-- An open term, laid out. -/
def OpenTerm.onto (term : OpenTerm) : OpenTerm :=
  ⟨layout.offset term.pos, term.factors.map (Node.relocate layout.offset)⟩

/-- A place, laid out. -/
def Place.onto (place : Place) : Place :=
  ⟨place.term.onto layout, layout.offset place.pos, place.dollars, place.join⟩

/-- An open table, laid out. -/
def OpenTable.onto (table : OpenTable) : OpenTable :=
  ⟨layout.offset table.pos, table.elements.map (Node.relocate layout.offset),
    table.pairs.map (Prod.map (Node.relocate layout.offset) (Node.relocate layout.offset))⟩

/-- What a bracket holds, laid out. -/
def Contents.onto : Contents → Contents
  | .group terms => .group (terms.map (Node.relocate layout.offset))
  | .table inner key => .table (inner.onto layout) (key.map (Node.relocate layout.offset))

/-- An open bracket, laid out. -/
def Bracket.onto (bracket : Bracket) : Bracket :=
  ⟨bracket.place.onto layout, bracket.contents.onto layout⟩

/-- An open line, laid out. -/
def OpenLine.onto (line : OpenLine) : OpenLine :=
  ⟨layout.offset line.pos, line.commands.map (Node.relocate layout.offset),
    line.args.map (Node.relocate layout.offset),
    line.redirections.map (Redirection.relocate layout.offset), line.target⟩

/-- What is to be read next, laid out. -/
def Expect.onto : Expect → Expect
  | .line => .line
  | .term => .term
  | .primary place => .primary (place.onto layout)
  | .joined front => .joined (front.onto layout)
  | .table place => .table (place.onto layout)
  | .element place inner => .element (place.onto layout) (inner.onto layout)
  | .more front blank => .more (front.onto layout) blank
  | .tail => .tail

/-- A state, laid out. -/
def State.onto (state : State) : State :=
  ⟨state.line.onto layout, state.stack.map (Bracket.onto layout), state.expect.onto layout,
    state.hint.bind (Hint.onto layout)⟩

/-- What a token makes of a state, laid out. -/
def Progress.onto : Progress → Progress
  | .more state => .more (state.onto layout)
  | .done parsed => .done (parsed.onto layout)

section Pieces

variable (term : OpenTerm) (place : Place) (table : OpenTable) (line : OpenLine) (node : Node)

theorem OpenTerm.sequence_onto :
    (term.onto layout).sequence = term.sequence.relocate layout.offset := by
  simp [sequence, onto, Sequence.relocate_eq]

theorem OpenTerm.close_onto :
    (term.onto layout).close = term.close.relocate layout.offset := by
  rw [close, close, sequence_onto, Node.relocate]

theorem Place.fill_onto :
    (place.fill node).onto layout = (place.onto layout).fill (node.relocate layout.offset) := by
  simp [fill, onto, OpenTerm.onto, Node.relocate]

theorem OpenTable.close_onto :
    (table.onto layout).close = table.close.relocate layout.offset := by
  simp [close, onto, Node.relocate, relocateNodes_eq_map, relocatePairs_eq_map]

theorem termList_onto {latest : List Node} (h : latest ≠ []) :
    termList (latest.map (Node.relocate layout.offset)) =
      (termList latest).relocate layout.offset := by
  obtain ⟨first, rest, hterms⟩ := List.exists_cons_of_ne_nil (List.reverse_ne_nil_iff.2 h)
  rw [termList, termList, Sequence.relocate_eq, ← List.map_reverse, hterms]
  simp [Node.pos_relocate]

theorem OpenLine.endCommand_onto (h : line.args ≠ []) :
    (line.onto layout).endCommand = line.endCommand.onto layout := by
  simp [endCommand, onto, termList_onto layout h, Node.relocate, Sequence.relocate_eq,
    relocateRedirections_eq_map]

theorem OpenLine.pipeline_onto :
    (line.onto layout).pipeline = line.pipeline.relocate layout.offset := by
  simp [pipeline, onto, Sequence.relocate_eq]

end Pieces

/-! ### Steps -/

theorem Behind.args_ne_nil {depth : Nat} {line : OpenLine} {tokens : List Token}
    (h : Behind depth line tokens) : line.args ≠ [] := by
  obtain ⟨pos, -, -, hargs, -, -⟩ := h
  exact List.reverse_ne_nil_iff.2 hargs.ne_nil

namespace State

variable {limit : Nat} {layout} {state : State} {token : Token}

/-- Going on after a computation that is laid out. -/
theorem map_more_onto {x y : Except Abort State}
    (h : y = layout.outcome (State.onto layout) x) :
    y.map .more = layout.outcome (Progress.onto layout) (x.map .more) := by
  subst h
  cases x <;> rfl

theorem enter_onto (inside : State) :
    (state.onto layout).enter limit (token.onto layout) (inside.onto layout) =
      layout.outcome (State.onto layout) (state.enter limit token inside) := by
  have hlength : (state.onto layout).stack.length = state.stack.length := List.length_map _
  rw [enter, enter, hlength]
  split <;> rfl

theorem readPrimary_onto (place : Place) (h : token.mayContinue = true) :
    (state.onto layout).readPrimary limit (place.onto layout) (token.onto layout) =
      layout.outcome (State.onto layout) (state.readPrimary limit place token) := by
  rw [readPrimary, readPrimary, Token.kind_onto]
  split
  case h_1 | h_7 => rfl
  case h_2 | h_3 | h_4 =>
    rw [Token.decode_onto]
    cases token.decode with
    | error fault => rfl
    | ok text =>
      simp only [hintOf_onto layout token h]
      rfl
  case h_5 =>
    exact enter_onto { state with stack := ⟨place, .group []⟩ :: state.stack, expect := .term }
  case h_6 => exact enter_onto { state with expect := .table place }

theorem readTerm_onto (h : token.mayContinue = true) :
    (state.onto layout).readTerm limit (token.onto layout) =
      layout.outcome (State.onto layout) (state.readTerm limit token) :=
  readPrimary_onto (.start token.offset) h

theorem readElement_onto (place : Place) (table : OpenTable) (h : token.mayContinue = true) :
    (state.onto layout).readElement limit (place.onto layout) (table.onto layout)
        (token.onto layout) =
      layout.outcome (State.onto layout) (state.readElement limit place table token) := by
  rw [readElement, readElement, Token.kind_onto]
  split
  · let inside : State := { state with stack := ⟨place, .table table none⟩ :: state.stack }
    exact @readTerm_onto layout limit inside token h
  · split
    case h_1 | h_3 => rfl
    case h_2 =>
      rw [OpenTable.close_onto, ← Place.fill_onto]
      rfl

theorem readTail_onto (hargs : state.line.args ≠ []) :
    (state.onto layout).readTail (token.onto layout) =
      layout.outcome (Progress.onto layout) (state.readTail token) := by
  have hcommand : (state.onto layout).line.endCommand = state.line.endCommand.onto layout :=
    state.line.endCommand_onto layout hargs
  rw [readTail, readTail, Token.kind_onto]
  split
  case h_1 =>
    rw [Leader.ofToken_onto]
    rcases Leader.ofToken token with abort | ⟨fd, mode⟩ | ⟨fd, old⟩ | fd <;> rfl
  case h_2 =>
    rw [hcommand]
    rfl
  case h_3 | h_4 =>
    rw [hcommand, OpenLine.pipeline_onto]
    rfl
  case h_5 => rfl

/-- A term outside of brackets is the target of a redirection only behind an argument. -/
theorem endLineTerm_onto (term : OpenTerm) (h : token.mayContinue = true)
    (hargs : state.line.target ≠ none → state.line.args ≠ []) :
    (state.onto layout).endLineTerm limit (term.onto layout) (token.onto layout) =
      layout.outcome (Progress.onto layout) (state.endLineTerm limit term token) := by
  have htarget : (state.onto layout).line.target = state.line.target := rfl
  rw [endLineTerm, endLineTerm, htarget, Token.kind_onto]
  split
  case h_1 fd mode hsome =>
    let redirection : Redirection Node := .file fd mode term.sequence
    rw [OpenTerm.sequence_onto]
    exact @readTail_onto layout { state with line := state.line.redirect redirection } token
      (hargs (by simp [hsome]))
  case h_2 =>
    let behind : State := { state with line := state.line.addArg term.close }
    dsimp only
    rw [OpenTerm.close_onto]
    split
    · exact map_more_onto (@readTerm_onto layout limit behind token h)
    · exact @readTail_onto layout behind token (List.cons_ne_nil _ _)

theorem endTerm_onto (term : OpenTerm) (h : token.mayContinue = true)
    (hargs : state.stack = [] → state.line.target ≠ none → state.line.args ≠ []) :
    (state.onto layout).endTerm limit (term.onto layout) (token.onto layout) =
      layout.outcome (Progress.onto layout) (state.endTerm limit term token) := by
  obtain ⟨line, stack, expect, hint⟩ := state
  -- a term stands outside of brackets, in a group, at the key of an entry, or at its value
  rcases stack with _ | ⟨⟨place, terms | ⟨table, _ | key⟩⟩, stack⟩
  · exact endLineTerm_onto term h (hargs rfl)
  · let inside : State := ⟨line, ⟨place, .group (term.close :: terms)⟩ :: stack, expect, hint⟩
    show (if token.kind.startsFactor then _ else _) = layout.outcome _ (if _ then _ else _)
    rw [OpenTerm.close_onto]
    split
    · exact map_more_onto (@readTerm_onto layout limit inside token h)
    · show (if token.kind = .rightParen then _ else _) = layout.outcome _ (if _ then _ else _)
      split
      · have hlist := termList_onto layout (List.cons_ne_nil term.close terms)
        rw [List.map_cons] at hlist
        rw [hlist]
        rfl
      · rfl
  · show (if token.isEquals then _ else _) = layout.outcome _ (if _ then _ else _)
    rw [OpenTerm.close_onto]
    split
    · rfl
    · exact map_more_onto (@readElement_onto layout limit ⟨line, stack, expect, hint⟩ token place
        (table.addElement term.close) h)
  · show (readElement limit _ _ (OpenTable.addPair _ _ (term.onto layout).close) _).map _ = _
    rw [OpenTerm.close_onto]
    exact map_more_onto (@readElement_onto layout limit ⟨line, stack, expect, hint⟩ token place
      (table.addPair key term.close) h)

theorem atKey_onto (state : State) : (state.onto layout).atKey = state.atKey := by
  obtain ⟨line, stack, expect, hint⟩ := state
  rcases stack with _ | ⟨⟨place, terms | ⟨table, _ | key⟩⟩, stack⟩ <;> rfl

theorem readMore_onto (term : OpenTerm) (blank : Bool) (h : token.mayContinue = true)
    (hargs : state.stack = [] → state.line.target ≠ none → state.line.args ≠ []) :
    (state.onto layout).readMore limit (term.onto layout) blank (token.onto layout) =
      layout.outcome (Progress.onto layout) (state.readMore limit term blank token) := by
  rw [readMore, readMore, Token.kind_onto, Token.isEquals_onto, atKey_onto]
  split
  · rfl
  · split
    · rfl
    · split
      · let place : Place := { term, pos := token.offset, join := .adjacent }
        exact map_more_onto (readPrimary_onto place h)
      · exact endTerm_onto term h hargs

/-- Where a command can end, it has an argument. -/
theorem Holds.args_ne_nil {tokens : List Token} {state : State} (h : state.Holds limit tokens) :
    match state.expect with
    | .more _ _ => state.stack = [] → state.line.target ≠ none → state.line.args ≠ []
    | .tail => state.line.args ≠ []
    | _ => True := by
  obtain ⟨line, stack, expect, hint⟩ := state
  cases expect with
  | more term blank =>
    obtain ⟨front, blanks, -, hwithin, -, -⟩ := h
    rintro rfl htarget
    obtain ⟨⟨fd, mode⟩, hsome⟩ := Option.ne_none_iff_exists'.1 htarget
    exact (hwithin.target hsome).args_ne_nil
  | tail => exact h.2.args_ne_nil
  | line | term | primary | joined | table | element => trivial

/-- Laying out a state and a token lays out what the step comes to. -/
theorem step_onto {tokens : List Token} (hstate : state.Holds limit tokens)
    (h : token.mayContinue = true) :
    (state.onto layout).step limit (token.onto layout) =
      layout.outcome (Progress.onto layout) (state.step limit token) := by
  have hargs := hstate.args_ne_nil
  obtain ⟨line, stack, expect, hint⟩ := state
  cases expect with
  | line =>
    show (if token.kind = .space then _ else _) = layout.outcome _ (if _ then _ else _)
    split
    · rfl
    · show (if token.kind = .endOfInput then _ else _) = layout.outcome _ (if _ then _ else _)
      split
      · show Except.ok (Progress.done ⟨(line.onto layout).pipeline, _⟩) = _
        rw [OpenLine.pipeline_onto]
        rfl
      · exact map_more_onto (@readTerm_onto layout limit ⟨line, stack, .line, hint⟩ token h)
  | term =>
    show (if token.kind = .space then _ else _) = layout.outcome _ (if _ then _ else _)
    split
    · rfl
    · exact map_more_onto (@readTerm_onto layout limit ⟨line, stack, .term, hint⟩ token h)
  | primary place => exact map_more_onto (readPrimary_onto place h)
  | joined term =>
    let place : Place := { term, pos := token.offset, join := .caret }
    show (if token.kind = .space then _ else _) = layout.outcome _ (if _ then _ else _)
    split
    · rfl
    · exact map_more_onto (readPrimary_onto place h)
  | table place => exact map_more_onto (readElement_onto place { pos := token.offset } h)
  | element place table => exact map_more_onto (readElement_onto place table h)
  | more term blank => exact readMore_onto term blank h hargs
  | tail =>
    show (if token.kind = .space then _ else _) = layout.outcome _ (if _ then _ else _)
    split
    · rfl
    · exact readTail_onto hargs

end State

end Parser

end PipelineSyntax
