import PipelineSyntax.Proofs.Grammar

/-!
# Rows that lead from state to state

What the pieces of a line need to know of the machine in order to be read: which state a row
of tokens leads to from which (`Leads`), where a token that can begin a factor begins one, and
what each of the other tokens does where it fits.

The hint has no influence on what follows, and is left out of account. All that is said about
the beginning of a factor is that its first token does what it does in the state
`.primary place`, for the place at which the factor stands; so one statement about pieces that
begin there (`Leads.begin`) serves them wherever they begin.
-/

namespace PipelineSyntax

namespace Parser

/-! ### Leading from state to state -/

/-- The tokens lead from the one state to the other, whatever the hints. -/
def Leads (limit : Nat) (state : State) (tokens : List Token) (last : State) : Prop :=
  ∀ hint, ∃ hint', Steps limit { state with hint } tokens { last with hint := hint' }

namespace Leads

variable {limit : Nat} {state next last : State} {line line' : OpenLine}
  {stack stack' : List Bracket} {expect expect' : Expect} {token : Token}
  {front back tokens : List Token}

theorem nil : Leads limit state [] state :=
  fun hint ↦ ⟨hint, .nil _⟩

theorem append (h : Leads limit state front next) (h' : Leads limit next back last) :
    Leads limit state (front ++ back) last := by
  intro hint
  obtain ⟨hint₁, hfront⟩ := h hint
  obtain ⟨hint₂, hback⟩ := h' hint₁
  exact ⟨hint₂, hfront.append hback⟩

/-- A token that keeps the hint. -/
theorem single (h : ∀ hint, State.step limit ⟨line, stack, expect, hint⟩ token =
    .ok (.more ⟨line', stack', expect', hint⟩)) :
    Leads limit ⟨line, stack, expect, none⟩ [token] ⟨line', stack', expect', none⟩ :=
  fun hint ↦ ⟨hint, .single (h hint)⟩

theorem cons (h : ∀ hint, State.step limit ⟨line, stack, expect, hint⟩ token =
    .ok (.more ⟨line', stack', expect', hint⟩))
    (h' : Leads limit ⟨line', stack', expect', none⟩ tokens last) :
    Leads limit ⟨line, stack, expect, none⟩ (token :: tokens) last :=
  (single h).append h'

/-- Blanks that a state skips. -/
theorem blanks (h : ∀ hint token, token.kind = .space →
    State.step limit ⟨line, stack, expect, hint⟩ token = .ok (.more ⟨line, stack, expect, hint⟩))
    (hblanks : Blanks tokens) :
    Leads limit ⟨line, stack, expect, none⟩ tokens ⟨line, stack, expect, none⟩ := by
  induction tokens with
  | nil => exact nil
  | cons token tokens ih =>
    obtain ⟨hkind, hrest⟩ := OfKind.cons_iff.1 hblanks
    exact cons (fun hint ↦ h hint token hkind) (ih hrest)

/-- What is read from one state is read from another one in which the first token does the
same. Of that token, its offset and whether it is a bare `=` may be used. -/
theorem begin (h : Leads limit ⟨line', stack', expect', none⟩ tokens last)
    (hopens : OpensFactor tokens)
    (hfirst : ∀ hint first, first.kind.startsFactor = true → origin tokens = first.offset →
      opensWithEquals tokens = first.isEquals →
        State.step limit ⟨line, stack, expect, hint⟩ first =
          State.step limit ⟨line', stack', expect', hint⟩ first) :
    Leads limit ⟨line, stack, expect, none⟩ tokens last := by
  obtain ⟨first, rest, rfl, hstarts⟩ := hopens
  intro hint
  obtain ⟨hint', hsteps⟩ := h hint
  -- only the first step starts from another state; behind it the two rows are one
  rcases hsteps with _ | ⟨hstep, hrest⟩
  exact ⟨hint', .cons ((hfirst hint first hstarts rfl rfl).trans hstep) hrest⟩

end Leads

/-! ### What single tokens do -/

section Tokens

variable {limit : Nat} {line : OpenLine} {stack : List Bracket} {place : Place} {token : Token}
  {term : OpenTerm} {table : OpenTable} {blank : Bool} {hint : Option Hint}

theorem step_dollar (hkind : token.kind = .dollar) :
    State.step limit ⟨line, stack, .primary place, hint⟩ token =
      .ok (.more ⟨line, stack, .primary place.addDollar, hint⟩) := by
  simp [State.step, State.readPrimary, hkind, Except.map]

theorem step_literal {text : String} (hkind : token.kind.isLiteral = true)
    (htext : token.decode = .ok text) :
    State.step limit ⟨line, stack, .primary place, hint⟩ token =
      .ok (.more ⟨line, stack, .more (place.fill (.string token.offset token.text text)) false,
        hintOf token text⟩) := by
  have hkinds : token.kind = .bare ∨ token.kind = .singleQuoted ∨ token.kind = .doubleQuoted := by
    revert hkind
    cases token.kind <;> simp [Token.Kind.isLiteral]
  rcases hkinds with h | h | h <;> simp [State.step, State.readPrimary, h, htext, Except.map]

theorem step_leftParen (hkind : token.kind = .leftParen) (hroom : stack.length < limit) :
    State.step limit ⟨line, stack, .primary place, hint⟩ token =
      .ok (.more ⟨line, ⟨place, .group []⟩ :: stack, .term, hint⟩) := by
  simp [State.step, State.readPrimary, State.enter, hkind, hroom, Except.map]

theorem step_leftBracket (hkind : token.kind = .leftBracket) (hroom : stack.length < limit) :
    State.step limit ⟨line, stack, .primary place, hint⟩ token =
      .ok (.more ⟨line, stack, .table place, hint⟩) := by
  simp [State.step, State.readPrimary, State.enter, hkind, hroom, Except.map]

/-! ### Where a factor may begin -/

theorem ne_of_startsFactor (kind : Token.Kind) (hkind : token.kind.startsFactor = true)
    (h : kind.startsFactor = false) : token.kind ≠ kind := by
  rintro rfl
  rw [h] at hkind
  cases hkind

theorem step_line_factor (hkind : token.kind.startsFactor = true) :
    State.step limit ⟨line, stack, .line, hint⟩ token =
      State.step limit ⟨line, stack, .primary (.start token.offset), hint⟩ token := by
  simp only [State.step, ne_of_startsFactor .space hkind rfl,
    ne_of_startsFactor .endOfInput hkind rfl, if_false]
  rfl

theorem step_term_factor (hkind : token.kind.startsFactor = true) :
    State.step limit ⟨line, stack, .term, hint⟩ token =
      State.step limit ⟨line, stack, .primary (.start token.offset), hint⟩ token := by
  simp only [State.step, ne_of_startsFactor .space hkind rfl, if_false]
  rfl

theorem step_joined_factor (hkind : token.kind.startsFactor = true) :
    State.step limit ⟨line, stack, .joined term, hint⟩ token =
      State.step limit ⟨line, stack, .primary { term, pos := token.offset, join := .caret }, hint⟩
        token := by
  simp only [State.step, ne_of_startsFactor .space hkind rfl, if_false]
  rfl

theorem step_table_factor (hkind : token.kind.startsFactor = true) :
    State.step limit ⟨line, stack, .table place, hint⟩ token =
      State.step limit ⟨line, ⟨place, .table { pos := token.offset } none⟩ :: stack,
        .primary (.start token.offset), hint⟩ token := by
  simp only [State.step, State.readElement, hkind, if_true]
  rfl

theorem step_element_factor (hkind : token.kind.startsFactor = true) :
    State.step limit ⟨line, stack, .element place table, hint⟩ token =
      State.step limit ⟨line, ⟨place, .table table none⟩ :: stack,
        .primary (.start token.offset), hint⟩ token := by
  simp only [State.step, State.readElement, hkind, if_true]
  rfl

/-- A factor that follows at once is joined, unless it would make a pair of a key. -/
theorem step_adjacent_factor (hkind : token.kind.startsFactor = true)
    (hkey : (State.atKey ⟨line, stack, .more term false, hint⟩ && token.isEquals) = false) :
    State.step limit ⟨line, stack, .more term false, hint⟩ token =
      State.step limit ⟨line, stack, .primary { term, pos := token.offset, join := .adjacent },
        hint⟩ token := by
  simp only [State.step, State.readMore, ne_of_startsFactor .space hkind rfl,
    ne_of_startsFactor .caret hkind rfl, hkind, hkey, if_false, Bool.not_false,
    Bool.and_self, if_true]
  rfl

/-- A factor that follows behind a blank ends the term. -/
theorem step_separate_factor (hkind : token.kind.startsFactor = true) :
    State.step limit ⟨line, stack, .more term true, hint⟩ token =
      State.endTerm limit ⟨line, stack, .more term true, hint⟩ term token := by
  simp only [State.step, State.readMore, ne_of_startsFactor .space hkind rfl,
    ne_of_startsFactor .caret hkind rfl, hkind, if_false, Bool.not_true,
    Bool.and_false, Bool.false_and, Bool.false_eq_true]

theorem step_argument_factor (hkind : token.kind.startsFactor = true)
    (htarget : line.target = none) :
    State.step limit ⟨line, [], .more term true, hint⟩ token =
      State.step limit ⟨line.addArg term.close, [], .primary (.start token.offset), hint⟩
        token := by
  rw [step_separate_factor hkind]
  simp only [State.endTerm, State.endLineTerm, htarget, hkind, if_true]
  rfl

theorem step_group_factor {terms : List Node} (hkind : token.kind.startsFactor = true) :
    State.step limit ⟨line, ⟨place, .group terms⟩ :: stack, .more term true, hint⟩ token =
      State.step limit ⟨line, ⟨place, .group (term.close :: terms)⟩ :: stack,
        .primary (.start token.offset), hint⟩ token := by
  rw [step_separate_factor hkind]
  simp only [State.endTerm, hkind, if_true]
  rfl

/-! ### What ends a piece -/

theorem step_more_caret (hkind : token.kind = .caret) :
    State.step limit ⟨line, stack, .more term blank, hint⟩ token =
      .ok (.more ⟨line, stack, .joined term, hint⟩) := by
  simp [State.step, State.readMore, hkind]

theorem step_group_close {terms : List Node} (hkind : token.kind = .rightParen) :
    State.step limit ⟨line, ⟨place, .group terms⟩ :: stack, .more term blank, hint⟩ token =
      .ok (.more ⟨line, stack, .more (place.fill (.list (termList (term.close :: terms)))) false,
        hint⟩) := by
  simp [State.step, State.readMore, State.endTerm, hkind, Token.Kind.startsFactor]

theorem step_table_close (hkind : token.kind = .rightBracket) :
    State.step limit ⟨line, stack, .table place, hint⟩ token =
      .ok (.more ⟨line, stack, .more (place.fill (.table token.offset [] [])) false, hint⟩) := by
  simp [State.step, State.readElement, hkind, Token.Kind.startsFactor, Except.map,
    OpenTable.close]

theorem step_element_close (hkind : token.kind = .rightBracket) :
    State.step limit ⟨line, stack, .element place table, hint⟩ token =
      .ok (.more ⟨line, stack, .more (place.fill table.close) false, hint⟩) := by
  simp [State.step, State.readElement, hkind, Token.Kind.startsFactor, Except.map]

/-- A bare `=` behind a key makes it the key of a pair, whether it is joined or not. -/
theorem step_key_equals {key : Node} (hequals : token.isEquals = true)
    (hclose : term.close = key) :
    State.step limit ⟨line, ⟨place, .table table none⟩ :: stack, .more term blank, hint⟩ token =
      .ok (.more ⟨line, ⟨place, .table table (some key)⟩ :: stack, .term, hint⟩) := by
  subst hclose
  have hkind : token.kind = .bare := Token.kind_of_isEquals hequals
  simp [State.step, State.readMore, State.endTerm, State.atKey, hkind, hequals]

end Tokens

/-! ### Tables between their elements -/

namespace OpenTable

/-- The table with one more entry. -/
def add (table : OpenTable) : Entry → OpenTable
  | .alone element => table.addElement element
  | .pair key value => table.addPair key value

/-- A table that held nothing holds the entries it was given, in their order. -/
theorem close_foldl_add (pos : Nat) (entries : List Entry) :
    (entries.foldl add { pos }).close =
      .table pos (Entry.elements entries) (Entry.pairs entries) := by
  have hfoldl (table : OpenTable) : (entries.foldl add table).close =
      .table table.pos (table.elements.reverse ++ Entry.elements entries)
        (table.pairs.reverse ++ Entry.pairs entries) := by
    induction entries generalizing table with
    | nil => simp [close, Entry.elements, Entry.pairs]
    | cons entry entries ih =>
      rw [List.foldl_cons, ih]
      cases entry <;> simp [add, addElement, addPair, Entry.elements, Entry.pairs]
  exact hfoldl { pos }

end OpenTable

/-- What the bracket of a table holds while the term that is being read is the last part of
an entry. -/
inductive Pending (table : OpenTable) (term : OpenTerm) : Entry → Contents → Prop
  | alone {element : Node} (hclose : term.close = element) :
      Pending table term (.alone element) (.table table none)
  | pair {key value : Node} (hclose : term.close = value) :
      Pending table term (.pair key value) (.table table (some key))

namespace Pending

variable {limit : Nat} {line : OpenLine} {stack : List Bracket} {place : Place} {token : Token}
  {term : OpenTerm} {table : OpenTable} {entry : Entry} {contents : Contents} {blank : Bool}
  {hint : Option Hint}

theorem step_close (h : Pending table term entry contents) (hkind : token.kind = .rightBracket) :
    State.step limit ⟨line, ⟨place, contents⟩ :: stack, .more term blank, hint⟩ token =
      .ok (.more ⟨line, stack, .more (place.fill (table.add entry).close) false, hint⟩) := by
  obtain rfl | rfl := h
  all_goals
    simp [State.step, State.readMore, State.endTerm, State.readElement, hkind,
      Token.Kind.startsFactor, Token.isEquals, OpenTable.add, Except.map]

theorem step_factor (h : Pending table term entry contents)
    (hkind : token.kind.startsFactor = true) (hlast : (entry.isAlone && token.isEquals) = false) :
    State.step limit ⟨line, ⟨place, contents⟩ :: stack, .more term true, hint⟩ token =
      State.step limit ⟨line, ⟨place, .table (table.add entry) none⟩ :: stack,
        .primary (.start token.offset), hint⟩ token := by
  rw [step_separate_factor hkind]
  obtain rfl | rfl := h
  · have hequals : token.isEquals = false := hlast
    simp only [State.endTerm, hequals, State.readElement, hkind, if_true]
    rfl
  · simp only [State.endTerm, State.readElement, hkind, if_true]
    rfl

end Pending

/-! ### Pieces -/

section Pieces

variable {limit : Nat} {line : OpenLine} {stack : List Bracket} {term : OpenTerm}
  {tokens : List Token}

theorem leads_dollars {place : Place} (h : OfKind .dollar tokens) :
    Leads limit ⟨line, stack, .primary place, none⟩ tokens
      ⟨line, stack, .primary { place with dollars := place.dollars + tokens.length }, none⟩ := by
  induction tokens generalizing place with
  | nil => exact .nil
  | cons token tokens ih =>
    obtain ⟨hkind, hrest⟩ := OfKind.cons_iff.1 h
    have htail := @ih place.addDollar hrest
    rw [List.length_cons, Nat.add_comm tokens.length, ← Nat.add_assoc]
    exact .cons (fun hint ↦ step_dollar hkind) htail

/-- Blanks behind a factor are told apart from none. -/
theorem leads_more_blanks {blank : Bool} (h : Blanks tokens) :
    Leads limit ⟨line, stack, .more term blank, none⟩ tokens
      ⟨line, stack, .more term (blank || !tokens.isEmpty), none⟩ := by
  induction tokens generalizing blank with
  | nil => simpa using Leads.nil
  | cons token tokens ih =>
    obtain ⟨hkind, hrest⟩ := OfKind.cons_iff.1 h
    have htail := @ih true hrest
    rw [Bool.true_or] at htail
    refine .cons (fun hint ↦ ?_) (by simpa using htail)
    simp [State.step, State.readMore, hkind]

theorem leads_separator (h : Blanks tokens) (hne : tokens ≠ []) :
    Leads limit ⟨line, stack, .more term false, none⟩ tokens
      ⟨line, stack, .more term true, none⟩ := by
  have hleads := @leads_more_blanks limit line stack term tokens false h
  rwa [show (false || !tokens.isEmpty) = true by simp [hne]] at hleads

theorem leads_term_blanks (h : Blanks tokens) :
    Leads limit ⟨line, stack, .term, none⟩ tokens ⟨line, stack, .term, none⟩ :=
  .blanks (fun hint token hkind ↦ by simp [State.step, hkind]) h

theorem leads_joined_blanks (h : Blanks tokens) :
    Leads limit ⟨line, stack, .joined term, none⟩ tokens ⟨line, stack, .joined term, none⟩ :=
  .blanks (fun hint token hkind ↦ by simp [State.step, hkind]) h

theorem step_table_blank {place : Place} {token : Token} {hint : Option Hint}
    (hkind : token.kind = .space) :
    State.step limit ⟨line, stack, .table place, hint⟩ token =
      .ok (.more ⟨line, stack, .element place { pos := token.offset }, hint⟩) := by
  simp [State.step, State.readElement, hkind, Token.Kind.startsFactor, Except.map]

theorem leads_element_blanks {place : Place} {table : OpenTable} (h : Blanks tokens) :
    Leads limit ⟨line, stack, .element place table, none⟩ tokens
      ⟨line, stack, .element place table, none⟩ :=
  .blanks (fun hint token hkind ↦ by
    simp [State.step, State.readElement, hkind, Token.Kind.startsFactor, Except.map]) h

end Pieces

end Parser

end PipelineSyntax
