import PipelineSyntax.Proofs.Causes
import PipelineSyntax.Proofs.Soundness

/-!
# What a state asks for

A token that is refused as unexpected is refused in a context, which names what had to stand in
its place. A state knows the context in advance: it is a factor, if the state wants one, and
otherwise what stands inside the innermost bracket that is open (`State.production`).

Both parts can be followed token by token without the machine. The openers that are not closed
are those of a flat scan (`Token.Kind.track`). Whether a factor is wanted is told by the token
that was read last, blanks aside: some tokens demand one (`Token.demandsFactor`), a bare `=`
does if it stands between the parts of a pair, and all others do not.

`Tracks` says all of this of what reading a token comes to. There is one lemma for each function
that a step consists of, and `State.step_tracks` is the last of them.
-/

namespace PipelineSyntax

/-! ### Tokens -/

/-- What a token of the kind makes of the openers that are not closed, the innermost first. -/
def Token.Kind.track : Kind → List Kind → List Kind
  | leftParen, openers => leftParen :: openers
  | leftBracket, openers => leftBracket :: openers
  | rightParen, leftParen :: openers => openers
  | rightBracket, leftBracket :: openers => openers
  | _, openers => openers

/-- Whether a factor has to follow the token wherever it stands. -/
def Token.demandsFactor (token : Token) : Bool :=
  match token.kind with
  | .pipe | .caret | .dollar | .leftParen => true
  | .leader =>
    match Leader.read token.text with
    | .ok leader => leader.needsTarget
    | .error _ => false
  | _ => false

/-- What is being read inside the innermost of the openers. -/
def Production.inside : List Token.Kind → Production
  | .leftParen :: _ => group
  | .leftBracket :: _ => table
  | _ => pipeline

/-- If the abort is about an unexpected token, its context is the production. -/
def Production.Names (production : Production) (abort : Abort) : Prop :=
  ∀ ⦃found kind context⦄, abort.cause = .unexpected found kind context →
    context = production.name

theorem Production.names_unexpected (production : Production) (token : Token) :
    production.Names (.unexpected token production.name) :=
  fun _ _ _ hcause ↦ (Cause.unexpected.inj hcause).2.2.symm

/-- A bracket that is nested too deep is not refused as unexpected. -/
theorem Production.names_depth (production : Production) (offset limit : Nat) :
    production.Names ⟨offset, .depth limit⟩ := by
  intro found kind context hcause
  cases hcause

/-- A literal that does not decode is not refused as unexpected. -/
theorem Production.names_literal (production : Production) (offset : Nat)
    (fault : Literal.Fault) : production.Names ⟨offset, .literal fault⟩ := by
  intro found kind context hcause
  cases hcause

/-- A leader that says nothing is not refused as unexpected. -/
theorem Cause.LiesInLeader.names {cause : Cause} (h : cause.LiesInLeader) (offset : Nat)
    (production : Production) : production.Names ⟨offset, cause⟩ := by
  rintro found kind context rfl
  exact h.elim

namespace Parser

/-! ### States -/

/-- The kind of token that opens a bracket. -/
def Contents.opener : Contents → Token.Kind
  | .group _ => .leftParen
  | .table _ _ => .leftBracket

/-- The openers of brackets. -/
def openersOf (stack : List Bracket) : List Token.Kind :=
  stack.map fun bracket ↦ bracket.contents.opener

/-- The opener of the table that is held between its elements. -/
def Expect.openers : Expect → List Token.Kind
  | .table _ | .element _ _ => [.leftBracket]
  | _ => []

/-- Whether a factor is to be read next. -/
def Expect.wantsFactor : Expect → Bool
  | .line | .term | .primary _ | .joined _ => true
  | _ => false

namespace State

/-- The openers of the brackets that are open. -/
def openers (state : State) : List Token.Kind :=
  state.expect.openers ++ openersOf state.stack

/-- What a token that does not fit is refused for. -/
def production (state : State) : Production :=
  if state.expect.wantsFactor then .factor else .inside state.openers

/-- A bracket that is open belongs to a group or to a table. -/
theorem openers_cases (state : State) :
    state.openers = [] ∨ (∃ outer, state.openers = .leftParen :: outer) ∨
      ∃ outer, state.openers = .leftBracket :: outer := by
  obtain ⟨line, stack, expect, hint⟩ := state
  have hstack : openersOf stack = [] ∨ (∃ outer, openersOf stack = .leftParen :: outer) ∨
      ∃ outer, openersOf stack = .leftBracket :: outer := by
    rcases stack with _ | ⟨⟨place, terms | ⟨table, key⟩⟩, stack⟩
    · exact .inl rfl
    · exact .inr (.inl ⟨openersOf stack, rfl⟩)
    · exact .inr (.inr ⟨openersOf stack, rfl⟩)
  cases expect with
  | table | element => exact .inr (.inr ⟨openersOf stack, rfl⟩)
  | line | term | primary | joined | more | tail => exact hstack

end State

/-- What a token makes of openers, and of whether a factor is wanted. -/
inductive Tracked (token : Token) (openers : List Token.Kind) (wants : Bool) : State → Prop
  /-- It is a blank, and changes nothing. -/
  | blank {state : State} (hkind : token.kind = .space) (hopeners : state.openers = openers)
      (hwants : state.expect.wantsFactor = wants) : Tracked token openers wants state
  /-- It separates the parts of a pair. -/
  | separator {state : State} (hequals : token.isEquals = true)
      (hopeners : state.openers = openers) (hexpect : state.expect = .term) :
      Tracked token openers wants state
  /-- It decides by itself. -/
  | visible {state : State} (hkind : token.kind ≠ .space)
      (hopeners : state.openers = token.kind.track openers)
      (hwants : state.expect.wantsFactor = token.demandsFactor) :
      Tracked token openers wants state

/-- How reading a token may come out, inside openers. -/
def Tracks (production : Production) (token : Token) (openers : List Token.Kind) (wants : Bool) :
    Except Abort Progress → Prop
  | .error abort => production.Names abort
  | .ok (.more state) => Tracked token openers wants state
  | .ok (.done _) => True

section Steps

variable {limit : Nat} {line : OpenLine} {stack : List Bracket} {expect : Expect}
  {hint : Option Hint} {place : Place} {token : Token} {production : Production}
  {openers : List Token.Kind} {wants : Bool}

/-- A token that is no blank is told by its kind, and a leader by its text too. -/
theorem Tracked.of_kind {state : State} {kind : Token.Kind} (hkind : token.kind = kind)
    (hspace : kind ≠ .space) (hopeners : state.openers = kind.track openers)
    (hwants : state.expect.wantsFactor = Token.demandsFactor { token with kind }) :
    Tracked token openers wants state := by
  subst hkind
  exact .visible hspace hopeners hwants

namespace State

/-! ### Beginning a factor -/

/-- A token that opens a factor is not refused as unexpected where a factor must stand. -/
theorem readPrimary_tracks
    (hproduction : token.kind.startsFactor = false → production = .factor) :
    Tracks production token (openersOf stack) wants
      ((readPrimary limit ⟨line, stack, expect, hint⟩ place token).map .more) := by
  rw [readPrimary]
  split
  case h_1 hkind => exact .of_kind hkind (by decide) rfl rfl
  case h_2 hkind | h_3 hkind | h_4 hkind =>
    cases token.decode with
    | error fault => exact production.names_literal token.offset fault
    | ok text => exact .of_kind hkind (by decide) rfl rfl
  case h_5 hkind | h_6 hkind =>
    rw [enter]
    split
    · exact .of_kind hkind (by decide) rfl rfl
    · exact production.names_depth token.offset limit
  case h_7 =>
    obtain rfl := hproduction (by cases hkind : token.kind <;> simp_all [Token.Kind.startsFactor])
    exact Production.factor.names_unexpected token

theorem readTerm_tracks
    (hproduction : token.kind.startsFactor = false → production = .factor) :
    Tracks production token (openersOf stack) wants
      ((readTerm limit ⟨line, stack, expect, hint⟩ token).map .more) :=
  readPrimary_tracks hproduction

/-! ### Between terms -/

theorem readElement_tracks {table : OpenTable} :
    Tracks .table token (.leftBracket :: openersOf stack) false
      ((readElement limit ⟨line, stack, expect, hint⟩ place table token).map .more) := by
  rw [readElement]
  split
  · rename_i hstarts
    let inside : List Bracket := ⟨place, .table table none⟩ :: stack
    exact @readTerm_tracks limit line inside _ _ _ _ _ fun hfalse ↦ by simp [hfalse] at hstarts
  · split
    case h_1 hkind => exact .blank hkind rfl rfl
    case h_2 hkind => exact .of_kind hkind (by decide) rfl rfl
    case h_3 => exact Production.table.names_unexpected token

theorem readTail_tracks :
    Tracks .pipeline token [] wants (readTail ⟨line, [], expect, hint⟩ token) := by
  rw [readTail]
  split
  case h_1 hkind =>
    have hblames := Leader.read_blames token.text
    rw [Leader.ofToken]
    cases hread : Leader.read token.text with
    | error cause =>
      rw [hread] at hblames
      exact Cause.LiesInLeader.names hblames token.offset _
    | ok leader =>
      have hwants : Token.demandsFactor { token with kind := .leader } = leader.needsTarget := by
        rw [Token.demandsFactor]
        simp only [hread]
      cases leader with
      | target fd mode => exact .of_kind hkind (by decide) rfl hwants.symm
      | duplicate fd old | close fd => exact .of_kind hkind (by decide) rfl hwants.symm
  case h_2 hkind => exact .of_kind hkind (by decide) rfl rfl
  case h_3 | h_4 => trivial
  case h_5 => exact Production.pipeline.names_unexpected token

theorem endLineTerm_tracks {term : OpenTerm} :
    Tracks .pipeline token [] wants
      (endLineTerm limit ⟨line, [], expect, hint⟩ term token) := by
  rw [endLineTerm]
  split
  · exact readTail_tracks
  · dsimp only
    split
    · rename_i hstarts
      exact @readTerm_tracks limit _ [] _ _ _ _ _ fun hfalse ↦ by simp [hfalse] at hstarts
    · exact readTail_tracks

theorem endTerm_tracks {term : OpenTerm} :
    Tracks (.inside (openersOf stack)) token (openersOf stack) false
      (endTerm limit ⟨line, stack, expect, hint⟩ term token) := by
  -- a term stands outside of brackets, in a group, at the key of an entry, or at its value
  rcases stack with _ | ⟨⟨place, terms | ⟨table, _ | key⟩⟩, stack⟩
  · exact endLineTerm_tracks
  · show Tracks _ _ _ _
      (if token.kind.startsFactor then _ else if token.kind = .rightParen then _ else _)
    split
    · rename_i hstarts
      let inside : List Bracket := ⟨place, .group (term.close :: terms)⟩ :: stack
      exact @readTerm_tracks limit line inside _ _ _ _ _ fun hfalse ↦ by simp [hfalse] at hstarts
    · split
      · rename_i hkind
        exact .of_kind hkind (by decide) rfl rfl
      · exact Production.group.names_unexpected token
  · show Tracks _ _ _ _ (if token.isEquals then _ else _)
    split
    · rename_i hequals
      exact .separator hequals rfl rfl
    · exact readElement_tracks
  · exact readElement_tracks

theorem readMore_tracks {term : OpenTerm} {blank : Bool} :
    Tracks (.inside (openersOf stack)) token (openersOf stack) false
      (readMore limit ⟨line, stack, expect, hint⟩ term blank token) := by
  rw [readMore]
  split
  · rename_i hkind
    exact .blank hkind rfl rfl
  · split
    · rename_i hkind
      exact .of_kind hkind (by decide) rfl rfl
    · split
      · rename_i hadjacent
        exact readPrimary_tracks fun hfalse ↦ by simp [hfalse] at hadjacent
      · exact endTerm_tracks

/-! ### The step -/

/-- A token is refused for what the state asks for, or changes it as the token tells. -/
theorem step_tracks {state : State} {tokens : List Token} (hstate : state.Holds limit tokens)
    (token : Token) :
    Tracks state.production token state.openers state.expect.wantsFactor
      (state.step limit token) := by
  obtain ⟨line, stack, expect, hint⟩ := state
  cases expect with
  | line =>
    show Tracks _ _ _ _ (if token.kind = .space then _ else _)
    split
    · rename_i hkind
      exact .blank hkind rfl rfl
    · split
      · trivial
      · exact readTerm_tracks fun _ ↦ rfl
  | term =>
    show Tracks _ _ _ _ (if token.kind = .space then _ else _)
    split
    · rename_i hkind
      exact .blank hkind rfl rfl
    · exact readTerm_tracks fun _ ↦ rfl
  | primary place => exact readPrimary_tracks fun _ ↦ rfl
  | joined term =>
    show Tracks _ _ _ _ (if token.kind = .space then _ else _)
    split
    · rename_i hkind
      exact .blank hkind rfl rfl
    · exact readPrimary_tracks fun _ ↦ rfl
  | table place => exact readElement_tracks
  | element place table => exact readElement_tracks
  | more term blank => exact readMore_tracks
  | tail =>
    obtain ⟨rfl, -⟩ := hstate
    show Tracks _ _ _ _ (if token.kind = .space then _ else _)
    split
    · rename_i hkind
      exact .blank hkind rfl rfl
    · exact readTail_tracks

end State

end Steps

/-! ### Runs -/

/-- The openers that a run leaves are those of the flat scan. -/
theorem Steps.openers_eq {limit : Nat} {state last : State} {row tokens : List Token}
    (h : Steps limit state row last) (hstate : state.Holds limit tokens) :
    last.openers = row.foldl (fun openers token ↦ token.kind.track openers) state.openers := by
  induction h generalizing tokens with
  | nil => rfl
  | @cons _ _ _ token _ step _ ih =>
    have hsound := State.step_sound hstate token
    have htracks := State.step_tracks hstate token
    rw [step] at hsound htracks
    rw [ih hsound, List.foldl_cons]
    congr 1
    obtain ⟨hkind, hopeners, -⟩ | ⟨hequals, hopeners, -⟩ | ⟨-, hopeners, -⟩ := htracks
    · rw [hopeners, hkind]
      rfl
    · rw [hopeners, Token.kind_of_isEquals hequals]
      rfl
    · exact hopeners

/-- Blanks change nothing about whether a factor is wanted. -/
theorem Steps.wantsFactor_eq {limit : Nat} {state last : State} {row tokens : List Token}
    (h : Steps limit state row last) (hstate : state.Holds limit tokens) (hrow : Blanks row) :
    last.expect.wantsFactor = state.expect.wantsFactor := by
  induction h generalizing tokens with
  | nil => rfl
  | @cons _ _ _ token _ step _ ih =>
    obtain ⟨hkind, hrow⟩ := OfKind.cons_iff.1 hrow
    have hsound := State.step_sound hstate token
    have htracks := State.step_tracks hstate token
    rw [step] at hsound htracks
    rw [ih hsound hrow]
    obtain ⟨-, -, hwants⟩ | ⟨hequals, -, -⟩ | ⟨hvisible, -, -⟩ := htracks
    · exact hwants
    · cases hkind.symm.trans (Token.kind_of_isEquals hequals)
    · exact absurd hkind hvisible

end Parser

end PipelineSyntax
