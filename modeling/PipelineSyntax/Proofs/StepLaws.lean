import PipelineSyntax.Parser.Basic

/-!
# What one step can do

The laws of `State.step` that do not ask what has been read. Whatever the state, a step ends
in one of three ways, and the token alone narrows them down:

* it fails, and then at the token that it was given;
* it goes on, and then the token does not end the line;
* it is done, and then the token does end the line.

The position of the line is settled before the first token and never moves. `Lawful` is the
three together; there is one lemma about it for each function that a step consists of, and
whoever needs a part reads it off `step_lawful`.
-/

namespace PipelineSyntax

/-- Whether a token of this kind ends the line it stands in. -/
def Token.Kind.endsLine : Kind → Bool
  | endOfLine | endOfInput => true
  | _ => false

namespace Parser

namespace State

/-- How reading a token may come out, for a line that begins at `pos`. -/
def Lawful (pos : Nat) (token : Token) : Except Abort Progress → Prop
  | .error abort => abort.offset = token.offset
  | .ok (.more state) => token.kind.endsLine = false ∧ state.line.pos = pos
  | .ok (.done parsed) => token.kind.endsLine = true ∧ parsed.root.pos = pos

variable {limit : Nat} {state : State} {token : Token}

/-! ### Beginning a factor -/

theorem enter_lawful {inside : State} (hkind : token.kind.endsLine = false) :
    Lawful inside.line.pos token ((state.enter limit token inside).map .more) := by
  rw [enter]
  split
  · exact ⟨hkind, rfl⟩
  · rfl

theorem readPrimary_lawful {place : Place} :
    Lawful state.line.pos token ((state.readPrimary limit place token).map .more) := by
  rw [readPrimary]
  split
  case h_1 hkind => exact ⟨by rw [hkind]; rfl, rfl⟩
  case h_2 hkind | h_3 hkind | h_4 hkind =>
    -- The three kinds of literals differ in how they are decoded only.
    cases token.decode with
    | error fault => rfl
    | ok text => exact ⟨by rw [hkind]; rfl, rfl⟩
  case h_5 hkind => exact enter_lawful (by rw [hkind]; rfl)
  case h_6 hkind => exact enter_lawful (by rw [hkind]; rfl)
  case h_7 => rfl

theorem readTerm_lawful :
    Lawful state.line.pos token ((state.readTerm limit token).map .more) :=
  readPrimary_lawful

/-! ### Between terms -/

theorem readElement_lawful {place : Place} {table : OpenTable} :
    Lawful state.line.pos token ((state.readElement limit place table token).map .more) := by
  rw [readElement]
  split
  · exact @readTerm_lawful _ { state with stack := _ } _
  · split
    case h_1 hkind | h_2 hkind => exact ⟨by rw [hkind]; rfl, rfl⟩
    case h_3 => rfl

theorem readTail_lawful : Lawful state.line.pos token (state.readTail token) := by
  rw [readTail]
  split
  case h_1 hkind =>
    have hends : token.kind.endsLine = false := by rw [hkind]; rfl
    cases h : Leader.ofToken token with
    | error abort =>
      cases hread : Leader.read token.text with
      | error cause =>
        rw [Leader.ofToken, hread] at h
        cases h
        rfl
      | ok leader =>
        rw [Leader.ofToken, hread] at h
        cases h
    | ok leader =>
      cases leader <;> exact ⟨hends, rfl⟩
  case h_2 hkind => exact ⟨by rw [hkind]; rfl, rfl⟩
  case h_3 hkind | h_4 hkind => exact ⟨by rw [hkind]; rfl, rfl⟩
  case h_5 => rfl

theorem endLineTerm_lawful {term : OpenTerm} :
    Lawful state.line.pos token (state.endLineTerm limit term token) := by
  rw [endLineTerm]
  split
  · exact @readTail_lawful { state with line := _ } _
  · dsimp only
    split
    · exact @readTerm_lawful _ { state with line := _ } _
    · exact @readTail_lawful { state with line := _ } _

theorem endTerm_lawful {term : OpenTerm} :
    Lawful state.line.pos token (state.endTerm limit term token) := by
  rw [endTerm]
  split
  · exact endLineTerm_lawful
  · dsimp only
    split
    · exact @readTerm_lawful _ { state with stack := _ } _
    · split
      · rename_i hkind
        exact ⟨by rw [hkind]; rfl, rfl⟩
      · rfl
  · split
    · rename_i hequals
      have hkind : token.kind = .bare := Token.kind_of_isEquals hequals
      exact ⟨by rw [hkind]; rfl, rfl⟩
    · exact @readElement_lawful _ { state with stack := _ } _ _ _
  · exact @readElement_lawful _ { state with stack := _ } _ _ _

theorem readMore_lawful {term : OpenTerm} {blank : Bool} :
    Lawful state.line.pos token (state.readMore limit term blank token) := by
  rw [readMore]
  split
  · rename_i hkind
    exact ⟨by rw [hkind]; rfl, rfl⟩
  · split
    · rename_i hkind
      exact ⟨by rw [hkind]; rfl, rfl⟩
    · split
      · exact readPrimary_lawful
      · exact endTerm_lawful

/-! ### The step -/

/-- Every step comes out in a lawful way. -/
theorem step_lawful (limit : Nat) (state : State) (token : Token) :
    Lawful state.line.pos token (state.step limit token) := by
  have hspace {kind : Token.Kind} (h : kind = .space) : kind.endsLine = false := by rw [h]; rfl
  rw [step]
  split
  · split
    · rename_i hkind
      exact ⟨hspace hkind, rfl⟩
    · split
      · rename_i hkind
        exact ⟨by rw [hkind]; rfl, rfl⟩
      · exact readTerm_lawful
  · split
    · rename_i hkind
      exact ⟨hspace hkind, rfl⟩
    · exact readTerm_lawful
  · exact readPrimary_lawful
  · split
    · rename_i hkind
      exact ⟨hspace hkind, rfl⟩
    · exact readPrimary_lawful
  · exact readElement_lawful
  · exact readElement_lawful
  · exact readMore_lawful
  · split
    · rename_i hkind
      exact ⟨hspace hkind, rfl⟩
    · exact readTail_lawful

/-- A step fails at the token it was given. -/
theorem offset_of_step_error {abort : Abort} (h : state.step limit token = .error abort) :
    abort.offset = token.offset := by
  have hlawful := step_lawful limit state token
  rwa [h] at hlawful

/-- A token that leaves the line open does not end it, and leaves its position alone. -/
theorem open_of_step_more {next : State} (h : state.step limit token = .ok (.more next)) :
    token.kind.endsLine = false ∧ next.line.pos = state.line.pos := by
  have hlawful := step_lawful limit state token
  rwa [h] at hlawful

/-- A token that completes the line ends it, and the tree begins where the line does. -/
theorem closed_of_step_done {parsed : Parsed} (h : state.step limit token = .ok (.done parsed)) :
    token.kind.endsLine = true ∧ parsed.root.pos = state.line.pos := by
  have hlawful := step_lawful limit state token
  rwa [h] at hlawful

end State

end Parser

end PipelineSyntax
