import PipelineSyntax.Proofs.Lines
import PipelineSyntax.Proofs.Numbering

/-!
# Where blanks matter

Blanks matter in two places: behind a dollar, where none may stand, and between two factors,
which they keep apart. To *condense* a row is to leave one blank of a run that stands in such a
place, and none of any other run (`condense_run`). Lines that are the same once condensed, but
for where their tokens begin, are read alike.

Two facts carry this. What stands in front of a state, blanks left out of account, is told by
what is expected next (`Expect.Follows`), and that follows from the last token alone
(`State.step_arrives`). And a blank changes nothing but what is expected; behind it a token is
read as without it, unless it would have been joined to the term in front
(`State.step_behindBlank`).

Positions are put out of the way first: in a row of plain tokens everything begins at zero.
-/

namespace PipelineSyntax

/-! ### Condensed rows -/

/-- Whether a factor can end with a token of this kind. -/
def Token.Kind.endsFactor : Kind → Bool
  | bare | singleQuoted | doubleQuoted | rightParen | rightBracket => true
  | _ => false

/-- The token as far as its kind and its text go. -/
def Token.plain (token : Token) : Token :=
  ⟨token.kind, token.text, 0, false⟩

/-- The blank that is left of a run. -/
def Token.blank : Token :=
  ⟨.space, " ", 0, false⟩

/-- Whether a blank is the last of a run that matters, given the kind of what stands in front of
the run and the kind of what stands behind the blank. -/
def keepsBlank (before after : Option Token.Kind) : Bool :=
  after ≠ some .space && (before = some .dollar ||
    (before.any Token.Kind.endsFactor && after.any Token.Kind.startsFactor))

/-- The plain tokens of a row, with one blank for every run that matters and none for any other.
The row stands behind a token of the kind `before`, blanks left out of account. -/
def condense (before : Option Token.Kind) : List Token → List Token
  | [] => []
  | token :: row =>
    if token.kind = .space then
      if keepsBlank before (row.head?.map Token.kind) then .blank :: condense before row
      else condense before row
    else token.plain :: condense (some token.kind) row

section Condense

variable {before : Option Token.Kind} {token : Token} {row blanks rest : List Token}

theorem condense_cons_of_ne (h : token.kind ≠ .space) :
    condense before (token :: row) = token.plain :: condense (some token.kind) row := by
  rw [condense, if_neg h]

theorem condense_cons_of_space (h : token.kind = .space) :
    condense before (token :: row) =
      if keepsBlank before (row.head?.map Token.kind) then .blank :: condense before row
      else condense before row := by
  rw [condense, if_pos h]

/-- One blank is left of a run that matters, and none of another one. -/
theorem condense_run (hblanks : Blanks blanks) (hne : blanks ≠ []) :
    condense before (blanks ++ rest) =
      if keepsBlank before (rest.head?.map Token.kind) then .blank :: condense before rest
      else condense before rest := by
  induction blanks with
  | nil => exact absurd rfl hne
  | cons blank blanks ih =>
    obtain ⟨hkind, hblanks⟩ := OfKind.cons_iff.1 hblanks
    rw [List.cons_append, condense_cons_of_space hkind]
    rcases blanks with _ | ⟨next, blanks⟩
    · rfl
    · have hnext : next.kind = .space := (OfKind.cons_iff.1 hblanks).1
      have hdropped : keepsBlank before (some next.kind) = false := by simp [keepsBlank, hnext]
      rw [← ih hblanks (List.cons_ne_nil _ _)]
      exact if_neg (Bool.not_eq_true _ ▸ hdropped)

end Condense

/-! ### Lines of condensed streams -/

theorem TokenStream.line_cons (token : Token) (rest : List Token) (offset : Nat) :
    line ⟨token :: rest, offset⟩ =
      token :: if token.kind.endsLine then [] else line ⟨rest, offset⟩ := by
  cases hends : token.kind.endsLine <;> simp [line, hends]

/-- The first token of a line, as far as it keeps a blank. -/
theorem keepsBlank_line (before : Option Token.Kind) (rest : List Token) (offset : Nat) :
    keepsBlank before ((TokenStream.line ⟨rest, offset⟩).head?.map Token.kind) =
      keepsBlank before (rest.head?.map Token.kind) := by
  rcases rest with _ | ⟨token, rest⟩
  · cases before <;> simp [keepsBlank, TokenStream.line, Token.endOfInput, Token.Kind.startsFactor]
  · rw [TokenStream.line_cons]
    rfl

/-- Condensing a line is the same as taking the line of what is condensed. -/
theorem condense_line (before : Option Token.Kind) (tokens : List Token) (offset : Nat) :
    condense before (TokenStream.line ⟨tokens, offset⟩) =
      TokenStream.line ⟨condense before tokens, 0⟩ := by
  induction tokens generalizing before with
  | nil => rfl
  | cons token rest ih =>
    by_cases hspace : token.kind = .space
    · have hends : token.kind.endsLine = false := by rw [hspace]; rfl
      rw [TokenStream.line_cons, hends, if_neg Bool.false_ne_true, condense_cons_of_space hspace,
        condense_cons_of_space hspace, keepsBlank_line, ih]
      split
      · rw [TokenStream.line_cons]
        rfl
      · rfl
    · rw [TokenStream.line_cons, condense_cons_of_ne hspace, condense_cons_of_ne hspace,
        TokenStream.line_cons]
      have hplain : token.plain.kind = token.kind := rfl
      rw [hplain]
      split
      · rfl
      · rw [ih]

namespace Parser

/-! ### What stands in front of a state -/

/-- What the kind of the last token that is no blank must be: a dollar where a primary has to
follow at once, and one that ends a factor where more of a term may follow. -/
def Expect.Follows (before : Option Token.Kind) : Expect → Prop
  | .primary _ => before = some .dollar
  | .more _ _ => before.any Token.Kind.endsFactor = true
  | _ => True

/-- What is expected behind a token follows a token of its kind. -/
def Arrives (kind : Token.Kind) : Except Abort Progress → Prop
  | .ok (.more state) => state.expect.Follows (some kind)
  | _ => True

namespace State

variable {limit : Nat} {state : State} {token : Token}

theorem readPrimary_arrives {place : Place} :
    Arrives token.kind ((state.readPrimary limit place token).map .more) := by
  have henter {inside : State} (h : inside.expect.Follows (some token.kind)) :
      Arrives token.kind ((state.enter limit token inside).map .more) := by
    rw [enter]
    split
    · exact h
    · trivial
  rw [readPrimary]
  split
  case h_1 hkind => exact congrArg some hkind
  case h_2 hkind | h_3 hkind | h_4 hkind =>
    cases token.decode with
    | error fault => trivial
    | ok text =>
      show (some token.kind).any Token.Kind.endsFactor = true
      rw [hkind]
      rfl
  case h_5 | h_6 => exact henter trivial
  case h_7 => trivial

theorem readElement_arrives {place : Place} {table : OpenTable} :
    Arrives token.kind ((state.readElement limit place table token).map .more) := by
  rw [readElement]
  split
  · exact readPrimary_arrives
  · split
    case h_1 => trivial
    case h_2 hkind =>
      show (some token.kind).any Token.Kind.endsFactor = true
      rw [hkind]
      rfl
    case h_3 => trivial

theorem readTail_arrives : Arrives token.kind (state.readTail token) := by
  rw [readTail]
  split
  case h_1 => rcases Leader.ofToken token with abort | ⟨fd, mode⟩ | ⟨fd, old⟩ | fd <;> trivial
  all_goals trivial

theorem endLineTerm_arrives {term : OpenTerm} :
    Arrives token.kind (state.endLineTerm limit term token) := by
  rw [endLineTerm]
  split
  · exact readTail_arrives
  · dsimp only
    split
    · exact readPrimary_arrives
    · exact readTail_arrives

theorem endTerm_arrives {term : OpenTerm} :
    Arrives token.kind (state.endTerm limit term token) := by
  rw [endTerm]
  split
  · exact endLineTerm_arrives
  · dsimp only
    split
    · exact readPrimary_arrives
    · split
      · rename_i hkind
        show (some token.kind).any Token.Kind.endsFactor = true
        rw [hkind]
        rfl
      · trivial
  · split
    · trivial
    · exact readElement_arrives
  · exact readElement_arrives

/-- What is expected behind a token that is no blank follows from its kind. -/
theorem step_arrives (limit : Nat) (state : State) (h : token.kind ≠ .space) :
    Arrives token.kind (state.step limit token) := by
  rw [step]
  split
  · rw [if_neg h]
    split
    · trivial
    · exact readPrimary_arrives
  · rw [if_neg h]
    exact readPrimary_arrives
  · exact readPrimary_arrives
  · rw [if_neg h]
    exact readPrimary_arrives
  · exact readElement_arrives
  · exact readElement_arrives
  · rw [readMore, if_neg h]
    split
    · trivial
    · split
      · exact readPrimary_arrives
      · exact endTerm_arrives
  · rw [if_neg h]
    exact readTail_arrives

/-! ### Behind a blank -/

/-- The state behind a plain blank, where one may stand. -/
def behindBlank (state : State) : State :=
  { state with
    expect := match state.expect with
      | .table place => .element place { pos := 0 }
      | .more term _ => .more term true
      | expect => expect }

/-- No blank may stand behind a dollar. -/
theorem step_blank_of_primary {place : Place} (hexpect : state.expect = .primary place)
    (hkind : token.kind = .space) : ∃ abort, state.step limit token = .error abort := by
  obtain ⟨line, stack, expect, hint⟩ := state
  subst hexpect
  exact ⟨_, by simp only [step, readPrimary, hkind]; rfl⟩

theorem step_plain_blank (limit : Nat) (hexpect : ∀ place, state.expect ≠ .primary place)
    (hkind : token.kind = .space) :
    state.step limit token.plain = .ok (.more state.behindBlank) := by
  have hplain : token.plain = ⟨.space, token.text, 0, false⟩ := by rw [Token.plain, hkind]
  rw [hplain]
  obtain ⟨line, stack, expect, hint⟩ := state
  cases expect with
  | primary place => exact absurd rfl (hexpect place)
  | line | term | joined | table | element | more | tail => rfl

theorem follows_behindBlank {before : Option Token.Kind} (h : state.expect.Follows before) :
    state.behindBlank.expect.Follows before := by
  obtain ⟨line, stack, expect, hint⟩ := state
  cases expect <;> exact h

/-- Behind a blank a token is read as without it, unless it begins a factor that would have been
joined to the term in front. -/
theorem step_behindBlank
    (h : ∀ term blank, state.expect = .more term blank → token.kind.startsFactor = false) :
    state.behindBlank.step limit token.plain = state.step limit token.plain := by
  obtain ⟨line, stack, expect, hint⟩ := state
  cases expect with
  | more term blank =>
    have hstarts : token.plain.kind.startsFactor = false := h term blank rfl
    show readMore limit _ term true token.plain = readMore limit _ term blank token.plain
    rw [readMore, readMore, hstarts]
    rfl
  | table => rfl
  | line | term | primary | joined | element | tail => rfl

end State

/-! ### Condensed lines -/

section Lines

variable {limit : Nat} {state other next : State} {before : Option Token.Kind}
  {token last : Token} {front row : List Token} {outcome : Except Abort Parsed} {parsed : Parsed}
  {tree : Sequence Node}

theorem Reads.cons_more_iff (h : state.step limit token = .ok (.more next)) :
    Reads limit state (token :: row) outcome ↔ Reads limit next row outcome := by
  rw [Reads.cons_iff]
  simp only [h]

theorem Reads.not_of_step_error {abort : Abort} (h : state.step limit token = .error abort) :
    ¬ Reads limit state (token :: row) (.ok parsed) := by
  rw [Reads.cons_iff]
  simp [h]

theorem Reads.cons_congr (h : state.step limit token = other.step limit token) :
    Reads limit state (token :: row) outcome ↔ Reads limit other (token :: row) outcome := by
  rw [Reads.cons_iff, Reads.cons_iff, h]

/-- A blank that is not kept might as well not stand there. -/
theorem reads_dropped_blank_iff (hfollows : state.expect.Follows before)
    (hkind : token.kind = .space)
    (hdropped : keepsBlank before (row.head?.map Token.kind) = false) :
    Reads limit state ((token :: row).map Token.plain) (.ok parsed) ↔
      Reads limit state (row.map Token.plain) (.ok parsed) := by
  by_cases hprimary : ∃ place, state.expect = .primary place
  · -- the blank stands behind a dollar, and it is not the last one
    obtain ⟨place, hexpect⟩ := hprimary
    rw [hexpect] at hfollows
    obtain rfl : before = some .dollar := hfollows
    obtain ⟨next, rest, rfl, hnext⟩ : ∃ next rest, row = next :: rest ∧ next.kind = .space := by
      rcases row with _ | ⟨next, rest⟩
      · cases hdropped
      · exact ⟨next, rest, rfl, by simpa [keepsBlank] using hdropped⟩
    obtain ⟨_, hstep⟩ := @State.step_blank_of_primary limit state token.plain _ hexpect hkind
    obtain ⟨_, hstep'⟩ := @State.step_blank_of_primary limit state next.plain _ hexpect hnext
    exact iff_of_false (Reads.not_of_step_error hstep) (Reads.not_of_step_error hstep')
  · rw [List.map_cons,
      Reads.cons_more_iff (State.step_plain_blank limit (not_exists.1 hprimary) hkind)]
    rcases row with _ | ⟨next, rest⟩
    · exact iff_of_false (fun h ↦ h.ne_nil rfl) fun h ↦ h.ne_nil rfl
    · refine Reads.cons_congr (State.step_behindBlank fun term blank hexpect ↦ ?_)
      -- no factor stands directly behind a blank that is not kept, behind another factor
      rw [hexpect] at hfollows
      have hends : before.any Token.Kind.endsFactor = true := hfollows
      by_cases hspace : next.kind = .space
      · rw [hspace]
        rfl
      · have hnone : before ≠ some .dollar ∧ next.kind.startsFactor = false := by
          simpa [keepsBlank, hspace, hends] using hdropped
        exact hnone.2

/-- A line of plain tokens is read as what is left of it when it is condensed. -/
theorem reads_condense_iff (hfollows : state.expect.Follows before)
    (hopen : ∀ token ∈ front, token.kind.endsLine = false) (hlast : last.kind.endsLine = true) :
    Reads limit state ((front ++ [last]).map Token.plain) (.ok parsed) ↔
      Reads limit state (condense before (front ++ [last])) (.ok parsed) := by
  induction front generalizing state before with
  | nil =>
    have hspace : last.kind ≠ .space := fun hkind ↦ by rw [hkind] at hlast; cases hlast
    rw [List.nil_append, condense_cons_of_ne hspace]
    rfl
  | cons token front ih =>
    obtain ⟨htoken, hopen⟩ := List.forall_mem_cons.1 hopen
    by_cases hspace : token.kind = .space
    · rw [List.cons_append, condense_cons_of_space hspace]
      cases hkeeps : keepsBlank before ((front ++ [last]).head?.map Token.kind) with
      | false =>
        rw [reads_dropped_blank_iff hfollows hspace hkeeps]
        exact ih hfollows hopen
      | true =>
        -- a blank of its own stands in both rows
        rw [if_pos rfl, List.map_cons]
        by_cases hprimary : ∃ place, state.expect = .primary place
        · obtain ⟨place, hexpect⟩ := hprimary
          obtain ⟨_, hstep⟩ := @State.step_blank_of_primary limit state token.plain _ hexpect hspace
          obtain ⟨_, hstep'⟩ := @State.step_blank_of_primary limit state .blank _ hexpect rfl
          exact iff_of_false (Reads.not_of_step_error hstep) (Reads.not_of_step_error hstep')
        · have hstep := State.step_plain_blank limit (not_exists.1 hprimary) hspace
          have hstep' : state.step limit .blank = .ok (.more state.behindBlank) :=
            @State.step_plain_blank state .blank limit (not_exists.1 hprimary) rfl
          rw [Reads.cons_more_iff hstep, Reads.cons_more_iff hstep']
          exact ih (State.follows_behindBlank hfollows) hopen
    · rw [List.cons_append, condense_cons_of_ne hspace, List.map_cons]
      have harrives := @State.step_arrives token.plain limit state hspace
      rcases hstep : state.step limit token.plain with abort | next | parsed'
      · exact iff_of_false (Reads.not_of_step_error hstep) (Reads.not_of_step_error hstep)
      · rw [hstep] at harrives
        rw [Reads.cons_more_iff hstep, Reads.cons_more_iff hstep]
        exact ih harrives hopen
      · cases htoken.symm.trans (State.closed_of_step_done hstep).1

/-! ### Rows up to positions -/

theorem numberFrom_map_plain (start : Nat) (row : List Token) :
    numberFrom start (row.map Token.plain) = numberFrom start row := by
  simp [numberFrom, List.zipIdx_map, Token.numbered, Token.plain]

/-- Up to positions, what is read from a row is what is read from it once it is numbered. -/
theorem exists_reads_iff_numbered :
    (∃ parsed, Reads limit (.start (origin row)) row (.ok parsed) ∧ parsed.root.erase = tree) ↔
      ∃ parsed, Reads limit (.start 0) (numberFrom 0 row) (.ok parsed) ∧
        parsed.root.erase = tree := by
  constructor
  · rintro ⟨parsed, hreads, rfl⟩
    obtain ⟨_ | result, hnumbered, hresult⟩ := reads_iff_numbered.1 hreads
    · cases hresult
    · obtain rfl := Except.ok.inj hresult
      exact ⟨result, hnumbered, (result.root.erase_relocate _).symm⟩
  · rintro ⟨result, hnumbered, rfl⟩
    exact ⟨_, reads_iff_numbered.2 ⟨_, hnumbered, rfl⟩, result.root.erase_relocate _⟩

/-- Up to positions, only the kinds and the texts of a row matter. -/
theorem exists_reads_iff_plain :
    (∃ parsed, Reads limit (.start (origin row)) row (.ok parsed) ∧ parsed.root.erase = tree) ↔
      ∃ parsed, Reads limit (.start 0) (row.map Token.plain) (.ok parsed) ∧
        parsed.root.erase = tree := by
  have horigin : origin (row.map Token.plain) = 0 := by cases row <;> rfl
  rw [exists_reads_iff_numbered, ← numberFrom_map_plain, ← exists_reads_iff_numbered, horigin]

/-! ### Reading lines -/

/-- Up to positions, a line is read as what is left of it when its stream is condensed. -/
theorem exists_readLine_iff_condense {stream : TokenStream} :
    (∃ parsed, (readLine limit stream).1 = .ok parsed ∧ parsed.root.erase = tree) ↔
      ∃ parsed, Reads limit (.start 0) (TokenStream.line ⟨condense none stream.tokens, 0⟩)
        (.ok parsed) ∧ parsed.root.erase = tree := by
  obtain ⟨front, last, hline, hopen, hlast⟩ := stream.exists_line_eq
  simp only [readLine_ok_iff_reads]
  rw [exists_reads_iff_plain, ← condense_line none stream.tokens stream.endOffset, hline]
  have hstart (pos : Nat) : (State.start pos).expect.Follows none := trivial
  simp only [reads_condense_iff (hstart 0) hopen hlast]

/-- **Blanks matter only between factors and behind a dollar.** Streams that are the same once
condensed are read alike: a line can be read from either or from none, and the trees are the
same but for their positions. -/
theorem blanks_matter_between_factors (limit : Nat) (stream other : TokenStream)
    (h : condense none stream.tokens = condense none other.tokens) :
    ((∃ parsed, (readLine limit stream).1 = .ok parsed) ↔
      ∃ parsed, (readLine limit other).1 = .ok parsed) ∧
    ∀ parsed parsed', (readLine limit stream).1 = .ok parsed →
      (readLine limit other).1 = .ok parsed' → parsed'.root.erase = parsed.root.erase := by
  have htrees (tree : Sequence Node) :
      (∃ parsed, (readLine limit stream).1 = .ok parsed ∧ parsed.root.erase = tree) ↔
        ∃ parsed, (readLine limit other).1 = .ok parsed ∧ parsed.root.erase = tree := by
    rw [exists_readLine_iff_condense, exists_readLine_iff_condense, h]
  refine ⟨⟨fun ⟨parsed, hparsed⟩ ↦ ?_, fun ⟨parsed, hparsed⟩ ↦ ?_⟩, fun parsed parsed' hparsed
    hparsed' ↦ ?_⟩
  · obtain ⟨parsed', hparsed', -⟩ := (htrees _).1 ⟨parsed, hparsed, rfl⟩
    exact ⟨parsed', hparsed'⟩
  · obtain ⟨parsed', hparsed', -⟩ := (htrees _).2 ⟨parsed, hparsed, rfl⟩
    exact ⟨parsed', hparsed'⟩
  · obtain ⟨again, hagain, htree⟩ := (htrees _).1 ⟨parsed, hparsed, rfl⟩
    rw [← htree, Except.ok.inj (hparsed'.symm.trans hagain)]

/-- A group with a caret in it, a table behind a dollar, and a redirection, with blanks wherever
they do not matter. -/
def spacious : TokenStream where
  tokens := [⟨.space, " ", 0, false⟩, ⟨.leftParen, "(", 1, false⟩, ⟨.space, " ", 2, false⟩,
    ⟨.bare, "a", 3, false⟩, ⟨.space, " ", 4, false⟩, ⟨.space, " ", 5, false⟩,
    ⟨.caret, "^", 6, false⟩, ⟨.space, " ", 7, false⟩, ⟨.bare, "b", 8, false⟩,
    ⟨.space, " ", 9, false⟩, ⟨.rightParen, ")", 10, false⟩, ⟨.space, " ", 11, false⟩,
    ⟨.space, " ", 12, false⟩, ⟨.dollar, "$", 13, false⟩, ⟨.leftBracket, "[", 14, false⟩,
    ⟨.space, " ", 15, false⟩, ⟨.bare, "c", 16, false⟩, ⟨.space, " ", 17, false⟩,
    ⟨.rightBracket, "]", 18, false⟩, ⟨.space, " ", 19, false⟩, ⟨.leader, ">", 20, false⟩,
    ⟨.space, " ", 21, false⟩, ⟨.bare, "d", 22, false⟩, ⟨.space, " ", 23, false⟩,
    ⟨.endOfInput, "", 24, false⟩]
  endOffset := 24

/-- The same line without them, but for a tab between the group and the table. -/
def compact : TokenStream where
  tokens := [⟨.leftParen, "(", 0, false⟩, ⟨.bare, "a", 1, false⟩, ⟨.caret, "^", 2, false⟩,
    ⟨.bare, "b", 3, false⟩, ⟨.rightParen, ")", 4, false⟩, ⟨.space, "\t", 5, false⟩,
    ⟨.dollar, "$", 6, false⟩, ⟨.leftBracket, "[", 7, false⟩, ⟨.bare, "c", 8, false⟩,
    ⟨.rightBracket, "]", 9, false⟩, ⟨.leader, ">", 10, false⟩, ⟨.bare, "d", 11, false⟩,
    ⟨.endOfInput, "", 12, false⟩]
  endOffset := 12

theorem blanks_matter_between_factors_compact :
    condense none spacious.tokens = condense none compact.tokens ∧
      ∃ parsed parsed', (readLine 1 spacious).1 = .ok parsed ∧
        (readLine 1 compact).1 = .ok parsed' ∧ parsed'.root.erase = parsed.root.erase :=
  have h : condense none spacious.tokens = condense none compact.tokens := rfl
  ⟨h, _, _, rfl, rfl, (blanks_matter_between_factors 1 _ _ h).2 _ _ rfl rfl⟩

end Lines

end Parser

end PipelineSyntax
