import PipelineSyntax.Proofs.Lines
import PipelineSyntax.Proofs.Numbering
import PipelineSyntax.Proofs.Openers
import PipelineSyntax.Proofs.Viability

/-!
# Contexts of unexpected tokens

The context in which a token is refused as unexpected depends on nothing but the tokens in front
of it, read as a flat row. It is a factor exactly if one is wanted (`WantsFactor`): in front of
the first token that is no blank, behind one that demands a factor, and behind a bare `=` that
separates the parts of a pair. Otherwise it is told by the innermost of the openers that have not
been closed (`unclosed`).

Whether a bare `=` is such a separator, or a word like any other, lies in what stands in front
of it. It is said by the tree of a line that can be completed behind it: a literal that is taken
is a string of the tree, unless it separates the parts of a pair (`Separates`). It does not
matter how the line is completed, because the string of a token is held from then on, and known
by its number.
-/

namespace PipelineSyntax

namespace Parser

open Grammar (Line)

/-- The openers that a row has not closed, the innermost first. -/
def unclosed (row : List Token) : List Token.Kind :=
  row.foldl (fun openers token ↦ token.kind.track openers) []

/-- Behind the tokens, the bare `=` separates the parts of a pair: a line can be completed in
whose tree it is no string. -/
def Separates (limit : Nat) (front : List Token) (equals : Token) : Prop :=
  equals.isEquals = true ∧ ∃ continuation tree,
    Line limit (numberFrom 0 (front ++ equals :: continuation)) tree ∧
      ∀ raw text, .string front.length raw text ∉ tree.all

/-- Behind the tokens, a factor is wanted. -/
inductive WantsFactor (limit : Nat) : List Token → Prop
  /-- There have been blanks only. -/
  | start {blanks : List Token} (hblanks : Blanks blanks) : WantsFactor limit blanks
  /-- The last token but for blanks demands a factor. -/
  | behind {front blanks : List Token} {token : Token} (hdemands : token.demandsFactor = true)
      (hblanks : Blanks blanks) : WantsFactor limit (front ++ token :: blanks)
  /-- The last token but for blanks separates the parts of a pair. -/
  | value {front blanks : List Token} {equals : Token} (hequals : Separates limit front equals)
      (hblanks : Blanks blanks) : WantsFactor limit (front ++ equals :: blanks)

/-! ### Rows -/

section Rows

variable {start : Nat} {row : List Token}

theorem blanks_numberFrom (h : Blanks row) : Blanks (numberFrom start row) := by
  intro token hmem
  obtain ⟨⟨own, number⟩, hentry, rfl⟩ := List.mem_map.1 hmem
  exact h own (List.fst_mem_of_mem_zipIdx hentry)

theorem foldl_track_numberFrom (openers : List Token.Kind) :
    (numberFrom start row).foldl (fun openers token ↦ token.kind.track openers) openers =
      row.foldl (fun openers token ↦ token.kind.track openers) openers := by
  induction row generalizing start openers with
  | nil => rfl
  | cons token row ih => exact ih _

/-- A row has a last token that is no blank, unless it has blanks only. -/
theorem blanks_or_exists_last (row : List Token) :
    Blanks row ∨ ∃ front token blanks, row = front ++ token :: blanks ∧ token.kind ≠ .space ∧
      Blanks blanks := by
  induction row with
  | nil => exact .inl .nil
  | cons token row ih =>
    rcases ih with hblanks | ⟨front, last, blanks, rfl, hlast⟩
    · by_cases hkind : token.kind = .space
      · exact .inl (OfKind.cons_iff.2 ⟨hkind, hblanks⟩)
      · exact .inr ⟨[], token, row, rfl, hkind, hblanks⟩
    · exact .inr ⟨token :: front, last, blanks, rfl, hlast⟩

end Rows

variable {limit : Nat} {front row blanks : List Token} {state mid next : State} {token : Token}

/-! ### Separators -/

/-- Whatever tokens have been read, a line can be completed behind them. -/
theorem Steps.exists_continuation (h : Steps limit (.start 0) (numberFrom 0 row) state)
    (hrow : row ≠ []) :
    ∃ continuation parsed, Reads limit state (numberFrom row.length continuation) (.ok parsed) := by
  obtain ⟨parsed, hcompletion⟩ := reads_completion limit state
  have horigin : origin (numberFrom 0 row ++ state.completion) = 0 := by
    cases row with
    | nil => exact absurd rfl hrow
    | cons => rfl
  have hreads : Reads limit (.start (origin (numberFrom 0 row ++ state.completion)))
      (numberFrom 0 row ++ state.completion) (.ok parsed) := by
    rw [horigin]
    exact .prepend h hcompletion
  -- the completion can be numbered as well, and the row is numbered already
  obtain ⟨_ | result, hnumbered, hresult⟩ := reads_iff_numbered.1 hreads
  · cases hresult
  rw [numberFrom_append, numberFrom_numberFrom, length_numberFrom, Nat.zero_add] at hnumbered
  exact ⟨state.completion, result, hnumbered.behind h⟩

/-- A token that is followed by a term is no string, however the line goes on: what is held in
front of it has smaller numbers, and what is read behind it has greater ones. -/
theorem Steps.string_notMem_of_expect_eq_term {continuation : List Token} {parsed : Parsed}
    (h : Steps limit (.start 0) (numberFrom 0 front) mid)
    (hstep : mid.step limit (token.numbered front.length) = .ok (.more next))
    (hterm : next.expect = .term)
    (hreads : Reads limit next (numberFrom (front.length + 1) continuation) (.ok parsed))
    (raw text : String) : .string front.length raw text ∉ parsed.root.all := by
  have hmid := h.holds (holds_start limit 0)
  have hgains := State.step_gains hmid (token.numbered front.length)
  have hsound := State.step_sound hmid (token.numbered front.length)
  rw [hstep] at hgains hsound
  obtain ⟨before, hbefore⟩ := h.exists_adds (holds_start limit 0)
  obtain ⟨behind, hbehind⟩ := hreads.exists_adds hsound
  obtain ⟨hstrings, -, -⟩ | ⟨-, -, -, -, hmore⟩ := hgains
  · rw [← Sequence.mem_strings, hbehind.strings_eq, hstrings, hbefore.strings_eq, strings_start,
      zero_add, Multiset.mem_add]
    rintro (hmem | hmem)
    · have hlt := hbefore.offset_lt hmem
      rw [Nat.zero_add] at hlt
      exact Nat.lt_irrefl _ hlt
    · exact Nat.not_succ_le_self _ (hbehind.le_offset hmem)
  · rw [hterm] at hmore
    cases hmore

/-- A bare `=` that the machine takes is followed by a term exactly if it separates the parts of
a pair. -/
theorem Steps.expect_eq_term_iff (h : Steps limit (.start 0) (numberFrom 0 front) mid)
    (hstep : mid.step limit (token.numbered front.length) = .ok (.more next))
    (hequals : token.isEquals = true) :
    next.expect = .term ↔ Separates limit front token := by
  constructor
  · intro hterm
    have hsteps := h.append (.single hstep)
    have hrow : numberFrom 0 (front ++ [token]) =
        numberFrom 0 front ++ [token.numbered front.length] := by
      rw [numberFrom_append, Nat.zero_add]
      rfl
    rw [← hrow] at hsteps
    obtain ⟨continuation, parsed, hreads⟩ := hsteps.exists_continuation (by simp)
    have hline : Line limit (numberFrom 0 (front ++ [token] ++ continuation)) parsed.root := by
      refine Reads.derives ?_
      rw [origin_numberFrom, numberFrom_append, Nat.zero_add]
      exact .prepend hsteps hreads
    rw [List.append_assoc] at hline
    rw [List.length_append] at hreads
    exact ⟨hequals, continuation, parsed.root, hline,
      h.string_notMem_of_expect_eq_term hstep hterm hreads⟩
  · rintro ⟨-, continuation, tree, hline, hnone⟩
    obtain ⟨hint, hreads⟩ := hline.reads (Nat.le_refl limit)
    rw [origin_numberFrom, numberFrom_append, Nat.zero_add] at hreads
    have hrest := Reads.cons_iff.1 (hreads.behind h)
    have hmid := h.holds (holds_start limit 0)
    have hgains := State.step_gains hmid (token.numbered front.length)
    have hsound := State.step_sound hmid (token.numbered front.length)
    rw [hstep] at hrest hgains hsound
    obtain ⟨added, hadds⟩ := Reads.exists_adds hrest hsound
    obtain ⟨-, -, hliteral⟩ | ⟨-, -, hstrings, -, -⟩ := hgains
    · refine hliteral ?_
      rw [Token.numbered, Token.kind_of_isEquals hequals]
      rfl
    -- a string of the token would be held from then on
    · rename_i text _
      refine absurd (Sequence.mem_strings.1 ?_) (hnone token.text text)
      rw [hadds.strings_eq, hstrings]
      exact Multiset.mem_add.2 (.inl (Multiset.mem_add.2 (.inr (Multiset.mem_singleton_self _))))

/-- What separates the parts of a pair is no string of the line, however it is completed. -/
theorem Separates.string_notMem (h : Separates limit front token) {continuation : List Token}
    {tree : Sequence Node}
    (hline : Line limit (numberFrom 0 (front ++ token :: continuation)) tree)
    (raw text : String) : .string front.length raw text ∉ tree.all := by
  obtain ⟨hint, hreads⟩ := hline.reads (Nat.le_refl limit)
  rw [origin_numberFrom, numberFrom_append, Nat.zero_add, numberFrom_cons] at hreads
  obtain ⟨mid, hfront, hback⟩ := hreads.split (List.cons_ne_nil _ _)
  rw [Reads.cons_iff] at hback
  rcases hstep : mid.step limit (token.numbered front.length) with abort | next | parsed
  · rw [hstep] at hback
    cases hback.2
  · rw [hstep] at hback
    have hterm := (hfront.expect_eq_term_iff hstep h.1).2 h
    exact hfront.string_notMem_of_expect_eq_term hstep hterm hback raw text
  -- a bare `=` does not end the line
  · have hends := (State.closed_of_step_done hstep).1
    rw [Token.numbered, Token.kind_of_isEquals h.1] at hends
    cases hends

/-! ### What is wanted -/

/-- Behind a token that is no blank, and blanks, a factor is wanted exactly if the token demands
one or separates the parts of a pair. -/
theorem Steps.wantsFactor_iff_of_last
    (h : Steps limit (.start 0) (numberFrom 0 (front ++ token :: blanks)) state)
    (hkind : token.kind ≠ .space) (hblanks : Blanks blanks) :
    state.expect.wantsFactor = true ↔
      token.demandsFactor = true ∨ Separates limit front token := by
  rw [numberFrom_append, Nat.zero_add] at h
  obtain ⟨mid, hfront, hback⟩ := h.split
  obtain _ | @⟨_, next, _, _, _, hstep, hrest⟩ := hback
  have hmid := hfront.holds (holds_start limit 0)
  have hsound := State.step_sound hmid (token.numbered front.length)
  have htracks := State.step_tracks hmid (token.numbered front.length)
  rw [hstep] at hsound htracks
  rw [hrest.wantsFactor_eq hsound (blanks_numberFrom hblanks)]
  obtain ⟨hspace, -, -⟩ | ⟨hequals, -, hexpect⟩ | ⟨-, -, hwants⟩ := htracks
  · exact absurd hspace hkind
  · rw [hexpect]
    exact iff_of_true rfl (.inr ((hfront.expect_eq_term_iff hstep hequals).1 hexpect))
  · rw [hwants]
    refine ⟨.inl, ?_⟩
    rintro (hdemands | hseparates)
    · exact hdemands
    · have hexpect := (hfront.expect_eq_term_iff hstep hseparates.1).2 hseparates
      rw [← hwants, hexpect]
      rfl

/-- Whether a factor is wanted is told by the row. -/
theorem Steps.wantsFactor_iff (h : Steps limit (.start 0) (numberFrom 0 row) state) :
    state.expect.wantsFactor = true ↔ WantsFactor limit row := by
  constructor
  · intro hwants
    rcases blanks_or_exists_last row with hblanks | ⟨front, token, blanks, rfl, hkind, hblanks⟩
    · exact .start hblanks
    · rcases (h.wantsFactor_iff_of_last hkind hblanks).1 hwants with hdemands | hseparates
      · exact .behind hdemands hblanks
      · exact .value hseparates hblanks
  · intro hwants
    cases hwants with
    | start hblanks => rw [h.wantsFactor_eq (holds_start limit 0) (blanks_numberFrom hblanks)]; rfl
    | behind hdemands hblanks =>
      refine (h.wantsFactor_iff_of_last (fun hkind ↦ ?_) hblanks).2 (.inl hdemands)
      simp [Token.demandsFactor, hkind] at hdemands
    | value hseparates hblanks =>
      refine (h.wantsFactor_iff_of_last (fun hkind ↦ ?_) hblanks).2 (.inr hseparates)
      cases hkind.symm.trans (Token.kind_of_isEquals hseparates.1)

/-! ### The theorem -/

/-- **The context of an unexpected token is told by the tokens in front of it.** It is a factor
exactly if one is wanted there. Otherwise it is the end of the pipeline if no opener is left
unclosed, and what stands inside of a group or of a table if the innermost one opens that. -/
theorem context_of_unexpected {limit : Nat} {stream : TokenStream} {abort : Abort}
    {found context : String} {kind : Token.Kind} (h : (readLine limit stream).1 = .error abort)
    (hcause : abort.cause = .unexpected found kind context) :
    ∃ front last, pulled limit stream = front ++ [last] ∧
      (context = "factor" ↔ WantsFactor limit front) ∧
      (¬ WantsFactor limit front →
        (unclosed front = [] ∧ context = "end of pipeline") ∨
        ((unclosed front).head? = some .leftParen ∧ context = "factor of item list") ∨
        ((unclosed front).head? = some .leftBracket ∧ context = "table literal")) := by
  have hreads := reads_pulled limit stream
  rw [h] at hreads
  obtain ⟨front, last, hpulled, -, -⟩ := pulled_of_error h
  rw [hpulled] at hreads
  obtain ⟨abort' | _, hnumbered, hresult⟩ := reads_iff_numbered.1 hreads
  case ok => cases hresult
  obtain rfl := Except.error.inj hresult
  rw [numberFrom_append] at hnumbered
  obtain ⟨front', last', state, hrow, hsteps, herror⟩ := hnumbered.split_error
  obtain ⟨rfl, -⟩ := List.append_inj' hrow rfl
  -- the state in front of the token names the context
  have htracks := State.step_tracks (hsteps.holds (holds_start limit 0)) last'
  rw [herror] at htracks
  have hcontext : context = state.production.name := htracks hcause
  have hopeners : state.openers = unclosed front := by
    rw [hsteps.openers_eq (holds_start limit 0), foldl_track_numberFrom]
    rfl
  refine ⟨front, last, hpulled, ?_⟩
  rw [← hsteps.wantsFactor_iff, ← hopeners, hcontext, State.production]
  cases state.expect.wantsFactor with
  | true => exact ⟨iff_of_true rfl rfl, fun hnot ↦ absurd rfl hnot⟩
  | false =>
    rcases state.openers_cases with hnone | ⟨outer, hgroup⟩ | ⟨outer, htable⟩
    · have hne : "end of pipeline" ≠ "factor" := by decide
      rw [hnone]
      exact ⟨iff_of_false hne Bool.false_ne_true, fun _ ↦ .inl ⟨rfl, rfl⟩⟩
    · have hne : "factor of item list" ≠ "factor" := by decide
      rw [hgroup]
      exact ⟨iff_of_false hne Bool.false_ne_true, fun _ ↦ .inr (.inl ⟨rfl, rfl⟩)⟩
    · have hne : "table literal" ≠ "factor" := by decide
      rw [htable]
      exact ⟨iff_of_false hne Bool.false_ne_true, fun _ ↦ .inr (.inr ⟨rfl, rfl⟩)⟩

/-- A table with words in it, and a bar in place of its end. -/
def barInTable (words : List Token) : TokenStream where
  tokens := ⟨.leftBracket, "[", 0, false⟩ :: (words ++ [⟨.pipe, "|", 3, false⟩])
  endOffset := 4

/-- The first `=` in a table is an element, and a second one makes a key of it. -/
theorem context_of_unexpected_barInTable :
    let left : Token := ⟨.leftBracket, "[", 0, false⟩
    let first : Token := ⟨.bare, "=", 1, false⟩
    let second : Token := ⟨.bare, "=", 2, false⟩
    (readLine 1 (barInTable [first])).1 =
        .error ⟨3, .unexpected "`|`" .pipe "table literal"⟩ ∧
      ¬ WantsFactor 1 [left, first] ∧
    (readLine 1 (barInTable [first, second])).1 =
        .error ⟨3, .unexpected "`|`" .pipe "factor"⟩ ∧
      WantsFactor 1 [left, first, second] := by
  intro left first second
  obtain ⟨front, last, hpulled, hfactor, -⟩ :=
    @context_of_unexpected 1 (barInTable [first]) _ _ _ _ rfl rfl
  have hall : [left, first] ++ [⟨.pipe, "|", 3, false⟩] = front ++ [last] := hpulled
  obtain ⟨rfl, -⟩ := List.append_inj' hall rfl
  obtain ⟨front, last, hpulled, hfactor', -⟩ :=
    @context_of_unexpected 1 (barInTable [first, second]) _ _ _ _ rfl rfl
  have hall : [left, first, second] ++ [⟨.pipe, "|", 3, false⟩] = front ++ [last] := hpulled
  obtain ⟨rfl, -⟩ := List.append_inj' hall rfl
  exact ⟨rfl, fun hwants ↦ absurd (hfactor.2 hwants) (by decide), rfl, hfactor'.1 rfl⟩

end Parser

end PipelineSyntax
