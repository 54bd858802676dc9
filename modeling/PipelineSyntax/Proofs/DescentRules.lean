import PipelineSyntax.Parser.Descent
import PipelineSyntax.Proofs.CursorIndex
import PipelineSyntax.Proofs.DepthLimit

/-!
# Rules for reading by descent

Reading by descent is followed by the machine: wherever a function begins or ends, the machine
has read the tokens that have been taken, and stands in a state that is known. Three facts are
passed from call to call:

* `Reached`: the machine does to the next token what it does in the given state;
* `Taken`: that token has been taken, and the machine has not read it yet;
* `Decided`: the tokens that have been pulled decide the outcome.

`Returns` says of a reading that it ends, and either gives what is claimed or has failed. There
is one rule about it for each thing that is done to a desk.

The machine reads a token before what it leads to is known. So a state stands for all those
that do the same to the next token: a term that has ended, for one, is left in the state behind
a blank, whether or not there has been one.
-/

namespace PipelineSyntax

open TokenSource (token)

/-! ### The first tokens of a stream -/

namespace TokenStream

theorem take_snd (count : Nat) (stream : TokenStream) :
    (stream.take count).2 = TokenSource.drop count stream := by
  induction count generalizing stream with
  | zero => rfl
  | succ count ih => exact ih stream.pull.2

theorem length_tokens_drop (count : Nat) (stream : TokenStream) :
    (TokenSource.drop count stream).tokens.length = stream.tokens.length - count := by
  induction count generalizing stream with
  | zero => rfl
  | succ count ih =>
    have hpull := length_pull_tokens stream
    have hdrop := ih stream.pull.2
    rw [hpull, Nat.sub_sub, Nat.add_comm 1] at hdrop
    exact hdrop

/-- Behind its tokens a stream gives the end of the input for ever. -/
theorem token_of_length_le {stream : TokenStream} {index : Nat}
    (h : stream.tokens.length ≤ index) : ∃ offset, token stream index = .endOfInput offset := by
  have hnil : (TokenSource.drop index stream).tokens = [] := by
    rw [← List.length_eq_zero_iff, length_tokens_drop, Nat.sub_eq_zero_of_le h]
  refine ⟨(TokenSource.drop index stream).endOffset, ?_⟩
  simp only [token, TokenSource.pull, TokenStream.pull, hnil]

end TokenStream

namespace Parser

/-! ### The machine behind a descent -/

section Follows

variable {limit : Nat} {source : TokenStream} {state state' : State} {given : Nat}

/-- The machine has read the tokens that have been given, and does to the next one what it
does in the given state. -/
def Follows (limit : Nat) (source : TokenStream) (state : State) (given : Nat) : Prop :=
  ∃ last, Steps limit (.start source.pull.1.offset) (source.take given).1 last ∧
    last.step limit (token source given) = state.step limit (token source given)

namespace Follows

theorem start (limit : Nat) (source : TokenStream) :
    Follows limit source (.start source.pull.1.offset) 0 :=
  ⟨_, .nil _, rfl⟩

/-- What does the same to the next token may stand for it. -/
theorem congr (h : Follows limit source state given)
    (heq : state.step limit (token source given) = state'.step limit (token source given)) :
    Follows limit source state' given := by
  obtain ⟨last, hsteps, hlast⟩ := h
  exact ⟨last, hsteps, hlast.trans heq⟩

theorem more (h : Follows limit source state given)
    (hstep : state.step limit (token source given) = .ok (.more state')) :
    Follows limit source state' (given + 1) := by
  obtain ⟨last, hsteps, hlast⟩ := h
  rw [Follows, TokenStream.take_succ_fst]
  exact ⟨state', hsteps.append (.single (hlast.trans hstep)), rfl⟩

/-- Blanks that a state skips. -/
theorem skip {solid : Nat} (h : Follows limit source state given)
    (hskips : ∀ blank : Token, blank.kind = .space → state.step limit blank = .ok (.more state))
    (hsolid : Cursor.Index.NextSolid (token source) given solid) :
    Follows limit source state solid := by
  obtain ⟨hle, -, hspace⟩ := hsolid
  induction hle with
  | refl => exact h
  | @step index hle ih =>
    have hfollows := ih fun blank hgiven hindex ↦ hspace blank hgiven (Nat.lt_succ_of_lt hindex)
    exact hfollows.more (hskips _ (hspace index hle (Nat.lt_succ_self index)))

theorem reads_error {abort : Abort} (h : Follows limit source state given)
    (hstep : state.step limit (token source given) = .error abort) :
    Reads limit (.start source.pull.1.offset) (source.take (given + 1)).1 (.error abort) := by
  obtain ⟨last, hsteps, hlast⟩ := h
  rw [TokenStream.take_succ_fst]
  exact .prepend hsteps (.reject (hlast.trans hstep))

theorem reads_done {parsed : Parsed} (h : Follows limit source state given)
    (hstep : state.step limit (token source given) = .ok (.done parsed)) :
    Reads limit (.start source.pull.1.offset) (source.take (given + 1)).1 (.ok parsed) := by
  obtain ⟨last, hsteps, hlast⟩ := h
  rw [TokenStream.take_succ_fst]
  exact .prepend hsteps (.accept (hlast.trans hstep))

/-- Only tokens of the stream leave the line open, and not the end behind them. -/
theorem given_le (h : Follows limit source state given) : given ≤ source.tokens.length := by
  obtain ⟨last, hsteps, -⟩ := h
  rcases Nat.lt_or_ge source.tokens.length given with hlt | hle
  · have hmem : token source source.tokens.length ∈ (source.take given).1 := by
      have hprefix := TokenStream.take_prefix hlt source
      rw [TokenStream.take_succ_fst] at hprefix
      exact hprefix.subset (List.mem_append_right _ (List.mem_singleton_self _))
    obtain ⟨offset, hend⟩ := TokenStream.token_of_length_le (Nat.le_refl source.tokens.length)
    have hopen := hsteps.endsLine_eq_false _ hmem
    rw [hend] at hopen
    cases hopen
  · exact hle

end Follows

end Follows

/-! ### Where blanks are skipped -/

/-- A blank leaves the machine in the state, whatever the hint. -/
def State.SkipsBlanks (limit : Nat) (state : State) : Prop :=
  ∀ hint (blank : Token), blank.kind = .space →
    State.step limit { state with hint } blank = .ok (.more { state with hint })

section SkipsBlanks

variable {limit : Nat} {line : OpenLine} {stack : List Bracket} {hint : Option Hint}

theorem skipsBlanks_line : State.SkipsBlanks limit ⟨line, stack, .line, hint⟩ :=
  fun _ _ hkind ↦ by simp [State.step, hkind]

theorem skipsBlanks_term : State.SkipsBlanks limit ⟨line, stack, .term, hint⟩ :=
  fun _ _ hkind ↦ by simp [State.step, hkind]

theorem skipsBlanks_joined {term : OpenTerm} :
    State.SkipsBlanks limit ⟨line, stack, .joined term, hint⟩ :=
  fun _ _ hkind ↦ by simp [State.step, hkind]

theorem skipsBlanks_element {place : Place} {table : OpenTable} :
    State.SkipsBlanks limit ⟨line, stack, .element place table, hint⟩ :=
  fun _ _ hkind ↦ by
    simp [State.step, State.readElement, hkind, Token.Kind.startsFactor, Except.map]

theorem skipsBlanks_more {term : OpenTerm} :
    State.SkipsBlanks limit ⟨line, stack, .more term true, hint⟩ :=
  fun _ _ hkind ↦ by simp [State.step, State.readMore, hkind]

theorem skipsBlanks_tail : State.SkipsBlanks limit ⟨line, stack, .tail, hint⟩ :=
  fun _ _ hkind ↦ by simp [State.step, hkind]

end SkipsBlanks

/-! ### Desks -/

/-- A descent that has taken the given number of tokens stands where the machine stands in the
given state, whose hint is left out of account. At most one token is pending. -/
structure Reached (limit : Nat) (source : TokenStream) (desk : Desk) (state : State)
    (given : Nat) : Prop where
  cursor : ∃ pulled ≤ given + 1, Cursor.Holds source given pulled desk.cursor
  peak_le : desk.peak ≤ 1
  depth_eq : desk.depth = state.depth
  follows : Follows limit source { state with hint := desk.hint } given

/-- A token has been taken in the given state, but not been read by the machine. -/
structure Taken (limit : Nat) (source : TokenStream) (desk : Desk) (taken : Token)
    (state : State) (given : Nat) : Prop where
  eq : taken = token source given
  cursor : Cursor.Holds source (given + 1) (given + 1) desk.cursor
  peak_le : desk.peak ≤ 1
  depth_eq : desk.depth = state.depth
  follows : Follows limit source { state with hint := desk.hint } given

/-- The machine has come to an outcome with the tokens that have been pulled. -/
structure Decided (limit : Nat) (source : TokenStream) (desk : Desk)
    (outcome : Except Abort Parsed) : Prop where
  peak_le : desk.peak ≤ 1
  reads : ∃ count, Reads limit (.start source.pull.1.offset) (source.take count).1 outcome ∧
    desk.cursor.stream = TokenSource.drop count source

variable {limit : Nat} {source : TokenStream} {desk : Desk} {state state' : State} {given : Nat}
  {taken : Token}

namespace Reached

theorem congr (h : Reached limit source desk state given) (other : State)
    (hstep : State.step limit { state with hint := desk.hint } (token source given) =
      State.step limit { other with hint := desk.hint } (token source given))
    (hdepth : state.depth = other.depth) : Reached limit source desk other given :=
  { h with
    depth_eq := h.depth_eq.trans hdepth
    follows := h.follows.congr hstep }

end Reached

namespace Taken

/-- The machine reads the token that has been taken. -/
theorem more {hint : Option Hint} {depth : Nat} (h : Taken limit source desk taken state given)
    (hstep : State.step limit { state with hint := desk.hint } taken =
      .ok (.more { state' with hint })) (hdepth : depth = state'.depth) :
    Reached limit source { desk with hint, depth } state' (given + 1) where
  cursor := ⟨given + 1, Nat.le_succ _, h.cursor⟩
  peak_le := h.peak_le
  depth_eq := hdepth
  follows := h.follows.more (h.eq ▸ hstep)

/-- Most tokens change neither the hint nor the depth. -/
theorem read (h : Taken limit source desk taken state given) (next : State)
    (hstep : State.step limit { state with hint := desk.hint } taken =
      .ok (.more { next with hint := desk.hint })) (hdepth : state.depth = next.depth) :
    Reached limit source desk next (given + 1) :=
  h.more hstep (h.depth_eq.trans hdepth)

theorem failed {abort : Abort} (h : Taken limit source desk taken state given)
    (hstep : State.step limit { state with hint := desk.hint } taken = .error abort) :
    Decided limit source desk (.error abort) where
  peak_le := h.peak_le
  reads := ⟨given + 1, h.follows.reads_error (h.eq ▸ hstep), h.cursor.stream_eq⟩

end Taken

/-! ### Readings that end -/

section Returns

variable {α β : Type}

/-- Reading from a desk ends, and gives what the claim says unless it fails. -/
def Returns (limit : Nat) (source : TokenStream) (reading : Descent α) (desk : Desk)
    (claim : α → Desk → Prop) : Prop :=
  ∃ outcome desk', reading.run.run desk = some (outcome, desk') ∧
    match outcome with
    | .ok a => claim a desk'
    | .error abort => Decided limit source desk' (.error abort)

namespace Returns

variable {reading : Descent α} {claim claim' : α → Desk → Prop} {claims : β → Desk → Prop}

theorem pure {a : α} (h : claim a desk) : Returns limit source (pure a) desk claim :=
  ⟨.ok a, desk, rfl, h⟩

theorem throw {abort : Abort} (h : Decided limit source desk (.error abort)) :
    Returns limit source (throw abort) desk claim :=
  ⟨.error abort, desk, rfl, h⟩

theorem get :
    Returns limit source get desk fun desk₁ desk₂ ↦ desk₁ = desk ∧ desk₂ = desk :=
  ⟨.ok desk, desk, rfl, rfl, rfl⟩

theorem set (desk' : Desk) : Returns limit source (set desk') desk fun _ desk₁ ↦ desk₁ = desk' :=
  ⟨.ok (), desk', rfl, rfl⟩

theorem modify (f : Desk → Desk) :
    Returns limit source (modify f) desk fun _ desk₁ ↦ desk₁ = f desk :=
  ⟨.ok (), f desk, rfl, rfl⟩

theorem bind {next : α → Descent β} (h : Returns limit source reading desk claim)
    (hnext : ∀ a desk', claim a desk' → Returns limit source (next a) desk' claims) :
    Returns limit source (reading >>= next) desk claims := by
  obtain ⟨outcome, desk', hrun, houtcome⟩ := h
  have hbind : (reading >>= next).run.run desk =
      (match outcome with
        | .ok a => (next a).run.run desk'
        | .error abort => some (.error abort, desk')) := by
    simp only [ExceptT.run_bind, StateT.run_bind, hrun]
    cases outcome <;> rfl
  cases outcome with
  | error abort => exact ⟨.error abort, desk', hbind, houtcome⟩
  | ok a =>
    obtain ⟨outcome, desk'', hrun, houtcome⟩ := hnext a desk' houtcome
    exact ⟨outcome, desk'', hbind.trans hrun, houtcome⟩

theorem mono (h : Returns limit source reading desk claim)
    (hclaim : ∀ a desk', claim a desk' → claim' a desk') :
    Returns limit source reading desk claim' := by
  obtain ⟨outcome, desk', hrun, houtcome⟩ := h
  refine ⟨outcome, desk', hrun, ?_⟩
  cases outcome with
  | error abort => exact houtcome
  | ok a => exact hclaim a desk' houtcome

end Returns

end Returns

/-! ### Tokens -/

/-- A cursor with at most one token pending leaves the account of them at one. -/
theorem Desk.moved_peak_le {pulled : Nat} {cursor : Cursor} (h : desk.peak ≤ 1)
    (hpulled : pulled ≤ given + 1) (hcursor : Cursor.Holds source given pulled cursor) :
    (desk.moved cursor).peak ≤ 1 := by
  have hlength := hcursor.length_pending
  exact Nat.max_le.2 ⟨h, by omega⟩

namespace Reached

open Descent

theorem next (h : Reached limit source desk state given) :
    Returns limit source Descent.next desk fun taken desk' ↦
      Taken limit source desk' taken state given := by
  obtain ⟨pulled, hpulled, hholds⟩ := h.cursor
  obtain ⟨htoken, hholds⟩ := hholds.next
  rw [Nat.max_eq_right hpulled] at hholds
  exact ⟨.ok desk.cursor.next.1, desk.moved desk.cursor.next.2, rfl, htoken, hholds,
    Desk.moved_peak_le h.peak_le (Nat.le_succ _) hholds, h.depth_eq, h.follows⟩

theorem peek (h : Reached limit source desk state given) :
    Returns limit source Descent.peek desk fun next desk' ↦
      next = token source given ∧ Reached limit source desk' state given ∧
        desk'.cursor.stream = TokenSource.drop (given + 1) source := by
  obtain ⟨pulled, hpulled, hholds⟩ := h.cursor
  obtain ⟨htoken, hholds⟩ := hholds.peek
  rw [Nat.max_eq_right hpulled] at hholds
  exact ⟨.ok desk.cursor.peek.1, desk.moved desk.cursor.peek.2, rfl, htoken,
    ⟨⟨given + 1, Nat.le_refl _, hholds⟩, Desk.moved_peak_le h.peak_le (Nat.le_refl _) hholds,
      h.depth_eq, h.follows⟩, hholds.stream_eq⟩

/-- Blanks are skipped where the machine skips them. -/
theorem nextNonSpace (h : Reached limit source desk state given)
    (hskips : state.SkipsBlanks limit) :
    Returns limit source Descent.nextNonSpace desk fun taken desk' ↦
      ∃ solid, Cursor.Index.NextSolid (token source) given solid ∧
        Taken limit source desk' taken state solid := by
  obtain ⟨pulled, hpulled, hholds⟩ := h.cursor
  obtain ⟨solid, hsolid, htoken, hholds⟩ := hholds.nextNonSpace
  have hle := hsolid.le
  rw [Nat.max_eq_right (by omega : pulled ≤ solid + 1)] at hholds
  exact ⟨.ok desk.cursor.nextNonSpace.1, desk.moved desk.cursor.nextNonSpace.2, rfl, solid, hsolid,
    htoken, hholds,
    Desk.moved_peak_le h.peak_le (Nat.le_succ _) hholds, h.depth_eq,
    h.follows.skip (hskips desk.hint) hsolid⟩

end Reached

/-- There is always room to put back the token that has been taken last. -/
theorem Taken.backup (h : Taken limit source desk taken state given) :
    Returns limit source Descent.backup desk fun _ desk' ↦
      Reached limit source desk' state given := by
  obtain ⟨-, -, hback, hholds⟩ | ⟨hnot, -⟩ := h.cursor.backup
  · rcases hbackup : desk.cursor.backup with ⟨answer, cursor⟩
    rw [hbackup] at hback hholds
    cases hback
    rw [Descent.backup]
    refine Returns.get.bind ?_
    rintro _ _ ⟨rfl, rfl⟩
    rw [hbackup]
    refine (Returns.set _).bind ?_
    rintro _ _ rfl
    exact .pure ⟨⟨given + 1, Nat.le_refl _, hholds⟩,
      Desk.moved_peak_le h.peak_le (Nat.le_refl _) hholds, h.depth_eq, h.follows⟩
  · exact absurd ⟨Nat.succ_pos given, by omega⟩ hnot

namespace Reached

theorem peekNonSpace (h : Reached limit source desk state given)
    (hskips : state.SkipsBlanks limit) :
    Returns limit source Descent.peekNonSpace desk fun next desk' ↦
      ∃ solid, Cursor.Index.NextSolid (token source) given solid ∧ next = token source solid ∧
        Reached limit source desk' state solid ∧
        desk'.cursor.stream = TokenSource.drop (solid + 1) source := by
  refine (h.nextNonSpace hskips).bind fun taken desk₁ ⟨solid, hsolid, htaken⟩ ↦ ?_
  refine htaken.backup.bind fun _ desk₂ hreached ↦ hreached.peek.mono ?_
  rintro next desk₃ ⟨rfl, hreached, hstream⟩
  exact ⟨solid, hsolid, rfl, hreached, hstream⟩

end Reached

end Parser

end PipelineSyntax
