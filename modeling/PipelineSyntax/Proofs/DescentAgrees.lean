import PipelineSyntax.Proofs.Causes
import PipelineSyntax.Proofs.Completeness
import PipelineSyntax.Proofs.DescentRules

/-!
# Reading by descent agrees with the machine

Every function of the descent ends, and does to the tokens what the machine does to them. There
is one statement about each of them, which says from which state it begins and in which one it
leaves the machine. They are proved together, by induction on the number of tokens that are left
(`AllReturn`): a function that calls itself again has taken a token in between, and the tokens of
a stream that leave the line open run out.

What follows for whole lines is said by `descent_ends`: the outcomes are the same, and so is the
stream that is left.
-/

open PipelineSyntax.TokenSource (token)

namespace PipelineSyntax

namespace Parser

open Descent Reader

variable {limit : Nat} {source : TokenStream} {desk : Desk} {line : OpenLine}
  {stack : List Bracket} {given : Nat} {taken : Token} {place : Place}

theorem Reached.given_le {state : State} (h : Reached limit source desk state given) :
    given ≤ source.tokens.length :=
  h.follows.given_le

/-! ### What the machine does to a token -/

section Steps

variable {token : Token} {term : OpenTerm} {table : OpenTable} {hint : Option Hint}

theorem step_literal_error {fault : Literal.Fault} (hkind : token.kind.isLiteral = true)
    (htext : token.decode = .error fault) :
    State.step limit ⟨line, stack, .primary place, hint⟩ token =
      .error ⟨token.offset, .literal fault⟩ := by
  have hkinds : token.kind = .bare ∨ token.kind = .singleQuoted ∨ token.kind = .doubleQuoted := by
    revert hkind
    cases token.kind <;> simp [Token.Kind.isLiteral]
  rcases hkinds with h | h | h <;> simp [State.step, State.readPrimary, h, htext, Except.map]

theorem step_primary_unfit (hkind : token.kind.startsFactor = false) :
    State.step limit ⟨line, stack, .primary place, hint⟩ token =
      .error (.unexpected token Production.factor.name) := by
  revert hkind
  cases hkind : token.kind <;>
    simp [State.step, State.readPrimary, hkind, Except.map, Token.Kind.startsFactor]

theorem step_enter_group (hkind : token.kind = .leftParen) :
    State.step limit ⟨line, stack, .primary place, hint⟩ token =
      if stack.length < limit then .ok (.more ⟨line, ⟨place, .group []⟩ :: stack, .term, hint⟩)
      else .error ⟨token.offset, .depth limit⟩ := by
  simp only [State.step, State.readPrimary, hkind, State.enter]
  split <;> rfl

theorem step_enter_table (hkind : token.kind = .leftBracket) :
    State.step limit ⟨line, stack, .primary place, hint⟩ token =
      if stack.length < limit then .ok (.more ⟨line, stack, .table place, hint⟩)
      else .error ⟨token.offset, .depth limit⟩ := by
  simp only [State.step, State.readPrimary, hkind, State.enter]
  split <;> rfl

/-- Where a term must begin, everything but a blank is read as a factor. -/
theorem step_term_solid (hspace : token.kind ≠ .space) :
    State.step limit ⟨line, stack, .term, hint⟩ token =
      State.step limit ⟨line, stack, .primary (.start token.offset), hint⟩ token := by
  simp only [State.step, hspace, if_false]
  rfl

theorem step_joined_solid (hspace : token.kind ≠ .space) :
    State.step limit ⟨line, stack, .joined term, hint⟩ token =
      State.step limit ⟨line, stack, .primary { term, pos := token.offset, join := .caret }, hint⟩
        token := by
  simp only [State.step, hspace, if_false]
  rfl

/-- A term has ended at a token, which is then read by what the term belongs to. -/
structure Ended (token : Token) : Prop where
  ne_space : token.kind ≠ .space
  ne_caret : token.kind ≠ .caret

theorem Ended.step (h : Ended token) :
    State.step limit ⟨line, stack, .more term true, hint⟩ token =
      State.endTerm limit ⟨line, stack, .more term true, hint⟩ term token := by
  simp only [State.step, State.readMore, h.ne_space, h.ne_caret, if_false, Bool.not_true,
    Bool.and_false, Bool.false_and, Bool.false_eq_true]

/-- A token that is not joined at once does what it does behind a blank. -/
theorem step_unjoined
    (h : (token.kind.startsFactor &&
      !(State.atKey ⟨line, stack, .more term false, hint⟩ && token.isEquals)) = false) :
    State.step limit ⟨line, stack, .more term false, hint⟩ token =
      State.step limit ⟨line, stack, .more term true, hint⟩ token := by
  have hfalse : (token.kind.startsFactor && !false &&
      !(State.atKey ⟨line, stack, .more term false, hint⟩ && token.isEquals)) = false := by
    rwa [Bool.not_false, Bool.and_true]
  simp only [State.step, State.readMore, hfalse, Bool.not_true, Bool.and_false, Bool.false_and,
    Bool.false_eq_true, if_false]
  rfl

theorem step_group_unfit {terms : List Node} (h : Ended token)
    (hfactor : token.kind.startsFactor = false) (hkind : token.kind ≠ .rightParen) :
    State.step limit ⟨line, ⟨place, .group terms⟩ :: stack, .more term true, hint⟩ token =
      .error (.unexpected token Production.group.name) := by
  rw [h.step]
  simp [State.endTerm, hfactor, hkind]

theorem step_element_unfit (hfactor : token.kind.startsFactor = false)
    (hspace : token.kind ≠ .space) (hkind : token.kind ≠ .rightBracket) :
    State.step limit ⟨line, stack, .element place table, hint⟩ token =
      .error (.unexpected token Production.table.name) := by
  simp only [State.step, State.readElement, hfactor]
  revert hspace hkind
  cases token.kind <;> simp [Except.map]

/-- The token behind the bracket of a table is where the table begins. -/
theorem step_table_opened :
    State.step limit ⟨line, stack, .table place, hint⟩ token =
      State.step limit ⟨line, stack, .element place { pos := token.offset }, hint⟩ token :=
  rfl

theorem step_key_ended (h : Ended token) (hequals : token.isEquals = false) :
    State.step limit ⟨line, ⟨place, .table table none⟩ :: stack, .more term true, hint⟩ token =
      State.step limit ⟨line, stack, .element place (table.addElement term.close), hint⟩ token := by
  rw [h.step]
  simp only [State.endTerm, hequals, Bool.false_eq_true, if_false]
  rfl

theorem step_value_ended {key : Node} (h : Ended token) :
    State.step limit ⟨line, ⟨place, .table table (some key)⟩ :: stack, .more term true, hint⟩
        token =
      State.step limit ⟨line, stack, .element place (table.addPair key term.close), hint⟩
        token := by
  rw [h.step]
  rfl

theorem step_target_ended {fd : Fd} {mode : OpenMode} (h : Ended token) :
    State.step limit ⟨{ line with target := some (fd, mode) }, [], .more term true, hint⟩ token =
      State.step limit ⟨line.redirect (.file fd mode term.sequence), [], .tail, hint⟩ token := by
  rw [h.step]
  simp only [State.step, h.ne_space, if_false]
  rfl

theorem step_leader_error {abort : Abort} (hkind : token.kind = .leader)
    (hread : Leader.ofToken token = .error abort) :
    State.step limit ⟨line, [], .tail, hint⟩ token = .error abort := by
  simp [State.step, State.readTail, hkind, hread]

theorem step_leader {leader : Leader} (hkind : token.kind = .leader)
    (hread : Leader.ofToken token = .ok leader) :
    State.step limit ⟨line, [], .tail, hint⟩ token =
      .ok (.more ⟨(Grammar.afterLeader line leader).1, [], (Grammar.afterLeader line leader).2,
        hint⟩) := by
  simp only [State.step, State.readTail, hkind, hread]
  cases leader <;> rfl

theorem step_tail_pipe (hkind : token.kind = .pipe) :
    State.step limit ⟨line, stack, .tail, hint⟩ token =
      .ok (.more ⟨line.endCommand, stack, .term, hint⟩) := by
  simp [State.step, State.readTail, hkind]

theorem step_tail_end (hkind : token.kind.endsLine = true) :
    State.step limit ⟨line, stack, .tail, hint⟩ token =
      .ok (.done ⟨line.endCommand.pipeline, hint⟩) := by
  revert hkind
  cases hkind : token.kind <;> simp [State.step, State.readTail, hkind, Token.Kind.endsLine]

theorem step_tail_unfit (hspace : token.kind ≠ .space) (hleader : token.kind ≠ .leader)
    (hpipe : token.kind ≠ .pipe) (hends : token.kind.endsLine = false) :
    State.step limit ⟨line, stack, .tail, hint⟩ token =
      .error (.unexpected token Production.pipeline.name) := by
  simp only [State.step, State.readTail, hspace, if_false]
  revert hspace hleader hpipe hends
  cases token.kind <;> simp [Token.Kind.endsLine]

theorem step_line_solid (hspace : token.kind ≠ .space) (hend : token.kind ≠ .endOfInput) :
    State.step limit ⟨line, stack, .line, hint⟩ token =
      State.step limit ⟨line, stack, .term, hint⟩ token := by
  simp only [State.step, hspace, hend, if_false]
  rfl

theorem step_line_end (hkind : token.kind = .endOfInput) :
    State.step limit ⟨line, stack, .line, hint⟩ token = .ok (.done ⟨line.pipeline, hint⟩) := by
  simp [State.step, hkind]

end Steps

/-- Where a term must begin, it begins at the first token that is no blank. -/
theorem Reached.peekTerm (h : Reached limit source desk ⟨line, stack, .term, none⟩ given) :
    Returns limit source Descent.peekNonSpace desk fun next desk' ↦
      ∃ solid, Cursor.Index.NextSolid (token source) given solid ∧ next = token source solid ∧
        Reached limit source desk' ⟨line, stack, .primary (.start next.offset), none⟩ solid := by
  refine (h.peekNonSpace skipsBlanks_term).mono ?_
  rintro _ desk' ⟨solid, hsolid, rfl, hreached, -⟩
  exact ⟨solid, hsolid, rfl, hreached.congr _ (step_term_solid hsolid.ne_space) rfl⟩

/-! ### Literals, dollars and brackets -/

theorem Taken.string (h : Taken limit source desk taken ⟨line, stack, .primary place, none⟩ given)
    (hkind : taken.kind.isLiteral = true) :
    Returns limit source (string taken) desk fun node desk' ↦
      Reached limit source desk' ⟨line, stack, .more (place.fill node) false, none⟩
        (given + 1) := by
  rw [Descent.string]
  cases htext : taken.decode with
  | error fault => exact .throw (h.failed (step_literal_error hkind htext))
  | ok text =>
    exact ⟨.ok (.string taken.offset taken.text text), _, rfl,
      h.more (step_literal hkind htext) h.depth_eq⟩

theorem Taken.enter {state : State} (h : Taken limit source desk taken state given)
    (inside : State)
    (hstep : State.step limit { state with hint := desk.hint } taken =
      if state.depth < limit then .ok (.more { inside with hint := desk.hint })
      else .error ⟨taken.offset, .depth limit⟩)
    (hdepth : state.depth + 1 = inside.depth) :
    Returns limit source (enter limit taken) desk fun _ desk' ↦
      state.depth < limit ∧ Reached limit source desk' inside (given + 1) := by
  refine Returns.get.bind ?_
  rintro _ _ ⟨rfl, rfl⟩
  split
  · next hroom =>
    rw [h.depth_eq] at hroom
    rw [if_pos hroom] at hstep
    refine (Returns.modify _).mono ?_
    rintro _ _ rfl
    exact ⟨hroom, h.more hstep (h.depth_eq ▸ hdepth)⟩
  · next hroom =>
    rw [h.depth_eq] at hroom
    rw [if_neg hroom] at hstep
    exact .throw (h.failed hstep)

theorem leave_returns :
    Returns limit source leave desk fun _ desk' ↦ desk' = desk.outside :=
  .modify Desk.outside

/-- Dollars are counted as long as there are some. -/
theorem dollars_returns {bound : Nat} (hbound : source.tokens.length < given + bound)
    (h : Reached limit source desk ⟨line, stack, .primary place, none⟩ given) :
    Returns limit source (dollars ⟨limit⟩ place.dollars) desk fun count desk' ↦
      ∃ given', given ≤ given' ∧ (token source given').kind ≠ .dollar ∧
        Reached limit source desk'
          ⟨line, stack, .primary { place with dollars := count }, none⟩ given' := by
  induction bound generalizing given desk place with
  | zero => exact absurd h.given_le (by omega)
  | succ bound ih =>
    rw [dollars]
    refine h.peek.bind fun ahead desk₁ ⟨heq, hpeek, _⟩ ↦ ?_
    subst heq
    split
    · next hkind =>
      refine hpeek.next.bind fun taken desk₂ htaken ↦ ?_
      have hreached : Reached limit source desk₂ ⟨line, stack, .primary place.addDollar, none⟩
          (given + 1) := htaken.read _ (step_dollar (htaken.eq ▸ hkind)) rfl
      refine (ih (by omega) hreached).mono fun count desk₃ ⟨given', hle, hrest⟩ ↦ ?_
      exact ⟨given', by omega, hrest⟩
    · next hkind => exact .pure ⟨given, Nat.le_refl _, hkind, hpeek⟩

/-! ### What each function returns -/

/-- States that collect terms without a change to what is open around them. -/
structure Gathers (limit : Nat) (hold : List Node → State) : Prop
    extends Grammar.Collects limit 0 hold where
  length_eq : ∀ latest, (hold latest).stack.length = (hold []).stack.length

theorem gathers_group (hroom : stack.length < limit) :
    Gathers limit fun latest ↦ ⟨line, ⟨place, .group latest⟩ :: stack, .term, none⟩ where
  toCollects := Grammar.collects_group line stack place hroom
  length_eq _ := rfl

theorem gathers_arguments (htarget : line.target = none) :
    Gathers limit fun latest ↦ ⟨{ line with args := latest }, [], .term, none⟩ where
  toCollects := Grammar.collects_arguments line htarget (Nat.zero_le limit)
  length_eq _ := rfl

section Claims

variable (limit : Nat) (source : TokenStream) (bound : Nat)

/-- A primary is put in its place. Its first token has been taken and is no dollar. -/
def PrimaryReturns : Prop :=
  ∀ ⦃given desk taken line stack place⦄, source.tokens.length < given + bound →
    Taken limit source desk taken ⟨line, stack, .primary place, none⟩ given →
    taken.kind ≠ .dollar →
    Returns limit source (primary ⟨limit⟩ taken) desk fun node desk' ↦
      ∃ given', given < given' ∧
        Reached limit source desk' ⟨line, stack, .more (place.fill node) false, none⟩ given'

/-- A factor is added to the term that it is joined to. -/
def FactorReturns : Prop :=
  ∀ ⦃given desk line stack term join⦄, source.tokens.length < given + bound →
    Reached limit source desk
      ⟨line, stack, .primary { term, pos := (token source given).offset, join }, none⟩ given →
    Returns limit source (factor ⟨limit⟩ join) desk fun node desk' ↦
      ∃ given', given < given' ∧
        Reached limit source desk'
          ⟨line, stack, .more { term with factors := node :: term.factors } false, none⟩ given'

/-- A term is read up to the token that ends it. -/
def MoreFactorsReturns : Prop :=
  ∀ ⦃given desk line stack term key⦄, source.tokens.length < given + bound →
    State.atKey ⟨line, stack, .term, none⟩ = key →
    Reached limit source desk ⟨line, stack, .more term false, none⟩ given →
    Returns limit source (moreFactors ⟨limit⟩ key term) desk fun term' desk' ↦
      ∃ given', given ≤ given' ∧ term'.pos = term.pos ∧ Ended (token source given') ∧
        Reached limit source desk' ⟨line, stack, .more term' true, none⟩ given'

/-- A term is read from its first token on. -/
def TermReturns : Prop :=
  ∀ ⦃given desk line stack key⦄, source.tokens.length < given + bound →
    State.atKey ⟨line, stack, .term, none⟩ = key →
    Reached limit source desk
      ⟨line, stack, .primary (.start (token source given).offset), none⟩ given →
    Returns limit source (term ⟨limit⟩ key) desk fun term desk' ↦
      ∃ given', given < given' ∧ term.pos = (token source given).offset ∧
        Ended (token source given') ∧
        Reached limit source desk' ⟨line, stack, .more term true, none⟩ given'

/-- Terms are collected up to a token that begins none. -/
def MoreTermsReturns : Prop :=
  ∀ ⦃given desk hold latest term⦄, source.tokens.length < given + bound →
    Gathers limit hold → Ended (token source given) →
    Reached limit source desk ⟨(hold latest).line, (hold latest).stack, .more term true, none⟩
      given →
    Returns limit source (moreTerms ⟨limit⟩ (term.close :: latest)) desk fun terms desk' ↦
      ∃ given' latest' term', given ≤ given' ∧ terms = term'.close :: latest' ∧
        term.close :: latest <:+ terms ∧ Ended (token source given') ∧
        (token source given').kind.startsFactor = false ∧
        Reached limit source desk'
          ⟨(hold latest').line, (hold latest').stack, .more term' true, none⟩ given'

/-- Terms are collected from the first one on, and their list begins where it does. -/
def TermListReturns : Prop :=
  ∀ ⦃given desk hold⦄, source.tokens.length < given + bound → Gathers limit hold →
    Reached limit source desk ⟨(hold []).line, (hold []).stack, .term, none⟩ given →
    Returns limit source (Reader.termList ⟨limit⟩) desk fun list desk' ↦
      ∃ given' latest term, given < given' ∧ list = Parser.termList (term.close :: latest) ∧
        ((token source given).kind ≠ .space → list.pos = (token source given).offset) ∧
        Ended (token source given') ∧ (token source given').kind.startsFactor = false ∧
        Reached limit source desk'
          ⟨(hold latest).line, (hold latest).stack, .more term true, none⟩ given'

/-- A table is read up to its end and put in its place. Its bracket has still to be left. -/
def EntriesReturns : Prop :=
  ∀ ⦃given desk line stack place table⦄, source.tokens.length < given + bound →
    Reached limit source desk ⟨line, stack, .element place table, none⟩ given →
    Returns limit source (entries ⟨limit⟩ table) desk fun node desk' ↦
      ∃ given', given < given' ∧
        Reached limit source desk'.outside ⟨line, stack, .more (place.fill node) false, none⟩
          given'

/-- All functions that call each other return, as long as fewer than `bound` tokens are left. -/
structure AllReturn : Prop where
  primary : PrimaryReturns limit source bound
  factor : FactorReturns limit source bound
  moreFactors : MoreFactorsReturns limit source bound
  term : TermReturns limit source bound
  moreTerms : MoreTermsReturns limit source bound
  termList : TermListReturns limit source bound
  entries : EntriesReturns limit source bound

end Claims

section AllReturn

variable {bound : Nat}

theorem primary_returns (ih : ∀ fewer < bound, AllReturn limit source fewer) :
    PrimaryReturns limit source bound := by
  intro given desk taken line stack place hbound h hdollar
  rw [primary]
  split
  case h_1 hkind | h_2 hkind | h_3 hkind =>
    exact (h.string (by rw [hkind]; rfl)).mono fun node desk' hreached ↦
      ⟨given + 1, Nat.lt_succ_self given, hreached⟩
  case h_4 hkind =>
    refine (h.enter ⟨line, ⟨place, .group []⟩ :: stack, .term, none⟩ (step_enter_group hkind)
      rfl).bind ?_
    rintro _ desk₁ ⟨hroom, hinside⟩
    -- the bracket is one of the tokens left, so inside it there are fewer
    have hle := hinside.given_le
    have hlist := (ih (bound - 1) (by omega)).termList (by omega) (gathers_group hroom) hinside
    refine hlist.bind ?_
    rintro _ desk₂ ⟨given₂, latest, term, hlt, rfl, -, hended, hfactor, hreached⟩
    refine hreached.next.bind fun close desk₃ htaken ↦ ?_
    split
    · next hclose =>
      refine leave_returns.bind ?_
      rintro _ _ rfl
      have hdepth : desk₃.depth - 1 = stack.length := by
        rw [htaken.depth_eq]
        rfl
      exact .pure ⟨given₂ + 1, by omega, htaken.more (step_group_close hclose) hdepth⟩
    · next hclose =>
      have htoken := htaken.eq
      subst htoken
      exact .throw (htaken.failed (step_group_unfit hended hfactor hclose))
  case h_5 hkind =>
    refine (h.enter ⟨line, stack, .table place, none⟩ (step_enter_table hkind) rfl).bind ?_
    rintro _ desk₁ ⟨-, hinside⟩
    refine hinside.peek.bind ?_
    rintro _ desk₂ ⟨rfl, hpeek, -⟩
    have hle := hinside.given_le
    have hopened : Reached limit source desk₂
        ⟨line, stack, .element place { pos := (token source (given + 1)).offset }, none⟩
        (given + 1) := hpeek.congr _ step_table_opened rfl
    refine ((ih (bound - 1) (by omega)).entries (by omega) hopened).bind ?_
    rintro node desk₃ ⟨given₃, hlt, hreached⟩
    refine leave_returns.bind ?_
    rintro _ _ rfl
    exact .pure ⟨given₃, by omega, hreached⟩
  case h_6 =>
    have hunfit : taken.kind.startsFactor = false := by
      cases hkind : taken.kind <;> simp_all [Token.Kind.startsFactor]
    exact .throw (h.failed (step_primary_unfit hunfit))

theorem factor_returns (hprimary : PrimaryReturns limit source bound) :
    FactorReturns limit source bound := by
  intro given desk line stack term join hbound h
  rw [factor]
  refine h.peek.bind ?_
  rintro _ desk₁ ⟨rfl, hpeek, -⟩
  refine (dollars_returns hbound hpeek).bind fun count desk₂ ⟨given₂, hle, hdollar, hreached⟩ ↦ ?_
  refine hreached.next.bind fun taken desk₃ htaken ↦ ?_
  refine (hprimary (by omega) htaken (htaken.eq ▸ hdollar)).bind ?_
  rintro node desk₄ ⟨given₄, hlt, hreached⟩
  exact .pure ⟨given₄, by omega, hreached⟩

theorem moreFactors_returns (ih : ∀ fewer < bound, AllReturn limit source fewer)
    (hfactor : FactorReturns limit source bound) : MoreFactorsReturns limit source bound := by
  intro given desk line stack term key hbound hkey h
  rw [moreFactors]
  refine h.peek.bind ?_
  rintro _ desk₁ ⟨rfl, hpeek, -⟩
  have hatKey : State.atKey ⟨line, stack, .more term false, desk₁.hint⟩ = key := hkey
  split
  · next hjoined =>
    obtain ⟨hstarts, hnoKey⟩ := Bool.and_eq_true_iff.1 hjoined
    rw [Bool.not_eq_true', ← hatKey] at hnoKey
    have hbegin := hpeek.congr ⟨line, stack, .primary
      { term, pos := (token source given).offset, join := .adjacent }, none⟩
      (step_adjacent_factor hstarts hnoKey) rfl
    refine (hfactor hbound hbegin).bind fun node desk₂ ⟨given₂, hlt, hreached⟩ ↦ ?_
    have hle := hreached.given_le
    refine ((ih (bound - 1) (by omega)).moreFactors (by omega) hkey hreached).mono ?_
    rintro term' desk₃ ⟨given₃, hle, hpos, hended, hreached⟩
    exact ⟨given₃, by omega, hpos, hended, hreached⟩
  · next hunjoined =>
    -- from here on it makes no difference whether blanks come first
    have hbegin := hpeek.congr ⟨line, stack, .more term true, none⟩
      (step_unjoined (by rw [hatKey]; simpa using hunjoined)) rfl
    refine (hbegin.peekNonSpace skipsBlanks_more).bind ?_
    rintro _ desk₂ ⟨solid, hsolid, rfl, hreached, -⟩
    have hle := hsolid.le
    split
    · next hcaret =>
      refine hreached.next.bind fun taken desk₃ htaken ↦ ?_
      have hjoined := htaken.read ⟨line, stack, .joined term, none⟩
        (step_more_caret (htaken.eq ▸ hcaret)) rfl
      refine (hjoined.peekNonSpace skipsBlanks_joined).bind ?_
      rintro _ desk₄ ⟨solid₄, hsolid₄, rfl, hreached, -⟩
      have hle₄ := hsolid₄.le
      have hbegin := hreached.congr ⟨line, stack, .primary
        { term, pos := (token source solid₄).offset, join := .caret }, none⟩
        (step_joined_solid hsolid₄.ne_space) rfl
      refine (hfactor (by omega) hbegin).bind fun node desk₅ ⟨given₅, hlt, hreached⟩ ↦ ?_
      have hle₅ := hreached.given_le
      refine ((ih (bound - 1) (by omega)).moreFactors (by omega) hkey hreached).mono ?_
      rintro term' desk₆ ⟨given₆, hle, hpos, hended, hreached⟩
      exact ⟨given₆, by omega, hpos, hended, hreached⟩
    · next hcaret => exact .pure ⟨solid, hle, rfl, ⟨hsolid.ne_space, hcaret⟩, hreached⟩

theorem term_returns (ih : ∀ fewer < bound, AllReturn limit source fewer)
    (hfactor : FactorReturns limit source bound) : TermReturns limit source bound := by
  intro given desk line stack key hbound hkey h
  rw [term]
  refine h.peek.bind ?_
  rintro _ desk₁ ⟨rfl, hpeek, -⟩
  refine (hfactor hbound hpeek).bind fun node desk₂ ⟨given₂, hlt, hreached⟩ ↦ ?_
  have hle := hreached.given_le
  refine ((ih (bound - 1) (by omega)).moreFactors (by omega) hkey hreached).mono ?_
  rintro term' desk₃ ⟨given₃, hle, hpos, hended, hreached⟩
  exact ⟨given₃, by omega, hpos, hended, hreached⟩

theorem moreTerms_returns (ih : ∀ fewer < bound, AllReturn limit source fewer)
    (hterm : TermReturns limit source bound) : MoreTermsReturns limit source bound := by
  intro given desk hold latest term hbound hhold hended h
  rw [moreTerms]
  refine (h.peekNonSpace skipsBlanks_more).bind ?_
  rintro _ desk₁ ⟨solid, hsolid, rfl, hreached, -⟩
  obtain rfl := hsolid.eq_start hended.ne_space
  split
  · next hstarts =>
    have hbegin := hreached.congr ⟨(hold (term.close :: latest)).line,
      (hold (term.close :: latest)).stack, .primary (.start (token source solid).offset), none⟩
      (hhold.next latest term desk₁.hint _ hstarts)
      ((hhold.length_eq latest).trans (hhold.length_eq (term.close :: latest)).symm)
    refine (hterm hbound (hhold.noKey (term.close :: latest)) hbegin).bind ?_
    rintro term₂ desk₂ ⟨given₂, hlt, -, hended, hreached⟩
    have hle := hreached.given_le
    refine ((ih (bound - 1) (by omega)).moreTerms (by omega) hhold hended hreached).mono ?_
    rintro terms desk₃ ⟨given₃, latest₃, term₃, hle, hterms, hsuffix, hended, hstops, hreached⟩
    exact ⟨given₃, latest₃, term₃, by omega, hterms, (List.suffix_cons _ _).trans hsuffix, hended,
      hstops, hreached⟩
  · next hstops =>
    exact .pure ⟨solid, latest, term, Nat.le_refl _, rfl, List.suffix_rfl, hended,
      Bool.eq_false_iff.2 hstops, hreached⟩

/-- A list of terms begins where its first term does. -/
theorem termList_of_suffix {first : OpenTerm} {terms : List Node}
    (h : [first.close] <:+ terms) : termList terms = ⟨first.pos, .termList, terms.reverse⟩ := by
  obtain ⟨more, rfl⟩ := h
  simp [Parser.termList, OpenTerm.close, OpenTerm.sequence, Node.pos]

theorem termList_returns (hterm : TermReturns limit source bound)
    (hmore : MoreTermsReturns limit source bound) : TermListReturns limit source bound := by
  intro given desk hold hbound hhold h
  rw [Reader.termList]
  refine h.peekTerm.bind ?_
  rintro _ desk₁ ⟨solid, hsolid, rfl, hbegin⟩
  have hle := hsolid.le
  refine (hterm (by omega) (hhold.noKey []) hbegin).bind ?_
  rintro first desk₂ ⟨given₂, hlt, hpos, hended, hreached⟩
  refine (hmore (by omega) hhold hended hreached).bind ?_
  rintro _ desk₃ ⟨given₃, latest, term, hle₃, rfl, hsuffix, hended, hstops, hreached⟩
  refine .pure ⟨given₃, latest, term, by omega, ?_, fun hspace ↦ ?_, hended, hstops, hreached⟩
  · rw [termList_of_suffix hsuffix, hpos]
  · rw [hsolid.eq_start hspace]

theorem entries_returns (ih : ∀ fewer < bound, AllReturn limit source fewer)
    (hterm : TermReturns limit source bound) : EntriesReturns limit source bound := by
  intro given desk line stack place table hbound h
  rw [entries]
  refine (h.nextNonSpace skipsBlanks_element).bind fun taken desk₁ ⟨solid, hsolid, htaken⟩ ↦ ?_
  have hle := hsolid.le
  obtain rfl := htaken.eq
  split
  · next hstarts =>
    refine htaken.backup.bind fun _ desk₂ hreached ↦ ?_
    have hbegin := hreached.congr ⟨line, ⟨place, .table table none⟩ :: stack,
      .primary (.start (token source solid).offset), none⟩
      (step_element_factor hstarts) rfl
    refine (hterm (by omega) rfl hbegin).bind ?_
    rintro key desk₃ ⟨given₃, hlt, -, hended, hkey⟩
    refine (hkey.peekNonSpace skipsBlanks_more).bind ?_
    rintro _ desk₄ ⟨solid₄, hsolid₄, rfl, hreached, -⟩
    -- the blanks behind the key have been skipped while its end was looked for
    obtain rfl := hsolid₄.eq_start hended.ne_space
    split
    · next hequals =>
      refine hreached.next.bind fun taken desk₅ htaken ↦ ?_
      have hpair := htaken.read ⟨line, ⟨place, .table table (some key.close)⟩ :: stack,
        .term, none⟩ (step_key_equals (htaken.eq ▸ hequals) rfl) rfl
      refine hpair.peekTerm.bind ?_
      rintro _ desk₆ ⟨solid₆, hsolid₆, rfl, hbegin⟩
      have hle₆ := hsolid₆.le
      refine (hterm (by omega) rfl hbegin).bind ?_
      rintro value desk₇ ⟨given₇, hlt₇, -, hended, hreached⟩
      have hle₇ := hreached.given_le
      have hbetween := hreached.congr
        ⟨line, stack, .element place (table.addPair key.close value.close), none⟩
        (step_value_ended hended) rfl
      refine ((ih (bound - 1) (by omega)).entries (by omega) hbetween).mono ?_
      exact fun node desk₈ ⟨given₈, hlt₈, hreached⟩ ↦ ⟨given₈, by omega, hreached⟩
    · next hequals =>
      have hle₃ := hreached.given_le
      have hbetween := hreached.congr
        ⟨line, stack, .element place (table.addElement key.close), none⟩
        (step_key_ended hended (Bool.eq_false_iff.2 hequals)) rfl
      refine ((ih (bound - 1) (by omega)).entries (by omega) hbetween).mono ?_
      exact fun node desk₅ ⟨given₅, hlt₅, hreached⟩ ↦ ⟨given₅, by omega, hreached⟩
  · next hstops =>
    split
    · next hclose =>
      have hdepth : desk₁.depth - 1 = stack.length := by
        rw [htaken.depth_eq]
        rfl
      exact .pure ⟨solid + 1, by omega, htaken.more (step_element_close hclose) hdepth⟩
    · next hclose =>
      exact .throw (htaken.failed (step_element_unfit (Bool.eq_false_iff.2 hstops)
        hsolid.ne_space hclose))

/-- Every function is followed to its end, the ones it calls having fewer tokens left or being
simpler. -/
theorem all_return (limit : Nat) (source : TokenStream) (bound : Nat) :
    AllReturn limit source bound := by
  induction bound using Nat.strong_induction_on with
  | _ bound ih =>
    have hprimary := primary_returns ih
    have hfactor := factor_returns hprimary
    have hterm := term_returns ih hfactor
    have hmore := moreTerms_returns ih hterm
    exact ⟨hprimary, hfactor, moreFactors_returns ih hfactor, hterm, hmore,
      termList_returns hterm hmore, entries_returns ih hterm⟩

end AllReturn

/-! ### Commands -/

theorem term_reached {key : Bool} (hkey : State.atKey ⟨line, stack, .term, none⟩ = key)
    (h : Reached limit source desk
      ⟨line, stack, .primary (.start (token source given).offset), none⟩ given) :
    Returns limit source (term ⟨limit⟩ key) desk fun term desk' ↦
      ∃ given', given < given' ∧ term.pos = (token source given).offset ∧
        Ended (token source given') ∧
        Reached limit source desk' ⟨line, stack, .more term true, none⟩ given' :=
  (all_return limit source (source.tokens.length + 1)).term (by omega) hkey h

theorem redirection_returns (h : Reached limit source desk ⟨line, [], .tail, none⟩ given)
    (hkind : (token source given).kind = .leader) :
    Returns limit source (redirection ⟨limit⟩) desk fun redirection desk' ↦
      ∃ given', given < given' ∧
        Reached limit source desk' ⟨line.redirect redirection, [], .tail, none⟩ given' := by
  rw [redirection]
  refine h.next.bind fun leader desk₁ htaken ↦ ?_
  rw [← htaken.eq] at hkind
  split
  case h_1 hread => exact .throw (htaken.failed (step_leader_error hkind hread))
  case h_2 hread | h_3 hread =>
    exact .pure ⟨given + 1, Nat.lt_succ_self given, htaken.read _ (step_leader hkind hread) rfl⟩
  case h_4 fd mode hread =>
    have hwaiting := htaken.read ⟨{ line with target := some (fd, mode) }, [], .term, none⟩
      (step_leader hkind hread) rfl
    refine hwaiting.peekTerm.bind ?_
    rintro _ desk₂ ⟨solid, hsolid, rfl, hbegin⟩
    have hle := hsolid.le
    refine (term_reached rfl hbegin).bind ?_
    rintro target desk₃ ⟨given₃, hlt, -, hended, hreached⟩
    exact .pure ⟨given₃, by omega, hreached.congr _ (step_target_ended hended) rfl⟩

/-- Redirections are read up to a token that begins none. -/
theorem moreRedirections_returns {bound : Nat} (hbound : source.tokens.length < given + bound)
    (htarget : line.target = none)
    (h : Reached limit source desk ⟨line, [], .tail, none⟩ given) :
    Returns limit source (moreRedirections ⟨limit⟩ line.redirections) desk fun redirections desk' ↦
      ∃ given', given ≤ given' ∧ (token source given').kind ≠ .space ∧
        (token source given').kind ≠ .leader ∧
        Reached limit source desk' ⟨{ line with redirections }, [], .tail, none⟩ given' := by
  induction bound generalizing given desk line with
  | zero => exact absurd h.given_le (by omega)
  | succ bound ih =>
    rw [moreRedirections]
    refine (h.peekNonSpace skipsBlanks_tail).bind ?_
    rintro _ desk₁ ⟨solid, hsolid, rfl, hreached, -⟩
    have hle := hsolid.le
    split
    · next hleader =>
      refine (redirection_returns hreached hleader).bind ?_
      rintro redirection desk₂ ⟨given₂, hlt, hreached⟩
      refine (@ih _ (line.redirect redirection) _ (by omega) rfl hreached).mono ?_
      rintro redirections desk₃ ⟨given₃, hle₃, hspace, hleader, hreached⟩
      have hline : { line.redirect redirection with redirections } =
          { line with redirections } := by
        rw [OpenLine.redirect, htarget]
      exact ⟨given₃, by omega, hspace, hleader, hline ▸ hreached⟩
    · next hleader => exact .pure ⟨solid, hle, hsolid.ne_space, hleader, hreached⟩

/-- A command is read up to the token that ends it. -/
theorem command_returns {pos : Nat} {commands : List Node}
    (h : Reached limit source desk ⟨{ pos, commands }, [], .term, none⟩ given) :
    Returns limit source (command ⟨limit⟩) desk fun node desk' ↦
      ∃ given' line, given < given' ∧ line.endCommand = { pos, commands := node :: commands } ∧
        (token source given').kind ≠ .space ∧ (token source given').kind ≠ .leader ∧
        Reached limit source desk' ⟨line, [], .tail, none⟩ given' := by
  rw [command]
  refine (h.peekNonSpace skipsBlanks_term).bind ?_
  rintro _ desk₁ ⟨solid, hsolid, rfl, hreached, -⟩
  have hle := hsolid.le
  have hlist := (all_return limit source (source.tokens.length + 1)).termList (by omega)
    (@gathers_arguments limit { pos, commands } rfl) hreached
  refine hlist.bind ?_
  rintro _ desk₂ ⟨given₂, latest, term, hlt, rfl, hpos, hended, hstops, hreached⟩
  let line : OpenLine := { pos, commands, args := term.close :: latest }
  have htail := hreached.congr ⟨line, [], .tail, none⟩
    (Grammar.Settles.step_eq (.argument rfl) hstops hended.ne_space hended.ne_caret) rfl
  refine (@moreRedirections_returns _ _ _ line _ _ (by omega : _ < _ + (source.tokens.length + 1))
    rfl htail).bind ?_
  rintro redirections desk₃ ⟨given₃, hle₃, hspace, hleader, hreached⟩
  refine .pure ⟨given₃, { line with redirections }, by omega, ?_, hspace, hleader, hreached⟩
  rw [← hpos hsolid.ne_space]
  rfl

/-! ### Lines -/

theorem moreCommands_returns {bound pos : Nat} {commands : List Node}
    (hbound : source.tokens.length < given + bound)
    (h : Reached limit source desk ⟨{ pos, commands }, [], .term, none⟩ given) :
    Returns limit source (moreCommands ⟨limit⟩ commands) desk fun commands' desk' ↦
      Decided limit source desk' (.ok ⟨⟨pos, .pipeline, commands'.reverse⟩, desk'.hint⟩) := by
  induction bound generalizing given desk commands with
  | zero => exact absurd h.given_le (by omega)
  | succ bound ih =>
    rw [moreCommands]
    refine (command_returns h).bind ?_
    rintro node desk₁ ⟨given₁, line, hlt, hended, hspace, hleader, hreached⟩
    refine hreached.next.bind fun taken desk₂ htaken ↦ ?_
    rw [← htaken.eq] at hspace hleader
    -- both ends of a line are read alike
    have hdone (hends : taken.kind.endsLine = true) : Returns limit source
        (pure (node :: commands)) desk₂ fun commands' desk' ↦
          Decided limit source desk' (.ok ⟨⟨pos, .pipeline, commands'.reverse⟩, desk'.hint⟩) := by
      have hstep := @step_tail_end limit line [] taken desk₂.hint hends
      rw [hended] at hstep
      exact .pure ⟨htaken.peak_le, given₁ + 1, htaken.follows.reads_done (htaken.eq ▸ hstep),
        htaken.cursor.stream_eq⟩
    split
    case h_1 hpipe =>
      have hnext := htaken.read ⟨line.endCommand, [], .term, none⟩ (step_tail_pipe hpipe) rfl
      rw [hended] at hnext
      exact ih (by omega) hnext
    case h_2 hkind | h_3 hkind => exact hdone (by rw [hkind]; rfl)
    case h_4 hpipe _ _ =>
      have hends : taken.kind.endsLine = false := by
        cases hkind : taken.kind <;> simp_all [Token.Kind.endsLine]
      exact .throw (htaken.failed (step_tail_unfit hspace hleader hpipe hends))

theorem reached_start (limit : Nat) (source : TokenStream) :
    Reached limit source { cursor := .ofStream source } (.start source.pull.1.offset) 0 where
  cursor := ⟨0, Nat.zero_le _, .ofStream source⟩
  peak_le := Nat.zero_le 1
  depth_eq := rfl
  follows := .start limit source

theorem pipeline_returns (limit : Nat) (source : TokenStream) :
    Returns limit source (pipeline ⟨limit⟩) { cursor := .ofStream source } fun root desk ↦
      Decided limit source desk (.ok ⟨root, desk.hint⟩) := by
  rw [pipeline]
  refine (reached_start limit source).peek.bind ?_
  rintro _ desk₁ ⟨rfl, hpeek, -⟩
  refine (hpeek.peekNonSpace skipsBlanks_line).bind ?_
  rintro _ desk₂ ⟨solid, hsolid, rfl, hreached, hstream⟩
  split
  · next hend =>
    exact .pure ⟨hreached.peak_le, solid + 1, hreached.follows.reads_done (step_line_end hend),
      hstream⟩
  · next hend =>
    have hbegin := hreached.congr ⟨{ pos := source.pull.1.offset }, [], .term, none⟩
      (step_line_solid hsolid.ne_space hend) rfl
    refine (moreCommands_returns (by omega : _ < _ + (source.tokens.length + 1)) hbegin).bind ?_
    exact fun commands desk₃ hdecided ↦ .pure hdecided

theorem line_returns (limit : Nat) (source : TokenStream) :
    Returns limit source (Reader.line ⟨limit⟩) { cursor := .ofStream source } fun parsed desk ↦
      Decided limit source desk (.ok parsed) := by
  rw [Reader.line]
  refine (pipeline_returns limit source).bind fun root desk hdecided ↦ ?_
  refine Returns.get.bind ?_
  rintro _ _ ⟨rfl, rfl⟩
  exact .pure hdecided

/-- What the first tokens of a stream decide is the outcome of its first line. -/
theorem readLine_eq_of_reads {count : Nat} {outcome : Except Abort Parsed}
    (h : Reads limit (.start source.pull.1.offset) (source.take count).1 outcome) :
    readLine limit source = (outcome, TokenSource.drop count source) := by
  have hlength := TokenStream.length_take count source
  have horigin : origin (source.take count).1 = source.pull.1.offset :=
    TokenStream.origin_take (hlength ▸ mt List.length_eq_zero_iff.1 h.ne_nil) source
  rw [← horigin] at h
  obtain ⟨hpulled, houtcome⟩ := pulled_eq_of_reads (by rw [hlength]) h
  have hrest := take_pulled limit source
  rw [hpulled, hlength] at hrest
  rw [← TokenStream.take_snd, hrest, ← houtcome]

/-- **Reading by descent ends**, for every stream and every limit. It reads what the machine
reads, has never more than one token pending, and fails only for what is wrong with the line:
never because a pushback is refused, and never because it decodes a token that is no literal. -/
theorem descent_ends (limit : Nat) (stream : TokenStream) :
    ∃ outcome desk, descend limit stream = some (outcome, desk) ∧
      readLine limit stream = (outcome, desk.cursor.stream) ∧ desk.peak ≤ 1 ∧
      ∀ abort, outcome = .error abort → abort.cause.LiesInLine limit := by
  obtain ⟨outcome, desk, hrun, houtcome⟩ := line_returns limit stream
  have hdecided : Decided limit stream desk outcome := by
    cases outcome with
    | ok parsed => exact houtcome
    | error abort => exact houtcome
  obtain ⟨hpeak, count, hreads, hstream⟩ := hdecided
  refine ⟨outcome, desk, hrun, hstream ▸ readLine_eq_of_reads hreads, hpeak, ?_⟩
  rintro abort rfl
  obtain ⟨front, token, last, -, -, herror⟩ := hreads.split_error
  have hblames := @State.step_blames limit last token
  rwa [herror] at hblames

end Parser

end PipelineSyntax
