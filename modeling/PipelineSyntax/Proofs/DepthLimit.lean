import PipelineSyntax.Proofs.Causes
import PipelineSyntax.Proofs.Sources

/-!
# What the depth limit does

Two readings of one line under two limits do the same, token by token, until a bracket is
opened for which only one of them has room. That bracket is the first one with as many
brackets open around it as the smaller limit allows, and there the smaller limit ends the
reading.

How many brackets are open can be told from the tokens alone: those that open one less those
that close one (`unclosed`). The machine keeps the same number in its stack, but for the table
between whose elements it stands (`State.depth`).

Everything rests on one law of single steps, `State.free_or_gated`: what a step comes to does not
depend on the limit, unless the token opens a bracket, and then the limit is the only thing it
depends on.
-/

namespace PipelineSyntax

/-! ### Brackets among tokens -/

namespace Token.Kind

/-- Whether a token of this kind opens a bracket. -/
def opens : Kind → Bool
  | leftParen | leftBracket => true
  | _ => false

/-- Whether a token of this kind closes a bracket. -/
def closes : Kind → Bool
  | rightParen | rightBracket => true
  | _ => false

end Token.Kind

/-- How many brackets the tokens leave open: those they open less those they close. -/
def unclosed (tokens : List Token) : Int :=
  tokens.countP (·.kind.opens) - tokens.countP (·.kind.closes)

theorem unclosed_cons (token : Token) (tokens : List Token) :
    unclosed (token :: tokens) = unclosed [token] + unclosed tokens := by
  simp only [unclosed, List.countP_cons, List.countP_nil]
  omega

theorem unclosed_singleton_of_opens {token : Token} (h : token.kind.opens = true) :
    unclosed [token] = 1 := by
  have hcloses : token.kind.closes = false := by
    revert h
    cases token.kind <;> simp [Token.Kind.opens, Token.Kind.closes]
  simp [unclosed, h, hcloses]

theorem unclosed_singleton_le (token : Token) :
    unclosed [token] ≤ if token.kind.opens then 1 else 0 := by
  simp only [unclosed, List.countP_singleton]
  split <;> split <;> simp

/-- The token opens a bracket behind the front of a row, and is not the last token of it. -/
def OpensWithin (row front : List Token) (opener : Token) : Prop :=
  opener.kind.opens = true ∧ ∃ rest, rest ≠ [] ∧ row = front ++ opener :: rest

/-- Every bracket that is opened within the row has fewer than so many around it. -/
def Shallow (room : Int) (row : List Token) : Prop :=
  ∀ front opener, OpensWithin row front opener → unclosed front < room

/-- The token is the first of the row that opens a bracket with exactly so many around it. -/
structure FirstTooDeep (room : Int) (row front : List Token) (opener : Token) : Prop where
  opensWithin : OpensWithin row front opener
  unclosed_eq : unclosed front = room
  earlier : ∀ front' opener', front' ++ [opener'] <+: front → opener'.kind.opens = true →
    unclosed front' < room

section Rows

variable {room : Int} {token opener : Token} {row front : List Token}

theorem opensWithin_cons_iff : OpensWithin (token :: row) front opener ↔
    (front = [] ∧ opener = token ∧ token.kind.opens = true ∧ row ≠ []) ∨
      ∃ front', front = token :: front' ∧ OpensWithin row front' opener := by
  constructor
  · rintro ⟨hopens, rest, hne, heq⟩
    rcases front with _ | ⟨first, front⟩
    · obtain ⟨rfl, rfl⟩ := List.cons.inj heq
      exact .inl ⟨rfl, rfl, hopens, hne⟩
    · obtain ⟨rfl, rfl⟩ := List.cons.inj heq
      exact .inr ⟨front, rfl, hopens, rest, hne, rfl⟩
  · rintro (⟨rfl, rfl, hopens, hne⟩ | ⟨front', rfl, hopens, rest, hne, rfl⟩)
    · exact ⟨hopens, row, hne, rfl⟩
    · exact ⟨hopens, rest, hne, rfl⟩

theorem shallow_cons_iff : Shallow room (token :: row) ↔
    (token.kind.opens = true → row ≠ [] → 0 < room) ∧ Shallow (room - unclosed [token]) row := by
  constructor
  · intro h
    refine ⟨fun hopens hne ↦ h [] token ⟨hopens, row, hne, rfl⟩, fun front opener hopener ↦ ?_⟩
    have hlt := h (token :: front) opener (opensWithin_cons_iff.2 (.inr ⟨front, rfl, hopener⟩))
    rw [unclosed_cons] at hlt
    omega
  · rintro ⟨hfirst, hrest⟩ front opener hopener
    obtain ⟨rfl, -, hopens, hne⟩ | ⟨front', rfl, hopener'⟩ := opensWithin_cons_iff.1 hopener
    · exact hfirst hopens hne
    · have hlt := hrest front' opener hopener'
      rw [unclosed_cons]
      omega

theorem shallow_nil : Shallow room [] := by
  rintro front opener ⟨-, rest, -, heq⟩
  exact absurd heq (by simp)

instance decidableShallow : (room : Int) → (row : List Token) → Decidable (Shallow room row)
  | _, [] => .isTrue shallow_nil
  | room, token :: row =>
    have := decidableShallow (room - unclosed [token]) row
    decidable_of_iff _ shallow_cons_iff.symm

theorem firstTooDeep_zero (hopens : token.kind.opens = true) (hne : row ≠ []) :
    FirstTooDeep 0 (token :: row) [] token where
  opensWithin := opensWithin_cons_iff.2 (.inl ⟨rfl, rfl, hopens, hne⟩)
  unclosed_eq := rfl
  earlier front' opener' hpre := absurd (List.prefix_nil.1 hpre) (by simp)

theorem FirstTooDeep.cons (h : FirstTooDeep (room - unclosed [token]) row front opener)
    (hroom : token.kind.opens = true → 0 < room) :
    FirstTooDeep room (token :: row) (token :: front) opener where
  opensWithin := opensWithin_cons_iff.2 (.inr ⟨front, rfl, h.opensWithin⟩)
  unclosed_eq := by
    rw [unclosed_cons, h.unclosed_eq]
    omega
  earlier front' opener' hpre hopens := by
    rcases front' with _ | ⟨first, front'⟩
    · obtain ⟨rfl, -⟩ := List.cons_prefix_cons.1 hpre
      exact hroom hopens
    · obtain ⟨rfl, htail⟩ := List.cons_prefix_cons.1 hpre
      have hlt := h.earlier front' opener' htail hopens
      rw [unclosed_cons]
      omega

theorem FirstTooDeep.not_shallow (h : FirstTooDeep room row front opener) : ¬Shallow room row :=
  fun hshallow ↦ absurd (hshallow front opener h.opensWithin) (by rw [h.unclosed_eq]; omega)

end Rows

namespace Parser

/-! ### The law of one step -/

/-- How many brackets are open: those on the stack, and the table between whose elements the
machine stands. -/
def State.depth (state : State) : Nat :=
  state.stack.length + match state.expect with
    | .table _ | .element _ _ => 1
    | _ => 0

/-- An outcome in which no limit has had a part: no bracket has been opened. -/
def Free (depth : Nat) (token : Token) : Except Abort Progress → Prop
  | .error abort => ∀ limit, abort.cause ≠ .depth limit
  | .ok (.more next) =>
    token.kind.opens = false ∧ next.depth + (if token.kind.closes then 1 else 0) = depth
  | .ok (.done _) => True

/-- How the outcomes of reading a token under all limits hang together, where `depth` brackets
are open: either they are all the same, or the token goes inside another bracket as far as the
limit allows. -/
def Gated (depth : Nat) (token : Token) (outcomes : Nat → Except Abort Progress) : Prop :=
  (∃ outcome, Free depth token outcome ∧ ∀ limit, outcomes limit = outcome) ∨
    (token.kind.opens = true ∧ ∃ inside : State, inside.depth = depth + 1 ∧
      ∀ limit, outcomes limit =
        if depth < limit then .ok (.more inside) else .error ⟨token.offset, .depth limit⟩)

theorem Gated.free {depth : Nat} {token : Token} {outcome : Except Abort Progress}
    (h : Free depth token outcome) : Gated depth token fun _ ↦ outcome :=
  .inl ⟨outcome, h, fun _ ↦ rfl⟩

theorem Gated.unexpected (depth : Nat) (token : Token) (context : String) :
    Gated depth token fun _ ↦ .error (.unexpected token context) :=
  .free fun _ hcause ↦ by cases hcause

namespace State

variable {state : State} {token : Token}

theorem enter_gated {inside : State} (hopens : token.kind.opens = true)
    (hinside : inside.depth = state.stack.length + 1) :
    Gated state.stack.length token fun limit ↦ (state.enter limit token inside).map .more := by
  refine .inr ⟨hopens, inside, hinside, fun limit ↦ ?_⟩
  show (if _ then _ else _ : Except Abort State).map _ = _
  split <;> rfl

theorem readPrimary_gated {place : Place} :
    Gated state.stack.length token fun limit ↦
      (state.readPrimary limit place token).map .more := by
  cases hkind : token.kind
  all_goals simp only [readPrimary, hkind]
  case dollar => exact .free ⟨by rw [hkind]; rfl, by rw [hkind]; rfl⟩
  case bare | singleQuoted | doubleQuoted =>
    cases token.decode with
    | error fault => exact .free fun _ hcause ↦ by cases hcause
    | ok text => exact .free ⟨by rw [hkind]; rfl, by rw [hkind]; rfl⟩
  case leftParen => exact enter_gated (by rw [hkind]; rfl) rfl
  case leftBracket => exact enter_gated (by rw [hkind]; rfl) rfl
  all_goals exact .unexpected _ token _

theorem readTerm_gated :
    Gated state.stack.length token fun limit ↦ (state.readTerm limit token).map .more :=
  readPrimary_gated

/-- Between the elements of a table, its bracket is open although it is not on the stack. -/
theorem readElement_gated {place : Place} {table : OpenTable} :
    Gated (state.stack.length + 1) token fun limit ↦
      (state.readElement limit place table token).map .more := by
  cases hstarts : token.kind.startsFactor with
  | true =>
    simp only [readElement, hstarts, if_true]
    exact @readTerm_gated { state with stack := _ :: state.stack } _
  | false =>
    simp only [readElement, hstarts, Bool.false_eq_true, if_false]
    cases hkind : token.kind
    case space => exact .free ⟨by rw [hkind]; rfl, by rw [hkind]; rfl⟩
    case rightBracket => exact .free ⟨by rw [hkind]; rfl, by rw [hkind]; rfl⟩
    all_goals exact .unexpected _ token _

theorem readTail_gated : Gated state.stack.length token fun _ ↦ state.readTail token := by
  refine .free ?_
  rw [readTail]
  split
  case h_1 hkind =>
    have hleader := Leader.ofToken_blames token
    split
    · rename_i abort heq
      rw [heq] at hleader
      intro limit hcause
      have hlies : abort.cause.LiesInLeader := hleader.2
      rw [hcause] at hlies
      exact hlies
    all_goals exact ⟨by rw [hkind]; rfl, by rw [hkind]; rfl⟩
  case h_2 hkind => exact ⟨by rw [hkind]; rfl, by rw [hkind]; rfl⟩
  case h_3 | h_4 => trivial
  case h_5 => exact fun _ hcause ↦ by cases hcause

theorem endLineTerm_gated {term : OpenTerm} :
    Gated state.stack.length token fun limit ↦ state.endLineTerm limit term token := by
  rcases state with ⟨line, stack, expect, hint⟩
  have htail (line : OpenLine) := @readTail_gated ⟨line, stack, expect, hint⟩ token
  cases htarget : line.target with
  | some target =>
    simp only [endLineTerm, htarget]
    exact htail _
  | none =>
    simp only [endLineTerm, htarget]
    split
    · exact @readTerm_gated ⟨line.addArg term.close, stack, expect, hint⟩ token
    · exact htail _

theorem endTerm_gated {term : OpenTerm} :
    Gated state.stack.length token fun limit ↦ state.endTerm limit term token := by
  rcases state with ⟨line, _ | ⟨⟨place, terms | ⟨table, _ | key⟩⟩, stack⟩, expect, hint⟩
  case nil => exact endLineTerm_gated
  case cons.group =>
    simp only [endTerm]
    split
    · exact @readTerm_gated
        ⟨line, ⟨place, .group (term.close :: terms)⟩ :: stack, expect, hint⟩ token
    · split
      · rename_i hkind
        exact .free ⟨by rw [hkind]; rfl, by rw [hkind]; rfl⟩
      · exact .unexpected _ token _
  case cons.table.none =>
    simp only [endTerm]
    split
    · rename_i hequals
      have hkind : token.kind = .bare := Token.kind_of_isEquals hequals
      exact .free ⟨by rw [hkind]; rfl, by rw [hkind]; rfl⟩
    · exact @readElement_gated ⟨line, stack, expect, hint⟩ _ _ _
  case cons.table.some => exact @readElement_gated ⟨line, stack, expect, hint⟩ _ _ _

theorem readMore_gated {term : OpenTerm} {blank : Bool} :
    Gated state.stack.length token fun limit ↦ state.readMore limit term blank token := by
  simp only [readMore]
  split
  · rename_i hkind
    exact .free ⟨by rw [hkind]; rfl, by rw [hkind]; rfl⟩
  · split
    · rename_i hkind
      exact .free ⟨by rw [hkind]; rfl, by rw [hkind]; rfl⟩
    · split
      · exact readPrimary_gated
      · exact endTerm_gated

theorem step_gated (state : State) (token : Token) :
    Gated state.depth token fun limit ↦ state.step limit token := by
  have hblank (state : State) (hkind : token.kind = .space) :
      Gated state.depth token fun _ ↦ .ok (.more state) :=
    .free ⟨by rw [hkind]; rfl, by rw [hkind]; rfl⟩
  rcases state with ⟨line, stack, expect, hint⟩
  cases expect
  all_goals simp only [step]
  case line =>
    split
    · exact hblank _ ‹_›
    · split
      · exact .free trivial
      · exact readTerm_gated
  case term =>
    split
    · exact hblank _ ‹_›
    · exact readTerm_gated
  case primary => exact readPrimary_gated
  case joined =>
    split
    · exact hblank _ ‹_›
    · exact readPrimary_gated
  case table => exact readElement_gated
  case element => exact readElement_gated
  case more => exact readMore_gated
  case tail =>
    split
    · exact hblank _ ‹_›
    · exact readTail_gated

/-- **The law of one step.** The limit has a part in it only where a bracket is opened, and
there it is compared with the number of brackets that are open. -/
theorem free_or_gated (state : State) (token : Token) :
    (∃ outcome, Free state.depth token outcome ∧ ∀ limit, state.step limit token = outcome) ∨
      (token.kind.opens = true ∧ ∃ inside : State, inside.depth = state.depth + 1 ∧
        ∀ limit, state.step limit token =
          if state.depth < limit then .ok (.more inside)
          else .error ⟨token.offset, .depth limit⟩) :=
  step_gated state token

/-- A step that does not go on comes out so under every limit, if there was room for a
bracket. -/
theorem step_eq_of_not_more {limit : Nat} {outcome : Except Abort Progress}
    (h : state.step limit token = outcome) (hmore : ∀ next, outcome ≠ .ok (.more next))
    (hroom : token.kind.opens = true → state.depth < limit) (limit' : Nat) :
    state.step limit' token = outcome := by
  obtain ⟨outcome', -, heq⟩ | ⟨hopens, inside, -, heq⟩ := free_or_gated state token
  · rw [← h, heq, heq]
  · rw [heq, if_pos (hroom hopens)] at h
    exact absurd h.symm (hmore inside)

/-- A step that goes on does so under every limit that has room for a bracket. -/
theorem step_eq_more {limit limit' : Nat} {next : State}
    (h : state.step limit token = .ok (.more next))
    (hroom : token.kind.opens = true → state.depth < limit') :
    state.step limit' token = .ok (.more next) := by
  obtain ⟨outcome', -, heq⟩ | ⟨hopens, inside, -, heq⟩ := free_or_gated state token
  · rw [← h, heq, heq]
  · rw [heq] at h
    split at h <;> cases h
    rw [heq, if_pos (hroom hopens)]

/-- A step that is made under a limit is made under every larger one. -/
theorem step_mono {limit larger : Nat} {progress : Progress}
    (h : state.step limit token = .ok progress) (hle : limit ≤ larger) :
    state.step larger token = .ok progress := by
  obtain ⟨outcome, -, heq⟩ | ⟨-, inside, -, heq⟩ := free_or_gated state token
  · rw [← h, heq, heq]
  · rw [heq] at h
    split at h <;> cases h
    rw [heq, if_pos (by omega)]

/-- A bracket for which there is no room ends the reading. -/
theorem step_too_deep {limit limit' : Nat} {next : State}
    (h : state.step limit token = .ok (.more next)) (hopens : token.kind.opens = true)
    (hfull : limit' ≤ state.depth) :
    state.step limit' token = .error ⟨token.offset, .depth limit'⟩ := by
  obtain ⟨outcome, hfree, heq⟩ | ⟨-, inside, -, heq⟩ := free_or_gated state token
  · rw [heq] at h
    rw [h] at hfree
    rw [hfree.1] at hopens
    cases hopens
  · rw [heq, if_neg (by omega)]

/-- The tokens tell how many brackets are open. -/
theorem depth_of_step_more {limit : Nat} {next : State}
    (h : state.step limit token = .ok (.more next)) :
    (next.depth : Int) = state.depth + unclosed [token] := by
  obtain ⟨outcome, hfree, heq⟩ | ⟨hopens, inside, hinside, heq⟩ := free_or_gated state token
  · rw [heq] at h
    rw [h] at hfree
    obtain ⟨hopens, hdepth⟩ := hfree
    rw [← hdepth]
    simp only [unclosed, List.countP_singleton, hopens, Bool.false_eq_true, if_false]
    split <;> omega
  · rw [heq] at h
    split at h <;> cases h
    rw [unclosed_singleton_of_opens hopens, hinside]
    simp

end State

/-! ### Two readings of one row -/

/-- What a row decides under a limit that leaves room for all its brackets, it decides under
another limit as well, or else the other limit ends the reading at the first bracket that is
too deep for it. -/
theorem Reads.cut {large : Nat} {state : State} {tokens : List Token}
    {outcome : Except Abort Parsed} (h : Reads large state tokens outcome) (limit : Nat)
    (hlarge : state.depth + tokens.countP (·.kind.opens) ≤ large) (hle : state.depth ≤ limit) :
    (Shallow (limit - state.depth) tokens ∧ Reads limit state tokens outcome) ∨
      ∃ front opener, FirstTooDeep (limit - state.depth) tokens front opener ∧
        Reads limit state (front ++ [opener]) (.error ⟨opener.offset, .depth limit⟩) := by
  have hfits {state : State} {token : Token} {rest : List Token}
      (hlarge : state.depth + (token :: rest).countP (·.kind.opens) ≤ large)
      (hopens : token.kind.opens = true) : state.depth < large := by
    simp only [List.countP_cons, hopens, if_true] at hlarge
    omega
  have hlast (room : Int) (token : Token) : Shallow room [token] :=
    shallow_cons_iff.2 ⟨fun _ hne ↦ absurd rfl hne, shallow_nil⟩
  induction h with
  | accept step =>
    exact .inl ⟨hlast _ _, .accept (State.step_eq_of_not_more step nofun (hfits hlarge) _)⟩
  | reject step =>
    exact .inl ⟨hlast _ _, .reject (State.step_eq_of_not_more step nofun (hfits hlarge) _)⟩
  | @more state next token tokens outcome step rest ih =>
    have hdepth := State.depth_of_step_more step
    by_cases hfull : token.kind.opens = true ∧ limit ≤ state.depth
    · -- here the other limit is reached
      obtain ⟨hopens, hfull⟩ := hfull
      have hroom : (limit : Int) - state.depth = 0 := by omega
      rw [hroom]
      exact .inr ⟨[], token, firstTooDeep_zero hopens rest.ne_nil,
        .reject (State.step_too_deep step hopens hfull)⟩
    · have hroom (hopens : token.kind.opens = true) : state.depth < limit := by
        have := mt (And.intro hopens) hfull
        omega
      have hroom' (hopens : token.kind.opens = true) : (0 : Int) < limit - state.depth := by
        have := hroom hopens
        omega
      have hbound : (limit : Int) - next.depth = limit - state.depth - unclosed [token] := by omega
      have hweight := unclosed_singleton_le token
      have hlarge' : next.depth + tokens.countP (·.kind.opens) ≤ large := by
        rw [List.countP_cons] at hlarge
        split at hweight <;> simp_all <;> omega
      have hle' : next.depth ≤ limit := by
        cases hopens : token.kind.opens with
        | true =>
          have := hroom hopens
          simp only [hopens, if_true] at hweight
          omega
        | false =>
          simp only [hopens, Bool.false_eq_true, if_false] at hweight
          omega
      rw [hbound] at ih
      obtain ⟨hshallow, hreads⟩ | ⟨front, opener, hfirst, hreads⟩ := ih hlarge' hle'
      · exact .inl ⟨shallow_cons_iff.2 ⟨fun hopens _ ↦ hroom' hopens, hshallow⟩,
          .more (State.step_eq_more step hroom) hreads⟩
      · exact .inr ⟨token :: front, opener, hfirst.cons hroom',
          .more (State.step_eq_more step hroom) hreads⟩

/-- What completes the line under a limit does so under every larger one. -/
theorem Reads.mono {limit larger : Nat} {state : State} {tokens : List Token} {parsed : Parsed}
    (h : Reads limit state tokens (.ok parsed)) (hle : limit ≤ larger) :
    Reads larger state tokens (.ok parsed) := by
  generalize houtcome : Except.ok parsed = outcome at h
  induction h with
  | accept step => exact .accept (State.step_mono step hle)
  | reject => cases houtcome
  | more step _ ih => exact .more (State.step_mono step hle) (ih houtcome)

/-! ### The theorem -/

section Limit

open TokenSource (token between between_of_prefix)

variable {limit large count : Nat} {tokens : Nat → Token} {outcome : Except Abort Parsed}

/-- Under any limit, a line is read as it is under one that leaves room for all its brackets,
unless one of them is too deep. -/
theorem readFrom_cut (h : readFrom large tokens = some (outcome, count))
    (hlarge : (between tokens 0 count).countP (·.kind.opens) ≤ large) :
    (Shallow limit (between tokens 0 count) ∧
        readFrom limit tokens = some (outcome, count)) ∨
      ∃ front opener, FirstTooDeep limit (between tokens 0 count) front opener ∧
        readFrom limit tokens =
          some (.error ⟨opener.offset, .depth limit⟩, front.length + 1) := by
  have hcut := (readFrom_eq_some_iff.1 h).cut limit
    (by simpa [State.depth, State.start] using hlarge) (Nat.zero_le limit)
  -- no bracket is open when a line begins
  have hroom : (limit : Int) - (State.start (tokens 0).offset).depth = limit := by
    simp [State.depth, State.start]
  rw [hroom] at hcut
  obtain ⟨hshallow, hreads⟩ | ⟨front, opener, hfirst, hreads⟩ := hcut
  · exact .inl ⟨hshallow, readFrom_eq_some_iff.2 hreads⟩
  · obtain ⟨-, rest, -, hrow⟩ := hfirst.opensWithin
    have hpre : front ++ [opener] <+: between tokens 0 count := ⟨rest, by simp [hrow]⟩
    have hlength : 0 + (front ++ [opener]).length = front.length + 1 := by simp
    rw [← between_of_prefix hpre, hlength] at hreads
    exact .inr ⟨front, opener, hfirst, readFrom_eq_some_iff.2 hreads⟩

/-- **The limit cuts a line at the first bracket that is too deep, and changes nothing else.**
Beside a reading under a limit that leaves room for all brackets it meets, a reading under
another limit takes as many tokens and comes to the same outcome, as long as every bracket that
is opened in front of the last token has fewer around it than the limit allows. Otherwise it
fails at the first bracket that has as many around it, and takes nothing behind that. So what is
read at all is read alike under every larger limit. All this goes for any source, and for a
stream in particular. -/
theorem limit_cuts_at_first_too_deep (limit : Nat) :
    (∀ tokens large outcome count, readFrom large tokens = some (outcome, count) →
      (between tokens 0 count).countP (·.kind.opens) ≤ large →
      (Shallow limit (between tokens 0 count) →
        readFrom limit tokens = some (outcome, count)) ∧
      (¬Shallow limit (between tokens 0 count) →
        ∃ front opener, FirstTooDeep limit (between tokens 0 count) front opener ∧
          readFrom limit tokens =
            some (.error ⟨opener.offset, .depth limit⟩, front.length + 1))) ∧
    (∀ tokens larger parsed count, readFrom limit tokens = some (.ok parsed, count) →
      limit ≤ larger → readFrom larger tokens = some (.ok parsed, count)) ∧
    ∀ stream, readFrom limit (token stream) =
      some ((readLine limit stream).1, (pulled limit stream).length) := by
  refine ⟨fun tokens large outcome count h hlarge ↦ ?_, fun tokens larger parsed count h hle ↦ ?_,
    readFrom_token limit⟩
  · obtain ⟨hshallow, heq⟩ | ⟨front, opener, hfirst, heq⟩ := @readFrom_cut limit _ _ _ _ h hlarge
    · exact ⟨fun _ ↦ heq, fun hdeep ↦ absurd hshallow hdeep⟩
    · exact ⟨fun hshallow ↦ absurd hshallow hfirst.not_shallow,
        fun _ ↦ ⟨front, opener, hfirst, heq⟩⟩
  · exact readFrom_eq_some_iff.2 ((readFrom_eq_some_iff.1 h).mono hle)

/-- Two groups and a table side by side, the last of them around another group:
`(a)[b]((c))`. -/
def sideBySide : TokenStream where
  tokens := [⟨.leftParen, "(", 0, false⟩, ⟨.bare, "a", 1, false⟩, ⟨.rightParen, ")", 2, false⟩,
    ⟨.leftBracket, "[", 3, false⟩, ⟨.bare, "b", 4, false⟩, ⟨.rightBracket, "]", 5, false⟩,
    ⟨.leftParen, "(", 6, false⟩, ⟨.leftParen, "(", 7, false⟩, ⟨.bare, "c", 8, false⟩,
    ⟨.rightParen, ")", 9, false⟩, ⟨.rightParen, ")", 10, false⟩]
  endOffset := 11

/-- Brackets side by side do not add up: a limit of two is enough for four of them, and a limit
of one fails at the bracket inside another. -/
theorem limit_cuts_at_first_too_deep_sideBySide :
    readFrom 4 (token sideBySide) = some ((readLine 4 sideBySide).1, 12) ∧
      readFrom 2 (token sideBySide) = readFrom 4 (token sideBySide) ∧
      readFrom 9 (token sideBySide) = readFrom 2 (token sideBySide) ∧
      FirstTooDeep 1 (between (token sideBySide) 0 12) (sideBySide.tokens.take 7)
        ⟨.leftParen, "(", 7, false⟩ ∧
      readFrom 1 (token sideBySide) = some (.error ⟨7, .depth 1⟩, 8) := by
  obtain ⟨hcut₁, -, hread₁⟩ := limit_cuts_at_first_too_deep 1
  obtain ⟨hcut₂, hlarger, -⟩ := limit_cuts_at_first_too_deep 2
  obtain ⟨-, -, hread₄⟩ := limit_cuts_at_first_too_deep 4
  have hall : readFrom 4 (token sideBySide) = some ((readLine 4 sideBySide).1, 12) :=
    hread₄ sideBySide
  have hsame := (hcut₂ _ 4 _ 12 hall (by decide)).1 (by decide)
  have hmore := hlarger _ 9 _ 12 hsame (by decide)
  have herror : readFrom 1 (token sideBySide) = some (.error ⟨7, .depth 1⟩, 8) :=
    hread₁ sideBySide
  obtain ⟨front, opener, hfirst, hcut⟩ := (hcut₁ _ 4 _ 12 hall (by decide)).2 (by decide)
  have hlength : 7 + 1 = front.length + 1 :=
    congrArg Prod.snd (Option.some.inj (herror.symm.trans hcut))
  obtain ⟨-, rest, -, hrow⟩ := hfirst.opensWithin
  have hsplit : sideBySide.tokens.take 7 ++ ⟨.leftParen, "(", 7, false⟩ ::
      (between (token sideBySide) 0 12).drop 8 = front ++ opener :: rest := hrow
  obtain ⟨rfl, hopener⟩ := List.append_inj hsplit (Nat.succ.inj hlength)
  obtain ⟨rfl, -⟩ := List.cons.inj hopener
  exact ⟨hall, hsame.trans hall.symm, hmore.trans hsame.symm, hfirst, herror⟩

end Limit

end Parser

end PipelineSyntax
