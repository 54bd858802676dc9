import Mathlib.Order.Basic
import Mathlib.Data.Nat.Find
import PipelineSyntax.Token.Cursor

/-!
# A cursor is an index into what its source gives

The tokens of a source are numbered in the order in which it gives them. Whatever calls are
made, a cursor amounts to two numbers: how many tokens it has given and not got back, and how
many it has pulled from its source (`Cursor.Index`). What each call answers, and how it moves
the two numbers, is said by `Index.Obeys` without a buffer.

The buffers are tied to the numbers by an invariant in two parts:

* `Stands`: the pending tokens are those between the two numbers, at most three;
* `Holds`: besides, the tokens given last are remembered, and of these enough that a pushback
  for which there is room always finds what it asks for.

Only a pushback that names its tokens, and names the wrong ones, breaks the second part: it
forgets tokens without putting them back. So the numbers tell all as long as no such pushback
has been made (`Truthful`).
-/

namespace PipelineSyntax

/-! ### Sources -/

namespace TokenSource

variable {σ : Type}

/-- The source behind the given number of tokens, for any way of pulling them. -/
def dropWith (pull : σ → Token × σ) : Nat → σ → σ
  | 0, source => source
  | count + 1, source => dropWith pull count (pull source).2

/-- Any way of handing out tokens makes a source, if a token that is no blank comes sooner or
later. -/
@[reducible]
def ofPull (pull : σ → Token × σ)
    (hsolid : ∀ source, ∃ count, (pull (dropWith pull count source)).1.kind ≠ .space) :
    TokenSource σ where
  pull := pull
  patience source := Nat.find (hsolid source)
  patience_pull source hkind := by
    -- the first solid token is the same one, seen from one token further on
    have hspec := Nat.find_spec (hsolid source)
    obtain ⟨count, hcount⟩ : ∃ count, Nat.find (hsolid source) = count + 1 :=
      Nat.exists_eq_succ_of_ne_zero fun hzero ↦ (hzero ▸ hspec) hkind
    rw [hcount] at hspec ⊢
    exact Nat.lt_succ_of_le (Nat.find_min' _ hspec)

end TokenSource

namespace Cursor

open TokenSource (between between_self between_of_lt length_between)

variable {σ : Type} [TokenSource σ]

/-! ### Calls -/

/-- What can be asked of a cursor. -/
inductive Call where
  | next
  | peek
  | nextNonSpace
  | peekNonSpace
  | backup
  | backup2 (first : Token)
  | backup3 (first second : Token)
  deriving DecidableEq, Repr

/-- What a cursor answers. -/
inductive Answer where
  /-- The token that was asked for. -/
  | token (token : Token)
  /-- The tokens have been put back. -/
  | done
  /-- The call is refused. -/
  | refused (abort : Abort)
  deriving DecidableEq, Repr

/-- The answer of a call that may be refused. -/
def Answer.ofExcept {α : Type} (accept : α → Answer) : Except Abort α → Answer
  | .ok a => accept a
  | .error abort => refused abort

/-- Makes a call. -/
def call (cursor : Cursor σ) : Call → Answer × Cursor σ
  | .next => (.token cursor.next.1, cursor.next.2)
  | .peek => (.token cursor.peek.1, cursor.peek.2)
  | .nextNonSpace => (.token cursor.nextNonSpace.1, cursor.nextNonSpace.2)
  | .peekNonSpace => (.ofExcept .token cursor.peekNonSpace.1, cursor.peekNonSpace.2)
  | .backup => (.ofExcept (fun _ ↦ .done) cursor.backup.1, cursor.backup.2)
  | .backup2 first => (.ofExcept (fun _ ↦ .done) (cursor.backup2 first).1, (cursor.backup2 first).2)
  | .backup3 first second =>
    (.ofExcept (fun _ ↦ .done) (cursor.backup3 first second).1, (cursor.backup3 first second).2)

/-- How many tokens a call puts back under their names. -/
def Call.named : Call → Nat
  | backup2 _ => 2
  | backup3 _ _ => 3
  | _ => 0

/-- The cursor behind a row of calls. -/
def after (cursor : Cursor σ) (calls : List Call) : Cursor σ :=
  calls.foldl (fun cursor call ↦ (cursor.call call).2) cursor

/-- The calls of a row, each beside its answer. -/
def answered : Cursor σ → List Call → List (Call × Answer)
  | _, [] => []
  | cursor, call :: calls =>
    (call, (cursor.call call).1) :: answered (cursor.call call).2 calls

/-- A call is no pushback by name that is refused although there is room for it. -/
def Accepts (cursor : Cursor σ) (call : Call) : Prop :=
  call.named ≠ 0 → cursor.pending.length + call.named ≤ lookback → (cursor.call call).1 = .done

instance (cursor : Cursor σ) (call : Call) : Decidable (cursor.Accepts call) :=
  inferInstanceAs (Decidable (_ → _ → _))

/-- In a row of calls, every pushback by name for which there is room is accepted. -/
def Truthful : Cursor σ → List Call → Prop
  | _, [] => True
  | cursor, call :: calls => cursor.Accepts call ∧ Truthful (cursor.call call).2 calls

instance decidableTruthful (cursor : Cursor σ) :
    (calls : List Call) → Decidable (cursor.Truthful calls)
  | [] => .isTrue trivial
  | call :: calls =>
    have := decidableTruthful (cursor.call call).2 calls
    inferInstanceAs (Decidable (_ ∧ _))

/-! ### Indices -/

/-- Where a cursor stands among the tokens of its source. -/
structure Index where
  /-- How many tokens have been given and not been put back. -/
  given : Nat
  /-- How many tokens have been pulled from the source. -/
  pulled : Nat
  deriving DecidableEq, Repr

namespace Index

/-- The first token from an index on that is no blank stands at another index. -/
structure NextSolid (tokens : Nat → Token) (start solid : Nat) : Prop where
  le : start ≤ solid
  ne_space : (tokens solid).kind ≠ .space
  space : ∀ index, start ≤ index → index < solid → (tokens index).kind = .space

theorem NextSolid.eq_start {tokens : Nat → Token} {start solid : Nat}
    (h : NextSolid tokens start solid) (hspace : (tokens start).kind ≠ .space) : solid = start := by
  rcases Nat.eq_or_lt_of_le h.le with heq | hlt
  · exact heq.symm
  · exact absurd (h.space start (Nat.le_refl start) hlt) hspace

theorem NextSolid.of_space {tokens : Nat → Token} {start solid : Nat}
    (h : NextSolid tokens (start + 1) solid) (hspace : (tokens start).kind = .space) :
    NextSolid tokens start solid where
  le := Nat.le_of_succ_le h.le
  ne_space := h.ne_space
  space index hle hlt := by
    rcases Nat.eq_or_lt_of_le hle with rfl | hgt
    · exact hspace
    · exact h.space index hgt hlt

/-- A pushback of so many tokens goes back by as many if it fits, and is refused otherwise. -/
def PutsBack (before : Index) (count : Nat) (fits : Prop) (answer : Answer) (after : Index) :
    Prop :=
  (fits ∧ answer = .done ∧ after = ⟨before.given - count, before.pulled⟩) ∨
    (¬fits ∧ (∃ abort, answer = .refused abort) ∧ after = before)

/-- What a call answers, and how it moves an index into the tokens. -/
def Obeys (tokens : Nat → Token) (before : Index) (call : Call) (answer : Answer)
    (after : Index) : Prop :=
  match call with
  | .next => answer = .token (tokens before.given) ∧
    after = ⟨before.given + 1, max before.pulled (before.given + 1)⟩
  | .peek => answer = .token (tokens before.given) ∧
    after = ⟨before.given, max before.pulled (before.given + 1)⟩
  | .nextNonSpace => ∃ solid, NextSolid tokens before.given solid ∧
    answer = .token (tokens solid) ∧ after = ⟨solid + 1, max before.pulled (solid + 1)⟩
  | .peekNonSpace => ∃ solid, NextSolid tokens before.given solid ∧
    answer = .token (tokens solid) ∧ after = ⟨solid, max before.pulled (solid + 1)⟩
  | .backup => before.PutsBack 1 (0 < before.given ∧ before.pulled - before.given < 3) answer after
  | .backup2 first => before.PutsBack 2
    (2 ≤ before.given ∧ before.pulled - before.given ≤ 1 ∧ first = tokens (before.given - 2))
    answer after
  | .backup3 first second => before.PutsBack 3
    (3 ≤ before.given ∧ before.pulled = before.given ∧ second = tokens (before.given - 2) ∧
      first = tokens (before.given - 3)) answer after

/-- A row of calls, each of which obeys. -/
inductive Run (tokens : Nat → Token) : Index → List (Call × Answer) → Index → Prop
  | nil (index : Index) : Run tokens index [] index
  | cons {before middle after : Index} {call : Call} {answer : Answer}
      {calls : List (Call × Answer)} (hcall : before.Obeys tokens call answer middle)
      (hrest : Run tokens middle calls after) :
      Run tokens before ((call, answer) :: calls) after

end Index

/-! ### Rows of tokens -/

/-- As many as there are of the tokens in front of an index, the latest first. -/
def latest (tokens : Nat → Token) : (index count : Nat) → List Token
  | _, 0 => []
  | 0, _ => []
  | index + 1, count + 1 => tokens index :: latest tokens index count

section Rows

variable {tokens : Nat → Token} {stop index count : Nat}

theorem latest_zero : latest tokens 0 count = [] := by
  cases count <;> rfl

theorem take_latest (bound : Nat) :
    (latest tokens index count).take bound = latest tokens index (min count bound) := by
  induction index generalizing count bound with
  | zero => simp [latest_zero]
  | succ index ih =>
    rcases count with _ | count
    · simp [latest]
    · rcases bound with _ | bound
      · simp [latest]
      · rw [latest, List.take_succ_cons, ih, Nat.succ_min_succ, latest]

theorem latest_add (count' : Nat) : latest tokens index (count + count') =
    latest tokens index count ++ latest tokens (index - count) count' := by
  induction count generalizing index with
  | zero => simp [latest]
  | succ count ih =>
    rcases index with _ | index
    · simp [latest_zero]
    · rw [Nat.succ_add, latest, latest, ih, List.cons_append, Nat.succ_sub_succ]

/-- Tokens that are put back come out again in front of those behind them. -/
theorem reverse_latest_append (hcount : count ≤ index) (hle : index ≤ stop) :
    (latest tokens index count).reverse ++ between tokens index stop =
      between tokens (index - count) stop := by
  induction count generalizing index with
  | zero => simp [latest]
  | succ count ih =>
    obtain ⟨index, rfl⟩ := Nat.exists_eq_succ_of_ne_zero (n := index) (by omega)
    have hlt : index < stop := by omega
    rw [latest, List.reverse_cons, List.append_assoc, List.singleton_append,
      ← between_of_lt hlt, ih (by omega) (by omega), Nat.succ_sub_succ]

end Rows

/-! ### Expected tokens -/

/-- The tokens expected of a pushback, the latest first, are those in front of an index. -/
def Agrees (tokens : Nat → Token) : Nat → List (Option Token) → Prop
  | _, [] => True
  | 0, _ :: _ => False
  | index + 1, expected :: others =>
    (∀ token ∈ expected, token = tokens index) ∧ Agrees tokens index others

theorem agrees_nil {tokens : Nat → Token} {index : Nat} : Agrees tokens index [] := by
  cases index <;> trivial

theorem Agrees.length_le {tokens : Nat → Token} {index : Nat} {expected : List (Option Token)}
    (h : Agrees tokens index expected) : expected.length ≤ index := by
  induction expected generalizing index with
  | nil => exact Nat.zero_le index
  | cons _ others ih =>
    rcases index with _ | index
    · exact h.elim
    · exact Nat.succ_le_succ (ih h.2)

section Memory

variable {ρ : Type} {cursor : Cursor ρ} {token : Token} {returned : List Token}
  {expected : Option Token} {others : List (Option Token)}

/-- The latest token is taken back if it may be any token, or is the one that is named. -/
theorem takeReturned_cons (hreturned : cursor.returned = token :: returned)
    (hexpected : ∀ other ∈ expected, other = token) :
    cursor.takeReturned (expected :: others) =
      ((({ cursor with returned }.takeReturned others).1.map (token :: ·)),
        ({ cursor with returned }.takeReturned others).2) := by
  have hfilter : expected.filter (· ≠ token) = none := by
    rcases expected with _ | other
    · rfl
    · simp [Option.filter, hexpected other rfl]
  rw [takeReturned, hreturned]
  simp only [hfilter]
  split <;> next hothers => simp [hothers, Except.map]

theorem takeReturned_cons_of_ne (hreturned : cursor.returned = token :: returned)
    (hexpected : ¬∀ other ∈ expected, other = token) :
    ∃ abort, cursor.takeReturned (expected :: others) =
      (.error abort, { cursor with returned }) := by
  rcases expected with _ | other
  · exact absurd (fun other hother ↦ nomatch hother) hexpected
  · have hne : other ≠ token := fun heq ↦ hexpected fun _ hother ↦ by
      rwa [← Option.some.inj hother]
    refine ⟨⟨other.offset, .internal (PushbackFault.outOfOrder other token).message⟩, ?_⟩
    simp [takeReturned, hreturned, Option.filter, hne]

variable {tokens : Nat → Token} {index count : Nat} {expected : List (Option Token)}

/-- What agrees is found in a memory that begins with it. -/
theorem takeReturned_of_agrees {rest : List Token}
    (hreturned : cursor.returned = latest tokens index expected.length ++ rest)
    (h : Agrees tokens index expected) :
    cursor.takeReturned expected =
      (.ok (latest tokens index expected.length), { cursor with returned := rest }) := by
  induction expected generalizing index cursor with
  | nil =>
    obtain ⟨stream, pending, returned⟩ := cursor
    obtain rfl : returned = rest := by simpa [latest] using hreturned
    simp [takeReturned, latest]
  | cons expected others ih =>
    rcases index with _ | index
    · exact h.elim
    · rw [takeReturned_cons hreturned h.1, ih rfl h.2]
      rfl

/-- What does not agree is refused. Only the memory is touched. -/
theorem takeReturned_of_not_agrees (hreturned : cursor.returned = latest tokens index count)
    (hcount : expected.length ≤ count) (h : ¬Agrees tokens index expected) :
    ∃ abort returned,
      cursor.takeReturned expected = (.error abort, { cursor with returned }) := by
  induction expected generalizing index count cursor with
  | nil => exact (h agrees_nil).elim
  | cons expected others ih =>
    obtain ⟨count, rfl⟩ := Nat.exists_eq_add_of_le' (Nat.one_le_of_lt hcount)
    rcases index with _ | index
    · rw [takeReturned, hreturned]
      exact ⟨_, cursor.returned, rfl⟩
    · by_cases hexpected : ∀ token ∈ expected, token = tokens index
      · have hothers : ¬Agrees tokens index others := fun hothers ↦ h ⟨hexpected, hothers⟩
        obtain ⟨abort, returned, htake⟩ :=
          @ih { cursor with returned := latest tokens index count } index count rfl
            (Nat.le_of_succ_le_succ hcount) hothers
        rw [takeReturned_cons hreturned hexpected, htake]
        exact ⟨abort, returned, rfl⟩
      · obtain ⟨abort, htake⟩ := takeReturned_cons_of_ne hreturned hexpected
        exact ⟨abort, _, htake⟩

end Memory

/-! ### What ties a cursor to its index -/

/-- The pending tokens are those that have been pulled and not been given, at most three. -/
structure Stands (source : σ) (given pulled : Nat) (cursor : Cursor σ) : Prop where
  given_le : given ≤ pulled
  pulled_le : pulled ≤ given + 3
  stream_eq : cursor.stream = TokenSource.drop pulled source
  pending_eq : cursor.pending = between (TokenSource.token source) given pulled

/-- Besides, the tokens given last are remembered, as many as there may be room to put back. -/
structure Holds (source : σ) (given pulled : Nat) (cursor : Cursor σ) : Prop
    extends Stands source given pulled cursor where
  memory : ∃ count ≤ 3, 3 ≤ count + (pulled - given) ∧
    cursor.returned = latest (TokenSource.token source) given count

variable {source : σ} {given pulled : Nat} {cursor : Cursor σ}

theorem peekNonSpace_of_backup (h : cursor.nextNonSpace.2.backup.1 = .ok ()) :
    cursor.peekNonSpace = (.ok cursor.nextNonSpace.2.backup.2.peek.1,
      cursor.nextNonSpace.2.backup.2.peek.2) := by
  rcases hbackup : cursor.nextNonSpace.2.backup with ⟨answer, cursor'⟩
  rw [hbackup] at h
  cases h
  simp only [Cursor.peekNonSpace, hbackup]

/-- A blank that is taken is one less to come. -/
theorem remaining_next_lt (hkind : cursor.next.1.kind = .space) :
    cursor.next.2.remaining < cursor.remaining := by
  rcases cursor with ⟨stream, _ | ⟨token, pending⟩, returned⟩
  · have hless := TokenSource.patience_pull stream hkind
    simpa [Cursor.next, remember, remaining] using hless
  · simp [Cursor.next, remember, remaining]

namespace Stands

theorem length_pending (h : Stands source given pulled cursor) :
    cursor.pending.length = pulled - given := by
  rw [h.pending_eq, length_between]

theorem pending_of_lt (h : Stands source given pulled cursor) (hlt : given < pulled) :
    cursor.pending = TokenSource.token source given ::
      between (TokenSource.token source) (given + 1) pulled := by
  rw [h.pending_eq, between_of_lt hlt]

theorem pending_of_eq (h : Stands source given given cursor) : cursor.pending = [] := by
  rw [h.pending_eq, between_self]

end Stands

namespace Holds

theorem ofStream (source : σ) : Holds source 0 0 (Cursor.ofStream source) where
  given_le := Nat.le_refl 0
  pulled_le := Nat.zero_le 3
  stream_eq := rfl
  pending_eq := rfl
  memory := ⟨3, Nat.le_refl 3, Nat.le_refl 3, rfl⟩

/-! ### Reading -/

/-- A token that is given is remembered. -/
theorem memory_next (h : Holds source given pulled cursor) :
    ∃ count ≤ 3, 3 ≤ count + (pulled - (given + 1)) ∧
      (TokenSource.token source given :: cursor.returned).take lookback =
        latest (TokenSource.token source) (given + 1) count := by
  obtain ⟨count, hle, hroom, hreturned⟩ := h.memory
  refine ⟨min (count + 1) 3, by omega, by omega, ?_⟩
  rw [hreturned]
  exact @take_latest (TokenSource.token source) (given + 1) (count + 1) lookback

theorem next (h : Holds source given pulled cursor) :
    cursor.next.1 = TokenSource.token source given ∧
      Holds source (given + 1) (max pulled (given + 1)) cursor.next.2 := by
  have hgiven := h.given_le
  have hpulled := h.pulled_le
  obtain ⟨count, hle, hroom, hmemory⟩ := h.memory_next
  rcases Nat.lt_or_eq_of_le hgiven with hlt | rfl
  · rw [Nat.max_eq_left hlt, Cursor.next, h.pending_of_lt hlt]
    exact ⟨rfl, ⟨hlt, by omega, h.stream_eq, rfl⟩, count, hle, hroom, hmemory⟩
  · rw [Nat.max_eq_right (Nat.le_succ given), Cursor.next, h.pending_of_eq, h.stream_eq]
    exact ⟨rfl, ⟨by omega, by omega, (TokenSource.drop_succ _ _).symm, between_self.symm⟩,
      count, hle, by omega, hmemory⟩

theorem peek (h : Holds source given pulled cursor) :
    cursor.peek.1 = TokenSource.token source given ∧
      Holds source given (max pulled (given + 1)) cursor.peek.2 := by
  have hpulled := h.pulled_le
  obtain ⟨count, hle, hroom, hmemory⟩ := h.memory
  rcases Nat.lt_or_eq_of_le h.given_le with hlt | rfl
  · rw [Nat.max_eq_left hlt, Cursor.peek, h.pending_of_lt hlt]
    exact ⟨rfl, h⟩
  · rw [Nat.max_eq_right (Nat.le_succ given), Cursor.peek, h.pending_of_eq, h.stream_eq]
    refine ⟨rfl, ⟨by omega, by omega, (TokenSource.drop_succ _ _).symm, ?_⟩,
      count, hle, by omega, hmemory⟩
    rw [between_of_lt (Nat.lt_succ_self given), between_self]
    rfl

theorem skipBlanks_succ (fuel : Nat) :
    cursor.skipBlanks (fuel + 1) =
      if cursor.next.1.kind = .space then cursor.next.2.skipBlanks fuel else cursor.next :=
  rfl

theorem skipBlanks {fuel : Nat} (h : Holds source given pulled cursor)
    (hfuel : cursor.remaining ≤ fuel) :
    ∃ solid, Index.NextSolid (TokenSource.token source) given solid ∧
      (cursor.skipBlanks fuel).1 = TokenSource.token source solid ∧
      Holds source (solid + 1) (max pulled (solid + 1)) (cursor.skipBlanks fuel).2 := by
  obtain ⟨htoken, hnext⟩ := h.next
  induction fuel generalizing given pulled cursor with
  | zero =>
    refine ⟨given, ⟨Nat.le_refl given, fun hkind ↦ ?_, by omega⟩, htoken, hnext⟩
    have hless := remaining_next_lt (htoken ▸ hkind)
    omega
  | succ fuel ih =>
    rw [skipBlanks_succ]
    by_cases hkind : cursor.next.1.kind = .space
    · have hless := remaining_next_lt hkind
      obtain ⟨solid, hsolid, hanswer, hholds⟩ := ih hnext (by omega) hnext.next.1 hnext.next.2
      have hle := hsolid.le
      rw [Nat.max_assoc, Nat.max_eq_right (by omega : given + 1 ≤ solid + 1)] at hholds
      rw [if_pos hkind]
      exact ⟨solid, hsolid.of_space (htoken ▸ hkind), hanswer, hholds⟩
    · rw [if_neg hkind]
      exact ⟨given, ⟨Nat.le_refl given, htoken ▸ hkind, by omega⟩, htoken, hnext⟩

theorem nextNonSpace (h : Holds source given pulled cursor) :
    ∃ solid, Index.NextSolid (TokenSource.token source) given solid ∧
      cursor.nextNonSpace.1 = TokenSource.token source solid ∧
      Holds source (solid + 1) (max pulled (solid + 1)) cursor.nextNonSpace.2 :=
  h.skipBlanks (Nat.le_refl _)

/-! ### Going back -/

/-- A pushback for which there is room is accepted if it names the right tokens. -/
theorem pushback_of_agrees {expected : List (Option Token)}
    (h : Holds source given pulled cursor)
    (hagrees : Agrees (TokenSource.token source) given expected)
    (hroom : pulled - given + expected.length ≤ 3) :
    (cursor.pushback expected).1 = .ok () ∧
      Holds source (given - expected.length) pulled (cursor.pushback expected).2 := by
  obtain ⟨count, hle, hcount, hreturned⟩ := h.memory
  have hgiven := h.given_le
  have hlength := hagrees.length_le
  have hfits : ¬cursor.pending.length + expected.length > lookback := by
    rw [h.length_pending, lookback]
    omega
  rw [← Nat.add_sub_cancel' (by omega : expected.length ≤ count), latest_add] at hreturned
  rw [pushback, if_neg hfits, takeReturned_of_agrees hreturned hagrees]
  refine ⟨rfl, ⟨by omega, by omega, h.stream_eq, ?_⟩, count - expected.length, by omega,
    by omega, rfl⟩
  rw [← reverse_latest_append hlength hgiven, ← h.pending_eq]

/-- One that names wrong tokens is refused, and spoils the memory. -/
theorem pushback_of_not_agrees {expected : List (Option Token)}
    (h : Holds source given pulled cursor)
    (hagrees : ¬Agrees (TokenSource.token source) given expected)
    (hroom : pulled - given + expected.length ≤ 3) :
    ∃ abort returned, cursor.pushback expected = (.error abort, { cursor with returned }) := by
  obtain ⟨count, hle, hcount, hreturned⟩ := h.memory
  have hfits : ¬cursor.pending.length + expected.length > lookback := by
    rw [h.length_pending, lookback]
    omega
  obtain ⟨abort, returned, htake⟩ :=
    takeReturned_of_not_agrees hreturned (by omega) hagrees
  exact ⟨abort, returned, by rw [pushback, if_neg hfits, htake]⟩

/-- One for which there is no room is refused and changes nothing. -/
theorem pushback_of_not_room {expected : List (Option Token)}
    (h : Holds source given pulled cursor) (hroom : ¬pulled - given + expected.length ≤ 3) :
    ∃ abort, cursor.pushback expected = (.error abort, cursor) := by
  have hfits : cursor.pending.length + expected.length > lookback := by
    rw [h.length_pending, lookback]
    omega
  exact ⟨_, by rw [pushback, if_pos hfits]⟩

/-- The latest token can be put back if there is one and there is room for it. -/
theorem backup (h : Holds source given pulled cursor) :
    (0 < given ∧ pulled - given < 3 ∧ cursor.backup.1 = .ok () ∧
        Holds source (given - 1) pulled cursor.backup.2) ∨
      (¬(0 < given ∧ pulled - given < 3) ∧ ∃ abort, cursor.backup = (.error abort, cursor)) := by
  by_cases hroom : pulled - given + 1 ≤ 3
  · rcases given with _ | given
    · obtain ⟨count, -, -, hreturned⟩ := h.memory
      have hfits : ¬cursor.pending.length + 1 > lookback := by
        rw [h.length_pending, lookback]
        omega
      rw [latest_zero] at hreturned
      refine .inr ⟨fun hboth ↦ absurd hboth.1 (Nat.lt_irrefl 0), ?_⟩
      simp [Cursor.backup, pushback, takeReturned, hreturned, hfits]
    · have hagrees : Agrees (TokenSource.token source) (given + 1) [none] :=
        ⟨(fun _ htoken ↦ nomatch htoken), agrees_nil⟩
      have hback := h.pushback_of_agrees hagrees hroom
      exact .inl ⟨Nat.succ_pos given, by omega, hback.1, hback.2⟩
  · exact .inr ⟨fun hboth ↦ hroom (by omega), h.pushback_of_not_room hroom⟩

/-- Behind blanks there is always a token, and always room to put it back. -/
theorem peekNonSpace (h : Holds source given pulled cursor) :
    ∃ solid, Index.NextSolid (TokenSource.token source) given solid ∧
      cursor.peekNonSpace.1 = .ok (TokenSource.token source solid) ∧
      Holds source solid (max pulled (solid + 1)) cursor.peekNonSpace.2 := by
  obtain ⟨solid, hsolid, htoken, hholds⟩ := h.nextNonSpace
  have hle := hsolid.le
  have hpulled := h.pulled_le
  obtain ⟨-, -, hback, hholds⟩ | ⟨hnot, -⟩ := hholds.backup
  · obtain ⟨hpeek, hholds⟩ := hholds.peek
    rw [Nat.add_sub_cancel] at hpeek hholds
    rw [Nat.max_eq_left (Nat.le_max_right _ _)] at hholds
    rw [peekNonSpace_of_backup hback]
    exact ⟨solid, hsolid, congrArg Except.ok hpeek, hholds⟩
  · exact absurd ⟨Nat.succ_pos solid, by omega⟩ hnot

end Holds

/-! ### Calls -/

section Calls

variable {tokens : Nat → Token} {index count : Nat}

theorem agrees_two {first : Token} :
    Agrees tokens index [none, some first] ↔ 2 ≤ index ∧ first = tokens (index - 2) := by
  rcases index with _ | _ | index <;> simp [Agrees, agrees_nil]

theorem agrees_three {first second : Token} :
    Agrees tokens index [none, some second, some first] ↔
      3 ≤ index ∧ second = tokens (index - 2) ∧ first = tokens (index - 3) := by
  rcases index with _ | _ | _ | index <;> simp [Agrees, agrees_nil]

end Calls

/-- What a pushback does to the index. It may leave the memory spoilt only where there is room
and it is refused. -/
theorem Holds.pushback (h : Holds source given pulled cursor) (expected : List (Option Token))
    {fits : Prop}
    (hfits : fits ↔ pulled - given + expected.length ≤ 3 ∧
      Agrees (TokenSource.token source) given expected) :
    ∃ after : Index,
      Index.PutsBack ⟨given, pulled⟩ expected.length fits
        (.ofExcept (fun _ ↦ .done) (cursor.pushback expected).1) after ∧
      Stands source after.given after.pulled (cursor.pushback expected).2 ∧
      ((pulled - given + expected.length ≤ 3 →
          Answer.ofExcept (fun _ ↦ .done) (cursor.pushback expected).1 = .done) →
        Holds source after.given after.pulled (cursor.pushback expected).2) := by
  by_cases hroom : pulled - given + expected.length ≤ 3
  · by_cases hagrees : Agrees (TokenSource.token source) given expected
    · obtain ⟨hback, hholds⟩ := h.pushback_of_agrees hagrees hroom
      exact ⟨_, .inl ⟨hfits.2 ⟨hroom, hagrees⟩, congrArg (Answer.ofExcept fun _ ↦ .done) hback,
        rfl⟩, hholds.toStands, fun _ ↦ hholds⟩
    · obtain ⟨abort, returned, hback⟩ := h.pushback_of_not_agrees hagrees hroom
      rw [hback]
      exact ⟨_, .inr ⟨fun hfit ↦ hagrees (hfits.1 hfit).2, ⟨abort, rfl⟩, rfl⟩,
        ⟨h.given_le, h.pulled_le, h.stream_eq, h.pending_eq⟩, fun hdone ↦ nomatch hdone hroom⟩
  · obtain ⟨abort, hback⟩ := h.pushback_of_not_room hroom
    rw [hback]
    exact ⟨_, .inr ⟨fun hfit ↦ hroom (hfits.1 hfit).1, ⟨abort, rfl⟩, rfl⟩, h.toStands,
      fun _ ↦ h⟩

/-- Every call obeys, and leaves the cursor at the index it is moved to. -/
theorem Holds.call (h : Holds source given pulled cursor) (call : Call) :
    ∃ after : Index,
      Index.Obeys (TokenSource.token source) ⟨given, pulled⟩ call (cursor.call call).1 after ∧
      Stands source after.given after.pulled (cursor.call call).2 ∧
      (cursor.Accepts call → Holds source after.given after.pulled (cursor.call call).2) := by
  cases call with
  | next =>
    obtain ⟨htoken, hholds⟩ := h.next
    exact ⟨_, ⟨congrArg Answer.token htoken, rfl⟩, hholds.toStands, fun _ ↦ hholds⟩
  | peek =>
    obtain ⟨htoken, hholds⟩ := h.peek
    exact ⟨_, ⟨congrArg Answer.token htoken, rfl⟩, hholds.toStands, fun _ ↦ hholds⟩
  | nextNonSpace =>
    obtain ⟨solid, hsolid, htoken, hholds⟩ := h.nextNonSpace
    exact ⟨_, ⟨solid, hsolid, congrArg Answer.token htoken, rfl⟩, hholds.toStands,
      fun _ ↦ hholds⟩
  | peekNonSpace =>
    obtain ⟨solid, hsolid, htoken, hholds⟩ := h.peekNonSpace
    exact ⟨_, ⟨solid, hsolid, congrArg (Answer.ofExcept .token) htoken, rfl⟩, hholds.toStands,
      fun _ ↦ hholds⟩
  | backup =>
    obtain ⟨hgiven, hroom, hback, hholds⟩ | ⟨hnot, abort, hback⟩ := h.backup
    · exact ⟨_, .inl ⟨⟨hgiven, hroom⟩, congrArg (Answer.ofExcept fun _ ↦ .done) hback, rfl⟩,
        hholds.toStands, fun _ ↦ hholds⟩
    · refine ⟨_, .inr ⟨hnot, ⟨abort, ?_⟩, rfl⟩, ?_⟩
      · simp [Cursor.call, hback, Answer.ofExcept]
      · simpa only [Cursor.call, hback] using ⟨h.toStands, fun _ ↦ h⟩
  | backup2 first =>
    have hfits : (2 ≤ given ∧ pulled - given ≤ 1 ∧
          first = TokenSource.token source (given - 2)) ↔
        pulled - given + 2 ≤ 3 ∧ Agrees (TokenSource.token source) given [none, some first] := by
      rw [agrees_two]
      exact ⟨fun ⟨hgiven, hroom, hfirst⟩ ↦ ⟨by omega, hgiven, hfirst⟩,
        fun ⟨hroom, hgiven, hfirst⟩ ↦ ⟨hgiven, by omega, hfirst⟩⟩
    obtain ⟨after, hback, hstands, hholds⟩ := h.pushback [none, some first] hfits
    refine ⟨after, hback, hstands, fun haccepts ↦ hholds fun hroom ↦
      haccepts (Nat.succ_ne_zero _) ?_⟩
    rwa [h.length_pending]
  | backup3 first second =>
    have hle := h.given_le
    have hfits : (3 ≤ given ∧ pulled = given ∧ second = TokenSource.token source (given - 2) ∧
          first = TokenSource.token source (given - 3)) ↔
        pulled - given + 3 ≤ 3 ∧
          Agrees (TokenSource.token source) given [none, some second, some first] := by
      rw [agrees_three]
      exact ⟨fun ⟨hgiven, hroom, hnamed⟩ ↦ ⟨by omega, hgiven, hnamed⟩,
        fun ⟨hroom, hgiven, hnamed⟩ ↦ ⟨hgiven, by omega, hnamed⟩⟩
    obtain ⟨after, hback, hstands, hholds⟩ :=
      h.pushback [none, some second, some first] hfits
    refine ⟨after, hback, hstands, fun haccepts ↦ hholds fun hroom ↦
      haccepts (Nat.succ_ne_zero _) ?_⟩
    rwa [h.length_pending]

/-! ### Rows of calls -/

theorem Truthful.run {source : σ} {calls : List Call} (h : Holds source given pulled cursor)
    (htruthful : cursor.Truthful calls.dropLast) :
    ∃ index, Index.Run (TokenSource.token source) ⟨given, pulled⟩ (cursor.answered calls) index ∧
      Stands source index.given index.pulled (cursor.after calls) := by
  induction calls generalizing given pulled cursor with
  | nil => exact ⟨⟨given, pulled⟩, .nil _, h.toStands⟩
  | cons call calls ih =>
    obtain ⟨middle, hobeys, hstands, hholds⟩ := h.call call
    rcases calls with _ | ⟨call', calls⟩
    · exact ⟨middle, .cons hobeys (.nil middle), hstands⟩
    · obtain ⟨haccepts, hrest⟩ := htruthful
      obtain ⟨after, hrun, hafter⟩ := ih (hholds haccepts) hrest
      exact ⟨after, .cons hobeys hrun, hafter⟩

/-- A cursor is an index into what its source gives: every call of a row answers and moves as
the index says, the last one whatever it is, as long as no earlier pushback by name has been
refused although there was room for it. The number of tokens pulled is at most three ahead of
the number given, and the tokens between are pending. -/
theorem behaves_as_index (source : σ) (calls : List Call)
    (h : (ofStream source).Truthful calls.dropLast) :
    ∃ index : Index,
      Index.Run (TokenSource.token source) ⟨0, 0⟩ ((ofStream source).answered calls) index ∧
      index.given ≤ index.pulled ∧ index.pulled ≤ index.given + 3 ∧
      ((ofStream source).after calls).stream = TokenSource.drop index.pulled source ∧
      ((ofStream source).after calls).pending.length = index.pulled - index.given := by
  obtain ⟨index, hrun, hstands⟩ := Truthful.run (Holds.ofStream source) h
  exact ⟨index, hrun, hstands.given_le, hstands.pulled_le, hstands.stream_eq,
    hstands.length_pending⟩

/-- Two words with a blank between them. -/
def twoWords : TokenStream where
  tokens := [⟨.bare, "a", 0, false⟩, ⟨.space, " ", 1, false⟩,
    ⟨.bare, "b", 2, false⟩]
  endOffset := 3

/-- Reading the two words, going back over all three tokens, then over two of them, and at last
asking for the wrong ones. -/
def toAndFro : List Call :=
  [.next, .next, .next, .backup3 ⟨.bare, "a", 0, false⟩ ⟨.space, " ", 1, false⟩,
    .next, .next, .backup2 ⟨.bare, "a", 0, false⟩, .nextNonSpace, .peekNonSpace,
    .backup2 ⟨.bare, "b", 2, false⟩]

theorem behaves_as_index_toAndFro :
    (ofStream twoWords).Truthful toAndFro.dropLast ∧
      ∃ index : Index,
        Index.Run (TokenSource.token twoWords) ⟨0, 0⟩ ((ofStream twoWords).answered toAndFro)
          index ∧
        index.given ≤ index.pulled ∧ index.pulled ≤ index.given + 3 ∧
        ((ofStream twoWords).after toAndFro).stream =
          TokenSource.drop index.pulled twoWords ∧
        ((ofStream twoWords).after toAndFro).pending.length = index.pulled - index.given :=
  have h : (ofStream twoWords).Truthful toAndFro.dropLast := by decide
  ⟨h, behaves_as_index twoWords toAndFro h⟩

end Cursor

end PipelineSyntax
