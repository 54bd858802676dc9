import PipelineSyntax.Proofs.CursorIndex

/-!
# Refused pushbacks

A pushback that is refused may have forgotten tokens on the way. From then on the memory of a
cursor does not line up with its source any more, and what it gives is no row of tokens of the
source: a token may be left out.

What is left is said by the cursor alone. It is a source itself, which hands out tokens by
`next`, and what is to come depends on its pending tokens and its source only (`token_eq`). No
refusal touches either. And however many pushbacks have been refused, no more than three tokens
are pending, and those that are remembered have been given, in this order (`Remembers`). That is
enough for every token that is taken to be put back at once.
-/

namespace PipelineSyntax

namespace TokenSource

variable {σ : Type} [TokenSource σ]

theorem token_drop (count : Nat) (source : σ) (index : Nat) :
    token (drop count source) index = token source (count + index) := by
  induction count generalizing source with
  | zero => rw [Nat.zero_add, drop]
  | succ count ih =>
    rw [drop, ih, Nat.succ_add]
    rfl

theorem getElem?_between_zero (tokens : Nat → Token) (stop index : Nat) :
    (between tokens 0 stop)[index]? = if index < stop then some (tokens index) else none := by
  split
  · next hlt => simp [between, hlt]
  · next hge => simp [between, Nat.not_lt.1 hge]

end TokenSource

namespace Cursor

open TokenSource (between drop drop_succ getElem?_between_zero length_between token token_drop)

variable {σ : Type} [TokenSource σ]

/-! ### The tokens to come -/

/-- A cursor is a source, too, which hands out tokens by `next`. -/
instance : TokenSource (Cursor σ) where
  pull := next
  patience := remaining
  patience_pull _ := remaining_next_lt

section ToCome

variable {cursor cursor' : Cursor σ}

theorem pending_next (cursor : Cursor σ) : cursor.next.2.pending = cursor.pending.tail := by
  rcases cursor with ⟨stream, _ | ⟨token, pending⟩, returned⟩ <;> rfl

theorem returned_next (cursor : Cursor σ) :
    cursor.next.2.returned = (cursor.next.1 :: cursor.returned).take lookback := by
  rcases cursor with ⟨stream, _ | ⟨token, pending⟩, returned⟩ <;> rfl

/-- What is to come are the pending tokens, and behind them those of the source. -/
theorem token_eq (cursor : Cursor σ) (index : Nat) : token cursor index =
    cursor.pending[index]?.getD (token cursor.stream (index - cursor.pending.length)) := by
  induction index generalizing cursor with
  | zero => rcases cursor with ⟨stream, _ | ⟨token, pending⟩, returned⟩ <;> rfl
  | succ index ih =>
    change token cursor.next.2 index = _
    rw [ih]
    rcases cursor with ⟨stream, _ | ⟨token, pending⟩, returned⟩
    · rfl
    · simp [next, remember]

/-- What is remembered makes no difference to what is to come. -/
theorem token_congr (hstream : cursor'.stream = cursor.stream)
    (hpending : cursor'.pending = cursor.pending) : token cursor' = token cursor :=
  funext fun index ↦ by rw [token_eq, token_eq, hstream, hpending]

/-- Tokens that are put in front come first. -/
theorem token_pending_append (cursor : Cursor σ) (row returned : List Token) (index : Nat) :
    token { cursor with pending := row ++ cursor.pending, returned } index =
      row[index]?.getD (token cursor (index - row.length)) := by
  rw [token_eq, token_eq]
  dsimp only
  rw [List.getElem?_append, List.length_append]
  split
  · next hlt => simp [List.getElem?_eq_getElem hlt]
  · next hge => simp [List.getElem?_eq_none (Nat.not_lt.1 hge), Nat.sub_sub]

theorem token_peek (cursor : Cursor σ) :
    cursor.peek.1 = token cursor 0 ∧ token cursor.peek.2 = token cursor := by
  rcases cursor with ⟨stream, _ | ⟨first, pending⟩, returned⟩
  · refine ⟨rfl, funext fun index ↦ ?_⟩
    rw [token_eq, token_eq]
    cases index <;> rfl
  · exact ⟨rfl, rfl⟩

end ToCome

/-! ### Skipping blanks -/

/-- Skipping blanks takes all tokens up to the first one that is no blank. -/
theorem skipBlanks_eq (cursor : Cursor σ) {fuel : Nat} (hfuel : cursor.remaining ≤ fuel) :
    ∃ solid, Index.NextSolid (token cursor) 0 solid ∧
      cursor.skipBlanks fuel = (token cursor solid, drop (solid + 1) cursor) := by
  induction fuel generalizing cursor with
  | zero =>
    refine ⟨0, ⟨Nat.le_refl 0, fun hkind ↦ ?_, by omega⟩, rfl⟩
    have hless : cursor.next.2.remaining < cursor.remaining := remaining_next_lt hkind
    omega
  | succ fuel ih =>
    rw [Holds.skipBlanks_succ]
    split
    case isTrue hkind =>
      have hless := remaining_next_lt hkind
      obtain ⟨solid, hsolid, hskip⟩ := ih cursor.next.2 (by omega)
      refine ⟨solid + 1, ⟨Nat.zero_le _, hsolid.ne_space, fun index hle hlt ↦ ?_⟩, hskip⟩
      cases index with
      | zero => exact hkind
      | succ index => exact hsolid.space index (Nat.zero_le _) (Nat.lt_of_succ_lt_succ hlt)
    case isFalse hkind => exact ⟨0, ⟨Nat.le_refl 0, hkind, by omega⟩, rfl⟩

theorem nextNonSpace_eq (cursor : Cursor σ) : ∃ solid, Index.NextSolid (token cursor) 0 solid ∧
    cursor.nextNonSpace = (token cursor solid, drop (solid + 1) cursor) :=
  cursor.skipBlanks_eq (Nat.le_refl _)

/-! ### Putting back what has been taken -/

section Drop

variable {cursor : Cursor σ}

theorem pending_drop (count : Nat) (cursor : Cursor σ) :
    (drop count cursor).pending = cursor.pending.drop count := by
  induction count generalizing cursor with
  | zero => rfl
  | succ count ih =>
    rw [drop, ih]
    change cursor.next.2.pending.drop count = _
    rw [pending_next, List.drop_tail]

/-- As many tokens as can be put back are remembered once they have been taken. -/
theorem returned_drop (cursor : Cursor σ) {count : Nat} (h : count ≤ lookback) :
    ∃ rest, (drop count cursor).returned = latest (token cursor) count count ++ rest := by
  induction count with
  | zero => exact ⟨cursor.returned, rfl⟩
  | succ count ih =>
    obtain ⟨rest, hreturned⟩ := ih (Nat.le_of_succ_le h)
    have hlatest : (latest (token cursor) count count).take 2 =
        latest (token cursor) count count := by
      rw [take_latest, Nat.min_eq_left (Nat.le_of_succ_le_succ h)]
    refine ⟨rest.take (2 - (latest (token cursor) count count).length), ?_⟩
    rw [drop_succ]
    change (drop count cursor).next.2.returned = _
    rw [returned_next, hreturned, lookback, List.take_succ_cons, List.take_append, hlatest]
    rfl

/-- Tokens that have been taken can be put back at once, if they are named rightly and there was
room before. Then they come again. -/
theorem pushback_drop {expected : List (Option Token)} (hpending : cursor.pending.length ≤ lookback)
    (hlength : expected.length ≤ lookback)
    (hagrees : Agrees (token cursor) expected.length expected) :
    ((drop expected.length cursor).pushback expected).1 = .ok () ∧
      token ((drop expected.length cursor).pushback expected).2 = token cursor := by
  obtain ⟨rest, hreturned⟩ := returned_drop cursor hlength
  have hfits : ¬(drop expected.length cursor).pending.length + expected.length > lookback := by
    rw [pending_drop, List.length_drop]
    omega
  have hrow := @reverse_latest_append (token cursor) expected.length expected.length expected.length
    (Nat.le_refl _) (Nat.le_refl _)
  rw [TokenSource.between_self, List.append_nil, Nat.sub_self] at hrow
  rw [pushback, if_neg hfits, takeReturned_of_agrees hreturned hagrees]
  refine ⟨rfl, funext fun index ↦ ?_⟩
  dsimp only
  rw [token_pending_append, hrow, getElem?_between_zero, length_between, Nat.sub_zero, token_drop]
  split
  · rfl
  · next hge =>
    rw [Option.getD_none, Nat.add_sub_cancel' (Nat.not_lt.1 hge)]

/-- The token behind blanks can be put back, and then it is the next one. -/
theorem peekNonSpace_eq {solid : Nat} (hpending : cursor.pending.length ≤ lookback)
    (hnext : cursor.nextNonSpace = (token cursor solid, drop (solid + 1) cursor)) :
    cursor.nextNonSpace.2.backup.1 = .ok () ∧
      cursor.peekNonSpace.1 = .ok (token cursor solid) ∧
      token cursor.peekNonSpace.2 = token (drop solid cursor) := by
  have hroom : (drop solid cursor).pending.length ≤ lookback := by
    rw [pending_drop, List.length_drop]
    omega
  have hagrees : Agrees (token (drop solid cursor)) 1 [none] :=
    ⟨(fun _ hother ↦ nomatch hother), agrees_nil⟩
  obtain ⟨hback, htokens⟩ := pushback_drop hroom (by decide : [none].length ≤ lookback) hagrees
  have hbehind : drop 1 (drop solid cursor) = cursor.nextNonSpace.2 := by
    rw [hnext]
    exact (drop_succ solid cursor).symm
  rw [List.length_singleton, hbehind] at hback htokens
  obtain ⟨hpeek, hafter⟩ := cursor.nextNonSpace.2.backup.2.token_peek
  rw [peekNonSpace_of_backup hback]
  refine ⟨hback, congrArg Except.ok ?_, hafter.trans htokens⟩
  rw [hpeek]
  exact congrFun htokens 0

end Drop

/-! ### What a pushback may do -/

section Pushback

variable {ρ : Type}

/-- Tokens are taken back off the front of the memory, whether all of them are found or not. -/
theorem takeReturned_cases (cursor : Cursor ρ) (expected : List (Option Token)) :
    ∃ row rest, cursor.returned = row ++ rest ∧
      ((row.length = expected.length ∧
          cursor.takeReturned expected = (.ok row, { cursor with returned := rest })) ∨
        ∃ abort,
          cursor.takeReturned expected = (.error abort, { cursor with returned := rest })) := by
  induction expected generalizing cursor with
  | nil => exact ⟨[], cursor.returned, rfl, .inl ⟨rfl, rfl⟩⟩
  | cons expected others ih =>
    rcases hreturned : cursor.returned with _ | ⟨token, returned⟩
    · obtain ⟨stream, pending, returned⟩ := cursor
      cases hreturned
      exact ⟨[], [], rfl, .inr ⟨_, rfl⟩⟩
    · by_cases hexpected : ∀ other ∈ expected, other = token
      · obtain ⟨row, rest, rfl, htake⟩ := ih { cursor with returned }
        refine ⟨token :: row, rest, rfl, ?_⟩
        rw [takeReturned_cons hreturned hexpected]
        rcases htake with ⟨hlength, htake⟩ | ⟨abort, htake⟩
        · exact .inl ⟨congrArg Nat.succ hlength, by rw [htake]; rfl⟩
        · exact .inr ⟨abort, by rw [htake]; rfl⟩
      · obtain ⟨abort, htake⟩ := takeReturned_cons_of_ne hreturned hexpected
        exact ⟨[token], returned, rfl, .inr ⟨abort, htake⟩⟩

/-- A pushback puts back a row of tokens from the front of the memory, if there is room for it,
or it only forgets such a row. -/
theorem pushback_cases (cursor : Cursor ρ) (expected : List (Option Token)) :
    ∃ row rest, cursor.returned = row ++ rest ∧
      ((cursor.pending.length + row.length ≤ lookback ∧ cursor.pushback expected =
          (.ok (), { cursor with pending := row.reverse ++ cursor.pending, returned := rest })) ∨
        ∃ abort, cursor.pushback expected = (.error abort, { cursor with returned := rest })) := by
  by_cases hroom : cursor.pending.length + expected.length > lookback
  · exact ⟨[], cursor.returned, rfl, .inr ⟨_, by rw [pushback, if_pos hroom]⟩⟩
  · obtain ⟨row, rest, hreturned, ⟨hlength, htake⟩ | ⟨abort, htake⟩⟩ :=
      cursor.takeReturned_cases expected
    · refine ⟨row, rest, hreturned, .inl ⟨by omega, ?_⟩⟩
      rw [pushback, if_neg hroom, htake]
    · refine ⟨row, rest, hreturned, .inr ⟨abort, ?_⟩⟩
      rw [pushback, if_neg hroom, htake]

end Pushback

/-- The tokens that a pushback expects, the latest first. Other calls expect none. -/
def Call.expected : Call → List (Option Token)
  | .backup => [none]
  | .backup2 first => [none, some first]
  | .backup3 first second => [none, some second, some first]
  | .next | .peek | .nextNonSpace | .peekNonSpace => []

theorem Call.length_expected_le (call : Call) : call.expected.length ≤ lookback := by
  cases call <;> simp [expected, lookback]

theorem call_of_expected {call : Call} (h : call.expected ≠ []) (cursor : Cursor σ) :
    cursor.call call = (.ofExcept (fun _ ↦ .done) (cursor.pushback call.expected).1,
      (cursor.pushback call.expected).2) := by
  cases call with
  | backup | backup2 | backup3 => rfl
  | next | peek | nextNonSpace | peekNonSpace => exact absurd rfl h

/-- A call for a pushback puts tokens from the front of the memory back, or forgets them and does
nothing else. -/
theorem call_cases_of_expected {call : Call} (h : call.expected ≠ []) (cursor : Cursor σ) :
    ∃ row rest, cursor.returned = row ++ rest ∧
      (cursor.call call =
          (.done, { cursor with pending := row.reverse ++ cursor.pending, returned := rest }) ∨
        ∃ abort, cursor.call call = (.refused abort, { cursor with returned := rest })) := by
  rw [call_of_expected h]
  obtain ⟨row, rest, hreturned, ⟨-, hback⟩ | ⟨abort, hback⟩⟩ :=
    cursor.pushback_cases call.expected
  · exact ⟨row, rest, hreturned, .inl (by rw [hback]; rfl)⟩
  · exact ⟨row, rest, hreturned, .inr ⟨abort, by rw [hback]; rfl⟩⟩

/-! ### Tokens that have been given -/

/-- The tokens that skipping blanks takes. -/
def skipped : (fuel : Nat) → Cursor σ → List Token
  | 0, cursor => [cursor.next.1]
  | fuel + 1, cursor =>
    if cursor.next.1.kind = .space then cursor.next.1 :: skipped fuel cursor.next.2
    else [cursor.next.1]

/-- The tokens that a call takes by `next`, whether it is made by itself or on the way to a token
behind blanks. -/
def taken (cursor : Cursor σ) : Call → List Token
  | .next => [cursor.next.1]
  | .nextNonSpace | .peekNonSpace => skipped cursor.remaining cursor
  | .peek | .backup | .backup2 _ | .backup3 _ _ => []

/-- The tokens that a row of calls takes by `next`. -/
def takenBy : Cursor σ → List Call → List Token
  | _, [] => []
  | cursor, call :: calls => cursor.taken call ++ takenBy (cursor.call call).2 calls

/-- What is left of the memory of a cursor however many pushbacks have been refused: the tokens
that are remembered have been given in this order, and the pending ones are not too many. -/
structure Remembers (given : List Token) (cursor : Cursor σ) : Prop where
  /-- No more tokens are pending than can be put back. -/
  pending_le : cursor.pending.length ≤ lookback
  /-- The tokens that are remembered are some of those given. -/
  returned_sublist : cursor.returned.reverse.Sublist given

namespace Remembers

variable {given : List Token} {cursor : Cursor σ}

theorem ofStream {ρ : Type} (source : ρ) : Remembers [] (ofStream source) where
  pending_le := Nat.zero_le lookback
  returned_sublist := List.nil_sublist []

/-- A pushback only takes off the memory, whether it is accepted or not. -/
theorem pushback {ρ : Type} {cursor : Cursor ρ} (h : Remembers given cursor)
    (expected : List (Option Token)) : Remembers given (cursor.pushback expected).2 := by
  obtain ⟨hle, hsublist⟩ := h
  obtain ⟨row, rest, hreturned, hback⟩ := cursor.pushback_cases expected
  have hrest : rest.reverse.Sublist given := by
    rw [hreturned, List.reverse_append] at hsublist
    exact (List.sublist_append_left _ _).trans hsublist
  rcases hback with ⟨hroom, hback⟩ | ⟨abort, hback⟩
  · rw [hback]
    refine ⟨?_, hrest⟩
    rw [List.length_append, List.length_reverse]
    omega
  · rw [hback]
    exact ⟨hle, hrest⟩

theorem next (h : Remembers given cursor) :
    Remembers (given ++ [cursor.next.1]) cursor.next.2 where
  pending_le := by
    have hle := h.pending_le
    rw [pending_next, List.length_tail]
    omega
  returned_sublist := by
    rw [returned_next]
    refine (List.take_sublist _ _).reverse.trans ?_
    rw [List.reverse_cons]
    exact h.returned_sublist.append_right _

theorem peek (h : Remembers given cursor) : Remembers given cursor.peek.2 := by
  obtain ⟨hle, hsublist⟩ := h
  rcases cursor with ⟨stream, _ | ⟨first, pending⟩, returned⟩
  · exact ⟨Nat.le_add_left 1 2, hsublist⟩
  · exact ⟨hle, hsublist⟩

theorem skipBlanks {fuel : Nat} (h : Remembers given cursor) :
    Remembers (given ++ skipped fuel cursor) (cursor.skipBlanks fuel).2 := by
  induction fuel generalizing given cursor with
  | zero => exact h.next
  | succ fuel ih =>
    rw [Holds.skipBlanks_succ, skipped]
    split
    · have hrest := ih h.next
      rwa [List.append_assoc, List.singleton_append] at hrest
    · exact h.next

/-- Every call keeps what is left of the memory. -/
theorem call (h : Remembers given cursor) (call : Call) :
    Remembers (given ++ cursor.taken call) (cursor.call call).2 := by
  cases call with
  | next => exact h.next
  | nextNonSpace => exact h.skipBlanks
  | peek =>
    rw [taken, List.append_nil]
    exact h.peek
  | peekNonSpace =>
    obtain ⟨solid, -, hnext⟩ := cursor.nextNonSpace_eq
    obtain ⟨hback, -⟩ := peekNonSpace_eq h.pending_le hnext
    rw [Cursor.call, peekNonSpace_of_backup hback]
    exact (h.skipBlanks.pushback [none]).peek
  | backup | backup2 | backup3 =>
    rw [taken, List.append_nil]
    exact h.pushback _

/-- And so does a row of calls. -/
theorem after (h : Remembers given cursor) (calls : List Call) :
    Remembers (given ++ cursor.takenBy calls) (cursor.after calls) := by
  induction calls generalizing given cursor with
  | nil => rwa [takenBy, List.append_nil]
  | cons call calls ih =>
    rw [takenBy, ← List.append_assoc]
    exact ih (h.call call)

/-- A call answers with a token, or it is for a pushback. -/
theorem call_cases (h : Remembers given cursor) (call : Call) :
    (∃ token, (cursor.call call).1 = .token token) ∨ call.expected ≠ [] := by
  cases call with
  | next | peek | nextNonSpace => exact .inl ⟨_, rfl⟩
  | peekNonSpace =>
    obtain ⟨solid, -, hnext⟩ := cursor.nextNonSpace_eq
    obtain ⟨-, hpeek, -⟩ := peekNonSpace_eq h.pending_le hnext
    exact .inl ⟨_, congrArg (Answer.ofExcept .token) hpeek⟩
  | backup | backup2 | backup3 => exact .inr (List.cons_ne_nil _ _)

/-- A call that is refused touches the memory only. -/
theorem of_refused (h : Remembers given cursor) {call : Call} {abort : Abort}
    (hrefused : (cursor.call call).1 = .refused abort) :
    (cursor.call call).2.pending = cursor.pending ∧
      (cursor.call call).2.stream = cursor.stream := by
  obtain ⟨token, htoken⟩ | hcall := h.call_cases call
  · rw [htoken] at hrefused
    cases hrefused
  · obtain ⟨row, rest, -, hback | ⟨_, hback⟩⟩ := call_cases_of_expected hcall cursor
    · rw [hback] at hrefused
      cases hrefused
    · rw [hback]
      exact ⟨rfl, rfl⟩

/-- A pushback that is accepted puts back tokens that have been given. -/
theorem of_done (h : Remembers given cursor) {call : Call}
    (hdone : (cursor.call call).1 = .done) :
    ∃ row, row.Sublist given ∧ (cursor.call call).2.pending = row ++ cursor.pending ∧
      (cursor.call call).2.stream = cursor.stream := by
  obtain ⟨token, htoken⟩ | hcall := h.call_cases call
  · rw [htoken] at hdone
    cases hdone
  · obtain ⟨row, rest, hreturned, hback | ⟨_, hback⟩⟩ := call_cases_of_expected hcall cursor
    · have hsublist := h.returned_sublist
      rw [hreturned, List.reverse_append] at hsublist
      rw [hback]
      exact ⟨row.reverse, (List.sublist_append_right _ _).trans hsublist, rfl, rfl⟩
    · rw [hback] at hdone
      cases hdone

end Remembers

/-! ### There and back -/

/-- Taking so many tokens and making a call that puts them back is accepted, and the same tokens
come as before. -/
def RoundTrip (cursor : Cursor σ) (count : Nat) (call : Call) : Prop :=
  ((cursor.after (.replicate count .next)).call call).1 = .done ∧
    token ((cursor.after (.replicate count .next)).call call).2 = token cursor

theorem after_replicate_next (count : Nat) (cursor : Cursor σ) :
    cursor.after (.replicate count .next) = drop count cursor := by
  induction count generalizing cursor with
  | zero => rfl
  | succ count ih => exact ih cursor.next.2

/-- A pushback that names the tokens to come can be made once they have been taken. -/
theorem roundTrip {cursor : Cursor σ} (hpending : cursor.pending.length ≤ lookback) (call : Call)
    (hcall : call.expected ≠ [])
    (hagrees : Agrees (token cursor) call.expected.length call.expected) :
    cursor.RoundTrip call.expected.length call := by
  obtain ⟨hback, htokens⟩ := pushback_drop hpending call.length_expected_le hagrees
  rw [RoundTrip, after_replicate_next, call_of_expected hcall]
  exact ⟨congrArg (Answer.ofExcept fun _ ↦ .done) hback, htokens⟩

/-- **A refused pushback does not disturb the tokens to come.** Whatever calls have been made,
and however many of them have been refused:

* no more than three tokens are pending;
* a refusal leaves the pending tokens and the source alone, so the same tokens come as before;
* a pushback that is accepted puts back tokens that have been given before, in their order;
* the next token that is no blank can always be taken, and looked at, when the blanks in front of
  it are skipped;
* one, two or three tokens that are taken can be put back at once, and then come again. -/
theorem refusals_disturb_nothing (source : σ) (calls : List Call) :
    let cursor := (ofStream source).after calls
    let tokens := token cursor
    cursor.pending.length ≤ lookback ∧
    (∀ call abort, (cursor.call call).1 = .refused abort →
      (cursor.call call).2.pending = cursor.pending ∧
      (cursor.call call).2.stream = cursor.stream ∧
      token (cursor.call call).2 = tokens) ∧
    (∀ call, (cursor.call call).1 = .done →
      ∃ row, row.Sublist ((ofStream source).takenBy calls) ∧
        (cursor.call call).2.pending = row ++ cursor.pending ∧
        (cursor.call call).2.stream = cursor.stream) ∧
    (∃ solid, Index.NextSolid tokens 0 solid ∧
      cursor.nextNonSpace.1 = tokens solid ∧
      token cursor.nextNonSpace.2 = token (drop (solid + 1) cursor) ∧
      cursor.peekNonSpace.1 = .ok (tokens solid) ∧
      token cursor.peekNonSpace.2 = token (drop solid cursor)) ∧
    cursor.RoundTrip 1 .backup ∧
    cursor.RoundTrip 2 (.backup2 (tokens 0)) ∧
    cursor.RoundTrip 3 (.backup3 (tokens 0) (tokens 1)) := by
  intro cursor tokens
  have h : Remembers ((ofStream source).takenBy calls) cursor :=
    (Remembers.ofStream source).after calls
  have hroom := h.pending_le
  obtain ⟨solid, hsolid, hnext⟩ := cursor.nextNonSpace_eq
  obtain ⟨-, hpeek, hbehind⟩ := peekNonSpace_eq hroom hnext
  refine ⟨hroom, fun call abort hrefused ↦ ?_, fun call hdone ↦ h.of_done hdone,
    ⟨solid, hsolid, by rw [hnext], by rw [hnext], hpeek, hbehind⟩, ?_, ?_, ?_⟩
  · obtain ⟨hpending, hstream⟩ := h.of_refused hrefused
    exact ⟨hpending, hstream, token_congr hstream hpending⟩
  · exact roundTrip hroom .backup (List.cons_ne_nil _ _)
      ⟨(fun _ hother ↦ nomatch hother), agrees_nil⟩
  · exact roundTrip hroom (.backup2 (tokens 0)) (List.cons_ne_nil _ _)
      (agrees_two.2 ⟨Nat.le_refl 2, rfl⟩)
  · exact roundTrip hroom (.backup3 (tokens 0) (tokens 1)) (List.cons_ne_nil _ _)
      (agrees_three.2 ⟨Nat.le_refl 3, rfl, rfl⟩)

/-- A refused pushback can cost tokens. This one forgets the last two of three words, because the
second one is not what it expects, and going back after it leads in front of the first. -/
example :
    let word (text : String) (offset : Nat) : Token := ⟨.bare, text, offset, false⟩
    let start : Cursor := .ofStream ⟨[word "a" 0, word "b" 1, word "c" 2], 3⟩
    let behind := start.after [.next, .next, .next, .backup2 (word "c" 2), .backup]
    behind.pending = [word "a" 0] ∧ behind.stream = ⟨[], 3⟩ := by
  decide

end Cursor

end PipelineSyntax
