import PipelineSyntax.Parser.Source
import PipelineSyntax.Proofs.Reading

/-!
# Reading from any source, told by rows

Reading from a source takes a row of tokens that decides the outcome, and whatever row of the
tokens that come first decides an outcome, is what is taken (`readFrom_eq_some_iff`). So the
tokens behind that row do not matter (`readFrom_congr`), and none of those in front of its last
one ends the line. A stream is one such source, from which a line can always be read
(`readFrom_token`).
-/

namespace PipelineSyntax

open TokenSource (token between between_of_lt between_succ length_between between_congr
  of_between_eq_concat)

/-! ### The first tokens of a stream -/

namespace TokenStream

/-- One more token is taken behind the others. -/
theorem take_succ_fst (count : Nat) (stream : TokenStream) :
    (stream.take (count + 1)).1 = (stream.take count).1 ++ [token stream count] := by
  induction count generalizing stream with
  | zero => rfl
  | succ count ih => exact congrArg (stream.pull.1 :: ·) (ih stream.pull.2)

theorem take_fst (count : Nat) (stream : TokenStream) :
    (stream.take count).1 = between (token stream) 0 count := by
  induction count with
  | zero => rfl
  | succ count ih => rw [take_succ_fst, ih, between_succ (Nat.zero_le count)]

end TokenStream

namespace Parser

variable {limit : Nat} {tokens : Nat → Token} {state : State} {start stop count : Nat}
  {outcome : Except Abort Parsed} {parsed : Parsed} {abort : Abort}

/-! ### Reading as deciding -/

/-- What is read on has been decided by the tokens that were taken. -/
theorem State.reads_of_readOn (h : state.readOn limit tokens start = some (outcome, stop)) :
    start < stop ∧ Reads limit state (between tokens start stop) outcome := by
  refine State.readOn.partial_correctness limit tokens
    (fun state start result ↦
      start < result.2 ∧ Reads limit state (between tokens start result.2) result.1)
    (fun readOn ih state start result h ↦ ?_) state start (outcome, stop) h
  -- a single token decides
  have hlast : between tokens start (start + 1) = [tokens start] := by simp [between]
  split at h
  case h_1 hstep =>
    obtain rfl := Option.some.inj h
    exact ⟨Nat.lt_succ_self start, hlast ▸ .reject hstep⟩
  case h_2 hstep =>
    obtain rfl := Option.some.inj h
    exact ⟨Nat.lt_succ_self start, hlast ▸ .accept hstep⟩
  case h_3 next hstep =>
    obtain ⟨hlt, hreads⟩ := ih next (start + 1) result h
    have hlt' := Nat.lt_of_succ_lt hlt
    exact ⟨hlt', between_of_lt hlt' ▸ .more hstep hreads⟩

/-- What the next tokens decide is read on. -/
theorem Reads.readOn {row : List Token} (h : Reads limit state row outcome)
    (hrow : between tokens start (start + row.length) = row) :
    state.readOn limit tokens start = some (outcome, start + row.length) := by
  induction h generalizing start with
  | accept hstep | reject hstep =>
    rw [between_of_lt (by simp)] at hrow
    rw [State.readOn, (List.cons.inj hrow).1, hstep]
    rfl
  | @more _ _ _ row _ hstep _ ih =>
    have hstop : start + (row.length + 1) = start + 1 + row.length := by omega
    rw [List.length_cons, hstop] at hrow ⊢
    rw [between_of_lt (by omega)] at hrow
    obtain ⟨htoken, hrest⟩ := List.cons.inj hrow
    rw [State.readOn, htoken, hstep]
    exact ih hrest

/-- A line is read as the first tokens decide. -/
theorem readFrom_eq_some_iff : readFrom limit tokens = some (outcome, count) ↔
    Reads limit (.start (tokens 0).offset) (between tokens 0 count) outcome := by
  refine ⟨fun h ↦ (State.reads_of_readOn h).2, fun h ↦ ?_⟩
  have hcount : 0 + (between tokens 0 count).length = count := by simp [length_between]
  have hread := h.readOn (congrArg (between tokens 0) hcount)
  rwa [hcount] at hread

/-! ### What is taken -/

/-- A source that begins with the tokens that have been taken from another one is read as that
one is. -/
theorem readFrom_congr {other : Nat → Token} (h : readFrom limit tokens = some (outcome, count))
    (hother : ∀ index < count, other index = tokens index) :
    readFrom limit other = some (outcome, count) := by
  obtain ⟨hcount, hreads⟩ := State.reads_of_readOn h
  rw [readFrom_eq_some_iff, hother 0 hcount, between_congr fun index _ ↦ hother index]
  exact hreads

/-- A reading that succeeds takes the tokens up to the first one that ends a line. -/
theorem exists_last_of_readFrom_ok (h : readFrom limit tokens = some (.ok parsed, count)) :
    ∃ last, count = last + 1 ∧ (tokens last).kind.endsLine = true ∧
      ∀ index < last, (tokens index).kind.endsLine = false := by
  obtain ⟨front, token, hrow, hopen, hends⟩ := (readFrom_eq_some_iff.1 h).exists_last_of_ok
  obtain ⟨hcount, rfl, hfront⟩ := of_between_eq_concat hrow
  exact ⟨front.length, hcount, hends, fun index hlt ↦ hopen _ (hfront index hlt)⟩

/-- A reading that fails takes no token behind one that ends a line, and fails at the last one
that it takes. -/
theorem exists_last_of_readFrom_error (h : readFrom limit tokens = some (.error abort, count)) :
    ∃ last, count = last + 1 ∧ abort.offset = (tokens last).offset ∧
      ∀ index < last, (tokens index).kind.endsLine = false := by
  obtain ⟨front, token, hrow, hopen, hoffset⟩ :=
    (readFrom_eq_some_iff.1 h).exists_last_of_error
  obtain ⟨hcount, rfl, hfront⟩ := of_between_eq_concat hrow
  exact ⟨front.length, hcount, hoffset, fun index hlt ↦ hopen _ (hfront index hlt)⟩

/-- From a stream, a line is always read, and as it is read from its cursor. -/
theorem readFrom_token (limit : Nat) (stream : TokenStream) :
    readFrom limit (token stream) =
      some ((readLine limit stream).1, (pulled limit stream).length) := by
  have hreads := reads_pulled limit stream
  have htake := take_length_pulled limit stream
  have horigin : origin (pulled limit stream) = stream.pull.1.offset := by
    rw [← htake, TokenStream.origin_take (mt List.length_eq_zero_iff.1 hreads.ne_nil)]
  rw [horigin, ← htake, TokenStream.take_fst] at hreads
  exact readFrom_eq_some_iff.2 hreads

end Parser

end PipelineSyntax
