import PipelineSyntax.Proofs.Steering
import PipelineSyntax.Proofs.Strings

/-!
# Rows whose tokens are numbered

A tree tells where its nodes begin, and several tokens may begin at one place. In a row whose
tokens are numbered, the place of a string is the number of its token (`Hint.SpelledIn`), and
what is read from the row is what is read from the numbered one, laid out (`reads_iff_numbered`).

The strings that a row adds to a state are those of its own tokens, and the last of them leaves
the hint (`Steps.exists_adds`). So strings that are told by numbers are told apart: what is read
behind a token is no string of that token.
-/

namespace PipelineSyntax

/-- The tokens of a row, numbered in their order from the given number on. -/
def numberFrom (start : Nat) (row : List Token) : List Token :=
  (row.zipIdx start).map fun entry ↦ entry.1.numbered entry.2

/-- Where the tokens of a row begin, and which of them may continue. -/
def Layout.ofRow (row : List Token) : Layout where
  offset index := (row[index]?.map Token.offset).getD 0
  mayContinue index := (row[index]?.map Token.mayContinue).getD false

section Rows

variable {start : Nat} {row : List Token}

theorem numberFrom_cons (token : Token) (row : List Token) :
    numberFrom start (token :: row) = token.numbered start :: numberFrom (start + 1) row :=
  rfl

theorem numberFrom_append (front back : List Token) :
    numberFrom start (front ++ back) =
      numberFrom start front ++ numberFrom (start + front.length) back := by
  simp [numberFrom, List.zipIdx_append]

theorem length_numberFrom (start : Nat) (row : List Token) :
    (numberFrom start row).length = row.length := by
  simp [numberFrom]

theorem numberFrom_numberFrom (start : Nat) (row : List Token) :
    numberFrom start (numberFrom start row) = numberFrom start row := by
  induction row generalizing start with
  | nil => rfl
  | cons token row ih =>
    rw [numberFrom_cons, numberFrom_cons, ih]
    rfl

theorem origin_numberFrom (row : List Token) : origin (numberFrom 0 row) = 0 := by
  cases row <;> rfl

theorem mayContinue_of_mem_numberFrom :
    ∀ token ∈ numberFrom start row, token.mayContinue = true := by
  intro token hmem
  obtain ⟨entry, -, rfl⟩ := List.mem_map.1 hmem
  rfl

/-- Laying out a numbered row as it was gives the row. -/
theorem map_onto_numberFrom (row : List Token) :
    (numberFrom 0 row).map (Token.onto (.ofRow row)) = row := by
  refine List.ext_getElem (by simp [length_numberFrom]) fun index hlt hlt' ↦ ?_
  simp [numberFrom, Token.onto, Token.numbered, Layout.ofRow, hlt']

/-- The token, taken not to continue. -/
def Token.unflagged (token : Token) : Token :=
  { token with mayContinue := false }

theorem numberFrom_map_unflagged (row : List Token) :
    numberFrom start (row.map Token.unflagged) = numberFrom start row := by
  simp [numberFrom, List.zipIdx_map, Token.numbered, Token.unflagged]

theorem Layout.offset_ofRow_map_unflagged (row : List Token) :
    (ofRow (row.map Token.unflagged)).offset = (ofRow row).offset := by
  funext index
  simp only [ofRow, List.getElem?_map, Option.map_map]
  rfl

/-- In a row that is numbered from `start` on, the string is spelled by the literal of its
number. -/
def Hint.SpelledIn (start : Nat) (row : List Token) (hint : Hint) : Prop :=
  ∃ index token, hint.offset = start + index ∧ row[index]? = some token ∧
    token.kind.isLiteral = true ∧ token.text = hint.raw ∧ token.decode = .ok hint.text

theorem Hint.SpelledIn.cons {hint : Hint} (h : hint.SpelledIn (start + 1) row) (token : Token) :
    hint.SpelledIn start (token :: row) := by
  obtain ⟨index, own, hoffset, htoken, htext⟩ := h
  exact ⟨index + 1, own, by rw [hoffset]; omega, htoken, htext⟩

end Rows

namespace Parser

variable {limit start : Nat} {state last : State} {row tokens : List Token}
  {outcome : Except Abort Parsed} {parsed : Parsed}

/-! ### Numbered runs -/

/-- What is read from a row is what is read from it once it is numbered, laid out. -/
theorem reads_iff_numbered : Reads limit (.start (origin row)) row outcome ↔
    ∃ result, Reads limit (.start 0) (numberFrom 0 row) result ∧
      outcome = (Layout.ofRow row).outcome (Parsed.onto (.ofRow row)) result := by
  have hreads := @reads_onto_iff limit _ _ outcome (.ofRow row) [] (holds_start limit 0)
    (@mayContinue_of_mem_numberFrom 0 row)
  have horigin : (State.start 0).onto (.ofRow row) = .start (origin row) := by
    cases row <;> rfl
  rwa [map_onto_numberFrom, horigin] at hreads

/-! ### The strings of a numbered run -/

/-- What a row adds to strings that are held, and to the hint: strings that its own tokens
spell, the last of which leaves the hint. -/
structure Adds (start : Nat) (row : List Token) (added strings strings' : Multiset Hint)
    (hint hint' : Option Hint) : Prop where
  /-- They are held with the others. -/
  strings_eq : strings' = strings + added
  /-- They are spelled by tokens of the row. -/
  spelled : ∀ other ∈ added, other.SpelledIn start row
  /-- The hint is that of the last one, if there is one. -/
  latest : (added = 0 ∧ hint' = hint) ∨
    ∃ last ∈ added, hint' = some last ∧ ∀ other ∈ added, other.offset ≤ last.offset

namespace Adds

variable {token : Token} {added strings strings' : Multiset Hint} {hint hint' : Option Hint}

theorem none (row : List Token) : Adds start row 0 strings strings hint hint :=
  ⟨(add_zero _).symm, fun _ hmem ↦ absurd hmem (Multiset.notMem_zero _), .inl ⟨rfl, rfl⟩⟩

/-- No string that is added stands in front of the row. -/
theorem le_offset (h : Adds start row added strings strings' hint hint') {other : Hint}
    (hmem : other ∈ added) : start ≤ other.offset := by
  obtain ⟨index, -, hoffset, -⟩ := h.spelled other hmem
  omega

/-- No string that is added stands behind the row. -/
theorem offset_lt (h : Adds start row added strings strings' hint hint') {other : Hint}
    (hmem : other ∈ added) : other.offset < start + row.length := by
  obtain ⟨index, token, hoffset, htoken, -⟩ := h.spelled other hmem
  have hlt := (List.getElem?_eq_some_iff.1 htoken).1
  omega

/-- A token in front of the row adds its own string, or none. -/
theorem cons (hgained : Gained (token.numbered start) strings hint state)
    (h : Adds (start + 1) row added state.strings strings' state.hint hint') :
    ∃ added', Adds start (token :: row) added' strings strings' hint hint' := by
  have hspelled : ∀ other ∈ added, other.SpelledIn start (token :: row) :=
    fun other hmem ↦ (h.spelled other hmem).cons token
  obtain ⟨hstrings, hhint, -⟩ | ⟨hkind, htext, hstrings, hhint, -⟩ := hgained
  · exact ⟨added, by rw [h.strings_eq, hstrings], hspelled, hhint ▸ h.latest⟩
  · rename_i text term
    let own : Hint := ⟨start, token.text, text⟩
    have hown : state.hint = some own := hhint
    refine ⟨own ::ₘ added, ?_, ?_, .inr ?_⟩
    · rw [h.strings_eq, hstrings, add_assoc, Multiset.singleton_add]
      rfl
    · intro other hmem
      rcases Multiset.mem_cons.1 hmem with rfl | hmem
      · exact ⟨0, token, rfl, rfl, hkind, rfl, htext⟩
      · exact hspelled other hmem
    -- the token's own string is the last one only if the row adds none
    · obtain ⟨rfl, hlatest⟩ | ⟨last, hlast, hlatest, hle⟩ := h.latest
      · refine ⟨own, Multiset.mem_cons_self _ _, hlatest.trans hown, fun other hmem ↦ ?_⟩
        rw [Multiset.mem_singleton.1 hmem]
      · refine ⟨last, Multiset.mem_cons_of_mem hlast, hlatest, fun other hmem ↦ ?_⟩
        rcases Multiset.mem_cons.1 hmem with rfl | hmem
        · exact Nat.le_of_succ_le (h.le_offset hlast)
        · exact hle other hmem

end Adds

/-- What a row of steps adds. -/
theorem Steps.exists_adds (h : Steps limit state (numberFrom start row) last)
    (hstate : state.Holds limit tokens) :
    ∃ added, Adds start row added state.strings last.strings state.hint last.hint := by
  induction row generalizing state start tokens with
  | nil =>
    obtain _ | _ := h
    exact ⟨0, .none []⟩
  | cons token row ih =>
    rw [numberFrom_cons] at h
    obtain _ | ⟨step, rest⟩ := h
    have hsound := State.step_sound hstate (token.numbered start)
    have hgains := State.step_gains hstate (token.numbered start)
    rw [step] at hsound hgains
    obtain ⟨added, hadds⟩ := ih rest hsound
    exact Adds.cons hgains hadds

/-- What a row that completes the line adds. The token that ends the line adds nothing. -/
theorem Reads.exists_adds (h : Reads limit state (numberFrom start row) (.ok parsed))
    (hstate : state.Holds limit tokens) :
    ∃ added, Adds start row added state.strings parsed.root.strings state.hint parsed.hint := by
  induction row generalizing state start tokens with
  | nil => exact absurd rfl h.ne_nil
  | cons token row ih =>
    have hsound := State.step_sound hstate (token.numbered start)
    have hgains := State.step_gains hstate (token.numbered start)
    rw [numberFrom_cons, Reads.cons_iff] at h
    rcases hstep : state.step limit (token.numbered start) with abort | next | last
    · rw [hstep] at h
      cases h.2
    · rw [hstep] at h hsound hgains
      obtain ⟨added, hadds⟩ := ih h hsound
      exact Adds.cons hgains hadds
    · rw [hstep] at h hgains
      obtain rfl := Except.ok.inj h.2
      obtain ⟨hstrings, hhint⟩ := hgains
      rw [hstrings, hhint]
      exact ⟨0, .none _⟩

/-- In front of a line, no string is held. -/
theorem strings_start (pos : Nat) : (State.start pos).strings = 0 := by
  rfl

/-- The strings of the tree of a numbered row are spelled by the literals of their numbers. -/
theorem Reads.spelledIn (h : Reads limit (.start 0) (numberFrom 0 row) (.ok parsed)) {hint : Hint}
    (hmem : hint ∈ parsed.root.strings) : hint.SpelledIn 0 row := by
  obtain ⟨added, hadds⟩ := h.exists_adds (holds_start limit 0)
  rw [hadds.strings_eq, strings_start, zero_add] at hmem
  exact hadds.spelled hint hmem

/-- A line that is read is the tree of its numbered row, laid out. -/
theorem exists_numbered_of_readLine {stream : TokenStream}
    (h : (readLine limit stream).1 = .ok parsed) :
    ∃ result, Reads limit (.start 0) (numberFrom 0 (pulled limit stream)) (.ok result) ∧
      parsed = result.onto (.ofRow (pulled limit stream)) := by
  have hreads := reads_pulled limit stream
  rw [h] at hreads
  obtain ⟨_ | result, hnumbered, hresult⟩ := reads_iff_numbered.1 hreads
  · cases hresult
  · exact ⟨result, hnumbered, Except.ok.inj hresult⟩

end Parser

end PipelineSyntax
