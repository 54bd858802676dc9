import PipelineSyntax.Proofs.DescentAgrees
import PipelineSyntax.Proofs.Layouts

/-!
# Only kinds and texts steer

What is read from a source is what is read from its tokens numbered, laid out: their kinds and
texts are kept, their offsets are their indices, and all of them may continue
(`readFrom_eq_map_numbered`). Sources whose tokens agree in kind and text are numbered alike.
So they are read alike, up to where the tokens begin and which of them may continue.

Numbers that are laid out nowhere else are numbers of tokens that have been taken: a layout that
moves all others leaves the row as it is, and so what is made of it.
-/

namespace PipelineSyntax

open TokenSource (token between)

/-- The token with a number for its offset, taken to continue. -/
def Token.numbered (token : Token) (number : Nat) : Token :=
  ⟨token.kind, token.text, number, true⟩

/-- Tokens that are numbered in their order. -/
def numbered (tokens : Nat → Token) (index : Nat) : Token :=
  (tokens index).numbered index

/-- Where the tokens of a source begin, and which of them may continue. -/
def Layout.ofTokens (tokens : Nat → Token) : Layout where
  offset index := (tokens index).offset
  mayContinue index := (tokens index).mayContinue

theorem between_numbered (tokens : Nat → Token) (start stop : Nat) :
    (between (numbered tokens) start stop).map (Token.onto (.ofTokens tokens)) =
      between tokens start stop := by
  rw [between, between, List.map_map]
  rfl

/-- The positions of a tree and that of its hint. -/
def Parsed.positions (parsed : Parsed) : List Nat :=
  parsed.root.positions ++ (parsed.hint.map Hint.offset).toList

/-- A layout that leaves what has been read as it is leaves each of its positions where it is. -/
theorem Parsed.offset_eq_of_onto_eq {layout : Layout} {parsed : Parsed}
    (h : parsed.onto layout = parsed) : ∀ pos ∈ parsed.positions, layout.offset pos = pos := by
  intro pos hmem
  rcases List.mem_append.1 hmem with hroot | hhint
  · have hpositions := parsed.root.positions_relocate layout.offset
    rw [show parsed.root.relocate layout.offset = parsed.root from congrArg Parsed.root h]
      at hpositions
    exact List.map_eq_map_iff.1 (hpositions.symm.trans (List.map_id _).symm) pos hroot
  · obtain ⟨root, _ | hint⟩ := parsed
    · cases hhint
    · obtain rfl := List.mem_singleton.1 hhint
      have hsame : Hint.onto layout hint = some hint := congrArg Parsed.hint h
      rw [Hint.onto] at hsame
      split at hsame
      · exact congrArg Hint.offset (Option.some.inj hsame)
      · cases hsame

namespace Parser

variable {limit count : Nat} {state last next : State} {tokens : Nat → Token}
  {row front back : List Token} {outcome : Except Abort Parsed}

/-! ### Runs -/

theorem Reads.cons_iff {token : Token} : Reads limit state (token :: row) outcome ↔
    match state.step limit token with
    | .error abort => row = [] ∧ outcome = .error abort
    | .ok (.done parsed) => row = [] ∧ outcome = .ok parsed
    | .ok (.more next) => Reads limit next row outcome := by
  constructor
  · intro h
    cases h with
    | accept step | reject step =>
      rw [step]
      exact ⟨rfl, rfl⟩
    | more step rest => rwa [step]
  · intro h
    cases hstep : state.step limit token with
    | error abort =>
      rw [hstep] at h
      obtain ⟨rfl, rfl⟩ := h
      exact .reject hstep
    | ok progress =>
      rw [hstep] at h
      cases progress with
      | more next => exact .more hstep h
      | done parsed =>
        obtain ⟨rfl, rfl⟩ := h
        exact .accept hstep

/-- A run through a row is a run through its front, and from there one through its back. -/
theorem Steps.split (h : Steps limit state (front ++ back) last) :
    ∃ next, Steps limit state front next ∧ Steps limit next back last := by
  induction front generalizing state with
  | nil => exact ⟨state, .nil state, h⟩
  | cons token front ih =>
    obtain _ | ⟨step, rest⟩ := h
    obtain ⟨next, hfront, hback⟩ := ih rest
    exact ⟨next, .cons step hfront, hback⟩

/-- No token decides in front of the last ones, so there are steps through the others. -/
theorem Reads.split (h : Reads limit state (front ++ back) outcome) (hback : back ≠ []) :
    ∃ next, Steps limit state front next ∧ Reads limit next back outcome := by
  induction front generalizing state with
  | nil => exact ⟨state, .nil state, h⟩
  | cons token front ih =>
    have hne : front ++ back ≠ [] := List.append_ne_nil_of_right_ne_nil front hback
    rw [List.cons_append, Reads.cons_iff] at h
    rcases hstep : state.step limit token with abort | next | parsed
    · rw [hstep] at h
      exact absurd h.1 hne
    · rw [hstep] at h
      obtain ⟨last, hfront, hlast⟩ := ih h
      exact ⟨last, .cons hstep hfront, hlast⟩
    · rw [hstep] at h
      exact absurd h.1 hne

/-- Behind steps that are taken first, the rest of the row decides. -/
theorem Reads.behind (h : Reads limit state (front ++ back) outcome)
    (hsteps : Steps limit state front next) : Reads limit next back outcome := by
  induction hsteps with
  | nil => exact h
  | cons step _ ih =>
    have hrest := Reads.cons_iff.1 h
    rw [step] at hrest
    exact ih hrest

/-- What is read from a row that is laid out is what is read from the row, laid out. -/
theorem reads_onto_iff (layout : Layout) {front : List Token} (hstate : state.Holds limit front)
    (hrow : ∀ token ∈ row, token.mayContinue = true) :
    Reads limit (state.onto layout) (row.map (Token.onto layout)) outcome ↔
      ∃ result, Reads limit state row result ∧
        outcome = layout.outcome (Parsed.onto layout) result := by
  induction row generalizing state front with
  | nil => exact iff_of_false (fun h ↦ h.ne_nil rfl) fun ⟨_, h, _⟩ ↦ h.ne_nil rfl
  | cons token row ih =>
    obtain ⟨htoken, hrow⟩ := List.forall_mem_cons.1 hrow
    have hsound := State.step_sound hstate token
    rw [List.map_cons, Reads.cons_iff, State.step_onto hstate htoken]
    simp only [Reads.cons_iff]
    cases hstep : state.step limit token with
    | error abort => simp [and_assoc]
    | ok progress =>
      cases progress with
      | done parsed => simp [and_assoc, Progress.onto]
      | more next =>
        rw [hstep] at hsound
        exact ih hsound hrow

/-! ### Readings -/

theorem mayContinue_of_mem_numbered (tokens : Nat → Token) (start stop : Nat) :
    ∀ token ∈ between (numbered tokens) start stop, token.mayContinue = true := by
  intro token hmem
  obtain ⟨index, -, rfl⟩ := List.mem_map.1 hmem
  rfl

/-- What is read from a source is what is read from its tokens numbered, laid out. -/
theorem readFrom_eq_map_numbered (limit : Nat) (tokens : Nat → Token) :
    readFrom limit tokens = (readFrom limit (numbered tokens)).map
      (Prod.map ((Layout.ofTokens tokens).outcome (Parsed.onto (.ofTokens tokens))) id) := by
  ext ⟨outcome, count⟩
  have hreads := @reads_onto_iff limit _ _ outcome (.ofTokens tokens) [] (holds_start limit 0)
    (mayContinue_of_mem_numbered tokens 0 count)
  rw [between_numbered] at hreads
  rw [readFrom_eq_some_iff, Option.map_eq_some_iff, Prod.exists]
  refine hreads.trans (exists_congr fun result ↦ ⟨fun ⟨h, heq⟩ ↦ ?_, ?_⟩)
  · exact ⟨count, readFrom_eq_some_iff.2 h, by rw [heq]; rfl⟩
  · rintro ⟨count, h, heq⟩
    cases heq
    exact ⟨readFrom_eq_some_iff.1 h, rfl⟩

/-- The numbers in what is read are those of tokens that have been taken. -/
theorem lt_of_mem_positions {parsed : Parsed}
    (h : readFrom limit (numbered tokens) = some (.ok parsed, count)) :
    ∀ pos ∈ parsed.positions, pos < count := by
  let layout : Layout := ⟨fun index ↦ if index < count then index else index + 1, fun _ ↦ true⟩
  obtain ⟨hcount, hreads⟩ : 0 < count ∧
      Reads limit (.start 0) (between (numbered tokens) 0 count) (.ok parsed) :=
    State.reads_of_readOn h
  -- the layout leaves the row as it is
  have hrow : (between (numbered tokens) 0 count).map (Token.onto layout) =
      between (numbered tokens) 0 count := by
    rw [between, List.map_map]
    refine List.map_congr_left fun index hmem ↦ ?_
    have hlt : index < count := by simpa using List.mem_range'_1.1 hmem
    have hoffset : layout.offset index = index := if_pos hlt
    show Token.mk _ _ (layout.offset index) true = _
    rw [hoffset]
    rfl
  have hzero : (State.start 0).onto layout = .start 0 := by
    have hoffset : layout.offset 0 = 0 := if_pos hcount
    show State.start (layout.offset 0) = _
    rw [hoffset]
  have hmoved := (reads_onto_iff layout (holds_start limit 0)
    (mayContinue_of_mem_numbered tokens 0 count)).2 ⟨_, hreads, rfl⟩
  rw [hrow, hzero] at hmoved
  have hsame : parsed.onto layout = parsed :=
    Except.ok.inj (hreads.unique hmoved (List.prefix_refl _)).2
  intro pos hmem
  have hfixed := Parsed.offset_eq_of_onto_eq hsame pos hmem
  by_contra hge
  rw [show layout.offset pos = pos + 1 from if_neg hge] at hfixed
  omega

/-- What is decided against a line is decided at its last token. -/
theorem offset_of_readFrom_error {abort : Abort}
    (h : readFrom limit (numbered tokens) = some (.error abort, count)) :
    count = abort.offset + 1 := by
  obtain ⟨last, hcount, hoffset, -⟩ := exists_last_of_readFrom_error h
  rw [hcount, hoffset]
  rfl

/-- Reading by descent comes to what the machine comes to. -/
theorem exists_descend_eq (limit : Nat) (stream : TokenStream) :
    ∃ desk, descend limit stream = some ((readLine limit stream).1, desk) := by
  obtain ⟨outcome, desk, hrun, houtcome⟩ := line_returns limit stream
  have hdecided : Decided limit stream desk outcome := by
    cases outcome with
    | ok parsed => exact houtcome
    | error abort => exact houtcome
  obtain ⟨-, count, hreads, -⟩ := hdecided
  rw [readLine_eq_of_reads hreads]
  exact ⟨desk, hrun⟩

/-- **Only kinds and texts steer.** Sources whose tokens agree in kind and text are read alike,
wherever the tokens begin and whichever of them may continue: either neither is ever decided, or
as many tokens are taken from both. Then there is one tree of numbers, which laid out gives the
trees of both, and its hint theirs; so the trees are the same once erased, and each position is
the offset of a token that is the same in both. Or both fail at the same token for the same
cause. All this goes for any source, and so for a stream, whether it is read by the machine or
by descent. -/
theorem only_kinds_and_texts_steer (limit : Nat) (tokens other : Nat → Token)
    (halike : ∀ index, (other index).kind = (tokens index).kind ∧
      (other index).text = (tokens index).text) :
    ((readFrom limit tokens = none ∧ readFrom limit other = none) ∨
      (∃ (parsed : Parsed) (count : Nat), (∀ pos ∈ parsed.positions, pos < count) ∧
        readFrom limit tokens = some (.ok (parsed.onto (.ofTokens tokens)), count) ∧
        readFrom limit other = some (.ok (parsed.onto (.ofTokens other)), count) ∧
        (parsed.onto (.ofTokens other)).root.erase =
          (parsed.onto (.ofTokens tokens)).root.erase) ∨
      (∃ cause index,
        readFrom limit tokens = some (.error ⟨(tokens index).offset, cause⟩, index + 1) ∧
        readFrom limit other = some (.error ⟨(other index).offset, cause⟩, index + 1))) ∧
    ∀ stream, readFrom limit (token stream) =
        some ((readLine limit stream).1, (pulled limit stream).length) ∧
      ∃ desk, descend limit stream = some ((readLine limit stream).1, desk) := by
  have hnumbered : numbered other = numbered tokens := by
    funext index
    rw [numbered, numbered, Token.numbered, Token.numbered, (halike index).1, (halike index).2]
  refine ⟨?_, fun stream ↦ ⟨readFrom_token limit stream, exists_descend_eq limit stream⟩⟩
  have htokens := readFrom_eq_map_numbered limit tokens
  have hother := readFrom_eq_map_numbered limit other
  rw [hnumbered] at hother
  rcases hread : readFrom limit (numbered tokens) with _ | ⟨abort | parsed, count⟩
  · rw [hread] at htokens hother
    exact .inl ⟨htokens, hother⟩
  · obtain rfl := offset_of_readFrom_error hread
    rw [hread] at htokens hother
    exact .inr (.inr ⟨abort.cause, abort.offset, htokens, hother⟩)
  · rw [hread] at htokens hother
    refine .inr (.inl ⟨parsed, count, lt_of_mem_positions hread, htokens, hother, ?_⟩)
    exact (parsed.root.erase_relocate _).trans (parsed.root.erase_relocate _).symm

/-- A word in a group, where the tokens begin at the given offsets. -/
def wordInGroup (left word right : Nat) (mayContinue : Bool) : TokenStream where
  tokens := [⟨.leftParen, "(", left, false⟩, ⟨.bare, "a", word, mayContinue⟩,
    ⟨.rightParen, ")", right, false⟩]
  endOffset := right

/-- Offsets may stand still or go back, and a flag makes a hint of a word, but the tree stays. -/
theorem only_kinds_and_texts_steer_wordInGroup :
    let tokens := token (wordInGroup 0 1 2 false)
    let other := token (wordInGroup 7 3 3 true)
    (∀ index, (other index).kind = (tokens index).kind ∧ (other index).text = (tokens index).text) ∧
      ∃ parsed : Parsed, readFrom 1 tokens = some (.ok (parsed.onto (.ofTokens tokens)), 4) ∧
        readFrom 1 other = some (.ok (parsed.onto (.ofTokens other)), 4) := by
  intro tokens other
  have halike : ∀ index, (other index).kind = (tokens index).kind ∧
      (other index).text = (tokens index).text := by
    intro index
    rcases index with _ | _ | _ | index
    · exact ⟨rfl, rfl⟩
    · exact ⟨rfl, rfl⟩
    · exact ⟨rfl, rfl⟩
    · have hle : 3 ≤ index + 3 := Nat.le_add_left 3 index
      obtain ⟨offset, htokens⟩ := @TokenStream.token_of_length_le (wordInGroup 0 1 2 false) _ hle
      obtain ⟨offset', hother⟩ := @TokenStream.token_of_length_le (wordInGroup 7 3 3 true) _ hle
      rw [show tokens (index + 3) = _ from htokens, show other (index + 3) = _ from hother]
      exact ⟨rfl, rfl⟩
  obtain ⟨hsteer, hstream⟩ := only_kinds_and_texts_steer 1 tokens other halike
  have hread := (hstream (wordInGroup 0 1 2 false)).1
  refine ⟨halike, ?_⟩
  rcases hsteer with ⟨hnone, -⟩ | ⟨parsed, count, -, htokens, hother, -⟩ | ⟨cause, index, herror, -⟩
  · cases hnone.symm.trans hread
  · obtain rfl : 4 = count := congrArg Prod.snd (Option.some.inj (hread.symm.trans htokens))
    exact ⟨parsed, htokens, hother⟩
  · cases congrArg Prod.fst (Option.some.inj (hread.symm.trans herror))

end Parser

end PipelineSyntax
