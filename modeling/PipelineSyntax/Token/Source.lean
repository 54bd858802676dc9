import PipelineSyntax.Token.Stream

/-!
# Token sources

Whatever hands out tokens one by one and never runs dry. A source may be a lexer that works on
demand; the one source of this library is the stream, whose tokens are known beforehand.

A reader that skips blanks comes to an end only if the blanks do. So a source says how many of
them can come next at most, which is its *patience*; every blank that it gives uses some of it
up.
-/

namespace PipelineSyntax

/-- Something that hands out tokens one by one. -/
class TokenSource (σ : Type) where
  /-- Gives the next token and the source behind it. -/
  pull : σ → Token × σ
  /-- How many blanks can come next at most. -/
  patience : σ → Nat
  /-- A blank uses up some of the patience. -/
  patience_pull : ∀ source, (pull source).1.kind = .space →
    patience (pull source).2 < patience source

namespace TokenSource

variable {σ : Type} [TokenSource σ]

/-- The source behind the given number of tokens. -/
def drop : Nat → σ → σ
  | 0, source => source
  | count + 1, source => drop count (pull source).2

/-- The token at an index of all those that a source gives. -/
def token (source : σ) (index : Nat) : Token :=
  (pull (drop index source)).1

theorem drop_succ (count : Nat) (source : σ) :
    drop (count + 1) source = (pull (drop count source)).2 := by
  induction count generalizing source with
  | zero => rfl
  | succ count ih => exact ih _

/-! ### Rows of tokens -/

/-- The tokens from one index to another one, which is left out. -/
def between (tokens : Nat → Token) (start stop : Nat) : List Token :=
  (List.range' start (stop - start)).map tokens

section Between

variable {tokens : Nat → Token} {start stop : Nat}

theorem between_self : between tokens start start = [] := by
  simp [between]

theorem between_of_lt (h : start < stop) :
    between tokens start stop = tokens start :: between tokens (start + 1) stop := by
  obtain ⟨count, hcount⟩ := Nat.exists_eq_succ_of_ne_zero (Nat.sub_ne_zero_of_lt h)
  have hrest : stop - (start + 1) = count := by omega
  simp [between, hcount, hrest, List.range'_succ]

/-- One more token stands behind the others. -/
theorem between_succ (h : start ≤ stop) :
    between tokens start (stop + 1) = between tokens start stop ++ [tokens stop] := by
  obtain ⟨count, rfl⟩ := Nat.exists_eq_add_of_le h
  have hcount : start + count + 1 - start = count + 1 := by omega
  simp [between, hcount, List.range'_1_concat]

theorem length_between : (between tokens start stop).length = stop - start := by
  simp [between]

theorem mem_between {index : Nat} (hle : start ≤ index) (hlt : index < stop) :
    tokens index ∈ between tokens start stop :=
  List.mem_map.2 ⟨index, List.mem_range'_1.2 ⟨hle, by omega⟩, rfl⟩

/-- Sources that agree between two indices have the same tokens there. -/
theorem between_congr {other : Nat → Token}
    (h : ∀ index, start ≤ index → index < stop → other index = tokens index) :
    between other start stop = between tokens start stop := by
  refine List.map_congr_left fun index hmem ↦ ?_
  obtain ⟨hle, hlt⟩ := List.mem_range'_1.1 hmem
  exact h index hle (by omega)

/-- The first tokens, with the last of them set apart. -/
theorem of_between_eq_concat {front : List Token} {last : Token}
    (h : between tokens 0 stop = front ++ [last]) :
    stop = front.length + 1 ∧ tokens front.length = last ∧
      ∀ index < front.length, tokens index ∈ front := by
  obtain rfl : stop = front.length + 1 := by
    simpa [length_between] using congrArg List.length h
  rw [between_succ (Nat.zero_le _)] at h
  obtain ⟨hfront, hlast⟩ := List.append_inj' h rfl
  refine ⟨rfl, (List.cons.inj hlast).1, fun index hlt ↦ ?_⟩
  have hmem : tokens index ∈ between tokens 0 front.length := mem_between (Nat.zero_le index) hlt
  rwa [hfront] at hmem

/-- The first of the tokens are those up to an index in front. -/
theorem between_of_prefix {front : List Token} (h : front <+: between tokens start stop) :
    between tokens start (start + front.length) = front := by
  refine List.ext_getElem (by simp [length_between]) fun index hlt hlt' ↦ ?_
  rw [h.getElem hlt']
  simp [between]

end Between

end TokenSource

/-- No more blanks than tokens can come from a stream, because the end of the input is none. -/
instance : TokenSource TokenStream where
  pull := TokenStream.pull
  patience stream := stream.tokens.length
  patience_pull stream hkind := by
    rcases stream with ⟨_ | ⟨token, rest⟩, offset⟩
    · cases hkind
    · exact Nat.lt_succ_self _

end PipelineSyntax
