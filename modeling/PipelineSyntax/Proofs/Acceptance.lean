import PipelineSyntax.Proofs.Lines
import PipelineSyntax.Proofs.Soundness

/-!
# The reader accepts exactly the grammar

Completeness and soundness put together. A line is read if and only if the grammar derives it
with no more brackets inside each other than the limit allows, and it is read as what is
derived. Because reading is deterministic, nothing is derived in two ways: not even a
derivation that needs more depth could give a line another tree.
-/

open PipelineSyntax.Parser

namespace PipelineSyntax

namespace Grammar

/-- A line is read as what the grammar derives within the limit. -/
theorem readLine_ok_iff (limit : Nat) (stream : TokenStream) (root : Sequence Node) :
    (∃ hint, (readLine limit stream).1 = .ok ⟨root, hint⟩) ↔ Line limit stream.line root := by
  constructor
  · rintro ⟨hint, hparsed⟩
    exact (readLine_ok_iff_reads.1 hparsed).derives
  · intro hline
    obtain ⟨hint, hreads⟩ := hline.reads (Nat.le_refl limit)
    exact ⟨hint, readLine_ok_iff_reads.2 hreads⟩

namespace Line

variable {depth depth' : Nat} {tokens : List Token} {root root' : Sequence Node}

/-- More depth does no harm. -/
theorem mono (h : Line depth tokens root) (hle : depth ≤ depth') : Line depth' tokens root := by
  obtain ⟨hint, hreads⟩ := h.reads hle
  exact hreads.derives

/-- The grammar is unambiguous, whatever the depths of two derivations. -/
theorem unique (h : Line depth tokens root) (h' : Line depth' tokens root') : root = root' := by
  obtain ⟨hint, hreads⟩ := h.reads (Nat.le_max_left depth depth')
  obtain ⟨hint', hreads'⟩ := h'.reads (Nat.le_max_right depth depth')
  obtain ⟨-, hparsed⟩ := hreads'.unique hreads (List.prefix_refl _)
  cases hparsed
  rfl

end Line

/-! ### The theorem -/

/-- **The reader accepts exactly the grammar.** It reads a line as a tree if and only if the
tokens of the line, up to and including the first one that ends it, derive that tree with
groups and tables nested at most as deep as the limit. No row of tokens derives two trees. -/
theorem accepts_exactly_the_grammar (limit : Nat) (stream : TokenStream) :
    (∀ root, (∃ hint, (readLine limit stream).1 = .ok ⟨root, hint⟩) ↔
      Line limit stream.line root) ∧
    ∀ tokens depth depth' root root',
      Line depth tokens root → Line depth' tokens root' → root = root' :=
  ⟨readLine_ok_iff limit stream, fun _ _ _ _ _ ↦ Line.unique⟩

/-- A group of one word. -/
def groupOfWord : TokenStream where
  tokens := [⟨.leftParen, "(", 0, false⟩, ⟨.bare, "a", 1, false⟩, ⟨.rightParen, ")", 2, false⟩]
  endOffset := 3

/-- What a group of one word is read as. -/
def groupOfWordTree : Sequence Node :=
  let word : Node := .list ⟨1, .term, [.factor 1 0 .start (.string 1 "a" "a")]⟩
  let group : Node := .list ⟨0, .term, [.factor 0 0 .start (.list ⟨1, .termList, [word]⟩)]⟩
  ⟨0, .pipeline, [.command 0 ⟨0, .termList, [group]⟩ []]⟩

theorem accepts_exactly_the_grammar_groupOfWord :
    Line 1 groupOfWord.line groupOfWordTree ∧
      ∀ depth root, Line depth groupOfWord.line root → root = groupOfWordTree := by
  obtain ⟨hiff, hunique⟩ := accepts_exactly_the_grammar 1 groupOfWord
  have hline : Line 1 groupOfWord.line groupOfWordTree := (hiff _).1 ⟨none, rfl⟩
  exact ⟨hline, fun depth root hroot ↦ hunique _ _ _ _ _ hroot hline⟩

/-- The limit counts: a group is derived, and still is not read where no bracket may be. -/
theorem derivable_but_too_deep :
    (∃ depth root, Line depth groupOfWord.line root) ∧
      ∀ parsed, (readLine 0 groupOfWord).1 ≠ .ok parsed := by
  have hline : Line 1 groupOfWord.line groupOfWordTree :=
    (readLine_ok_iff 1 groupOfWord groupOfWordTree).1 ⟨none, rfl⟩
  exact ⟨⟨1, groupOfWordTree, hline⟩, nofun⟩

end Grammar

end PipelineSyntax
