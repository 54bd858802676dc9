import PipelineSyntax.Proofs.Acceptance
import PipelineSyntax.Proofs.Numbering

/-!
# The hint is that of the last string

A line that is read leaves a hint for whoever completes it. The hint is that of one literal: the
one that stands last in the line among those that are strings of the tree, wherever in the tree
it ended up, be it an argument, a target, or a piece of a group or of a table. That literal alone
says whether there is a hint at all. A literal in front of it has no say; neither has a bare `=`
between the parts of a pair, which is no string of the tree, though it may be the last literal of
the line; and neither has a token that is no literal.

The tree of the numbered row tells which tokens became strings and which of these stands last.
-/

namespace PipelineSyntax

namespace Parser

open Grammar (Line)

/-- The hint that a row leaves, given its tree of numbers and the number of the last string. -/
inductive LeavesHint (row : List Token) (tree : Sequence Node) :
    Option Nat → Option Hint → Prop
  /-- Without a string there is no hint. -/
  | noString (hstring : ∀ node ∈ tree.all, node.isString = false) :
    LeavesHint row tree none none
  /-- The token of the last string leaves its own hint, if it may continue. -/
  | lastString {index : Nat} {token : Token} {text : String} (htoken : row[index]? = some token)
      (hkind : token.kind.isLiteral = true) (hdecode : token.decode = .ok text)
      (hstring : .string index token.text text ∈ tree.all)
      (hlast : ∀ pos raw text, .string pos raw text ∈ tree.all → pos ≤ index) :
    LeavesHint row tree (some index) (hintOf token text)

section Hints

variable {limit : Nat} {row : List Token} {result : Parsed}

/-- The string with the greatest number is the last one. -/
theorem LeavesHint.eq_some {tree : Sequence Node} {last : Option Nat} {hint : Option Hint}
    {pos : Nat} {raw text : String} (h : LeavesHint row tree last hint)
    (hmem : .string pos raw text ∈ tree.all)
    (hle : ∀ pos' raw text, .string pos' raw text ∈ tree.all → pos' ≤ pos) : last = some pos := by
  cases h with
  | noString hstring => cases hstring _ hmem
  | lastString _ _ _ hstring hlast => rw [Nat.le_antisymm (hle _ _ _ hstring) (hlast _ _ _ hmem)]

/-- A literal that is laid out as it was leaves the hint that it leaves there. -/
theorem onto_ofRow_eq_hintOf {token : Token} {hint : Hint} (h : row[hint.offset]? = some token)
    (hraw : token.text = hint.raw) :
    hint.onto (.ofRow row) = hintOf token hint.text := by
  simp [Hint.onto, Layout.ofRow, hintOf, h, hraw]

/-- What is read from a numbered row leaves the hint of its last string. -/
theorem Reads.leavesHint (h : Reads limit (.start 0) (numberFrom 0 row) (.ok result)) :
    LeavesHint row result.root (result.hint.map Hint.offset) (result.onto (.ofRow row)).hint := by
  obtain ⟨added, hadds⟩ := h.exists_adds (holds_start limit 0)
  have hstrings : result.root.strings = added := by
    rw [hadds.strings_eq, strings_start, zero_add]
  have hmem (pos : Nat) (raw text : String) :
      .string pos raw text ∈ result.root.all ↔ ⟨pos, raw, text⟩ ∈ added := by
    rw [← hstrings, Sequence.mem_strings]
  show LeavesHint _ _ _ (result.hint.bind (Hint.onto (.ofRow row)))
  obtain ⟨rfl, hnone⟩ | ⟨last, hlast, hsome, hle⟩ := hadds.latest
  · rw [hnone]
    refine .noString fun node hnode ↦ ?_
    cases node with
    | string pos raw text => exact absurd ((hmem pos raw text).1 hnode) (Multiset.notMem_zero _)
    | list | command | factor | table => rfl
  · obtain ⟨index, token, hoffset, htoken, hkind, hraw, hdecode⟩ := hadds.spelled last hlast
    rw [zero_add] at hoffset
    rw [← hoffset] at htoken
    rw [hsome, Option.bind_some, onto_ofRow_eq_hintOf htoken hraw]
    refine .lastString htoken hkind hdecode (by rw [hraw]; exact (hmem _ _ _).2 hlast) ?_
    exact fun pos raw text hnode ↦ hle _ ((hmem pos raw text).1 hnode)

/-- What is laid out depends on the flags of one token only, that of the hint. -/
theorem onto_congr {layout layout' : Layout} (hoffset : layout'.offset = layout.offset)
    (hflag : ∀ index ∈ result.hint.map Hint.offset,
      layout'.mayContinue index = layout.mayContinue index) :
    result.onto layout' = result.onto layout := by
  obtain ⟨root, _ | hint⟩ := result
  · rw [Parsed.onto, Parsed.onto, hoffset]
    rfl
  · have hhint : hint.onto layout' = hint.onto layout := by
      rw [Hint.onto, Hint.onto, hoffset, hflag hint.offset rfl]
    rw [Parsed.onto, Parsed.onto, hoffset, Option.bind_some, Option.bind_some, hhint]

end Hints

/-- **The hint is that of the last string.** A line that is read has a tree of numbers, which
laid out gives its tree. If that tree has no string, there is no hint. Otherwise the string that
stands last in the line is spelled by the literal of its number, and that literal leaves the hint:
its own offset and text and what it decodes to, if it may continue, and none if it may not. No
other token has a say: a stream that begins with the same tokens, flagged in whatever way but for
that literal, is read as the same. -/
theorem hint_is_of_last_string {limit : Nat} {stream : TokenStream} {parsed : Parsed}
    (h : (readLine limit stream).1 = .ok parsed) :
    let row := pulled limit stream
    ∃ tree last, Line limit (numberFrom 0 row) tree ∧
      parsed.root = tree.relocate (Layout.ofRow row).offset ∧
      LeavesHint row tree last parsed.hint ∧
      ∀ (other : TokenStream) (row' : List Token), (other.take row.length).1 = row' →
        row'.map Token.unflagged = row.map Token.unflagged →
        (∀ index ∈ last, row'[index]?.map Token.mayContinue = row[index]?.map Token.mayContinue) →
        (readLine limit other).1 = .ok parsed := by
  intro row
  have hreads := reads_pulled limit stream
  rw [h] at hreads
  obtain ⟨_ | result, hnumbered, hresult⟩ := reads_iff_numbered.1 hreads
  · cases hresult
  obtain rfl := Except.ok.inj hresult
  have hline : Line limit (numberFrom 0 row) result.root :=
    Reads.derives (by rwa [origin_numberFrom])
  refine ⟨result.root, _, hline, rfl, hnumbered.leavesHint, fun other row' htake hrow hflag ↦ ?_⟩
  -- both rows are numbered alike, and laid out alike but for the flags
  have hnumbered' : numberFrom 0 row' = numberFrom 0 row := by
    rw [← numberFrom_map_unflagged row', hrow, numberFrom_map_unflagged]
  have hoffset : (Layout.ofRow row').offset = (Layout.ofRow row).offset := by
    rw [← Layout.offset_ofRow_map_unflagged row', hrow, Layout.offset_ofRow_map_unflagged]
  have hparsed : result.onto (.ofRow row') = result.onto (.ofRow row) :=
    onto_congr hoffset fun index hmem ↦ congrArg (Option.getD · false) (hflag index hmem)
  have hreads' : Reads limit (.start (origin row')) row' (.ok (result.onto (.ofRow row))) :=
    reads_iff_numbered.2 ⟨.ok result, hnumbered'.symm ▸ hnumbered, by rw [← hparsed]; rfl⟩
  have hlength : row'.length = row.length := by rw [← htake, TokenStream.length_take]
  exact (pulled_eq_of_reads (by rw [hlength, htake]) hreads').2

/-- A table that holds an element and a pair whose value is an empty table, `[a k=[]]`, with
flags for the element, the key and the `=`. -/
def pairInTable (element key equals : Bool) : TokenStream where
  tokens := [⟨.leftBracket, "[", 0, false⟩, ⟨.bare, "a", 1, element⟩, ⟨.space, " ", 2, false⟩,
    ⟨.bare, "k", 3, key⟩, ⟨.bare, "=", 4, equals⟩, ⟨.leftBracket, "[", 5, false⟩,
    ⟨.rightBracket, "]", 6, false⟩, ⟨.rightBracket, "]", 7, false⟩]
  endOffset := 8

/-- What `[a k=[]]` is read as, once its tokens are numbered. -/
def pairInTableTree : Sequence Node :=
  let word (pos : Nat) (text : String) : Node :=
    .list ⟨pos, .term, [.factor pos 0 .start (.string pos text text)]⟩
  let empty : Node := .list ⟨5, .term, [.factor 5 0 .start (.table 6 [] [])]⟩
  let table : Node := .table 1 [word 1 "a"] [(word 3 "k", empty)]
  let term : Node := .list ⟨0, .term, [.factor 0 0 .start table]⟩
  ⟨0, .pipeline, [.command 0 ⟨0, .termList, [term]⟩ []]⟩

/-- The key is the last string, though a flagged `=` is the last literal. -/
theorem hint_is_of_last_string_pairInTable :
    ∃ unflagged flagged : Parsed,
      unflagged.hint = none ∧ (readLine 2 (pairInTable true false true)).1 = .ok unflagged ∧
        (readLine 2 (pairInTable false false false)).1 = .ok unflagged ∧
      flagged.hint = some ⟨3, "k", "k"⟩ ∧
        (readLine 2 (pairInTable false true false)).1 = .ok flagged ∧
        (readLine 2 (pairInTable true true true)).1 = .ok flagged := by
  have hmax (pos : Nat) (raw text : String) (hmem : .string pos raw text ∈ pairInTableTree.all) :
      pos ≤ 3 := by
    simp [pairInTableTree, Sequence.all, allOfNodes, Node.all, allOfPairs,
      allOfRedirections] at hmem
    omega
  have hkey : .string 3 "k" "k" ∈ pairInTableTree.all := by
    simp [pairInTableTree, Sequence.all, allOfNodes, Node.all, allOfPairs]
  have hother {key : Bool} {parsed : Parsed} (flag flag' : Bool)
      (h : (readLine 2 (pairInTable flag key flag)).1 = .ok parsed) :
      (readLine 2 (pairInTable flag' key flag')).1 = .ok parsed := by
    obtain ⟨tree, last, hline, -, hleaves, hother⟩ := hint_is_of_last_string h
    have hline' : Line 2 (numberFrom 0 (pulled 2 (pairInTable flag key flag))) pairInTableTree :=
      (Grammar.readLine_ok_iff 2 ⟨numberFrom 0 (pulled 2 (pairInTable flag key flag)), 0⟩ _).1
        ⟨_, rfl⟩
    obtain rfl := hline.unique hline'
    obtain rfl := hleaves.eq_some hkey hmax
    refine hother _ _ rfl rfl fun index hmem ↦ ?_
    obtain rfl := Option.some.inj hmem
    rfl
  exact ⟨_, _, rfl, rfl, hother true false rfl, rfl, rfl, hother false true rfl⟩

end Parser

end PipelineSyntax
