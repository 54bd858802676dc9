import PipelineSyntax.Proofs.Tightness
import PipelineSyntax.Proofs.Weighing

/-!
# When a rendering is a normal form

The rendering of what a line is read as can be read again and rendered. For it to be the same
again, the tables of the line have to be separable: a table is rendered with its elements in
front of its pairs, and where a pair has kept an element and a bare `=` behind it apart, nothing
does so in the rendering.

That it is enough is what `Line.respell` says. That it is necessary is a matter of counting
blanks. A rendering asks for the blanks it has (`Line.weighs`). What is read from it has no more
of them, and as many only if no blank was looked across (`Reads.spaces_le`); and then all tables
have been told apart (`Line.tidy`).
-/

open PipelineSyntax.Parser

namespace PipelineSyntax

/-! ### Renderings do not show positions -/

@[simp]
theorem Node.isList_erase (node : Node) : node.erase.isList = node.isList := by
  cases node <;> rfl

mutual

/-- The rendering of a node does not show its positions. -/
theorem Node.render_erase (node : Node) : node.erase.render = node.render := by
  match node with
  | .list items => exact items.render_erase
  | .command _ args redirections =>
    rw [Node.erase, Node.render, Node.render, args.render_erase,
      renderRedirections_erase redirections]
  | .factor _ _ _ inner =>
    rw [Node.erase, Node.render, Node.render, inner.render_erase, inner.isList_erase]
  | .string .. => rfl
  | .table _ elements pairs =>
    rw [Node.erase, Node.render, Node.render, renderNodes_erase elements, renderPairs_erase pairs]

/-- The rendering of a sequence does not show its positions. -/
theorem Sequence.render_erase (items : Sequence Node) : items.erase.render = items.render := by
  match items with
  | ⟨_, _, nodes⟩ => rw [Sequence.erase, Sequence.render, Sequence.render, renderNodes_erase nodes]

theorem renderNodes_erase (nodes : List Node) :
    renderNodes (eraseNodes nodes) = renderNodes nodes := by
  match nodes with
  | [] => rfl
  | node :: nodes =>
    rw [eraseNodes, renderNodes, renderNodes, node.render_erase, renderNodes_erase nodes]

theorem renderPairs_erase (pairs : List (Node × Node)) :
    renderPairs (erasePairs pairs) = renderPairs pairs := by
  match pairs with
  | [] => rfl
  | (key, value) :: pairs =>
    rw [erasePairs, renderPairs, renderPairs, key.render_erase, value.render_erase,
      renderPairs_erase pairs]

theorem Redirection.render_erase (redirection : Redirection Node) :
    redirection.erase.render = redirection.render := by
  match redirection with
  | .file fd mode target =>
    rw [Redirection.erase, Redirection.render, Redirection.render, target.render_erase]
  | .duplicate .. | .close _ => rfl

theorem renderRedirections_erase (redirections : List (Redirection Node)) :
    renderRedirections (eraseRedirections redirections) = renderRedirections redirections := by
  match redirections with
  | [] => rfl
  | redirection :: redirections =>
    rw [eraseRedirections, renderRedirections, renderRedirections, redirection.render_erase,
      renderRedirections_erase redirections]

end

/-! ### Renderings are lines -/

/-- The piece ends no line. -/
def Piece.IsOpen (piece : Piece) : Prop :=
  piece ≠ .mark .endOfLine

@[simp]
theorem Piece.isOpen_literal (raw text : String) : (Piece.literal raw text).IsOpen := by
  simp [IsOpen]

@[simp]
theorem Piece.isOpen_blank : Piece.blank.IsOpen := by
  simp [IsOpen]

@[simp]
theorem Piece.isOpen_mark_iff (sign : Token.Mark) :
    (Piece.mark sign).IsOpen ↔ sign ≠ .endOfLine := by
  simp [IsOpen]

@[simp]
theorem Piece.isOpen_equals : Piece.equals.IsOpen := by
  simp [IsOpen]

@[simp]
theorem Piece.isOpen_leader (text : String) : (Piece.leader text).IsOpen := by
  simp [IsOpen]

theorem Piece.IsOpen.endsLine {piece : Piece} {token : Token} (h : piece.IsOpen)
    (hspelled : piece.IsSpelledBy token) : token.kind.endsLine = false := by
  rcases piece with ⟨raw, text⟩ | _ | sign | _ | text
  case literal =>
    have hkind := hspelled.1
    revert hkind
    cases token.kind <;> simp [Token.Kind.isLiteral, Token.Kind.endsLine]
  case mark =>
    rw [hspelled.1]
    revert h
    cases sign <;> simp [Token.Mark.kind, Token.Kind.endsLine, IsOpen]
  all_goals
    rw [hspelled.1]
    rfl

theorem isOpen_of_mem_separatorPieces (kind : SequenceKind) :
    ∀ piece ∈ kind.separatorPieces, piece.IsOpen := by
  cases kind <;> simp [SequenceKind.separatorPieces]

theorem Sequence.isOpen_of_nodes (items : Sequence Node)
    (h : ∀ node ∈ items.nodes, ∀ piece ∈ node.pieces, piece.IsOpen) :
    ∀ piece ∈ items.pieces, piece.IsOpen := by
  obtain ⟨pos, kind, nodes⟩ := items
  rw [Sequence.pieces, nodesPieces_eq_map]
  exact forall_mem_intercalate (isOpen_of_mem_separatorPieces kind) (List.forall_mem_map.2 h)

theorem Redirection.isOpen_of_targetNodes (redirection : Redirection Node)
    (h : ∀ node ∈ redirection.targetNodes, ∀ piece ∈ node.pieces, piece.IsOpen) :
    ∀ piece ∈ redirection.pieces, piece.IsOpen := by
  cases redirection with
  | file fd mode target =>
    exact List.forall_mem_cons.2 ⟨Piece.isOpen_leader _,
      List.forall_mem_cons.2 ⟨Piece.isOpen_blank, target.isOpen_of_nodes h⟩⟩
  | duplicate | close => exact List.forall_mem_singleton.2 (Piece.isOpen_leader _)

/-- No piece of a tree ends the line. -/
theorem Node.isOpen_of_mem_pieces (node : Node) : ∀ piece ∈ node.pieces, piece.IsOpen := by
  induction node using Node.childrenInduction with
  | step node ih =>
    cases node with
    | list items => exact items.isOpen_of_nodes ih
    | command pos args redirections =>
      obtain ⟨hargs, htargets⟩ := List.forall_mem_append.1 ih
      rw [Node.pieces, redirectionsPieces_eq_flatMap]
      refine List.forall_mem_append.2 ⟨args.isOpen_of_nodes hargs,
        List.forall_mem_flatMap.2 fun redirection hmem ↦
          List.forall_mem_cons.2 ⟨Piece.isOpen_blank, ?_⟩⟩
      exact redirection.isOpen_of_targetNodes fun node hnode ↦
        htargets node (List.mem_flatMap.2 ⟨redirection, hmem, hnode⟩)
    | factor pos dollars join inner =>
      have hinner := ih inner List.mem_cons_self
      have hprimary : ∀ piece ∈ primaryPieces inner.isList inner.pieces, piece.IsOpen := by
        rw [primaryPieces]
        split
        · exact List.forall_mem_cons.2
            ⟨by simp, List.forall_mem_append.2 ⟨hinner, List.forall_mem_singleton.2 (by simp)⟩⟩
        · exact hinner
      have hdollars : ∀ piece ∈ dollarPieces dollars, piece.IsOpen := by
        intro piece hmem
        rw [List.eq_of_mem_replicate hmem]
        simp
      have hjoin : ∀ piece ∈ join.pieces, piece.IsOpen := by
        cases join <;> simp [Join.pieces]
      exact List.forall_mem_append.2 ⟨hjoin, List.forall_mem_append.2 ⟨hdollars, hprimary⟩⟩
    | string pos raw text => exact List.forall_mem_singleton.2 (Piece.isOpen_literal raw text)
    | table pos elements pairs =>
      obtain ⟨helements, hsides⟩ := List.forall_mem_append.1 ih
      rw [Node.pieces, nodesPieces_eq_map, pairsPieces_eq_map]
      refine List.forall_mem_cons.2 ⟨by simp, List.forall_mem_append.2
        ⟨forall_mem_intercalate (List.forall_mem_singleton.2 Piece.isOpen_blank) ?_,
          List.forall_mem_singleton.2 (by simp)⟩⟩
      refine List.forall_mem_append.2 ⟨List.forall_mem_map.2 helements,
        List.forall_mem_map.2 fun pair hmem ↦ ?_⟩
      have hkey := hsides pair.1 (List.mem_flatMap.2 ⟨pair, hmem, by simp⟩)
      have hvalue := hsides pair.2 (List.mem_flatMap.2 ⟨pair, hmem, by simp⟩)
      exact List.forall_mem_append.2
        ⟨hkey, List.forall_mem_cons.2 ⟨Piece.isOpen_equals, hvalue⟩⟩

theorem Spelled.endsLine_eq_false {pieces : List Piece} {row : List Token}
    (h : Spelled pieces row) (hopen : ∀ piece ∈ pieces, piece.IsOpen) :
    ∀ token ∈ row, token.kind.endsLine = false := by
  induction h with
  | nil => exact fun _ hmem ↦ absurd hmem List.not_mem_nil
  | cons hpiece _ ih =>
    obtain ⟨hfirst, hrest⟩ := List.forall_mem_cons.1 hopen
    exact List.forall_mem_cons.2 ⟨hfirst.endsLine hpiece, ih hrest⟩

/-- What spells a tree is one line, with the end of the input behind it. -/
theorem Spelled.line_eq {root : Sequence Node} {row : List Token} (h : Spelled root.pieces row)
    (offset : Nat) : TokenStream.line ⟨row, offset⟩ = row ++ [.endOfInput offset] :=
  TokenStream.line_of_open (h.endsLine_eq_false
    (root.isOpen_of_nodes fun node _ ↦ node.isOpen_of_mem_pieces))

namespace Grammar

/-- **The rendering is a normal form exactly where tables are separable.** Take what a line is
read as. Its rendering can be spelled with the literals of the line. However it is spelled, the
texts of the tokens are the rendering, and within the same limit they are read as something that
renders the same if and only if no table has an element, behind the first, that opens with a bare
`=`, nor elements and a first key that does. -/
theorem rendering_is_normal_iff (limit : Nat) (stream : TokenStream) (parsed : Parsed)
    (h : (readLine limit stream).1 = .ok parsed) :
    (∃ row, Spelled parsed.root.pieces row ∧
      ∀ token ∈ row, token.kind.isLiteral = true → token ∈ stream.line) ∧
    ∀ row, Spelled parsed.root.pieces row →
      String.join (row.map Token.text) = parsed.root.render ∧
      ∀ offset,
        (∃ again, (readLine limit ⟨row, offset⟩).1 = .ok again ∧
          again.root.render = parsed.root.render) ↔
        ∀ node ∈ parsed.root.nodes, node.AllSeparable := by
  have hline := (readLine_ok_iff limit stream parsed.root).1 ⟨parsed.hint, h⟩
  refine ⟨hline.worded.exists_spelled, fun row hrow ↦ ⟨?_, fun offset ↦ ⟨?_, fun hsep ↦ ?_⟩⟩⟩
  · rw [hrow.join_text, Sequence.piecesText_pieces]
  · rintro ⟨again, hagain, hrender⟩
    have hagain := (readLine_ok_iff limit _ again.root).1 ⟨again.hint, hagain⟩
    rw [hrow.line_eq] at hagain
    obtain ⟨hint, hreads⟩ := hagain.reads (Nat.le_refl limit)
    obtain ⟨-, htight⟩ := @Reads.spaces_le _ _ .other _ _ hreads trivial
    -- the two renderings have the same blanks, and all those of the first have been asked for
    have hspaces : again.root.spaces = parsed.root.spaces := congrArg countSpaces hrender
    have hstart (pos : Nat) : (State.start pos).spaces = 0 := rfl
    rw [hstart, Nat.zero_add, hline.weighs hrow] at htight
    exact hline.tidy hrow (Nat.le_refl limit) (htight hspaces)
  · obtain ⟨root, hagain, herase⟩ := hline.respell hsep hrow offset
    rw [← hrow.line_eq] at hagain
    obtain ⟨hint, hparsed⟩ := (readLine_ok_iff limit _ root).2 hagain
    refine ⟨⟨root, hint⟩, hparsed, ?_⟩
    rw [← root.render_erase, herase, Sequence.render_erase]

/-- A table whose pair stands in front of its elements: `[a=b  x y]`. -/
def pairInFront : TokenStream where
  tokens := [⟨.leftBracket, "[", 0, false⟩, ⟨.bare, "a", 1, false⟩, ⟨.bare, "=", 2, false⟩,
    ⟨.bare, "b", 3, false⟩, ⟨.space, "  ", 4, false⟩, ⟨.bare, "x", 6, false⟩,
    ⟨.space, " ", 7, false⟩, ⟨.bare, "y", 8, false⟩, ⟨.rightBracket, "]", 9, false⟩]
  endOffset := 10

/-- What `pairInFront` is read as. -/
def pairInFrontTree : Sequence Node :=
  let word (pos : Nat) (text : String) : Node :=
    .list ⟨pos, .term, [.factor pos 0 .start (.string pos text text)]⟩
  let table : Node := .table 1 [word 6 "x", word 8 "y"] [(word 1 "a", word 3 "b")]
  ⟨0, .pipeline, [.command 0 ⟨0, .termList, [.list ⟨0, .term, [.factor 0 0 .start table]⟩]⟩ []]⟩

theorem rendering_is_normal_iff_pairInFront :
    (readLine 1 pairInFront).1 = .ok ⟨pairInFrontTree, none⟩ ∧
      ∃ row, String.join (row.map Token.text) = "[x y a=b]" ∧
        ∀ offset, ∃ again, (readLine 1 ⟨row, offset⟩).1 = .ok again ∧
          again.root.render = "[x y a=b]" := by
  obtain ⟨⟨row, hrow, -⟩, hagain⟩ :=
    rendering_is_normal_iff 1 pairInFront ⟨pairInFrontTree, none⟩ rfl
  obtain ⟨htext, hagain⟩ := hagain row hrow
  refine ⟨rfl, row, htext, fun offset ↦ (hagain offset).2 ?_⟩
  simp [pairInFrontTree, Separable, Node.opensWithEquals, Node.isEqualsFactor]

/-- A table whose pair keeps an element and a bare `=` apart: `[x a=b =^y]`. -/
def pairBetween : TokenStream where
  tokens := [⟨.leftBracket, "[", 0, false⟩, ⟨.bare, "x", 1, false⟩, ⟨.space, " ", 2, false⟩,
    ⟨.bare, "a", 3, false⟩, ⟨.bare, "=", 4, false⟩, ⟨.bare, "b", 5, false⟩,
    ⟨.space, " ", 6, false⟩, ⟨.bare, "=", 7, false⟩, ⟨.caret, "^", 8, false⟩,
    ⟨.bare, "y", 9, false⟩, ⟨.rightBracket, "]", 10, false⟩]
  endOffset := 11

/-- What `pairBetween` is read as. -/
def pairBetweenTree : Sequence Node :=
  let word (pos : Nat) (text : String) : Node :=
    .list ⟨pos, .term, [.factor pos 0 .start (.string pos text text)]⟩
  let joined : Node := .list ⟨7, .term,
    [.factor 7 0 .start (.string 7 "=" "="), .factor 9 0 .caret (.string 9 "y" "y")]⟩
  let table : Node := .table 1 [word 1 "x", joined] [(word 3 "a", word 5 "b")]
  ⟨0, .pipeline, [.command 0 ⟨0, .termList, [.list ⟨0, .term, [.factor 0 0 .start table]⟩]⟩ []]⟩

/-- The rendering of `pairBetweenTree` in tokens: `[x =^y a=b]`. -/
def pairBehind : TokenStream where
  tokens := [⟨.leftBracket, "[", 0, false⟩, ⟨.bare, "x", 1, false⟩, ⟨.space, " ", 2, false⟩,
    ⟨.bare, "=", 3, false⟩, ⟨.caret, "^", 4, false⟩, ⟨.bare, "y", 5, false⟩,
    ⟨.space, " ", 6, false⟩, ⟨.bare, "a", 7, false⟩, ⟨.bare, "=", 8, false⟩,
    ⟨.bare, "b", 9, false⟩, ⟨.rightBracket, "]", 10, false⟩]
  endOffset := 11

/-- A rendering need not be readable: with the pair out of its place, the first element is read
as a key, and nothing can stand for its value. -/
theorem rendering_is_refused_pairBetween :
    (readLine 1 pairBetween).1 = .ok ⟨pairBetweenTree, none⟩ ∧
      pairBetweenTree.render = "[x =^y a=b]" ∧
      Spelled pairBetweenTree.pieces pairBehind.tokens ∧
      (readLine 1 pairBehind).1 =
        .error (.unexpected ⟨.caret, "^", 4, false⟩ Production.factor.name) := by
  have hspelled : Spelled pairBetweenTree.pieces pairBehind.tokens :=
    .cons ⟨rfl, rfl⟩ <| .cons ⟨rfl, rfl, rfl⟩ <| .cons ⟨rfl, rfl⟩ <| .cons ⟨rfl, rfl, rfl⟩ <|
      .cons ⟨rfl, rfl⟩ <| .cons ⟨rfl, rfl, rfl⟩ <| .cons ⟨rfl, rfl⟩ <| .cons ⟨rfl, rfl, rfl⟩ <|
        .cons ⟨rfl, rfl⟩ <| .cons ⟨rfl, rfl, rfl⟩ <| .cons ⟨rfl, rfl⟩ .nil
  refine ⟨rfl, ?_, hspelled, rfl⟩
  rw [← Sequence.piecesText_pieces, ← hspelled.join_text]
  rfl

end Grammar

end PipelineSyntax
