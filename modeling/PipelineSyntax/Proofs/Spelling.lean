import Mathlib.Data.List.Forall2
import PipelineSyntax.Literal.Decode
import PipelineSyntax.Tree.Render

/-!
# The canonical spelling as tokens

`Node.render` says how a tree is spelled as text. Here the same spelling is cut into pieces,
each of which is one token: a literal as it was spelled, a blank, a mark, the `=` of a pair,
and the leader of a redirection with its qualifier. `Spelled pieces row` holds if the tokens of
a row are the pieces one by one, wherever they lie and whatever could continue them.

A tree does not say of which kind a literal was. Any kind of literal will do whose text stands
for what the tree says, and the kind that was read is one of them.
-/

namespace PipelineSyntax

/-! ### Pieces -/

/-- A part of a canonical spelling that is one token. -/
inductive Piece where
  /-- A literal: as it is spelled, and the text it stands for. -/
  | literal (raw text : String)
  /-- The blank that separates two pieces. -/
  | blank
  /-- A token that has one spelling only. -/
  | mark (sign : Token.Mark)
  /-- The `=` between a key and its value. -/
  | equals
  /-- The leader of a redirection. -/
  | leader (text : String)

namespace Piece

/-- The text of a piece. -/
def text : Piece → String
  | literal raw _ => raw
  | blank => " "
  | mark sign => sign.spelling
  | equals => "="
  | leader text => text

/-- Whether a token is the piece. -/
def IsSpelledBy : Piece → Token → Prop
  | literal raw text, token =>
    token.kind.isLiteral = true ∧ token.text = raw ∧ token.decode = .ok text
  | blank, token => token.kind = .space ∧ token.text = " "
  | mark sign, token => token.kind = sign.kind ∧ token.text = sign.spelling
  | equals, token => token.kind = .bare ∧ token.text = "="
  | leader text, token => token.kind = .leader ∧ token.text = text

theorem text_of_isSpelledBy {piece : Piece} {token : Token} (h : piece.IsSpelledBy token) :
    token.text = piece.text := by
  rcases piece with ⟨raw, text⟩ | _ | sign | _ | text
  · exact h.2.1
  all_goals exact h.2

end Piece

/-- The text of pieces one behind the other. -/
def piecesText (pieces : List Piece) : String :=
  String.join (pieces.map Piece.text)

@[simp]
theorem piecesText_nil : piecesText [] = "" :=
  String.join_nil

@[simp]
theorem piecesText_cons (piece : Piece) (pieces : List Piece) :
    piecesText (piece :: pieces) = piece.text ++ piecesText pieces :=
  String.join_cons

@[simp]
theorem piecesText_append (front back : List Piece) :
    piecesText (front ++ back) = piecesText front ++ piecesText back := by
  rw [piecesText, List.map_append, String.join_append]
  rfl

theorem piecesText_intercalate (separator : List Piece) (rows : List (List Piece)) :
    piecesText (separator.intercalate rows) =
      (piecesText separator).intercalate (rows.map piecesText) := by
  induction rows with
  | nil => simp
  | cons row rows ih =>
    rcases rows with _ | ⟨row', rows⟩
    · simp
    · simp_all [String.append_assoc]

/-! ### Spelling a tree -/

/-- What stands between two nodes of a sequence. -/
def SequenceKind.separatorPieces : SequenceKind → List Piece
  | pipeline => [.blank, .mark .pipe, .blank]
  | termList => [.blank]
  | term => []

/-- What stands between a factor and the one before it. -/
def Join.pieces : Join → List Piece
  | caret => [.mark .caret]
  | _ => []

/-- The sigils in front of a factor. -/
def dollarPieces (count : Nat) : List Piece :=
  List.replicate count (.mark .dollar)

/-- The pieces of a primary: a list stands in parentheses, anything else as it is. -/
def primaryPieces (isList : Bool) (inner : List Piece) : List Piece :=
  if isList then .mark .leftParen :: (inner ++ [.mark .rightParen]) else inner

mutual

/-- The pieces of the canonical spelling of a node. -/
def Node.pieces : Node → List Piece
  | .list items => items.pieces
  | .command _ args redirections => args.pieces ++ redirectionsPieces redirections
  | .factor _ dollars join node =>
    join.pieces ++ (dollarPieces dollars ++ primaryPieces node.isList node.pieces)
  | .string _ raw text => [.literal raw text]
  | .table _ elements pairs =>
    .mark .leftBracket :: ([Piece.blank].intercalate (nodesPieces elements ++ pairsPieces pairs) ++
      [.mark .rightBracket])
termination_by structural node => node

/-- The pieces of the canonical spelling of a sequence. -/
def Sequence.pieces : Sequence Node → List Piece
  | ⟨_, kind, nodes⟩ => kind.separatorPieces.intercalate (nodesPieces nodes)

/-- The pieces of nodes. -/
def nodesPieces : List Node → List (List Piece)
  | [] => []
  | node :: nodes => node.pieces :: nodesPieces nodes

/-- The pieces of a table's pairs. -/
def pairsPieces : List (Node × Node) → List (List Piece)
  | [] => []
  | (key, value) :: pairs => (key.pieces ++ .equals :: value.pieces) :: pairsPieces pairs

/-- The pieces of a redirection. -/
def Redirection.pieces : Redirection Node → List Piece
  | .file fd mode target => .leader (mode.leader fd) :: .blank :: target.pieces
  | .duplicate fd old => [.leader (Redirection.duplicate fd old : Redirection Node).leader]
  | .close fd => [.leader (Redirection.close fd : Redirection Node).leader]

/-- The pieces of redirections, each behind a blank. -/
def redirectionsPieces : List (Redirection Node) → List Piece
  | [] => []
  | redirection :: redirections =>
    .blank :: (redirection.pieces ++ redirectionsPieces redirections)

end

theorem nodesPieces_eq_map (nodes : List Node) : nodesPieces nodes = nodes.map Node.pieces := by
  induction nodes with
  | nil => rfl
  | cons node nodes ih => simp [nodesPieces, ih]

theorem pairsPieces_eq_map (pairs : List (Node × Node)) :
    pairsPieces pairs = pairs.map fun pair ↦ pair.1.pieces ++ .equals :: pair.2.pieces := by
  induction pairs with
  | nil => rfl
  | cons pair pairs ih => simp [pairsPieces, ih]

theorem redirectionsPieces_eq_flatMap (redirections : List (Redirection Node)) :
    redirectionsPieces redirections =
      redirections.flatMap fun redirection ↦ .blank :: redirection.pieces := by
  induction redirections with
  | nil => rfl
  | cons redirection redirections ih => simp [redirectionsPieces, ih]

/-! ### The pieces are the rendering -/

theorem piecesText_separatorPieces (kind : SequenceKind) :
    piecesText kind.separatorPieces = kind.separator := by
  cases kind <;> exact String.toList_inj.1 (by simp [SequenceKind.separatorPieces,
    SequenceKind.separator, Piece.text, Token.Mark.spelling])

theorem piecesText_joinPieces (join : Join) : piecesText join.pieces = join.spelling := by
  cases join <;> simp [Join.pieces, Join.spelling, Piece.text, Token.Mark.spelling]

theorem piecesText_dollarPieces (count : Nat) :
    piecesText (dollarPieces count) = dollarSigns count := by
  induction count with
  | zero => rfl
  | succ count ih =>
    rw [dollarPieces, List.replicate_succ, piecesText_cons, ← dollarPieces, ih]
    exact String.toList_inj.1 (by simp [dollarSigns, Piece.text, Token.Mark.spelling,
      List.replicate_succ])

mutual

theorem Node.piecesText_pieces (node : Node) : piecesText node.pieces = node.render := by
  match node with
  | .list items => exact items.piecesText_pieces
  | .command _ args redirections =>
    rw [Node.pieces, Node.render, piecesText_append, args.piecesText_pieces,
      piecesText_redirectionsPieces]
  | .factor _ dollars join inner =>
    have hinner := inner.piecesText_pieces
    rw [Node.pieces, Node.render, piecesText_append, piecesText_append, piecesText_joinPieces,
      piecesText_dollarPieces, String.append_assoc, primaryPieces]
    split <;> simp [hinner, Piece.text, Token.Mark.spelling, String.append_assoc]
  | .string _ raw text => simp [Node.pieces, Node.render, Piece.text]
  | .table _ elements pairs =>
    have helements := piecesText_nodesPieces elements
    have hpairs := piecesText_pairsPieces pairs
    simp [Node.pieces, Node.render, piecesText_intercalate, helements, hpairs, Piece.text,
      Token.Mark.spelling, String.append_assoc]

theorem Sequence.piecesText_pieces (items : Sequence Node) :
    piecesText items.pieces = items.render := by
  match items with
  | ⟨_, kind, nodes⟩ =>
    rw [Sequence.pieces, Sequence.render, piecesText_intercalate, piecesText_separatorPieces,
      piecesText_nodesPieces]

theorem piecesText_nodesPieces (nodes : List Node) :
    (nodesPieces nodes).map piecesText = renderNodes nodes := by
  match nodes with
  | [] => rfl
  | node :: nodes =>
    rw [nodesPieces, renderNodes, List.map_cons, node.piecesText_pieces,
      piecesText_nodesPieces nodes]

theorem piecesText_pairsPieces (pairs : List (Node × Node)) :
    (pairsPieces pairs).map piecesText = renderPairs pairs := by
  match pairs with
  | [] => rfl
  | (key, value) :: pairs =>
    rw [pairsPieces, renderPairs, List.map_cons, piecesText_append, piecesText_cons,
      key.piecesText_pieces, value.piecesText_pieces, piecesText_pairsPieces pairs,
      String.append_assoc]
    rfl

theorem Redirection.piecesText_pieces (redirection : Redirection Node) :
    piecesText redirection.pieces = redirection.render := by
  match redirection with
  | .file fd mode target =>
    rw [Redirection.pieces, Redirection.render, piecesText_cons, piecesText_cons,
      target.piecesText_pieces, String.append_assoc]
    rfl
  | .duplicate fd old => simp [Redirection.pieces, Redirection.render, Piece.text]
  | .close fd => simp [Redirection.pieces, Redirection.render, Piece.text]

theorem piecesText_redirectionsPieces (redirections : List (Redirection Node)) :
    piecesText (redirectionsPieces redirections) = renderRedirections redirections := by
  match redirections with
  | [] => rfl
  | redirection :: redirections =>
    rw [redirectionsPieces, renderRedirections, piecesText_cons, piecesText_append,
      redirection.piecesText_pieces, piecesText_redirectionsPieces redirections,
      String.append_assoc]
    rfl

end

/-! ### Rows that spell pieces -/

/-- The tokens are the pieces, one by one. -/
def Spelled (pieces : List Piece) (row : List Token) : Prop :=
  List.Forall₂ Piece.IsSpelledBy pieces row

namespace Spelled

variable {piece : Piece} {pieces front back : List Piece} {row : List Token}

/-- The texts of the tokens are the text of the pieces. -/
theorem join_text (h : Spelled pieces row) :
    String.join (row.map Token.text) = piecesText pieces := by
  induction h with
  | nil => rfl
  | cons hpiece _ ih =>
    rw [List.map_cons, String.join_cons, piecesText_cons, ih, Piece.text_of_isSpelledBy hpiece]

theorem nil_iff : Spelled [] row ↔ row = [] :=
  List.forall₂_nil_left_iff

theorem cons_iff : Spelled (piece :: pieces) row ↔
    ∃ token rest, piece.IsSpelledBy token ∧ Spelled pieces rest ∧ row = token :: rest :=
  List.forall₂_cons_left_iff

theorem append_iff : Spelled (front ++ back) row ↔
    ∃ row₁ row₂, Spelled front row₁ ∧ Spelled back row₂ ∧ row = row₁ ++ row₂ := by
  induction front generalizing row with
  | nil => simp [nil_iff]
  | cons piece front ih =>
    rw [List.cons_append, cons_iff]
    constructor
    · rintro ⟨token, rest, hpiece, hrest, rfl⟩
      obtain ⟨row₁, row₂, hfront, hback, rfl⟩ := ih.1 hrest
      exact ⟨token :: row₁, row₂, .cons hpiece hfront, hback, rfl⟩
    · rintro ⟨row₁, row₂, hfront, hback, rfl⟩
      obtain ⟨token, rest, hpiece, hrest, rfl⟩ := cons_iff.1 hfront
      exact ⟨token, rest ++ row₂, hpiece, ih.2 ⟨rest, row₂, hrest, hback, rfl⟩, rfl⟩

/-- What spells a sequence spells its nodes with what separates them. -/
theorem sequence {pos : Nat} {kind : SequenceKind} {nodes : List Node}
    (h : Spelled (Sequence.pieces ⟨pos, kind, nodes⟩) row) :
    Spelled (kind.separatorPieces.intercalate (nodes.map Node.pieces)) row := by
  rwa [Sequence.pieces, nodesPieces_eq_map] at h

end Spelled

end PipelineSyntax
