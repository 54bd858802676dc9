import PipelineSyntax.Proofs.Rebuilding

/-!
# The words of a line

A tree says nothing that does not stand in its line: each literal of its canonical spelling,
and each `=` of a pair, is one of the tokens that it was derived from. Hence a canonical
spelling can always be written down (`Worded.exists_spelled`), with the words of the line for
its words and with marks, blanks and leaders that are made anew.
-/

namespace PipelineSyntax

/-- Whether a piece is a word: what is left can be spelled in one way only. -/
def Piece.isWord : Piece → Bool
  | literal .. | equals => true
  | _ => false

/-- Every word among the pieces is one of the tokens. -/
def Worded (tokens : List Token) (pieces : List Piece) : Prop :=
  ∀ piece ∈ pieces, piece.isWord = true → ∃ token ∈ tokens, piece.IsSpelledBy token

namespace Worded

variable {tokens tokens' : List Token} {piece : Piece} {pieces front back : List Piece}

theorem mono (h : Worded tokens pieces) (hsub : tokens ⊆ tokens') : Worded tokens' pieces := by
  intro piece hmem hword
  obtain ⟨token, htoken, hspelled⟩ := h piece hmem hword
  exact ⟨token, hsub htoken, hspelled⟩

/-- Pieces that are no words are spelled without any token of the line. -/
theorem of_isWord_eq_false (h : ∀ piece ∈ pieces, piece.isWord = false) :
    Worded tokens pieces := by
  intro piece hmem hword
  rw [h piece hmem] at hword
  cases hword

theorem append (h : Worded tokens front) (h' : Worded tokens back) :
    Worded tokens (front ++ back) :=
  List.forall_mem_append.2 ⟨h, h'⟩

theorem cons (h : piece.isWord = false) (h' : Worded tokens pieces) :
    Worded tokens (piece :: pieces) :=
  (of_isWord_eq_false (List.forall_mem_singleton.2 h)).append h'

theorem brackets {opening closing : Token.Mark} (h : Worded tokens pieces) :
    Worded tokens (.mark opening :: (pieces ++ [.mark closing])) :=
  .cons rfl (h.append (.cons rfl fun _ hmem ↦ absurd hmem List.not_mem_nil))

/-- What stands between the rows is not a word. -/
theorem intercalate {separator : List Piece} {rows : List (List Piece)}
    (hseparator : ∀ piece ∈ separator, piece.isWord = false)
    (h : ∀ row ∈ rows, Worded tokens row) : Worded tokens (separator.intercalate rows) :=
  forall_mem_intercalate (of_isWord_eq_false hseparator) h

/-- What is true of a list stays true when it grows together with its row. -/
theorem concat {α : Type} {spell : α → List Piece} {items : List α} {item : α}
    (h : ∀ item ∈ items, Worded tokens (spell item)) (hitem : Worded tokens' (spell item))
    {row : List Token} (hsub : tokens ⊆ row) (hsub' : tokens' ⊆ row) :
    ∀ item' ∈ items ++ [item], Worded row (spell item') :=
  List.forall_mem_append.2 ⟨fun item' hmem ↦ (h item' hmem).mono hsub,
    List.forall_mem_singleton.2 (hitem.mono hsub')⟩

/-- A spelling that takes its words from the line. -/
theorem exists_spelled (h : Worded tokens pieces) :
    ∃ row, Spelled pieces row ∧
      ∀ token ∈ row, token.kind.isLiteral = true → token ∈ tokens := by
  induction pieces with
  | nil => exact ⟨[], .nil, fun _ hmem ↦ absurd hmem List.not_mem_nil⟩
  | cons piece pieces ih =>
    obtain ⟨hpiece, hpieces⟩ := List.forall_mem_cons.1 h
    obtain ⟨row, hrow, hwords⟩ := ih hpieces
    -- a word is taken from the line, and what is no word is no literal either
    obtain ⟨token, hspelled, htoken⟩ : ∃ token, piece.IsSpelledBy token ∧
        (token.kind.isLiteral = true → token ∈ tokens) := by
      cases hword : piece.isWord with
      | true =>
        obtain ⟨token, hmem, hspelled⟩ := hpiece hword
        exact ⟨token, hspelled, fun _ ↦ hmem⟩
      | false =>
        rcases piece with ⟨raw, text⟩ | _ | sign | _ | text
        case blank => exact ⟨⟨.space, " ", 0, false⟩, ⟨rfl, rfl⟩, nofun⟩
        case mark =>
          exact ⟨⟨sign.kind, sign.spelling, 0, false⟩, ⟨rfl, rfl⟩, by cases sign <;> nofun⟩
        case leader => exact ⟨⟨.leader, text, 0, false⟩, ⟨rfl, rfl⟩, nofun⟩
        all_goals cases hword
    exact ⟨token :: row, .cons hspelled hrow, List.forall_mem_cons.2 ⟨htoken, hwords⟩⟩

end Worded

theorem isWord_of_mem_separatorPieces (kind : SequenceKind) :
    ∀ piece ∈ kind.separatorPieces, piece.isWord = false := by
  cases kind <;> simp [SequenceKind.separatorPieces, Piece.isWord]

theorem isWord_of_mem_joinPieces (join : Join) : ∀ piece ∈ join.pieces, piece.isWord = false := by
  cases join <;> simp [Join.pieces, Piece.isWord]

theorem isWord_of_mem_dollarPieces (count : Nat) :
    ∀ piece ∈ dollarPieces count, piece.isWord = false := by
  intro piece hmem
  rw [List.eq_of_mem_replicate hmem]
  rfl

/-- A sequence is worded if its nodes are. -/
theorem worded_sequence {tokens : List Token} (pos : Nat) {kind : SequenceKind}
    {nodes : List Node} (h : ∀ node ∈ nodes, Worded tokens node.pieces) :
    Worded tokens (Sequence.pieces ⟨pos, kind, nodes⟩) := by
  rw [Sequence.pieces, nodesPieces_eq_map]
  exact .intercalate (isWord_of_mem_separatorPieces kind) (List.forall_mem_map.2 h)

namespace Grammar

/-! ### Inside brackets -/

mutual

theorem Primary.worded {depth : Nat} {tokens : List Token} {node : Node}
    (h : Primary depth tokens node) :
    Worded tokens (primaryPieces node.isList node.pieces) := by
  match h with
  | @Primary.literal _ token text hkind htext =>
    refine List.forall_mem_singleton.2 fun _ ↦ ?_
    exact ⟨token, List.mem_singleton_self _, hkind, rfl, htext⟩
  | .group hleft hfront hinner hback hright =>
    refine .brackets (worded_sequence _ fun term hterm ↦ (hinner.worded term hterm).mono ?_)
    exact fun _ hmem ↦ by simp [hmem]
  | .emptyTable hleft hfront hright => exact .brackets nofun
  | @Primary.table _ _ _ front inner _ entries hleft hfront hinner hback hright =>
    have hentries := hinner.worded
    show Worded _ (.mark .leftBracket :: ([Piece.blank].intercalate
      (nodesPieces (Entry.elements entries) ++ pairsPieces (Entry.pairs entries)) ++
        [.mark .rightBracket]))
    rw [← Entry.map_pieces_inOrder]
    refine .brackets (.intercalate (List.forall_mem_singleton.2 rfl) (List.forall_mem_map.2 ?_))
    intro entry hentry
    exact (hentries entry (Entry.mem_inOrder.1 hentry)).mono fun _ hmem ↦ by simp [hmem]

theorem Factor.worded {depth : Nat} {join : Join} {tokens : List Token} {factor : Node}
    (h : Factor depth join tokens factor) : Worded tokens factor.pieces := by
  match h with
  | .primary hdollars hprimary =>
    refine .append (.of_isWord_eq_false (isWord_of_mem_joinPieces _))
      (.append (.of_isWord_eq_false (isWord_of_mem_dollarPieces _)) ?_)
    exact hprimary.worded.mono fun _ hmem ↦ List.mem_append_right _ hmem

theorem Term.worded {depth : Nat} {key : Bool} {tokens : List Token} {factors : List Node}
    (h : Term depth key tokens factors) : ∀ factor ∈ factors, Worded tokens factor.pieces := by
  match h with
  | .first hfactor => exact List.forall_mem_singleton.2 hfactor.worded
  | .adjacent hfront hfactor hkey =>
    exact .concat hfront.worded hfactor.worded (fun _ hmem ↦ by simp [hmem])
      fun _ hmem ↦ by simp [hmem]
  | .caret hfront hbefore hcaret hafter hfactor =>
    exact .concat hfront.worded hfactor.worded (fun _ hmem ↦ by simp [hmem])
      fun _ hmem ↦ by simp [hmem]

theorem Terms.worded {depth : Nat} {tokens : List Token} {terms : List Node}
    (h : Terms depth tokens terms) : ∀ term ∈ terms, Worded tokens term.pieces := by
  match h with
  | .first hterm => exact List.forall_mem_singleton.2 (worded_sequence _ hterm.worded)
  | .next hfront hblanks hne hterm =>
    exact .concat hfront.worded (worded_sequence _ hterm.worded) (fun _ hmem ↦ by simp [hmem])
      fun _ hmem ↦ by simp [hmem]

theorem Element.worded {depth : Nat} {tokens : List Token} {entry : Entry}
    (h : Element depth tokens entry) : Worded tokens entry.pieces := by
  match h with
  | @Element.alone _ tokens _ hkey => exact worded_sequence (origin tokens) hkey.worded
  | @Element.pair _ _ _ _ _ equals _ _ hkey hbefore hequals hafter hvalue =>
    have hspelled : Piece.equals.IsSpelledBy equals := by
      simpa [Token.isEquals, Piece.IsSpelledBy] using hequals
    refine .append ((worded_sequence _ hkey.worded).mono fun _ hmem ↦ by simp [hmem])
      (List.forall_mem_cons.2 ⟨fun _ ↦ ⟨equals, by simp, hspelled⟩, ?_⟩)
    exact (worded_sequence _ hvalue.worded).mono fun _ hmem ↦ by simp [hmem]

theorem Elements.worded {depth : Nat} {tokens : List Token} {entries : List Entry}
    (h : Elements depth tokens entries) : ∀ entry ∈ entries, Worded tokens entry.pieces := by
  match h with
  | .first helement => exact List.forall_mem_singleton.2 helement.worded
  | .next hfront hblanks hne helement hlast =>
    exact .concat hfront.worded helement.worded (fun _ hmem ↦ by simp [hmem])
      fun _ hmem ↦ by simp [hmem]

end

/-! ### Outside of brackets -/

variable {depth : Nat} {tokens : List Token}

theorem Redirect.worded {redirection : Redirection Node} (h : Redirect depth tokens redirection) :
    Worded tokens redirection.pieces := by
  rcases h with @⟨_, _, _, _, _, _, -, -, -, hterm⟩ | - | -
  · refine .cons rfl (.cons rfl ((worded_sequence _ hterm.worded).mono ?_))
    exact fun _ hmem ↦ by simp [hmem]
  · exact .cons rfl nofun
  · exact .cons rfl nofun

theorem Redirects.worded {redirections : List (Redirection Node)}
    (h : Redirects depth tokens redirections) :
    ∀ redirection ∈ redirections, Worded tokens redirection.pieces := by
  induction h with
  | nil => exact fun _ hmem ↦ absurd hmem List.not_mem_nil
  | next hfront hblanks hredirect ih =>
    exact .concat ih hredirect.worded (fun _ hmem ↦ by simp [hmem]) fun _ hmem ↦ by simp [hmem]

theorem Command.worded {command : Node} (h : Command depth tokens command) :
    Worded tokens command.pieces := by
  rcases h with @⟨_, _, redirs, _, _, redirections, -, hargs, hredirs, -⟩
  have hback : Worded redirs (redirectionsPieces redirections) := by
    rw [redirectionsPieces_eq_flatMap]
    intro piece hmem
    obtain ⟨redirection, hredirection, hpiece⟩ := List.mem_flatMap.1 hmem
    exact Worded.cons rfl (hredirs.worded redirection hredirection) piece hpiece
  refine .append ((worded_sequence _ hargs.worded).mono fun _ hmem ↦ by simp [hmem]) ?_
  exact hback.mono fun _ hmem ↦ by simp [hmem]

theorem Commands.worded {commands : List Node} (h : Commands depth tokens commands) :
    ∀ command ∈ commands, Worded tokens command.pieces := by
  induction h with
  | first hcommand => exact List.forall_mem_singleton.2 hcommand.worded
  | next hfront hpipe hcommand ih =>
    exact .concat ih hcommand.worded (fun _ hmem ↦ by simp [hmem]) fun _ hmem ↦ by simp [hmem]

/-- The words of a tree are tokens of the line that derives it. -/
theorem Line.worded {root : Sequence Node} (h : Line depth tokens root) :
    Worded tokens root.pieces := by
  rcases h with - | hcommands
  · exact fun _ hmem ↦ absurd hmem List.not_mem_nil
  · exact worded_sequence _ fun command hmem ↦
      (hcommands.worded command hmem).mono fun _ hmem ↦ by simp [hmem]

end Grammar

end PipelineSyntax
