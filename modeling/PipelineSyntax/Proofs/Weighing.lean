import PipelineSyntax.Proofs.Leaders
import PipelineSyntax.Proofs.Rebuilding
import PipelineSyntax.Proofs.Spending

/-!
# A canonical spelling asks for the blanks it has

Whatever spells a tree that the grammar derives asks for as many blanks as there are in the
rendering of the tree (`Line.weighs`). None of its blanks is idle: one separates two factors, or
it stands beside a bar or a leader.

Pieces that begin and end with a factor weigh what they have, and one blank more if they stand
behind one (`Weighs`). A command need not end with a factor; but what follows it weighs the same
behind whatever it ends with (`Indifferent`).
-/

namespace PipelineSyntax

/-! ### Blanks of pieces -/

/-- How many blanks the text of pieces has. -/
def piecesSpaces (pieces : List Piece) : Nat :=
  countSpaces (piecesText pieces)

section

variable (front back pieces : List Piece)

@[simp]
theorem piecesSpaces_nil : piecesSpaces [] = 0 := by
  rw [piecesSpaces, piecesText_nil, countSpaces_empty]

@[simp]
theorem piecesSpaces_append :
    piecesSpaces (front ++ back) = piecesSpaces front + piecesSpaces back := by
  rw [piecesSpaces, piecesText_append, countSpaces_append]
  rfl

theorem piecesSpaces_cons (piece : Piece) :
    piecesSpaces (piece :: pieces) = countSpaces piece.text + piecesSpaces pieces := by
  rw [piecesSpaces, piecesText_cons, countSpaces_append]
  rfl

@[simp]
theorem piecesSpaces_literal (raw text : String) :
    piecesSpaces (.literal raw text :: pieces) = countSpaces raw + piecesSpaces pieces :=
  piecesSpaces_cons ..

@[simp]
theorem piecesSpaces_blank : piecesSpaces (.blank :: pieces) = 1 + piecesSpaces pieces :=
  piecesSpaces_cons ..

@[simp]
theorem piecesSpaces_mark (sign : Token.Mark) :
    piecesSpaces (.mark sign :: pieces) = piecesSpaces pieces := by
  have hsign : countSpaces (Piece.mark sign).text = 0 := by cases sign <;> rfl
  rw [piecesSpaces_cons, hsign, Nat.zero_add]

@[simp]
theorem piecesSpaces_equals : piecesSpaces (.equals :: pieces) = piecesSpaces pieces := by
  rw [piecesSpaces_cons, show countSpaces Piece.equals.text = 0 from rfl, Nat.zero_add]

@[simp]
theorem piecesSpaces_leader (text : String) :
    piecesSpaces (.leader text :: pieces) = countSpaces text + piecesSpaces pieces :=
  piecesSpaces_cons ..

end

/-! ### Blanks of tokens between factors -/

section

variable {token : Token} {lately : Lately} {row : List Token}

/-- Blanks ask for nothing, but a factor behind them may ask for one of them. -/
theorem weigh_blank (h : token.kind = .space) :
    weigh lately (token :: row) = weigh (if lately = .other then .other else .blank) row := by
  simp [weigh, Token.spaces, Lately.gap, Lately.after, h, Token.Kind.startsFactor]

theorem weigh_pipe (h : token.kind = .pipe) :
    weigh lately (token :: row) = 2 + weigh .other row := by
  simp [weigh, Token.spaces, Lately.gap, Lately.after, h, Token.Kind.startsFactor]

theorem weigh_leader {said : Leader} (h : token.kind = .leader)
    (hread : Leader.read token.text = .ok said) :
    weigh lately (token :: row) = countSpaces said.front + weigh .other row := by
  simp [weigh, Token.spaces, Lately.gap, Lately.after, h, hread, Token.Kind.startsFactor]

end

/-! ### Pieces between factors -/

/-- Whatever spells the pieces asks for the blanks that are among them, and for one more if it
stands behind a blank; and it ends with a factor. -/
def Weighs (pieces : List Piece) : Prop :=
  ∀ row, Spelled pieces row → ∀ lately rest,
    weigh lately (row ++ rest) =
      (decide (lately = .blank)).toNat + piecesSpaces pieces + weigh .factor rest

namespace Weighs

variable {front back pieces : List Piece}

theorem literal (raw text : String) : Weighs [.literal raw text] := by
  intro row hrow lately rest
  obtain ⟨token, rfl, hkind, rfl, -⟩ := hrow.singleton
  have hkinds : token.kind = .bare ∨ token.kind = .singleQuoted ∨ token.kind = .doubleQuoted := by
    revert hkind
    cases token.kind <;> simp [Token.Kind.isLiteral]
  rcases hkinds with hkind | hkind | hkind <;>
    simp [weigh, Token.spaces, Lately.gap, Lately.after, hkind, Token.Kind.startsFactor,
      Nat.add_comm]

theorem append (h : Weighs front) (h' : Weighs back) : Weighs (front ++ back) := by
  intro row hrow lately rest
  obtain ⟨row₁, row₂, hfront, hback, rfl⟩ := Spelled.append_iff.1 hrow
  rw [List.append_assoc, h _ hfront, h' _ hback]
  simp [Nat.add_assoc]

/-- A blank between two factors is the one that the second asks for. -/
theorem separated (h : Weighs front) (h' : Weighs back) : Weighs (front ++ .blank :: back) := by
  intro row hrow lately rest
  obtain ⟨row₁, row₂, hfront, hrest, rfl⟩ := Spelled.append_iff.1 hrow
  obtain ⟨blank, row₃, ⟨hkind, -⟩, hback, rfl⟩ := Spelled.cons_iff.1 hrest
  have hblank : weigh .factor (blank :: (row₃ ++ rest)) = weigh .blank (row₃ ++ rest) :=
    weigh_blank hkind
  rw [List.append_assoc, List.cons_append, h _ hfront, hblank, h' _ hback]
  simp [Nat.add_assoc]

/-- What joins a factor to the one before it asks for nothing. -/
theorem joined (h : Weighs front) (join : Join) (h' : Weighs back) :
    Weighs (front ++ (join.pieces ++ back)) := by
  cases join
  case caret =>
    intro row hrow lately rest
    obtain ⟨row₁, row₂, hfront, hrest, rfl⟩ := Spelled.append_iff.1 hrow
    obtain ⟨caret, row₃, ⟨hkind, -⟩, hback, rfl⟩ := Spelled.cons_iff.1 hrest
    have hkind : caret.kind = .caret := hkind
    have hcaret : weigh .factor (caret :: (row₃ ++ rest)) = weigh .other (row₃ ++ rest) := by
      simp [weigh, Token.spaces, Lately.gap, Lately.after, hkind]
    rw [List.append_assoc, List.cons_append, h _ hfront, hcaret, h' _ hback]
    simp [Join.pieces, Nat.add_assoc]
  all_goals exact h.append h'

theorem pair (h : Weighs front) (h' : Weighs back) : Weighs (front ++ .equals :: back) := by
  intro row hrow lately rest
  obtain ⟨row₁, row₂, hfront, hrest, rfl⟩ := Spelled.append_iff.1 hrow
  obtain ⟨equals, row₃, ⟨hkind, htext⟩, hback, rfl⟩ := Spelled.cons_iff.1 hrest
  have hequals : weigh .factor (equals :: (row₃ ++ rest)) = weigh .factor (row₃ ++ rest) := by
    simp [weigh, Token.spaces, Lately.gap, Lately.after, hkind, htext,
      show countSpaces "=" = 0 from rfl]
  rw [List.append_assoc, List.cons_append, h _ hfront, hequals, h' _ hback]
  simp [Nat.add_assoc]

theorem dollars (count : Nat) (h : Weighs pieces) : Weighs (dollarPieces count ++ pieces) := by
  induction count with
  | zero => exact h
  | succ count ih =>
    intro row hrow lately rest
    obtain ⟨dollar, row', ⟨hkind, -⟩, hrest, rfl⟩ := Spelled.cons_iff.1 hrow
    have hkind : dollar.kind = .dollar := hkind
    have hdollar : weigh lately (dollar :: (row' ++ rest)) =
        (decide (lately = .blank)).toNat + weigh .other (row' ++ rest) := by
      simp [weigh, Token.spaces, Lately.gap, Lately.after, hkind, Token.Kind.startsFactor]
    rw [List.cons_append, hdollar, ih _ hrest]
    simp [dollarPieces, List.replicate_succ, Nat.add_assoc]

/-- Terms, or entries of a table, with blanks between them. -/
theorem intercalate {rows : List (List Piece)} (hne : rows ≠ []) (h : ∀ row ∈ rows, Weighs row) :
    Weighs ([Piece.blank].intercalate rows) := by
  induction rows with
  | nil => exact absurd rfl hne
  | cons row rows ih =>
    obtain ⟨hrow, hrows⟩ := List.forall_mem_cons.1 h
    rcases rows with _ | ⟨next, rows⟩
    · rwa [List.intercalate_singleton]
    · rw [List.intercalate_cons_cons, List.append_assoc]
      exact hrow.separated (ih (List.cons_ne_nil _ _) hrows)

/-- Brackets around nothing, or around what weighs what it has. -/
theorem brackets {opening closing : Token.Mark} (hopening : opening.kind.startsFactor = true)
    (hclosing : closing = .rightParen ∨ closing = .rightBracket)
    (h : pieces = [] ∨ Weighs pieces) :
    Weighs (.mark opening :: (pieces ++ [.mark closing])) := by
  intro row hrow lately rest
  obtain ⟨left, middle, right, rfl, hleft, hmiddle, hright⟩ := hrow.brackets
  have hopen : weigh lately (left :: (middle ++ [right] ++ rest)) =
      (decide (lately = .blank)).toNat + weigh .other (middle ++ right :: rest) := by
    revert hopening
    cases opening <;>
      simp [weigh, Token.spaces, Lately.gap, Lately.after, hleft, Token.Mark.kind,
        Token.Kind.startsFactor]
  have hclose (lately : Lately) : weigh lately (right :: rest) = weigh .factor rest := by
    rcases hclosing with rfl | rfl <;>
      simp [weigh, Token.spaces, Lately.gap, Lately.after, hright, Token.Mark.kind,
        Token.Kind.startsFactor]
  rw [List.cons_append, hopen]
  rcases h with rfl | h
  · obtain rfl := Spelled.nil_iff.1 hmiddle
    simp [hclose]
  · rw [h _ hmiddle, hclose]
    simp [Nat.add_assoc]

end Weighs

/-! ### Pieces in front of what does not mind -/

/-- The row weighs the same whatever stands in front of it. -/
def Indifferent (row : List Token) : Prop :=
  ∀ lately lately', weigh lately row = weigh lately' row

/-- Whatever spells the pieces asks for the blanks that are among them, and for one more if it
stands behind a blank. How the pieces end does not matter to what follows. -/
def WeighsBefore (pieces : List Piece) : Prop :=
  ∀ row, Spelled pieces row → ∀ lately rest, Indifferent rest →
    weigh lately (row ++ rest) =
      (decide (lately = .blank)).toNat + piecesSpaces pieces + weigh .other rest

theorem Weighs.before {pieces : List Piece} (h : Weighs pieces) : WeighsBefore pieces := by
  intro row hrow lately rest hrest
  rw [h row hrow, hrest .factor .other]

namespace Grammar

/-- The pieces of a term are those of its factors. -/
theorem pieces_term (pos : Nat) (factors : List Node) :
    (Node.list ⟨pos, .term, factors⟩).pieces = factors.flatMap Node.pieces := by
  rw [Node.pieces, Sequence.pieces, nodesPieces_eq_map, List.flatMap_def]
  exact nil_intercalate _

/-! ### Inside brackets -/

mutual

theorem Primary.weighs {depth : Nat} {tokens : List Token} {node : Node}
    (h : Primary depth tokens node) : Weighs (primaryPieces node.isList node.pieces) := by
  match h with
  | .literal _ _ => exact .literal _ _
  | .group _ _ hinner _ _ =>
    refine .brackets rfl (.inl rfl) (.inr ?_)
    rw [Node.pieces, Sequence.pieces, nodesPieces_eq_map]
    exact .intercalate (mt List.map_eq_nil_iff.1 hinner.ne_nil)
      (List.forall_mem_map.2 hinner.weighs)
  | .emptyTable _ _ _ => exact .brackets rfl (.inr rfl) (.inl rfl)
  | @Primary.table _ _ _ _ _ _ entries _ _ hinner _ _ =>
    refine .brackets rfl (.inr rfl) (.inr ?_)
    rw [← Entry.map_pieces_inOrder]
    have hentries := hinner.weighs
    obtain ⟨entry, hentry⟩ := List.exists_mem_of_ne_nil _ hinner.ne_nil
    refine .intercalate (List.ne_nil_of_mem (List.mem_map_of_mem (Entry.mem_inOrder.2 hentry)))
      (List.forall_mem_map.2 fun entry hentry ↦ ?_)
    exact hentries entry (Entry.mem_inOrder.1 hentry)

theorem Factor.weighs {depth : Nat} {join : Join} {tokens : List Token} {factor : Node}
    (h : Factor depth join tokens factor) :
    ∃ own, factor.pieces = join.pieces ++ own ∧ Weighs own := by
  match h with
  | .primary _ hprimary => exact ⟨_, rfl, hprimary.weighs.dollars _⟩

theorem Term.weighs {depth : Nat} {key : Bool} {tokens : List Token} {factors : List Node}
    (h : Term depth key tokens factors) : Weighs (factors.flatMap Node.pieces) := by
  match h with
  | .first hfactor =>
    obtain ⟨own, heq, hown⟩ := hfactor.weighs
    rw [List.flatMap_singleton, heq]
    exact hown
  | .adjacent hfront hfactor _ =>
    obtain ⟨own, heq, hown⟩ := hfactor.weighs
    rw [List.flatMap_append, List.flatMap_singleton, heq]
    exact hfront.weighs.joined .adjacent hown
  | .caret hfront _ _ _ hfactor =>
    obtain ⟨own, heq, hown⟩ := hfactor.weighs
    rw [List.flatMap_append, List.flatMap_singleton, heq]
    exact hfront.weighs.joined .caret hown

theorem Terms.weighs {depth : Nat} {tokens : List Token} {terms : List Node}
    (h : Terms depth tokens terms) : ∀ term ∈ terms, Weighs term.pieces := by
  match h with
  | .first hterm =>
    exact List.forall_mem_singleton.2 (pieces_term _ _ ▸ hterm.weighs)
  | .next hfront _ _ hterm =>
    exact List.forall_mem_append.2
      ⟨hfront.weighs, List.forall_mem_singleton.2 (pieces_term _ _ ▸ hterm.weighs)⟩

theorem Element.weighs {depth : Nat} {tokens : List Token} {entry : Entry}
    (h : Element depth tokens entry) : Weighs entry.pieces := by
  match h with
  | .alone hkey =>
    rw [Entry.pieces, pieces_term]
    exact hkey.weighs
  | .pair hkey _ _ _ hvalue =>
    rw [Entry.pieces, pieces_term, pieces_term]
    exact hkey.weighs.pair hvalue.weighs

theorem Elements.weighs {depth : Nat} {tokens : List Token} {entries : List Entry}
    (h : Elements depth tokens entries) : ∀ entry ∈ entries, Weighs entry.pieces := by
  match h with
  | .first helement => exact List.forall_mem_singleton.2 helement.weighs
  | .next hfront _ _ helement _ =>
    exact List.forall_mem_append.2 ⟨hfront.weighs, List.forall_mem_singleton.2 helement.weighs⟩

end

/-! ### Outside of brackets -/

/-- A redirection asks for the blanks around its leader, and does not mind what stands in
front. -/
theorem Redirect.weighs {depth : Nat} {tokens : List Token} {redirection : Redirection Node}
    (h : Redirect depth tokens redirection) {row rest : List Token}
    (hrow : Spelled (.blank :: redirection.pieces) row) (hrest : Indifferent rest)
    (lately : Lately) :
    weigh lately (row ++ rest) =
      piecesSpaces (.blank :: redirection.pieces) + weigh .other rest := by
  obtain ⟨blank, pieces, ⟨hblank, -⟩, hpieces, rfl⟩ := Spelled.cons_iff.1 hrow
  -- the blank is one of those that the leader asks for
  have hleader {leader : Token} {said : Leader} (hkind : leader.kind = .leader)
      (hread : Leader.read leader.text = .ok said) (back : List Token) :
      weigh lately (blank :: leader :: back) = countSpaces said.front + weigh .other back := by
    rw [weigh_blank hblank, weigh_leader hkind hread]
  have hread := Leader.read_leader redirection
  have hblank : countSpaces " " = 1 := rfl
  rcases h with @⟨_, _, tokens, fd, mode, factors, -, -, -, hterm⟩ | - | -
  · obtain ⟨leader, back, ⟨hkind, htext⟩, hback, rfl⟩ := Spelled.cons_iff.1 hpieces
    obtain ⟨blank', target, ⟨hblank', -⟩, htarget, rfl⟩ := Spelled.cons_iff.1 hback
    have hread : Leader.read leader.text = .ok (.target fd mode) := by
      rw [htext]
      exact hread
    have hskip : weigh .other (blank' :: (target ++ rest)) = weigh .other (target ++ rest) :=
      weigh_blank hblank'
    have hpieces : Sequence.pieces ⟨origin tokens, .term, factors⟩ =
        factors.flatMap Node.pieces := pieces_term _ _
    have htarget := hterm.weighs.before _ (Spelled.factors htarget) .other rest hrest
    rw [List.cons_append, List.cons_append, List.cons_append, hleader hkind hread, hskip, htarget]
    simp only [Redirection.pieces, Leader.front, hpieces, hblank, piecesSpaces_blank,
      piecesSpaces_leader, countSpaces_append, reduceCtorEq, decide_false, Bool.toNat_false]
    omega
  all_goals
    obtain ⟨leader, rfl, hkind, htext⟩ := hpieces.singleton
    rw [List.cons_append, List.singleton_append, hleader hkind (htext ▸ hread)]
    simp [Redirection.pieces, Leader.front, Redirection.said, hblank]

/-- Behind what weighs what it has redirections do so. -/
theorem Redirects.weighs {depth : Nat} {tokens : List Token}
    {redirections : List (Redirection Node)} (h : Redirects depth tokens redirections)
    {front : List Piece} (hfront : WeighsBefore front) :
    WeighsBefore
      (front ++ redirections.flatMap fun redirection ↦ .blank :: redirection.pieces) := by
  induction h with
  | nil => simpa using hfront
  | next _ _ hredirect ih =>
    intro row hrow lately rest hrest
    rw [List.flatMap_append, List.flatMap_singleton, ← List.append_assoc] at hrow ⊢
    obtain ⟨row₁, row₂, hinit, hlast, rfl⟩ := Spelled.append_iff.1 hrow
    have hlast := hredirect.weighs hlast hrest
    rw [List.append_assoc, ih _ hinit _ _ fun _ _ ↦ (hlast _).trans (hlast _).symm, hlast]
    simp only [piecesSpaces_append]
    omega

theorem Command.weighs {depth : Nat} {tokens : List Token} {command : Node}
    (h : Command depth tokens command) : WeighsBefore command.pieces := by
  obtain ⟨-, hargs, hredirs, -⟩ := h
  rw [Node.pieces, redirectionsPieces_eq_flatMap, Sequence.pieces, nodesPieces_eq_map]
  have hterms := Weighs.intercalate (mt List.map_eq_nil_iff.1 hargs.ne_nil)
    (List.forall_mem_map.2 hargs.weighs)
  exact hredirs.weighs hterms.before

theorem Commands.weighs {depth : Nat} {tokens : List Token} {commands : List Node}
    (h : Commands depth tokens commands) :
    WeighsBefore ([Piece.blank, .mark .pipe, .blank].intercalate (commands.map Node.pieces)) := by
  induction h with
  | first hcommand => simpa using hcommand.weighs
  | next hfront _ hcommand ih =>
    intro row hrow lately rest hrest
    rw [List.map_append, List.map_singleton] at hrow ⊢
    have hne := mt (@List.map_eq_nil_iff _ _ Node.pieces _).1 hfront.ne_nil
    obtain ⟨front, between, back, hfront', hbetween, hback, rfl⟩ := hrow.intercalate_concat hne
    obtain ⟨blank, rest₁, ⟨hblank, -⟩, hrest₁, rfl⟩ := Spelled.cons_iff.1 hbetween
    obtain ⟨pipe, rest₂, ⟨hpipe, -⟩, hrest₂, rfl⟩ := Spelled.cons_iff.1 hrest₁
    obtain ⟨blank', rfl, hblank', -⟩ := hrest₂.singleton
    have hpipe : pipe.kind = .pipe := hpipe
    have hbar (lately : Lately) : weigh lately (blank :: pipe :: blank' :: (back ++ rest)) =
        2 + weigh .other (back ++ rest) := by
      rw [weigh_blank hblank, weigh_pipe hpipe, weigh_blank hblank', if_pos rfl]
    have hrow : front ++ ([blank, pipe, blank'] ++ back) ++ rest =
        front ++ (blank :: pipe :: blank' :: (back ++ rest)) := by simp
    rw [hrow, ih _ hfront' _ _ fun _ _ ↦ (hbar _).trans (hbar _).symm, hbar,
      hcommand.weighs _ hback _ _ hrest, intercalate_concat _ hne]
    simp only [piecesSpaces_append, piecesSpaces_blank, piecesSpaces_mark, piecesSpaces_nil,
      reduceCtorEq, decide_false, Bool.toNat_false]
    omega

/-- **A canonical spelling asks for the blanks it has**, no more and no less. -/
theorem Line.weighs {depth : Nat} {tokens : List Token} {root : Sequence Node}
    (h : Line depth tokens root) {row : List Token} (hrow : Spelled root.pieces row)
    (offset : Nat) : weigh .other (row ++ [.endOfInput offset]) = root.spaces := by
  have hlast (lately : Lately) : weigh lately [.endOfInput offset] = 0 := by
    simp [weigh, Token.spaces, Lately.gap, Token.endOfInput, Token.Kind.startsFactor]
  have hspaces : piecesSpaces root.pieces = root.spaces := by
    rw [piecesSpaces, Sequence.piecesText_pieces]
    rfl
  rw [← hspaces]
  rcases h with - | @⟨_, _, commands, hcommands, -⟩
  · obtain rfl := Spelled.nil_iff.1 hrow
    exact hlast .other
  · rw [Sequence.pieces, nodesPieces_eq_map] at hrow ⊢
    rw [hcommands.weighs _ hrow _ _ fun _ _ ↦ (hlast _).trans (hlast _).symm, hlast]
    exact Nat.zero_add _

end Grammar

end PipelineSyntax
