import PipelineSyntax.Proofs.Acceptance
import PipelineSyntax.Proofs.Leaders
import PipelineSyntax.Proofs.Words

/-!
# The canonical spelling is read as the same tree

The tree of a line, spelled canonically and cut into tokens, is read again as the same tree up
to positions. It is enough to derive it: the derivation of the tree is followed piece by piece,
and each piece is derived anew from the tokens that spell it (`Primary.respell` and those
after it). Blanks and the spelling of leaders may have changed. The order of a table's entries
may have changed too, which is harmless in tables whose elements and pairs can be told apart
when they are written one behind the other (`Separable`).
-/

open PipelineSyntax.Parser

namespace PipelineSyntax

/-! ### Trees whose tables are separable -/

/-- All tables in the tree of a node can be written with their elements in front of their
pairs. -/
def Node.AllSeparable (node : Node) : Prop :=
  ∀ pos elements pairs, Node.Under (.table pos elements pairs) node → Separable elements pairs

namespace Node

variable {pos : Nat}

/-- What is asked of a tree is asked of its root and of the trees below it. -/
theorem allSeparable_iff {node : Node} :
    node.AllSeparable ↔
      (∀ pos elements pairs, node = .table pos elements pairs → Separable elements pairs) ∧
        ∀ child ∈ node.children, child.AllSeparable := by
  constructor
  · intro h
    refine ⟨?_, fun child hmem _ _ _ hunder ↦ h _ _ _ (.child hmem hunder)⟩
    rintro pos elements pairs rfl
    exact h pos elements pairs .refl
  · rintro ⟨hnode, hchildren⟩ pos elements pairs hunder
    rcases hunder with - | ⟨hmem, hunder⟩
    · exact hnode pos elements pairs rfl
    · exact hchildren _ hmem pos elements pairs hunder

@[simp]
theorem allSeparable_list {items : Sequence Node} :
    (list items).AllSeparable ↔ ∀ node ∈ items.nodes, node.AllSeparable :=
  allSeparable_iff.trans (by simp [children])

@[simp]
theorem allSeparable_command {args : Sequence Node} {redirections : List (Redirection Node)} :
    (command pos args redirections).AllSeparable ↔
      (∀ node ∈ args.nodes, node.AllSeparable) ∧
        ∀ redirection ∈ redirections, ∀ node ∈ redirection.targetNodes, node.AllSeparable :=
  allSeparable_iff.trans (by simp [children, List.forall_mem_append, List.forall_mem_flatMap,
    -List.mem_append, -List.mem_flatMap])

@[simp]
theorem allSeparable_factor {dollars : Nat} {join : Join} {node : Node} :
    (factor pos dollars join node).AllSeparable ↔ node.AllSeparable :=
  allSeparable_iff.trans (by simp [children])

@[simp]
theorem allSeparable_string {raw text : String} : (string pos raw text).AllSeparable :=
  allSeparable_iff.2 (by simp [children])

@[simp]
theorem allSeparable_table {elements : List Node} {pairs : List (Node × Node)} :
    (table pos elements pairs).AllSeparable ↔
      Separable elements pairs ∧ (∀ element ∈ elements, element.AllSeparable) ∧
        ∀ pair ∈ pairs, pair.1.AllSeparable ∧ pair.2.AllSeparable :=
  allSeparable_iff.trans (by simp [children, List.forall_mem_append, List.forall_mem_flatMap,
    -List.mem_append, -List.mem_flatMap])

end Node

namespace Grammar

/-! ### Inside brackets -/

mutual

theorem Primary.respell {depth : Nat} {tokens : List Token} {node : Node}
    (h : Primary depth tokens node) (hsep : node.AllSeparable) {row : List Token}
    (hrow : Spelled (primaryPieces node.isList node.pieces) row) :
    ∃ node', Primary depth row node' ∧ node'.erase = node.erase := by
  match h with
  | .literal hkind htext =>
    obtain ⟨token, rfl, hkind', htext', hdecode'⟩ := Spelled.singleton hrow
    exact ⟨_, .literal hkind' hdecode', by rw [htext']; rfl⟩
  | .group hleft hfront hinner hback hright =>
    obtain ⟨left, middle, right, rfl, hleft', hmiddle, hright'⟩ := Spelled.brackets hrow
    have hterms := hinner.respells (Node.allSeparable_list.1 hsep)
    obtain ⟨terms', hterms', herase⟩ :=
      terms_of_respells hinner.ne_nil hterms (Spelled.sequence hmiddle)
    have hgroup := Primary.group hleft' .nil hterms' .nil hright'
    refine ⟨_, by simpa using hgroup, ?_⟩
    rw [Node.erase, Node.erase, Sequence.erase_mk, Sequence.erase_mk, herase]
  | .emptyTable hleft hfront hright =>
    obtain ⟨left, middle, right, rfl, hleft', hmiddle, hright'⟩ := Spelled.brackets hrow
    obtain rfl := Spelled.nil_iff.1 hmiddle
    exact ⟨_, .emptyTable hleft' .nil hright', rfl⟩
  | @Primary.table _ _ _ front inner _ entries hleft hfront hinner hback hright =>
    obtain ⟨left, middle, right, rfl, hleft', hmiddle, hright'⟩ := Spelled.brackets hrow
    obtain ⟨hseparable, -⟩ := Node.allSeparable_table.1 hsep
    -- the pairs may have moved behind the elements, and each entry respells by itself
    have hentries := hinner.respells fun entry hentry node hnode ↦
      (Node.allSeparable_iff.1 hsep).2 node (Entry.mem_children hentry hnode _)
    have hchain := Entry.isChain_inOrder hseparable
    have hne : Entry.inOrder (Entry.elements entries) (Entry.pairs entries) ≠ [] := by
      obtain ⟨entry, hentry⟩ := List.exists_mem_of_ne_nil _ hinner.ne_nil
      exact List.ne_nil_of_mem (Entry.mem_inOrder.2 hentry)
    rw [← Entry.map_pieces_inOrder] at hmiddle
    obtain ⟨entries', helements, herase⟩ := elements_of_respells hne hchain
      (fun entry hentry ↦ hentries entry (Entry.mem_inOrder.1 hentry)) hmiddle
    have htable := Primary.table hleft' .nil helements .nil hright'
    refine ⟨_, by simpa using htable, ?_⟩
    rw [Entry.erase_table herase, Entry.elements_inOrder, Entry.pairs_inOrder]

theorem Factor.respell {depth : Nat} {join : Join} {tokens : List Token} {factor : Node}
    (h : Factor depth join tokens factor) (hsep : factor.AllSeparable) {row : List Token}
    (hrow : Spelled factor.pieces row) :
    ∃ joint own factor', row = joint ++ own ∧ Spelled join.pieces joint ∧
      Factor depth join own factor' ∧ factor'.erase = factor.erase := by
  match h with
  | .primary hdollars hprimary =>
    obtain ⟨joint, own, hjoint, hown, rfl⟩ := Spelled.append_iff.1 hrow
    obtain ⟨dollars', tokens', hdollars', htokens', rfl⟩ := Spelled.append_iff.1 hown
    obtain ⟨node', hprimary', herase⟩ := hprimary.respell (Node.allSeparable_factor.1 hsep) htokens'
    obtain ⟨hdollars', hlength⟩ := hdollars'.dollars
    exact ⟨joint, _, _, rfl, hjoint, .primary hdollars' hprimary',
      by simp [Node.erase, herase, hlength]⟩

theorem Term.respell {depth : Nat} {key : Bool} {tokens : List Token} {factors : List Node}
    (h : Term depth key tokens factors) (hsep : ∀ factor ∈ factors, factor.AllSeparable)
    {row : List Token} (hrow : Spelled (factors.flatMap Node.pieces) row) :
    ∃ factors', Term depth key row factors' ∧
      factors'.map Node.erase = factors.map Node.erase := by
  match h with
  | .first hfactor =>
    rw [List.flatMap_singleton] at hrow
    obtain ⟨joint, own, factor', rfl, hjoint, hfactor', herase⟩ :=
      hfactor.respell (hsep _ (List.mem_singleton_self _)) hrow
    obtain rfl := Spelled.nil_iff.1 hjoint
    exact ⟨[factor'], .first hfactor', by simp [herase]⟩
  | .adjacent hfront hfactor hkey =>
    obtain ⟨hfactors, hlast⟩ := List.forall_mem_append.1 hsep
    rw [List.flatMap_append, List.flatMap_singleton] at hrow
    obtain ⟨front, back, hfront', hback, rfl⟩ := Spelled.append_iff.1 hrow
    obtain ⟨factors', hterm, herase⟩ := hfront.respell hfactors hfront'
    obtain ⟨joint, own, factor', rfl, hjoint, hfactor', herase'⟩ :=
      hfactor.respell (hlast _ (List.mem_singleton_self _)) hback
    obtain rfl := Spelled.nil_iff.1 hjoint
    -- how a factor opens shows in its tree, and that has not changed
    have hkey' : (key && opensWithEquals own) = false := by
      rwa [hfactor'.opensWithEquals_eq, ← Node.isEqualsFactor_erase, herase',
        Node.isEqualsFactor_erase, ← hfactor.opensWithEquals_eq]
    exact ⟨_, hterm.adjacent hfactor' hkey', by simp [herase, herase']⟩
  | .caret hfront hbefore hcaret hafter hfactor =>
    obtain ⟨hfactors, hlast⟩ := List.forall_mem_append.1 hsep
    rw [List.flatMap_append, List.flatMap_singleton] at hrow
    obtain ⟨front, back, hfront', hback, rfl⟩ := Spelled.append_iff.1 hrow
    obtain ⟨factors', hterm, herase⟩ := hfront.respell hfactors hfront'
    obtain ⟨joint, own, factor', rfl, hjoint, hfactor', herase'⟩ :=
      hfactor.respell (hlast _ (List.mem_singleton_self _)) hback
    obtain ⟨caret', rfl, hcaret'⟩ := Spelled.singleton hjoint
    exact ⟨_, hterm.caret .nil hcaret'.1 .nil hfactor', by simp [herase, herase']⟩

theorem Terms.respells {depth : Nat} {tokens : List Token} {terms : List Node}
    (h : Terms depth tokens terms) (hsep : ∀ term ∈ terms, term.AllSeparable) :
    ∀ term ∈ terms, Respells depth false term := by
  match h with
  | .first hterm =>
    have hlast := Node.allSeparable_list.1 (List.forall_mem_singleton.1 hsep)
    exact List.forall_mem_singleton.2 (respells_of_factors fun row hrow ↦ hterm.respell hlast hrow)
  | .next hfront hblanks hne hterm =>
    obtain ⟨hterms, hlast⟩ := List.forall_mem_append.1 hsep
    have hlast := Node.allSeparable_list.1 (List.forall_mem_singleton.1 hlast)
    exact List.forall_mem_append.2 ⟨hfront.respells hterms, List.forall_mem_singleton.2
      (respells_of_factors fun row hrow ↦ hterm.respell hlast hrow)⟩

theorem Element.respells {depth : Nat} {tokens : List Token} {entry : Entry}
    (h : Element depth tokens entry) (hsep : ∀ node ∈ entry.nodes, node.AllSeparable) :
    EntryRespells depth entry := by
  match h with
  | .alone hkey =>
    have helement := Node.allSeparable_list.1 (List.forall_mem_singleton.1 hsep)
    intro row hrow
    obtain ⟨factors', hterm, herase⟩ :=
      respells_of_factors (fun row hrow ↦ hkey.respell helement hrow) row hrow
    exact ⟨_, .alone hterm, by rw [Entry.erase, Entry.erase, herase]⟩
  | .pair hkey hbefore hequals hafter hvalue =>
    obtain ⟨hkeySep, hvalueSep⟩ := List.forall_mem_cons.1 hsep
    have hkeySep := Node.allSeparable_list.1 hkeySep
    have hvalueSep := Node.allSeparable_list.1 (List.forall_mem_singleton.1 hvalueSep)
    intro row hrow
    obtain ⟨front, rest, hfront, hrest, rfl⟩ := Spelled.append_iff.1 hrow
    obtain ⟨equals', back, hequals', hback, rfl⟩ := Spelled.cons_iff.1 hrest
    obtain ⟨keys', hkey', herase⟩ :=
      respells_of_factors (fun row hrow ↦ hkey.respell hkeySep hrow) front hfront
    obtain ⟨values', hvalue', herase'⟩ :=
      respells_of_factors (fun row hrow ↦ hvalue.respell hvalueSep hrow) back hback
    have htoken : equals'.isEquals = true := by simp [Token.isEquals, hequals'.1, hequals'.2]
    have helement := Element.pair hkey' .nil htoken .nil hvalue'
    exact ⟨_, helement, by rw [Entry.erase, Entry.erase, herase, herase']⟩

theorem Elements.respells {depth : Nat} {tokens : List Token} {entries : List Entry}
    (h : Elements depth tokens entries)
    (hsep : ∀ entry ∈ entries, ∀ node ∈ entry.nodes, node.AllSeparable) :
    ∀ entry ∈ entries, EntryRespells depth entry := by
  match h with
  | .first helement =>
    have hlast := List.forall_mem_singleton.1 hsep
    exact List.forall_mem_singleton.2 (helement.respells hlast)
  | .next hfront hblanks hne helement hlast =>
    obtain ⟨hentries, hentry⟩ := List.forall_mem_append.1 hsep
    have hentry := List.forall_mem_singleton.1 hentry
    exact List.forall_mem_append.2
      ⟨hfront.respells hentries, List.forall_mem_singleton.2 (helement.respells hentry)⟩

end

/-! ### Outside of brackets -/

theorem Redirect.respell {depth : Nat} {tokens : List Token} {redirection : Redirection Node}
    (h : Redirect depth tokens redirection)
    (hsep : ∀ node ∈ redirection.targetNodes, node.AllSeparable) {row : List Token}
    (hrow : Spelled redirection.pieces row) :
    ∃ redirection', Redirect depth row redirection' ∧ redirection'.erase = redirection.erase := by
  have hread := Leader.read_leader redirection
  rcases h with @⟨_, _, tokens, fd, mode, factors, -, -, hblanks, hterm⟩ | - | -
  · obtain ⟨leader, rest, hleader, hrest, rfl⟩ := Spelled.cons_iff.1 hrow
    obtain ⟨blank, target, hblank, htarget, rfl⟩ := Spelled.cons_iff.1 hrest
    obtain ⟨factors', hterm', herase⟩ := hterm.respell hsep (Spelled.factors htarget)
    have hread' : Leader.read leader.text = .ok (.target fd mode) := by
      rw [hleader.2]
      exact hread
    have hredirect := Redirect.file hleader.1 hread' (.single hblank.1) hterm'
    refine ⟨_, hredirect, ?_⟩
    rw [Redirection.erase, Redirection.erase, Sequence.erase_mk, Sequence.erase_mk, herase]
  · obtain ⟨leader, rfl, hleader⟩ := Spelled.singleton hrow
    exact ⟨_, .duplicate hleader.1 (hleader.2 ▸ hread), rfl⟩
  · obtain ⟨leader, rfl, hleader⟩ := Spelled.singleton hrow
    exact ⟨_, .close hleader.1 (hleader.2 ▸ hread), rfl⟩

theorem Redirects.respell {depth : Nat} {tokens : List Token}
    {redirections : List (Redirection Node)} (h : Redirects depth tokens redirections)
    (hsep : ∀ redirection ∈ redirections, ∀ node ∈ redirection.targetNodes, node.AllSeparable)
    {row : List Token}
    (hrow : Spelled (redirections.flatMap fun redirection ↦ .blank :: redirection.pieces) row) :
    ∃ redirections', Redirects depth row redirections' ∧
      redirections'.map Redirection.erase = redirections.map Redirection.erase := by
  induction h generalizing row with
  | nil =>
    obtain rfl := Spelled.nil_iff.1 hrow
    exact ⟨[], .nil, rfl⟩
  | next hfront hblanks hredirect ih =>
    obtain ⟨hinit, hlast⟩ := List.forall_mem_append.1 hsep
    rw [List.flatMap_append, List.flatMap_singleton] at hrow
    obtain ⟨front, rest, hfront', hrest, rfl⟩ := Spelled.append_iff.1 hrow
    obtain ⟨blank, back, hblank, hback, rfl⟩ := Spelled.cons_iff.1 hrest
    obtain ⟨redirections', hredirects, herase⟩ := ih hinit hfront'
    obtain ⟨redirection', hredirect', herase'⟩ :=
      hredirect.respell (List.forall_mem_singleton.1 hlast) hback
    have hnext := hredirects.next (.single hblank.1) hredirect'
    exact ⟨_, hnext, by simp [herase, herase']⟩

theorem Command.respell {depth : Nat} {tokens : List Token} {command : Node}
    (h : Command depth tokens command) (hsep : command.AllSeparable) {row : List Token}
    (hrow : Spelled command.pieces row) :
    ∃ command', Command depth row command' ∧ command'.erase = command.erase := by
  rcases h with @⟨_, args, _, _, terms, redirections, -, hargs, hredirs, -⟩
  obtain ⟨front, back, hfront, hback, rfl⟩ := Spelled.append_iff.1 hrow
  rw [redirectionsPieces_eq_flatMap] at hback
  obtain ⟨hterms, htargets⟩ := Node.allSeparable_command.1 hsep
  obtain ⟨terms', hargs', herase⟩ :=
    terms_of_respells hargs.ne_nil (hargs.respells hterms) (Spelled.sequence hfront)
  obtain ⟨redirections', hredirs', herase'⟩ := hredirs.respell htargets hback
  have hcommand := Command.mk .nil hargs' hredirs' .nil
  refine ⟨_, by simpa using hcommand, ?_⟩
  rw [Node.erase, Node.erase, Sequence.erase_mk, Sequence.erase_mk, herase,
    eraseRedirections_eq_map, eraseRedirections_eq_map, herase']

/-- Blanks around a command do not show in it. -/
theorem Command.blanks {depth : Nat} {tokens before after : List Token} {command : Node}
    (h : Command depth tokens command) (hbefore : Blanks before) (hafter : Blanks after) :
    Command depth (before ++ tokens ++ after) command := by
  obtain ⟨hbefore', hargs, hredirs, hafter'⟩ := h
  have hcommand := Command.mk (hbefore.append hbefore') hargs hredirs (hafter'.append hafter)
  simpa using hcommand

theorem Commands.blanks {depth : Nat} {tokens after : List Token} {commands : List Node}
    (h : Commands depth tokens commands) (hafter : Blanks after) :
    Commands depth (tokens ++ after) commands := by
  rcases h with hcommand | ⟨hfront, hpipe, hcommand⟩
  · exact .first (hcommand.blanks .nil hafter)
  · have hnext := hfront.next hpipe (hcommand.blanks .nil hafter)
    simpa using hnext

theorem Commands.respell {depth : Nat} {tokens : List Token} {commands : List Node}
    (h : Commands depth tokens commands) (hsep : ∀ command ∈ commands, command.AllSeparable)
    {row : List Token}
    (hrow : Spelled ([Piece.blank, .mark .pipe, .blank].intercalate (commands.map Node.pieces))
      row) :
    ∃ commands', Commands depth row commands' ∧
      commands'.map Node.erase = commands.map Node.erase := by
  induction h generalizing row with
  | first hcommand =>
    rw [List.map_singleton, List.intercalate_singleton] at hrow
    obtain ⟨command', hcommand', herase⟩ :=
      hcommand.respell (List.forall_mem_singleton.1 hsep) hrow
    exact ⟨[command'], .first hcommand', by simp [herase]⟩
  | next hfront hpipe hcommand ih =>
    obtain ⟨hinit, hlast⟩ := List.forall_mem_append.1 hsep
    rw [List.map_append, List.map_singleton] at hrow
    obtain ⟨front, between, back, hfront', hbetween, hback, rfl⟩ :=
      hrow.intercalate_concat (mt List.map_eq_nil_iff.1 hfront.ne_nil)
    obtain ⟨blank, rest, hblank, hrest, rfl⟩ := Spelled.cons_iff.1 hbetween
    obtain ⟨pipe, last, hpipe', hlast', rfl⟩ := Spelled.cons_iff.1 hrest
    obtain ⟨blank', rfl, hblank'⟩ := hlast'.singleton
    obtain ⟨commands', hcommands, herase⟩ := ih hinit hfront'
    obtain ⟨command', hcommand', herase'⟩ :=
      hcommand.respell (List.forall_mem_singleton.1 hlast) hback
    have hnext := (hcommands.blanks (.single hblank.1)).next hpipe'.1
      (hcommand'.blanks (.single hblank'.1) .nil)
    refine ⟨_, by simpa using hnext, by simp [herase, herase']⟩

/-- Whatever spells a tree that the grammar derives, with the end of the input behind it,
derives the tree up to positions. -/
theorem Line.respell {depth : Nat} {tokens : List Token} {root : Sequence Node}
    (h : Line depth tokens root) (hsep : ∀ node ∈ root.nodes, node.AllSeparable)
    {row : List Token} (hrow : Spelled root.pieces row) (offset : Nat) :
    ∃ root', Line depth (row ++ [.endOfInput offset]) root' ∧ root'.erase = root.erase := by
  rcases h with - | @⟨_, _, commands, hcommands, -⟩
  · obtain rfl := Spelled.nil_iff.1 hrow
    exact ⟨_, .empty .nil rfl, rfl⟩
  · obtain ⟨commands', hcommands', herase⟩ := hcommands.respell hsep (Spelled.sequence hrow)
    refine ⟨_, .commands hcommands' rfl, ?_⟩
    rw [Sequence.erase_mk, Sequence.erase_mk, herase]

/-- No token in front of the last one ends the line. -/
theorem Line.open_of_mem {depth : Nat} {front : List Token} {last : Token} {root : Sequence Node}
    (h : Line depth (front ++ [last]) root) : ∀ token ∈ front, token.kind.endsLine = false := by
  obtain ⟨hint, hreads⟩ := h.reads (Nat.le_refl depth)
  obtain ⟨front', last', heq, hopen, -⟩ := hreads.exists_last_of_ok
  obtain ⟨rfl, -⟩ := List.append_inj' heq rfl
  exact hopen

/-! ### The theorem -/

/-- **The canonical rendering is read as the same tree.** Take what a line is read as, with
tables whose elements and pairs can be written one behind the other. Its rendering can be
spelled with the literals of the line. However the rendering is spelled, the texts of the
tokens are the rendering, and within the same limit they are read as the same tree in all but
its positions. -/
theorem rendering_reads_back (limit : Nat) (stream : TokenStream) (parsed : Parsed)
    (h : (readLine limit stream).1 = .ok parsed)
    (hsep : ∀ node ∈ parsed.root.nodes, node.AllSeparable) :
    (∃ row, Spelled parsed.root.pieces row ∧
      ∀ token ∈ row, token.kind.isLiteral = true → token ∈ stream.line) ∧
    ∀ row, Spelled parsed.root.pieces row →
      String.join (row.map Token.text) = parsed.root.render ∧
      ∀ offset, ∃ again, (readLine limit ⟨row, offset⟩).1 = .ok again ∧
        again.root.erase = parsed.root.erase := by
  have hline := (readLine_ok_iff limit stream parsed.root).1 ⟨parsed.hint, h⟩
  refine ⟨hline.worded.exists_spelled, fun row hrow ↦ ⟨?_, fun offset ↦ ?_⟩⟩
  · rw [hrow.join_text, Sequence.piecesText_pieces]
  · obtain ⟨root, hagain, herase⟩ := hline.respell hsep hrow offset
    rw [← TokenStream.line_of_open hagain.open_of_mem] at hagain
    obtain ⟨hint, hparsed⟩ := (readLine_ok_iff limit _ root).2 hagain
    exact ⟨⟨root, hint⟩, hparsed, herase⟩

/-- A table with a pair in front of an element, blanks that do not matter, and the name of a
file right behind its leader: `[a=b 'c' ^$(  d)]>[1]f`. -/
def pairThenElement : TokenStream where
  tokens := [⟨.leftBracket, "[", 0, false⟩, ⟨.bare, "a", 1, false⟩, ⟨.bare, "=", 2, false⟩,
    ⟨.bare, "b", 3, false⟩, ⟨.space, " ", 4, false⟩, ⟨.singleQuoted, "'c'", 5, false⟩,
    ⟨.space, " ", 8, false⟩, ⟨.caret, "^", 9, false⟩, ⟨.dollar, "$", 10, false⟩,
    ⟨.leftParen, "(", 11, false⟩, ⟨.space, "  ", 12, false⟩, ⟨.bare, "d", 14, false⟩,
    ⟨.rightParen, ")", 15, false⟩, ⟨.rightBracket, "]", 16, false⟩,
    ⟨.leader, ">[1]", 17, false⟩, ⟨.bare, "f", 21, false⟩]
  endOffset := 22

/-- What `pairThenElement` is read as. -/
def pairThenElementTree : Sequence Node :=
  let word (pos : Nat) (text : String) : Node :=
    .list ⟨pos, .term, [.factor pos 0 .start (.string pos text text)]⟩
  let element : Node := .list ⟨5, .term, [.factor 5 0 .start (.string 5 "'c'" "c"),
    .factor 10 1 .caret (.list ⟨14, .termList, [word 14 "d"]⟩)]⟩
  let table : Node := .table 1 [element] [(word 1 "a", word 3 "b")]
  let target : Sequence Node := ⟨21, .term, [.factor 21 0 .start (.string 21 "f" "f")]⟩
  ⟨0, .pipeline, [.command 0 ⟨0, .termList, [.list ⟨0, .term, [.factor 0 0 .start table]⟩]⟩
    [.file 1 .writeCreate target]]⟩

theorem rendering_reads_back_pairThenElement :
    (readLine 2 pairThenElement).1 = .ok ⟨pairThenElementTree, none⟩ ∧
      (∀ node ∈ pairThenElementTree.nodes, node.AllSeparable) ∧
      ∃ row, String.join (row.map Token.text) = "['c'^$(d) a=b] > f" ∧
        ∀ offset, ∃ again, (readLine 2 ⟨row, offset⟩).1 = .ok again ∧
          again.root.erase = pairThenElementTree.erase := by
  have hsep : ∀ node ∈ pairThenElementTree.nodes, node.AllSeparable := by
    simp [pairThenElementTree, Redirection.targetNodes, Separable, Node.opensWithEquals,
      Node.isEqualsFactor]
  obtain ⟨⟨row, hrow, -⟩, hagain⟩ := rendering_reads_back 2 pairThenElement
    ⟨pairThenElementTree, none⟩ rfl hsep
  obtain ⟨htext, hagain⟩ := hagain row hrow
  exact ⟨rfl, hsep, row, htext, hagain⟩

end Grammar

end PipelineSyntax
