import Mathlib.Data.List.Chain
import PipelineSyntax.Proofs.Grammar
import PipelineSyntax.Proofs.Positions
import PipelineSyntax.Proofs.Spelling

/-!
# Rebuilding pieces from their parts

What has to be known of the parts of a piece in order to derive it from a row of tokens that
spells them one behind the other. Whether a row opens with a bare `=` can be told from what it
is read as (`Term.opensWithEquals_eq`), and so the side conditions of the grammar become
conditions on trees.

Terms and elements are rebuilt from lists of which each member can be derived from its own
spelling. Their order is free: nothing is asked of the derivation that they came from.
-/

namespace PipelineSyntax

/-! ### Rows that spell a list -/

theorem intercalate_concat {α : Type} (separator : List α) {rows : List (List α)}
    (h : rows ≠ []) (row : List α) :
    separator.intercalate (rows ++ [row]) =
      separator.intercalate rows ++ (separator ++ row) := by
  induction rows with
  | nil => exact absurd rfl h
  | cons first rows ih =>
    rcases rows with _ | ⟨second, rows⟩
    · simp
    · have hrest := ih (List.cons_ne_nil _ _)
      simp_all

/-- What holds of the separator and of the rows holds of what they make up. -/
theorem forall_mem_intercalate {α : Type} {p : α → Prop} {separator : List α}
    {rows : List (List α)} (hseparator : ∀ x ∈ separator, p x)
    (h : ∀ row ∈ rows, ∀ x ∈ row, p x) : ∀ x ∈ separator.intercalate rows, p x := by
  induction rows with
  | nil => exact fun _ hmem ↦ absurd hmem List.not_mem_nil
  | cons row rows ih =>
    obtain ⟨hrow, hrows⟩ := List.forall_mem_cons.1 h
    rcases rows with _ | ⟨next, rows⟩
    · rwa [List.intercalate_singleton]
    · rw [List.intercalate_cons_cons]
      exact List.forall_mem_append.2 ⟨List.forall_mem_append.2 ⟨hrow, hseparator⟩, ih hrows⟩

theorem nil_intercalate {α : Type} (rows : List (List α)) :
    List.intercalate [] rows = rows.flatten := by
  induction rows with
  | nil => rfl
  | cons first rows ih =>
    rcases rows with _ | ⟨second, rows⟩
    · simp
    · rw [List.intercalate_cons_cons, ih, List.append_nil, ← List.flatten_cons]

/-- What spells a term spells its factors one behind the other. -/
theorem Spelled.factors {pos : Nat} {factors : List Node} {row : List Token}
    (h : Spelled (Sequence.pieces ⟨pos, .term, factors⟩) row) :
    Spelled (factors.flatMap Node.pieces) row := by
  have hrow : Spelled (List.intercalate [] (factors.map Node.pieces)) row := h.sequence
  rwa [nil_intercalate, ← List.flatMap_def] at hrow

theorem Spelled.intercalate_concat {separator pieces : List Piece} {rows : List (List Piece)}
    {row : List Token} (h : rows ≠ [])
    (hrow : Spelled (separator.intercalate (rows ++ [pieces])) row) :
    ∃ front between back, Spelled (separator.intercalate rows) front ∧
      Spelled separator between ∧ Spelled pieces back ∧ row = front ++ (between ++ back) := by
  rw [PipelineSyntax.intercalate_concat separator h, Spelled.append_iff] at hrow
  obtain ⟨front, rest, hfront, hrest, rfl⟩ := hrow
  obtain ⟨between, back, hbetween, hback, rfl⟩ := Spelled.append_iff.1 hrest
  exact ⟨front, between, back, hfront, hbetween, hback, rfl⟩

theorem Spelled.singleton {piece : Piece} {row : List Token} (h : Spelled [piece] row) :
    ∃ token, row = [token] ∧ piece.IsSpelledBy token := by
  obtain ⟨token, rest, hpiece, hrest, rfl⟩ := Spelled.cons_iff.1 h
  obtain rfl := Spelled.nil_iff.1 hrest
  exact ⟨token, rfl, hpiece⟩

/-- Brackets around pieces are spelled as brackets around what the pieces are spelled as. -/
theorem Spelled.brackets {opening closing : Token.Mark} {inner : List Piece} {row : List Token}
    (h : Spelled (.mark opening :: (inner ++ [.mark closing])) row) :
    ∃ left middle right, row = left :: (middle ++ [right]) ∧ left.kind = opening.kind ∧
      Spelled inner middle ∧ right.kind = closing.kind := by
  obtain ⟨left, rest, hleft, hrest, rfl⟩ := Spelled.cons_iff.1 h
  obtain ⟨middle, last, hmiddle, hlast, rfl⟩ := Spelled.append_iff.1 hrest
  obtain ⟨right, rfl, hright⟩ := hlast.singleton
  exact ⟨left, middle, right, rfl, hleft.1, hmiddle, hright.1⟩

/-- A blank is spelled as one blank. -/
theorem Spelled.blank {row : List Token} (h : Spelled [.blank] row) : Blanks row ∧ row ≠ [] := by
  obtain ⟨token, rfl, hblank⟩ := h.singleton
  exact ⟨.single hblank.1, List.cons_ne_nil _ _⟩

/-- Dollars are spelled as as many dollars. -/
theorem Spelled.dollars {count : Nat} {row : List Token} (h : Spelled (dollarPieces count) row) :
    OfKind .dollar row ∧ row.length = count := by
  induction count generalizing row with
  | zero =>
    obtain rfl := Spelled.nil_iff.1 h
    exact ⟨.nil, rfl⟩
  | succ count ih =>
    obtain ⟨token, rest, hdollar, hrest, rfl⟩ := Spelled.cons_iff.1 h
    obtain ⟨hrest, hlength⟩ := ih hrest
    exact ⟨OfKind.cons_iff.2 ⟨hdollar.1, hrest⟩, congrArg (· + 1) hlength⟩

/-! ### Entries of a table -/

/-- Tables whose elements and pairs can be written one behind the other: an element that
stands alone is not followed by a bare `=`, which would make a key of it. -/
def Separable (elements : List Node) (pairs : List (Node × Node)) : Prop :=
  (∀ element ∈ elements.tail, element.opensWithEquals = false) ∧
    (elements ≠ [] → ∀ pair ∈ pairs.head?, pair.1.opensWithEquals = false)

namespace Entry

/-- Whether an element, or the key of a pair, opens with a bare `=`. -/
def opensWithEquals : Entry → Bool
  | alone element => element.opensWithEquals
  | pair key _ => key.opensWithEquals

/-- The nodes of an entry. -/
def nodes : Entry → List Node
  | alone element => [element]
  | pair key value => [key, value]

/-- The pieces of an entry. -/
def pieces : Entry → List Piece
  | alone element => element.pieces
  | pair key value => key.pieces ++ .equals :: value.pieces

/-- The entry with all its positions put to zero. -/
def erase : Entry → Entry
  | alone element => .alone element.erase
  | pair key value => .pair key.erase value.erase

/-- Elements, and pairs behind them. -/
def inOrder (elements : List Node) (pairs : List (Node × Node)) : List Entry :=
  elements.map alone ++ pairs.map fun (key, value) ↦ pair key value

@[simp]
theorem isAlone_erase (entry : Entry) : entry.erase.isAlone = entry.isAlone := by
  cases entry <;> rfl

@[simp]
theorem opensWithEquals_erase (entry : Entry) :
    entry.erase.opensWithEquals = entry.opensWithEquals := by
  rcases entry with element | ⟨key, value⟩
  · exact element.opensWithEquals_erase
  · exact key.opensWithEquals_erase

theorem elements_inOrder (es : List Node) (ps : List (Node × Node)) :
    elements (inOrder es ps) = es := by
  simp [elements, inOrder, List.filterMap_append, List.filterMap_map]

theorem pairs_inOrder (es : List Node) (ps : List (Node × Node)) :
    pairs (inOrder es ps) = ps := by
  simp [pairs, inOrder, List.filterMap_append, List.filterMap_map]

theorem elements_map_erase (entries : List Entry) :
    elements (entries.map erase) = (elements entries).map Node.erase := by
  induction entries with
  | nil => rfl
  | cons entry entries ih => cases entry <;> simp_all [elements, erase]

theorem pairs_map_erase (entries : List Entry) :
    pairs (entries.map erase) = (pairs entries).map fun pair ↦ (pair.1.erase, pair.2.erase) := by
  induction entries with
  | nil => rfl
  | cons entry entries ih => cases entry <;> simp_all [pairs, erase]

theorem mem_elements {entries : List Entry} {element : Node} :
    element ∈ elements entries ↔ alone element ∈ entries := by
  induction entries with
  | nil => simp [elements]
  | cons entry entries ih => cases entry <;> simp_all [elements]

theorem mem_pairs {entries : List Entry} {key value : Node} :
    (key, value) ∈ pairs entries ↔ pair key value ∈ entries := by
  induction entries with
  | nil => simp [pairs]
  | cons entry entries ih => cases entry <;> simp_all [pairs]

/-- Putting the elements first loses and adds nothing. -/
theorem mem_inOrder {entries : List Entry} {entry : Entry} :
    entry ∈ inOrder (elements entries) (pairs entries) ↔ entry ∈ entries := by
  rcases entry with element | ⟨key, value⟩
  · rw [← mem_elements, elements_inOrder, mem_elements]
  · rw [← mem_pairs, pairs_inOrder, mem_pairs]

theorem map_pieces_inOrder (es : List Node) (ps : List (Node × Node)) :
    (inOrder es ps).map pieces = nodesPieces es ++ pairsPieces ps := by
  rw [nodesPieces_eq_map, pairsPieces_eq_map, inOrder, List.map_append, List.map_map, List.map_map]
  rfl

/-- Entries that differ in their positions make tables that differ in theirs. -/
theorem erase_table {entries entries' : List Entry}
    (h : entries.map erase = entries'.map erase) (pos pos' : Nat) :
    (Node.table pos (elements entries) (pairs entries)).erase =
      (Node.table pos' (elements entries') (pairs entries')).erase := by
  rw [Node.erase, Node.erase, eraseNodes_eq_map, eraseNodes_eq_map, erasePairs_eq_map,
    erasePairs_eq_map, ← elements_map_erase, ← elements_map_erase, ← pairs_map_erase,
    ← pairs_map_erase, h]

/-- The nodes of its entries are children of a table. -/
theorem mem_children {entries : List Entry} {entry : Entry} {node : Node} (hentry : entry ∈ entries)
    (hnode : node ∈ entry.nodes) (pos : Nat) :
    node ∈ (Node.table pos (elements entries) (pairs entries)).children := by
  rw [Node.children, List.mem_append]
  rcases entry with element | ⟨key, value⟩
  · obtain rfl := List.mem_singleton.1 hnode
    exact .inl (mem_elements.2 hentry)
  · exact .inr (List.mem_flatMap.2 ⟨(key, value), mem_pairs.2 hentry, hnode⟩)

/-- What may follow what in a table. -/
def MayFollow (entry next : Entry) : Prop :=
  (entry.isAlone && next.opensWithEquals) = false

theorem isChain_inOrder {es : List Node} {ps : List (Node × Node)} (h : Separable es ps) :
    (inOrder es ps).IsChain MayFollow := by
  obtain ⟨htail, hhead⟩ := h
  have helements : (es.map alone).IsChain MayFollow := by
    rcases es with _ | ⟨first, es⟩
    · exact .nil
    · refine (List.isChain_map _).2 ?_
      induction es generalizing first with
      | nil => exact .singleton _
      | cons second es ih =>
        obtain ⟨hsecond, hrest⟩ := List.forall_mem_cons.1 htail
        exact .cons_cons hsecond (ih second hrest fun _ ↦ hhead (List.cons_ne_nil _ _))
  have hpairs : (ps.map fun (key, value) ↦ pair key value).IsChain MayFollow := by
    clear hhead
    induction ps with
    | nil => exact .nil
    | cons first ps ih => exact List.isChain_cons.2 ⟨fun _ _ ↦ rfl, ih⟩
  -- what is left is the one place where a pair follows an element
  refine helements.append hpairs fun last hlast next hnext ↦ ?_
  obtain ⟨pair, hpair, rfl⟩ : ∃ pair ∈ ps.head?, Entry.pair pair.1 pair.2 = next := by
    simpa using hnext
  have hne : es ≠ [] := by
    rintro rfl
    cases hlast
  rw [MayFollow, opensWithEquals, hhead hne pair hpair, Bool.and_false]

end Entry

/-! ### How rows open -/

theorem Token.isEquals_of_kind {token : Token} (h : token.kind ≠ .bare) :
    token.isEquals = false := by
  simp [Token.isEquals, h]

/-- A literal that is spelled `=` is bare: no delimiters fit in. -/
theorem Token.isEquals_eq_of_decode {token : Token} {text : String}
    (htext : token.decode = .ok text) :
    token.isEquals = decide (token.text = "=") := by
  have hsingle : Literal.SingleQuoted.split? "=" = none := by decide
  have hdouble : Literal.DoubleQuoted.inner? "=" = none := by decide
  have hbare (hequals : token.text = "=") : token.kind = .bare := by
    rw [Token.decode, hequals] at htext
    split at htext
    case h_1 hbare => exact hbare
    case h_2 =>
      rw [Literal.SingleQuoted.decode, hsingle] at htext
      cases htext
    case h_3 =>
      rw [Literal.DoubleQuoted.decode, hdouble] at htext
      cases htext
    case h_4 => cases htext
  by_cases hequals : token.text = "="
  · simp [Token.isEquals, hbare hequals, hequals]
  · simp [Token.isEquals, hequals]

theorem opensWithEquals_append {front : List Token} (h : front ≠ []) (back : List Token) :
    opensWithEquals (front ++ back) = opensWithEquals front := by
  rcases front with _ | ⟨token, front⟩
  · exact absurd rfl h
  · rfl

namespace Grammar

variable {depth : Nat} {key : Bool} {join : Join} {tokens : List Token} {node : Node}
  {entry : Entry}

/-- A row opens with a bare `=` if and only if the factor that it is read as is one. -/
theorem Factor.opensWithEquals_eq (h : Factor depth join tokens node) :
    opensWithEquals tokens = node.isEqualsFactor := by
  obtain ⟨hdollars, hprimary⟩ := h
  rename_i dollars _ _
  rcases dollars with _ | ⟨dollar, dollars⟩
  · rcases hprimary with ⟨-, htext⟩ | hleft | hleft | hleft
    · exact (Token.isEquals_eq_of_decode htext).trans (by simp [Node.isEqualsFactor])
    all_goals exact Token.isEquals_of_kind (by simp [hleft])
  · have hkind := (OfKind.cons_iff.1 hdollars).1
    have hequals : dollar.isEquals = false := Token.isEquals_of_kind (by simp [hkind])
    refine hequals.trans ?_
    rcases hprimary with _ | _ | _ | _ <;> simp [Node.isEqualsFactor]

theorem Term.opensWithEquals_eq {factors : List Node} (pos : Nat)
    (h : Term depth key tokens factors) :
    opensWithEquals tokens = (Node.list ⟨pos, .term, factors⟩).opensWithEquals := by
  obtain ⟨own, back, factor, rest, hfactor, rfl, rfl⟩ := h.exists_first
  rw [opensWithEquals_append hfactor.opensFactor.ne_nil]
  exact hfactor.opensWithEquals_eq

theorem Element.opensWithEquals_eq (h : Element depth tokens entry) :
    opensWithEquals tokens = entry.opensWithEquals := by
  rcases h with hkey | hkey
  · exact hkey.opensWithEquals_eq _
  · exact (opensWithEquals_append hkey.opensFactor.ne_nil _).trans (hkey.opensWithEquals_eq _)

/-! ### Lists of pieces -/

/-- Whatever spells the term derives it, up to positions. -/
def Respells (depth : Nat) (key : Bool) (term : Node) : Prop :=
  ∀ row, Spelled term.pieces row →
    ∃ factors, Term depth key row factors ∧
      (Node.list ⟨origin row, .term, factors⟩).erase = term.erase

/-- Whatever spells the entry derives it, up to positions. -/
def EntryRespells (depth : Nat) (entry : Entry) : Prop :=
  ∀ row, Spelled entry.pieces row →
    ∃ entry', Element depth row entry' ∧ entry'.erase = entry.erase

/-- A term respells if its factors do, one behind the other. -/
theorem respells_of_factors {pos : Nat} {factors : List Node}
    (h : ∀ row, Spelled (factors.flatMap Node.pieces) row →
      ∃ factors', Term depth key row factors' ∧
        factors'.map Node.erase = factors.map Node.erase) :
    Respells depth key (.list ⟨pos, .term, factors⟩) := by
  intro row hrow
  obtain ⟨factors', hterm, herase⟩ := h row (@Spelled.factors pos _ _ hrow)
  refine ⟨factors', hterm, ?_⟩
  rw [Node.erase, Node.erase, Sequence.erase_mk, Sequence.erase_mk, herase]

/-- Terms with a blank between each two are terms. -/
theorem terms_of_respells {terms : List Node} (hne : terms ≠ [])
    (h : ∀ term ∈ terms, Respells depth false term) {row : List Token}
    (hrow : Spelled ([Piece.blank].intercalate (terms.map Node.pieces)) row) :
    ∃ terms', Terms depth row terms' ∧ terms'.map Node.erase = terms.map Node.erase := by
  induction terms using List.reverseRecOn generalizing row with
  | nil => exact absurd rfl hne
  | append_singleton terms term ih =>
    obtain ⟨hterms, hterm⟩ := List.forall_mem_append.1 h
    have hterm := List.forall_mem_singleton.1 hterm
    by_cases hnil : terms = []
    · subst hnil
      obtain ⟨factors, hfactors, herase⟩ := hterm row (by simpa using hrow)
      exact ⟨_, .first hfactors, by simp [herase]⟩
    · rw [List.map_append, List.map_singleton] at hrow
      obtain ⟨front, between, back, hfront, hbetween, hback, rfl⟩ :=
        hrow.intercalate_concat (mt List.map_eq_nil_iff.1 hnil)
      obtain ⟨terms', hterms', herase'⟩ := ih hnil hterms hfront
      obtain ⟨factors, hfactors, herase⟩ := hterm back hback
      obtain ⟨hblanks, hne⟩ := hbetween.blank
      exact ⟨_, hterms'.next hblanks hne hfactors, by simp [herase', herase]⟩

/-- Entries with a blank between each two are elements of a table, if each of them may follow
the one in front of it. -/
theorem elements_of_respells {entries : List Entry} (hne : entries ≠ [])
    (hchain : entries.IsChain Entry.MayFollow)
    (h : ∀ entry ∈ entries, EntryRespells depth entry) {row : List Token}
    (hrow : Spelled ([Piece.blank].intercalate (entries.map Entry.pieces)) row) :
    ∃ entries', Elements depth row entries' ∧
      entries'.map Entry.erase = entries.map Entry.erase := by
  induction entries using List.reverseRecOn generalizing row with
  | nil => exact absurd rfl hne
  | append_singleton entries entry ih =>
    obtain ⟨hentries, hentry⟩ := List.forall_mem_append.1 h
    have hentry := List.forall_mem_singleton.1 hentry
    rcases List.eq_nil_or_concat entries with rfl | ⟨init, last, rfl⟩
    · obtain ⟨entry', helement, herase⟩ := hentry row (by simpa using hrow)
      exact ⟨_, .first helement, by simp [herase]⟩
    · rw [List.map_append, List.map_singleton] at hrow
      obtain ⟨front, between, back, hfront, hbetween, hback, rfl⟩ :=
        hrow.intercalate_concat (by simp)
      obtain ⟨entries', helements, herase'⟩ :=
        ih (by simp) hchain.left_of_append hentries hfront
      obtain ⟨entry', helement, herase⟩ := hentry back hback
      obtain ⟨hblanks, hne⟩ := hbetween.blank
      obtain ⟨init', last', rfl, hinit, hlast⟩ :
          ∃ init' last', entries' = init' ++ [last'] ∧
            init'.map Entry.erase = init.map Entry.erase ∧ last'.erase = last.erase := by
        rw [List.map_concat, List.concat_eq_append, List.map_eq_append_iff] at herase'
        obtain ⟨init', lasts, rfl, hinit, hlasts⟩ := herase'
        obtain ⟨last', rfl, hlast⟩ := List.map_eq_singleton_iff.1 hlasts
        exact ⟨init', last', rfl, hinit, hlast⟩
      have hfollow : (last'.isAlone && opensWithEquals back) = false := by
        rw [helement.opensWithEquals_eq, ← entry'.opensWithEquals_erase, herase,
          ← last'.isAlone_erase, hlast, entry.opensWithEquals_erase, last.isAlone_erase]
        exact (List.isChain_append.1 hchain).2.2 last (by simp) entry (by simp)
      exact ⟨_, helements.next hblanks hne helement hfollow, by simp [hinit, hlast, herase]⟩

end Grammar

end PipelineSyntax
