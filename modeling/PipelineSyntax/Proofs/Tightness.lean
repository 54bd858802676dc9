import PipelineSyntax.Proofs.Respelling
import PipelineSyntax.Proofs.Spending

/-!
# What is read without looking across blanks can be told apart

The canonical spelling of a tree is followed with the machine. As long as no blank is looked
across (`Tight`), it is read piece by piece as it was spelled, and so all tables that it passes
are `Separable`: where an element that stands alone is followed by a bare `=`, the machine would
look across the blank between them.

Each piece is followed from the state in which it begins, given that those in front of it have
been read as they were spelled. What has been read so is derived anew (`Term.respell` and the
like), and the derivation leads the machine to the next piece (`Term.leads` and the like).
-/

open PipelineSyntax.Parser

namespace PipelineSyntax

namespace Parser

/-! ### Tight rows -/

theorem Tight.after {limit : Nat} {state next : State} {front back : List Token}
    (h : Tight limit state (front ++ back)) (hsteps : Steps limit state front next) :
    Tight limit next back := by
  intro front' token back' last hback hsteps'
  exact h (front ++ front') token back' last (by rw [hback, List.append_assoc])
    (hsteps.append hsteps')

/-- No blank is looked across in the row. The hint, which plays no part in that, is left out
of account. -/
def Tidy (limit : Nat) (state : State) (row : List Token) : Prop :=
  ∃ hint, Tight limit { state with hint } row

namespace Tidy

variable {limit : Nat} {state last : State} {line line' : OpenLine} {stack stack' : List Bracket}
  {expect : Expect} {place : Place} {term : OpenTerm} {token : Token}
  {front back tokens : List Token}

theorem after (h : Tidy limit state (front ++ back)) (hleads : Leads limit state front last) :
    Tidy limit last back := by
  obtain ⟨hint, htight⟩ := h
  obtain ⟨hint', hsteps⟩ := hleads hint
  exact ⟨hint', htight.after hsteps⟩

theorem skip (h : Tidy limit state (token :: back)) (hleads : Leads limit state [token] last) :
    Tidy limit last back :=
  @after _ _ _ [token] _ h hleads

theorem tail {expect' : Expect} (h : Tidy limit ⟨line, stack, expect, none⟩ (token :: back))
    (hstep : ∀ hint, State.step limit ⟨line, stack, expect, hint⟩ token =
      .ok (.more ⟨line', stack', expect', hint⟩)) :
    Tidy limit ⟨line', stack', expect', none⟩ back :=
  h.skip (.single hstep)

/-- What begins with a factor is tight where the factor begins. -/
theorem begin (h : Tidy limit ⟨line, stack, expect, none⟩ (tokens ++ back))
    (hopens : OpensFactor tokens)
    (hfirst : ∀ hint first, first.kind.startsFactor = true → origin tokens = first.offset →
      opensWithEquals tokens = first.isEquals →
        State.step limit ⟨line, stack, expect, hint⟩ first =
          State.step limit ⟨line', stack', .primary place, hint⟩ first) :
    Tidy limit ⟨line', stack', .primary place, none⟩ (tokens ++ back) := by
  obtain ⟨hint, htight⟩ := h
  obtain ⟨first, rest, rfl, hstarts⟩ := hopens
  refine ⟨hint, .cons rfl fun next hstep ↦ ?_⟩
  rw [← hfirst hint first hstarts rfl rfl] at hstep
  exact @Tight.after _ _ _ [first] _ htight (.single hstep)

/-- Behind the blank that follows a term that could be a key there is no bare `=`. -/
theorem isEquals_eq_false
    (h : Tidy limit ⟨line, stack, .more term true, none⟩ (tokens ++ back))
    (hopens : OpensFactor tokens) (hkey : State.atKey ⟨line, stack, .term, none⟩ = true) :
    opensWithEquals tokens = false := by
  obtain ⟨hint, htight⟩ := h
  obtain ⟨first, rest, rfl, hstarts⟩ := hopens
  have hfirst : (State.atKey ⟨line, stack, .more term true, hint⟩ && first.isEquals) = false :=
    htight [] first (rest ++ back) _ rfl (.nil _)
  have hkey : State.atKey ⟨line, stack, .more term true, hint⟩ = true := hkey
  rwa [hkey, Bool.true_and] at hfirst

end Tidy

end Parser

namespace Grammar

variable {limit depth : Nat} {row back tokens : List Token}

/-! ### How spellings open -/

/-- What spells a primary opens with a bare `=` if and only if the primary is one. -/
theorem Primary.opens {node : Node} (h : Primary depth tokens node)
    (hrow : Spelled (primaryPieces node.isList node.pieces) row) (pos : Nat) (join : Join) :
    OpensFactor row ∧ opensWithEquals row = (Node.factor pos 0 join node).isEqualsFactor := by
  rcases h with @⟨_, literal, text, -, -⟩ | - | - | -
  · obtain ⟨token, rfl, hkind, htext, hdecode⟩ := hrow.singleton
    refine ⟨⟨token, [], rfl, Token.Kind.startsFactor_of_isLiteral hkind⟩, ?_⟩
    refine (Token.isEquals_eq_of_decode hdecode).trans ?_
    rw [htext]
    rfl
  all_goals
    obtain ⟨left, middle, right, rfl, hleft, -⟩ := hrow.brackets
    have hequals : left.isEquals = false :=
      Token.isEquals_of_kind (by simp [hleft, Token.Mark.kind])
    exact ⟨⟨left, _, rfl, by rw [hleft]; rfl⟩, hequals⟩

/-- What spells a factor behind the factors in front of it opens with a bare `=` if and only if
the factor is one. -/
theorem Factor.opens {join : Join} {pos dollars : Nat} {node : Node}
    (h : Factor depth join tokens (.factor pos dollars join node))
    (hrow : Spelled (dollarPieces dollars ++ primaryPieces node.isList node.pieces) row) :
    OpensFactor row ∧
      opensWithEquals row = (Node.factor pos dollars join node).isEqualsFactor := by
  obtain ⟨-, hprimary⟩ := h
  obtain ⟨front, inner, hfront, hinner, rfl⟩ := Spelled.append_iff.1 hrow
  obtain ⟨hdollars, hlength⟩ := hfront.dollars
  rcases front with _ | ⟨dollar, front⟩
  · rw [← hlength]
    exact hprimary.opens hinner _ _
  · obtain ⟨hkind, -⟩ := OfKind.cons_iff.1 hdollars
    have hequals : dollar.isEquals = false := Token.isEquals_of_kind (by simp [hkind])
    refine ⟨⟨dollar, _, rfl, by rw [hkind]; rfl⟩, hequals.trans ?_⟩
    rw [← hlength]
    cases node <;> rfl

theorem Term.opens {key : Bool} {factors : List Node} (h : Term depth key tokens factors)
    (hrow : Spelled (factors.flatMap Node.pieces) row) (pos : Nat) :
    OpensFactor row ∧
      opensWithEquals row = (Node.list ⟨pos, .term, factors⟩).opensWithEquals := by
  obtain ⟨_, _, factor, rest, hfactor, -, rfl⟩ := h.exists_first
  rw [List.flatMap_cons] at hrow
  obtain ⟨own, back, hown, -, rfl⟩ := Spelled.append_iff.1 hrow
  obtain ⟨pos, dollars, node, rfl⟩ : ∃ pos dollars node,
      factor = .factor pos dollars .start node := by
    rcases hfactor with ⟨-, -⟩
    exact ⟨_, _, _, rfl⟩
  obtain ⟨hopens, hequals⟩ := hfactor.opens hown
  exact ⟨hopens.append back, by rw [opensWithEquals_append hopens.ne_nil, hequals]; rfl⟩

theorem Terms.opens {tokens row : List Token} {terms : List Node}
    (h : Terms depth tokens terms)
    (hrow : Spelled ([Piece.blank].intercalate (terms.map Node.pieces)) row) :
    OpensFactor row := by
  match h with
  | .first hterm =>
    rw [List.map_singleton, List.intercalate_singleton] at hrow
    exact (hterm.opens (@Spelled.factors 0 _ _ hrow) 0).1
  | .next hfront _ _ _ =>
    rw [List.map_append, List.map_singleton] at hrow
    obtain ⟨front, between, last, hfront', -, -, rfl⟩ :=
      hrow.intercalate_concat (mt List.map_eq_nil_iff.1 hfront.ne_nil)
    exact (hfront.opens hfront').append _

theorem Element.opens {entry : Entry} (h : Element depth tokens entry)
    (hrow : Spelled entry.pieces row) :
    OpensFactor row ∧ opensWithEquals row = entry.opensWithEquals := by
  rcases h with hkey | hkey
  · exact hkey.opens (@Spelled.factors 0 _ _ hrow) _
  · obtain ⟨front, back, hfront, -, rfl⟩ := Spelled.append_iff.1 hrow
    obtain ⟨hopens, hequals⟩ := hkey.opens (@Spelled.factors 0 _ _ hfront) (origin _)
    exact ⟨hopens.append back, (opensWithEquals_append hopens.ne_nil _).trans hequals⟩

/-- What spells several pieces opens as the first of them. -/
theorem opensFactor_of_intercalate {α : Type} {spell : α → List Piece} {items : List α}
    (hne : items ≠ []) (h : ∀ item ∈ items, ∀ row, Spelled (spell item) row → OpensFactor row)
    (hrow : Spelled ([Piece.blank].intercalate (items.map spell)) row) : OpensFactor row := by
  rcases items with _ | ⟨first, _ | ⟨second, items⟩⟩
  · exact absurd rfl hne
  · rw [List.map_singleton, List.intercalate_singleton] at hrow
    exact h first (List.mem_singleton_self _) row hrow
  · rw [List.map_cons, List.map_cons, List.intercalate_cons_cons, List.append_assoc] at hrow
    obtain ⟨front, back, hfront, -, rfl⟩ := Spelled.append_iff.1 hrow
    exact (h first List.mem_cons_self front hfront).append back

/-! ### Entries in the order of their spelling -/

/-- Whatever spells the entry shows that its tables are separable, if no blank is looked
across. -/
def EntryTidies (limit depth : Nat) (entry : Entry) : Prop :=
  ∀ ⦃line stack place table row back⦄, Spelled entry.pieces row →
    stack.length + (depth + 1) ≤ limit →
    Tidy limit ⟨line, ⟨place, .table table none⟩ :: stack, .primary (.start (origin row)), none⟩
      (row ++ back) →
    ∀ node ∈ entry.nodes, node.AllSeparable

/-- Entries that are spelled one behind the other, in whatever order, are told apart if no blank
is looked across. -/
theorem entries_of_tidy {entries : List Entry} (hne : entries ≠ [])
    (helement : ∀ entry ∈ entries, ∃ own, Element depth own entry)
    (htidies : ∀ entry ∈ entries, EntryTidies limit depth entry) {line : OpenLine}
    {stack : List Bracket} {place : Place} {table : OpenTable}
    (hroom : stack.length + (depth + 1) ≤ limit)
    (hrow : Spelled ([Piece.blank].intercalate (entries.map Entry.pieces)) row)
    (htidy : Tidy limit
      ⟨line, ⟨place, .table table none⟩ :: stack, .primary (.start (origin row)), none⟩
      (row ++ back)) :
    entries.IsChain Entry.MayFollow ∧
      ∀ entry ∈ entries, ∀ node ∈ entry.nodes, node.AllSeparable := by
  induction entries using List.reverseRecOn generalizing row back with
  | nil => exact absurd rfl hne
  | append_singleton entries entry ih =>
    obtain ⟨helements, hentry⟩ := List.forall_mem_append.1 helement
    obtain ⟨hinit, hlast⟩ := List.forall_mem_append.1 htidies
    obtain ⟨own, hentry⟩ := List.forall_mem_singleton.1 hentry
    have hlast := List.forall_mem_singleton.1 hlast
    by_cases hnil : entries = []
    · subst hnil
      have hrow : Spelled entry.pieces row := by simpa using hrow
      exact ⟨.singleton _, List.forall_mem_singleton.2 (hlast hrow hroom htidy)⟩
    · rw [List.map_append, List.map_singleton] at hrow
      obtain ⟨front, between, last, hfront, hbetween, hspelled, rfl⟩ :=
        hrow.intercalate_concat (mt List.map_eq_nil_iff.1 hnil)
      have hopens : OpensFactor front := opensFactor_of_intercalate hnil
        (fun entry hmem row hrow ↦ (helements entry hmem).elim fun _ h ↦ (h.opens hrow).1) hfront
      rw [origin_append hopens.ne_nil, List.append_assoc, List.append_assoc] at htidy
      obtain ⟨hchain, hseparable⟩ := ih hnil helements hinit hfront htidy
      -- what has been read so far has been read as it was spelled
      obtain ⟨entries', hderived, herase⟩ := elements_of_respells hnil hchain
        (fun entry hmem ↦ (helements entry hmem).elim fun _ h ↦ h.respells (hseparable entry hmem))
        hfront
      obtain ⟨init, last', contents, term, hentries, hpending, hleads⟩ :=
        hderived.leads line stack place table hroom
      obtain ⟨hblanks, hne⟩ := hbetween.blank
      have hbehind := (htidy.after hleads).after (leads_separator hblanks hne)
      obtain ⟨hopens', hequals⟩ := hentry.opens hspelled
      -- a bare `=` behind an element that stands alone would be looked across to
      have hfollow : (last'.isAlone && opensWithEquals last) = false := by
        rcases hpending with hclose | hclose
        · exact hbehind.isEquals_eq_false hopens' rfl
        · rfl
      have hbegin := hbehind.begin hopens' fun hint first hstarts horigin hfirst ↦
        horigin ▸ hpending.step_factor hstarts (hfirst ▸ hfollow)
      refine ⟨hchain.append (.singleton _) fun before hbefore next hnext ↦ ?_,
        List.forall_mem_append.2
          ⟨hseparable, List.forall_mem_singleton.2 (hlast hspelled hroom hbegin)⟩⟩
      obtain rfl : entry = next := by simpa using hnext
      have hsame : before.erase = last'.erase := by
        have hlasts := congrArg List.getLast? herase
        rw [hentries, List.getLast?_map, List.getLast?_map, List.getLast?_concat,
          Option.mem_def.1 hbefore] at hlasts
        exact (Option.some.inj hlasts).symm
      rw [Entry.MayFollow, ← hequals, ← before.isAlone_erase, hsame, last'.isAlone_erase]
      exact hfollow

/-- Entries that may follow one another, elements in front of pairs, are those of a table that
is separable. -/
theorem separable_of_isChain {elements : List Node} {pairs : List (Node × Node)}
    (h : (Entry.inOrder elements pairs).IsChain Entry.MayFollow) :
    Separable elements pairs := by
  obtain ⟨helements, -, hborder⟩ := List.isChain_append.1 h
  constructor
  · clear hborder h
    rcases elements with _ | ⟨first, elements⟩
    · exact fun _ hmem ↦ absurd hmem List.not_mem_nil
    · induction elements generalizing first with
      | nil => exact fun _ hmem ↦ absurd hmem List.not_mem_nil
      | cons second elements ih =>
        obtain ⟨hsecond, hrest⟩ := List.isChain_cons_cons.1 helements
        exact List.forall_mem_cons.2 ⟨hsecond, ih second hrest⟩
  · intro hne pair hpair
    obtain ⟨init, last, rfl⟩ := (List.eq_nil_or_concat elements).resolve_left hne
    refine hborder (.alone last) ?_ (.pair pair.1 pair.2) ?_
    · rw [List.map_concat, List.concat_eq_append]
      exact List.getLast?_concat
    · rw [List.head?_map, Option.mem_def.1 hpair]
      rfl

/-! ### Inside brackets -/

mutual

theorem Primary.tidy {depth : Nat} {tokens : List Token} {node : Node}
    (h : Primary depth tokens node) {row : List Token}
    (hrow : Spelled (primaryPieces node.isList node.pieces) row) {line : OpenLine}
    {stack : List Bracket} {place : Place} (hroom : stack.length + depth ≤ limit)
    {back : List Token} (htidy : Tidy limit ⟨line, stack, .primary place, none⟩ (row ++ back)) :
    node.AllSeparable := by
  match h with
  | .literal _ _ => exact Node.allSeparable_string
  | .group _ _ hinner _ _ =>
    obtain ⟨left, middle, right, rfl, hleft, hmiddle, -⟩ := hrow.brackets
    have hlt : stack.length < limit := by omega
    have hspelled := Spelled.sequence hmiddle
    rw [List.cons_append, List.append_assoc] at htidy
    have hinside := htidy.tail fun hint ↦ step_leftParen hleft hlt
    have hbegin := hinside.begin (hinner.opens hspelled) fun hint first hstarts horigin _ ↦
      horigin ▸ step_term_factor hstarts
    exact Node.allSeparable_list.2
      (hinner.tidy hspelled (collects_group line stack place hroom) hbegin)
  | .emptyTable _ _ _ => simp [Separable]
  | @Primary.table _ _ _ _ _ _ entries _ _ hinner _ _ =>
    obtain ⟨left, middle, right, rfl, hleft, hmiddle, -⟩ := hrow.brackets
    have hlt : stack.length < limit := by omega
    rw [List.cons_append, List.append_assoc] at htidy
    have hinside := htidy.tail fun hint ↦ step_leftBracket hleft hlt
    rw [← Entry.map_pieces_inOrder] at hmiddle
    have hentries {entry : Entry} (hmem : entry ∈ Entry.inOrder (Entry.elements entries)
        (Entry.pairs entries)) : entry ∈ entries := Entry.mem_inOrder.1 hmem
    obtain ⟨entry, hentry⟩ := List.exists_mem_of_ne_nil _ hinner.ne_nil
    have hne := List.ne_nil_of_mem (Entry.mem_inOrder.2 hentry)
    have hopens := opensFactor_of_intercalate hne (fun entry hmem row hrow ↦
      (hinner.exists_element entry (hentries hmem)).elim fun _ h ↦ (h.opens hrow).1) hmiddle
    have hbegin := hinside.begin hopens fun hint first hstarts horigin _ ↦
      horigin ▸ step_table_factor hstarts
    obtain ⟨hchain, hseparable⟩ := entries_of_tidy hne
      (fun entry hmem ↦ hinner.exists_element entry (hentries hmem))
      (fun entry hmem ↦ hinner.tidies entry (hentries hmem)) hroom hmiddle hbegin
    refine Node.allSeparable_table.2 ⟨separable_of_isChain hchain, fun element hmem ↦ ?_,
      fun pair hmem ↦ ?_⟩
    · have hmem := Entry.mem_inOrder.2 (Entry.mem_elements.1 hmem)
      exact hseparable _ hmem element (List.mem_singleton_self _)
    · have hmem := Entry.mem_inOrder.2 (Entry.mem_pairs.1 hmem)
      exact ⟨hseparable _ hmem _ List.mem_cons_self, hseparable _ hmem _ (by simp [Entry.nodes])⟩

theorem Factor.tidy {depth : Nat} {join : Join} {tokens : List Token} {factor : Node}
    (h : Factor depth join tokens factor) {row : List Token} (hrow : Spelled factor.pieces row) :
    ∃ joint own, row = joint ++ own ∧ Spelled join.pieces joint ∧ OpensFactor own ∧
      opensWithEquals own = factor.isEqualsFactor ∧
      ∀ (line : OpenLine) (stack : List Bracket) (term : OpenTerm) (back : List Token),
        stack.length + depth ≤ limit →
        Tidy limit ⟨line, stack, .primary { term, pos := origin own, join }, none⟩ (own ++ back) →
        factor.AllSeparable := by
  match h with
  | .primary hdollars hprimary =>
    obtain ⟨joint, own, hjoint, hown, rfl⟩ := Spelled.append_iff.1 hrow
    obtain ⟨hopens, hequals⟩ := (@Factor.primary depth join _ _ _ hdollars hprimary).opens hown
    refine ⟨joint, own, rfl, hjoint, hopens, hequals, fun line stack term back hroom htidy ↦ ?_⟩
    obtain ⟨front, inner, hfront, hinner, rfl⟩ := Spelled.append_iff.1 hown
    rw [List.append_assoc] at htidy
    exact Node.allSeparable_factor.2
      (hprimary.tidy hinner hroom (htidy.after (leads_dollars hfront.dollars.1)))

theorem Term.tidy {depth : Nat} {key : Bool} {tokens : List Token} {factors : List Node}
    (h : Term depth key tokens factors) {row : List Token}
    (hrow : Spelled (factors.flatMap Node.pieces) row) {line : OpenLine} {stack : List Bracket}
    (hroom : stack.length + depth ≤ limit)
    (hkey : State.atKey ⟨line, stack, .term, none⟩ = true → key = true) {back : List Token}
    (htidy : Tidy limit ⟨line, stack, .primary (.start (origin row)), none⟩ (row ++ back)) :
    ∀ factor ∈ factors, factor.AllSeparable := by
  match h with
  | .first hfactor =>
    rw [List.flatMap_singleton] at hrow
    obtain ⟨joint, own, rfl, hjoint, -, -, hlast⟩ := hfactor.tidy hrow
    obtain rfl := Spelled.nil_iff.1 hjoint
    exact List.forall_mem_singleton.2 (hlast line stack { pos := origin own } back hroom htidy)
  | .adjacent hfront hfactor hequals =>
    rw [List.flatMap_append, List.flatMap_singleton] at hrow
    obtain ⟨front, own, hfront', hown, rfl⟩ := Spelled.append_iff.1 hrow
    rw [origin_append (hfront.opens hfront' 0).1.ne_nil, List.append_assoc] at htidy
    have hfactors := hfront.tidy hfront' hroom hkey htidy
    obtain ⟨factors', hterm, -⟩ := hfront.respell hfactors hfront'
    obtain ⟨joint, own, rfl, hjoint, hopens, hequals', hlast⟩ := hfactor.tidy hown
    obtain rfl := Spelled.nil_iff.1 hjoint
    rw [List.nil_append] at htidy
    refine List.forall_mem_append.2 ⟨hfactors, List.forall_mem_singleton.2
      (hlast line stack ⟨origin front, factors'.reverse⟩ back hroom ?_)⟩
    refine (htidy.after (hterm.leads line stack hroom hkey)).begin hopens
      fun hint first hstarts horigin hfirst ↦ ?_
    have hnoKey : (State.atKey ⟨line, stack, .term, none⟩ && first.isEquals) = false := by
      rw [hfactor.opensWithEquals_eq, ← hequals', hfirst] at hequals
      revert hkey hequals
      cases key <;> cases first.isEquals <;> simp
    exact horigin ▸ step_adjacent_factor hstarts hnoKey
  | .caret hfront _ _ _ hfactor =>
    rw [List.flatMap_append, List.flatMap_singleton] at hrow
    obtain ⟨front, own, hfront', hown, rfl⟩ := Spelled.append_iff.1 hrow
    rw [origin_append (hfront.opens hfront' 0).1.ne_nil, List.append_assoc] at htidy
    have hfactors := hfront.tidy hfront' hroom hkey htidy
    obtain ⟨factors', hterm, -⟩ := hfront.respell hfactors hfront'
    obtain ⟨joint, own, rfl, hjoint, hopens, -, hlast⟩ := hfactor.tidy hown
    obtain ⟨caret, rfl, hcaret⟩ := Spelled.singleton hjoint
    have hbehind := (htidy.after (hterm.leads line stack hroom hkey)).tail
      fun hint ↦ step_more_caret hcaret.1
    have hbegin := hbehind.begin hopens
      fun hint first hstarts horigin _ ↦ horigin ▸ step_joined_factor hstarts
    exact List.forall_mem_append.2 ⟨hfactors, List.forall_mem_singleton.2
      (hlast line stack ⟨origin front, factors'.reverse⟩ back hroom hbegin)⟩

theorem Terms.tidy {depth : Nat} {tokens : List Token} {terms : List Node}
    (h : Terms depth tokens terms) {row : List Token}
    (hrow : Spelled ([Piece.blank].intercalate (terms.map Node.pieces)) row)
    {hold : List Node → State} (hhold : Collects limit depth hold) {back : List Token}
    (htidy : Tidy limit
      ⟨(hold []).line, (hold []).stack, .primary (.start (origin row)), none⟩ (row ++ back)) :
    ∀ term ∈ terms, term.AllSeparable := by
  have hkey (latest : List Node) :
      State.atKey ⟨(hold latest).line, (hold latest).stack, .term, none⟩ = true → false = true :=
    fun h ↦ (hhold.noKey latest).symm.trans h
  match h with
  | .first hterm =>
    rw [List.map_singleton, List.intercalate_singleton] at hrow
    exact List.forall_mem_singleton.2 (Node.allSeparable_list.2
      (hterm.tidy (@Spelled.factors 0 _ _ hrow) (hhold.room _) (hkey _) htidy))
  | .next hfront _ _ hterm =>
    rw [List.map_append, List.map_singleton] at hrow
    obtain ⟨front, between, last, hfront', hbetween, hlast, rfl⟩ :=
      hrow.intercalate_concat (mt List.map_eq_nil_iff.1 hfront.ne_nil)
    have hlast := @Spelled.factors 0 _ _ hlast
    rw [origin_append (hfront.opens hfront').ne_nil, List.append_assoc, List.append_assoc] at htidy
    have hterms := hfront.tidy hfront' hhold htidy
    obtain ⟨terms', hderived, -⟩ :=
      terms_of_respells hfront.ne_nil (hfront.respells hterms) hfront'
    obtain ⟨latest, term, -, hleads⟩ := hderived.leads hhold
    obtain ⟨hblanks, hne⟩ := hbetween.blank
    have hbehind := (htidy.after hleads).after (leads_separator hblanks hne)
    have hbegin := hbehind.begin (hterm.opens hlast 0).1
      fun hint first hstarts horigin _ ↦ horigin ▸ hhold.next latest term hint first hstarts
    exact List.forall_mem_append.2 ⟨hterms, List.forall_mem_singleton.2 (Node.allSeparable_list.2
      (hterm.tidy hlast (hhold.room _) (hkey _) hbegin))⟩

theorem Element.tidies {depth : Nat} {tokens : List Token} {entry : Entry}
    (h : Element depth tokens entry) : EntryTidies limit depth entry := by
  intro line stack place table row back hrow hroom htidy
  have hroom (contents : Contents) : (⟨place, contents⟩ :: stack : List Bracket).length + depth ≤
      limit := by
    rw [List.length_cons]
    omega
  match h with
  | .alone hkey =>
    exact List.forall_mem_singleton.2 (Node.allSeparable_list.2
      (hkey.tidy (@Spelled.factors 0 _ _ hrow) (hroom _) (fun _ ↦ rfl) htidy))
  | .pair hkey _ _ _ hvalue =>
    obtain ⟨front, rest, hfront, hrest, rfl⟩ := Spelled.append_iff.1 hrow
    obtain ⟨equals, last, hequals, hlast, rfl⟩ := Spelled.cons_iff.1 hrest
    have hfront := @Spelled.factors 0 _ _ hfront
    have hlast := @Spelled.factors 0 _ _ hlast
    rw [origin_append (hkey.opens hfront 0).1.ne_nil, List.append_assoc] at htidy
    have hkeys := hkey.tidy hfront (hroom _) (fun _ ↦ rfl) htidy
    obtain ⟨keys', hderived, -⟩ := hkey.respell hkeys hfront
    have htoken : equals.isEquals = true := by simp [Token.isEquals, hequals.1, hequals.2]
    have hbehind := (htidy.after (hderived.leads line _ (hroom _) fun _ ↦ rfl)).tail
      fun hint ↦ step_key_equals htoken rfl
    have hbegin := hbehind.begin (hvalue.opens hlast 0).1
      fun hint first hstarts horigin _ ↦ horigin ▸ step_term_factor hstarts
    have hvalues := hvalue.tidy hlast (hroom (.table table (some _))) nofun hbegin
    exact List.forall_mem_cons.2 ⟨Node.allSeparable_list.2 hkeys,
      List.forall_mem_singleton.2 (Node.allSeparable_list.2 hvalues)⟩

theorem Elements.tidies {depth : Nat} {tokens : List Token} {entries : List Entry}
    (h : Elements depth tokens entries) : ∀ entry ∈ entries, EntryTidies limit depth entry := by
  match h with
  | .first helement => exact List.forall_mem_singleton.2 helement.tidies
  | .next hfront _ _ helement _ =>
    exact List.forall_mem_append.2 ⟨hfront.tidies, List.forall_mem_singleton.2 helement.tidies⟩

end

/-! ### Outside of brackets -/

theorem Redirect.tidy {redirection : Redirection Node} (h : Redirect depth tokens redirection)
    (hrow : Spelled redirection.pieces row) (hdepth : depth ≤ limit) {line line' : OpenLine}
    {expect : Expect} (hsettles : Settles line expect line')
    (htidy : Tidy limit ⟨line, [], expect, none⟩ (row ++ back)) :
    ∀ node ∈ redirection.targetNodes, node.AllSeparable := by
  have hread := Leader.read_leader redirection
  rcases h with @⟨_, _, tokens, fd, mode, factors, -, -, -, hterm⟩ | - | -
  · obtain ⟨leader, rest, hleader, hrest, rfl⟩ := Spelled.cons_iff.1 hrow
    obtain ⟨blank, target, hblank, htarget, rfl⟩ := Spelled.cons_iff.1 hrest
    have hread : Leader.read leader.text = .ok (.target fd mode) := by
      rw [hleader.2]
      exact hread
    have hbehind := (htidy.tail (hsettles.step_leader hleader.1 hread)).skip
      (leads_term_blanks (.single hblank.1))
    have htarget := @Spelled.factors 0 _ _ htarget
    have hbegin := hbehind.begin (hterm.opens htarget 0).1
      fun hint first hstarts horigin _ ↦ horigin ▸ step_term_factor hstarts
    have hroom : ([] : List Bracket).length + depth ≤ limit := by simpa using hdepth
    exact hterm.tidy htarget hroom (fun hkey ↦ hkey) hbegin
  all_goals exact fun _ hmem ↦ absurd hmem List.not_mem_nil

theorem Redirects.tidy {redirections : List (Redirection Node)}
    (h : Redirects depth tokens redirections)
    (hrow : Spelled (redirections.flatMap fun redirection ↦ .blank :: redirection.pieces) row)
    (hdepth : depth ≤ limit) {line line' : OpenLine} {expect : Expect}
    (hsettles : Settles line expect line') (hnone : line'.target = none)
    (htidy : Tidy limit ⟨line, [], expect, none⟩ (row ++ back)) :
    ∀ redirection ∈ redirections, ∀ node ∈ redirection.targetNodes, node.AllSeparable := by
  induction h generalizing row back with
  | nil => exact fun _ hmem ↦ absurd hmem List.not_mem_nil
  | next hfront hblanks hredirect ih =>
    rw [List.flatMap_append, List.flatMap_singleton] at hrow
    obtain ⟨front, rest, hfront', hrest, rfl⟩ := Spelled.append_iff.1 hrow
    obtain ⟨blank, last, hblank, hlast, rfl⟩ := Spelled.cons_iff.1 hrest
    rw [List.append_assoc] at htidy
    have htargets := ih hfront' htidy
    obtain ⟨redirections', hderived, -⟩ := hfront.respell htargets hfront'
    obtain ⟨line₁, expect₁, hleads₁, hsettles₁⟩ := hderived.leads hdepth hsettles hnone
    obtain ⟨expect₂, hleads₂, hsettles₂⟩ := hsettles₁.blanks limit (.single hblank.1)
    exact List.forall_mem_append.2 ⟨htargets, List.forall_mem_singleton.2
      (hredirect.tidy hlast hdepth hsettles₂ ((htidy.after hleads₁).skip hleads₂))⟩

theorem Command.tidy {command : Node} (h : Command depth tokens command)
    (hrow : Spelled command.pieces row) (hdepth : depth ≤ limit) {pos : Nat}
    {commands : List Node} {expect : Expect} (hfront : FrontOfCommand expect)
    (htidy : Tidy limit ⟨{ pos, commands }, [], expect, none⟩ (row ++ back)) :
    command.AllSeparable := by
  rcases h with @⟨_, args, _, _, terms, redirections, -, hargs, hredirs, -⟩
  obtain ⟨front, last, hterms, hlast, rfl⟩ := Spelled.append_iff.1 hrow
  have hterms := Spelled.sequence hterms
  rw [redirectionsPieces_eq_flatMap] at hlast
  rw [List.append_assoc] at htidy
  have hhold := collects_arguments { pos, commands } rfl hdepth
  have hbegin := htidy.begin (hargs.opens hterms) fun hint first hstarts horigin _ ↦
    horigin ▸ hfront.step_factor hstarts
  have hseparable := hargs.tidy hterms hhold hbegin
  obtain ⟨terms', hderived, -⟩ :=
    terms_of_respells hargs.ne_nil (hargs.respells hseparable) hterms
  obtain ⟨latest, term, -, hleads⟩ := hderived.leads hhold
  have hended := @Settles.argument { pos, commands, args := latest } term false rfl
  exact Node.allSeparable_command.2
    ⟨hseparable, hredirs.tidy hlast hdepth hended rfl (hbegin.after hleads)⟩

theorem Commands.tidy {commands : List Node} (h : Commands depth tokens commands)
    (hrow : Spelled ([Piece.blank, .mark .pipe, .blank].intercalate (commands.map Node.pieces))
      row)
    (hdepth : depth ≤ limit) (pos : Nat)
    (htidy : Tidy limit ⟨{ pos }, [], .line, none⟩ (row ++ back)) :
    ∀ command ∈ commands, command.AllSeparable := by
  induction h generalizing row back with
  | first hcommand =>
    rw [List.map_singleton, List.intercalate_singleton] at hrow
    exact List.forall_mem_singleton.2 (hcommand.tidy hrow hdepth .line htidy)
  | next hfront hpipe hcommand ih =>
    rw [List.map_append, List.map_singleton] at hrow
    obtain ⟨front, between, last, hfront', hbetween, hlast, rfl⟩ :=
      hrow.intercalate_concat (mt List.map_eq_nil_iff.1 hfront.ne_nil)
    obtain ⟨blank, rest, hblank, hrest, rfl⟩ := Spelled.cons_iff.1 hbetween
    obtain ⟨pipe, rest', hpipe', hrest', rfl⟩ := Spelled.cons_iff.1 hrest
    obtain ⟨blank', rfl, hblank'⟩ := hrest'.singleton
    rw [List.append_assoc] at htidy
    have hcommands := ih hfront' htidy
    obtain ⟨commands', hderived, -⟩ := hfront.respell hcommands hfront'
    obtain ⟨line₁, expect₁, line₁', hleads₁, hsettles₁, hended⟩ := hderived.leads hdepth pos
    obtain ⟨expect₂, hleads₂, hsettles₂⟩ := hsettles₁.blanks limit (.single hblank.1)
    have hbehind := ((htidy.after hleads₁).skip hleads₂).tail (hsettles₂.step_pipe hpipe'.1)
    rw [hended] at hbehind
    have hbegin := hbehind.skip (leads_term_blanks (.single hblank'.1))
    exact List.forall_mem_append.2 ⟨hcommands, List.forall_mem_singleton.2
      (hcommand.tidy hlast hdepth .term hbegin)⟩

/-- **What is read without looking across blanks can be told apart**: if no blank is looked
across in what spells a tree, all tables of the tree are separable. -/
theorem Line.tidy {root : Sequence Node} (h : Line depth tokens root)
    (hrow : Spelled root.pieces row) (hdepth : depth ≤ limit) {pos : Nat}
    (htight : Tight limit (.start pos) (row ++ back)) :
    ∀ node ∈ root.nodes, node.AllSeparable := by
  rcases h with - | @⟨_, _, commands, hcommands, -⟩
  · exact fun _ hmem ↦ absurd hmem List.not_mem_nil
  · exact hcommands.tidy (Spelled.sequence hrow) hdepth pos ⟨none, htight⟩

end Grammar

end PipelineSyntax
