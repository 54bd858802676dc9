import PipelineSyntax.Proofs.Leading

/-!
# Everything the grammar derives is read

A derivation drives the machine: from any state in which a piece may begin, the tokens of the
piece lead to the state behind it, with the tree of the piece put where it belongs.

The limit enters in one place only: a piece of depth `depth` may be read as long as the
brackets that are open and `depth` more of them stay within the limit.
-/

open PipelineSyntax.Parser

namespace PipelineSyntax

namespace Grammar

variable {limit : Nat}

/-! ### Where terms are collected -/

/-- States that collect terms, told by the latest terms they hold: a factor behind a blank
begins another term, and puts the one before it with those that are complete. -/
structure Collects (limit depth : Nat) (hold : List Node → State) : Prop where
  room : ∀ latest, (hold latest).stack.length + depth ≤ limit
  noKey : ∀ latest, (hold latest).atKey = false
  next : ∀ latest term hint token, token.kind.startsFactor = true →
    State.step limit { hold latest with expect := .more term true, hint } token =
      State.step limit { hold (term.close :: latest) with
        expect := .primary (.start token.offset), hint } token

theorem collects_group {depth : Nat} (line : OpenLine) (stack : List Bracket) (place : Place)
    (hroom : stack.length + (depth + 1) ≤ limit) :
    Collects limit depth fun latest ↦ ⟨line, ⟨place, .group latest⟩ :: stack, .term, none⟩ where
  room _ := by rw [List.length_cons]; omega
  noKey _ := rfl
  next _ _ _ _ := step_group_factor

theorem collects_arguments {depth : Nat} (line : OpenLine) (htarget : line.target = none)
    (hdepth : depth ≤ limit) :
    Collects limit depth fun latest ↦ ⟨{ line with args := latest }, [], .term, none⟩ where
  room _ := by simpa
  noKey _ := rfl
  next _ _ _ _ hkind := step_argument_factor hkind htarget

/-- Terms begin where the first of them does. -/
theorem Terms.head_pos {depth : Nat} {tokens : List Token} {terms : List Node} :
    Terms depth tokens terms → terms.head?.map Node.pos = some (origin tokens)
  | .first _ => rfl
  | .next hfront _ _ _ => by
    rw [origin_append hfront.opensFactor.ne_nil, ← hfront.head_pos]
    cases hfront <;> simp

theorem Terms.termList_reverse {depth : Nat} {tokens : List Token} {terms : List Node}
    (h : Terms depth tokens terms) :
    termList terms.reverse = ⟨origin tokens, .termList, terms⟩ := by
  simp [termList, h.head_pos]

/-! ### Inside brackets -/

/-- A term that is being read holds its factors with the latest first. -/
theorem sequence_reverse (pos : Nat) (factors : List Node) :
    OpenTerm.sequence ⟨pos, factors.reverse⟩ = ⟨pos, .term, factors⟩ := by
  simp [OpenTerm.sequence]

theorem close_reverse (pos : Nat) (factors : List Node) :
    OpenTerm.close ⟨pos, factors.reverse⟩ = .list ⟨pos, .term, factors⟩ := by
  rw [OpenTerm.close, sequence_reverse]

mutual

theorem Primary.leads {depth : Nat} {tokens : List Token} {node : Node}
    (h : Primary depth tokens node) (line : OpenLine) (stack : List Bracket) (place : Place)
    (hroom : stack.length + depth ≤ limit) :
    Leads limit ⟨line, stack, .primary place, none⟩ tokens
      ⟨line, stack, .more (place.fill node) false, none⟩ := by
  match h with
  | .literal hkind htext => exact fun hint ↦ ⟨_, .single (step_literal hkind htext)⟩
  | @Primary.group _ _ _ _ inner _ _ hleft hfront hinner hback hright =>
    have hlt : stack.length < limit := by omega
    obtain ⟨latest, term, hterms, hleads⟩ :=
      hinner.leads (collects_group line stack place hroom)
    have hlist := hinner.termList_reverse
    rw [hterms, List.reverse_reverse] at hlist
    rw [hterms, ← hlist]
    have hbegin : Leads limit ⟨line, ⟨place, .group []⟩ :: stack, .term, none⟩ inner
        ⟨line, ⟨place, .group latest⟩ :: stack, .more term false, none⟩ :=
      hleads.begin hinner.opensFactor fun hint first hstarts horigin _ ↦
        horigin ▸ step_term_factor hstarts
    refine .cons (fun hint ↦ step_leftParen hleft hlt) ?_
    exact (((leads_term_blanks hfront).append hbegin).append (leads_more_blanks hback)).append
      (.single fun hint ↦ step_group_close hright)
  | @Primary.emptyTable _ _ _ front hleft hfront hright =>
    have hlt : stack.length < limit := by omega
    refine .cons (fun hint ↦ step_leftBracket hleft hlt) ?_
    rcases front with _ | ⟨blank, front⟩
    · exact .single fun hint ↦ step_table_close hright
    · obtain ⟨hblank, hrest⟩ := OfKind.cons_iff.1 hfront
      exact .cons (fun hint ↦ step_table_blank hblank)
        ((leads_element_blanks hrest).append (.single fun hint ↦ step_element_close hright))
  | @Primary.table _ _ _ front inner _ entries hleft hfront hinner hback hright =>
    have hlt : stack.length < limit := by omega
    obtain ⟨init, last, contents, term, hentries, hpending, hleads⟩ :=
      hinner.leads line stack place { pos := origin (front ++ inner) } hroom
    have hclose : ((init.foldl OpenTable.add { pos := origin (front ++ inner) }).add last).close =
        .table (origin (front ++ inner)) (Entry.elements entries) (Entry.pairs entries) := by
      rw [← OpenTable.close_foldl_add, hentries, List.foldl_append]
      rfl
    rw [← hclose]
    have hbegin : Leads limit ⟨line, stack, .table place, none⟩ (front ++ inner)
        ⟨line, ⟨place, contents⟩ :: stack, .more term false, none⟩ := by
      -- the token behind the bracket opens the table, be it a blank or the first element's
      rcases front with _ | ⟨blank, front⟩
      · refine hleads.begin hinner.opensFactor fun hint first hstarts horigin _ ↦ ?_
        rw [List.nil_append, horigin]
        exact step_table_factor hstarts
      · obtain ⟨hblank, hrest⟩ := OfKind.cons_iff.1 hfront
        refine .cons (fun hint ↦ step_table_blank hblank) ((leads_element_blanks hrest).append ?_)
        exact hleads.begin hinner.opensFactor fun hint first hstarts horigin _ ↦
          horigin ▸ step_element_factor hstarts
    refine .cons (fun hint ↦ step_leftBracket hleft hlt) ?_
    exact (hbegin.append (leads_more_blanks hback)).append
      (.single fun hint ↦ hpending.step_close hright)

theorem Factor.leads {depth : Nat} {join : Join} {tokens : List Token} {factor : Node}
    (h : Factor depth join tokens factor) (line : OpenLine) (stack : List Bracket)
    (term : OpenTerm) (hroom : stack.length + depth ≤ limit) :
    Leads limit ⟨line, stack, .primary { term, pos := origin tokens, join }, none⟩ tokens
      ⟨line, stack, .more { term with factors := factor :: term.factors } false, none⟩ := by
  match h with
  | @Factor.primary _ _ dollars tokens _ hdollars hprimary =>
    have hleads := hprimary.leads line stack
      ⟨term, origin (dollars ++ tokens), 0 + dollars.length, join⟩ hroom
    rw [Nat.zero_add] at hleads
    exact (leads_dollars hdollars).append (by simpa [Place.fill] using hleads)

theorem Term.leads {depth : Nat} {key : Bool} {tokens : List Token} {factors : List Node}
    (h : Term depth key tokens factors) (line : OpenLine) (stack : List Bracket)
    (hroom : stack.length + depth ≤ limit)
    (hkey : State.atKey ⟨line, stack, .term, none⟩ = true → key = true) :
    Leads limit ⟨line, stack, .primary (.start (origin tokens)), none⟩ tokens
      ⟨line, stack, .more ⟨origin tokens, factors.reverse⟩ false, none⟩ := by
  match h with
  | .first hfactor => exact hfactor.leads line stack { pos := origin tokens } hroom
  | @Term.adjacent _ _ front _ factors _ hfront hfactor hequals =>
    rw [origin_append hfront.opensFactor.ne_nil, List.reverse_concat]
    refine (hfront.leads line stack hroom hkey).append ?_
    refine (hfactor.leads line stack ⟨origin front, factors.reverse⟩ hroom).begin
      hfactor.opensFactor fun hint first hstarts horigin hopens ↦ ?_
    -- where the machine stands at a key, the grammar asks for one
    have hnoKey : (State.atKey ⟨line, stack, .term, none⟩ && first.isEquals) = false := by
      rw [hopens] at hequals
      revert hkey hequals
      cases key <;> cases first.isEquals <;> simp
    exact horigin ▸ step_adjacent_factor hstarts hnoKey
  | @Term.caret _ _ front _ _ _ _ factors _ hfront hbefore hcaret hafter hfactor =>
    rw [origin_append hfront.opensFactor.ne_nil, List.reverse_concat]
    refine (hfront.leads line stack hroom hkey).append ((leads_more_blanks hbefore).append ?_)
    refine .cons (fun hint ↦ step_more_caret hcaret) ((leads_joined_blanks hafter).append ?_)
    exact (hfactor.leads line stack ⟨origin front, factors.reverse⟩ hroom).begin
      hfactor.opensFactor fun hint first hstarts horigin _ ↦ horigin ▸ step_joined_factor hstarts

theorem Terms.leads {depth : Nat} {tokens : List Token} {terms : List Node}
    (h : Terms depth tokens terms) {hold : List Node → State}
    (hhold : Collects limit depth hold) :
    ∃ latest term, terms = (term.close :: latest).reverse ∧
      Leads limit ⟨(hold []).line, (hold []).stack, .primary (.start (origin tokens)), none⟩ tokens
        ⟨(hold latest).line, (hold latest).stack, .more term false, none⟩ := by
  have hkey (latest : List Node) :
      State.atKey ⟨(hold latest).line, (hold latest).stack, .term, none⟩ = true → false = true :=
    fun h ↦ (hhold.noKey latest).symm.trans h
  match h with
  | @Terms.first _ _ factors hterm =>
    exact ⟨[], ⟨origin tokens, factors.reverse⟩, by simp [close_reverse],
      hterm.leads _ _ (hhold.room _) (hkey _)⟩
  | @Terms.next _ _ _ tokens _ factors hfront hblanks hne hterm =>
    obtain ⟨latest, term, rfl, hleads⟩ := hfront.leads hhold
    rw [origin_append hfront.opensFactor.ne_nil]
    refine ⟨term.close :: latest, ⟨origin tokens, factors.reverse⟩, by simp [close_reverse],
      hleads.append ?_⟩
    exact (leads_separator hblanks hne).append
      ((hterm.leads _ _ (hhold.room _) (hkey _)).begin hterm.opensFactor
        fun hint first hstarts horigin _ ↦ horigin ▸ hhold.next latest term hint first hstarts)

theorem Element.leads {depth : Nat} {tokens : List Token} {entry : Entry}
    (h : Element depth tokens entry) (line : OpenLine) (stack : List Bracket) (place : Place)
    (table : OpenTable) (hroom : stack.length + (depth + 1) ≤ limit) :
    ∃ contents term, Pending table term entry contents ∧
      Leads limit
        ⟨line, ⟨place, .table table none⟩ :: stack, .primary (.start (origin tokens)), none⟩ tokens
        ⟨line, ⟨place, contents⟩ :: stack, .more term false, none⟩ := by
  have hroom' (contents : Contents) : (⟨place, contents⟩ :: stack : List Bracket).length + depth ≤
      limit := by
    rw [List.length_cons]
    omega
  match h with
  | .alone hkey =>
    exact ⟨_, _, .alone (close_reverse _ _), hkey.leads line _ (hroom' _) fun _ ↦ rfl⟩
  | @Element.pair _ front _ _ _ _ keys _ hkey hbefore hequals hafter hvalue =>
    have hterm := hvalue.leads line
      (⟨place, .table table (some (.list ⟨origin front, .term, keys⟩))⟩ :: stack) (hroom' _) nofun
    rw [origin_append hkey.opensFactor.ne_nil]
    refine ⟨_, _, .pair (close_reverse _ _), (hkey.leads line _ (hroom' _) fun _ ↦ rfl).append
      ((leads_more_blanks hbefore).append ?_)⟩
    refine .cons (fun hint ↦ step_key_equals hequals (close_reverse _ _))
      ((leads_term_blanks hafter).append ?_)
    exact hterm.begin hvalue.opensFactor fun hint first hstarts horigin _ ↦
      horigin ▸ step_term_factor hstarts

theorem Elements.leads {depth : Nat} {tokens : List Token} {entries : List Entry}
    (h : Elements depth tokens entries) (line : OpenLine) (stack : List Bracket) (place : Place)
    (table : OpenTable) (hroom : stack.length + (depth + 1) ≤ limit) :
    ∃ init last contents term, entries = init ++ [last] ∧
      Pending (init.foldl OpenTable.add table) term last contents ∧
      Leads limit
        ⟨line, ⟨place, .table table none⟩ :: stack, .primary (.start (origin tokens)), none⟩ tokens
        ⟨line, ⟨place, contents⟩ :: stack, .more term false, none⟩ := by
  match h with
  | .first helement =>
    obtain ⟨contents, term, hpending, hleads⟩ := helement.leads line stack place table hroom
    exact ⟨[], _, contents, term, rfl, hpending, hleads⟩
  | @Elements.next _ _ _ _ init last _ hfront hblanks hne helement hlast =>
    obtain ⟨init', last', contents, term, hinit, hpending, hleads⟩ :=
      hfront.leads line stack place table hroom
    obtain ⟨rfl, hlast'⟩ := List.append_inj' hinit rfl
    obtain rfl := List.singleton_inj.1 hlast'
    let table' := (init.foldl OpenTable.add table).add last
    obtain ⟨contents', term', hpending', hleads'⟩ := helement.leads line stack place table' hroom
    have htable : (init ++ [last]).foldl OpenTable.add table = table' := by simp [table']
    rw [origin_append hfront.opensFactor.ne_nil]
    refine ⟨init ++ [last], _, contents', term', rfl, htable ▸ hpending', hleads.append ?_⟩
    refine (leads_separator hblanks hne).append (hleads'.begin helement.opensFactor
      fun hint first hstarts horigin hopens ↦ ?_)
    rw [hopens] at hlast
    exact horigin ▸ hpending.step_factor hstarts hlast

end

/-! ### Outside of brackets -/

/-- What the line will be once the piece that is being read has ended. -/
inductive Settles (line : OpenLine) : Expect → OpenLine → Prop
  | argument {term : OpenTerm} {blank : Bool} (htarget : line.target = none) :
      Settles line (.more term blank) (line.addArg term.close)
  | target {term : OpenTerm} {blank : Bool} {fd : Fd} {mode : OpenMode}
      (htarget : line.target = some (fd, mode)) :
      Settles line (.more term blank) (line.redirect (.file fd mode term.sequence))
  | tail : Settles line .tail line

namespace Settles

variable {line line' : OpenLine} {expect : Expect} {token : Token} {tokens : List Token}
  {hint : Option Hint}

/-- A token that cannot continue a piece is read as it is behind the piece. -/
theorem step_eq (h : Settles line expect line') (hfactor : token.kind.startsFactor = false)
    (hspace : token.kind ≠ .space) (hcaret : token.kind ≠ .caret) :
    State.step limit ⟨line, [], expect, hint⟩ token =
      State.step limit ⟨line', [], .tail, hint⟩ token := by
  cases h with
  | argument htarget | target htarget =>
    simp only [State.step, State.readMore, hspace, hcaret, hfactor, State.endTerm,
      State.endLineTerm, htarget, if_false, Bool.false_and, Bool.false_eq_true]
    rfl
  | tail => rfl

/-- Blanks do not change what the line will be. -/
theorem blanks (h : Settles line expect line') (limit : Nat) (hblanks : Blanks tokens) :
    ∃ expect', Leads limit ⟨line, [], expect, none⟩ tokens ⟨line, [], expect', none⟩ ∧
      Settles line expect' line' := by
  obtain htarget | htarget | _ := h
  · exact ⟨_, leads_more_blanks hblanks, .argument htarget⟩
  · exact ⟨_, leads_more_blanks hblanks, .target htarget⟩
  · exact ⟨_, .blanks (fun hint token hkind ↦ by simp [State.step, hkind]) hblanks, .tail⟩

end Settles

/-- What a leader makes of the line: a redirection, or a target that it waits for. -/
def afterLeader (line : OpenLine) : Leader → OpenLine × Expect
  | .target fd mode => ({ line with target := some (fd, mode) }, .term)
  | .duplicate fd old => (line.redirect (.duplicate fd old), .tail)
  | .close fd => (line.redirect (.close fd), .tail)

theorem Settles.step_leader {line line' : OpenLine} {expect : Expect}
    (h : Settles line expect line') {leader : Token} {said : Leader}
    (hkind : leader.kind = .leader) (hread : Leader.read leader.text = .ok said)
    (hint : Option Hint) :
    State.step limit ⟨line, [], expect, hint⟩ leader =
      .ok (.more ⟨(afterLeader line' said).1, [], (afterLeader line' said).2, hint⟩) := by
  rw [h.step_eq (by rw [hkind]; rfl) (by simp [hkind]) (by simp [hkind])]
  have htoken : Leader.ofToken leader = .ok said := by
    rw [Leader.ofToken, hread]
    rfl
  simp only [State.step, State.readTail, hkind, htoken]
  cases said <;> rfl

theorem Settles.step_pipe {line line' : OpenLine} {expect : Expect}
    (h : Settles line expect line') {pipe : Token} (hkind : pipe.kind = .pipe)
    (hint : Option Hint) :
    State.step limit ⟨line, [], expect, hint⟩ pipe =
      .ok (.more ⟨line'.endCommand, [], .term, hint⟩) := by
  rw [h.step_eq (by rw [hkind]; rfl) (by simp [hkind]) (by simp [hkind])]
  simp [State.step, State.readTail, hkind]

theorem Redirect.leads {depth : Nat} {tokens : List Token} {redirection : Redirection Node}
    (h : Redirect depth tokens redirection) (hdepth : depth ≤ limit) {line line' : OpenLine}
    {expect : Expect} (hsettles : Settles line expect line') :
    ∃ last expect', Leads limit ⟨line, [], expect, none⟩ tokens ⟨last, [], expect', none⟩ ∧
      Settles last expect' (line'.redirect redirection) := by
  rcases h with @⟨_, _, target, fd, mode, factors, hkind, hread, hblanks, hterm⟩ |
    ⟨hkind, hread⟩ | ⟨hkind, hread⟩
  · let waiting : OpenLine := { line' with target := some (fd, mode) }
    have htarget : Leads limit ⟨waiting, [], .term, none⟩ target
        ⟨waiting, [], .more ⟨origin target, factors.reverse⟩ false, none⟩ :=
      (hterm.leads waiting [] (by simpa using hdepth) id).begin hterm.opensFactor
        fun hint first hstarts horigin _ ↦ horigin ▸ step_term_factor hstarts
    have hended := @Settles.target waiting ⟨origin target, factors.reverse⟩ false fd mode rfl
    rw [sequence_reverse] at hended
    exact ⟨waiting, _, .cons (hsettles.step_leader hkind hread)
      ((leads_term_blanks hblanks).append htarget), hended⟩
  · exact ⟨_, .tail, .single (hsettles.step_leader hkind hread), .tail⟩
  · exact ⟨_, .tail, .single (hsettles.step_leader hkind hread), .tail⟩

theorem Redirects.leads {depth : Nat} {tokens : List Token}
    {redirections : List (Redirection Node)} (h : Redirects depth tokens redirections)
    (hdepth : depth ≤ limit) {line line' : OpenLine} {expect : Expect}
    (hsettles : Settles line expect line') (hnone : line'.target = none) :
    ∃ last expect', Leads limit ⟨line, [], expect, none⟩ tokens ⟨last, [], expect', none⟩ ∧
      Settles last expect' { line' with
        redirections := redirections.reverse ++ line'.redirections } := by
  induction h with
  | nil => exact ⟨line, expect, .nil, hsettles⟩
  | next hfront hblanks hredirect ih =>
    obtain ⟨line₁, expect₁, hleads₁, hsettles₁⟩ := ih
    obtain ⟨expect₂, hleads₂, hsettles₂⟩ := hsettles₁.blanks limit hblanks
    obtain ⟨line₃, expect₃, hleads₃, hsettles₃⟩ := hredirect.leads hdepth hsettles₂
    refine ⟨line₃, expect₃, hleads₁.append (hleads₂.append hleads₃), ?_⟩
    rw [List.reverse_concat]
    simpa [OpenLine.redirect, hnone] using hsettles₃

/-- The states in front of a command: blanks are skipped, and a factor begins a term. -/
inductive FrontOfCommand : Expect → Prop
  | line : FrontOfCommand .line
  | term : FrontOfCommand .term

theorem FrontOfCommand.leads_blanks {expect : Expect} (h : FrontOfCommand expect)
    (limit : Nat) (line : OpenLine) {tokens : List Token} (hblanks : Blanks tokens) :
    Leads limit ⟨line, [], expect, none⟩ tokens ⟨line, [], expect, none⟩ := by
  obtain _ | _ := h
  · exact .blanks (fun hint token hkind ↦ by simp [State.step, hkind]) hblanks
  · exact leads_term_blanks hblanks

theorem FrontOfCommand.step_factor {expect : Expect} (h : FrontOfCommand expect)
    {line : OpenLine} {hint : Option Hint} {token : Token}
    (hkind : token.kind.startsFactor = true) :
    State.step limit ⟨line, [], expect, hint⟩ token =
      State.step limit ⟨line, [], .primary (.start token.offset), hint⟩ token := by
  obtain _ | _ := h
  · exact step_line_factor hkind
  · exact step_term_factor hkind

theorem Command.leads {depth : Nat} {tokens : List Token} {command : Node}
    (h : Command depth tokens command) (hdepth : depth ≤ limit) {pos : Nat}
    {commands : List Node} {expect : Expect} (hfront : FrontOfCommand expect) :
    ∃ last expect' line', Leads limit ⟨{ pos, commands }, [], expect, none⟩ tokens
        ⟨last, [], expect', none⟩ ∧ Settles last expect' line' ∧
      line'.endCommand = { pos, commands := command :: commands } := by
  obtain ⟨hbefore, hargs, hredirs, hafter⟩ := h
  obtain ⟨latest, term, hterms, hleads⟩ :=
    hargs.leads (collects_arguments { pos, commands } rfl hdepth)
  have hbegin : Leads limit ⟨{ pos, commands }, [], expect, none⟩ _
      ⟨{ pos, commands, args := latest }, [], .more term false, none⟩ :=
    hleads.begin hargs.opensFactor fun hint first hstarts horigin _ ↦
      horigin ▸ hfront.step_factor hstarts
  have hended := @Settles.argument { pos, commands, args := latest } term false rfl
  obtain ⟨last, expect₁, hleads₁, hsettles₁⟩ := hredirs.leads hdepth hended rfl
  obtain ⟨expect₂, hleads₂, hsettles₂⟩ := hsettles₁.blanks limit hafter
  have hbefore := hfront.leads_blanks limit { pos, commands } hbefore
  refine ⟨last, expect₂, _, ((hbefore.append hbegin).append hleads₁).append hleads₂,
    hsettles₂, ?_⟩
  have hlist := hargs.termList_reverse
  rw [hterms, List.reverse_reverse] at hlist
  simp [OpenLine.endCommand, OpenLine.addArg, hlist, hterms]

theorem Commands.leads {depth : Nat} {tokens : List Token} {commands : List Node}
    (h : Commands depth tokens commands) (hdepth : depth ≤ limit) (pos : Nat) :
    ∃ last expect line', Leads limit ⟨{ pos }, [], .line, none⟩ tokens
        ⟨last, [], expect, none⟩ ∧ Settles last expect line' ∧
      line'.endCommand = { pos, commands := commands.reverse } := by
  induction h with
  | first hcommand => exact hcommand.leads hdepth .line
  | next hfront hpipe hcommand ih =>
    obtain ⟨line₁, expect₁, line₁', hleads₁, hsettles₁, hended⟩ := ih
    obtain ⟨line₂, expect₂, line₂', hleads₂, hsettles₂, hended₂⟩ := hcommand.leads hdepth .term
    rw [List.reverse_concat]
    refine ⟨line₂, expect₂, line₂', hleads₁.append (.cons (fun hint ↦ ?_) hleads₂), hsettles₂,
      hended₂⟩
    rw [hsettles₁.step_pipe hpipe, hended]

/-- **Everything the grammar derives is read**, under every limit that leaves room for it. -/
theorem Line.reads {depth : Nat} {tokens : List Token} {root : Sequence Node}
    (h : Line depth tokens root) (hdepth : depth ≤ limit) :
    ∃ hint, Reads limit (.start (origin tokens)) tokens (.ok ⟨root, hint⟩) := by
  match h with
  | @Line.empty _ blanks last hblanks hlast =>
    obtain ⟨hint, hsteps⟩ := FrontOfCommand.line.leads_blanks limit
      { pos := origin (blanks ++ [last]) } hblanks none
    refine ⟨hint, .prepend hsteps (.accept ?_)⟩
    simp [State.step, hlast, OpenLine.pipeline]
  | @Line.commands _ tokens last _ hcommands hlast =>
    obtain ⟨line, expect, line', hleads, hsettles, hended⟩ :=
      hcommands.leads hdepth (origin (tokens ++ [last]))
    obtain ⟨hint, hsteps⟩ := hleads none
    refine ⟨hint, .prepend hsteps (.accept ?_)⟩
    have hkinds : last.kind = .endOfLine ∨ last.kind = .endOfInput := by
      revert hlast
      cases last.kind <;> simp [Token.Kind.endsLine]
    rcases hkinds with hkind | hkind
    all_goals
      rw [hsettles.step_eq (by rw [hkind]; rfl) (by simp [hkind]) (by simp [hkind])]
      simp [State.step, State.readTail, hkind, hended, OpenLine.pipeline]

end Grammar

end PipelineSyntax
