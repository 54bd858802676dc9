import PipelineSyntax.Proofs.Acceptance

/-!
# Where the nodes of a tree stand

What can be said of every tree that is read, without a word about how: of which nodes each node
may consist, and at which token of the line it begins.

A tree is laid over the row of tokens that has been read. `PrimaryAt`, `FactorAt` and `TermAt`
say of a node that it covers the tokens from one index of the row to another one, which is left
out; the nodes it consists of stand inside, one behind the other. So no token belongs to two
nodes of which neither lies inside the other, except that the elements of a table and its pairs
are each in order only among themselves.

`depth` is how many groups and tables may still be opened around a node's contents.
-/

open PipelineSyntax.Parser

namespace PipelineSyntax

section Row

variable (row : List Token)

/-! ### Inside a line -/

mutual

/-- A literal, a group or a table. -/
inductive PrimaryAt : Nat → Nat → Nat → Node → Prop
  /-- A literal begins at its token, and says what the token says. -/
  | string {depth start : Nat} {token : Token} {text : String}
      (htoken : row[start]? = some token) (hkind : token.kind.isLiteral = true)
      (htext : token.decode = .ok text) :
      PrimaryAt depth start (start + 1) (.string token.offset token.text text)
  /-- A group holds at least one term, and begins where the first of them does. -/
  | group {depth start stop pos : Nat} {left right : Token} {terms : List Node}
      (hleft : row[start]? = some left) (hopens : left.kind = .leftParen)
      (hterms : TermsAt depth (start + 1) stop terms)
      (hpos : terms.head?.map Node.pos = some pos)
      (hright : row[stop]? = some right) (hcloses : right.kind = .rightParen) :
      PrimaryAt (depth + 1) start (stop + 1) (.list ⟨pos, .termList, terms⟩)
  /-- A table begins at the token behind its bracket, be it a blank or not. -/
  | table {depth start stop : Nat} {left next right : Token} {elements : List Node}
      {pairs : List (Node × Node)}
      (hleft : row[start]? = some left) (hopens : left.kind = .leftBracket)
      (hnext : row[start + 1]? = some next)
      (helements : TermsAt depth (start + 1) stop elements)
      (hpairs : PairsAt depth (start + 1) stop pairs)
      (hright : row[stop]? = some right) (hcloses : right.kind = .rightBracket) :
      PrimaryAt (depth + 1) start (stop + 1) (.table next.offset elements pairs)

/-- A factor, and how it is joined. It begins at the first of its dollars, or else at the first
token of its primary, and no dollar stands in front of it. -/
inductive FactorAt : Nat → Join → Nat → Nat → Node → Prop
  | mk {depth start stop dollars : Nat} {join : Join} {first : Token} {node : Node}
      (hfirst : row[start]? = some first)
      (hdollars : ∀ index, start ≤ index → index < start + dollars →
        ∃ token, row[index]? = some token ∧ token.kind = .dollar)
      (hbefore : ∀ index token, index + 1 = start → row[index]? = some token →
        token.kind ≠ .dollar)
      (hprimary : PrimaryAt depth (start + dollars) stop node) :
      FactorAt depth join start stop (.factor first.offset dollars join node)

/-- Factors, of which only the first is not joined to another one. -/
inductive FactorsAt : Nat → Nat → Nat → List Node → Prop
  | first {depth start stop : Nat} {factor : Node}
      (hfactor : FactorAt depth .start start stop factor) : FactorsAt depth start stop [factor]
  | next {depth start middle next stop : Nat} {factors : List Node} {join : Join} {factor : Node}
      (hfront : FactorsAt depth start middle factors) (hle : middle ≤ next)
      (hjoin : join = .adjacent ∨ join = .caret)
      (hfactor : FactorAt depth join next stop factor) :
      FactorsAt depth start stop (factors ++ [factor])

/-- A term consists of factors, and begins where the first of them does. -/
inductive TermAt : Nat → Nat → Nat → Node → Prop
  | mk {depth start stop pos : Nat} {factors : List Node}
      (hfactors : FactorsAt depth start stop factors)
      (hpos : factors.head?.map Node.pos = some pos) :
      TermAt depth start stop (.list ⟨pos, .term, factors⟩)

/-- Terms between two indices, one behind the other. -/
inductive TermsAt : Nat → Nat → Nat → List Node → Prop
  | nil {depth start stop : Nat} (hle : start ≤ stop) : TermsAt depth start stop []
  | next {depth start middle next last stop : Nat} {terms : List Node} {term : Node}
      (hfront : TermsAt depth start middle terms) (hle : middle ≤ next)
      (hterm : TermAt depth next last term) (hstop : last ≤ stop) :
      TermsAt depth start stop (terms ++ [term])

/-- Pairs between two indices, one behind the other, with a bare `=` between the two terms of
each. -/
inductive PairsAt : Nat → Nat → Nat → List (Node × Node) → Prop
  | nil {depth start stop : Nat} (hle : start ≤ stop) : PairsAt depth start stop []
  | next {depth start middle next first index value last stop : Nat} {equals : Token}
      {pairs : List (Node × Node)} {keyNode valueNode : Node}
      (hfront : PairsAt depth start middle pairs) (hle : middle ≤ next)
      (hkey : TermAt depth next first keyNode) (hindex : first ≤ index)
      (htoken : row[index]? = some equals) (hequals : equals.isEquals = true)
      (hvalue : index < value) (hterm : TermAt depth value last valueNode) (hstop : last ≤ stop) :
      PairsAt depth start stop (pairs ++ [(keyNode, valueNode)])

end

variable {row} in
/-- A string that no dollar stands in front of begins where its factor does. -/
theorem FactorAt.string_pos {depth start stop pos factorPos : Nat} {join kind : Join}
    {text decoded : String}
    (h : FactorAt row depth join start stop (.factor factorPos 0 kind (.string pos text decoded))) :
    pos = factorPos := by
  obtain ⟨hfirst, -, -, hprimary⟩ := h
  cases hprimary with
  | string htoken => rw [Option.some.inj (hfirst.symm.trans htoken)]

/-! ### Lines -/

/-- A redirection begins with its leader and does what the leader says, and what it opens is a
term. -/
inductive RedirectionAt (depth : Nat) : Nat → Nat → Redirection Node → Prop
  | file {start first stop : Nat} {leader : Token} {fd : Fd} {mode : OpenMode}
      {target : Sequence Node} (hleader : row[start]? = some leader)
      (hkind : leader.kind = .leader)
      (hread : Leader.read leader.text = .ok (.target fd mode)) (hle : start < first)
      (htarget : TermAt row depth first stop (.list target)) :
      RedirectionAt depth start stop (.file fd mode target)
  | duplicate {start : Nat} {leader : Token} {fd old : Fd} (hleader : row[start]? = some leader)
      (hkind : leader.kind = .leader)
      (hread : Leader.read leader.text = .ok (.duplicate fd old)) :
      RedirectionAt depth start (start + 1) (.duplicate fd old)
  | close {start : Nat} {leader : Token} {fd : Fd} (hleader : row[start]? = some leader)
      (hkind : leader.kind = .leader) (hread : Leader.read leader.text = .ok (.close fd)) :
      RedirectionAt depth start (start + 1) (.close fd)

/-- Redirections between two indices, one behind the other. -/
inductive RedirectionsAt (depth : Nat) : Nat → Nat → List (Redirection Node) → Prop
  | nil {start stop : Nat} (hle : start ≤ stop) : RedirectionsAt depth start stop []
  | next {start middle next last stop : Nat} {redirections : List (Redirection Node)}
      {redirection : Redirection Node} (hfront : RedirectionsAt depth start middle redirections)
      (hle : middle ≤ next) (hredirection : RedirectionAt row depth next last redirection)
      (hstop : last ≤ stop) :
      RedirectionsAt depth start stop (redirections ++ [redirection])

/-- A command has at least one argument, and begins where the first of them does. -/
inductive CommandAt (depth : Nat) : Nat → Nat → Node → Prop
  | mk {start middle stop pos : Nat} {args : List Node} {redirections : List (Redirection Node)}
      (hargs : TermsAt row depth start middle args) (hpos : args.head?.map Node.pos = some pos)
      (hredirections : RedirectionsAt row depth middle stop redirections) :
      CommandAt depth start stop (.command pos ⟨pos, .termList, args⟩ redirections)

/-- Commands one behind the other, with a bar between each two of them. -/
inductive CommandsAt (depth : Nat) : Nat → Nat → List Node → Prop
  | first {start stop : Nat} {command : Node} (hcommand : CommandAt row depth start stop command) :
      CommandsAt depth start stop [command]
  | next {start middle stop : Nat} {pipe : Token} {commands : List Node} {command : Node}
      (hfront : CommandsAt depth start middle commands) (hpipe : row[middle]? = some pipe)
      (hkind : pipe.kind = .pipe) (hcommand : CommandAt row depth (middle + 1) stop command) :
      CommandsAt depth start stop (commands ++ [command])

/-- A whole line begins at the first of its tokens, be it a blank or not. It is empty if nothing
but blanks stands in front of the end of the input, and otherwise it consists of commands. -/
structure LineAt (depth : Nat) (root : Sequence Node) : Prop where
  kind_eq : root.kind = .pipeline
  pos_eq : row.head?.map Token.offset = some root.pos
  nodes : root.nodes = [] ∨ CommandsAt row depth 0 (row.length - 1) root.nodes
  nil_iff : root.nodes = [] ↔
    (row.find? (·.kind ≠ .space)).map Token.kind = some .endOfInput

end Row

/-! ### Rows that cover a piece -/

/-- The tokens stand in the row, behind those in front of them. -/
def Covers (row front tokens : List Token) : Prop :=
  front ++ tokens <+: row

section Covers

variable {row front tokens back : List Token} {token : Token}

namespace Covers

theorem left (h : Covers row front (tokens ++ back)) : Covers row front tokens :=
  (List.prefix_append (front ++ tokens) back).trans (List.append_assoc .. ▸ h)

theorem right (h : Covers row front (tokens ++ back)) : Covers row (front ++ tokens) back := by
  rwa [Covers, List.append_assoc]

theorem tail (h : Covers row front (token :: tokens)) : Covers row (front ++ [token]) tokens :=
  @right _ _ [token] _ h

theorem getElem? (h : Covers row front tokens) {index : Nat} (hlt : index < tokens.length) :
    row[front.length + index]? = tokens[index]? := by
  obtain ⟨rest, rfl⟩ := h
  rw [List.append_assoc, List.getElem?_append_right (Nat.le_add_right _ _),
    Nat.add_sub_cancel_left, List.getElem?_append_left hlt]

theorem head (h : Covers row front (token :: tokens)) : row[front.length]? = some token :=
  h.getElem? (Nat.succ_pos tokens.length)

/-- A piece begins at its first token. -/
theorem exists_head (h : Covers row front tokens) (hne : tokens ≠ []) :
    ∃ first, row[front.length]? = some first ∧ origin tokens = first.offset := by
  rcases tokens with _ | ⟨first, rest⟩
  · exact absurd rfl hne
  · exact ⟨first, h.head, rfl⟩

/-- Where the two brackets around some tokens stand. -/
theorem brackets {left right : Token} (h : Covers row front (left :: (tokens ++ [right]))) :
    row[front.length]? = some left ∧ row[(front ++ [left] ++ tokens).length]? = some right ∧
      (front ++ left :: (tokens ++ [right])).length = (front ++ [left] ++ tokens).length + 1 := by
  refine ⟨h.head, h.tail.right.head, ?_⟩
  simp only [List.length_append, List.length_cons, List.length_nil]
  omega

/-- What stands in front of the tokens is what comes last there. -/
theorem getElem?_before (h : Covers row front tokens) {index : Nat}
    (hindex : index + 1 = front.length) : row[index]? = front.getLast? := by
  obtain ⟨rest, rfl⟩ := h
  rw [List.append_assoc, List.getElem?_append_left (by omega), List.getLast?_eq_getElem?,
    ← hindex, Nat.add_sub_cancel]

end Covers

/-- The tokens end, and not with a dollar. -/
def EndsUndollared (tokens : List Token) : Prop :=
  ∃ last ∈ tokens.getLast?, last.kind ≠ .dollar

namespace EndsUndollared

theorem single (hkind : token.kind ≠ .dollar) : EndsUndollared [token] :=
  ⟨token, rfl, hkind⟩

theorem append (front : List Token) (h : EndsUndollared tokens) :
    EndsUndollared (front ++ tokens) := by
  obtain ⟨last, hlast, hkind⟩ := h
  refine ⟨last, ?_, hkind⟩
  rw [List.getLast?_append, Option.mem_def.1 hlast]
  rfl

theorem cons (token : Token) (h : EndsUndollared tokens) : EndsUndollared (token :: tokens) :=
  h.append [token]

end EndsUndollared

/-- What stands in front of a piece does not end with a dollar. -/
def Undollared (front : List Token) : Prop :=
  ∀ last ∈ front.getLast?, last.kind ≠ .dollar

namespace Undollared

theorem nil : Undollared [] :=
  fun _ hlast ↦ by cases hlast

theorem of_ends (h : EndsUndollared tokens) : Undollared tokens := by
  obtain ⟨last, hlast, hkind⟩ := h
  intro last' hlast'
  rwa [Option.mem_unique hlast' hlast]

theorem concat (hkind : token.kind ≠ .dollar) : Undollared (front ++ [token]) :=
  of_ends (.append front (.single hkind))

theorem blanks (h : Undollared front) (hblanks : Blanks tokens) : Undollared (front ++ tokens) := by
  rcases hlast : tokens.getLast? with _ | last
  · rwa [List.getLast?_eq_none_iff.1 hlast, List.append_nil]
  · have hspace : last.kind = .space := hblanks last (List.mem_of_getLast? hlast)
    exact of_ends (.append front ⟨last, hlast, by simp [hspace]⟩)

end Undollared

end Covers

namespace Grammar

/-! ### Pieces end without a dollar -/

section EndsUndollared

variable {depth : Nat} {join : Join} {key : Bool} {tokens : List Token} {node : Node}
  {nodes : List Node} {entry : Entry} {entries : List Entry}

theorem Primary.endsUndollared (h : Primary depth tokens node) : EndsUndollared tokens := by
  rcases h with ⟨hkind, -⟩ | ⟨-, -, -, -, hright⟩ | ⟨-, -, hright⟩ | ⟨-, -, -, -, hright⟩
  · refine .single fun hdollar ↦ ?_
    rw [hdollar] at hkind
    cases hkind
  all_goals exact ((EndsUndollared.single (by simp [hright])).append _).cons _

theorem Factor.endsUndollared (h : Factor depth join tokens node) : EndsUndollared tokens := by
  obtain ⟨-, hprimary⟩ := h
  exact hprimary.endsUndollared.append _

theorem Term.endsUndollared (h : Term depth key tokens nodes) : EndsUndollared tokens := by
  rcases h with hfactor | ⟨-, hfactor, -⟩ | ⟨-, -, -, -, hfactor⟩
  · exact hfactor.endsUndollared
  · exact hfactor.endsUndollared.append _
  · exact (((hfactor.endsUndollared.append _).cons _).append _).append _

theorem Terms.endsUndollared (h : Terms depth tokens nodes) : EndsUndollared tokens := by
  rcases h with hterm | ⟨-, -, -, hterm⟩
  · exact hterm.endsUndollared
  · exact (hterm.endsUndollared.append _).append _

theorem Element.endsUndollared (h : Element depth tokens entry) : EndsUndollared tokens := by
  rcases h with hkey | ⟨-, -, -, -, hvalue⟩
  · exact hkey.endsUndollared
  · exact (((hvalue.endsUndollared.append _).cons _).append _).append _

theorem Elements.endsUndollared (h : Elements depth tokens entries) : EndsUndollared tokens := by
  rcases h with helement | ⟨-, -, -, helement, -⟩
  · exact helement.endsUndollared
  · exact (helement.endsUndollared.append _).append _

end EndsUndollared

/-! ### Pieces begin with their first piece -/

theorem Factor.pos_eq {depth : Nat} {join : Join} {tokens : List Token} {factor : Node}
    (h : Factor depth join tokens factor) : factor.pos = origin tokens := by
  cases h
  rfl

theorem Term.head_pos {depth : Nat} {key : Bool} {tokens : List Token} {factors : List Node}
    (h : Term depth key tokens factors) : factors.head?.map Node.pos = some (origin tokens) := by
  obtain ⟨own, back, factor, rest, hfactor, rfl, rfl⟩ := h.exists_first
  rw [origin_append hfactor.opensFactor.ne_nil, ← hfactor.pos_eq]
  rfl

end Grammar

theorem Entry.elements_append (front back : List Entry) :
    Entry.elements (front ++ back) = Entry.elements front ++ Entry.elements back :=
  List.filterMap_append

theorem Entry.pairs_append (front back : List Entry) :
    Entry.pairs (front ++ back) = Entry.pairs front ++ Entry.pairs back :=
  List.filterMap_append

/-! ### More room does no harm -/

section Widen

variable {row : List Token} {depth start stop stop' : Nat}

theorem TermsAt.widen {terms : List Node} (h : TermsAt row depth start stop terms)
    (hle : stop ≤ stop') : TermsAt row depth start stop' terms := by
  rcases h with hstart | ⟨hfront, hnext, hterm, hstop⟩
  · exact .nil (hstart.trans hle)
  · exact .next hfront hnext hterm (hstop.trans hle)

theorem PairsAt.widen {pairs : List (Node × Node)} (h : PairsAt row depth start stop pairs)
    (hle : stop ≤ stop') : PairsAt row depth start stop' pairs := by
  rcases h with hstart | ⟨hfront, hnext, hkey, hindex, htoken, hequals, hvalue, hterm, hstop⟩
  · exact .nil (hstart.trans hle)
  · exact .next hfront hnext hkey hindex htoken hequals hvalue hterm (hstop.trans hle)

theorem RedirectionsAt.widen {redirections : List (Redirection Node)}
    (h : RedirectionsAt row depth start stop redirections) (hle : stop ≤ stop') :
    RedirectionsAt row depth start stop' redirections := by
  rcases h with hstart | ⟨hfront, hnext, hredirection, hstop⟩
  · exact .nil (hstart.trans hle)
  · exact .next hfront hnext hredirection (hstop.trans hle)

end Widen

namespace Grammar

/-! ### What is derived stands where its tokens do -/

section Placed

variable {row front : List Token}

mutual

theorem Primary.placed {depth : Nat} {tokens : List Token} {node : Node} {front : List Token}
    (h : Primary depth tokens node) (hcovers : Covers row front tokens) :
    PrimaryAt row depth front.length (front ++ tokens).length node := by
  match h with
  | .literal hkind htext =>
    rw [List.length_append]
    exact .string hcovers.head hkind htext
  | @Primary.group _ left right blanks inner back terms hleft hblanks hinner hback hright =>
    obtain ⟨hopens, hcloses, hlength⟩ := hcovers.brackets
    have hterms := hinner.placed hcovers.tail.left.left.right
      (.blanks (.concat (by simp [hleft])) hblanks) (by simp : front.length + 1 ≤ _)
      (by simp : _ ≤ (front ++ [left] ++ (blanks ++ inner ++ back)).length)
    rw [hlength]
    exact .group hopens hleft hterms hinner.head_pos hcloses hright
  | @Primary.emptyTable _ left right blanks hleft hblanks hright =>
    obtain ⟨hopens, hcloses, hlength⟩ := hcovers.brackets
    obtain ⟨next, hnext, horigin⟩ := hcovers.tail.exists_head (by simp)
    have hle : front.length + 1 ≤ (front ++ [left] ++ blanks).length := by simp
    rw [List.length_append] at hnext
    rw [hlength, horigin]
    exact .table hopens hleft hnext (.nil hle) (.nil hle) hcloses hright
  | @Primary.table _ left right blanks inner back entries hleft hblanks hinner hback hright =>
    obtain ⟨hopens, hcloses, hlength⟩ := hcovers.brackets
    -- the table begins at the first token behind its bracket, its elements behind the blanks
    obtain ⟨next, hnext, horigin⟩ :=
      hcovers.tail.left.left.exists_head (by simp [hinner.opensFactor.ne_nil])
    obtain ⟨helements, hpairs⟩ := hinner.placed hcovers.tail.left.left.right
      (.blanks (.concat (by simp [hleft])) hblanks) (by simp : front.length + 1 ≤ _)
      (by simp : _ ≤ (front ++ [left] ++ (blanks ++ inner ++ back)).length)
    rw [List.length_append] at hnext
    rw [hlength, horigin]
    exact .table hopens hleft hnext helements hpairs hcloses hright

theorem Factor.placed {depth : Nat} {join : Join} {tokens : List Token} {factor : Node}
    {front : List Token} (h : Factor depth join tokens factor) (hcovers : Covers row front tokens)
    (hfront : Undollared front) :
    FactorAt row depth join front.length (front ++ tokens).length factor := by
  match h with
  | @Factor.primary _ _ dollars tokens node hdollars hprimary =>
    have hplaced := hprimary.placed hcovers.right
    rw [List.length_append, List.append_assoc] at hplaced
    obtain ⟨first, hhead, horigin⟩ :=
      hcovers.exists_head (by simp [hprimary.opensFactor.ne_nil])
    rw [horigin]
    refine .mk hhead (fun index hle hlt ↦ ?_) (fun index token hindex htoken ↦ ?_) hplaced
    · obtain ⟨offset, rfl⟩ := Nat.exists_eq_add_of_le hle
      have hoffset : offset < dollars.length := Nat.lt_of_add_lt_add_left hlt
      refine ⟨dollars[offset], ?_, hdollars _ (List.getElem_mem hoffset)⟩
      rw [hcovers.left.getElem? hoffset, List.getElem?_eq_getElem hoffset]
    · -- no dollar is left out in front
      rw [hcovers.getElem?_before hindex] at htoken
      exact hfront token htoken

theorem Term.factorsAt {depth : Nat} {key : Bool} {tokens : List Token} {factors : List Node}
    {front : List Token} (h : Term depth key tokens factors) (hcovers : Covers row front tokens)
    (hfront : Undollared front) :
    FactorsAt row depth front.length (front ++ tokens).length factors := by
  match h with
  | .first hfactor => exact .first (hfactor.placed hcovers hfront)
  | .adjacent hterm hfactor hkey =>
    have hnext := hfactor.placed hcovers.right (.of_ends (hterm.endsUndollared.append _))
    rw [List.append_assoc] at hnext
    exact .next (hterm.factorsAt hcovers.left hfront) (Nat.le_refl _) (.inl rfl) hnext
  | @Term.caret _ _ init before after tokens caret _ _ hterm hbefore hcaret hafter hfactor =>
    -- blanks behind a caret do not hide that it is no dollar
    have hbehind := hcovers.right.right.tail
    have hnext := hfactor.placed hbehind.right (.blanks (.concat (by simp [hcaret])) hafter)
    have hlength : (front ++ init ++ before ++ [caret] ++ after ++ tokens).length =
        (front ++ (init ++ (before ++ caret :: (after ++ tokens)))).length := by simp
    rw [hlength] at hnext
    exact .next (hterm.factorsAt hcovers.left hfront) (by simp only [List.length_append]; omega)
      (.inr rfl) hnext

theorem Terms.placed {depth : Nat} {tokens : List Token} {terms : List Node} {front : List Token}
    {start stop : Nat} (h : Terms depth tokens terms) (hcovers : Covers row front tokens)
    (hfront : Undollared front) (hstart : start ≤ front.length)
    (hstop : (front ++ tokens).length ≤ stop) : TermsAt row depth start stop terms := by
  match h with
  | .first hterm =>
    exact .next (.nil (Nat.le_refl _)) hstart
      (.mk (hterm.factorsAt hcovers hfront) hterm.head_pos) hstop
  | @Terms.next _ init blanks tokens _ _ hterms hblanks _ hterm =>
    have hclear := Undollared.blanks (.of_ends (hterms.endsUndollared.append front)) hblanks
    have hnext := hterm.factorsAt hcovers.right.right hclear
    exact .next (hterms.placed hcovers.left hfront hstart (Nat.le_refl _))
      (by simp only [List.length_append]; omega) (.mk hnext hterm.head_pos)
      (by simp only [List.length_append] at hstop ⊢; omega)

theorem Element.placed {depth : Nat} {tokens : List Token} {entry : Entry} {front : List Token}
    {start stop : Nat} (h : Element depth tokens entry) (hcovers : Covers row front tokens)
    (hfront : Undollared front) (hstop : (front ++ tokens).length ≤ stop)
    {elements : List Node} {pairs : List (Node × Node)}
    (helements : TermsAt row depth start front.length elements)
    (hpairs : PairsAt row depth start front.length pairs) :
    TermsAt row depth start stop (elements ++ Entry.elements [entry]) ∧
      PairsAt row depth start stop (pairs ++ Entry.pairs [entry]) := by
  match h with
  | .alone hkey =>
    -- the pairs read so far stay where they are
    have hle : front.length ≤ stop := by simp only [List.length_append] at hstop; omega
    refine ⟨.next helements (Nat.le_refl _) (.mk (hkey.factorsAt hcovers hfront) hkey.head_pos)
      hstop, ?_⟩
    simpa [Entry.pairs] using hpairs.widen hle
  | @Element.pair _ init before after tokens equals _ _ hkey hbefore hequals hafter hvalue =>
    have hle : front.length ≤ stop := by simp only [List.length_append] at hstop; omega
    have hkind : equals.kind = .bare := Token.kind_of_isEquals hequals
    have hbehind := hcovers.right.right
    have hterm := hvalue.factorsAt hbehind.tail.right
      (.blanks (.concat (by simp [hkind])) hafter)
    refine ⟨by simpa [Entry.elements] using helements.widen hle, ?_⟩
    exact .next hpairs (Nat.le_refl _) (.mk (hkey.factorsAt hcovers.left hfront) hkey.head_pos)
      (by simp) hbehind.head hequals
      (by simp only [List.length_append, List.length_singleton]; omega)
      (.mk hterm hvalue.head_pos) (by simpa using hstop)

theorem Elements.placed {depth : Nat} {tokens : List Token} {entries : List Entry}
    {front : List Token} {start stop : Nat} (h : Elements depth tokens entries)
    (hcovers : Covers row front tokens)
    (hfront : Undollared front) (hstart : start ≤ front.length)
    (hstop : (front ++ tokens).length ≤ stop) :
    TermsAt row depth start stop (Entry.elements entries) ∧
      PairsAt row depth start stop (Entry.pairs entries) := by
  match h with
  | .first helement => exact helement.placed hcovers hfront hstop (.nil hstart) (.nil hstart)
  | @Elements.next _ init blanks tokens entries last entry hentries hblanks _ helement _ =>
    obtain ⟨helements, hpairs⟩ := hentries.placed hcovers.left hfront hstart (Nat.le_refl _)
    have hle : (front ++ init).length ≤ (front ++ init ++ blanks).length := by simp
    have hclear := Undollared.blanks (.of_ends (hentries.endsUndollared.append front)) hblanks
    have hplaced := helement.placed hcovers.right.right hclear
      (by simpa only [List.append_assoc] using hstop) (helements.widen hle) (hpairs.widen hle)
    rwa [Entry.elements_append, Entry.pairs_append]

end

variable {depth : Nat} {tokens : List Token}

theorem Redirect.placed {redirection : Redirection Node} (h : Redirect depth tokens redirection)
    (hcovers : Covers row front tokens) :
    RedirectionAt row depth front.length (front ++ tokens).length redirection := by
  rcases h with @⟨leader, blanks, tokens, _, _, _, hkind, hread, hblanks, hterm⟩ | ⟨hkind, hread⟩ |
    ⟨hkind, hread⟩
  · have hplaced := hterm.factorsAt hcovers.tail.right
      (.blanks (.concat (by simp [hkind])) hblanks)
    have hlength : (front ++ [leader] ++ blanks ++ tokens).length =
        (front ++ leader :: (blanks ++ tokens)).length := by simp
    rw [hlength] at hplaced
    exact .file hcovers.head hkind hread (by simp) (.mk hplaced hterm.head_pos)
  · rw [List.length_append]
    exact .duplicate hcovers.head hkind hread
  · rw [List.length_append]
    exact .close hcovers.head hkind hread

theorem Redirects.placed {redirections : List (Redirection Node)}
    (h : Redirects depth tokens redirections) (hcovers : Covers row front tokens) :
    RedirectionsAt row depth front.length (front ++ tokens).length redirections := by
  induction h with
  | nil => exact .nil (by simp)
  | next hfront hblanks hredirect ih =>
    have hplaced := hredirect.placed hcovers.right.right
    simp only [List.append_assoc] at hplaced
    exact .next (ih hcovers.left) (by simp) hplaced (Nat.le_refl _)

theorem Command.placed {command : Node} (h : Command depth tokens command)
    (hcovers : Covers row front tokens) (hfront : Undollared front) :
    CommandAt row depth front.length (front ++ tokens).length command := by
  obtain ⟨hbefore, hargs, hredirs, hafter⟩ := h
  have hplaced := hargs.placed hcovers.left.left.right (hfront.blanks hbefore)
    (by simp : front.length ≤ _) (Nat.le_refl _)
  have hredirections := hredirs.placed hcovers.left.right
  simp only [List.append_assoc] at hplaced hredirections
  exact .mk hplaced hargs.head_pos (hredirections.widen (by simp))

theorem Commands.placed {commands : List Node} (h : Commands depth tokens commands)
    (hcovers : Covers row front tokens) (hfront : Undollared front) :
    CommandsAt row depth front.length (front ++ tokens).length commands := by
  induction h with
  | first hcommand => exact .first (hcommand.placed hcovers hfront)
  | @next init tokens pipe _ _ hcommands hpipe hcommand ih =>
    have hplaced := hcommand.placed hcovers.right.tail (.concat (by simp [hpipe]))
    have hlength : (front ++ init ++ [pipe] ++ tokens).length =
        (front ++ (init ++ pipe :: tokens)).length := by simp
    rw [hlength, List.length_append, List.length_singleton] at hplaced
    exact .next (ih hcovers.left) hcovers.right.head hpipe hplaced

/-- A row of commands begins with a factor, behind blanks. -/
theorem Commands.exists_blanks {commands : List Node} (h : Commands depth tokens commands) :
    ∃ blanks rest, tokens = blanks ++ rest ∧ Blanks blanks ∧ OpensFactor rest := by
  induction h with
  | first hcommand =>
    obtain ⟨hbefore, hargs, -, -⟩ := hcommand
    exact ⟨_, _, by rw [List.append_assoc, List.append_assoc], hbefore,
      hargs.opensFactor.append _⟩
  | next _ _ _ ih =>
    obtain ⟨blanks, rest, rfl, hblanks, hopens⟩ := ih
    exact ⟨blanks, _, List.append_assoc .., hblanks, hopens.append _⟩

/-- The first token that is no blank stands behind the blanks. -/
theorem find?_solid {blanks rest : List Token} {token : Token} (hblanks : Blanks blanks)
    (hsolid : token.kind ≠ .space) :
    (blanks ++ token :: rest).find? (·.kind ≠ .space) = some token := by
  have hnone : blanks.find? (·.kind ≠ .space) = none :=
    List.find?_eq_none.2 fun blank hmem ↦ by simp [hblanks blank hmem]
  rw [List.find?_append, hnone]
  simp [hsolid]

theorem Line.placed {root : Sequence Node} (h : Line depth tokens root) :
    LineAt tokens depth root := by
  rcases h with @⟨blanks, last, hblanks, hlast⟩ | @⟨tokens, last, commands, hcommands, hlast⟩
  · refine ⟨rfl, ?_, .inl rfl, iff_of_true rfl ?_⟩
    · cases blanks <;> rfl
    · rw [find?_solid hblanks (by simp [hlast])]
      simp [hlast]
  · obtain ⟨blanks, rest, htokens, hblanks, first, rest, rfl, hstarts⟩ := hcommands.exists_blanks
    -- the end of the line belongs to none of the commands
    have hplaced := @Commands.placed (tokens ++ [last]) [] _ _ _ hcommands
      (List.prefix_append _ _) .nil
    refine ⟨rfl, ?_, .inr ?_, iff_of_false hcommands.ne_nil ?_⟩
    · cases tokens <;> rfl
    · simpa using hplaced
    · have hspace := Parser.ne_of_startsFactor .space hstarts rfl
      have hend := Parser.ne_of_startsFactor .endOfInput hstarts rfl
      rw [htokens, List.append_assoc, List.cons_append, find?_solid hblanks hspace]
      simpa using hend

end Placed

/-! ### Trees that are read -/

/-- **Every tree that is read is well formed and exactly placed** on the tokens that have been
pulled for it, with groups and tables nested at most as deep as the limit. -/
theorem tree_is_placed (limit : Nat) (stream : TokenStream) (parsed : Parsed)
    (h : (readLine limit stream).1 = .ok parsed) :
    LineAt (pulled limit stream) limit parsed.root := by
  rw [pulled_eq_line h]
  exact ((readLine_ok_iff limit stream parsed.root).1 ⟨parsed.hint, h⟩).placed

/-- A line that begins with a blank, and has one behind each of its brackets. -/
def blankInBrackets : TokenStream where
  tokens := [⟨.space, " ", 0, false⟩, ⟨.dollar, "$", 1, false⟩, ⟨.bare, "a", 2, false⟩,
    ⟨.space, " ", 3, false⟩, ⟨.leftParen, "(", 4, false⟩, ⟨.space, " ", 5, false⟩,
    ⟨.bare, "b", 6, false⟩, ⟨.rightParen, ")", 7, false⟩, ⟨.caret, "^", 8, false⟩,
    ⟨.bare, "c", 9, false⟩, ⟨.pipe, "|", 10, false⟩, ⟨.leftBracket, "[", 11, false⟩,
    ⟨.space, " ", 12, false⟩, ⟨.bare, "d", 13, false⟩, ⟨.bare, "=", 14, false⟩,
    ⟨.bare, "e", 15, false⟩, ⟨.rightBracket, "]", 16, false⟩, ⟨.leader, ">", 17, false⟩,
    ⟨.bare, "f", 18, false⟩, ⟨.endOfLine, "\n", 19, false⟩]
  endOffset := 20

/-- What `blankInBrackets` is read as. -/
def blankInBracketsTree : Sequence Node :=
  let word (pos : Nat) (join : Join) (text : String) : Node :=
    .factor pos 0 join (.string pos text text)
  let term (pos : Nat) (text : String) : Node := .list ⟨pos, .term, [word pos .start text]⟩
  let first : Node := .list ⟨1, .term, [.factor 1 1 .start (.string 2 "a" "a")]⟩
  let second : Node := .list ⟨4, .term, [.factor 4 0 .start (.list ⟨6, .termList, [term 6 "b"]⟩),
    word 9 .caret "c"]⟩
  let table : Node := .list ⟨11, .term, [.factor 11 0 .start
    (.table 12 [] [(term 13 "d", term 15 "e")])]⟩
  let target : Sequence Node := ⟨18, .term, [word 18 .start "f"]⟩
  ⟨0, .pipeline, [.command 1 ⟨1, .termList, [first, second]⟩ [],
    .command 11 ⟨11, .termList, [table]⟩ [.file 1 .writeCreate target]]⟩

theorem tree_is_placed_blankInBrackets :
    (readLine 1 blankInBrackets).1 = .ok ⟨blankInBracketsTree, none⟩ ∧
      LineAt blankInBrackets.tokens 1 blankInBracketsTree :=
  ⟨rfl, tree_is_placed 1 blankInBrackets ⟨blankInBracketsTree, none⟩ rfl⟩

end Grammar

end PipelineSyntax
