import Mathlib.Data.List.Forall2
import Mathlib.Data.List.Perm.Basic
import PipelineSyntax.Proofs.Placement
import PipelineSyntax.Proofs.Positions

/-!
# What the tokens of a line leave in its tree

Every token of a line that is no blank leaves one trace in the tree, and nothing is in the tree
that no token has left: a literal leaves the string that it is read as, a dollar one more of the
dollars of a factor, a caret the factor that it joins, a bracket the group or the table of which
it is one end, a leader its redirection, and the `=` of a pair the pair.

`Node.traces` lists the traces that a tree consists of, in an order of its own: a table keeps its
elements apart from its pairs. `Traced tokens traces` says that the tokens, but for the blanks,
are matched one to one with the traces in some order. Everything that can be counted in a tree is
counted from there.
-/

open PipelineSyntax.Parser

namespace PipelineSyntax

/-! ### Traces -/

/-- What one token leaves in a tree. -/
inductive Trace where
  /-- A token of a kind whose tokens all say the same. -/
  | sign (kind : Token.Kind)
  /-- A literal: where it begins, and as it is spelled. -/
  | literal (pos : Nat) (raw : String)
  /-- The `=` between a key and its value. -/
  | equals
  deriving DecidableEq

/-- Whether a token leaves the trace. -/
def Token.Leaves (token : Token) : Trace → Prop
  | .sign kind => token.kind = kind ∧ kind.isLiteral = false
  | .literal pos raw => token.kind.isLiteral = true ∧ token.offset = pos ∧ token.text = raw
  | .equals => token.isEquals = true

/-- What a caret leaves in the factor that it joins. -/
def Join.traces : Join → List Trace
  | caret => [.sign .caret]
  | _ => []

/-- What tokens have left in a node itself. Of the lists that are nodes, only a group has brackets
of its own. -/
def Node.ownTraces : Node → List Trace
  | list ⟨_, .termList, _⟩ => [.sign .leftParen, .sign .rightParen]
  | list _ => []
  | command _ _ redirections => redirections.map fun _ ↦ .sign .leader
  | factor _ dollars join _ => join.traces ++ List.replicate dollars (.sign .dollar)
  | string pos raw _ => [.literal pos raw]
  | table _ _ pairs => [.sign .leftBracket, .sign .rightBracket] ++ pairs.map fun _ ↦ .equals

/-- What tokens have left in a node and in all the nodes that stand in it. -/
def Node.traces (node : Node) : List Trace :=
  node.all.flatMap Node.ownTraces

theorem Node.traces_eq_append (node : Node) :
    node.traces = node.ownTraces ++ node.children.flatMap Node.traces := by
  rw [traces, all_eq_cons, List.flatMap_cons, List.flatMap_assoc]
  rfl

theorem Node.traces_term (pos : Nat) (factors : List Node) :
    (list ⟨pos, .term, factors⟩).traces = factors.flatMap traces :=
  traces_eq_append _

/-! ### Rows that leave traces -/

/-- The tokens that are no blanks have each left one of the traces, and there are no others. -/
def Traced (tokens : List Token) (traces : List Trace) : Prop :=
  ∃ order, order.Perm traces ∧ List.Forall₂ Token.Leaves (tokens.filter (·.kind ≠ .space)) order

namespace Traced

variable {token : Token} {tokens front back : List Token} {trace : Trace}
  {traces traces' left right : List Trace}

theorem perm (h : Traced tokens traces) (hperm : traces.Perm traces') : Traced tokens traces' := by
  obtain ⟨order, horder, hleaves⟩ := h
  exact ⟨order, horder.trans hperm, hleaves⟩

theorem append (h : Traced front left) (h' : Traced back right) :
    Traced (front ++ back) (left ++ right) := by
  obtain ⟨order, horder, hleaves⟩ := h
  obtain ⟨order', horder', hleaves'⟩ := h'
  refine ⟨order ++ order', horder.append horder', ?_⟩
  rw [List.filter_append]
  exact List.rel_append hleaves hleaves'

theorem blanks (h : Blanks tokens) : Traced tokens [] := by
  have hnil : tokens.filter (·.kind ≠ .space) = [] :=
    List.filter_eq_nil_iff.2 fun token hmem ↦ by simp [h token hmem]
  exact ⟨[], .refl _, hnil ▸ .nil⟩

theorem single (h : token.Leaves trace) (hspace : token.kind ≠ .space) : Traced [token] [trace] :=
  ⟨[trace], .refl _, by simpa [hspace] using h⟩

theorem sign {kind : Token.Kind} (h : token.kind = kind) (hliteral : kind.isLiteral = false)
    (hspace : kind ≠ .space) : Traced [token] [.sign kind] :=
  single ⟨h, hliteral⟩ (h ▸ hspace)

theorem equals (h : token.isEquals = true) : Traced [token] [.equals] :=
  have hkind : token.kind = .bare := Token.kind_of_isEquals h
  single h (by simp [hkind])

theorem literal (h : token.kind.isLiteral = true) :
    Traced [token] [.literal token.offset token.text] :=
  single ⟨h, rfl, rfl⟩ (fun hspace ↦ by rw [hspace] at h; cases h)

theorem dollars (h : OfKind .dollar tokens) :
    Traced tokens (List.replicate tokens.length (.sign .dollar)) := by
  induction tokens with
  | nil => exact blanks .nil
  | cons token tokens ih =>
    obtain ⟨hkind, hrest⟩ := OfKind.cons_iff.1 h
    exact (sign hkind rfl (by decide)).append (ih hrest)

/-- The two ends of a bracket, around what stands in it behind blanks and in front of them. -/
theorem brackets {opening closing : Token} {kind kind' : Token.Kind} {before after : List Token}
    (hopening : Traced [opening] [.sign kind]) (hbefore : Blanks before)
    (hinner : Traced tokens traces) (hafter : Blanks after)
    (hclosing : Traced [closing] [.sign kind']) :
    Traced (opening :: (before ++ tokens ++ after ++ [closing]))
      ([.sign kind, .sign kind'] ++ traces) := by
  have hrow := hopening.append ((((blanks hbefore).append hinner).append (blanks hafter)).append
    hclosing)
  refine hrow.perm (.cons _ ?_)
  simp

end Traced

/-! ### Tokens of one kind -/

/-- A token leaves the sign of a kind exactly if it is of that kind, unless it is a literal. -/
theorem Token.Leaves.kind_eq_iff {token : Token} {trace : Trace} {kind : Token.Kind}
    (h : token.Leaves trace) (hliteral : kind.isLiteral = false) :
    token.kind = kind ↔ trace = .sign kind := by
  cases trace with
  | sign other => simp [h.1]
  | literal pos raw =>
    refine iff_of_false (fun hkind ↦ ?_) (by simp)
    exact absurd (hkind ▸ h.1) (by simp [hliteral])
  | equals =>
    refine iff_of_false (fun hkind ↦ ?_) (by simp)
    simp_all [Token.Leaves, Token.isEquals, Token.Kind.isLiteral]

theorem countP_kind_of_leaves {tokens : List Token} {order : List Trace} {kind : Token.Kind}
    (h : List.Forall₂ Token.Leaves tokens order) (hliteral : kind.isLiteral = false) :
    tokens.countP (·.kind = kind) = order.count (.sign kind) := by
  induction h with
  | nil => rfl
  | cons hleaves _ ih =>
    rw [List.countP_cons, List.count_cons, ih]
    simp [hleaves.kind_eq_iff hliteral]

/-- As many tokens are of a kind as have left its sign, unless they are blanks or literals. -/
theorem Traced.countP_kind {tokens : List Token} {traces : List Trace} {kind : Token.Kind}
    (h : Traced tokens traces) (hliteral : kind.isLiteral = false) (hspace : kind ≠ .space) :
    tokens.countP (·.kind = kind) = traces.count (.sign kind) := by
  obtain ⟨order, horder, hleaves⟩ := h
  rw [← horder.count_eq, ← countP_kind_of_leaves hleaves hliteral, List.countP_filter]
  refine List.countP_congr fun token _ ↦ ?_
  simp +contextual [hspace]

/-! ### Entries of a table -/

/-- Traces that stand in front of some others each are as well put in front of all of them. -/
theorem perm_flatMap_cons {α : Type} (trace : Trace) (items : List α) (f : α → List Trace) :
    (items.flatMap fun item ↦ trace :: f item).Perm
      ((items.map fun _ ↦ trace) ++ items.flatMap f) := by
  have hperm := List.flatMap_append_perm items (fun _ ↦ [trace]) f
  rw [show items.flatMap (fun _ ↦ [trace]) = items.map fun _ ↦ trace from
    List.flatMap_pure_eq_map _ _] at hperm
  exact hperm.symm

/-- What tokens have left in an entry of a table. -/
def Entry.traces : Entry → List Trace
  | alone element => element.traces
  | pair key value => .equals :: (key.traces ++ value.traces)

/-- A table consists of what its entries consist of. -/
theorem Entry.perm_traces (entries : List Entry) :
    (entries.flatMap Entry.traces).Perm (((pairs entries).map fun _ ↦ .equals) ++
      ((elements entries).flatMap Node.traces ++
        (pairs entries).flatMap fun pair ↦ pair.1.traces ++ pair.2.traces)) := by
  induction entries with
  | nil => rfl
  | cons entry entries ih =>
    refine List.perm_iff_count.2 fun trace ↦ ?_
    have hcount := List.perm_iff_count.1 ih trace
    cases entry <;> simp [Entry.traces, elements, pairs, List.count_cons] at hcount ⊢ <;> omega

/-! ### Rows that are read -/

namespace Grammar

mutual

theorem Primary.traced {depth : Nat} {tokens : List Token} {node : Node}
    (h : Primary depth tokens node) : Traced tokens node.traces := by
  match h with
  | .literal hkind _ => exact .literal hkind
  | .group hleft hfront hinner hback hright =>
    rw [Node.traces_eq_append]
    exact .brackets (.sign hleft rfl (by decide)) hfront hinner.traced hback
      (.sign hright rfl (by decide))
  | .emptyTable hleft hfront hright =>
    have hinner : Traced [] [] := .blanks .nil
    have hrow := Traced.brackets (.sign hleft rfl (by decide)) hfront hinner .nil
      (.sign hright rfl (by decide))
    rw [Node.traces_eq_append]
    simpa [Node.ownTraces, Node.children] using hrow
  | .table hleft hfront hinner hback hright =>
    have hrow := Traced.brackets (.sign hleft rfl (by decide)) hfront hinner.traced hback
      (.sign hright rfl (by decide))
    rw [Node.traces_eq_append]
    refine hrow.perm (((Entry.perm_traces _).append_left _).trans (.of_eq ?_))
    simp [Node.ownTraces, Node.children, List.flatMap_assoc]

theorem Factor.traced {depth : Nat} {join : Join} {tokens before : List Token} {factor : Node}
    (h : Factor depth join tokens factor) (hbefore : Traced before join.traces) :
    Traced (before ++ tokens) factor.traces := by
  match h with
  | .primary hdollars hprimary =>
    have hrow := hbefore.append ((Traced.dollars hdollars).append hprimary.traced)
    rw [Node.traces_eq_append]
    simpa [Node.ownTraces, Node.children] using hrow

theorem Term.traced {depth : Nat} {key : Bool} {tokens : List Token} {factors : List Node}
    (h : Term depth key tokens factors) : Traced tokens (factors.flatMap Node.traces) := by
  match h with
  | .first hfactor =>
    have hrow := hfactor.traced (.blanks .nil)
    simpa using hrow
  | .adjacent hfront hfactor hkey =>
    have hrow := hfront.traced.append (hfactor.traced (.blanks .nil))
    simpa using hrow
  | .caret hfront hbefore hcaret hafter hfactor =>
    have hjoin : Traced _ Join.caret.traces :=
      (Traced.blanks hbefore).append ((Traced.sign hcaret rfl (by decide)).append (.blanks hafter))
    have hrow := hfront.traced.append (hfactor.traced hjoin)
    simpa using hrow

theorem Terms.traced {depth : Nat} {tokens : List Token} {terms : List Node}
    (h : Terms depth tokens terms) : Traced tokens (terms.flatMap Node.traces) := by
  match h with
  | .first hterm => simpa [Node.traces_term] using hterm.traced
  | .next hfront hblanks _ hterm =>
    have hrow := hfront.traced.append ((Traced.blanks hblanks).append hterm.traced)
    simpa [Node.traces_term] using hrow

theorem Element.traced {depth : Nat} {tokens : List Token} {entry : Entry}
    (h : Element depth tokens entry) : Traced tokens entry.traces := by
  match h with
  | .alone hkey => simpa [Entry.traces, Node.traces_term] using hkey.traced
  | .pair hkey hbefore hequals hafter hvalue =>
    have hbehind := (Traced.equals hequals).append ((Traced.blanks hafter).append hvalue.traced)
    have hrow := hkey.traced.append ((Traced.blanks hbefore).append hbehind)
    refine hrow.perm ?_
    simp [Entry.traces, Node.traces_term]

theorem Elements.traced {depth : Nat} {tokens : List Token} {entries : List Entry}
    (h : Elements depth tokens entries) : Traced tokens (entries.flatMap Entry.traces) := by
  match h with
  | .first helement => simpa using helement.traced
  | .next hfront hblanks _ helement _ =>
    have hrow := hfront.traced.append ((Traced.blanks hblanks).append helement.traced)
    simpa using hrow

end

variable {depth : Nat} {tokens : List Token}

theorem Redirect.traced {redirection : Redirection Node} (h : Redirect depth tokens redirection) :
    Traced tokens (.sign .leader :: redirection.targetNodes.flatMap Node.traces) := by
  rcases h with ⟨hkind, -, hblanks, hterm⟩ | ⟨hkind, -⟩ | ⟨hkind, -⟩
  · exact (Traced.sign hkind rfl (by decide)).append ((Traced.blanks hblanks).append hterm.traced)
  · exact .sign hkind rfl (by decide)
  · exact .sign hkind rfl (by decide)

theorem Redirects.traced {redirections : List (Redirection Node)}
    (h : Redirects depth tokens redirections) :
    Traced tokens (redirections.flatMap fun redirection ↦
      .sign .leader :: redirection.targetNodes.flatMap Node.traces) := by
  induction h with
  | nil => exact .blanks .nil
  | next hfront hblanks hredirect ih =>
    have hrow := ih.append ((Traced.blanks hblanks).append hredirect.traced)
    simpa using hrow

theorem Command.traced {command : Node} (h : Command depth tokens command) :
    Traced tokens command.traces := by
  obtain @⟨_, _, _, _, _, redirections, hbefore, hargs, hredirs, hafter⟩ := h
  have hrow := (((Traced.blanks hbefore).append hargs.traced).append hredirs.traced).append
    (.blanks hafter)
  -- the leaders are counted with the command, and what they open with its nodes
  have hleaders := perm_flatMap_cons (.sign .leader) redirections
    fun redirection ↦ redirection.targetNodes.flatMap Node.traces
  rw [Node.traces_eq_append]
  refine hrow.perm (List.perm_iff_count.2 fun trace ↦ ?_)
  have hcount := List.perm_iff_count.1 hleaders trace
  simp [Node.ownTraces, Node.children, List.flatMap_assoc] at hcount ⊢
  omega

/-- The bars between commands leave nothing in the commands. -/
theorem Commands.traced {commands : List Node} (h : Commands depth tokens commands) :
    Traced tokens (List.replicate (commands.length - 1) (.sign .pipe) ++
      commands.flatMap Node.traces) := by
  induction h with
  | first hcommand => simpa using hcommand.traced
  | @next _ _ _ commands _ hfront hpipe hcommand ih =>
    have hrow := ih.append ((Traced.sign hpipe rfl (by decide)).append hcommand.traced)
    have hpos : 0 < commands.length := List.length_pos_iff.2 hfront.ne_nil
    refine hrow.perm (List.perm_iff_count.2 fun trace ↦ ?_)
    simp [List.count_replicate, List.count_cons]
    split <;> omega

/-- What a line has left: the token that ends it and the bars between its commands are not in
the tree. -/
theorem Line.traced {root : Sequence Node} (h : Line depth tokens root) :
    ∃ last, last.endsLine = true ∧ Traced tokens
      (.sign last :: (List.replicate (root.nodes.length - 1) (.sign .pipe) ++
        root.nodes.flatMap Node.traces)) := by
  rcases h with @⟨blanks, last, hblanks, hlast⟩ | @⟨tokens, last, commands, hcommands, hlast⟩
  · refine ⟨.endOfInput, rfl, ?_⟩
    simpa using (Traced.blanks hblanks).append (.sign hlast rfl (by decide))
  · refine ⟨last.kind, hlast, ?_⟩
    have hend : Traced [last] [.sign last.kind] :=
      have hkind : last.kind.isLiteral = false ∧ last.kind ≠ .space := by
        revert hlast
        cases last.kind <;> decide
      .sign rfl hkind.1 hkind.2
    exact (hcommands.traced.append hend).perm List.perm_append_comm

end Grammar

end PipelineSyntax
