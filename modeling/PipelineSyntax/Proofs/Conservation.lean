import Mathlib.Algebra.Ring.Nat
import PipelineSyntax.Proofs.Traces

/-!
# No token is lost and none counted twice

What can be counted in the tree of a line is counted in its tokens: redirections in leaders,
dollars and carets in factors, groups and tables in their brackets, and the literals are the
strings of the tree and one bare `=` for each pair of a table.

All of it is read off `Grammar.Line.traced`, by which every token that is no blank has left one
trace: a count of tokens is a count of traces, and a count of traces is one of nodes.
-/

open PipelineSyntax.Parser

namespace PipelineSyntax

/-! ### What is counted in a node -/

namespace Node

/-- The redirections of a node itself. -/
def redirections : Node → List (Redirection Node)
  | command _ _ redirections => redirections
  | _ => []

/-- The number of dollars in front of a node itself. -/
def dollars : Node → Nat
  | factor _ dollars _ _ => dollars
  | _ => 0

/-- Whether a node is a factor that a caret joins. -/
def isCaretFactor : Node → Bool
  | factor _ _ .caret _ => true
  | _ => false

/-- Whether a node is a group. -/
def isGroup : Node → Bool
  | list ⟨_, .termList, _⟩ => true
  | _ => false

/-- The pairs of a node itself. -/
def pairs : Node → List (Node × Node)
  | table _ _ pairs => pairs
  | _ => []

/-- Where a literal begins, and as it is spelled. -/
def literal? : Node → Option (Nat × String)
  | string pos raw _ => some (pos, raw)
  | _ => none

/-- How many tokens of a kind a node itself takes. -/
def signs (node : Node) : Token.Kind → Nat
  | .leader => node.redirections.length
  | .dollar => node.dollars
  | .caret => node.isCaretFactor.toNat
  | .leftParen | .rightParen => node.isGroup.toNat
  | .leftBracket | .rightBracket => node.isTable.toNat
  | _ => 0

theorem count_sign (node : Node) (kind : Token.Kind) :
    node.ownTraces.count (.sign kind) = node.signs kind := by
  rcases node with ⟨_, _ | _ | _, _⟩ | _ | ⟨_, _, _ | _ | _, _⟩ | _ | _ <;> cases kind <;>
    simp [ownTraces, Join.traces, signs, redirections, dollars, isCaretFactor, isGroup, isTable,
      List.count_replicate]

theorem count_equals (node : Node) : node.ownTraces.count .equals = node.pairs.length := by
  rcases node with ⟨_, _ | _ | _, _⟩ | _ | ⟨_, _, _ | _ | _, _⟩ | _ | _ <;>
    simp [ownTraces, pairs, Join.traces, List.count_replicate]

end Node

theorem Sequence.flatMap_traces (items : Sequence Node) :
    items.nodes.flatMap Node.traces = items.all.flatMap Node.ownTraces := by
  rw [Sequence.all_eq_flatMap, List.flatMap_assoc]
  rfl

/-- Counting one for each node that is so is counting the nodes that are so. -/
theorem sum_map_toNat (nodes : List Node) (p : Node → Bool) :
    (nodes.map fun node ↦ (p node).toNat).sum = nodes.countP p := by
  induction nodes with
  | nil => rfl
  | cons node nodes ih =>
    rw [List.map_cons, List.sum_cons, ih, List.countP_cons, Nat.add_comm]
    cases p node <;> rfl

/-! ### What is counted in tokens -/

/-- Where a token begins, and its text. -/
def Token.placed (token : Token) : Nat × String :=
  (token.offset, token.text)

/-- The literal that has left a trace. -/
def Trace.literal? : Trace → Option (Nat × String)
  | literal pos raw => some (pos, raw)
  | _ => none

theorem Node.filterMap_literal? (node : Node) :
    node.ownTraces.filterMap Trace.literal? = node.literal?.toList := by
  rcases node with ⟨_, _ | _ | _, _⟩ | _ | ⟨_, _, _ | _ | _, _⟩ | _ | _ <;>
    simp [ownTraces, literal?, Join.traces, Trace.literal?]

theorem filterMap_flatMap_literal? (nodes : List Node) :
    (nodes.flatMap Node.ownTraces).filterMap Trace.literal? = nodes.filterMap Node.literal? := by
  simp only [List.filterMap_flatMap, Node.filterMap_literal?]
  exact (List.filterMap_eq_flatMap_toList _ _).symm

section Matched

variable {tokens : List Token} {order : List Trace}

/-- The literals that have left no string are the separators of pairs. -/
theorem exists_separators_of_leaves (h : List.Forall₂ Token.Leaves tokens order) :
    ∃ separators : List Token, separators.Sublist tokens ∧
      (∀ separator ∈ separators, separator.isEquals = true) ∧
      separators.length = order.count .equals ∧
      ((tokens.filter (·.kind.isLiteral)).map Token.placed).Perm
        (order.filterMap Trace.literal? ++ separators.map Token.placed) := by
  induction h with
  | nil => exact ⟨[], .slnil, by simp, rfl, .nil⟩
  | @cons token trace tokens order hleaves _ ih =>
    obtain ⟨separators, hsub, hequals, hlength, hperm⟩ := ih
    cases trace with
    | sign kind =>
      have hliteral : token.kind.isLiteral = false := hleaves.1 ▸ hleaves.2
      refine ⟨separators, hsub.cons _, hequals, ?_, ?_⟩
      · simpa using hlength
      · simpa [hliteral, Trace.literal?, List.filterMap_cons] using hperm
    | literal pos raw =>
      obtain ⟨hliteral, rfl, rfl⟩ := hleaves
      refine ⟨separators, hsub.cons _, hequals, ?_, ?_⟩
      · simpa using hlength
      · simpa [hliteral, Trace.literal?, Token.placed] using hperm
    | equals =>
      have hliteral : token.kind.isLiteral = true := by
        simp_all [Token.Leaves, Token.isEquals, Token.Kind.isLiteral]
      refine ⟨token :: separators, hsub.cons_cons _, ?_, ?_, ?_⟩
      · exact List.forall_mem_cons.2 ⟨hleaves, hequals⟩
      · simpa using hlength
      · simpa [hliteral, Trace.literal?, List.filterMap_cons] using
          (hperm.cons token.placed).trans List.perm_middle.symm

end Matched

namespace Traced

variable {tokens : List Token} {traces : List Trace}

/-- The literals are those that have left a string, and one bare `=` for each pair. -/
theorem exists_separators (h : Traced tokens traces) :
    ∃ separators : List Token, separators.Sublist tokens ∧
      (∀ separator ∈ separators, separator.isEquals = true) ∧
      separators.length = traces.count .equals ∧
      ((tokens.filter (·.kind.isLiteral)).map Token.placed).Perm
        (traces.filterMap Trace.literal? ++ separators.map Token.placed) := by
  obtain ⟨order, horder, hleaves⟩ := h
  obtain ⟨separators, hsub, hequals, hlength, hperm⟩ := exists_separators_of_leaves hleaves
  have hliterals : (tokens.filter (·.kind ≠ .space)).filter (·.kind.isLiteral) =
      tokens.filter (·.kind.isLiteral) := by
    rw [List.filter_filter]
    refine List.filter_congr fun token _ ↦ ?_
    cases token.kind <;> rfl
  refine ⟨separators, hsub.trans List.filter_sublist, hequals, ?_, ?_⟩
  · rw [hlength, horder.count_eq]
  · rw [hliterals] at hperm
    exact hperm.trans ((horder.filterMap _).append_right _)

end Traced

/-! ### Lines -/

/-- What is counted in the tokens of a line is what is counted in its tree. -/
structure Conserved (row : List Token) (root : Sequence Node) : Prop where
  /-- Each leader is that of one redirection. -/
  leaders : row.countP (·.kind = .leader) = (root.all.flatMap Node.redirections).length
  /-- Each dollar is one of those of a factor. -/
  dollars : row.countP (·.kind = .dollar) = (root.all.map Node.dollars).sum
  /-- Each caret joins one factor. -/
  carets : row.countP (·.kind = .caret) = root.all.countP Node.isCaretFactor
  /-- Each parenthesis that opens is that of one group. -/
  leftParens : row.countP (·.kind = .leftParen) = root.all.countP Node.isGroup
  /-- Each parenthesis that closes is that of one group. -/
  rightParens : row.countP (·.kind = .rightParen) = root.all.countP Node.isGroup
  /-- Each bracket that opens is that of one table. -/
  leftBrackets : row.countP (·.kind = .leftBracket) = root.all.countP Node.isTable
  /-- Each bracket that closes is that of one table. -/
  rightBrackets : row.countP (·.kind = .rightBracket) = root.all.countP Node.isTable
  /-- The literals, with their places and spellings, are the strings of the tree and one bare
  `=` for each pair. -/
  literals : ∃ separators : List Token, separators.Sublist row ∧
    (∀ separator ∈ separators, separator.isEquals = true) ∧
    separators.length = (root.all.flatMap Node.pairs).length ∧
    ((row.filter (·.kind.isLiteral)).map Token.placed).Perm
      (root.all.filterMap Node.literal? ++ separators.map Token.placed)

namespace Grammar

theorem Line.conserved {depth : Nat} {tokens : List Token} {root : Sequence Node}
    (h : Line depth tokens root) : Conserved tokens root := by
  obtain ⟨last, hlast, htraced⟩ := h.traced
  rw [root.flatMap_traces] at htraced
  -- neither the end of the line nor a bar is among what is counted
  have hkind {kind : Token.Kind} (hliteral : kind.isLiteral = false) (hspace : kind ≠ .space)
      (hpipe : kind ≠ .pipe) (hends : kind.endsLine = false) :
      tokens.countP (·.kind = kind) = (root.all.map (Node.signs · kind)).sum := by
    have hother : last ≠ kind := fun heq ↦ by simp_all
    rw [htraced.countP_kind hliteral hspace, List.count_cons, List.count_append,
      List.count_replicate, List.count_flatMap]
    simp [hother, Ne.symm hpipe, Function.comp_def, Node.count_sign]
  obtain ⟨separators, hsub, hequals, hlength, hperm⟩ := htraced.exists_separators
  refine ⟨?_, ?_, ?_, ?_, ?_, ?_, ?_, separators, hsub, hequals, ?_, ?_⟩
  · exact (hkind rfl (by decide) (by decide) rfl).trans List.length_flatMap.symm
  · exact hkind rfl (by decide) (by decide) rfl
  · exact (hkind rfl (by decide) (by decide) rfl).trans (sum_map_toNat _ _)
  · exact (hkind rfl (by decide) (by decide) rfl).trans (sum_map_toNat _ _)
  · exact (hkind rfl (by decide) (by decide) rfl).trans (sum_map_toNat _ _)
  · exact (hkind rfl (by decide) (by decide) rfl).trans (sum_map_toNat _ _)
  · exact (hkind rfl (by decide) (by decide) rfl).trans (sum_map_toNat _ _)
  · rw [hlength, List.length_flatMap, List.count_cons, List.count_append, List.count_flatMap]
    simp [List.count_replicate, Function.comp_def, Node.count_equals]
  · have hliterals : List.filterMap Trace.literal? (.sign last ::
        (List.replicate (root.nodes.length - 1) (.sign .pipe) ++
          root.all.flatMap Node.ownTraces)) = root.all.filterMap Node.literal? := by
      rw [List.filterMap_cons_none rfl, List.filterMap_append,
        List.filterMap_replicate_of_none rfl, List.nil_append, filterMap_flatMap_literal?]
    rwa [hliterals] at hperm

/-- **No token of a line is lost, and none is counted twice**: what is counted in the tokens that
have been pulled is what is counted in the tree that is read. The nodes stand in the tree in the
order of their tokens, arguments and redirections within their command, elements and pairs within
their table; and each redirection does what the leader at its place says. -/
theorem tokens_are_conserved (limit : Nat) (stream : TokenStream) (parsed : Parsed)
    (h : (readLine limit stream).1 = .ok parsed) :
    Conserved (pulled limit stream) parsed.root ∧
      LineAt (pulled limit stream) limit parsed.root := by
  have hline := (readLine_ok_iff limit stream parsed.root).1 ⟨parsed.hint, h⟩
  rw [pulled_eq_line h]
  exact ⟨hline.conserved, hline.placed⟩

/-- A line with a caret between blanks, a key that is itself an `=`, and three redirections, of
which the first opens a table with a group in it. -/
def groupInTarget : TokenStream where
  tokens := [⟨.dollar, "$", 0, false⟩, ⟨.bare, "a", 1, false⟩, ⟨.space, " ", 2, false⟩,
    ⟨.caret, "^", 3, false⟩, ⟨.space, " ", 4, false⟩, ⟨.singleQuoted, "'b'", 5, false⟩,
    ⟨.space, " ", 8, false⟩, ⟨.leftBracket, "[", 9, false⟩, ⟨.bare, "=", 10, false⟩,
    ⟨.space, " ", 11, false⟩, ⟨.bare, "=", 12, false⟩, ⟨.bare, "x", 13, false⟩,
    ⟨.space, " ", 14, false⟩, ⟨.bare, "y", 15, false⟩, ⟨.rightBracket, "]", 16, false⟩,
    ⟨.space, " ", 17, false⟩, ⟨.leader, ">>", 18, false⟩, ⟨.leftBracket, "[", 20, false⟩,
    ⟨.bare, "k", 21, false⟩, ⟨.bare, "=", 22, false⟩, ⟨.leftParen, "(", 23, false⟩,
    ⟨.bare, "v", 24, false⟩, ⟨.rightParen, ")", 25, false⟩, ⟨.rightBracket, "]", 26, false⟩,
    ⟨.leader, ">[2=1]", 27, false⟩, ⟨.space, " ", 33, false⟩, ⟨.leader, ">[3=]", 34, false⟩,
    ⟨.endOfLine, "\n", 39, false⟩]
  endOffset := 40

/-- What `groupInTarget` is read as. -/
def groupInTargetTree : Sequence Node :=
  let word (pos : Nat) (text : String) : Node := .factor pos 0 .start (.string pos text text)
  let term (pos : Nat) (text : String) : Node := .list ⟨pos, .term, [word pos text]⟩
  let one (pos : Nat) (node : Node) : Sequence Node := ⟨pos, .term, [.factor pos 0 .start node]⟩
  let first : Node := .list ⟨0, .term, [.factor 0 1 .start (.string 1 "a" "a"),
    .factor 5 0 .caret (.string 5 "'b'" "b")]⟩
  let second : Node := .list (one 9 (.table 10 [term 15 "y"] [(term 10 "=", term 13 "x")]))
  let group : Node := .list (one 23 (.list ⟨24, .termList, [term 24 "v"]⟩))
  ⟨0, .pipeline, [.command 0 ⟨0, .termList, [first, second]⟩
    [.file 1 .writeCreateAppend (one 20 (.table 21 [] [(term 21 "k", group)])),
      .duplicate 2 1, .close 3]]⟩

theorem tokens_are_conserved_groupInTarget :
    (readLine 2 groupInTarget).1 = .ok ⟨groupInTargetTree, none⟩ ∧
      Conserved groupInTarget.tokens groupInTargetTree ∧
      LineAt groupInTarget.tokens 2 groupInTargetTree :=
  ⟨rfl, tokens_are_conserved 2 groupInTarget ⟨groupInTargetTree, none⟩ rfl⟩

end Grammar

end PipelineSyntax
