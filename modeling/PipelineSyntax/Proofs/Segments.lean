import PipelineSyntax.Proofs.Lines
import PipelineSyntax.Proofs.Traces

/-!
# Commands are read one by one

A line cut at its bars falls into segments, and each segment is one command: it is read in the
line as it is read alone. So the line can be read exactly if each of its segments can, and the
commands of its tree are those of the segments, in their order.

That no bar hides inside a command is seen from what tokens leave in a tree (`Command.barless`):
a bar leaves nothing in any node. The rest is that commands between bars are put together from
either end (`Commands.prepend`).
-/

open PipelineSyntax.Parser

namespace PipelineSyntax

/-! ### Cutting at bars -/

/-- No token of the row is a bar. -/
def Barless (tokens : List Token) : Prop :=
  ∀ token ∈ tokens, token.kind ≠ .pipe

/-- The parts of a row between its bars. -/
def segments (tokens : List Token) : List (List Token) :=
  tokens.splitOnP (·.kind = .pipe)

section Matching

variable {α β : Type} {R S : α → β → Prop} {items : List α} {partners : List β}

theorem forall₂_congr_of_mem (h : ∀ item ∈ items, ∀ partner, R item partner ↔ S item partner) :
    List.Forall₂ R items partners ↔ List.Forall₂ S items partners := by
  constructor
  · intro hall
    exact ((List.forall₂_and_left _ _).2 ⟨h, hall⟩).imp fun _ _ hmem ↦ (hmem.1 _).1 hmem.2
  · intro hall
    exact ((List.forall₂_and_left _ _).2 ⟨h, hall⟩).imp fun _ _ hmem ↦ (hmem.1 _).2 hmem.2

/-- Partners for all of the items are found exactly if there is one for each. -/
theorem exists_forall₂_iff :
    (∃ partners, List.Forall₂ R items partners) ↔ ∀ item ∈ items, ∃ partner, R item partner := by
  induction items with
  | nil => simp
  | cons item items ih => simp [List.forall₂_cons_left_iff, ← ih]

end Matching

section Cutting

variable {tokens front back : List Token} {bar : Token}

theorem segments_of_barless (h : Barless tokens) : segments tokens = [tokens] :=
  List.splitOnP_eq_singleton fun token hmem ↦ decide_eq_false (h token hmem)

theorem segments_append (front back : List Token) (hbar : bar.kind = .pipe) :
    segments (front ++ bar :: back) = segments front ++ segments back :=
  List.splitOnP_append_cons front back (decide_eq_true hbar)

/-- There is one segment more than there are bars. -/
theorem length_segments (tokens : List Token) :
    (segments tokens).length = tokens.countP (·.kind = .pipe) + 1 := by
  induction tokens with
  | nil => rfl
  | cons token tokens ih =>
    rw [segments] at ih ⊢
    rw [List.splitOnP_cons_eq_if_modifyHead, List.countP_cons]
    split <;> simp_all

/-- A row without a bar is one segment, and any other begins with one in front of its first bar. -/
theorem barless_or_exists_bar (tokens : List Token) :
    Barless tokens ∨ ∃ front bar back,
      tokens = front ++ bar :: back ∧ Barless front ∧ bar.kind = .pipe := by
  induction tokens with
  | nil => exact .inl fun _ hmem ↦ absurd hmem List.not_mem_nil
  | cons token tokens ih =>
    by_cases hbar : token.kind = .pipe
    · exact .inr ⟨[], token, tokens, rfl, fun _ hmem ↦ absurd hmem List.not_mem_nil, hbar⟩
    rcases ih with hrest | ⟨front, bar, back, rfl, hfront, hpipe⟩
    · exact .inl (List.forall_mem_cons.2 ⟨hbar, hrest⟩)
    · exact .inr ⟨token :: front, bar, back, rfl, List.forall_mem_cons.2 ⟨hbar, hfront⟩, hpipe⟩

end Cutting

namespace Grammar

variable {depth : Nat} {tokens front back : List Token} {bar : Token} {command : Node}
  {commands : List Node}

/-! ### Commands and segments -/

/-- No node is what a bar has left. -/
theorem bar_notMem_traces (node : Node) : .sign .pipe ∉ node.traces := by
  intro hmem
  obtain ⟨inner, -, hown⟩ := List.mem_flatMap.1 hmem
  rcases inner with ⟨_, _ | _ | _, _⟩ | _ | ⟨_, _, _ | _ | _, _⟩ | _ | _ <;>
    simp [Node.ownTraces, Join.traces] at hown

theorem Command.barless (h : Command depth tokens command) : Barless tokens := by
  have hcount : tokens.countP (·.kind = .pipe) = _ := h.traced.countP_kind rfl (by decide)
  rw [List.count_eq_zero.2 (bar_notMem_traces command), List.countP_eq_zero] at hcount
  simpa [Barless] using hcount

/-- Commands between bars are as well read from the first of them on. -/
theorem Commands.prepend (hcommand : Command depth front command) (hbar : bar.kind = .pipe)
    (hback : Commands depth back commands) :
    Commands depth (front ++ bar :: back) (command :: commands) := by
  induction hback with
  | first hlast => exact .next (.first hcommand) hbar hlast
  | @next middle last pipe _ _ _ hpipe hlast ih =>
    have hall := Commands.next ih hpipe hlast
    rwa [List.append_assoc, List.cons_append] at hall

/-- A row is read as commands between bars exactly if each of its segments is read as one. -/
theorem commands_iff_segments :
    Commands depth tokens commands ↔ List.Forall₂ (Command depth) (segments tokens) commands := by
  constructor
  · intro h
    induction h with
    | first hcommand =>
      rw [segments_of_barless hcommand.barless]
      exact .cons hcommand .nil
    | next _ hpipe hcommand ih =>
      rw [segments_append _ _ hpipe, segments_of_barless hcommand.barless]
      exact List.rel_append ih (.cons hcommand .nil)
  · intro h
    induction commands generalizing tokens with
    | nil =>
      have hlength := length_segments tokens
      rw [h.length_eq] at hlength
      cases hlength
    | cons command commands ih =>
      rcases barless_or_exists_bar tokens with hbarless | ⟨front, bar, back, rfl, hbarless, hbar⟩
      · rw [segments_of_barless hbarless] at h
        cases h with
        | cons hcommand hrest =>
          cases hrest
          exact .first hcommand
      · rw [segments_append front back hbar, segments_of_barless hbarless] at h
        cases h with
        | cons hcommand hrest => exact .prepend hcommand hbar (ih hrest)

/-! ### Lines and segments -/

section Lines

variable {limit : Nat} {stream : TokenStream} {last : Token}

/-- The last token of a line ends it. -/
theorem endsLine_of_line_eq (hline : stream.line = tokens ++ [last]) :
    last.kind.endsLine = true := by
  obtain ⟨front, stop, hstop, -, hends⟩ := stream.exists_line_eq
  obtain ⟨-, hlast⟩ := List.append_inj' (hline.symm.trans hstop) rfl
  rwa [List.singleton_injective hlast]

/-- A line is read as some commands exactly if its tokens, but for the last, are. -/
theorem readLine_commands_iff (hline : stream.line = tokens ++ [last]) :
    (∃ parsed, (readLine limit stream).1 = .ok parsed ∧ parsed.root.nodes ≠ [] ∧
      parsed.root.nodes = commands) ↔ Commands limit tokens commands := by
  constructor
  · rintro ⟨⟨⟨pos, kind, nodes⟩, hint⟩, hparsed, hne, rfl⟩
    have hroot := (readLine_ok_iff limit stream _).1 ⟨hint, hparsed⟩
    rw [hline] at hroot
    generalize hrow : tokens ++ [last] = row at hroot
    cases hroot with
    | empty => exact absurd rfl hne
    | commands hcommands => rwa [List.append_inj_left' hrow rfl]
  · intro hcommands
    have hroot := Line.commands hcommands (endsLine_of_line_eq hline)
    rw [← hline] at hroot
    obtain ⟨hint, hparsed⟩ := (readLine_ok_iff limit stream _).2 hroot
    exact ⟨_, hparsed, hcommands.ne_nil, rfl⟩

theorem commands_singleton_iff :
    Commands depth tokens [command] ↔ Command depth tokens command := by
  refine ⟨fun h ↦ ?_, .first⟩
  generalize hcommands : [command] = commands at h
  cases h with
  | first hcommand => rwa [List.singleton_injective hcommands]
  | next hfront =>
    -- a command in front would be a second one
    have hlength := congrArg List.length hcommands
    have hpos := List.length_pos_iff.2 hfront.ne_nil
    simp only [List.length_append, List.length_singleton] at hlength
    omega

/-- A line is read as one command exactly if its tokens, but for the last, are. -/
theorem readLine_command_iff (hline : stream.line = tokens ++ [last]) :
    (∃ parsed, (readLine limit stream).1 = .ok parsed ∧ parsed.root.nodes = [command]) ↔
      Command limit tokens command := by
  rw [← commands_singleton_iff, ← readLine_commands_iff hline]
  refine exists_congr fun parsed ↦ and_congr_right fun _ ↦ ⟨fun h ↦ ⟨?_, h⟩, And.right⟩
  rw [h]
  exact List.cons_ne_nil _ _

end Lines

/-- **A pipeline is read segment by segment.** Whatever line is cut at its bars, and whichever
streams have the segments for their lines, the line is read as commands exactly if each segment
is read as one command alone, and then its commands are those of the segments. -/
theorem commands_are_read_alone (limit : Nat) (stream : TokenStream)
    (alone : List Token → TokenStream) {tokens : List Token} {last : Token}
    (hline : stream.line = tokens ++ [last])
    (halone : ∀ segment ∈ segments tokens, ∃ stop, (alone segment).line = segment ++ [stop]) :
    ((∃ parsed, (readLine limit stream).1 = .ok parsed ∧ parsed.root.nodes ≠ []) ↔
      ∀ segment ∈ segments tokens, ∃ parsed command,
        (readLine limit (alone segment)).1 = .ok parsed ∧ parsed.root.nodes = [command]) ∧
    ∀ parsed, (readLine limit stream).1 = .ok parsed → parsed.root.nodes ≠ [] →
      parsed.root.nodes.length = tokens.countP (·.kind = .pipe) + 1 ∧
      List.Forall₂ (fun segment command ↦ ∃ single,
        (readLine limit (alone segment)).1 = .ok single ∧ single.root.nodes = [command])
        (segments tokens) parsed.root.nodes := by
  have hsegments (commands : List Node) : Commands limit tokens commands ↔
      List.Forall₂ (fun segment command ↦ ∃ single,
        (readLine limit (alone segment)).1 = .ok single ∧ single.root.nodes = [command])
        (segments tokens) commands := by
    rw [commands_iff_segments]
    refine forall₂_congr_of_mem fun segment hmem command ↦ ?_
    obtain ⟨stop, hstop⟩ := halone segment hmem
    exact (readLine_command_iff hstop).symm
  refine ⟨?_, fun parsed hparsed hne ↦ ?_⟩
  · calc (∃ parsed, (readLine limit stream).1 = .ok parsed ∧ parsed.root.nodes ≠ [])
        ↔ ∃ commands, Commands limit tokens commands := by
          simp only [← readLine_commands_iff hline]
          exact ⟨fun ⟨parsed, hparsed, hne⟩ ↦ ⟨_, parsed, hparsed, hne, rfl⟩,
            fun ⟨_, parsed, hparsed, hne, _⟩ ↦ ⟨parsed, hparsed, hne⟩⟩
      _ ↔ ∀ segment ∈ segments tokens, ∃ command single,
            (readLine limit (alone segment)).1 = .ok single ∧ single.root.nodes = [command] := by
          simp only [hsegments, exists_forall₂_iff]
      _ ↔ _ := forall₂_congr fun _ _ ↦ exists_comm
  · have hall := (hsegments _).1 ((readLine_commands_iff hline).1 ⟨parsed, hparsed, hne, rfl⟩)
    exact ⟨by rw [← hall.length_eq, length_segments], hall⟩

/-- A line of three commands, with a caret behind a blank in the first, a table and a redirection
in the second, and blanks around the last. -/
def threeCommands : TokenStream where
  tokens := [⟨.bare, "a", 0, false⟩, ⟨.space, " ", 1, false⟩, ⟨.caret, "^", 2, false⟩,
    ⟨.bare, "b", 3, false⟩, ⟨.pipe, "|", 4, false⟩, ⟨.leftBracket, "[", 5, false⟩,
    ⟨.bare, "c", 6, false⟩, ⟨.bare, "=", 7, false⟩, ⟨.bare, "d", 8, false⟩,
    ⟨.rightBracket, "]", 9, false⟩, ⟨.leader, ">", 10, false⟩, ⟨.bare, "e", 11, false⟩,
    ⟨.pipe, "|", 12, false⟩, ⟨.space, " ", 13, false⟩, ⟨.bare, "f", 14, false⟩,
    ⟨.space, " ", 15, false⟩, ⟨.endOfLine, "\n", 16, false⟩]
  endOffset := 17

theorem commands_are_read_alone_threeCommands :
    ∃ parsed, (readLine 1 threeCommands).1 = .ok parsed ∧ parsed.root.nodes.length = 3 ∧
      List.Forall₂ (fun segment command ↦ ∃ single,
        (readLine 1 ⟨segment, 0⟩).1 = .ok single ∧ single.root.nodes = [command])
        (segments threeCommands.tokens.dropLast) parsed.root.nodes :=
  have hline : threeCommands.line =
      threeCommands.tokens.dropLast ++ [⟨.endOfLine, "\n", 16, false⟩] := rfl
  have halone : ∀ segment ∈ segments threeCommands.tokens.dropLast,
      TokenStream.line ⟨segment, 0⟩ = segment ++ [.endOfInput 0] := by decide
  ⟨_, rfl, rfl, ((commands_are_read_alone 1 threeCommands (⟨·, 0⟩) hline
    fun segment hmem ↦ ⟨_, halone segment hmem⟩).2 _ rfl (List.cons_ne_nil _ _)).2⟩

end Grammar

end PipelineSyntax
