import PipelineSyntax.Proofs.Grammar
import PipelineSyntax.Proofs.LeaderLanguage
import PipelineSyntax.Tree.Render

/-!
# Leaders read as they are printed

The leader that a redirection is printed with says what the redirection does, for every file
descriptor and every mode. Two facts carry it: a descriptor is printed as digits, among which
neither a bracket nor an `=` occurs, so a leader falls apart where it was put together; and
the digits of a descriptor write the descriptor.

No blank occurs in a printed leader either. So it is found again in the printed redirection, as
what stands in front of the first blank, or as all of it.
-/

namespace PipelineSyntax

/-- What a redirection says apart from its target. -/
def Redirection.said {α : Type} : Redirection α → Leader
  | file fd mode _ => .target fd mode
  | duplicate fd old => .duplicate fd old
  | close fd => .close fd

/-- The leader of a redirection as it is printed: what stands in front of the first blank. -/
def Redirection.printedLeader (redirection : Redirection Node) : String :=
  String.ofList (redirection.render.toList.takeWhile (· ≠ ' '))

/-- What is printed behind the leader of a redirection. -/
def Redirection.printedTarget : Redirection Node → String
  | file _ _ target => " " ++ target.render
  | duplicate .. | close _ => ""

namespace Leader

/-- The redirection that a leader makes, with the given target where it wants one. -/
def redirection (target : Sequence Node) : Leader → Redirection Node
  | .target fd mode => .file fd mode target
  | duplicate fd old => .duplicate fd old
  | close fd => .close fd

@[simp]
theorem said_redirection (target : Sequence Node) (leader : Leader) :
    (leader.redirection target).said = leader := by
  cases leader <;> rfl

/-! ### File descriptors -/

/-- A file descriptor as it is printed. -/
def fdText (fd : Fd) : String :=
  toString fd.toNat

theorem toList_fdText (fd : Fd) : (fdText fd).toList = Nat.toDigits 10 fd.toNat := by
  rw [fdText, Nat.toString_eq_repr, Nat.toList_repr]

theorem isDigit_of_mem_fdText {fd : Fd} {c : Char} (h : c ∈ (fdText fd).toList) :
    c.isDigit = true := by
  rw [toList_fdText] at h
  exact Nat.isDigit_of_mem_toDigits (by decide) (by decide) h

/-- A file descriptor is written by what it is printed as. -/
theorem writesFd_fdText (fd : Fd) : WritesFd (fdText fd) fd := by
  have hne : (fdText fd).toList ≠ [] := by
    rw [toList_fdText]
    exact Nat.toDigits_ne_nil
  have hdigits : (fdText fd).toList.all Char.isDigit = true :=
    List.all_eq_true.2 fun c hmem ↦ isDigit_of_mem_fdText hmem
  have hvalue : Nat.ofDigitChars 10 (fdText fd).toList 0 = fd.toNat := by
    rw [toList_fdText, Nat.ofDigitChars_ten_toDigits]
  exact ⟨_, List.length_pos_of_ne_nil hne, numeral_ten_iff.2 ⟨hdigits, rfl, hvalue⟩⟩

/-! ### Leaders -/

theorem bracket_notMem_symbol (direction : Direction) : '[' ∉ direction.symbol.toList := by
  cases direction <;> decide

theorem parts_symbol (direction : Direction) : Parts direction.symbol direction.symbol "" :=
  .plain (bracket_notMem_symbol direction)

/-- A qualifier in brackets behind a direction is found again. -/
theorem parts_qualified (direction : Direction) (qualifier : String) :
    Parts (direction.symbol ++ "[" ++ qualifier ++ "]") direction.symbol qualifier :=
  .closed (bracket_notMem_symbol direction)

theorem leader_duplicate {α : Type} (fd old : Fd) :
    (Redirection.duplicate fd old : Redirection α).leader =
      Direction.write.symbol ++ "[" ++ (fdText fd ++ "=" ++ fdText old) ++ "]" :=
  String.toList_inj.1 (by simp [Redirection.leader, Direction.symbol, fdText])

theorem leader_close {α : Type} (fd : Fd) :
    (Redirection.close fd : Redirection α).leader =
      Direction.write.symbol ++ "[" ++ (fdText fd ++ "=") ++ "]" :=
  String.toList_inj.1 (by simp [Redirection.leader, Direction.symbol, fdText])

/-- The leader that a redirection is printed with says what the redirection says. -/
theorem accepted_leader {α : Type} (redirection : Redirection α) :
    Accepted redirection.leader redirection.said := by
  cases redirection with
  | file fd mode target =>
    show Accepted (mode.leader fd) (.target fd mode)
    rw [OpenMode.leader, ← OpenMode.openMode_direction mode]
    simp only [Direction.direction_openMode]
    split
    · rename_i hdefault
      rw [hdefault]
      exact ⟨parts_symbol _, .target .own⟩
    · exact ⟨parts_qualified _ _, .target (.written (writesFd_fdText fd))⟩
  | duplicate fd old =>
    rw [leader_duplicate]
    exact ⟨parts_qualified _ _, .duplicate (.written (writesFd_fdText fd)) (writesFd_fdText old)⟩
  | close fd =>
    rw [leader_close]
    exact ⟨parts_qualified _ _, .close (.written (writesFd_fdText fd))⟩

/-- A leader is read as it is printed. -/
theorem read_leader {α : Type} (redirection : Redirection α) :
    read redirection.leader = .ok redirection.said :=
  read_of_accepted (accepted_leader redirection)

/-! ### Redirections -/

theorem blank_notMem_fdText (fd : Fd) : ' ' ∉ (fdText fd).toList := by
  intro hmem
  have hdigit := isDigit_of_mem_fdText hmem
  revert hdigit
  decide

theorem blank_notMem_symbol (direction : Direction) : ' ' ∉ direction.symbol.toList := by
  cases direction <;> decide

theorem blank_notMem_leader (redirection : Redirection Node) :
    ' ' ∉ redirection.leader.toList := by
  cases redirection with
  | file fd mode target =>
    show ' ' ∉ (mode.leader fd).toList
    rw [OpenMode.leader]
    split
    · exact blank_notMem_symbol _
    · have hfd := blank_notMem_fdText fd
      rw [toList_fdText] at hfd
      simp [blank_notMem_symbol, hfd]
  | duplicate fd old => simp [leader_duplicate, blank_notMem_symbol, blank_notMem_fdText]
  | close fd => simp [leader_close, blank_notMem_symbol, blank_notMem_fdText]

theorem render_eq_leader_append (redirection : Redirection Node) :
    redirection.render = redirection.leader ++ redirection.printedTarget := by
  cases redirection with
  | file fd mode target =>
    show mode.leader fd ++ " " ++ target.render = mode.leader fd ++ (" " ++ target.render)
    rw [String.append_assoc]
  | duplicate | close => rw [Redirection.printedTarget, String.append_empty, Redirection.render]

/-- The leader is found again in the printed redirection. -/
theorem printedLeader_eq (redirection : Redirection Node) :
    redirection.printedLeader = redirection.leader := by
  have hleader : ∀ c ∈ redirection.leader.toList, decide (c ≠ ' ') = true := by
    intro c hmem
    have hne : c ≠ ' ' := fun heq ↦ blank_notMem_leader redirection (heq ▸ hmem)
    simpa using hne
  have htarget : redirection.printedTarget.toList.takeWhile (· ≠ ' ') = [] := by
    cases redirection <;> simp [Redirection.printedTarget]
  rw [Redirection.printedLeader, render_eq_leader_append, String.toList_append,
    List.takeWhile_append_of_pos hleader, htarget, List.append_nil, String.ofList_toList]

/-- A token with the leader of a printed redirection says what the redirection says. -/
theorem ofToken_printedLeader (redirection : Redirection Node) (token : Token) :
    ofToken { token with text := redirection.printedLeader } = .ok redirection.said := by
  rw [ofToken, printedLeader_eq, read_leader]
  rfl

/-- Printing what a leader makes keeps what the leader says. -/
theorem ofToken_printed_redirection {token : Token} {leader : Leader}
    (h : ofToken token = .ok leader) (target : Sequence Node) :
    ofToken { token with text := (leader.redirection target).printedLeader } = ofToken token := by
  rw [ofToken_printedLeader, said_redirection, h]

/-- A redirection that is read is made by its leader. -/
theorem exists_leader_of_redirect {depth : Nat} {tokens : List Token}
    {redirection : Redirection Node} (h : Grammar.Redirect depth tokens redirection) :
    ∃ first rest leader target, tokens = first :: rest ∧ ofToken first = .ok leader ∧
      redirection = leader.redirection target := by
  cases h with
  | file hkind hread hblanks hterm =>
    exact ⟨_, _, _, _, rfl, by rw [ofToken, hread]; rfl, rfl⟩
  | duplicate hkind hread | close hkind hread =>
    exact ⟨_, _, _, ⟨0, .term, []⟩, rfl, by rw [ofToken, hread]; rfl, rfl⟩

/-- **Printed redirections say what they said.** A redirection is printed as its leader and, behind
a blank, its target, and a token with that leader is read as what the redirection says, whatever
its descriptors, its mode and its target are. So whatever leader a redirection is made by, printing
the redirection and reading its leader again gives the same; and every redirection of a line is
made by the leader that it begins with. -/
theorem printed_redirections_say_the_same :
    (∀ (redirection : Redirection Node) (token : Token),
      redirection.render = redirection.printedLeader ++ redirection.printedTarget ∧
        ofToken { token with text := redirection.printedLeader } = .ok redirection.said) ∧
      (∀ (token : Token) (leader : Leader) (target : Sequence Node), ofToken token = .ok leader →
        ofToken { token with text := (leader.redirection target).printedLeader } =
          ofToken token) ∧
      ∀ (depth : Nat) (first : Token) (rest : List Token) (redirection : Redirection Node),
        Grammar.Redirect depth (first :: rest) redirection →
          ofToken { first with text := redirection.printedLeader } = ofToken first := by
  refine ⟨fun redirection token ↦ ⟨?_, ofToken_printedLeader redirection token⟩,
    fun token leader target h ↦ ofToken_printed_redirection h target, ?_⟩
  · rw [printedLeader_eq, render_eq_leader_append]
  · intro depth first rest redirection hredirect
    obtain ⟨_, _, leader, target, htokens, hleader, rfl⟩ := exists_leader_of_redirect hredirect
    cases htokens
    exact ofToken_printed_redirection hleader target

/-- A duplication that is spelled with another direction and with zeros is printed without them, and
a target without the descriptor that its direction has anyway. -/
theorem printed_redirections_say_the_same_shorter :
    let duplicated : Token := ⟨.leader, "<>[002=0010]", 5, false⟩
    let opened : Token := ⟨.leader, ">[1]", 0, false⟩
    let word : Token := ⟨.bare, "x", 4, false⟩
    let file : Redirection Node :=
      .file 1 .writeCreate ⟨4, .term, [.factor 4 0 .start (.string 4 "x" "x")]⟩
    (ofToken duplicated = .ok (.duplicate 2 10) ∧
      ofToken { duplicated with text := ">[2=10]" } = ofToken duplicated) ∧
      Grammar.Redirect 0 [opened, word] file ∧
        ofToken { opened with text := ">" } = ofToken opened := by
  intro duplicated opened word file
  obtain ⟨-, hmade, hread⟩ := printed_redirections_say_the_same
  have hduplicated : ofToken duplicated = .ok (.duplicate 2 10) := by decide +kernel
  have hopened : read opened.text = .ok (.target 1 .writeCreate) := by decide +kernel
  have hfile : Grammar.Redirect 0 [opened, word] file :=
    @Grammar.Redirect.file 0 opened [] _ _ _ _ rfl hopened .nil
      (.first (.primary .nil (.literal rfl rfl)))
  have hprinted : ((duplicate 2 10).redirection ⟨0, .term, []⟩).printedLeader = ">[2=10]" := by
    rw [printedLeader_eq]
    rfl
  have hprinted' : file.printedLeader = ">" := by
    rw [printedLeader_eq]
    rfl
  have hagain := hmade duplicated _ ⟨0, .term, []⟩ hduplicated
  have hagain' := hread 0 opened [word] file hfile
  rw [hprinted] at hagain
  rw [hprinted'] at hagain'
  exact ⟨⟨hduplicated, hagain⟩, hfile, hagain'⟩

end Leader

end PipelineSyntax
