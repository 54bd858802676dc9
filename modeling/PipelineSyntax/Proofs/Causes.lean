import PipelineSyntax.Parser.Step

/-!
# What can be wrong with a line

A line is at fault when reading it fails: a token does not fit, a literal does not decode, a
leader says nothing, or a bracket is nested too deep. A misuse of the library's own parts is no
such fault, and neither is a token that is decoded although it is no literal; reading a line
comes to neither of them.

`Blames P x` says of a computation that whatever it fails with satisfies `P`. There is one
lemma about it for each function that can fail, and `State.step_blames` is the last of them.
-/

namespace PipelineSyntax

/-! ### Computations that fail for a reason -/

/-- If the computation fails, then with an error that satisfies the predicate. -/
def Blames {ε α : Type} (P : ε → Prop) : Except ε α → Prop
  | .error e => P e
  | .ok _ => True

namespace Blames

variable {ε ε' α β : Type} {P : ε → Prop} {Q : ε' → Prop} {x : Except ε α}

theorem map (h : Blames P x) (f : α → β) : Blames P (x.map f) := by
  cases x with
  | error e => exact h
  | ok a => trivial

theorem bind (h : Blames P x) {f : α → Except ε β} (hf : ∀ a, Blames P (f a)) :
    Blames P (x >>= f) := by
  cases x with
  | error e => exact h
  | ok a => exact hf a

theorem imp {P' : ε → Prop} (h : Blames P x) (himp : ∀ e, P e → P' e) : Blames P' x := by
  cases x with
  | error e => exact himp e h
  | ok a => trivial

theorem mapError (h : Blames P x) {f : ε → ε'} (hf : ∀ e, P e → Q (f e)) :
    Blames Q (x.mapError f) := by
  cases x with
  | error e => exact hf e h
  | ok a => trivial

end Blames

/-! ### Literals -/

/-- The reasons that lie in the text of a literal. -/
def Literal.Reason.LiesInText : Reason → Prop
  | notALiteral _ => False
  | _ => True

namespace Literal.DoubleQuoted

theorem byteItem_blames (value : Nat) : Blames Reason.LiesInText (byteItem value) := by
  rw [byteItem]
  split <;> trivial

theorem codePointItem_blames (value : Nat) : Blames Reason.LiesInText (codePointItem value) := by
  rw [codePointItem]
  split <;> trivial

theorem readNumeric_blames {base count : Nat} {item : Nat → Except Reason Item}
    (hitem : ∀ value, Blames Reason.LiesInText (item value)) (chars : List Char) :
    Blames Reason.LiesInText (readNumeric base count item chars) := by
  rw [readNumeric]
  split
  · trivial
  · exact (hitem _).map _

theorem readEscape_blames (chars : List Char) :
    Blames Reason.LiesInText (readEscape chars) := by
  rcases chars with _ | ⟨c, rest⟩
  · trivial
  · rw [readEscape]
    split
    · trivial
    · -- the letter behind the backslash says which digits follow
      split
      · exact readNumeric_blames byteItem_blames rest
      · split
        · exact readNumeric_blames codePointItem_blames rest
        · split
          · exact readNumeric_blames codePointItem_blames rest
          · split
            · exact readNumeric_blames byteItem_blames (c :: rest)
            · trivial

theorem readItems_blames (out : ByteArray) (chars : List Char) :
    Blames Reason.LiesInText (readItems out chars) := by
  fun_induction readItems out chars with
  | case1 | case4 => trivial
  | case2 out rest reason hescape =>
    have hblames := readEscape_blames rest
    rwa [hescape] at hblames
  | case3 _ _ _ _ _ ih | case5 _ _ _ _ _ ih => exact ih

theorem decodeItems_blames (inner : List Char) :
    Blames Reason.LiesInText (decodeItems inner) := by
  have hitems := readItems_blames .empty inner
  rw [decodeItems]
  split
  · rename_i heq
    rwa [heq] at hitems
  · split <;> trivial

theorem decodeInner_blames (inner : List Char) :
    Blames Reason.LiesInText (decodeInner inner) := by
  rw [decodeInner]
  split
  · trivial
  · exact decodeItems_blames inner

end Literal.DoubleQuoted

/-- A literal is refused for what its text is. -/
theorem Token.decode_blames {token : Token} (hkind : token.kind.isLiteral = true) :
    Blames (·.reason.LiesInText) token.decode := by
  rw [decode]
  split
  · trivial
  · rw [Literal.SingleQuoted.decode]
    split <;> trivial
  · rw [Literal.DoubleQuoted.decode]
    split
    · trivial
    · exact (Literal.DoubleQuoted.decodeInner_blames _).mapError fun _ hreason ↦ hreason
  · simp_all [Token.Kind.isLiteral]

/-! ### Leaders -/

/-- The causes that lie in the text of a leader. -/
def Cause.LiesInLeader : Cause → Prop
  | direction _ | fd .. => True
  | _ => False

namespace Leader

theorem readSide_blames (role : FdRole) (text : String) :
    Blames Cause.LiesInLeader (readSide role text) := by
  rw [readSide]
  split <;> trivial

theorem readQualifier_blames (direction : Direction) (qualifier : String) :
    Blames Cause.LiesInLeader (readQualifier direction qualifier) := by
  rw [readQualifier]
  split
  · trivial
  · split
    · exact (readSide_blames .new qualifier).map _
    · rename_i old _
      have hold (fd : Fd) : Blames Cause.LiesInLeader (if old = [] then .ok (close fd) else
          (readSide .old (String.ofList old)).map fun old ↦ duplicate fd old) := by
        split
        · trivial
        · exact (readSide_blames .old _).map _
      dsimp only
      split
      · exact hold direction.defaultFd
      · exact (readSide_blames .new _).bind hold

theorem read_blames (text : String) : Blames Cause.LiesInLeader (read text) := by
  rw [read]
  dsimp only
  split
  · trivial
  · exact readQualifier_blames _ _

/-- A leader is refused for what its text is, at its own place. -/
theorem ofToken_blames (token : Token) :
    Blames (fun abort ↦ abort.offset = token.offset ∧ abort.cause.LiesInLeader)
      (ofToken token) :=
  (read_blames token.text).mapError fun _ hcause ↦ ⟨rfl, hcause⟩

end Leader

/-! ### Steps -/

/-- What a token can be refused for, under a limit: always at its own place. -/
inductive Token.AtFault (limit : Nat) (token : Token) : Abort → Prop
  /-- It would open one bracket too many. -/
  | depth : AtFault limit token ⟨token.offset, .depth limit⟩
  /-- It is a literal that does not decode. -/
  | literal {fault : Literal.Fault} (hreason : fault.reason.LiesInText) :
      AtFault limit token ⟨token.offset, .literal fault⟩
  /-- It is a leader that says nothing. -/
  | leader {cause : Cause} (hcause : cause.LiesInLeader) :
      AtFault limit token ⟨token.offset, cause⟩
  /-- It does not fit where it stands. -/
  | unexpected (context : String) : AtFault limit token (.unexpected token context)

/-- The causes that a line can give, under a limit. -/
def Cause.LiesInLine (limit : Nat) : Cause → Prop
  | unexpected .. => True
  | literal fault => fault.reason.LiesInText
  | direction _ | fd .. => True
  | depth bound => bound = limit
  | internal _ => False

theorem Cause.LiesInLeader.liesInLine {cause : Cause} (h : cause.LiesInLeader) (limit : Nat) :
    cause.LiesInLine limit := by
  cases cause <;> trivial

namespace Token.AtFault

variable {limit : Nat} {token : Token} {abort : Abort}

theorem liesInLine (h : token.AtFault limit abort) : abort.cause.LiesInLine limit := by
  cases h with
  | depth => exact rfl
  | literal hreason => exact hreason
  | leader hcause => exact hcause.liesInLine limit
  | unexpected context => trivial

theorem offset_eq (h : token.AtFault limit abort) : abort.offset = token.offset := by
  cases h <;> rfl

/-- A token that is called unexpected is the one that is refused. -/
theorem eq_unexpected (h : token.AtFault limit abort) {found context : String} {kind : Token.Kind}
    (hcause : abort.cause = .unexpected found kind context) :
    found = token.describe ∧ kind = token.kind := by
  cases h with
  | depth | literal => cases hcause
  | leader hlies =>
    subst hcause
    exact hlies.elim
  | unexpected other =>
    cases hcause
    exact ⟨rfl, rfl⟩

end Token.AtFault

namespace Parser.State

variable {limit : Nat} {state : State} {token : Token}

/-- The token is at fault, if the step fails. -/
abbrev StepBlames {α : Type} (limit : Nat) (token : Token) : Except Abort α → Prop :=
  Blames (token.AtFault limit)

theorem enter_blames {inside : State} :
    StepBlames limit token (state.enter limit token inside) := by
  rw [enter]
  split
  · trivial
  · exact .depth

theorem readPrimary_blames {place : Place} :
    StepBlames limit token (state.readPrimary limit place token) := by
  rw [readPrimary]
  split
  case h_1 => trivial
  case h_2 hkind | h_3 hkind | h_4 hkind =>
    have hdecode := @Token.decode_blames token (by rw [hkind]; rfl)
    split
    · rename_i heq
      rw [heq] at hdecode
      exact .literal hdecode
    · trivial
  case h_5 | h_6 => exact enter_blames
  case h_7 => exact .unexpected _

theorem readTerm_blames : StepBlames limit token (state.readTerm limit token) :=
  readPrimary_blames

theorem readElement_blames {place : Place} {table : OpenTable} :
    StepBlames limit token (state.readElement limit place table token) := by
  rw [readElement]
  split
  · exact readTerm_blames
  · split
    case h_1 | h_2 => trivial
    case h_3 => exact .unexpected _

theorem readTail_blames : StepBlames limit token (state.readTail token) := by
  rw [readTail]
  split
  case h_1 =>
    have hleader := Leader.ofToken_blames token
    split
    · rename_i abort heq
      rw [heq] at hleader
      obtain ⟨offset, cause⟩ := abort
      obtain ⟨rfl, hcause⟩ := hleader
      exact .leader hcause
    all_goals trivial
  case h_5 => exact .unexpected _
  all_goals trivial

theorem endLineTerm_blames {term : OpenTerm} :
    StepBlames limit token (state.endLineTerm limit term token) := by
  rw [endLineTerm]
  split
  · exact readTail_blames
  · dsimp only
    split
    · exact readTerm_blames.map _
    · exact readTail_blames

theorem endTerm_blames {term : OpenTerm} :
    StepBlames limit token (state.endTerm limit term token) := by
  rw [endTerm]
  split
  · exact endLineTerm_blames
  · dsimp only
    split
    · exact readTerm_blames.map _
    · split
      · trivial
      · exact .unexpected _
  · split
    · trivial
    · exact readElement_blames.map _
  · exact readElement_blames.map _

theorem readMore_blames {term : OpenTerm} {blank : Bool} :
    StepBlames limit token (state.readMore limit term blank token) := by
  rw [readMore]
  split
  · trivial
  · split
    · trivial
    · split
      · exact readPrimary_blames.map _
      · exact endTerm_blames

/-- Whatever a step fails with, the token is at fault. -/
theorem step_atFault : StepBlames limit token (state.step limit token) := by
  rw [step]
  split
  · split
    · trivial
    · split
      · trivial
      · exact readTerm_blames.map _
  · split
    · trivial
    · exact readTerm_blames.map _
  · exact readPrimary_blames.map _
  · split
    · trivial
    · exact readPrimary_blames.map _
  · exact readElement_blames.map _
  · exact readElement_blames.map _
  · exact readMore_blames
  · split
    · trivial
    · exact readTail_blames

/-- Whatever a step fails with lies in the line. -/
theorem step_blames : Blames (·.cause.LiesInLine limit) (state.step limit token) :=
  step_atFault.imp fun _ hfault ↦ hfault.liesInLine

end Parser.State

end PipelineSyntax
