import PipelineSyntax.Proofs.Numerals
import PipelineSyntax.Redirection.Leader

/-!
# The language of leaders

Which texts are leaders, what each of them says, and what is wrong with every other one, said
without a reader:

* `Parts text direction qualifier` is how a text falls apart at its first opening bracket. It does
  so in one way only (`parts_iff`), be the bracket closed or not;
* `WritesFd text fd` says that a text is the number of a file descriptor: decimal digits, with any
  zeros in front, and a value that a descriptor can have;
* `Says direction qualifier leader` is what a qualifier says behind a direction, and
  `Misfit qualifier cause` what is wrong with one that says nothing.

A text is read as what it says (`read_eq_ok_iff`), and it is refused for the first of its parts
that is not what it should be: the direction, the text left of the first `=`, the text right of it
(`read_eq_error_iff`).
-/

namespace PipelineSyntax

open Literal.DoubleQuoted (IsDigit Numeral)

namespace Leader

/-! ### What leaders say -/

/-- The text is the number of a file descriptor in decimal digits, of which there is at least one
and the first may be zeros. -/
def WritesFd (text : String) (fd : Fd) : Prop :=
  ∃ count, 0 < count ∧ Numeral 10 count text.toList fd.toNat

/-- The text is there, but is the number of no file descriptor. -/
def WritesNoFd (text : String) : Prop :=
  text ≠ "" ∧ ∀ fd, ¬ WritesFd text fd

/-- The text names the file descriptor behind the direction, whose own one need not be written. -/
inductive NamesFd (direction : Direction) : String → Fd → Prop
  | own : NamesFd direction "" direction.defaultFd
  | written {text : String} {fd : Fd} (h : WritesFd text fd) : NamesFd direction text fd

/-- The text falls into a direction, in front of its first opening bracket, and a qualifier, behind
it and without one closing bracket at the end. Without an opening bracket there is no qualifier. -/
inductive Parts : (text direction qualifier : String) → Prop
  | plain {text : String} (h : '[' ∉ text.toList) : Parts text text ""
  | closed {direction qualifier : String} (h : '[' ∉ direction.toList) :
      Parts (direction ++ "[" ++ qualifier ++ "]") direction qualifier
  | unclosed {direction qualifier : String} (h : '[' ∉ direction.toList)
      (hlast : qualifier.toList.getLast? ≠ some ']') :
      Parts (direction ++ "[" ++ qualifier) direction qualifier

/-- What a qualifier says behind a direction. -/
inductive Says (direction : Direction) : String → Leader → Prop
  | target {text : String} {fd : Fd} (h : NamesFd direction text fd) :
      Says direction text (.target fd direction.openMode)
  | duplicate {new old : String} {fd oldFd : Fd} (hnew : NamesFd direction new fd)
      (hold : WritesFd old oldFd) : Says direction (new ++ "=" ++ old) (.duplicate fd oldFd)
  | close {new : String} {fd : Fd} (hnew : NamesFd direction new fd) :
      Says direction (new ++ "=") (.close fd)

/-- What is wrong with a qualifier: the text left of the first `=`, which is all of it where there
is none, or else the text right of it. -/
inductive Misfit : String → Cause → Prop
  | alone {text : String} (h : '=' ∉ text.toList) (hfd : WritesNoFd text) :
      Misfit text (.fd .new text)
  | new {new old : String} (h : '=' ∉ new.toList) (hfd : WritesNoFd new) :
      Misfit (new ++ "=" ++ old) (.fd .new new)
  | old {new old : String} (h : '=' ∉ new.toList) (hnew : ¬ WritesNoFd new)
      (hfd : WritesNoFd old) : Misfit (new ++ "=" ++ old) (.fd .old old)

/-- What a leader says. -/
inductive Accepted : String → Leader → Prop
  | mk {text qualifier : String} {direction : Direction} {leader : Leader}
      (hparts : Parts text direction.symbol qualifier) (h : Says direction qualifier leader) :
      Accepted text leader

/-- What is wrong with a text that is no leader: its direction, or else its qualifier. -/
inductive Refused : String → Cause → Prop
  | direction {text direction qualifier : String} (hparts : Parts text direction qualifier)
      (h : ∀ known : Direction, known.symbol ≠ direction) : Refused text (.direction direction)
  | qualifier {text qualifier : String} {direction : Direction} {cause : Cause}
      (hparts : Parts text direction.symbol qualifier) (h : Misfit qualifier cause) :
      Refused text cause

/-! ### Taking a text apart -/

section Parts

variable {c : Char} {front : List Char} {text direction qualifier : String}

theorem splitFirst_append (h : c ∉ front) (back : List Char) :
    splitFirst c (front ++ c :: back) = (front, some back) := by
  induction front with
  | nil => simp [splitFirst]
  | cons a front ih =>
    obtain ⟨hne, hrest⟩ : c ≠ a ∧ c ∉ _ := by simpa using h
    have hsplit := ih hrest
    simp_all [splitFirst, Ne.symm hne]

theorem splitFirst_of_notMem {chars : List Char} (h : c ∉ chars) :
    splitFirst c chars = (chars, none) := by
  induction chars with
  | nil => rfl
  | cons a chars ih =>
    obtain ⟨hne, hrest⟩ : c ≠ a ∧ c ∉ _ := by simpa using h
    have hsplit := ih hrest
    simp_all [splitFirst, Ne.symm hne]

/-- A character occurs nowhere in a text, or somewhere for the first time. -/
theorem notMem_or_exists_first (c : Char) (text : String) :
    c ∉ text.toList ∨ ∃ front back, text = front ++ String.singleton c ++ back ∧
      c ∉ front.toList := by
  by_cases h : c ∈ text.toList
  · obtain ⟨front, back, htext, hfirst⟩ := List.eq_append_cons_of_mem h
    refine .inr ⟨String.ofList front, String.ofList back, String.toList_inj.1 ?_, by simpa⟩
    simp [htext]
  · exact .inl h

theorem split_of_parts (h : Parts text direction qualifier) :
    split text = (direction, qualifier) := by
  cases h with
  | plain h => rw [split, splitFirst_of_notMem h]
  | closed h =>
    have hchars : (direction ++ "[" ++ qualifier ++ "]").toList =
        direction.toList ++ '[' :: (qualifier.toList ++ [']']) := by simp
    rw [split, hchars, splitFirst_append h]
    simp [dropClosing]
  | unclosed h hlast =>
    have hchars : (direction ++ "[" ++ qualifier).toList =
        direction.toList ++ '[' :: qualifier.toList := by simp
    rw [split, hchars, splitFirst_append h]
    simp [dropClosing, hlast]

theorem exists_parts (text : String) : ∃ direction qualifier, Parts text direction qualifier := by
  rcases notMem_or_exists_first '[' text with h | ⟨direction, behind, rfl, h⟩
  · exact ⟨text, "", .plain h⟩
  · by_cases hlast : behind.toList.getLast? = some ']'
    · obtain ⟨qualifier, hbehind⟩ := List.getLast?_eq_some_iff.1 hlast
      obtain rfl : behind = String.ofList qualifier ++ "]" :=
        String.toList_inj.1 (by simp [hbehind])
      rw [← String.append_assoc]
      exact ⟨direction, _, .closed h⟩
    · exact ⟨direction, behind, .unclosed h hlast⟩

/-- Every text falls apart in one way, which is how it is taken apart. -/
theorem parts_iff : Parts text direction qualifier ↔ split text = (direction, qualifier) := by
  constructor
  · exact split_of_parts
  · intro h
    obtain ⟨direction', qualifier', hparts⟩ := exists_parts text
    rw [split_of_parts hparts] at h
    cases h
    exact hparts

end Parts

/-! ### File descriptors -/

section Descriptors

variable {c : Char} {chars : List Char} {count value : Nat} {text : String} {fd : Fd}

theorem isDigit_ten_iff : IsDigit 10 c value ↔ c.isDigit = true ∧ c.toNat - '0'.toNat = value := by
  have hdigits : ∀ v < 10, Nat.digitChar v = Char.ofNat (v + 48) ∧
      (Nat.digitChar v).isDigit = true ∧ (Nat.digitChar v).toNat - '0'.toNat = v ∧
      (Nat.digitChar v).toUpper = Nat.digitChar v := by decide
  constructor
  · rintro ⟨hlt, hc⟩
    obtain ⟨-, hdigit, hvalue, hupper⟩ := hdigits value hlt
    rw [hupper, or_self] at hc
    rw [hc]
    exact ⟨hdigit, hvalue⟩
  · rintro ⟨hdigit, rfl⟩
    obtain ⟨hfrom, hto⟩ : 48 ≤ c.toNat ∧ c.toNat ≤ 57 := by
      simpa [Char.isDigit, UInt32.le_iff_toNat_le] using hdigit
    have hlt : c.toNat - 48 < 10 := by omega
    refine ⟨hlt, .inl ?_⟩
    show c = Nat.digitChar (c.toNat - 48)
    rw [(hdigits _ hlt).1, Nat.sub_add_cancel hfrom, Char.ofNat_toNat]

theorem forall₂_isDigit_ten_iff {digits : List Nat} :
    List.Forall₂ (IsDigit 10) chars digits ↔
      chars.all Char.isDigit = true ∧ chars.map (fun c ↦ c.toNat - '0'.toNat) = digits := by
  induction chars generalizing digits with
  | nil => simp [eq_comm]
  | cons c chars ih =>
    rcases digits with _ | ⟨digit, digits⟩
    · simp
    · rw [List.forall₂_cons, ih, isDigit_ten_iff]
      simp only [List.all_cons, Bool.and_eq_true, List.map_cons, List.cons.injEq]
      tauto

/-- Decimal numerals are rows of digits, with the value that core gives them. -/
theorem numeral_ten_iff : Numeral 10 count chars value ↔
    chars.all Char.isDigit = true ∧ chars.length = count ∧
      Nat.ofDigitChars 10 chars 0 = value := by
  have hvalue : Nat.ofDigits 10 (chars.map fun c ↦ c.toNat - '0'.toNat).reverse =
      Nat.ofDigitChars 10 chars 0 := by
    rw [← Literal.DoubleQuoted.foldl_eq_ofDigits, List.foldl_map, Nat.ofDigitChars_eq_foldl]
    simp only [Nat.mul_comm]
  simp only [Numeral, forall₂_isDigit_ten_iff]
  constructor
  · rintro ⟨digits, ⟨hdigits, rfl⟩, hlength, rfl⟩
    exact ⟨hdigits, by simpa using hlength, hvalue.symm⟩
  · rintro ⟨hdigits, hlength, rfl⟩
    exact ⟨_, ⟨hdigits, rfl⟩, by simpa using hlength, hvalue⟩

theorem readFd?_eq_some_iff : readFd? text = some fd ↔ WritesFd text fd := by
  simp only [readFd?, WritesFd, numeral_ten_iff]
  constructor
  · intro h
    split at h
    · rename_i hdigits
      split at h
      · obtain rfl := Option.some.inj h
        exact ⟨_, List.length_pos_of_ne_nil hdigits.1, hdigits.2, rfl, by simp⟩
      · cases h
    · cases h
  · rintro ⟨count, hcount, hdigits, rfl, hvalue⟩
    have hlt : Nat.ofDigitChars 10 text.toList 0 < UInt32.size := hvalue ▸ fd.toNat_lt
    rw [if_pos ⟨List.ne_nil_of_length_pos hcount, hdigits⟩, dif_pos hlt]
    exact congrArg some (UInt32.toNat_inj.1 (by simp [hvalue]))

theorem readSide_of_writesFd (role : FdRole) (h : WritesFd text fd) :
    readSide role text = .ok fd := by
  rw [readSide, readFd?_eq_some_iff.2 h]

theorem readSide_of_writesNoFd (role : FdRole) (h : WritesNoFd text) :
    readSide role text = .error (.fd role text) := by
  have hnone : readFd? text = none :=
    Option.eq_none_iff_forall_ne_some.2 fun fd heq ↦ h.2 fd (readFd?_eq_some_iff.1 heq)
  rw [readSide, hnone]

/-- A number is written with digits. -/
theorem isDigit_of_writesFd (h : WritesFd text fd) : ∀ c ∈ text.toList, c.isDigit = true := by
  obtain ⟨count, -, hnumeral⟩ := h
  exact List.all_eq_true.1 (numeral_ten_iff.1 hnumeral).1

theorem ne_empty_of_writesFd (h : WritesFd text fd) : text ≠ "" := by
  obtain ⟨count, hcount, hnumeral⟩ := h
  rintro rfl
  obtain ⟨-, rfl, -⟩ := numeral_ten_iff.1 hnumeral
  exact absurd hcount (by simp)

theorem equals_notMem_of_writesFd (h : WritesFd text fd) : '=' ∉ text.toList := by
  intro hmem
  have hdigit := isDigit_of_writesFd h _ hmem
  revert hdigit
  decide

theorem equals_notMem_of_namesFd {direction : Direction} (h : NamesFd direction text fd) :
    '=' ∉ text.toList := by
  cases h with
  | own => simp
  | written h => exact equals_notMem_of_writesFd h

/-- A text names a descriptor unless it is there and writes none. -/
theorem exists_namesFd_iff (direction : Direction) :
    (∃ fd, NamesFd direction text fd) ↔ ¬ WritesNoFd text := by
  constructor
  · rintro ⟨fd, h⟩ ⟨hne, hfd⟩
    cases h with
    | own => exact hne rfl
    | written h => exact hfd fd h
  · intro h
    by_cases hempty : text = ""
    · subst hempty
      exact ⟨_, .own⟩
    · have hfd : ∃ fd, WritesFd text fd := by
        by_contra hnone
        exact h ⟨hempty, not_exists.1 hnone⟩
      obtain ⟨fd, hfd⟩ := hfd
      exact ⟨fd, .written hfd⟩

end Descriptors

/-! ### Qualifiers -/

section Qualifiers

variable {direction : Direction} {new old qualifier : String} {fd oldFd : Fd} {leader : Leader}
  {cause : Cause}

/-- What is left of an `=` is read first, and what is right of it only if that is in order. -/
theorem readQualifier_equals (h : '=' ∉ new.toList) :
    readQualifier direction (new ++ "=" ++ old) =
      ((if new = "" then .ok direction.defaultFd else readSide .new new) >>= fun fd ↦
        if old = "" then .ok (.close fd)
        else (readSide .old old).map fun old ↦ .duplicate fd old) := by
  have hchars : (new ++ "=" ++ old).toList = new.toList ++ '=' :: old.toList := by simp
  have hne : new ++ "=" ++ old ≠ "" := by simp
  rw [readQualifier, if_neg hne, hchars, splitFirst_append h]
  simp only [String.ofList_toList, String.toList_eq_nil_iff]
  split <;> rfl

theorem readQualifier_alone (h : '=' ∉ qualifier.toList) (hne : qualifier ≠ "") :
    readQualifier direction qualifier =
      (readSide .new qualifier).map fun fd ↦ .target fd direction.openMode := by
  rw [readQualifier, if_neg hne, splitFirst_of_notMem h]

theorem readNew_of_namesFd (h : NamesFd direction new fd) :
    (if new = "" then .ok direction.defaultFd else readSide .new new) = .ok fd := by
  cases h with
  | own => rfl
  | written h => rw [if_neg (ne_empty_of_writesFd h), readSide_of_writesFd _ h]

theorem readQualifier_of_says (h : Says direction qualifier leader) :
    readQualifier direction qualifier = .ok leader := by
  cases h with
  | target h =>
    cases h with
    | own => rfl
    | written h =>
      rw [readQualifier_alone (equals_notMem_of_writesFd h) (ne_empty_of_writesFd h),
        readSide_of_writesFd _ h]
      rfl
  | duplicate hnew hold =>
    rw [readQualifier_equals (equals_notMem_of_namesFd hnew), readNew_of_namesFd hnew,
      readSide_of_writesFd _ hold]
    show (if _ = "" then _ else _) = _
    rw [if_neg (ne_empty_of_writesFd hold)]
    rfl
  | @close new _ hnew =>
    have hread := @readQualifier_equals direction new "" (equals_notMem_of_namesFd hnew)
    rw [String.append_empty, readNew_of_namesFd hnew] at hread
    exact hread

theorem readQualifier_of_misfit (h : Misfit qualifier cause) :
    readQualifier direction qualifier = .error cause := by
  cases h with
  | alone h hfd =>
    rw [readQualifier_alone h hfd.1, readSide_of_writesNoFd _ hfd]
    rfl
  | new h hfd =>
    rw [readQualifier_equals h, if_neg hfd.1, readSide_of_writesNoFd _ hfd]
    rfl
  | old h hnew hfd =>
    obtain ⟨fd, hnames⟩ := (exists_namesFd_iff direction).2 hnew
    rw [readQualifier_equals h, readNew_of_namesFd hnames,
      readSide_of_writesNoFd _ hfd]
    show (if _ = "" then _ else _) = _
    rw [if_neg hfd.1]
    rfl

/-- A qualifier says something behind every direction, or it is wrong behind every direction. -/
theorem says_or_misfit (direction : Direction) (qualifier : String) :
    (∃ leader, Says direction qualifier leader) ∨ ∃ cause, Misfit qualifier cause := by
  rcases notMem_or_exists_first '=' qualifier with h | ⟨new, old, rfl, h⟩
  · by_cases hfd : WritesNoFd qualifier
    · exact .inr ⟨_, .alone h hfd⟩
    · obtain ⟨fd, hnames⟩ := (exists_namesFd_iff direction).2 hfd
      exact .inl ⟨_, .target hnames⟩
  · by_cases hnew : WritesNoFd new
    · exact .inr ⟨_, .new h hnew⟩
    · obtain ⟨fd, hnames⟩ := (exists_namesFd_iff direction).2 hnew
      by_cases hold : WritesNoFd old
      · exact .inr ⟨_, .old h hnew hold⟩
      · obtain ⟨oldFd, hnames'⟩ := (exists_namesFd_iff direction).2 hold
        cases hnames' with
        | own =>
          rw [String.append_empty]
          exact .inl ⟨_, .close hnames⟩
        | written hwrites => exact .inl ⟨_, .duplicate hnames hwrites⟩

end Qualifiers

/-! ### Leaders -/

section Leaders

variable {text qualifier : String} {direction : Direction} {leader : Leader} {cause : Cause}

theorem read_of_parts (h : Parts text direction.symbol qualifier) :
    read text = readQualifier direction qualifier := by
  rw [read, split_of_parts h]
  simp only [Direction.ofSymbol?_symbol]

theorem read_of_accepted (h : Accepted text leader) : read text = .ok leader := by
  obtain ⟨hparts, h⟩ := h
  rw [read_of_parts hparts, readQualifier_of_says h]

theorem read_of_refused (h : Refused text cause) : read text = .error cause := by
  cases h with
  | qualifier hparts h => rw [read_of_parts hparts, readQualifier_of_misfit h]
  | direction hparts h =>
    have hnone : ∀ known : Direction, Direction.ofSymbol? _ ≠ some known :=
      fun known heq ↦ h known (Direction.symbol_of_ofSymbol? heq)
    rw [read, split_of_parts hparts]
    simp only [Option.eq_none_iff_forall_ne_some.2 hnone]

/-- Every text is a leader or is refused. -/
theorem accepted_or_refused (text : String) :
    (∃ leader, Accepted text leader) ∨ ∃ cause, Refused text cause := by
  obtain ⟨symbol, qualifier, hparts⟩ := exists_parts text
  by_cases h : ∃ direction : Direction, direction.symbol = symbol
  · obtain ⟨direction, rfl⟩ := h
    rcases says_or_misfit direction qualifier with ⟨leader, hsays⟩ | ⟨cause, hmisfit⟩
    · exact .inl ⟨leader, hparts, hsays⟩
    · exact .inr ⟨cause, .qualifier hparts hmisfit⟩
  · exact .inr ⟨_, .direction hparts (not_exists.1 h)⟩

/-- A text is read as what it says. -/
theorem read_eq_ok_iff : read text = .ok leader ↔ Accepted text leader := by
  refine ⟨fun h ↦ ?_, read_of_accepted⟩
  rcases accepted_or_refused text with ⟨leader', haccepted⟩ | ⟨cause, hrefused⟩
  · rw [read_of_accepted haccepted] at h
    exact Except.ok.inj h ▸ haccepted
  · rw [read_of_refused hrefused] at h
    cases h

/-- A text is refused for what is wrong with it. -/
theorem read_eq_error_iff : read text = .error cause ↔ Refused text cause := by
  refine ⟨fun h ↦ ?_, read_of_refused⟩
  rcases accepted_or_refused text with ⟨leader, haccepted⟩ | ⟨cause', hrefused⟩
  · rw [read_of_accepted haccepted] at h
    cases h
  · rw [read_of_refused hrefused] at h
    exact Except.error.inj h ▸ hrefused

end Leaders

/-- **Exactly the leaders are read, each as what it says.** A token is read as a leader if and only
if its text consists of a direction and, in brackets, nothing, the number of a descriptor, or such
a number and another one around a `=`, where either may be missing. What it says follows from the
parts. Every other token is refused at its own place, for the first part that is at fault. -/
theorem reads_exactly_the_leaders (token : Token) :
    (∀ leader, ofToken token = .ok leader ↔ Accepted token.text leader) ∧
      ∀ abort, ofToken token = .error abort ↔
        abort.offset = token.offset ∧ Refused token.text abort.cause := by
  constructor
  · intro leader
    rw [← read_eq_ok_iff, ofToken]
    cases read token.text <;> simp [Except.mapError]
  · rintro ⟨offset, cause⟩
    rw [← read_eq_error_iff, ofToken]
    cases read token.text <;> simp [Except.mapError, eq_comm, and_comm]

end Leader

end PipelineSyntax
