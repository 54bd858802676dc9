import Mathlib.Data.List.TakeWhile
import Mathlib.Logic.Function.Basic
import PipelineSyntax.Json.Basic

/-!
# The text of a JSON value tells the value

A value is written so that its text tells where it ends: whatever stands behind it, nothing else
that is written for a value begins in the same way (`SelfDelimiting`). The one exception is the
number, whose digits could go on; but what stands behind a number in a longer text is a comma or a
closing bracket.

There is one lemma for each way in which a text is put together: members in a row up to a
character that begins none of them, members separated by commas, and then one lemma for each form
of a value. The first character tells the forms apart (`opening_eq`).
-/

namespace PipelineSyntax

namespace Json

/-- What is written for `a` is written for nothing else, and tells where it ends: nothing that is
written for another `b` begins a text in the same way. This is asked only where what stands behind
the two satisfies `behind`. -/
def SelfDelimiting {α : Type} (write : α → List Char) (behind : List Char → Prop) (a : α) : Prop :=
  ∀ b rest rest', behind rest → behind rest' → write a ++ rest = write b ++ rest' →
    a = b ∧ rest = rest'

/-- What stands behind a value does not go on with a digit. -/
def Stops (rest : List Char) : Prop :=
  ∀ c ∈ rest.head?, c.isDigit = false

theorem stops_nil : Stops [] :=
  fun _ hmem ↦ absurd hmem (by simp)

theorem stops_cons {c : Char} (h : c.isDigit = false) (rest : List Char) : Stops (c :: rest) := by
  rintro _ ⟨⟩
  exact h

/-! ### Rows -/

section Rows

variable {α : Type} {write : α → List Char} {behind : List Char → Prop} {closing : Char}
  {row row' : List α} {rest rest' : List Char}

/-- Members one behind the other, up to a character that begins none of them. -/
theorem row_cancel (hrow : ∀ a ∈ row, SelfDelimiting write behind a)
    (hbehind : ∀ row rest, behind (List.flatMap write row ++ closing :: rest))
    (hclosing : ∀ a rest rest', write a ++ rest ≠ closing :: rest')
    (h : row.flatMap write ++ closing :: rest = row'.flatMap write ++ closing :: rest') :
    row = row' ∧ rest = rest' := by
  induction row generalizing row' with
  | nil =>
    rcases row' with _ | ⟨b, row'⟩
    · exact ⟨rfl, (List.cons.inj h).2⟩
    · rw [List.flatMap_cons, List.append_assoc] at h
      exact absurd h.symm (hclosing b _ _)
  | cons a row ih =>
    obtain ⟨ha, hrow⟩ := List.forall_mem_cons.1 hrow
    rw [List.flatMap_cons, List.append_assoc] at h
    rcases row' with _ | ⟨b, row'⟩
    · exact absurd h (hclosing a _ _)
    · rw [List.flatMap_cons, List.append_assoc] at h
      obtain ⟨rfl, hrest⟩ := ha b _ _ (hbehind row rest) (hbehind row' rest') h
      obtain ⟨rfl, rfl⟩ := ih hrow hrest
      exact ⟨rfl, rfl⟩

/-- Members with commas between them. -/
def separated (write : α → List Char) (row : List α) : List Char :=
  [','].intercalate (row.map write)

theorem separated_cons (a : α) (row : List α) :
    separated write (a :: row) = write a ++ row.flatMap fun b ↦ ',' :: write b := by
  induction row generalizing a with
  | nil => simp [separated]
  | cons b row ih =>
    rw [separated, List.map_cons, List.map_cons, List.intercalate_cons_cons, ← List.map_cons,
      ← separated, ih b]
    simp

/-- What is behind a member of a separated row is a comma or what closes the row. -/
theorem stops_behind (hdigit : closing.isDigit = false) (row : List α) (rest : List Char) :
    Stops ((row.flatMap fun b ↦ ',' :: write b) ++ closing :: rest) := by
  rcases row with _ | ⟨b, row⟩
  · exact stops_cons hdigit _
  · exact stops_cons (by decide) _

theorem separated_cancel (hrow : ∀ a ∈ row, SelfDelimiting write Stops a)
    (hcomma : closing ≠ ',') (hdigit : closing.isDigit = false)
    (hclosing : ∀ a rest rest', write a ++ rest ≠ closing :: rest')
    (h : separated write row ++ closing :: rest = separated write row' ++ closing :: rest') :
    row = row' ∧ rest = rest' := by
  rcases row with _ | ⟨a, row⟩
  · rcases row' with _ | ⟨b, row'⟩
    · exact ⟨rfl, (List.cons.inj h).2⟩
    · rw [separated_cons, List.append_assoc] at h
      exact absurd h.symm (hclosing b _ _)
  · obtain ⟨ha, hrow⟩ := List.forall_mem_cons.1 hrow
    rw [separated_cons, List.append_assoc] at h
    rcases row' with _ | ⟨b, row'⟩
    · exact absurd h (hclosing a _ _)
    · rw [separated_cons, List.append_assoc] at h
      obtain ⟨rfl, hrest⟩ := ha b _ _ (stops_behind hdigit row _) (stops_behind hdigit row' _) h
      have hmember : ∀ a ∈ row, SelfDelimiting (fun b ↦ ',' :: write b) Stops a :=
        fun a hmem b rest rest' hstops hstops' heq ↦
          hrow a hmem b rest rest' hstops hstops' (List.cons.inj heq).2
      obtain ⟨rfl, rfl⟩ := row_cancel hmember (stops_behind hdigit)
        (fun b rest rest' heq ↦ hcomma (List.cons.inj heq).1.symm) hrest
      exact ⟨rfl, rfl⟩

end Rows

/-! ### Strings -/

/-- The characters that do not stand as they are between quotes. -/
def escapes : List Char :=
  '"' :: '\\' :: (List.range 0x20).map Char.ofNat

theorem mem_escapes_iff {c : Char} : c ∈ escapes ↔ c = '"' ∨ c = '\\' ∨ c.toNat < 0x20 := by
  rw [escapes, List.mem_cons, List.mem_cons, List.mem_map]
  refine or_congr_right (or_congr_right ⟨?_, fun hlt ↦ ?_⟩)
  · rintro ⟨n, hmem, rfl⟩
    have hcontrol : ∀ n < 0x20, (Char.ofNat n).toNat < 0x20 := by decide
    exact hcontrol n (List.mem_range.1 hmem)
  · exact ⟨c.toNat, List.mem_range.2 hlt, Char.ofNat_toNat c⟩

theorem escapedChar_of_notMem {c : Char} (h : c ∉ escapes) : escapedChar c = [c] := by
  have hspecial : ∀ d ∈ escapes, c ≠ d := by
    rintro d hmem rfl
    exact h hmem
  rw [mem_escapes_iff, not_or, not_or] at h
  unfold escapedChar
  split
  case h_8 => exact if_neg h.2.2
  all_goals exact absurd rfl (hspecial _ (by decide))

theorem head?_escapedChar {c : Char} (h : c ∈ escapes) : (escapedChar c).head? = some '\\' := by
  have hall : escapes.all fun c ↦ (escapedChar c).head? = some '\\' := by decide
  exact of_decide_eq_true (List.all_eq_true.1 hall c h)

/-- Escapes are told apart by what they begin with. -/
theorem eq_of_prefix_escapedChar {c d : Char} (hc : c ∈ escapes) (hd : d ∈ escapes)
    (h : escapedChar c <+: escapedChar d) : c = d := by
  have hall : escapes.all fun c ↦ escapes.all fun d ↦ escapedChar c <+: escapedChar d → c = d := by
    decide
  exact of_decide_eq_true (List.all_eq_true.1 (List.all_eq_true.1 hall c hc) d hd) h

/-- A character stands as it is, or as an escape, which begins with a backslash. -/
theorem escapedChar_cases (c : Char) :
    (c ∉ escapes ∧ escapedChar c = [c]) ∨ (c ∈ escapes ∧ ∃ rest, escapedChar c = '\\' :: rest) := by
  by_cases h : c ∈ escapes
  · exact .inr ⟨h, List.head?_eq_some_iff.1 (head?_escapedChar h)⟩
  · exact .inl ⟨h, escapedChar_of_notMem h⟩

theorem selfDelimiting_escapedChar (c : Char) :
    SelfDelimiting escapedChar (fun _ ↦ True) c := by
  intro d rest rest' _ _ h
  obtain rfl : c = d := by
    rcases escapedChar_cases c with ⟨hc, hplain⟩ | ⟨hc, tail, hescape⟩ <;>
      rcases escapedChar_cases d with ⟨hd, hplain'⟩ | ⟨hd, tail', hescape'⟩
    · rw [hplain, hplain'] at h
      exact (List.cons.inj h).1
    -- the backslash does not stand as it is
    · rw [hplain, hescape'] at h
      obtain rfl := (List.cons.inj h).1
      exact absurd (by decide) hc
    · rw [hescape, hplain'] at h
      obtain rfl := (List.cons.inj h).1
      exact absurd (by decide) hd
    · rcases List.prefix_or_prefix_of_prefix ⟨rest, h⟩ (List.prefix_append _ rest') with
        hprefix | hprefix
      · exact eq_of_prefix_escapedChar hc hd hprefix
      · exact (eq_of_prefix_escapedChar hd hc hprefix).symm
  exact ⟨rfl, List.append_cancel_left h⟩

theorem escapedChar_append_ne (c : Char) (rest rest' : List Char) :
    escapedChar c ++ rest ≠ '"' :: rest' := by
  intro h
  rcases escapedChar_cases c with ⟨hc, hplain⟩ | ⟨-, tail, hescape⟩
  · rw [hplain] at h
    obtain rfl := (List.cons.inj h).1
    exact hc (by decide)
  · rw [hescape] at h
    exact absurd (List.cons.inj h).1 (by decide)

theorem toList_quote (text : String) :
    (quote text).toList = '"' :: (text.toList.flatMap escapedChar ++ ['"']) := by
  simp [quote]

theorem quote_cancel {text text' : String} {rest rest' : List Char}
    (h : (quote text).toList ++ rest = (quote text').toList ++ rest') :
    text = text' ∧ rest = rest' := by
  rw [toList_quote, toList_quote, List.cons_append, List.cons_append, List.append_assoc,
    List.append_assoc] at h
  obtain ⟨htext, hrest⟩ := row_cancel (fun c _ ↦ selfDelimiting_escapedChar c)
    (fun _ _ ↦ trivial) escapedChar_append_ne (List.cons.inj h).2
  exact ⟨String.toList_inj.1 htext, hrest⟩

/-! ### Numbers -/

theorem toList_number (n : Nat) : (number n).text.toList = Nat.toDigits 10 n := by
  rw [text, Nat.toString_eq_repr, Nat.toList_repr]

/-- A number is what digits there are. -/
theorem takeWhile_toDigits_append {rest : List Char} (h : Stops rest) (n : Nat) :
    (Nat.toDigits 10 n ++ rest).takeWhile Char.isDigit = Nat.toDigits 10 n := by
  have hrest : rest.takeWhile Char.isDigit = [] := by
    rcases rest with _ | ⟨c, rest⟩
    · rfl
    · rw [List.takeWhile_cons, h c rfl]
      rfl
  rw [List.takeWhile_append_of_pos, hrest, List.append_nil]
  exact fun c hmem ↦ Nat.isDigit_of_mem_toDigits (by decide) (by decide) hmem

theorem toDigits_cancel {n n' : Nat} {rest rest' : List Char} (hrest : Stops rest)
    (hrest' : Stops rest') (h : Nat.toDigits 10 n ++ rest = Nat.toDigits 10 n' ++ rest') :
    n = n' ∧ rest = rest' := by
  have hdigits : Nat.toDigits 10 n = Nat.toDigits 10 n' := by
    rw [← takeWhile_toDigits_append hrest, h, takeWhile_toDigits_append hrest']
  have hn : n = n' := by
    rw [← @Nat.ofDigitChars_ten_toDigits n, hdigits, Nat.ofDigitChars_ten_toDigits]
  rw [hdigits] at h
  exact ⟨hn, List.append_cancel_left h⟩

/-! ### Values -/

/-- The characters of the text of a value. -/
def chars (value : Json) : List Char :=
  value.text.toList

/-- The characters of the text of a field. -/
def fieldChars (field : String × Json) : List Char :=
  (quote field.1).toList ++ ':' :: field.2.chars

theorem chars_array (items : List Json) :
    (array items).chars = '[' :: (separated chars items ++ [']']) := by
  have htexts : (texts items).map String.toList = items.map chars := by
    induction items with
    | nil => rfl
    | cons item items ih => simp [texts, ih, chars]
  simp [chars, text, String.toList_intercalate, htexts, separated]

theorem chars_object (fields : List (String × Json)) :
    (object fields).chars = '\x7b' :: (separated fieldChars fields ++ ['\x7d']) := by
  have htexts : (fieldTexts fields).map String.toList = fields.map fieldChars := by
    induction fields with
    | nil => rfl
    | cons field fields ih =>
      obtain ⟨key, value⟩ := field
      simp [fieldTexts, ih, fieldChars, chars]
  simp [chars, text, String.toList_intercalate, htexts, separated]

/-- The character that a value opens with, unless it is a digit. -/
def opening : Json → Option Char
  | null => some 'n'
  | bool value => some (if value then 't' else 'f')
  | number _ => none
  | string _ => some '"'
  | array _ => some '['
  | object _ => some '\x7b'

/-- The first character of a text tells what it is the text of. -/
theorem exists_opening (value : Json) : ∃ c rest, value.chars = c :: rest ∧
    value.opening = if c.isDigit then none else some c := by
  cases value with
  | null => exact ⟨_, _, rfl, rfl⟩
  | bool value => cases value <;> exact ⟨_, _, rfl, rfl⟩
  | number n =>
    obtain ⟨c, rest, hdigits⟩ := List.exists_cons_of_ne_nil (@Nat.toDigits_ne_nil n 10)
    have hdigit : c.isDigit = true :=
      Nat.isDigit_of_mem_toDigits (b := 10) (n := n) (by decide) (by decide) (by simp [hdigits])
    exact ⟨c, rest, (toList_number n).trans hdigits, by rw [hdigit]; rfl⟩
  | string text => exact ⟨_, _, toList_quote text, rfl⟩
  | array items => exact ⟨_, _, chars_array items, rfl⟩
  | object fields => exact ⟨_, _, chars_object fields, rfl⟩

theorem opening_eq {value other : Json} {rest rest' : List Char}
    (h : value.chars ++ rest = other.chars ++ rest') : value.opening = other.opening := by
  obtain ⟨c, tail, hchars, hopening⟩ := exists_opening value
  obtain ⟨c', tail', hchars', hopening'⟩ := exists_opening other
  rw [hchars, hchars'] at h
  rw [hopening, hopening', (List.cons.inj h).1]

/-- Two values of one form, which are equal if the form leaves nothing open. -/
inductive SameForm : Json → Json → Prop
  | null : SameForm null null
  | bool (value : Bool) : SameForm (bool value) (bool value)
  | number (n n' : Nat) : SameForm (number n) (number n')
  | string (text text' : String) : SameForm (string text) (string text')
  | array (items items' : List Json) : SameForm (array items) (array items')
  | object (fields fields' : List (String × Json)) : SameForm (object fields) (object fields')

section Values

variable {value other : Json} {rest rest' : List Char} {items : List Json}
  {fields : List (String × Json)}

theorem sameForm_of_chars (h : value.chars ++ rest = other.chars ++ rest') :
    SameForm value other := by
  have hopening := opening_eq h
  rcases value with _ | ⟨_ | _⟩ | _ | _ | _ | _ <;>
    rcases other with _ | ⟨_ | _⟩ | _ | _ | _ | _ <;>
      first
        | constructor
        | simp [opening] at hopening

/-- No value opens with a bracket that closes. -/
theorem chars_append_ne {closing : Char} (h : closing = ']' ∨ closing = '\x7d') (value : Json)
    (rest rest' : List Char) : value.chars ++ rest ≠ closing :: rest' := by
  intro heq
  obtain ⟨c, tail, hchars, hopening⟩ := exists_opening value
  rw [hchars] at heq
  obtain rfl := (List.cons.inj heq).1
  rcases h with rfl | rfl <;> rcases value with _ | ⟨_ | _⟩ | _ | _ | _ | _ <;>
    simp [opening] at hopening

theorem selfDelimiting_null : SelfDelimiting chars Stops null := by
  intro other rest rest' _ _ h
  cases sameForm_of_chars h with
  | null => exact ⟨rfl, List.append_cancel_left h⟩

theorem selfDelimiting_bool (value : Bool) : SelfDelimiting chars Stops (bool value) := by
  intro other rest rest' _ _ h
  cases sameForm_of_chars h with
  | bool => exact ⟨rfl, List.append_cancel_left h⟩

theorem selfDelimiting_number (n : Nat) : SelfDelimiting chars Stops (number n) := by
  intro other rest rest' hrest hrest' h
  cases sameForm_of_chars h with
  | number _ n' =>
    rw [chars, chars, toList_number, toList_number] at h
    obtain ⟨rfl, rfl⟩ := toDigits_cancel hrest hrest' h
    exact ⟨rfl, rfl⟩

theorem selfDelimiting_string (text : String) : SelfDelimiting chars Stops (string text) := by
  intro other rest rest' _ _ h
  cases sameForm_of_chars h with
  | string _ text' =>
    obtain ⟨rfl, rfl⟩ := quote_cancel h
    exact ⟨rfl, rfl⟩

theorem selfDelimiting_array (h : ∀ item ∈ items, SelfDelimiting chars Stops item) :
    SelfDelimiting chars Stops (array items) := by
  intro other rest rest' _ _ heq
  cases sameForm_of_chars heq with
  | array _ items' =>
    simp only [chars_array, List.cons_append, List.append_assoc, List.nil_append] at heq
    obtain ⟨rfl, rfl⟩ := separated_cancel h (by decide) (by decide) (chars_append_ne (.inl rfl))
      (List.cons.inj heq).2
    exact ⟨rfl, rfl⟩

/-- Of a field, the key ends with its quote, and then the value tells where it ends. -/
theorem selfDelimiting_field {field : String × Json} (h : SelfDelimiting chars Stops field.2) :
    SelfDelimiting fieldChars Stops field := by
  rintro ⟨key', value'⟩ rest rest' hrest hrest' heq
  obtain ⟨key, value⟩ := field
  simp only [fieldChars, List.append_assoc, List.cons_append] at heq
  obtain ⟨rfl, hvalue⟩ := quote_cancel heq
  obtain ⟨rfl, rfl⟩ := h value' rest rest' hrest hrest' (List.cons.inj hvalue).2
  exact ⟨rfl, rfl⟩

theorem selfDelimiting_object (h : ∀ field ∈ fields, SelfDelimiting chars Stops field.2) :
    SelfDelimiting chars Stops (object fields) := by
  intro other rest rest' _ _ heq
  cases sameForm_of_chars heq with
  | object _ fields' =>
    simp only [chars_object, List.cons_append, List.append_assoc, List.nil_append] at heq
    have hfields : ∀ field ∈ fields, SelfDelimiting fieldChars Stops field :=
      fun field hmem ↦ selfDelimiting_field (h field hmem)
    have hclosing : ∀ field rest rest', fieldChars field ++ rest ≠ '\x7d' :: rest' := by
      intro field rest rest' heq
      rw [fieldChars, toList_quote] at heq
      exact absurd (List.cons.inj heq).1 (by decide)
    obtain ⟨rfl, rfl⟩ := separated_cancel hfields (by decide) (by decide) hclosing
      (List.cons.inj heq).2
    exact ⟨rfl, rfl⟩

end Values

/-! ### All values -/

mutual

/-- The text of a value tells where it ends and what the value is. -/
theorem selfDelimiting : ∀ value : Json, SelfDelimiting chars Stops value
  | .null => selfDelimiting_null
  | .bool value => selfDelimiting_bool value
  | .number n => selfDelimiting_number n
  | .string text => selfDelimiting_string text
  | .array items => selfDelimiting_array (selfDelimiting_items items)
  | .object fields => selfDelimiting_object (selfDelimiting_fields fields)

theorem selfDelimiting_items :
    ∀ items : List Json, ∀ item ∈ items, SelfDelimiting chars Stops item
  | [] => fun _ hmem ↦ absurd hmem List.not_mem_nil
  | item :: items => List.forall_mem_cons.2 ⟨selfDelimiting item, selfDelimiting_items items⟩

theorem selfDelimiting_fields :
    ∀ fields : List (String × Json), ∀ field ∈ fields, SelfDelimiting chars Stops field.2
  | [] => fun _ hmem ↦ absurd hmem List.not_mem_nil
  | (_, value) :: fields =>
    List.forall_mem_cons.2 ⟨selfDelimiting value, selfDelimiting_fields fields⟩

end

/-- **Different values have different texts.** -/
theorem text_injective : Function.Injective text := by
  intro value other h
  have hchars : value.chars ++ [] = other.chars ++ [] := by rw [chars, chars, h]
  exact (selfDelimiting value other [] [] stops_nil stops_nil hchars).1

end Json

end PipelineSyntax
