import Mathlib.Algebra.Group.Nat.Even
import Mathlib.Data.List.SplitBy
import Mathlib.Data.List.TakeWhile
import PipelineSyntax.Proofs.Delimiters

/-!
# Doubled delimiters

A single-quoted literal says a delimiter by writing it twice. Reading it back is described run by
run: the inner text falls into maximal runs of equal characters, a run of delimiters is halved,
rounding up, and every other run stays as it is (`collapse_eq`).

Doubling all delimiters of a text makes every run of them even, and an even run is halved without
a remainder. So decoding undoes doubling, whatever the text; and doubling undoes decoding exactly
where no run is odd.
-/

namespace PipelineSyntax

namespace Literal

namespace SingleQuoted

/-! ### Runs -/

/-- The maximal runs of equal characters in a text, in their order. -/
def runs (chars : List Char) : List (List Char) :=
  chars.splitBy (· == ·)

/-- What a run stands for: one of delimiters for half as many, rounding up, and any other one for
itself. -/
def halveRun (delimiter : Char) (run : List Char) : List Char :=
  if run.head? = some delimiter then List.replicate ((run.length + 1) / 2) delimiter else run

/-- A text with every run of delimiters halved. -/
def halve (delimiter : Char) (chars : List Char) : List Char :=
  (runs chars).flatMap (halveRun delimiter)

/-- A text with every delimiter written twice. -/
def double (delimiter : Char) (chars : List Char) : List Char :=
  chars.flatMap fun c ↦ if c = delimiter then [c, c] else [c]

/-- No run of delimiters is odd. -/
def EvenRuns (delimiter : Char) (chars : List Char) : Prop :=
  ∀ run ∈ runs chars, run.head? = some delimiter → Even run.length

theorem runs_replicate_append {c : Char} {rest : List Char} (count : Nat)
    (h : rest.head? ≠ some c) :
    runs (List.replicate (count + 1) c ++ rest) =
      List.replicate (count + 1) c :: runs rest := by
  have hends : ∀ x ∈ (List.replicate (count + 1) c).getLast?, ∀ y ∈ rest.head?,
      (x == y) = false := by
    intro x hx y hy
    obtain rfl : c = x := by simpa [List.getLast?_replicate] using hx
    rw [beq_eq_false_iff_ne]
    rintro rfl
    exact h hy
  have hchain : (List.replicate (count + 1) c).IsChain fun x y ↦ (x == y) = true :=
    List.isChain_replicate_of_rel _ (beq_self_eq_true c)
  rw [runs, List.splitBy_append hends, List.splitBy_of_isChain (by simp) hchain]
  rfl

/-- A text is empty or begins with a maximal run, behind which another text follows. What passes
from that text to the whole holds of all texts. -/
theorem runInduction {motive : List Char → Prop} (nil : motive [])
    (run : ∀ (c : Char) (count : Nat) (rest : List Char), rest.head? ≠ some c → motive rest →
      motive (List.replicate (count + 1) c ++ rest)) (chars : List Char) : motive chars := by
  induction hlength : chars.length using Nat.strong_induction_on generalizing chars with
  | h length ih =>
    rcases chars with _ | ⟨c, tail⟩
    · exact nil
    · have hfront : tail.takeWhile (· == c) = List.replicate (tail.takeWhile (· == c)).length c :=
        List.eq_replicate_iff.2 ⟨rfl, fun d hmem ↦ by simpa using List.mem_takeWhile_imp hmem⟩
      have hrest : (tail.dropWhile (· == c)).head? ≠ some c := by
        intro hhead
        simpa [hhead] using List.head?_dropWhile_not (· == c) tail
      have hchars : c :: tail =
          List.replicate ((tail.takeWhile (· == c)).length + 1) c ++ tail.dropWhile (· == c) := by
        rw [List.replicate_succ, ← hfront, List.cons_append, List.takeWhile_append_dropWhile]
      have hlt : (tail.dropWhile (· == c)).length < length := by
        have hle := List.length_dropWhile_le (· == c) tail
        simp only [List.length_cons] at hlength
        omega
      rw [hchars]
      exact run c _ _ hrest (ih _ hlt _ rfl)

/-! ### Collapsing goes run by run -/

variable {delimiter : Char} {out : String} {rest : List Char}

theorem push_append_ofList (out : String) (c : Char) (chars : List Char) :
    out.push c ++ String.ofList chars = out ++ String.ofList (c :: chars) :=
  String.toList_inj.1 (by simp)

theorem collapse_cons_of_ne {c : Char} (h : c ≠ delimiter) :
    collapse delimiter out (c :: rest) = collapse delimiter (out.push c) rest := by
  rcases rest with _ | ⟨d, rest⟩ <;> simp [collapse, h]

theorem collapse_pair :
    collapse delimiter out (delimiter :: delimiter :: rest) =
      collapse delimiter (out.push delimiter) rest := by
  simp [collapse]

/-- A delimiter without a partner stays alone. -/
theorem collapse_alone (h : rest.head? ≠ some delimiter) :
    collapse delimiter out (delimiter :: rest) = collapse delimiter (out.push delimiter) rest := by
  rcases rest with _ | ⟨d, rest⟩
  · rfl
  · have hd : d ≠ delimiter := by simpa using h
    simp [collapse, hd]

theorem collapse_delimiters (count : Nat) (h : rest.head? ≠ some delimiter) :
    collapse delimiter out (List.replicate count delimiter ++ rest) =
      collapse delimiter (out ++ String.ofList (List.replicate ((count + 1) / 2) delimiter))
        rest := by
  -- two at a time, as the pairs are formed
  induction count using Nat.twoStepInduction generalizing out with
  | zero => simp
  | one => simpa using collapse_alone h
  | more count ih _ =>
    have hhalf : (count + 2 + 1) / 2 = (count + 1) / 2 + 1 := by omega
    rw [List.replicate_succ, List.replicate_succ, List.cons_append, List.cons_append, collapse_pair,
      ih, hhalf, List.replicate_succ, push_append_ofList]

theorem collapse_others {c : Char} (h : c ≠ delimiter) (count : Nat) :
    collapse delimiter out (List.replicate count c ++ rest) =
      collapse delimiter (out ++ String.ofList (List.replicate count c)) rest := by
  induction count generalizing out with
  | zero => simp
  | succ count ih =>
    rw [List.replicate_succ, List.cons_append, collapse_cons_of_ne h, ih, push_append_ofList]

theorem halveRun_delimiters (delimiter : Char) (count : Nat) :
    halveRun delimiter (List.replicate (count + 1) delimiter) =
      List.replicate ((count + 1 + 1) / 2) delimiter := by
  rw [halveRun, if_pos (by simp [List.replicate_succ]), List.length_replicate]

theorem halveRun_others {c : Char} (h : c ≠ delimiter) (count : Nat) :
    halveRun delimiter (List.replicate (count + 1) c) = List.replicate (count + 1) c :=
  if_neg (by simp [List.replicate_succ, h])

theorem halve_replicate_append {c : Char} (count : Nat) (h : rest.head? ≠ some c) :
    halve delimiter (List.replicate (count + 1) c ++ rest) =
      halveRun delimiter (List.replicate (count + 1) c) ++ halve delimiter rest := by
  rw [halve, runs_replicate_append count h, List.flatMap_cons, ← halve]

/-- **A run of delimiters is halved, rounding up, and all other characters are kept.** -/
theorem collapse_eq (delimiter : Char) (out : String) (chars : List Char) :
    collapse delimiter out chars = out ++ String.ofList (halve delimiter chars) := by
  induction chars using runInduction generalizing out with
  | nil => simp [collapse, halve, runs]
  | run c count rest hrest ih =>
    rw [halve_replicate_append count hrest, String.ofList_append, ← String.append_assoc]
    by_cases hc : c = delimiter
    · subst hc
      rw [collapse_delimiters _ hrest, ih, halveRun_delimiters]
    · rw [collapse_others hc, ih, halveRun_others hc]

theorem decode_enclose (delimiter : Char) (inner : List Char) :
    decode (enclose delimiter inner) = .ok (String.ofList (halve delimiter inner)) := by
  rw [decode, split?_eq_some_iff.2 rfl]
  simp [collapse_eq]

theorem decode_of_not_isDelimited {raw : String} (h : ¬ IsDelimited raw) :
    decode raw = .error ⟨raw, .missingDelimiters⟩ := by
  have hsplit : split? raw = none := by
    rw [Option.eq_none_iff_forall_ne_some]
    rintro ⟨delimiter, inner⟩ heq
    exact h (isDelimited_iff.2 ⟨delimiter, inner, split?_eq_some_iff.1 heq⟩)
  rw [decode, hsplit]

/-! ### Doubling and halving -/

theorem collapse_double (delimiter : Char) (out : String) (chars : List Char) :
    collapse delimiter out (double delimiter chars) = out ++ String.ofList chars := by
  induction chars generalizing out with
  | nil => simp [double, collapse]
  | cons c chars ih =>
    rw [← push_append_ofList, ← ih]
    by_cases hc : c = delimiter
    · subst hc
      simpa [double] using collapse_pair
    · simpa [double, hc] using collapse_cons_of_ne hc

theorem double_append (delimiter : Char) (front back : List Char) :
    double delimiter (front ++ back) = double delimiter front ++ double delimiter back :=
  List.flatMap_append

theorem double_delimiters (delimiter : Char) (count : Nat) :
    double delimiter (List.replicate count delimiter) =
      List.replicate (count + count) delimiter := by
  induction count with
  | zero => rfl
  | succ count ih =>
    have hcount : count + 1 + (count + 1) = count + count + 1 + 1 := by omega
    rw [hcount, List.replicate_succ, List.replicate_succ, List.replicate_succ, ← ih]
    simp [double]

theorem double_others {c : Char} (h : c ≠ delimiter) (count : Nat) :
    double delimiter (List.replicate count c) = List.replicate count c := by
  induction count with
  | zero => rfl
  | succ count ih => simpa [double, List.replicate_succ, h] using ih

theorem double_halve {chars : List Char} (h : EvenRuns delimiter chars) :
    double delimiter (halve delimiter chars) = chars := by
  induction chars using runInduction with
  | nil => rfl
  | run c count rest hrest ih =>
    rw [EvenRuns, runs_replicate_append count hrest] at h
    obtain ⟨hrun, hruns⟩ := List.forall_mem_cons.1 h
    rw [halve_replicate_append count hrest, double_append, ih hruns]
    by_cases hc : c = delimiter
    · subst hc
      obtain ⟨half, hhalf⟩ := hrun (by simp [List.replicate_succ])
      rw [List.length_replicate] at hhalf
      have hround : (half + half + 1) / 2 = half := by omega
      rw [halveRun_delimiters, hhalf, hround, double_delimiters]
    · rw [halveRun_others hc, double_others hc]

/-! ### The theorem -/

/-- **Decoding a single-quoted literal undoes the doubling of its delimiters.** It is total on
delimited text, whether that is told by characters or by bytes, and halves every run of
delimiters; so it gives back whatever text was doubled, and what it gives can be doubled back
if no run was odd. -/
theorem decode_undoes_doubling (raw text : String) (delimiter : Char) (inner : List Char) :
    ((∃ decoded, decode raw = .ok decoded) ↔ IsDelimited raw) ∧
      (¬ IsDelimited raw → decode raw = .error ⟨raw, .missingDelimiters⟩) ∧
      (IsDelimited raw ↔ ∃ c, raw.toList.head? = some c ∧ raw.toList.getLast? = some c ∧
        2 * c.utf8Size ≤ raw.utf8ByteSize) ∧
      decode (enclose delimiter inner) = .ok (String.ofList (halve delimiter inner)) ∧
      decode (enclose delimiter (double delimiter text.toList)) = .ok text ∧
      (EvenRuns delimiter inner → ∃ decoded, decode (enclose delimiter inner) = .ok decoded ∧
        double delimiter decoded.toList = inner) := by
  refine ⟨⟨?_, ?_⟩, decode_of_not_isDelimited, isDelimited_iff_width,
    decode_enclose delimiter inner, ?_, ?_⟩
  · rintro ⟨decoded, hdecoded⟩
    by_contra h
    rw [decode_of_not_isDelimited h] at hdecoded
    cases hdecoded
  · rw [isDelimited_iff]
    rintro ⟨c, chars, rfl⟩
    exact ⟨_, decode_enclose c chars⟩
  · rw [decode, split?_eq_some_iff.2 rfl]
    simp [collapse_double]
  · intro heven
    refine ⟨_, decode_enclose delimiter inner, ?_⟩
    rw [String.toList_ofList, double_halve heven]

/-- Runs of two and of four, the second of them next to the closing delimiter. -/
theorem decode_undoes_doubling_evenRuns :
    EvenRuns '€' "€€a€€€€".toList ∧
      ∃ decoded, decode "€€€a€€€€€" = .ok decoded ∧ double '€' decoded.toList = "€€a€€€€".toList := by
  have heven : EvenRuns '€' "€€a€€€€".toList := by
    unfold EvenRuns
    decide
  have hall := decode_undoes_doubling "€€€a€€€€€" "€a€€" '€' "€€a€€€€".toList
  exact ⟨heven, hall.2.2.2.2.2 heven⟩

/-- A run of three stands for two, also next to the delimiters of the literal. -/
example : decode "€€€€a€" = .ok "€€a" :=
  rfl

end SingleQuoted

end Literal

end PipelineSyntax
