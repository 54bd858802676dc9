import Mathlib.Data.List.TakeWhile
import PipelineSyntax.Proofs.Sources

/-!
# One line per reading

A stream falls into lines: each ends with its first token that ends a line, and the end of
the input, which repeats for ever, is a line of its own each time. `TokenStream.line` is the
first of them and `TokenStream.skipLines` what stands behind the first few.

Reading never goes beyond the line it began. What it pulls is a prefix of the line, and the
whole line if it succeeds; so nothing that stands behind the line can show in the outcome,
and the next reading finds the next line untouched. All of it rests on two facts about rows
of tokens: what stands in front of the deciding token does not end the line
(`Steps.endsLine_eq_false`), and what has been decided stays decided (`Reads.unique`). A single
reading is like that from any source (`readFrom_congr`); readings in a row are those of a stream,
whose lines are there beforehand.
-/

namespace PipelineSyntax

open TokenSource (token)

namespace TokenStream

/-! ### The lines of a stream -/

/-- The tokens up to and including the first one that ends a line. -/
def line (stream : TokenStream) : List Token :=
  stream.tokens.takeWhile (fun token ↦ !token.kind.endsLine) ++
    [(stream.tokens.find? fun token ↦ token.kind.endsLine).getD (.endOfInput stream.endOffset)]

/-- The stream behind its first lines. -/
def skipLines : Nat → TokenStream → TokenStream
  | 0, stream => stream
  | count + 1, stream => (stream.take stream.line.length).2.skipLines count

/-- The first token of a line is the next one to be pulled, and what follows it, if
anything does, is the line behind it. -/
theorem line_eq_pull (stream : TokenStream) :
    stream.line =
      stream.pull.1 :: if stream.pull.1.kind.endsLine then [] else stream.pull.2.line := by
  rcases stream with ⟨_ | ⟨token, rest⟩, offset⟩
  · rfl
  · cases hends : token.kind.endsLine with
    | true => simp [line, pull, hends]
    | false =>
      have hkind : token.kind ≠ .endOfInput := fun h ↦ by rw [h] at hends; cases hends
      simp [line, pull, hends, hkind]

/-- Tokens none of which ends the line are one line with the end of the input. -/
theorem line_of_open {tokens : List Token} {offset : Nat}
    (h : ∀ token ∈ tokens, token.kind.endsLine = false) :
    line ⟨tokens, offset⟩ = tokens ++ [.endOfInput offset] := by
  have hfind : tokens.find? (fun token ↦ token.kind.endsLine) = none :=
    List.find?_eq_none.2 fun token hmem ↦ by simp [h token hmem]
  have htake : tokens.takeWhile (fun token ↦ !token.kind.endsLine) = tokens :=
    List.takeWhile_eq_self_iff.2 fun token hmem ↦ by simp [h token hmem]
  rw [line, htake, hfind]
  rfl

/-- The last token of a line is the only one that ends it. -/
theorem exists_line_eq (stream : TokenStream) : ∃ front last, stream.line = front ++ [last] ∧
    (∀ token ∈ front, token.kind.endsLine = false) ∧ last.kind.endsLine = true := by
  refine ⟨_, _, rfl, fun token hmem ↦ by simpa using List.mem_takeWhile_imp hmem, ?_⟩
  cases hfind : stream.tokens.find? (·.kind.endsLine) with
  | none => rfl
  | some token =>
    have hends := List.find?_some hfind
    exact hends

/-- Tokens that are pulled while the line is open are the beginning of the line, and all of
it if the last of them ends it. -/
theorem prefix_line_of_take {front : List Token} {last : Token} {stream : TokenStream}
    (htake : (stream.take (front.length + 1)).1 = front ++ [last])
    (hopen : ∀ token ∈ front, token.kind.endsLine = false) :
    front ++ [last] <+: stream.line ∧
      (last.kind.endsLine = true → stream.line = front ++ [last]) := by
  induction front generalizing stream with
  | nil =>
    obtain rfl : stream.pull.1 = last := (List.cons.inj htake).1
    rw [line_eq_pull]
    refine ⟨List.prefix_append _ _, fun hends ↦ ?_⟩
    rw [if_pos hends]
    rfl
  | cons token front ih =>
    obtain rfl : stream.pull.1 = token := (List.cons.inj htake).1
    have hrest : (stream.pull.2.take (front.length + 1)).1 = front ++ [last] :=
      (List.cons.inj htake).2
    obtain ⟨hpre, hall⟩ := ih hrest fun token hmem ↦ hopen token (List.mem_cons_of_mem _ hmem)
    rw [line_eq_pull, hopen _ List.mem_cons_self]
    exact ⟨List.cons_prefix_cons.2 ⟨rfl, hpre⟩, fun hends ↦ congrArg _ (hall hends)⟩

end TokenStream

namespace Parser

/-! ### What is pulled lies in the line -/

section Pulled

variable {limit : Nat} {stream : TokenStream} {parsed : Parsed} {abort : Abort}

/-- A reading that succeeds pulls the whole line. -/
theorem pulled_eq_line (h : (readLine limit stream).1 = .ok parsed) :
    pulled limit stream = stream.line := by
  have hreads := reads_pulled limit stream
  rw [h] at hreads
  obtain ⟨front, last, hpulled, hopen, hends⟩ := hreads.exists_last_of_ok
  have htake := take_length_pulled limit stream
  rw [hpulled, List.length_append] at htake
  rw [hpulled, (TokenStream.prefix_line_of_take htake hopen).2 hends]

/-- A reading that fails does so at the last token that it pulls, and no token before it
ends the line. -/
theorem pulled_of_error (h : (readLine limit stream).1 = .error abort) :
    ∃ front last, pulled limit stream = front ++ [last] ∧
      (∀ token ∈ front, token.kind.endsLine = false) ∧ abort.offset = last.offset := by
  have hreads := reads_pulled limit stream
  rw [h] at hreads
  exact hreads.exists_last_of_error

/-- Whatever the outcome, nothing behind the line is pulled. -/
theorem pulled_prefix_line (limit : Nat) (stream : TokenStream) :
    pulled limit stream <+: stream.line := by
  cases h : (readLine limit stream).1 with
  | ok parsed => exact pulled_eq_line h ▸ List.prefix_refl _
  | error abort =>
    obtain ⟨front, last, hpulled, hopen, -⟩ := pulled_of_error h
    have htake := take_length_pulled limit stream
    rw [hpulled, List.length_append] at htake
    rw [hpulled]
    exact (TokenStream.prefix_line_of_take htake hopen).1

/-- Streams that agree on what is pulled from one of them are read alike. -/
theorem readLine_congr {other : TokenStream}
    (h : (other.take (pulled limit stream).length).1 = pulled limit stream) :
    pulled limit other = pulled limit stream ∧
      (readLine limit other).1 = (readLine limit stream).1 :=
  pulled_eq_of_reads h (reads_pulled limit stream)

/-- A line is read alone as it is read in front of what follows it. -/
theorem readLine_line (limit : Nat) (stream : TokenStream) (offset : Nat) :
    (readLine limit ⟨stream.line, offset⟩).1 = (readLine limit stream).1 := by
  obtain ⟨rest, hrest⟩ := pulled_prefix_line limit stream
  refine (readLine_congr ?_).2
  rw [← hrest]
  exact TokenStream.take_append _ _ _

/-- A reading succeeds exactly if the machine reads the whole line. -/
theorem readLine_ok_iff_reads : (readLine limit stream).1 = .ok parsed ↔
    Reads limit (.start (origin stream.line)) stream.line (.ok parsed) := by
  constructor
  · intro hparsed
    have hreads := reads_pulled limit stream
    rwa [hparsed, pulled_eq_line hparsed] at hreads
  · intro hreads
    have htake := TokenStream.take_append stream.line [] 0
    rw [List.append_nil] at htake
    rw [← readLine_line limit stream 0]
    exact (pulled_eq_of_reads htake hreads).2

/-- A reading that succeeds leaves the stream behind its line. -/
theorem snd_readLine (h : (readLine limit stream).1 = .ok parsed) :
    (readLine limit stream).2 = stream.skipLines 1 := by
  have htake := take_pulled limit stream
  rw [pulled_eq_line h] at htake
  rw [TokenStream.skipLines, TokenStream.skipLines, htake]

end Pulled

/-! ### Line after line -/

section ParseLines

variable {parser : Parser} {text : String} {stream : TokenStream}

theorem parse_fst (parser : Parser) (text : String) (stream : TokenStream) :
    (parser.parse text stream).1 =
      (readLine parser.maxDepth stream).1.mapError (Diagnostic.ofAbort parser.name text) :=
  rfl

theorem snd_parse {parsed : Parsed} (h : (parser.parse text stream).1 = .ok parsed) :
    (parser.parse text stream).2 = stream.skipLines 1 := by
  rw [parse_fst] at h
  cases houtcome : (readLine parser.maxDepth stream).1 with
  | ok parsed => exact snd_readLine houtcome
  | error abort =>
    rw [houtcome] at h
    cases h

theorem parse_line (parser : Parser) (text : String) (stream : TokenStream) (offset : Nat) :
    (parser.parse text ⟨stream.line, offset⟩).1 = (parser.parse text stream).1 := by
  rw [parse_fst, parse_fst, readLine_line]

theorem parseLines_succ (count : Nat) :
    parser.parseLines text (count + 1) stream =
      let (outcome, rest) := parser.parse text stream
      (outcome :: (parser.parseLines text count rest).1, (parser.parseLines text count rest).2) :=
  rfl

/-- Readings that succeed leave the stream behind as many lines. -/
theorem snd_parseLines {count : Nat}
    (h : ∀ outcome ∈ (parser.parseLines text count stream).1, ∃ parsed, outcome = .ok parsed) :
    (parser.parseLines text count stream).2 = stream.skipLines count := by
  induction count generalizing stream with
  | zero => rfl
  | succ count ih =>
    rw [parseLines_succ] at h ⊢
    obtain ⟨parsed, hparsed⟩ := h _ List.mem_cons_self
    have hrest := ih fun outcome hmem ↦ h outcome (List.mem_cons_of_mem _ hmem)
    dsimp only
    rw [hrest, snd_parse hparsed]
    rfl

/-- Outcomes of fewer readings are the first ones of more. -/
theorem getElem?_parseLines_of_lt {count index : Nat} (h : index < count) :
    (parser.parseLines text count stream).1[index]? =
      some (parser.parse text (parser.parseLines text index stream).2).1 := by
  induction index generalizing count stream with
  | zero =>
    obtain ⟨count, rfl⟩ := Nat.exists_eq_succ_of_ne_zero (Nat.ne_of_gt h)
    rfl
  | succ index ih =>
    cases count with
    | zero => omega
    | succ count =>
      rw [parseLines_succ, parseLines_succ]
      exact ih (by omega)

@[simp]
theorem length_parseLines (count : Nat) :
    (parser.parseLines text count stream).1.length = count := by
  induction count generalizing stream with
  | zero => rfl
  | succ count ih => rw [parseLines_succ, List.length_cons, ih]

/-- The outcomes in front of an index do not depend on how many readings follow. -/
theorem mem_parseLines_iff {count index : Nat} (h : index < count)
    {outcome : Except Diagnostic Parsed} :
    outcome ∈ (parser.parseLines text index stream).1 ↔
      ∃ earlier < index, (parser.parseLines text count stream).1[earlier]? = some outcome := by
  rw [List.mem_iff_getElem?]
  constructor
  · rintro ⟨earlier, hearlier⟩
    obtain ⟨hlt, -⟩ := List.getElem?_eq_some_iff.1 hearlier
    rw [length_parseLines] at hlt
    rw [getElem?_parseLines_of_lt hlt] at hearlier
    exact ⟨earlier, hlt, by rw [getElem?_parseLines_of_lt (Nat.lt_trans hlt h), hearlier]⟩
  · rintro ⟨earlier, hlt, hearlier⟩
    rw [getElem?_parseLines_of_lt (Nat.lt_trans hlt h)] at hearlier
    exact ⟨earlier, by rw [getElem?_parseLines_of_lt hlt, hearlier]⟩

/-- As long as the earlier readings succeed, a reading has the outcome of its line alone. -/
theorem getElem?_parseLines_of_ok {count index : Nat} (h : index < count)
    (hok : ∀ earlier < index, ∃ parsed,
      (parser.parseLines text count stream).1[earlier]? = some (.ok parsed)) :
    (parser.parseLines text index stream).2 = stream.skipLines index ∧
      ∀ offset, (parser.parseLines text count stream).1[index]? =
        some (parser.parse text ⟨(stream.skipLines index).line, offset⟩).1 := by
  have hrest : (parser.parseLines text index stream).2 = stream.skipLines index := by
    refine snd_parseLines fun outcome hmem ↦ ?_
    obtain ⟨earlier, hlt, hearlier⟩ := (mem_parseLines_iff h).1 hmem
    obtain ⟨parsed, hparsed⟩ := hok earlier hlt
    rw [hparsed] at hearlier
    exact ⟨parsed, (Option.some.inj hearlier).symm⟩
  refine ⟨hrest, fun offset ↦ ?_⟩
  rw [getElem?_parseLines_of_lt h, hrest, parse_line]

end ParseLines

/-! ### The theorem -/

/-- **A reading takes one line.** From any source, a reading that succeeds takes the tokens up to
the first one that ends a line, and a reading that fails takes none behind such a token, and fails
at the last one that it takes. Every other source that begins with the tokens taken is read alike,
and as many are taken from it. From a stream, a line is always read; the tokens taken are what the
stream then lacks, and the whole line where the reading succeeds. So of any number of readings in
a row, each one whose predecessors succeeded finds its own line untouched, and has the outcome
that the line has alone. -/
theorem reading_takes_one_line (limit : Nat) :
    (∀ tokens parsed count, readFrom limit tokens = some (.ok parsed, count) →
      ∃ last, count = last + 1 ∧ (tokens last).kind.endsLine = true ∧
        ∀ index < last, (tokens index).kind.endsLine = false) ∧
    (∀ tokens abort count, readFrom limit tokens = some (.error abort, count) →
      ∃ last, count = last + 1 ∧ abort.offset = (tokens last).offset ∧
        ∀ index < last, (tokens index).kind.endsLine = false) ∧
    (∀ tokens outcome count, readFrom limit tokens = some (outcome, count) →
      ∀ other : Nat → Token, (∀ index < count, other index = tokens index) →
        readFrom limit other = some (outcome, count)) ∧
    ∀ stream : TokenStream,
      readFrom limit (token stream) =
        some ((readLine limit stream).1, (pulled limit stream).length) ∧
      stream.take (pulled limit stream).length =
        (pulled limit stream, (readLine limit stream).2) ∧
      (∀ parsed, (readLine limit stream).1 = .ok parsed → pulled limit stream = stream.line) ∧
      ∀ (parser : Parser) (text : String) (count index : Nat), index < count →
        (∀ earlier < index, ∃ parsed,
          (parser.parseLines text count stream).1[earlier]? = some (.ok parsed)) →
        (parser.parseLines text index stream).2 = stream.skipLines index ∧
          ∀ offset, (parser.parseLines text count stream).1[index]? =
            some (parser.parse text ⟨(stream.skipLines index).line, offset⟩).1 :=
  ⟨fun _ _ _ ↦ exists_last_of_readFrom_ok, fun _ _ _ ↦ exists_last_of_readFrom_error,
    fun _ _ _ h _ ↦ readFrom_congr h, fun stream ↦ ⟨readFrom_token limit stream,
      take_pulled limit stream, fun _ ↦ pulled_eq_line, fun _ _ _ _ ↦ getElem?_parseLines_of_ok⟩⟩

/-- Two lines, of which the second one does not begin with a factor. -/
def goodThenBad : TokenStream where
  tokens := [⟨.bare, "a", 0, false⟩, ⟨.endOfLine, "\n", 1, false⟩, ⟨.rightParen, ")", 2, false⟩,
    ⟨.bare, "b", 3, false⟩, ⟨.endOfLine, "\n", 4, false⟩]
  endOffset := 5

/-- The first line of `goodThenBad`, and blanks for ever behind it. -/
def goodThenBlanks (index : Nat) : Token :=
  if index < 2 then token goodThenBad index else ⟨.space, " ", index, false⟩

theorem reading_takes_one_line_goodThenBad :
    (∃ last, 2 = last + 1 ∧ (goodThenBlanks last).kind.endsLine = true ∧
        ∀ index < last, (goodThenBlanks index).kind.endsLine = false) ∧
      (∃ last, 1 = last + 1 ∧ 2 = (token (goodThenBad.skipLines 1) last).offset ∧
        ∀ index < last, (token (goodThenBad.skipLines 1) index).kind.endsLine = false) ∧
      readFrom 0 goodThenBlanks = some ((readLine 0 goodThenBad).1, 2) ∧
      pulled 0 goodThenBad = goodThenBad.line ∧
      ((Parser.mk "t" 0).parseLines "a\n)b\n" 2 goodThenBad).1[1]? =
        some ((Parser.mk "t" 0).parse "a\n)b\n" ⟨(goodThenBad.skipLines 1).line, 9⟩).1 := by
  obtain ⟨hok, herror, hother, hstream⟩ := reading_takes_one_line 0
  obtain ⟨hread, -, hline, hlines⟩ := hstream goodThenBad
  have hblanks : readFrom 0 goodThenBlanks = some ((readLine 0 goodThenBad).1, 2) :=
    hother _ _ 2 hread goodThenBlanks fun index hlt ↦ if_pos hlt
  refine ⟨hok _ _ 2 hblanks, herror _ ⟨2, _⟩ 1 (hstream (goodThenBad.skipLines 1)).1, hblanks,
    hline _ rfl, ?_⟩
  refine (hlines (Parser.mk "t" 0) "a\n)b\n" 2 1 (by decide) fun earlier hearlier ↦ ?_).2 9
  obtain rfl : earlier = 0 := by omega
  exact ⟨_, rfl⟩

end Parser

end PipelineSyntax
