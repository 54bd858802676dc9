import PipelineSyntax.Proofs.Causes
import PipelineSyntax.Proofs.Cuts
import PipelineSyntax.Proofs.Lines
import PipelineSyntax.Token.Script

/-!
# Diagnostics point at tokens

However a script is put together, its tokens tile its text: each begins where the one before it
ends, and their texts in a row are the text. So a token lies between two characters of the text,
and cutting the text at its offset cuts right in front of it.

A reading that fails does so at the last token that it pulls, which is a token of the script or
the end of the input behind all of them. Either way the cut that a diagnostic makes is in front
of that token, and nothing has to be moved to a character boundary.
-/

open PipelineSyntax.Parser

namespace PipelineSyntax

/-! ### Tiles -/

/-- The tokens stand side by side from an offset on. -/
def Tiles : Nat → List Token → Prop
  | _, [] => True
  | start, token :: tokens =>
    token.offset = start ∧ Tiles (start + token.text.utf8ByteSize) tokens

/-- The texts of tokens in a row. -/
def textOf (tokens : List Token) : String :=
  String.join (tokens.map Token.text)

section Tiles

variable {start : Nat} {token : Token} {front back : List Token}

@[simp]
theorem textOf_nil : textOf [] = "" :=
  String.join_nil

@[simp]
theorem textOf_cons (token : Token) (tokens : List Token) :
    textOf (token :: tokens) = token.text ++ textOf tokens :=
  String.join_cons

@[simp]
theorem textOf_append (front back : List Token) :
    textOf (front ++ back) = textOf front ++ textOf back := by
  rw [textOf, List.map_append, String.join_append]
  rfl

theorem tiles_append : Tiles start (front ++ back) ↔
    Tiles start front ∧ Tiles (start + (textOf front).utf8ByteSize) back := by
  induction front generalizing start with
  | nil => simp [Tiles]
  | cons token front ih => simp [Tiles, ih, Nat.add_assoc, and_assoc]

/-- A tile begins where the texts in front of it end. -/
theorem Tiles.offset_eq (h : Tiles 0 (front ++ token :: back)) :
    token.offset = (textOf front).utf8ByteSize := by
  rw [(tiles_append.1 h).2.1, Nat.zero_add]

end Tiles

/-! ### Scripts under assembly -/

namespace Script

/-- What can be done to a script under assembly. -/
inductive Operation where
  /-- Appends a piece of any kind and text. -/
  | add (kind : Token.Kind) (text : String)
  /-- Appends a token that has one spelling only. -/
  | mark (mark : Token.Mark)
  /-- Flags the latest token as one that more input could lengthen. -/
  | flagLatest

/-- Does what an operation says. -/
def perform (script : Script) : Operation → Script
  | .add kind text => script.add kind text
  | .mark mark => script.mark mark
  | .flagLatest => script.flagLatest

/-- The script that operations put together. -/
def assemble (operations : List Operation) : Script :=
  operations.foldl perform empty

/-- The tokens of a script tile its text. -/
structure Tiled (script : Script) : Prop where
  /-- The text is that of the tokens in a row. -/
  text_eq : script.text = textOf script.tokens
  /-- The tokens stand side by side. -/
  tiles : Tiles 0 script.tokens

namespace Tiled

variable {script : Script}

theorem add (h : script.Tiled) (kind : Token.Kind) (text : String) :
    (script.add kind text).Tiled where
  text_eq := by
    rw [tokens_add, textOf_append, ← h.text_eq]
    simp [Script.add]
  tiles := by
    rw [tokens_add, tiles_append, ← h.text_eq]
    exact ⟨h.tiles, (Nat.zero_add _).symm, trivial⟩

/-- A flag moves no token. -/
theorem flagLatest (h : script.Tiled) : script.flagLatest.Tiled := by
  obtain ⟨text, latest⟩ := script
  cases latest with
  | nil => exact h
  | cons token older =>
    obtain ⟨htext, htiles⟩ := h
    simp only [tokens, List.reverse_cons, tiles_append, textOf_append] at htext htiles
    refine ⟨?_, ?_⟩
    · simpa [Script.flagLatest, tokens] using htext
    · simpa [Script.flagLatest, tokens, tiles_append, Tiles] using htiles

theorem perform (h : script.Tiled) (operation : Operation) : (script.perform operation).Tiled := by
  cases operation with
  | add kind text => exact h.add kind text
  | mark mark => exact h.add mark.kind mark.spelling
  | flagLatest => exact h.flagLatest

end Tiled

theorem tiled_assemble (operations : List Operation) : (assemble operations).Tiled := by
  have hrun (script : Script) (h : script.Tiled) : (operations.foldl perform script).Tiled := by
    induction operations generalizing script with
    | nil => exact h
    | cons operation operations ih => exact ih _ (h.perform operation)
  exact hrun empty ⟨textOf_nil.symm, trivial⟩

end Script

/-! ### Tokens that are pulled -/

/-- Tokens that are pulled while the line is open are those of the stream, and behind them all
the end of the input. -/
theorem TokenStream.tokens_of_take {front : List Token} {last : Token} {stream : TokenStream}
    (htake : (stream.take (front.length + 1)).1 = front ++ [last])
    (hopen : ∀ token ∈ front, token.kind.endsLine = false) :
    (∃ back, stream.tokens = front ++ last :: back) ∨
      (stream.tokens = front ∧ last = .endOfInput stream.endOffset) := by
  induction front generalizing stream with
  | nil =>
    obtain rfl : stream.pull.1 = last := (List.cons.inj htake).1
    rcases stream with ⟨_ | ⟨token, rest⟩, offset⟩
    · exact .inr ⟨rfl, rfl⟩
    · exact .inl ⟨rest, rfl⟩
  | cons token front ih =>
    obtain rfl : stream.pull.1 = token := (List.cons.inj htake).1
    obtain ⟨htoken, hfront⟩ := List.forall_mem_cons.1 hopen
    have hrest : (stream.pull.2.take (front.length + 1)).1 = front ++ [last] :=
      (List.cons.inj htake).2
    rcases stream with ⟨_ | ⟨token, rest⟩, offset⟩
    · -- the end of the input would have ended the line
      cases htoken
    · have hkind : token.kind ≠ .endOfInput := fun h ↦ by
        rw [TokenStream.pull_cons, h] at htoken
        cases htoken
      have hsplit := ih hrest hfront
      rw [TokenStream.pull_cons, if_neg hkind] at hsplit ⊢
      rcases hsplit with ⟨back, htokens⟩ | ⟨htokens, hlast⟩
      · exact .inl ⟨back, congrArg _ htokens⟩
      · exact .inr ⟨congrArg _ htokens, hlast⟩

/-- A token that is pulled from a script stands in its text where the texts of those in front
of it end. -/
theorem Script.Tiled.text_eq_of_take {script : Script} (h : script.Tiled) {front : List Token}
    {last : Token} (htake : (script.stream.take (front.length + 1)).1 = front ++ [last])
    (hopen : ∀ token ∈ front, token.kind.endsLine = false) :
    last.offset = (textOf front).utf8ByteSize ∧
      ∃ after, script.text = textOf front ++ last.text ++ after := by
  obtain ⟨htext, htiles⟩ := h
  rcases TokenStream.tokens_of_take htake hopen with ⟨back, htokens⟩ | ⟨htokens, rfl⟩
  · change script.tokens = front ++ last :: back at htokens
    rw [htokens] at htext htiles
    exact ⟨htiles.offset_eq, textOf back, by simp [htext, String.append_assoc]⟩
  · change script.tokens = front at htokens
    rw [htokens] at htext
    exact ⟨congrArg String.utf8ByteSize htext, "", by simp [htext, Token.endOfInput]⟩

/-! ### Diagnostics -/

/-- A diagnostic says where a token is and, if it calls one unexpected, that it is this one. -/
structure Diagnostic.PointsAt (diagnostic : Diagnostic) (token : Token) : Prop where
  /-- The offset is that of the token. -/
  offset_eq : diagnostic.offset = token.offset
  /-- The text goes on with the token there, and line and column are those of the place: as many
  lines end in front of it as it has newlines, and the column counts what stands behind the last
  of them. -/
  place : ∃ before after : String, diagnostic.text = before ++ token.text ++ after ∧
    before.utf8ByteSize = token.offset ∧
    diagnostic.line = before.toList.count '\n' + 1 ∧
    ∃ lines current, before.toList = lines ++ current ∧ '\n' ∉ current ∧
      (lines = [] ∨ lines.getLast? = some '\n') ∧ diagnostic.column = current.length + 1
  /-- What is called unexpected is the token. -/
  unexpected : ∀ found kind context, diagnostic.cause = .unexpected found kind context →
    found = token.describe ∧ kind = token.kind

/-- An abort at a token is set into a text by cutting it right in front of the token. -/
theorem Diagnostic.pointsAt_ofAbort {name before after : String} {token : Token} {abort : Abort}
    {limit : Nat} (hoffset : token.offset = before.utf8ByteSize)
    (hfault : token.AtFault limit abort) :
    (ofAbort name (before ++ token.text ++ after) abort).PointsAt token := by
  have hcut : Text.Cut.ofOffset (before ++ token.text ++ after) abort.offset =
      ⟨before.toList.reverse, (token.text ++ after).toList⟩ := by
    rw [hfault.offset_eq, hoffset, String.append_assoc, Text.Cut.ofOffset_append]
  refine ⟨?_, ⟨before, after, text_ofAbort _ _ _, hoffset.symm, ?_, ?_⟩, fun _ _ _ ↦
    hfault.eq_unexpected⟩
  · rw [hoffset, Diagnostic.offset, ofAbort, hcut, Text.Cut.offset, Text.width_reverse,
      Text.width_toList]
  · rw [Diagnostic.line, ofAbort, hcut]
    simp [Text.Cut.line]
  · obtain ⟨lines, current, hbefore, hline⟩ := (ofAbort name (before ++ token.text ++ after)
      abort).cut.exists_lines
    rw [ofAbort, hcut, List.reverse_reverse] at hbefore
    exact ⟨lines, current, hbefore, hline⟩

/-- A reading that fails does so at the last token that it pulls, while the line is open, and
that token is at fault. -/
theorem atFault_of_error {limit : Nat} {stream : TokenStream} {abort : Abort}
    (h : (readLine limit stream).1 = .error abort) :
    ∃ front last, pulled limit stream = front ++ [last] ∧
      (∀ token ∈ front, token.kind.endsLine = false) ∧ last.AtFault limit abort := by
  have hreads := reads_pulled limit stream
  rw [h] at hreads
  obtain ⟨front, last, state, hpulled, hsteps, herror⟩ := hreads.split_error
  have hfault : Blames (last.AtFault limit) (state.step limit last) := State.step_atFault
  rw [herror] at hfault
  exact ⟨front, last, hpulled, hsteps.endsLine_eq_false, hfault⟩

/-- A diagnostic is an abort that has been set into the text. -/
theorem exists_abort_of_parse {parser : Parser} {text : String} {stream : TokenStream}
    {diagnostic : Diagnostic} (h : (parser.parse text stream).1 = .error diagnostic) :
    ∃ abort, (readLine parser.maxDepth stream).1 = .error abort ∧
      diagnostic = .ofAbort parser.name text abort := by
  rw [parse_fst] at h
  cases hread : (readLine parser.maxDepth stream).1 with
  | ok parsed =>
    rw [hread] at h
    cases h
  | error abort =>
    rw [hread] at h
    exact ⟨abort, rfl, (Except.error.inj h).symm⟩

/-- **Diagnostics point at the offending token.** The tokens of a script that is put together by
any operations tile its text; and whenever reading the script fails, the diagnostic points at
the last token that has been pulled, where the abort itself lies. -/
theorem diagnostics_point_at_tokens (operations : List Script.Operation) :
    let script := Script.assemble operations
    script.text = String.join (script.tokens.map Token.text) ∧
    (∀ front token back, script.tokens = front ++ token :: back →
      token.offset = (String.join (front.map Token.text)).utf8ByteSize ∧
      String.Pos.Raw.IsValid script.text ⟨token.offset⟩) ∧
    ∀ (parser : Parser) (diagnostic : Diagnostic),
      (parser.parse script.text script.stream).1 = .error diagnostic →
      ∃ front last abort, pulled parser.maxDepth script.stream = front ++ [last] ∧
        (readLine parser.maxDepth script.stream).1 = .error abort ∧
        diagnostic.offset = abort.offset ∧ diagnostic.text = script.text ∧
        diagnostic.PointsAt last := by
  intro script
  have htiled : script.Tiled := Script.tiled_assemble operations
  refine ⟨htiled.text_eq, fun front token back htokens ↦ ?_, fun parser diagnostic hparse ↦ ?_⟩
  · obtain ⟨htext, htiles⟩ := htiled
    rw [htokens] at htext htiles
    refine ⟨htiles.offset_eq, String.Pos.Raw.isValid_iff_exists_append.2 ?_⟩
    refine ⟨textOf front, textOf (token :: back), ?_, ?_⟩
    · rw [htext, textOf_append]
    · rw [htiles.offset_eq]
      rfl
  · obtain ⟨abort, hread, rfl⟩ := exists_abort_of_parse hparse
    obtain ⟨front, last, hpulled, hopen, hfault⟩ := atFault_of_error hread
    have htake := take_length_pulled parser.maxDepth script.stream
    rw [hpulled, List.length_append] at htake
    obtain ⟨hoffset, after, htext⟩ := htiled.text_eq_of_take htake hopen
    have hpoints : (Diagnostic.ofAbort parser.name script.text abort).PointsAt last :=
      htext ▸ Diagnostic.pointsAt_ofAbort hoffset hfault
    refine ⟨front, last, abort, hpulled, hread, ?_, Diagnostic.text_ofAbort _ _ _, hpoints⟩
    rw [hpoints.offset_eq, hfault.offset_eq]

/-- A word that is flagged, a literal over two lines, and a parenthesis that closes nothing. -/
def strayParen : List Script.Operation :=
  [.add .bare "é", .flagLatest, .add .space " ", .add .singleQuoted "'\nö'", .mark .rightParen]

theorem diagnostics_point_at_tokens_strayParen :
    let script := Script.assemble strayParen
    ∃ diagnostic, (parse ⟨"stray", 0⟩ script.text script.stream).1 = .error diagnostic ∧
      (diagnostic.offset, diagnostic.line, diagnostic.column) = (8, 2, 3) ∧
      ∃ front last, pulled 0 script.stream = front ++ [last] ∧ diagnostic.PointsAt last := by
  have hparse : (parse ⟨"stray", 0⟩ (Script.assemble strayParen).text
      (Script.assemble strayParen).stream).1 = .error ⟨"stray", ⟨"'ö\n' é".toList, [')']⟩,
        .unexpected "`)`" .rightParen "end of pipeline"⟩ :=
    rfl
  obtain ⟨front, last, _, hpulled, _, _, _, hpoints⟩ :=
    (diagnostics_point_at_tokens strayParen).2.2 ⟨"stray", 0⟩ _ hparse
  exact ⟨_, hparse, by decide +kernel, front, last, hpulled, hpoints⟩

end PipelineSyntax
