import PipelineSyntax.Token.Stream

/-!
# Scripts under assembly

A script is a text together with the tokens it was cut into. It is put together from the
left: each piece is appended to the text and becomes a token that begins where the text
ended before, so offsets are right by construction.
-/

namespace PipelineSyntax

/-- A text and its tokens, assembled side by side. -/
structure Script where
  /-- The text assembled so far. -/
  text : String := ""
  /-- The tokens of that text, the latest first. -/
  latest : List Token := []
  deriving DecidableEq, Repr

namespace Script

/-- The script with nothing in it. -/
def empty : Script := {}

/-- The tokens in the order of the text. -/
def tokens (script : Script) : List Token :=
  script.latest.reverse

/-- Appends a piece of the given kind and text. -/
def add (script : Script) (kind : Token.Kind) (text : String) : Script where
  text := script.text ++ text
  latest := ⟨kind, text, script.text.utf8ByteSize, false⟩ :: script.latest

/-- Appends a token that has one spelling only. -/
def mark (script : Script) (mark : Token.Mark) : Script :=
  script.add mark.kind mark.spelling

/-- Flags the latest token, if there is one, as one that more input could lengthen. -/
def flagLatest (script : Script) : Script :=
  match script.latest with
  | [] => script
  | token :: older => { script with latest := { token with mayContinue := true } :: older }

/-- The tokens as a stream whose input ends where the text ends. -/
def stream (script : Script) : TokenStream :=
  ⟨script.tokens, script.text.utf8ByteSize⟩

/-! ### How the tokens grow -/

@[simp]
theorem tokens_add (script : Script) (kind : Token.Kind) (text : String) :
    (script.add kind text).tokens =
      script.tokens ++ [⟨kind, text, script.text.utf8ByteSize, false⟩] := by
  simp [tokens, add]

@[simp]
theorem text_flagLatest (script : Script) : script.flagLatest.text = script.text := by
  rcases script with ⟨text, _ | ⟨token, older⟩⟩ <;> rfl

end Script

end PipelineSyntax
