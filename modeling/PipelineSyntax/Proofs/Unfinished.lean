import PipelineSyntax.Proofs.Completeness

/-!
# Derivations that are cut short

Between two tokens of a line, every piece that is complete has been derived, and of every
piece that is open it is known what stands in front of it.

What stands in front of an open piece is said by five predicates that refer to each other,
because a bracket stands where a factor does and a term stands inside a bracket:

* `Ready stack tokens next`: behind the tokens, a term begins with `next` inside the brackets
  of the stack;
* `Joins stack term join tokens next`: behind the tokens, a factor begins with `next`, and is
  joined to the term;
* `Stands stack place tokens next`: behind the tokens, `next` is a primary or another dollar of
  the factor at the place;
* `Within stack term tokens`: the tokens end with the factors of a term;
* `Opened kind stack place blanks tokens`: the tokens end with a bracket, and blanks behind it.

The token that comes next is part of the first three because of what it decides: where a piece
begins, whether it is joined to a key, and whether the element in front of it stands alone.

The limit is kept as the depth that is left: inside the brackets of a stack, pieces of depth
`limit - stack.length` may be read.

Of the machine, nothing is used here but the types in which it keeps open pieces. How the
predicates grow is said in the order of the grammar: a primary fills its place, a term is put
with those in front of it, and a redirection or a command with the line.
-/

namespace PipelineSyntax

namespace Parser

open Grammar

/-! ### In front of a term outside of brackets -/

/-- What stands in front of a command: nothing, or commands and a bar. -/
inductive CommandsBefore (depth : Nat) : List Node → List Token → Prop
  | nil : CommandsBefore depth [] []
  | pipe {tokens : List Token} {pipe : Token} {commands : List Node}
      (hcommands : Commands depth tokens commands) (hpipe : pipe.kind = .pipe) :
      CommandsBefore depth commands.reverse (tokens ++ [pipe])

/-- The tokens end with a command, of which no piece is open. -/
inductive Behind (depth : Nat) : OpenLine → List Token → Prop
  | mk (pos : Nat) {front before args redirs after : List Token} {commands terms : List Node}
      {redirections : List (Redirection Node)} (hfront : CommandsBefore depth commands front)
      (hbefore : Blanks before) (hargs : Terms depth args terms)
      (hredirs : Redirects depth redirs redirections) (hafter : Blanks after) :
      Behind depth
        { pos, commands, args := terms.reverse, redirections := redirections.reverse }
        (front ++ (before ++ args ++ redirs ++ after))

/-- Behind the tokens, a term outside of brackets may begin. -/
inductive LineReady (depth : Nat) : OpenLine → List Token → Prop
  | first (pos : Nat) {front blanks : List Token} {commands : List Node}
      (hfront : CommandsBefore depth commands front) (hblanks : Blanks blanks) :
      LineReady depth { pos, commands } (front ++ blanks)
  | argument (pos : Nat) {front before args blanks : List Token} {commands terms : List Node}
      (hfront : CommandsBefore depth commands front) (hbefore : Blanks before)
      (hargs : Terms depth args terms) (hblanks : Blanks blanks) (hne : blanks ≠ []) :
      LineReady depth { pos, commands, args := terms.reverse }
        (front ++ (before ++ (args ++ blanks)))
  | target {line : OpenLine} {front blanks : List Token} {leader : Token} {fd : Fd}
      {mode : OpenMode} (hfront : Behind depth line front) (hkind : leader.kind = .leader)
      (hread : Leader.read leader.text = .ok (.target fd mode)) (hblanks : Blanks blanks) :
      LineReady depth { line with target := some (fd, mode) } (front ++ leader :: blanks)

/-! ### In front of a term anywhere -/

/-- Whether a term inside the brackets of the stack could be the key of a pair. -/
def keyPosition (stack : List Bracket) : Bool :=
  State.atKey { line := { pos := 0 }, stack, expect := .term }

section Open

variable (limit : Nat) (line : OpenLine)

mutual

/-- Behind the tokens, a term begins with the next one. -/
inductive Ready : List Bracket → List Token → Token → Prop
  | line {tokens : List Token} {next : Token} (h : LineReady limit line tokens) :
      Ready [] tokens next
  | groupFirst {stack : List Bracket} {place : Place} {blanks tokens : List Token} {next : Token}
      (h : Opened .leftParen stack place blanks tokens) :
      Ready (⟨place, .group []⟩ :: stack) tokens next
  | groupNext {stack : List Bracket} {place : Place} {before inner blanks tokens : List Token}
      {terms : List Node} {next : Token} (h : Opened .leftParen stack place before tokens)
      (hinner : Terms (limit - (stack.length + 1)) inner terms) (hblanks : Blanks blanks)
      (hne : blanks ≠ []) :
      Ready (⟨place, .group terms.reverse⟩ :: stack) (tokens ++ (inner ++ blanks)) next
  | tableFirst {stack : List Bracket} {place : Place} {blanks tokens : List Token} {next : Token}
      (h : Opened .leftBracket stack place blanks tokens) :
      Ready (⟨place, .table { pos := origin (blanks ++ [next]) } none⟩ :: stack) tokens next
  | tableNext {stack : List Bracket} {place : Place} {before inner blanks tokens : List Token}
      {entries : List Entry} {last : Entry} {next : Token}
      (h : Opened .leftBracket stack place before tokens)
      (hinner : Elements (limit - (stack.length + 1)) inner (entries ++ [last]))
      (hblanks : Blanks blanks) (hne : blanks ≠ [])
      (hlast : (last.isAlone && next.isEquals) = false) :
      Ready (⟨place, .table ((entries ++ [last]).foldl OpenTable.add
        { pos := origin (before ++ inner) }) none⟩ :: stack) (tokens ++ (inner ++ blanks)) next
  | value {stack : List Bracket} {place : Place} {table : OpenTable} {term : OpenTerm}
      {before after tokens : List Token} {equals next : Token}
      (h : Within (⟨place, .table table none⟩ :: stack) term tokens) (hbefore : Blanks before)
      (hequals : equals.isEquals = true) (hafter : Blanks after) :
      Ready (⟨place, .table table (some term.close)⟩ :: stack)
        (tokens ++ (before ++ equals :: after)) next

/-- Behind the tokens, a factor begins with the next one and is joined to the term. -/
inductive Joins : List Bracket → OpenTerm → Join → List Token → Token → Prop
  | start {stack : List Bracket} {tokens : List Token} {next : Token}
      (h : Ready stack tokens next) : Joins stack { pos := next.offset } .start tokens next
  | adjacent {stack : List Bracket} {term : OpenTerm} {tokens : List Token} {next : Token}
      (h : Within stack term tokens) (hkey : (keyPosition stack && next.isEquals) = false) :
      Joins stack term .adjacent tokens next
  | caret {stack : List Bracket} {term : OpenTerm} {before after tokens : List Token}
      {caret next : Token} (h : Within stack term tokens) (hbefore : Blanks before)
      (hcaret : caret.kind = .caret) (hafter : Blanks after) :
      Joins stack term .caret (tokens ++ (before ++ caret :: after)) next

/-- Behind the tokens, the next one is a primary or another dollar at the place. -/
inductive Stands : List Bracket → Place → List Token → Token → Prop
  | mk {stack : List Bracket} {term : OpenTerm} {join : Join} {dollars tokens : List Token}
      {first next : Token} (h : Joins stack term join tokens first)
      (hdollars : OfKind .dollar dollars) (hfirst : (dollars ++ [next]).head? = some first) :
      Stands stack ⟨term, first.offset, dollars.length, join⟩ (tokens ++ dollars) next

/-- The tokens end with the factors of a term that is being read. -/
inductive Within : List Bracket → OpenTerm → List Token → Prop
  | mk {stack : List Bracket} {first : Token} {rest tokens : List Token} {factors : List Node}
      (h : Ready stack tokens first)
      (hterm : Term (limit - stack.length) (keyPosition stack) (first :: rest) factors) :
      Within stack ⟨first.offset, factors.reverse⟩ (tokens ++ first :: rest)

/-- The tokens end with a bracket at the place, for which there is room, and blanks. -/
inductive Opened : Token.Kind → List Bracket → Place → List Token → List Token → Prop
  | mk {stack : List Bracket} {place : Place} {left : Token} {blanks tokens : List Token}
      (h : Stands stack place tokens left) (hroom : stack.length < limit)
      (hblanks : Blanks blanks) :
      Opened left.kind stack place blanks (tokens ++ left :: blanks)

end

end Open

variable {limit : Nat} {line : OpenLine} {stack : List Bracket} {place : Place}
  {term : OpenTerm} {token next : Token} {tokens : List Token}

/-! ### Filling a place -/

/-- A factor that is joined to a term belongs to it. -/
theorem Joins.fill {join : Join} {rest : List Token} {factor : Node}
    (h : Joins limit line stack term join tokens next)
    (hfactor : Factor (limit - stack.length) join (next :: rest) factor) :
    Within limit line stack { term with factors := factor :: term.factors }
      (tokens ++ next :: rest) := by
  obtain h | ⟨⟨h, hterm⟩, hkey⟩ | ⟨⟨h, hterm⟩, hbefore, hcaret, hafter⟩ := h
  · exact .mk h (.first hfactor)
  · have hwithin := Within.mk h (.adjacent hterm hfactor hkey)
    simpa using hwithin
  · have hwithin := Within.mk h (.caret hterm hbefore hcaret hafter hfactor)
    simpa using hwithin

/-- In front of its dollars, if there are any, a factor has its place. -/
theorem Joins.stands {join : Join} (h : Joins limit line stack term join tokens next) :
    Stands limit line stack { term, pos := next.offset, join } tokens next := by
  have hstands := Stands.mk h (OfKind.nil : OfKind .dollar []) rfl
  rwa [List.append_nil] at hstands

/-- A primary at the place completes a factor. -/
theorem Stands.fill {rest : List Token} {node : Node}
    (h : Stands limit line stack place tokens token)
    (hprimary : Primary (limit - stack.length) (token :: rest) node) :
    Within limit line stack (place.fill node) (tokens ++ token :: rest) := by
  obtain ⟨h, hdollars, hfirst⟩ := h
  rename_i join dollars tokens first
  obtain ⟨back, hback⟩ : ∃ back, dollars ++ token :: rest = first :: back := by
    rcases dollars with _ | ⟨dollar, dollars⟩
    · obtain rfl := Option.some.inj hfirst
      exact ⟨rest, rfl⟩
    · obtain rfl := Option.some.inj hfirst
      exact ⟨dollars ++ token :: rest, rfl⟩
  have hfactor : Factor (limit - stack.length) join (dollars ++ token :: rest) _ :=
    .primary hdollars hprimary
  rw [hback] at hfactor
  rw [List.append_assoc, hback]
  exact h.fill hfactor

/-- Behind a dollar, the place is the same, with one more of them. -/
theorem Stands.addDollar (h : Stands limit line stack place tokens token)
    (hkind : token.kind = .dollar) (next : Token) :
    Stands limit line stack place.addDollar (tokens ++ [token]) next := by
  obtain ⟨h, hdollars, hfirst⟩ := h
  rename_i join dollars tokens first
  have hfirst' : ((dollars ++ [token]) ++ [next]).head? = some first := by
    rw [List.head?_append, hfirst, Option.some_or]
  have hstands := Stands.mk h (hdollars.append (.single hkind)) hfirst'
  rw [List.length_append] at hstands
  rw [List.append_assoc]
  exact hstands

/-- A blank behind a bracket may be followed by more of them. -/
theorem Opened.blanks {kind : Token.Kind} {blanks more : List Token}
    (h : Opened limit line kind stack place blanks tokens) (hmore : Blanks more) :
    Opened limit line kind stack place (blanks ++ more) (tokens ++ more) := by
  obtain ⟨h, hroom, hblanks⟩ := h
  rw [List.append_assoc]
  exact .mk h hroom (hblanks.append hmore)

/-- Closing a bracket fills its place. -/
theorem Opened.close {kind : Token.Kind} {blanks rest : List Token} {node : Node}
    (h : Opened limit line kind stack place blanks tokens)
    (hprimary : ∀ left, left.kind = kind → Blanks blanks →
      Primary (limit - (stack.length + 1) + 1) (left :: (blanks ++ rest)) node) :
    Within limit line stack (place.fill node) (tokens ++ rest) := by
  obtain ⟨h, hroom, hblanks⟩ := h
  have hdepth : limit - (stack.length + 1) + 1 = limit - stack.length := by omega
  have hwithin := h.fill (hdepth ▸ hprimary _ rfl hblanks)
  simpa using hwithin

/-! ### Pieces inside a bracket -/

/-- A term in a group is one of its terms. -/
theorem Within.terms {terms : List Node}
    (h : Within limit line (⟨place, .group terms⟩ :: stack) term tokens) :
    ∃ before front inner, tokens = front ++ inner ∧
      Opened limit line .leftParen stack place before front ∧
      Terms (limit - (stack.length + 1)) inner (term.close :: terms).reverse := by
  obtain ⟨h, hterm⟩ := h
  rename_i factors
  rw [close_reverse]
  obtain _ | h | ⟨h, hinner, hblanks, hne⟩ := h
  · exact ⟨_, _, _, rfl, h, .first hterm⟩
  · refine ⟨_, _, _, List.append_assoc .., h, ?_⟩
    have hterms := Terms.next hinner hblanks hne hterm
    simpa using hterms

/-- An entry that begins inside a table is its last entry so far. -/
theorem Ready.entries {table : OpenTable} {rest : List Token} {entry : Entry}
    (h : Ready limit line (⟨place, .table table none⟩ :: stack) tokens next)
    (helement : Element (limit - (stack.length + 1)) (next :: rest) entry) :
    ∃ before front inner entries, tokens ++ next :: rest = front ++ inner ∧
      Opened limit line .leftBracket stack place before front ∧
      Elements (limit - (stack.length + 1)) inner (entries ++ [entry]) ∧
      table = entries.foldl OpenTable.add { pos := origin (before ++ inner) } := by
  obtain _ | _ | _ | h | ⟨h, hinner, hblanks, hne, hlast⟩ | _ := h
  · rename_i blanks
    refine ⟨blanks, tokens, next :: rest, [], rfl, h, .first helement, ?_⟩
    -- the table begins with the first token behind its bracket, a blank or the entry's own
    have horigin : origin (blanks ++ [next]) = origin (blanks ++ next :: rest) := by
      rcases blanks with _ | ⟨blank, blanks⟩ <;> rfl
    rw [horigin]
    rfl
  · rename_i before inner blanks tokens entries last
    refine ⟨before, tokens, _, entries ++ [last], ?_, h,
      .next hinner hblanks hne helement hlast, ?_⟩
    · simp only [List.append_assoc]
    · have hinner := hinner.opensFactor.ne_nil
      have hne : before ++ inner ≠ [] := by simp [hinner]
      rw [← List.append_assoc, origin_append hne]

/-- What a term in a table completes, given the key in front of it. -/
def Entry.ofTerm : Option Node → Node → Entry
  | none, element => .alone element
  | some key, value => .pair key value

/-- A term in a table completes the last of its entries so far. -/
theorem Within.entries {table : OpenTable} {key : Option Node}
    (h : Within limit line (⟨place, .table table key⟩ :: stack) term tokens) :
    ∃ before front inner entries, tokens = front ++ inner ∧
      Opened limit line .leftBracket stack place before front ∧
      Elements (limit - (stack.length + 1)) inner (entries ++ [Entry.ofTerm key term.close]) ∧
      table = entries.foldl OpenTable.add { pos := origin (before ++ inner) } := by
  obtain ⟨h, hterm⟩ := h
  rw [close_reverse]
  rcases key with _ | key
  · exact h.entries (.alone hterm)
  · obtain _ | _ | _ | _ | _ | ⟨⟨h, hkey⟩, hbefore, hequals, hafter⟩ := h
    obtain ⟨before, front, inner, entries, htokens, hopened, helements, htable⟩ :=
      h.entries (.pair hkey hbefore hequals hafter hterm)
    refine ⟨before, front, inner, entries, ?_, hopened, ?_, htable⟩
    · rw [← htokens]
      simp only [List.append_assoc, List.cons_append]
      rfl
    · rwa [Entry.ofTerm, close_reverse]

/-! ### Outside of brackets -/

/-- Arguments are a command that may end with them, and blanks behind them leave room for one
argument more. -/
theorem behind_and_ready {depth pos : Nat} {front before args : List Token}
    {commands terms : List Node} (hfront : CommandsBefore depth commands front)
    (hbefore : Blanks before) (hargs : Terms depth args terms) :
    Behind depth { pos, commands, args := terms.reverse } (front ++ (before ++ args)) ∧
      ∀ blanks, Blanks blanks → blanks ≠ [] →
        LineReady depth { pos, commands, args := terms.reverse }
          (front ++ (before ++ args) ++ blanks) := by
  constructor
  · have hbehind := Behind.mk pos hfront hbefore hargs .nil .nil
    simpa using hbehind
  · intro blanks hblanks hne
    have hready := LineReady.argument pos hfront hbefore hargs hblanks hne
    simpa using hready

/-- A term outside of brackets is an argument, unless a redirection waits for its target. A
command may end with it, or behind blanks have another one. -/
theorem Within.argument (h : Within limit line [] term tokens) (htarget : line.target = none) :
    Behind limit (line.addArg term.close) tokens ∧
      ∀ blanks, Blanks blanks → blanks ≠ [] →
        LineReady limit (line.addArg term.close) (tokens ++ blanks) := by
  obtain ⟨⟨h⟩, hterm⟩ := h
  rw [close_reverse]
  obtain ⟨pos, hfront, hbefore⟩ | ⟨pos, hfront, hbefore, hargs, hsep, hne⟩ | _ := h
  · have hline := @behind_and_ready _ pos _ _ _ _ _ hfront hbefore (.first hterm)
    simpa [OpenLine.addArg] using hline
  · have hline := @behind_and_ready _ pos _ _ _ _ _ hfront hbefore (hargs.next hsep hne hterm)
    simpa [OpenLine.addArg] using hline
  · cases htarget

/-- A redirection behind a command belongs to it. -/
theorem Behind.redirect {row : List Token} {redirection : Redirection Node}
    (h : Behind limit line tokens) (hredirect : Redirect limit row redirection) :
    Behind limit (line.redirect redirection) (tokens ++ row) := by
  obtain ⟨pos, hfront, hbefore, hargs, hredirs, hafter⟩ := h
  have hbehind := Behind.mk pos hfront hbefore hargs (hredirs.next hafter hredirect) .nil
  simpa [OpenLine.redirect] using hbehind

/-- A term that a redirection has been waiting for is its target. -/
theorem Within.target {fd : Fd} {mode : OpenMode} (h : Within limit line [] term tokens)
    (htarget : line.target = some (fd, mode)) :
    Behind limit (line.redirect (.file fd mode term.sequence)) tokens := by
  obtain ⟨⟨h⟩, hterm⟩ := h
  rw [sequence_reverse]
  obtain _ | _ | ⟨hfront, hkind, hread, hblanks⟩ := h
  · cases htarget
  · cases htarget
  · cases htarget
    have hbehind := hfront.redirect (.file hkind hread hblanks hterm)
    simpa [OpenLine.redirect] using hbehind

/-- Blanks behind a command belong to it. -/
theorem Behind.blanks {blanks : List Token} (h : Behind limit line tokens)
    (hblanks : Blanks blanks) : Behind limit line (tokens ++ blanks) := by
  obtain ⟨pos, hfront, hbefore, hargs, hredirs, hafter⟩ := h
  have hbehind := Behind.mk pos hfront hbefore hargs hredirs (hafter.append hblanks)
  simpa using hbehind

/-- The command that the tokens end with completes the commands. -/
theorem Behind.commands (h : Behind limit line tokens) :
    Commands limit tokens line.endCommand.commands.reverse := by
  obtain ⟨pos, hfront, hbefore, hargs, hredirs, hafter⟩ := h
  have hcommand := Command.mk hbefore hargs hredirs hafter
  simp only [OpenLine.endCommand, hargs.termList_reverse, List.reverse_reverse, List.reverse_cons]
  obtain _ | ⟨hcommands, hpipe⟩ := hfront
  · exact .first hcommand
  · have hnext := hcommands.next hpipe hcommand
    simpa using hnext

end Parser

end PipelineSyntax
