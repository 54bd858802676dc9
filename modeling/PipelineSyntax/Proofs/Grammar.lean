import PipelineSyntax.Proofs.Reading

/-!
# The grammar

Which rows of tokens are read as which trees, said without a machine. Every predicate below
relates the tokens of a piece, from its first to its last, to what the piece is read as:

```text
Primary  = literal | '(' sp Terms sp ')' | '[' sp [ Elements sp ] ']'
Factor   = { '$' } Primary
Term     = Factor { Factor | sp '^' sp Factor }
Terms    = Term { sp1 Term }
Element  = Key | Key sp '=' sp Term
Elements = Element { sp1 Element }
Redirect = leader [ sp Term ]
Command  = sp Terms { sp Redirect } sp
Line     = sp end of input | Command { '|' Command } ( end of line | end of input )
```

Here `sp` stands for any number of blanks and `sp1` for one or more. A `Key` is a term to
which no factor that opens with a bare `=` is joined without a caret; and an element that is no
pair must not be followed by such a factor, blanks or not.

Shape decisions:

* `depth` bounds how deep groups and tables may be nested in the piece, and plays no part in
  what the piece is read as;
* repetitions grow at their end, which is the order in which they are read;
* positions are part of what is said: a piece begins where its tokens do (`origin`). The one
  exception is the table, which begins at the token behind its bracket.
-/

namespace PipelineSyntax

/-! ### Rows of tokens of one kind -/

/-- All of the tokens are of the given kind. -/
def OfKind (kind : Token.Kind) (tokens : List Token) : Prop :=
  ∀ token ∈ tokens, token.kind = kind

/-- The tokens are blanks. -/
abbrev Blanks (tokens : List Token) : Prop :=
  OfKind .space tokens

namespace OfKind

variable {kind : Token.Kind} {token : Token} {front back tokens : List Token}

theorem nil : OfKind kind [] :=
  fun _ hmem ↦ absurd hmem List.not_mem_nil

theorem single (h : token.kind = kind) : OfKind kind [token] :=
  fun _ hmem ↦ List.mem_singleton.1 hmem ▸ h

theorem append (h : OfKind kind front) (h' : OfKind kind back) : OfKind kind (front ++ back) :=
  fun token hmem ↦ (List.mem_append.1 hmem).elim (h token) (h' token)

theorem cons_iff : OfKind kind (token :: tokens) ↔ token.kind = kind ∧ OfKind kind tokens :=
  List.forall_mem_cons

end OfKind

/-! ### How a row opens -/

/-- Whether the first of the tokens is a bare `=`. -/
def opensWithEquals : List Token → Bool
  | [] => false
  | token :: _ => token.isEquals

/-- The first of the tokens can begin a factor. -/
def OpensFactor (tokens : List Token) : Prop :=
  ∃ first rest, tokens = first :: rest ∧ first.kind.startsFactor = true

theorem OpensFactor.append {front : List Token} (h : OpensFactor front) (back : List Token) :
    OpensFactor (front ++ back) := by
  obtain ⟨first, rest, rfl, hstarts⟩ := h
  exact ⟨first, rest ++ back, rfl, hstarts⟩

theorem OpensFactor.ne_nil {tokens : List Token} (h : OpensFactor tokens) : tokens ≠ [] := by
  obtain ⟨first, rest, rfl, -⟩ := h
  exact List.cons_ne_nil _ _

/-! ### Elements of a table -/

/-- What a table holds at one place. -/
inductive Entry where
  /-- An element that stands alone. -/
  | alone (element : Node)
  /-- A pair of a key and a value. -/
  | pair (key value : Node)

namespace Entry

/-- Whether an element stands alone. -/
def isAlone : Entry → Bool
  | alone _ => true
  | pair .. => false

/-- The elements that stand alone, in the order of the source. -/
def elements (entries : List Entry) : List Node :=
  entries.filterMap fun
    | alone element => some element
    | pair .. => none

/-- The pairs, in the order of the source. -/
def pairs (entries : List Entry) : List (Node × Node) :=
  entries.filterMap fun
    | alone _ => none
    | pair key value => some (key, value)

end Entry

/-! ### The pieces of a line -/

namespace Grammar

mutual

/-- A literal, a group or a table. -/
inductive Primary : Nat → List Token → Node → Prop
  | literal {depth : Nat} {token : Token} {text : String} (hkind : token.kind.isLiteral = true)
      (htext : token.decode = .ok text) :
      Primary depth [token] (.string token.offset token.text text)
  | group {depth : Nat} {left right : Token} {front inner back : List Token} {terms : List Node}
      (hleft : left.kind = .leftParen) (hfront : Blanks front) (hinner : Terms depth inner terms)
      (hback : Blanks back) (hright : right.kind = .rightParen) :
      Primary (depth + 1) (left :: (front ++ inner ++ back ++ [right]))
        (.list ⟨origin inner, .termList, terms⟩)
  | emptyTable {depth : Nat} {left right : Token} {front : List Token}
      (hleft : left.kind = .leftBracket) (hfront : Blanks front)
      (hright : right.kind = .rightBracket) :
      Primary (depth + 1) (left :: (front ++ [right])) (.table (origin (front ++ [right])) [] [])
  | table {depth : Nat} {left right : Token} {front inner back : List Token}
      {entries : List Entry} (hleft : left.kind = .leftBracket) (hfront : Blanks front)
      (hinner : Elements depth inner entries) (hback : Blanks back)
      (hright : right.kind = .rightBracket) :
      Primary (depth + 1) (left :: (front ++ inner ++ back ++ [right]))
        (.table (origin (front ++ inner)) (Entry.elements entries) (Entry.pairs entries))

/-- A primary behind any number of dollars, and how it is joined to what stands in front. -/
inductive Factor : Nat → Join → List Token → Node → Prop
  | primary {depth : Nat} {join : Join} {dollars tokens : List Token} {node : Node}
      (hdollars : OfKind .dollar dollars) (hprimary : Primary depth tokens node) :
      Factor depth join (dollars ++ tokens)
        (.factor (origin (dollars ++ tokens)) dollars.length join node)

/-- Factors that are joined to one word, which has to be a key if `key` is set. -/
inductive Term : Nat → Bool → List Token → List Node → Prop
  | first {depth : Nat} {key : Bool} {tokens : List Token} {factor : Node}
      (hfactor : Factor depth .start tokens factor) : Term depth key tokens [factor]
  | adjacent {depth : Nat} {key : Bool} {front tokens : List Token} {factors : List Node}
      {factor : Node} (hfront : Term depth key front factors)
      (hfactor : Factor depth .adjacent tokens factor)
      (hkey : (key && opensWithEquals tokens) = false) :
      Term depth key (front ++ tokens) (factors ++ [factor])
  | caret {depth : Nat} {key : Bool} {front before after tokens : List Token} {caret : Token}
      {factors : List Node} {factor : Node} (hfront : Term depth key front factors)
      (hbefore : Blanks before) (hcaret : caret.kind = .caret) (hafter : Blanks after)
      (hfactor : Factor depth .caret tokens factor) :
      Term depth key (front ++ (before ++ caret :: (after ++ tokens))) (factors ++ [factor])

/-- Terms with blanks between them. -/
inductive Terms : Nat → List Token → List Node → Prop
  | first {depth : Nat} {tokens : List Token} {factors : List Node}
      (hterm : Term depth false tokens factors) :
      Terms depth tokens [.list ⟨origin tokens, .term, factors⟩]
  | next {depth : Nat} {front blanks tokens : List Token} {terms factors : List Node}
      (hfront : Terms depth front terms) (hblanks : Blanks blanks) (hne : blanks ≠ [])
      (hterm : Term depth false tokens factors) :
      Terms depth (front ++ (blanks ++ tokens)) (terms ++ [.list ⟨origin tokens, .term, factors⟩])

/-- A key alone, or a key and its value around a bare `=`. -/
inductive Element : Nat → List Token → Entry → Prop
  | alone {depth : Nat} {tokens : List Token} {factors : List Node}
      (hkey : Term depth true tokens factors) :
      Element depth tokens (.alone (.list ⟨origin tokens, .term, factors⟩))
  | pair {depth : Nat} {front before after tokens : List Token} {equals : Token}
      {keys factors : List Node} (hkey : Term depth true front keys) (hbefore : Blanks before)
      (hequals : equals.isEquals = true) (hafter : Blanks after)
      (hvalue : Term depth false tokens factors) :
      Element depth (front ++ (before ++ equals :: (after ++ tokens)))
        (.pair (.list ⟨origin front, .term, keys⟩) (.list ⟨origin tokens, .term, factors⟩))

/-- Elements with blanks between them. An element that stands alone is not followed by one
that opens with a bare `=`, which would make a pair of it. -/
inductive Elements : Nat → List Token → List Entry → Prop
  | first {depth : Nat} {tokens : List Token} {entry : Entry}
      (helement : Element depth tokens entry) : Elements depth tokens [entry]
  | next {depth : Nat} {front blanks tokens : List Token} {entries : List Entry}
      {last entry : Entry} (hfront : Elements depth front (entries ++ [last]))
      (hblanks : Blanks blanks) (hne : blanks ≠ []) (helement : Element depth tokens entry)
      (hlast : (last.isAlone && opensWithEquals tokens) = false) :
      Elements depth (front ++ (blanks ++ tokens)) (entries ++ [last] ++ [entry])

end

/-- A leader, and its target where it wants one. -/
inductive Redirect (depth : Nat) : List Token → Redirection Node → Prop
  | file {leader : Token} {blanks tokens : List Token} {fd : Fd} {mode : OpenMode}
      {factors : List Node} (hkind : leader.kind = .leader)
      (hread : Leader.read leader.text = .ok (.target fd mode)) (hblanks : Blanks blanks)
      (hterm : Term depth false tokens factors) :
      Redirect depth (leader :: (blanks ++ tokens))
        (.file fd mode ⟨origin tokens, .term, factors⟩)
  | duplicate {leader : Token} {fd old : Fd} (hkind : leader.kind = .leader)
      (hread : Leader.read leader.text = .ok (.duplicate fd old)) :
      Redirect depth [leader] (.duplicate fd old)
  | close {leader : Token} {fd : Fd} (hkind : leader.kind = .leader)
      (hread : Leader.read leader.text = .ok (.close fd)) : Redirect depth [leader] (.close fd)

/-- Any number of redirections, with blanks in front of each or without. -/
inductive Redirects (depth : Nat) : List Token → List (Redirection Node) → Prop
  | nil : Redirects depth [] []
  | next {front blanks tokens : List Token} {redirections : List (Redirection Node)}
      {redirection : Redirection Node} (hfront : Redirects depth front redirections)
      (hblanks : Blanks blanks) (hredirect : Redirect depth tokens redirection) :
      Redirects depth (front ++ (blanks ++ tokens)) (redirections ++ [redirection])

/-- Arguments and the redirections behind them. -/
inductive Command (depth : Nat) : List Token → Node → Prop
  | mk {before args redirs after : List Token} {terms : List Node}
      {redirections : List (Redirection Node)} (hbefore : Blanks before)
      (hargs : Terms depth args terms) (hredirs : Redirects depth redirs redirections)
      (hafter : Blanks after) :
      Command depth (before ++ args ++ redirs ++ after)
        (.command (origin args) ⟨origin args, .termList, terms⟩ redirections)

/-- Commands with bars between them. -/
inductive Commands (depth : Nat) : List Token → List Node → Prop
  | first {tokens : List Token} {command : Node} (hcommand : Command depth tokens command) :
      Commands depth tokens [command]
  | next {front tokens : List Token} {pipe : Token} {commands : List Node} {command : Node}
      (hfront : Commands depth front commands) (hpipe : pipe.kind = .pipe)
      (hcommand : Command depth tokens command) :
      Commands depth (front ++ pipe :: tokens) (commands ++ [command])

/-- A line with the token that ends it. -/
inductive Line (depth : Nat) : List Token → Sequence Node → Prop
  | empty {blanks : List Token} {last : Token} (hblanks : Blanks blanks)
      (hlast : last.kind = .endOfInput) :
      Line depth (blanks ++ [last]) ⟨origin (blanks ++ [last]), .pipeline, []⟩
  | commands {tokens : List Token} {last : Token} {commands : List Node}
      (hcommands : Commands depth tokens commands) (hlast : last.kind.endsLine = true) :
      Line depth (tokens ++ [last]) ⟨origin (tokens ++ [last]), .pipeline, commands⟩

/-! ### Pieces open with a factor -/

variable {depth : Nat} {key : Bool} {join : Join} {tokens : List Token} {node : Node}
  {nodes : List Node} {entry : Entry} {entries : List Entry}

theorem Primary.opensFactor (h : Primary depth tokens node) : OpensFactor tokens := by
  rcases h with ⟨hkind, -⟩ | hleft | hleft | hleft
  · exact ⟨_, _, rfl, Token.Kind.startsFactor_of_isLiteral hkind⟩
  all_goals exact ⟨_, _, rfl, by rw [hleft]; rfl⟩

theorem Factor.opensFactor (h : Factor depth join tokens node) : OpensFactor tokens := by
  obtain ⟨hdollars, hprimary⟩ := h
  rename_i dollars _ _
  cases dollars with
  | nil => exact hprimary.opensFactor
  | cons dollar dollars => exact ⟨dollar, _, rfl, by rw [(OfKind.cons_iff.1 hdollars).1]; rfl⟩

/-- A term begins with its first factor. -/
theorem Term.exists_first {depth : Nat} {key : Bool} {tokens : List Token}
    {factors : List Node} :
    Term depth key tokens factors → ∃ own back factor rest,
      Factor depth .start own factor ∧ tokens = own ++ back ∧ factors = factor :: rest
  | .first hfactor => ⟨_, [], _, [], hfactor, (List.append_nil _).symm, rfl⟩
  | .adjacent hfront _ _ => by
    obtain ⟨own, back, factor, rest, hfactor, rfl, rfl⟩ := hfront.exists_first
    exact ⟨own, _, factor, _, hfactor, List.append_assoc .., List.cons_append⟩
  | .caret hfront _ _ _ _ => by
    obtain ⟨own, back, factor, rest, hfactor, rfl, rfl⟩ := hfront.exists_first
    exact ⟨own, _, factor, _, hfactor, List.append_assoc .., List.cons_append⟩

theorem Term.opensFactor (h : Term depth key tokens nodes) : OpensFactor tokens := by
  obtain ⟨own, back, factor, rest, hfactor, rfl, -⟩ := h.exists_first
  exact hfactor.opensFactor.append back

theorem Terms.opensFactor {depth : Nat} {tokens : List Token} {terms : List Node} :
    Terms depth tokens terms → OpensFactor tokens
  | .first hterm => hterm.opensFactor
  | .next hfront _ _ _ => hfront.opensFactor.append _

theorem Element.opensFactor (h : Element depth tokens entry) : OpensFactor tokens := by
  rcases h with hkey | hkey
  · exact hkey.opensFactor
  · exact hkey.opensFactor.append _

theorem Elements.opensFactor {depth : Nat} {tokens : List Token} {entries : List Entry} :
    Elements depth tokens entries → OpensFactor tokens
  | .first helement => helement.opensFactor
  | .next hfront _ _ _ _ => hfront.opensFactor.append _

/-! ### Entries of a table -/

/-- Every entry of a table is derived on its own. -/
theorem Elements.exists_element {depth : Nat} {tokens : List Token} {entries : List Entry} :
    Elements depth tokens entries → ∀ entry ∈ entries, ∃ own, Element depth own entry
  | .first helement => List.forall_mem_singleton.2 ⟨_, helement⟩
  | .next hfront _ _ helement _ => List.forall_mem_append.2
    ⟨hfront.exists_element, List.forall_mem_singleton.2 ⟨_, helement⟩⟩

/-! ### Repetitions are not empty -/

theorem Term.ne_nil (h : Term depth key tokens nodes) : nodes ≠ [] := by
  rcases h with _ | _ | _ <;> simp

theorem Terms.ne_nil (h : Terms depth tokens nodes) : nodes ≠ [] := by
  rcases h with _ | _ <;> simp

theorem Elements.ne_nil (h : Elements depth tokens entries) : entries ≠ [] := by
  rcases h with _ | _ <;> simp

theorem Commands.ne_nil (h : Commands depth tokens nodes) : nodes ≠ [] := by
  rcases h with _ | _ <;> simp

end Grammar

end PipelineSyntax
