import PipelineSyntax.Proofs.Unfinished

/-!
# Whatever is read, the grammar derives

A state stands for a derivation that is cut short. `State.Holds` says for which one, given the
tokens that have been read, and every step keeps it (`State.step_sound`): there is one lemma
for each function that a step consists of, and a step that completes the line completes the
derivation.

The position of the line is left out of account here. It does not move while the line is read
(`State.closed_of_step_done`), and is put in at the end.
-/

namespace PipelineSyntax

namespace Parser

open Grammar

/-- The derivation that a state stands for once the given tokens have been read. Where blanks
are skipped, it is said of whatever blanks follow. -/
def State.Holds (limit : Nat) (tokens : List Token) : State → Prop
  | ⟨line, stack, .line, _⟩ => stack = [] ∧ line = { pos := line.pos } ∧ Blanks tokens
  | ⟨line, stack, .term, _⟩ => ∀ more next, Blanks more →
    Ready limit line stack (tokens ++ more) next
  | ⟨line, stack, .primary place, _⟩ => ∀ next, Stands limit line stack place tokens next
  | ⟨line, stack, .joined term, _⟩ => ∀ more next, Blanks more →
    Joins limit line stack term .caret (tokens ++ more) next
  | ⟨line, stack, .table place, _⟩ => Opened limit line .leftBracket stack place [] tokens
  | ⟨line, stack, .element place table, _⟩ => ∃ blanks, blanks ≠ [] ∧
    table = { pos := origin blanks } ∧ Opened limit line .leftBracket stack place blanks tokens
  | ⟨line, stack, .more term blank, _⟩ => ∃ front blanks, tokens = front ++ blanks ∧
    Within limit line stack term front ∧ Blanks blanks ∧ blank = !blanks.isEmpty
  | ⟨line, stack, .tail, _⟩ => stack = [] ∧ Behind limit line tokens

/-- What reading a token may come to, once the given tokens have been read. -/
def Sound (limit : Nat) (tokens : List Token) : Except Abort Progress → Prop
  | .error _ => True
  | .ok (.more state) => state.Holds limit tokens
  | .ok (.done parsed) => Line limit tokens { parsed.root with pos := origin tokens }

variable {limit : Nat} {line : OpenLine} {stack : List Bracket} {expect : Expect}
  {hint : Option Hint} {place : Place} {term : OpenTerm} {token : Token}
  {tokens : List Token}

/-- A factor that has just been completed. -/
theorem Within.holds (h : Within limit line stack term tokens) (hint : Option Hint) :
    State.Holds limit tokens ⟨line, stack, .more term false, hint⟩ :=
  ⟨tokens, [], (List.append_nil _).symm, h, .nil, rfl⟩

namespace State

/-! ### Beginning a factor -/

theorem readPrimary_sound (h : Stands limit line stack place tokens token) :
    Sound limit (tokens ++ [token])
      ((readPrimary limit ⟨line, stack, expect, hint⟩ place token).map .more) := by
  have hliteral (hkind : token.kind.isLiteral = true) {text : String}
      (htext : token.decode = .ok text) : Within limit line stack
        (place.fill (.string token.offset token.text text)) (tokens ++ [token]) :=
    h.fill (.literal hkind htext)
  have hopened (hroom : stack.length < limit) {more : List Token} (hmore : Blanks more) :
      Opened limit line token.kind stack place more (tokens ++ [token] ++ more) := by
    rw [List.append_assoc]
    exact .mk h hroom hmore
  rw [readPrimary]
  split
  case h_1 hkind => exact h.addDollar hkind
  case h_2 hkind | h_3 hkind | h_4 hkind =>
    cases htext : token.decode with
    | error fault => trivial
    | ok text => exact (hliteral (by rw [hkind]; rfl) htext).holds (hintOf token text)
  case h_5 hkind =>
    rw [enter]
    split
    · rename_i hroom
      exact fun more next hmore ↦ .groupFirst (hkind ▸ hopened hroom hmore)
    · trivial
  case h_6 hkind =>
    rw [enter]
    split
    · rename_i hroom
      have htable := hopened hroom .nil
      rw [hkind, List.append_nil] at htable
      exact htable
    · trivial
  case h_7 => trivial

theorem readTerm_sound (h : Ready limit line stack tokens token) :
    Sound limit (tokens ++ [token])
      ((readTerm limit ⟨line, stack, expect, hint⟩ token).map .more) :=
  readPrimary_sound (Joins.start h).stands

/-! ### Between terms -/

/-- An element of a table, or its end, given what each of them would come to. -/
theorem readElement_sound {table : OpenTable}
    (hfactor : token.kind.startsFactor = true →
      Ready limit line (⟨place, .table table none⟩ :: stack) tokens token)
    (hspace : token.kind = .space →
      Holds limit (tokens ++ [token]) ⟨line, stack, .element place table, hint⟩)
    (hclose : token.kind = .rightBracket →
      Within limit line stack (place.fill table.close) (tokens ++ [token])) :
    Sound limit (tokens ++ [token])
      ((readElement limit ⟨line, stack, expect, hint⟩ place table token).map .more) := by
  rw [readElement]
  split
  · rename_i hstarts
    exact readTerm_sound (hfactor hstarts)
  · split
    case h_1 hkind => exact hspace hkind
    case h_2 hkind => exact (hclose hkind).holds hint
    case h_3 => trivial

theorem readTail_sound (h : Behind limit line tokens) :
    Sound limit (tokens ++ [token]) (readTail ⟨line, [], expect, hint⟩ token) := by
  rw [readTail]
  split
  case h_1 hkind =>
    cases hread : Leader.read token.text with
    | error cause =>
      rw [Leader.ofToken, hread]
      trivial
    | ok leader =>
      rw [Leader.ofToken, hread]
      rcases leader with ⟨fd, mode⟩ | ⟨fd, old⟩ | fd
      · intro more next hmore
        rw [List.append_assoc]
        exact .line (.target h hkind hread hmore)
      · exact ⟨rfl, h.redirect (.duplicate hkind hread)⟩
      · exact ⟨rfl, h.redirect (.close hkind hread)⟩
  case h_2 hkind =>
    intro more next hmore
    have hbefore := CommandsBefore.pipe h.commands hkind
    rw [List.reverse_reverse] at hbefore
    exact .line (.first line.pos hbefore hmore)
  case h_3 hkind | h_4 hkind =>
    exact .commands h.commands (by rw [hkind]; rfl)
  case h_5 => trivial

/-- A term outside of brackets has ended. A factor that follows it does so behind a blank. -/
theorem endLineTerm_sound {front blanks : List Token} (h : Within limit line [] term front)
    (hblanks : Blanks blanks) (hne : token.kind.startsFactor = true → blanks ≠ []) :
    Sound limit (front ++ blanks ++ [token])
      (endLineTerm limit ⟨line, [], expect, hint⟩ term token) := by
  rw [endLineTerm]
  split
  · rename_i htarget
    exact readTail_sound ((h.target htarget).blanks hblanks)
  · rename_i htarget
    obtain ⟨hbehind, hready⟩ := h.argument htarget
    dsimp only
    split
    · rename_i hstarts
      exact readTerm_sound (.line (hready blanks hblanks (hne hstarts)))
    · exact readTail_sound (hbehind.blanks hblanks)

/-- A term in a table has ended, and with it the entry that it completes. -/
theorem endEntry_sound {table : OpenTable} {key : Option Node} {front blanks : List Token}
    (h : Within limit line (⟨place, .table table key⟩ :: stack) term front)
    (hblanks : Blanks blanks) (hne : token.kind.startsFactor = true → blanks ≠ [])
    (hspace : token.kind ≠ .space) (hequals : key = none → token.isEquals = false) :
    Sound limit (front ++ blanks ++ [token])
      ((readElement limit ⟨line, stack, expect, hint⟩ place
        (table.add (Entry.ofTerm key term.close)) token).map .more) := by
  obtain ⟨before, front, inner, entries, rfl, hopened, helements, rfl⟩ := h.entries
  have hadd (table : OpenTable) (entry : Entry) :
      (entries.foldl OpenTable.add table).add entry =
        (entries ++ [entry]).foldl OpenTable.add table := by simp
  refine readElement_sound (fun hstarts ↦ ?_) (fun hkind ↦ absurd hkind hspace) fun hkind ↦ ?_
  · have hlast : ((Entry.ofTerm key term.close).isAlone && token.isEquals) = false := by
      rcases key with _ | key
      · exact hequals rfl
      · rfl
    rw [hadd, List.append_assoc]
    exact .tableNext hopened helements hblanks (hne hstarts) hlast
  · rw [hadd, OpenTable.close_foldl_add, List.append_assoc, List.append_assoc]
    refine hopened.close fun left hleft hbefore ↦ ?_
    have htable := Primary.table hleft hbefore helements hblanks hkind
    simpa using htable

/-- A term in a group has ended: it is one of its terms, and may be the last of them. -/
theorem endGroupTerm_sound {terms : List Node} {front blanks : List Token}
    (h : Within limit line (⟨place, .group terms⟩ :: stack) term front) (hblanks : Blanks blanks)
    (hne : token.kind.startsFactor = true → blanks ≠ []) :
    Sound limit (front ++ blanks ++ [token])
      (endTerm limit ⟨line, ⟨place, .group terms⟩ :: stack, expect, hint⟩ term token) := by
  obtain ⟨before, front, inner, rfl, hopened, hterms⟩ := h.terms
  show Sound limit _ (if token.kind.startsFactor then _ else _)
  split
  · rename_i hstarts
    have hready : Ready limit line _ _ token := .groupNext hopened hterms hblanks (hne hstarts)
    rw [List.reverse_reverse, ← List.append_assoc] at hready
    exact readTerm_sound hready
  · split
    · rename_i hkind
      have hlist := hterms.termList_reverse
      rw [List.reverse_reverse] at hlist
      rw [hlist, List.append_assoc, List.append_assoc]
      refine Within.holds (hopened.close fun left hleft hbefore ↦ ?_) hint
      have hgroup := Primary.group hleft hbefore hterms hblanks hkind
      simpa using hgroup
    · trivial

/-- A term at the key of an entry has ended: a bare `=` makes the key of a pair of it. -/
theorem endKey_sound {table : OpenTable} {front blanks : List Token}
    (h : Within limit line (⟨place, .table table none⟩ :: stack) term front)
    (hblanks : Blanks blanks) (hspace : token.kind ≠ .space)
    (hne : token.kind.startsFactor = true → token.isEquals = false → blanks ≠ []) :
    Sound limit (front ++ blanks ++ [token])
      (endTerm limit ⟨line, ⟨place, .table table none⟩ :: stack, expect, hint⟩ term token) := by
  show Sound limit _ (if token.isEquals then _ else _)
  split
  · rename_i hequals
    intro more next hmore
    have hready : Ready limit line _ _ next := .value h hblanks hequals hmore
    simpa using hready
  · rename_i hequals
    have hfalse := Bool.eq_false_iff.2 hequals
    exact endEntry_sound h hblanks (fun hstarts ↦ hne hstarts hfalse) hspace fun _ ↦ hfalse

theorem endTerm_sound {front blanks : List Token} (h : Within limit line stack term front)
    (hblanks : Blanks blanks) (hspace : token.kind ≠ .space)
    (hne : token.kind.startsFactor = true →
      (keyPosition stack && token.isEquals) = false → blanks ≠ []) :
    Sound limit (front ++ blanks ++ [token])
      (endTerm limit ⟨line, stack, expect, hint⟩ term token) := by
  -- a term stands outside of brackets, in a group, at the key of an entry, or at its value
  rcases stack with _ | ⟨⟨place, terms | ⟨table, _ | key⟩⟩, stack⟩
  · exact endLineTerm_sound h hblanks fun hstarts ↦ hne hstarts rfl
  · exact endGroupTerm_sound h hblanks fun hstarts ↦ hne hstarts rfl
  · exact endKey_sound h hblanks hspace hne
  · exact endEntry_sound h hblanks (fun hstarts ↦ hne hstarts rfl) hspace nofun

theorem readMore_sound {front blanks : List Token} (h : Within limit line stack term front)
    (hblanks : Blanks blanks) :
    Sound limit (front ++ blanks ++ [token])
      (readMore limit ⟨line, stack, expect, hint⟩ term (!blanks.isEmpty) token) := by
  rw [readMore]
  split
  · rename_i hkind
    exact ⟨front, blanks ++ [token], List.append_assoc .., h, hblanks.append (.single hkind),
      by simp⟩
  · rename_i hspace
    split
    · rename_i hkind
      intro more next hmore
      have hjoins : Joins limit line _ _ _ _ next := .caret h hblanks hkind hmore
      simpa using hjoins
    · split
      · rename_i hadjacent
        simp only [Bool.and_eq_true, Bool.not_not, List.isEmpty_iff, Bool.not_eq_true'] at hadjacent
        obtain ⟨⟨-, hnil⟩, hkey⟩ := hadjacent
        rw [hnil, List.append_nil]
        exact readPrimary_sound (Joins.adjacent h hkey).stands
      · rename_i hadjacent
        refine endTerm_sound h hblanks hspace fun hstarts hkey hnil ↦ hadjacent ?_
        have hatKey : (atKey ⟨line, stack, expect, hint⟩ && token.isEquals) = false := hkey
        rw [hstarts, hnil, hatKey]
        rfl

/-! ### The step -/

/-- Every step keeps what the state stands for. -/
theorem step_sound {state : State} (h : state.Holds limit tokens) (token : Token) :
    Sound limit (tokens ++ [token]) (state.step limit token) := by
  rcases state with ⟨line, stack, expect, hint⟩
  rcases expect with _ | _ | place | term | place | ⟨place, table⟩ | ⟨term, blank⟩ | _
  case line =>
    obtain ⟨rfl, hline, hblanks⟩ := h
    show Sound limit _ (if token.kind = .space then _ else _)
    split
    · rename_i hkind
      exact ⟨rfl, hline, hblanks.append (.single hkind)⟩
    · split
      · rename_i hkind
        rw [hline]
        exact .empty hblanks hkind
      · rw [hline]
        exact readTerm_sound (.line (.first line.pos .nil hblanks))
  case term =>
    show Sound limit _ (if token.kind = .space then _ else _)
    split
    · rename_i hkind
      intro more next hmore
      rw [List.append_assoc]
      exact h _ next (OfKind.cons_iff.2 ⟨hkind, hmore⟩)
    · have hready := h [] token .nil
      rw [List.append_nil] at hready
      exact readTerm_sound hready
  case primary => exact readPrimary_sound (h token)
  case joined =>
    show Sound limit _ (if token.kind = .space then _ else _)
    split
    · rename_i hkind
      intro more next hmore
      rw [List.append_assoc]
      exact h _ next (OfKind.cons_iff.2 ⟨hkind, hmore⟩)
    · have hjoins := h [] token .nil
      rw [List.append_nil] at hjoins
      exact readPrimary_sound hjoins.stands
  case table =>
    refine readElement_sound (fun _ ↦ .tableFirst h) (fun hkind ↦ ?_) fun hkind ↦ ?_
    · exact ⟨[token], List.cons_ne_nil _ _, rfl, h.blanks (.single hkind)⟩
    · exact h.close fun left hleft hblanks ↦ .emptyTable hleft hblanks hkind
  case element =>
    obtain ⟨blanks, hne, rfl, hopened⟩ := h
    rw [← origin_append hne [token]]
    refine readElement_sound (fun _ ↦ .tableFirst hopened) (fun hkind ↦ ?_) fun hkind ↦ ?_
    · exact ⟨blanks ++ [token], by simp, rfl, hopened.blanks (.single hkind)⟩
    · exact hopened.close fun left hleft hblanks ↦ .emptyTable hleft hblanks hkind
  case more =>
    obtain ⟨front, blanks, rfl, hwithin, hblanks, rfl⟩ := h
    exact readMore_sound hwithin hblanks
  case tail =>
    obtain ⟨rfl, hbehind⟩ := h
    show Sound limit _ (if token.kind = .space then _ else _)
    split
    · rename_i hkind
      exact ⟨rfl, hbehind.blanks (.single hkind)⟩
    · exact readTail_sound hbehind

end State

/-! ### Reading a line -/

/-- In front of a line, nothing has been read. -/
theorem holds_start (limit pos : Nat) : State.Holds limit [] (.start pos) :=
  ⟨rfl, rfl, .nil⟩

theorem Steps.holds {state last : State} {row : List Token} (h : Steps limit state row last)
    (hstate : state.Holds limit tokens) : last.Holds limit (tokens ++ row) := by
  induction h generalizing tokens with
  | nil => rwa [List.append_nil]
  | @cons _ _ _ token _ step _ ih =>
    have hsound := State.step_sound hstate token
    rw [step] at hsound
    have hlast := ih hsound
    rwa [List.append_assoc] at hlast

/-- **Whatever is read, the grammar derives.** -/
theorem Reads.derives {parsed : Parsed}
    (h : Reads limit (.start (origin tokens)) tokens (.ok parsed)) :
    Line limit tokens parsed.root := by
  obtain ⟨front, token, last, htokens, hsteps, hdone⟩ := h.split_ok
  have hsound := State.step_sound (hsteps.holds (holds_start limit _)) token
  rw [hdone, List.nil_append, ← htokens] at hsound
  have hpos : parsed.root.pos = origin tokens := by
    rw [(State.closed_of_step_done hdone).2, hsteps.line_pos]
    rfl
  have hline : Line limit tokens { parsed.root with pos := origin tokens } := hsound
  rw [← hpos] at hline
  exact hline

end Parser

end PipelineSyntax
