import PipelineSyntax.Parser.Parsed
import PipelineSyntax.Proofs.JsonTexts
import PipelineSyntax.Proofs.Positions
import PipelineSyntax.Token.Json

/-!
# The JSON of a tree tells the tree

A tree can be read off its JSON value, and that value off its text. Every form of a node and of a
redirection has a tag of its own, and the fields under it are those of the form, each written by a
writer that tells apart what it is given. So the proof goes along the tree (`TellsApart`): nodes
are told apart if their children are.

Nothing is asked of the trees. They need not be such as a line is read as, and a position may be
any number.
-/

namespace PipelineSyntax

/-- What is made of `a` is made of nothing else. -/
def TellsApart {α β : Type} (write : α → β) (a : α) : Prop :=
  ∀ b, write a = write b → a = b

theorem tellsApart_map {α β : Type} {write : α → β} {row : List α}
    (h : ∀ a ∈ row, TellsApart write a) : TellsApart (List.map write) row := by
  induction row with
  | nil => exact fun row' heq ↦ (List.map_eq_nil_iff.1 heq.symm).symm
  | cons a row ih =>
    obtain ⟨ha, hrow⟩ := List.forall_mem_cons.1 h
    rintro (_ | ⟨b, row'⟩) heq
    · cases heq
    · obtain ⟨hb, hrest⟩ := List.cons.inj heq
      rw [ha b hb, ih hrow row' hrest]

/-! ### Names -/

theorem SequenceKind.name_injective : Function.Injective name := by
  rintro (_ | _ | _) (_ | _ | _) h <;> first | rfl | exact absurd h (by decide)

theorem Join.name_injective : Function.Injective name := by
  rintro (_ | _ | _) (_ | _ | _) h <;> first | rfl | exact absurd h (by decide)

theorem OpenMode.name_injective : Function.Injective name := by
  rintro (_ | _ | _ | _) (_ | _ | _ | _) h <;> first | rfl | exact absurd h (by decide)

theorem Token.Kind.name_injective : Function.Injective name := by
  intro kind kind' h
  rw [← Option.some.injEq, ← ofName?_name kind, h, ofName?_name]

/-! ### Writing goes node by node -/

theorem nodesToJson_eq_map (nodes : List Node) : nodesToJson nodes = nodes.map Node.toJson := by
  induction nodes with
  | nil => rfl
  | cons node nodes ih => rw [nodesToJson, ih, List.map_cons]

/-- A pair as a JSON value. -/
def pairToJson (pair : Node × Node) : Json :=
  .array [pair.1.toJson, pair.2.toJson]

theorem pairsToJson_eq_map (pairs : List (Node × Node)) :
    pairsToJson pairs = pairs.map pairToJson := by
  induction pairs with
  | nil => rfl
  | cons pair pairs ih => rw [pairsToJson, ih, List.map_cons, pairToJson]

theorem redirectionsToJson_eq_map (redirections : List (Redirection Node)) :
    redirectionsToJson redirections = redirections.map Redirection.toJson := by
  induction redirections with
  | nil => rfl
  | cons redirection redirections ih => rw [redirectionsToJson, ih, List.map_cons]

/-! ### Trees -/

theorem Sequence.tellsApart {items : Sequence Node}
    (h : ∀ node ∈ items.nodes, TellsApart Node.toJson node) : TellsApart toJson items := by
  rintro ⟨pos', kind', nodes'⟩ heq
  obtain ⟨pos, kind, nodes⟩ := items
  simp only [toJson, nodesToJson_eq_map, Json.object.injEq, List.cons.injEq, Prod.mk.injEq,
    Json.number.injEq, Json.string.injEq, Json.array.injEq, true_and, and_true] at heq
  obtain ⟨rfl, hkind, hnodes⟩ := heq
  obtain rfl := SequenceKind.name_injective hkind
  obtain rfl : nodes = nodes' := tellsApart_map h nodes' hnodes
  rfl

theorem tellsApart_pair {pair : Node × Node} (hkey : TellsApart Node.toJson pair.1)
    (hvalue : TellsApart Node.toJson pair.2) : TellsApart pairToJson pair := by
  rintro ⟨key', value'⟩ heq
  simp only [pairToJson, Json.array.injEq, List.cons.injEq, and_true] at heq
  exact Prod.ext (hkey key' heq.1) (hvalue value' heq.2)

theorem Redirection.tellsApart {redirection : Redirection Node}
    (h : ∀ node ∈ redirection.targetNodes, TellsApart Node.toJson node) :
    TellsApart toJson redirection := by
  intro other heq
  cases redirection <;> cases other <;>
    simp only [toJson, Json.tagged, Json.object.injEq, List.cons.injEq, Prod.mk.injEq,
      Json.number.injEq, Json.string.injEq, true_and, and_true, UInt32.toNat_inj] at heq
  case file.file fd mode target fd' mode' target' =>
    obtain ⟨rfl, hmode, htarget⟩ := heq
    obtain rfl := OpenMode.name_injective hmode
    obtain rfl : target = target' := Sequence.tellsApart h target' htarget
    rfl
  case duplicate.duplicate fd old fd' old' =>
    obtain ⟨rfl, rfl⟩ := heq
    rfl
  case close.close fd fd' =>
    rw [heq]
  -- the tags differ
  all_goals exact absurd heq.1 (by decide)

/-- The JSON value of a tree tells the tree. -/
theorem Node.tellsApart (node : Node) : TellsApart toJson node := by
  induction node using Node.childrenInduction with
  | step node ih =>
    intro other heq
    cases node <;> cases other <;>
      simp only [toJson, Json.tagged, Json.object.injEq, List.cons.injEq, Prod.mk.injEq,
        Json.number.injEq, Json.string.injEq, Json.array.injEq, true_and, and_true,
        redirectionsToJson_eq_map, nodesToJson_eq_map, pairsToJson_eq_map] at heq
    case list.list items items' =>
      rw [Sequence.tellsApart ih items' heq]
    case command.command pos args redirections pos' args' redirections' =>
      obtain ⟨rfl, hargs, hredirections⟩ := heq
      obtain ⟨hnodes, htargets⟩ := List.forall_mem_append.1 ih
      have hrow : ∀ redirection ∈ redirections, TellsApart Redirection.toJson redirection :=
        fun redirection hmem ↦ Redirection.tellsApart fun node hnode ↦
          htargets node (List.mem_flatMap.2 ⟨redirection, hmem, hnode⟩)
      rw [Sequence.tellsApart hnodes args' hargs, tellsApart_map hrow redirections' hredirections]
    case factor.factor pos dollars join node pos' dollars' join' node' =>
      obtain ⟨rfl, rfl, hjoin, hnode⟩ := heq
      rw [Join.name_injective hjoin, ih node (List.mem_singleton_self node) node' hnode]
    case string.string pos raw text pos' raw' text' =>
      obtain ⟨rfl, rfl, rfl⟩ := heq
      rfl
    case table.table pos elements pairs pos' elements' pairs' =>
      obtain ⟨rfl, helements, hpairs⟩ := heq
      obtain ⟨hnodes, hsides⟩ := List.forall_mem_append.1 ih
      have hrow : ∀ pair ∈ pairs, TellsApart pairToJson pair := by
        intro pair hmem
        have hpair : ∀ node ∈ [pair.1, pair.2], TellsApart toJson node :=
          fun node hnode ↦ hsides node (List.mem_flatMap.2 ⟨pair, hmem, hnode⟩)
        exact tellsApart_pair (hpair pair.1 (by simp)) (hpair pair.2 (by simp))
      rw [tellsApart_map hnodes elements' helements, tellsApart_map hrow pairs' hpairs]
    -- the tags differ
    all_goals exact absurd heq.1 (by decide)

/-! ### Lines and tokens -/

theorem Hint.toJson_injective : Function.Injective toJson := by
  rintro ⟨offset, raw, text⟩ ⟨offset', raw', text'⟩ h
  simp only [toJson, Json.object.injEq, List.cons.injEq, Prod.mk.injEq, Json.number.injEq,
    Json.string.injEq, true_and, and_true] at h
  obtain ⟨rfl, rfl, rfl⟩ := h
  rfl

theorem Parsed.toJson_injective : Function.Injective toJson := by
  rintro ⟨root, hint⟩ ⟨root', hint'⟩ h
  simp only [toJson, Json.object.injEq, List.cons.injEq, Prod.mk.injEq, true_and,
    and_true] at h
  obtain ⟨hroot, hhint⟩ := h
  rw [Sequence.tellsApart (fun node _ ↦ node.tellsApart) root' hroot]
  rcases hint with _ | hint <;> rcases hint' with _ | hint'
  · rfl
  -- a hint is an object, and none is null
  · cases hhint
  · cases hhint
  · rw [Hint.toJson_injective hhint]

theorem Token.toJson_injective : Function.Injective toJson := by
  rintro ⟨kind, text, offset, mayContinue⟩ ⟨kind', text', offset', mayContinue'⟩ h
  simp only [toJson, Json.object.injEq, List.cons.injEq, Prod.mk.injEq, Json.number.injEq,
    Json.string.injEq, Json.bool.injEq, true_and, and_true] at h
  obtain ⟨hkind, rfl, rfl, rfl⟩ := h
  rw [Kind.name_injective hkind]

/-- **The JSON text of a tree loses nothing.** Whatever nodes stand wherever in it, a tree is told
by its text, and so are a line that has been read and a token. -/
theorem json_loses_nothing :
    Function.Injective (fun node : Node ↦ node.toJson.text) ∧
      Function.Injective (fun parsed : Parsed ↦ parsed.toJson.text) ∧
      Function.Injective (fun token : Token ↦ token.toJson.text) :=
  ⟨Json.text_injective.comp fun node other ↦ node.tellsApart other,
    Json.text_injective.comp Parsed.toJson_injective,
    Json.text_injective.comp Token.toJson_injective⟩

end PipelineSyntax
