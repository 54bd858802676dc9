import PipelineSyntax.Json.Basic
import PipelineSyntax.Tree.Basic

/-!
# Trees as JSON

Every node, and every redirection, is an object with a single field: its tag, and under it
the fields of its form in a fixed order. Sequences that can only stand in one place, the
arguments of a command and the target of a redirection, carry no tag. Pairs are arrays of
two.
-/

namespace PipelineSyntax

mutual

/-- A node as JSON. -/
def Node.toJson : Node → Json
  | .list items => .tagged "List" items.toJson
  | .command pos args redirections =>
    .tagged "Command" (.object [("pos", .number pos), ("args", args.toJson),
      ("redirs", .array (redirectionsToJson redirections))])
  | .factor pos dollars join node =>
    .tagged "Factor" (.object [("pos", .number pos), ("dollar", .number dollars),
      ("join", .string join.name), ("node", node.toJson)])
  | .string pos raw text =>
    .tagged "String" (.object [("pos", .number pos), ("raw", .string raw),
      ("text", .string text)])
  | .table pos elements pairs =>
    .tagged "Table" (.object [("pos", .number pos), ("list", .array (nodesToJson elements)),
      ("dict", .array (pairsToJson pairs))])
termination_by structural node => node

/-- A sequence as JSON, without a tag. -/
def Sequence.toJson : Sequence Node → Json
  | ⟨pos, kind, nodes⟩ =>
    .object [("pos", .number pos), ("kind", .string kind.name),
      ("nodes", .array (nodesToJson nodes))]

/-- Nodes as JSON values. -/
def nodesToJson : List Node → List Json
  | [] => []
  | node :: nodes => node.toJson :: nodesToJson nodes

/-- Pairs of a table as JSON values. -/
def pairsToJson : List (Node × Node) → List Json
  | [] => []
  | (key, value) :: pairs => .array [key.toJson, value.toJson] :: pairsToJson pairs

/-- A redirection as JSON. -/
def Redirection.toJson : Redirection Node → Json
  | .file fd mode target =>
    .tagged "Filename" (.object [("fd", .number fd.toNat), ("mode", .string mode.name),
      ("target", target.toJson)])
  | .duplicate fd old =>
    .tagged "Fd" (.object [("fd", .number fd.toNat), ("old_fd", .number old.toNat)])
  | .close fd => .tagged "Close" (.object [("fd", .number fd.toNat)])

/-- Redirections as JSON values. -/
def redirectionsToJson : List (Redirection Node) → List Json
  | [] => []
  | redirection :: redirections => redirection.toJson :: redirectionsToJson redirections

end

end PipelineSyntax
