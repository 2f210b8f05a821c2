/-
The records that recall, blast and god-node queries return, as both ends of
the control connection know them.
-/

import Mneme.Library.Json

namespace Mneme.Common

structure RecallHit where
  kind : String
  name : String
  qualifiedName : String
  filePath : Option String
  lineStart : Option Int

structure BlastItem where
  qualifiedName : String
  depth : Nat

structure GodNode where
  qualifiedName : String
  kind : String
  name : String
  filePath : Option String
  degree : Int
  fanIn : Int
  fanOut : Int

def RecallHit.toJson (hit : RecallHit) : Json :=
  .object [("kind", .string hit.kind), ("name", .string hit.name),
    ("qualified_name", .string hit.qualifiedName), ("file_path", .option .string hit.filePath),
    ("line_start", .option .int hit.lineStart)]

def RecallHit.ofJson (value : Json) : Option RecallHit := do
  let fields ← value.struct? ["kind", "name", "qualified_name", "file_path", "line_start"]
  let kind ← Json.required fields "kind" Json.string?
  let name ← Json.required fields "name" Json.string?
  let qualifiedName ← Json.required fields "qualified_name" Json.string?
  let filePath ← Json.optional fields "file_path" Json.string?
  let lineStart ← Json.optional fields "line_start" Json.int?
  return { kind, name, qualifiedName, filePath, lineStart }

def BlastItem.toJson (item : BlastItem) : Json :=
  .object [("qualified_name", .string item.qualifiedName), ("depth", .nat item.depth)]

def BlastItem.ofJson (value : Json) : Option BlastItem := do
  let fields ← value.struct? ["qualified_name", "depth"]
  let qualifiedName ← Json.required fields "qualified_name" Json.string?
  let depth ← Json.required fields "depth" Json.nat?
  return { qualifiedName, depth }

def GodNode.toJson (node : GodNode) : Json :=
  .object [("qualified_name", .string node.qualifiedName), ("kind", .string node.kind),
    ("name", .string node.name), ("file_path", .option .string node.filePath),
    ("degree", .int node.degree), ("fan_in", .int node.fanIn), ("fan_out", .int node.fanOut)]

def GodNode.ofJson (value : Json) : Option GodNode := do
  let fields ← value.struct?
    ["qualified_name", "kind", "name", "file_path", "degree", "fan_in", "fan_out"]
  let qualifiedName ← Json.required fields "qualified_name" Json.string?
  let kind ← Json.required fields "kind" Json.string?
  let name ← Json.required fields "name" Json.string?
  let filePath ← Json.optional fields "file_path" Json.string?
  let degree ← Json.required fields "degree" Json.int?
  let fanIn ← Json.required fields "fan_in" Json.int?
  let fanOut ← Json.required fields "fan_out" Json.int?
  return { qualifiedName, kind, name, filePath, degree, fanIn, fanOut }

theorem RecallHit.ofJson_toJson (hit : RecallHit) : RecallHit.ofJson hit.toJson = some hit := by
  obtain ⟨kind, name, qualifiedName, filePath, lineStart⟩ := hit
  cases filePath with
  | none => cases lineStart <;> rfl
  | some path => cases lineStart <;> rfl

theorem BlastItem.ofJson_toJson (item : BlastItem) : BlastItem.ofJson item.toJson = some item :=
  rfl

theorem GodNode.ofJson_toJson (node : GodNode) : GodNode.ofJson node.toJson = some node := by
  obtain ⟨qualifiedName, kind, name, filePath, degree, fanIn, fanOut⟩ := node
  cases filePath <;> rfl

end Mneme.Common
