/-
The in-process build: one file of the walk, from its content to its rows.
-/

import Mneme.Store.Graph

namespace Mneme.Cli

open Common Parsers Store

/-- A zero byte among the first 512. -/
def looksBinary (bytes : ByteArray) : Bool :=
  (bytes.data.toList.take 512).any (fun byte => byte == 0)

/-- What became of a file of the walk. -/
inductive Visit where
  | skipped
  | indexed (nodes edges : Nat)

/-- The body of the walk for one file; its content is absent when it cannot be
read. -/
def indexFile (treeSitter : TreeSitter) (path : Path) (content : Option ByteArray)
    (shard : GraphShard) : Visit × GraphShard :=
  match Language.fromFilename path with
  | none => (.skipped, shard)
  | some language =>
      if language.isEnabled then
        match content with
        | none => (.skipped, shard)
        | some bytes =>
            if looksBinary bytes then (.skipped, shard)
            else
              match treeSitter.parse language bytes with
              | none => (.skipped, shard)
              | some tree =>
                  let source : Extraction := { treeSitter, language, tree, bytes, filePath := path }
                  match source.extract with
                  | .error _ => (.skipped, shard)
                  | .ok graph =>
                      (.indexed graph.nodes.length graph.edges.length,
                        persist "parsers" graph shard)
      else (.skipped, shard)

end Mneme.Cli
