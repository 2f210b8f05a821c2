/-
Recall: the index first, where there is one, and the rows a `LIKE` query selects,
the shortest qualified names first.  The supervisor answers, or the command line
itself where there is no supervisor.
-/

import Mneme.Store.FtsSearch
import Mneme.Store.Recall
import Mneme.Supervisor.Blast

namespace Mneme.Store.GraphShard

open Common Library Parsers

/-- `WHERE name LIKE ?1 ESCAPE '\' OR qualified_name LIKE ?1 ESCAPE '\'` -/
def likeRows (hash : StableHash) (query : String) (shard : GraphShard) : List NodeRow :=
  shard.nodes.rows.filter (fun row =>
    takesLike query row.name || takesLike query (row.qualifiedName.column hash))

/-- `LIMIT ?2` with the limit cast to an `i64`: a negative one limits nothing. -/
def limited {Row : Type} (limit : UInt64) (rows : List Row) : List Row :=
  if limit.toNat < 2 ^ 63 then rows.take limit.toNat else rows

def recallHit (hash : StableHash) (row : NodeRow) : RecallHit :=
  { kind := row.kind
    name := row.name
    qualifiedName := row.qualifiedName.column hash
    filePath := row.filePath
    lineStart := row.lineStart.map Int.ofNat }

/-- `ORDER BY LENGTH(qualified_name) ASC` -/
def shortestFirst (hash : StableHash) (ties : RowOrder NodeRow) (rows : List NodeRow) :
    List NodeRow :=
  (ties.arrange rows).insertionSort (fun left right =>
    (left.qualifiedName.column hash).length ≤ (right.qualifiedName.column hash).length)

theorem mem_likeRows (hash : StableHash) (query : String) (shard : GraphShard) (row : NodeRow) :
    row ∈ shard.likeRows hash query ↔ row ∈ shard.nodes.rows ∧
      (takesLike query row.name = true ∨
        takesLike query (row.qualifiedName.column hash) = true) := by
  unfold likeRows
  rw [List.mem_filter, Bool.or_eq_true]

end Mneme.Store.GraphShard

namespace Mneme.Supervisor

open Common Library Parsers Store

def recallLikeRows (hash : StableHash) (query : String) (shard : GraphShard) : List NodeRow :=
  shard.likeRows hash query

def recallLike (hash : StableHash) (ties : RowOrder NodeRow) (query : String) (limit : UInt64)
    (shard : GraphShard) : List RecallHit :=
  (GraphShard.limited limit
    (GraphShard.shortestFirst hash ties (recallLikeRows hash query shard))).map
      (GraphShard.recallHit hash)

def fts5Sanitize (tables : LetterTables) (query : String) : String :=
  Store.fts5Sanitize tables query

/-- The rows that the index finds come from `matchRows`. -/
def recallFts (tables : LetterTables) (matchRows : String → UInt64 → Except String (List RecallHit))
    (hash : StableHash) (ties : RowOrder NodeRow) (raw : String) (limit : UInt64)
    (shard : GraphShard) : Except String (List RecallHit) :=
  searchOrLike (fun sanitized => matchRows sanitized limit) (recallLike hash ties raw limit shard)
    (fts5Sanitize tables raw)

/-- `run_recall`, on a shard that has the index or not -/
def runRecall (tables : LetterTables) (matchRows : String → UInt64 → Except String (List RecallHit))
    (hash : StableHash) (ties : RowOrder NodeRow) (hasNodesFts : Bool) (query : String)
    (limit : UInt64) (shard : GraphShard) : Except String (List RecallHit) :=
  if hasNodesFts then recallFts tables matchRows hash ties query limit shard
  else .ok (recallLike hash ties query limit shard)

end Mneme.Supervisor

namespace Mneme.Cli

open Common Library Parsers Store

def recallLikeRows (hash : StableHash) (query : String) (shard : GraphShard) : List NodeRow :=
  shard.likeRows hash query

def recallLike (hash : StableHash) (ties : RowOrder NodeRow) (query : String) (limit : UInt64)
    (shard : GraphShard) : List RecallHit :=
  (GraphShard.limited limit
    (GraphShard.shortestFirst hash ties (recallLikeRows hash query shard))).map
      (GraphShard.recallHit hash)

def fts5Sanitize (tables : LetterTables) (query : String) : String :=
  Store.fts5Sanitize tables query

def recallFts {Error : Type} (tables : LetterTables)
    (matchRows : String → UInt64 → Except Error (List RecallHit)) (hash : StableHash)
    (ties : RowOrder NodeRow) (raw : String) (limit : UInt64) (shard : GraphShard) :
    Except Error (List RecallHit) :=
  searchOrLike (fun sanitized => matchRows sanitized limit) (recallLike hash ties raw limit shard)
    (fts5Sanitize tables raw)

end Mneme.Cli
