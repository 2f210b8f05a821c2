/-
Writes to the shards.

Each (project, layer) shard has one writer task with one connection.  A single
write is one command to that task; a batch is sorted by layer and each layer's
statements are one transaction of the writer task of that layer.
-/

import Mneme.Common.Storage
import Mneme.Library.Buckets
import Mneme.Library.Json

namespace Mneme.Store

open Common Library

/-- The SQL text and its bound parameters. -/
abbrev Statement := String × List Json

structure Write where
  project : ProjectId
  layer : DbLayer
  sql : String
  params : List Json

structure ShardKey where
  project : ProjectId
  layer : DbLayer
deriving DecidableEq, Repr

def Write.statement (write : Write) : Statement := (write.sql, write.params)

def Write.key (write : Write) : ShardKey := ⟨write.project, write.layer⟩

/-- What SQLite does with the contents of one database file.  A statement that
fails leaves the contents as they were; so does a transaction that cannot be
opened or committed. -/
structure Engine (Contents : Type) where
  openTransaction : Contents → Except DbError Unit
  execute : Contents → Statement → Except DbError (Contents × Nat)
  commit : Contents → Except DbError Unit

inductive Writer where
  | serving
  /-- It could not open the shard and its channel is closed. -/
  | gone
  /-- The same, but the command was sent before the channel was closed. -/
  | leaving
deriving DecidableEq

structure Database (Contents : Type) where
  engine : Engine Contents
  writer : ShardKey → Writer

variable {Contents : Type}

abbrev Shards (Contents : Type) := ShardKey → Contents

namespace Engine

def executeAll (engine : Engine Contents) : List Statement → Contents → Nat →
    Except DbError (Contents × Nat)
  | [], contents, total => .ok (contents, total)
  | statement :: rest, contents, total =>
      match engine.execute contents statement with
      | .error error => .error error
      | .ok (next, affected) => engine.executeAll rest next (total + affected)

/-- `WriteCmd::Batch`: on an error the transaction is dropped and rolled back. -/
def batch (engine : Engine Contents) (items : List Statement) (contents : Contents) :
    Except DbError (Contents × Nat) :=
  match engine.openTransaction contents with
  | .error error => .error error
  | .ok () =>
      match engine.executeAll items contents 0 with
      | .error error => .error error
      | .ok (next, total) =>
          match engine.commit next with
          | .error error => .error error
          | .ok () => .ok (next, total)

end Engine

namespace Database

/-- Send one command to the writer task of a shard and wait for its reply. -/
def send (database : Database Contents) (key : ShardKey)
    (run : Contents → Except DbError (Contents × Nat)) (shards : Shards Contents) :
    Except DbError (Shards Contents × Nat) :=
  match database.writer key with
  | .gone => .error (.sqlite "writer channel closed: channel closed")
  | .leaving => .error (.sqlite "writer dropped reply")
  | .serving =>
      match run (shards key) with
      | .error error => .error error
      | .ok (contents, affected) => .ok (Function.update shards key contents, affected)

def write (database : Database Contents) (write : Write) (shards : Shards Contents) :
    Except DbError (Shards Contents × Nat) :=
  database.send write.key
    (fun contents => database.engine.execute contents write.statement) shards

/-- The statements of each layer, in list order. -/
def byLayer (writes : List Write) : List (DbLayer × List Statement) :=
  Buckets.collect (writes.map (fun write => (write.layer, write.statement)))

/-- Every group goes to the same project; the first failing group ends the loop. -/
def sendGroups (database : Database Contents) (project : ProjectId) :
    List (DbLayer × List Statement) → Shards Contents → Nat →
      Shards Contents × Except DbError Nat
  | [], shards, total => (shards, .ok total)
  | (layer, items) :: rest, shards, total =>
      match database.send ⟨project, layer⟩ (database.engine.batch items) shards with
      | .error error => (shards, .error error)
      | .ok (after, affected) => sendGroups database project rest after (total + affected)

/-- The groups come out of a hash map, in an order that is not determined. -/
def writeBatch (database : Database Contents) (writes : List Write)
    (groups : List (DbLayer × List Statement)) (shards : Shards Contents) :
    Shards Contents × Except DbError Nat :=
  match writes with
  | [] => (shards, .ok 0)
  | first :: _ => database.sendGroups first.project groups shards 0

end Database

/-- The meaning of a list of writes: each is applied to its own project's shard
of its own layer, one after the other. -/
def applyEach (engine : Engine Contents) : List Write → Shards Contents →
    Except DbError (Shards Contents)
  | [], shards => .ok shards
  | write :: rest, shards =>
      match engine.execute (shards write.key) write.statement with
      | .error error => .error error
      | .ok (next, _) => applyEach engine rest (Function.update shards write.key next)

/-! ### One shard at a time -/

/-- The statements of a list of writes that are meant for one shard. -/
def statementsFor (key : ShardKey) (writes : List Write) : List Statement :=
  Buckets.under key (writes.map (fun write => (write.key, write.statement)))

theorem statementsFor_cons_same (write : Write) (rest : List Write) :
    statementsFor write.key (write :: rest) = write.statement :: statementsFor write.key rest :=
  Buckets.under_cons_same _ _ _

theorem statementsFor_cons_other {key : ShardKey} {write : Write} (different : write.key ≠ key)
    (rest : List Write) : statementsFor key (write :: rest) = statementsFor key rest :=
  Buckets.under_cons_other different _ _

namespace Engine

/-- The running total is only carried along. -/
theorem executeAll_total (engine : Engine Contents) (items : List Statement) (contents : Contents)
    (first second : Nat) {after : Contents} {total : Nat}
    (done : engine.executeAll items contents first = .ok (after, total)) :
    ∃ other, engine.executeAll items contents second = .ok (after, other) := by
  induction items generalizing contents first second with
  | nil =>
      cases done
      exact ⟨second, rfl⟩
  | cons statement rest ih =>
      unfold executeAll at done ⊢
      cases executed : engine.execute contents statement with
      | error error =>
          rw [executed] at done
          cases done
      | ok result =>
          rw [executed] at done
          exact ih _ _ _ done

theorem batch_ok {engine : Engine Contents} {items : List Statement} {contents after : Contents}
    {total : Nat} (done : engine.batch items contents = .ok (after, total)) :
    engine.executeAll items contents 0 = .ok (after, total) := by
  unfold batch at done
  split at done
  · cases done
  · split at done
    · cases done
    · next executed =>
        split at done
        · cases done
        · cases done
          exact executed

end Engine

/-- Writes that succeed shard by shard succeed one after the other, with the
same contents. -/
theorem applyEach_of_executeAll (engine : Engine Contents) (writes : List Write)
    (shards after : Shards Contents) (done : ∀ key, ∃ total,
      engine.executeAll (statementsFor key writes) (shards key) 0 = .ok (after key, total)) :
    applyEach engine writes shards = .ok after := by
  induction writes generalizing shards with
  | nil =>
      have same : shards = after := by
        funext key
        obtain ⟨total, finished⟩ := done key
        exact congrArg Prod.fst (Except.ok.inj finished)
      rw [applyEach, same]
  | cons write rest ih =>
      obtain ⟨total, ran⟩ := done write.key
      rw [statementsFor_cons_same, Engine.executeAll] at ran
      unfold applyEach
      cases executed : engine.execute (shards write.key) write.statement with
      | error error =>
          rw [executed] at ran
          cases ran
      | ok result =>
          rw [executed] at ran
          apply ih
          intro key
          by_cases same : key = write.key
          · subst same
            rw [Function.update_self]
            exact Engine.executeAll_total engine _ _ _ _ ran
          · rw [Function.update_of_ne same]
            obtain ⟨count, finished⟩ := done key
            rw [statementsFor_cons_other (Ne.symm same)] at finished
            exact ⟨count, finished⟩

/-- When all writes name one project, a layer's group is that shard's statements. -/
theorem under_layer_eq_statementsFor {project : ProjectId} {writes : List Write}
    (one : ∀ write, write ∈ writes → write.project = project) (layer : DbLayer) :
    Buckets.under layer (writes.map (fun write => (write.layer, write.statement))) =
      statementsFor ⟨project, layer⟩ writes := by
  induction writes with
  | nil => rfl
  | cons write rest ih =>
      have later := ih (fun other member => one other (List.mem_cons_of_mem _ member))
      have named := one write List.mem_cons_self
      have keyed : write.key = ⟨project, write.layer⟩ := by
        rw [Write.key, named]
      rw [List.map_cons]
      by_cases same : write.layer = layer
      · subst same
        rw [Buckets.under_cons_same, later, ← keyed, statementsFor_cons_same]
      · have apart : write.key ≠ ⟨project, layer⟩ := by
          rw [keyed]
          intro equal
          exact same (congrArg ShardKey.layer equal)
        rw [Buckets.under_cons_other same, later, statementsFor_cons_other apart]

namespace Database

/-! ### What a batch leaves behind -/

variable {shards after : Shards Contents}

theorem send_ok {database : Database Contents} {key : ShardKey}
    {run : Contents → Except DbError (Contents × Nat)}
    {affected : Nat} (done : database.send key run shards = .ok (after, affected)) :
    ∃ contents, run (shards key) = .ok (contents, affected) ∧
      after = Function.update shards key contents := by
  unfold send at done
  split at done
  · cases done
  · cases done
  · split at done
    · cases done
    · next contents count ran =>
        cases done
        exact ⟨contents, ran, rfl⟩

/-- A shard whose layer has no group, or of another project, is left alone. -/
theorem sendGroups_frame (database : Database Contents) (project : ProjectId)
    (groups : List (DbLayer × List Statement)) (shards : Shards Contents) (total : Nat)
    (key : ShardKey) (untouched : key.project ≠ project ∨ key.layer ∉ groups.map Prod.fst) :
    (database.sendGroups project groups shards total).1 key = shards key := by
  induction groups generalizing shards total with
  | nil => rfl
  | cons group rest ih =>
      obtain ⟨layer, items⟩ := group
      unfold sendGroups
      cases sent : database.send ⟨project, layer⟩ (database.engine.batch items) shards with
      | error error => rfl
      | ok done =>
          obtain ⟨contents, _, updated⟩ := send_ok sent
          have other : key ≠ ⟨project, layer⟩ := by
            intro same
            subst same
            rcases untouched with project | layer
            · exact project rfl
            · exact layer List.mem_cons_self
          have rests : key.project ≠ project ∨ key.layer ∉ rest.map Prod.fst :=
            untouched.imp_right (fun missing member => missing (List.mem_cons_of_mem _ member))
          change (database.sendGroups project rest done.1 (total + done.2)).1 key = _
          rw [ih _ _ rests, updated, Function.update_of_ne other]

/-- A batch that succeeds has run each group on the shard of its layer. -/
theorem sendGroups_ok (database : Database Contents) (project : ProjectId)
    {groups : List (DbLayer × List Statement)} (distinct : (groups.map Prod.fst).Nodup)
    {start total : Nat}
    (done : database.sendGroups project groups shards start = (after, .ok total)) :
    ∀ layer items, (layer, items) ∈ groups → ∃ count,
      database.engine.executeAll items (shards ⟨project, layer⟩) 0 =
        .ok (after ⟨project, layer⟩, count) := by
  induction groups generalizing shards start with
  | nil =>
      intro layer items member
      exact absurd member List.not_mem_nil
  | cons group rest ih =>
      obtain ⟨head, held⟩ := group
      rw [List.map_cons, List.nodup_cons] at distinct
      unfold sendGroups at done
      cases sent : database.send ⟨project, head⟩ (database.engine.batch held) shards with
      | error error =>
          rw [sent] at done
          cases done
      | ok result =>
          rw [sent] at done
          obtain ⟨contents, ran, same⟩ := send_ok sent
          intro layer items member
          rcases List.mem_cons.mp member with here | later
          · cases here
            have kept := database.sendGroups_frame project rest result.1 (start + result.2)
              ⟨project, head⟩ (Or.inr distinct.1)
            change database.sendGroups project rest result.1 (start + result.2) = _ at done
            rw [done] at kept
            change after ⟨project, head⟩ = _ at kept
            rw [kept, same, Function.update_self]
            exact ⟨_, Engine.batch_ok ran⟩
          · have apart : (⟨project, layer⟩ : ShardKey) ≠ ⟨project, head⟩ := by
              intro equal
              cases equal
              exact distinct.1 (List.mem_map.mpr ⟨_, later, rfl⟩)
            obtain ⟨count, finished⟩ := ih distinct.2 done layer items later
            rw [same, Function.update_of_ne apart] at finished
            exact ⟨count, finished⟩

end Database

end Mneme.Store
