/-
What a batch of writes means and what its failure leaves behind.

The statements are sorted by layer but all of them go to the project of the
first write, and each layer is a transaction of its own.
-/

import Mneme.Store.Query

namespace Mneme.Store

open Common Library

variable {Contents : Type}

namespace Database

variable (writes : List Write)

theorem mem_byLayer_iff (layer : DbLayer) (items : List Statement) :
    (layer, items) ∈ byLayer writes ↔
      layer ∈ writes.map Write.layer ∧
        items = Buckets.under layer (writes.map (fun write => (write.layer, write.statement))) := by
  unfold byLayer
  rw [Buckets.mem_collect_iff, List.map_map]
  rfl

theorem mem_keys_byLayer (layer : DbLayer) :
    layer ∈ (byLayer writes).map Prod.fst ↔ layer ∈ writes.map Write.layer := by
  unfold byLayer
  rw [Buckets.mem_keys_collect, List.map_map]
  rfl

theorem byLayer_keys_nodup : ((byLayer writes).map Prod.fst).Nodup :=
  Buckets.collect_keys_nodup _

end Database

variable {writes : List Write}

theorem statementsFor_eq_nil {key : ShardKey} (absent : ∀ write, write ∈ writes → write.key ≠ key) :
    statementsFor key writes = [] := by
  induction writes with
  | nil => rfl
  | cons write rest ih =>
      rw [statementsFor_cons_other (absent write List.mem_cons_self)]
      exact ih (fun other member => absent other (List.mem_cons_of_mem _ member))

theorem statementsFor_ne_nil {write : Write} (member : write ∈ writes) :
    statementsFor write.key writes ≠ [] := by
  induction writes with
  | nil => exact absurd member List.not_mem_nil
  | cons head rest ih =>
      by_cases same : head.key = write.key
      · rw [← same, statementsFor_cons_same]
        exact List.cons_ne_nil _ _
      · rw [statementsFor_cons_other same]
        rcases List.mem_cons.mp member with equal | later
        · exact absurd (congrArg Write.key equal.symm) same
        · exact ih later

/-- An engine whose contents are the statements executed so far. -/
def journal : Engine (List Statement) :=
  { openTransaction := fun _ => .ok ()
    execute := fun executed statement => .ok (executed ++ [statement], 1)
    commit := fun _ => .ok () }

theorem journal_executeAll (items executed : List Statement) (total : Nat) :
    journal.executeAll items executed total = .ok (executed ++ items, total + items.length) := by
  induction items generalizing executed total with
  | nil => rw [Engine.executeAll, List.append_nil, List.length_nil, Nat.add_zero]
  | cons statement rest ih =>
      change journal.executeAll rest (executed ++ [statement]) (total + 1) = _
      rw [ih, List.append_assoc, List.length_cons, Nat.add_assoc, Nat.add_comm 1]
      rfl

theorem journal_applyEach {shards after : Shards (List Statement)}
    (done : applyEach journal writes shards = .ok after) (key : ShardKey) :
    after key = shards key ++ statementsFor key writes := by
  have each : applyEach journal writes shards =
      .ok (fun other => shards other ++ statementsFor other writes) := by
    apply applyEach_of_executeAll
    intro other
    exact ⟨_, journal_executeAll _ _ _⟩
  rw [each] at done
  rw [← Except.ok.inj done]

theorem journal_sendGroups (project : ProjectId) (groups : List (DbLayer × List Statement))
    (shards : Shards (List Statement)) (start : Nat) :
    ∃ total, (Database.sendGroups ⟨journal, fun _ => .serving⟩ project groups shards start).2 =
      .ok total := by
  induction groups generalizing shards start with
  | nil => exact ⟨start, rfl⟩
  | cons group rest ih =>
      obtain ⟨layer, items⟩ := group
      have ran : journal.batch items (shards ⟨project, layer⟩) =
          .ok (shards ⟨project, layer⟩ ++ items, 0 + items.length) := by
        unfold Engine.batch
        rw [journal_executeAll]
        rfl
      simp only [Database.sendGroups, Database.send, ran]
      exact ih _ _

/-! ### The meaning of a batch -/

/-- Whenever the batch returns Ok, the shards hold what the writes one by one
would have left in them. -/
def MeansInOrder (writes : List Write) : Prop :=
  ∀ (Contents : Type) (database : Database Contents) (groups : List (DbLayer × List Statement))
    (shards after : Shards Contents) (total : Nat),
    groups.Perm (Database.byLayer writes) →
      database.writeBatch writes groups shards = (after, .ok total) →
        applyEach database.engine writes shards = .ok after

def OneProject (writes : List Write) : Prop :=
  ∀ first, first ∈ writes → ∀ second, second ∈ writes → first.project = second.project

theorem meansInOrder_of_oneProject (one : OneProject writes) : MeansInOrder writes := by
  intro Contents database groups shards after total order done
  cases writes with
  | nil =>
      have same := congrArg Prod.fst done
      exact congrArg Except.ok same
  | cons first rest =>
      have named : ∀ write, write ∈ first :: rest → write.project = first.project :=
        fun write member => one write member first List.mem_cons_self
      change database.sendGroups first.project groups shards 0 = _ at done
      have distinct : (groups.map Prod.fst).Nodup :=
        (order.map Prod.fst).nodup_iff.mpr (Database.byLayer_keys_nodup _)
      apply applyEach_of_executeAll
      intro key
      by_cases touched : key.project = first.project ∧ key.layer ∈ groups.map Prod.fst
      · obtain ⟨⟨layer, items⟩, member, same⟩ := List.mem_map.mp touched.2
        change layer = key.layer at same
        have group := (Database.mem_byLayer_iff _ _ _).mp (order.mem_iff.mp member)
        have statements := under_layer_eq_statementsFor named layer
        rw [← group.2] at statements
        have shard : key = ⟨first.project, layer⟩ := by
          rw [← touched.1, same]
        obtain ⟨count, ran⟩ := Database.sendGroups_ok _ _ distinct done layer items member
        rw [shard, ← statements]
        exact ⟨count, ran⟩
      · have untouched := not_and_or.mp touched
        have kept := database.sendGroups_frame first.project groups shards 0 key untouched
        rw [done] at kept
        have absent : ∀ write, write ∈ first :: rest → write.key ≠ key := by
          intro write member same
          apply touched
          constructor
          · rw [← same]
            exact named write member
          · rw [(order.map Prod.fst).mem_iff, Database.mem_keys_byLayer, ← same]
            exact List.mem_map_of_mem member
        rw [statementsFor_eq_nil absent]
        exact ⟨0, congrArg (fun contents => Except.ok (contents, 0)) kept.symm⟩

/-- The batch routes by its first write: a write of another project never
reaches its own shard. -/
theorem oneProject_of_meansInOrder (ordered : MeansInOrder writes) : OneProject writes := by
  cases writes with
  | nil =>
      intro first member
      exact absurd member List.not_mem_nil
  | cons head rest =>
      have routed : ∀ write, write ∈ head :: rest → write.project = head.project := by
        intro write member
        by_contra foreign
        let shards : Shards (List Statement) := fun _ => []
        let database : Database (List Statement) := ⟨journal, fun _ => .serving⟩
        let groups := Database.byLayer (head :: rest)
        obtain ⟨total, succeeded⟩ := journal_sendGroups head.project groups shards 0
        have done : database.writeBatch (head :: rest) groups shards =
            ((database.sendGroups head.project groups shards 0).1, .ok total) := by
          rw [← succeeded]
          rfl
        have same := journal_applyEach (ordered _ database groups shards _ total
          (List.Perm.refl _) done) write.key
        rw [database.sendGroups_frame head.project groups shards 0 write.key (Or.inl foreign)]
          at same
        exact statementsFor_ne_nil member same.symm
      intro first inFirst second inSecond
      rw [routed first inFirst, routed second inSecond]

inductive InjectOp where
  | insert (project : ProjectId) (layer : DbLayer) (sql : String) (params : List Json)
  | update (project : ProjectId) (layer : DbLayer) (sql : String) (params : List Json)
  | delete (project : ProjectId) (layer : DbLayer) (sql : String) (params : List Json)

def InjectOp.write : InjectOp → Write
  | .insert project layer sql params => ⟨project, layer, sql, params⟩
  | .update project layer sql params => ⟨project, layer, sql, params⟩
  | .delete project layer sql params => ⟨project, layer, sql, params⟩

/-- The options, the idempotency key among them, are not looked at. -/
def Database.batchInject (database : Database Contents) (ops : List InjectOp)
    (groups : List (DbLayer × List Statement)) (shards : Shards Contents) :
    Shards Contents × Except DbError Nat :=
  database.writeBatch (ops.map InjectOp.write) groups shards

/-- Whenever the call returns an error, every shard holds what it held before. -/
def FailsCleanly (writes : List Write)
    (call : {Contents : Type} → Database Contents → List (DbLayer × List Statement) →
      Shards Contents → Shards Contents × Except DbError Nat) : Prop :=
  ∀ (Contents : Type) (database : Database Contents) (groups : List (DbLayer × List Statement))
    (shards after : Shards Contents) (error : DbError),
    groups.Perm (Database.byLayer writes) →
      call database groups shards = (after, .error error) → after = shards

def OneLayer (writes : List Write) : Prop :=
  ∀ first, first ∈ writes → ∀ second, second ∈ writes → first.layer = second.layer

theorem failsCleanly_of_oneLayer (one : OneLayer writes) :
    FailsCleanly writes (fun database => database.writeBatch writes) := by
  intro Contents database groups shards after error order failed
  cases writes with
  | nil => cases failed
  | cons first rest =>
      have distinct : (groups.map Prod.fst).Nodup :=
        (order.map Prod.fst).nodup_iff.mpr (Database.byLayer_keys_nodup _)
      have named : ∀ layer, layer ∈ groups.map Prod.fst → layer = first.layer := by
        intro layer member
        rw [(order.map Prod.fst).mem_iff, Database.mem_keys_byLayer] at member
        obtain ⟨write, inBatch, rfl⟩ := List.mem_map.mp member
        exact one write inBatch first List.mem_cons_self
      change database.sendGroups first.project groups shards 0 = _ at failed
      cases groups with
      | nil => cases failed
      | cons group others =>
          have single : others = [] := by
            cases others with
            | nil => rfl
            | cons second later =>
                rw [List.map_cons, List.nodup_cons] at distinct
                have here := named group.1 List.mem_cons_self
                have there := named second.1 (List.mem_cons_of_mem _ List.mem_cons_self)
                apply absurd _ distinct.1
                rw [here, ← there]
                exact List.mem_cons_self
          subst single
          unfold Database.sendGroups at failed
          cases sent : database.send ⟨first.project, group.1⟩ (database.engine.batch group.2)
              shards with
          | error refused =>
              rw [sent] at failed
              exact (congrArg Prod.fst failed).symm
          | ok done =>
              rw [sent] at failed
              cases failed

/-- An engine on which every statement succeeds but on the contents `1`. -/
def brittle : Engine Nat :=
  { openTransaction := fun _ => .ok ()
    execute := fun contents _ =>
      if contents = 1 then .error (.sqlite "constraint failed") else .ok (contents + 2, 1)
    commit := fun _ => .ok () }

theorem brittle_executeAll (statement : Statement) (rest : List Statement) {contents : Nat}
    (even : contents % 2 = 0) :
    ∃ after total, brittle.executeAll (statement :: rest) contents 0 = .ok (after, total) ∧
      contents < after := by
  have all : ∀ (items : List Statement) (start count : Nat), start % 2 = 0 →
      ∃ after total, brittle.executeAll items start count = .ok (after, total) ∧
        start + 2 * items.length = after := by
    intro items
    induction items with
    | nil =>
        intro start count _
        exact ⟨start, count, rfl, rfl⟩
    | cons item rest ih =>
        intro start count evenStart
        obtain ⟨after, total, ran, sum⟩ := ih (start + 2) (count + 1) (by omega)
        refine ⟨after, total, ?_, ?_⟩
        · have notOne : start ≠ 1 := by omega
          simp only [Engine.executeAll, brittle, if_neg notOne]
          exact ran
        · rw [List.length_cons]
          omega
  obtain ⟨after, total, ran, sum⟩ := all (statement :: rest) contents 0 even
  refine ⟨after, total, ran, ?_⟩
  rw [List.length_cons] at sum
  omega

/-- The groups are separate transactions: with two of them, the first stays
committed when the second fails. -/
theorem oneLayer_of_failsCleanly
    (clean : FailsCleanly writes (fun database => database.writeBatch writes)) :
    OneLayer writes := by
  by_contra several
  have two : ∃ first second rest, Database.byLayer writes = first :: second :: rest := by
    cases grouped : Database.byLayer writes with
    | nil =>
        exfalso
        apply several
        intro write member
        have key := (Database.mem_keys_byLayer writes write.layer).mpr (List.mem_map_of_mem member)
        rw [grouped] at key
        exact absurd key List.not_mem_nil
    | cons first others =>
        cases others with
        | nil =>
            exfalso
            apply several
            have only : ∀ write, write ∈ writes → write.layer = first.1 := by
              intro write member
              have key := (Database.mem_keys_byLayer writes write.layer).mpr
                (List.mem_map_of_mem member)
              rw [grouped] at key
              exact List.mem_singleton.mp key
            intro write member other inBatch
            rw [only write member, only other inBatch]
        | cons second rest => exact ⟨first, second, rest, rfl⟩
  obtain ⟨⟨firstLayer, firstItems⟩, ⟨secondLayer, secondItems⟩, rest, grouped⟩ := two
  have distinct := Database.byLayer_keys_nodup writes
  rw [grouped, List.map_cons, List.map_cons, List.nodup_cons] at distinct
  have apart : firstLayer ≠ secondLayer := fun same =>
    distinct.1 (same ▸ List.mem_cons_self)
  have filled : ∀ layer items, (layer, items) ∈ Database.byLayer writes →
      ∃ statement others, items = statement :: others := by
    intro layer items member
    obtain ⟨occurs, same⟩ := (Database.mem_byLayer_iff writes layer items).mp member
    obtain ⟨write, inBatch, rfl⟩ := List.mem_map.mp occurs
    cases items with
    | cons statement others => exact ⟨statement, others, rfl⟩
    | nil =>
        have filed : write.statement ∈ Buckets.under write.layer
            (writes.map (fun write => (write.layer, write.statement))) := by
          unfold Buckets.under
          refine List.mem_map.mpr ⟨(write.layer, write.statement), ?_, rfl⟩
          exact List.mem_filter.mpr ⟨List.mem_map.mpr ⟨write, inBatch, rfl⟩, decide_eq_true rfl⟩
        rw [← same] at filed
        exact absurd filed List.not_mem_nil
  obtain ⟨statement, others, rfl⟩ := filled firstLayer firstItems
    (by rw [grouped]; exact List.mem_cons_self)
  obtain ⟨failing, later, rfl⟩ := filled secondLayer secondItems
    (by rw [grouped]; exact List.mem_cons_of_mem _ List.mem_cons_self)
  cases writes with
  | nil => cases grouped
  | cons head tail =>
      let shards : Shards Nat := fun key => if key.layer = secondLayer then 1 else 0
      let database : Database Nat := ⟨brittle, fun _ => .serving⟩
      obtain ⟨contents, total, ran, larger⟩ := brittle_executeAll statement others (Nat.zero_mod 2)
      have first : shards ⟨head.project, firstLayer⟩ = 0 := if_neg apart
      have second : shards ⟨head.project, secondLayer⟩ = 1 := if_pos rfl
      have failed : database.writeBatch (head :: tail) (Database.byLayer (head :: tail)) shards =
          (Function.update shards ⟨head.project, firstLayer⟩ contents,
            .error (.sqlite "constraint failed")) := by
        rw [grouped]
        have batched : brittle.batch (statement :: others) 0 = .ok (contents, total) := by
          unfold Engine.batch
          rw [ran]
          rfl
        have refused : brittle.batch (failing :: later) 1 =
            .error (.sqlite "constraint failed") := rfl
        have other : (⟨head.project, secondLayer⟩ : ShardKey) ≠ ⟨head.project, firstLayer⟩ := by
          intro equal
          exact apart (congrArg ShardKey.layer equal).symm
        simp only [database, Database.writeBatch, Database.sendGroups, Database.send, first,
          batched, Function.update_of_ne other, second, refused]
      have kept := clean Nat database _ shards _ _ (List.Perm.refl _) failed
      have changed := congrFun kept ⟨head.project, firstLayer⟩
      rw [Function.update_self, first] at changed
      omega

end Mneme.Store
