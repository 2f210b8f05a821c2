/-
The re-index jobs of one path, spawned as its events are dispatched.

Nothing orders the jobs, and each statement that a job runs on the shard is a
step of its own, so the writes of several jobs interleave.
-/

import Mneme.Library.Run
import Mneme.Supervisor.Reindexing

namespace Mneme.Supervisor

open Common Library Parsers Store Transition

inductive JobPhase where
  | waiting
  /-- The names whose edges are still to be deleted; `seen` is history: the
  shard as it was when the names were read. -/
  | deleting (left : List GraphId) (seen : GraphShard)
  | extracted (graph : ExtractedGraph)
  | wiping (graph : ExtractedGraph) (left : List GraphId)
  | inserting (nodes : List Node) (edges : List Edge)
  | hung
  | done

/-- `content` is history: what an upsert has read. -/
structure ReindexJob where
  kind : ChangeKind
  content : Option (Option ByteArray)
  phase : JobPhase

/-- The jobs in the order of dispatch. -/
structure ReindexJobs where
  shard : GraphShard
  jobs : List ReindexJob

inductive ReindexStep where
  | dispatch (kind : ChangeKind)
  /-- The next step of a job; the content is what it would read. -/
  | step (job : Nat) (content : Option ByteArray)

namespace ReindexJobs

section Path

variable (treeSitter : TreeSitter) (path : Path)

def start (shard : GraphShard) : ReindexJobs :=
  { shard := shard, jobs := [] }

/-- One step of a job, which is over when it has none. -/
def advance (content : Option ByteArray) (job : ReindexJob) (shard : GraphShard) :
    Option (ReindexJob × GraphShard) :=
  match job.phase, job.kind with
  | .waiting, .delete =>
      some ({ job with phase := .deleting (shard.qualifiedNamesOf path) shard }, shard)
  | .waiting, .upsert =>
      let read := { job with content := some content }
      match extractedGraph treeSitter path content with
      | some graph => some ({ read with phase := .extracted graph }, shard)
      | none =>
          -- A file that is not indexed: the job hangs or returns.
          if (upsertFile treeSitter path content shard).1 = .ignored then
            some ({ read with phase := .hung }, shard)
          else some ({ read with phase := .done }, shard)
  | .deleting (id :: left) seen, _ =>
      some ({ job with phase := .deleting left seen }, shard.deleteEdgesAt id)
  | .deleting [] _, _ => some ({ job with phase := .done }, shard.deleteNodesOf path)
  | .extracted graph, _ =>
      some ({ job with phase := .wiping graph (shard.qualifiedNamesOf path) }, shard)
  | .wiping graph (id :: left), _ =>
      some ({ job with phase := .wiping graph left }, shard.deleteEdgesFrom id)
  | .wiping graph [], _ => some ({ job with phase := .inserting graph.nodes graph.edges }, shard)
  | .inserting (node :: nodes) edges, _ =>
      some ({ job with phase := .inserting nodes edges }, shard.insertNode (nodeRow node))
  | .inserting [] (edge :: edges), _ =>
      some ({ job with phase := .inserting [] edges }, shard.insertEdge (edgeRow "watcher" edge))
  | .inserting [] [], _ => some ({ job with phase := .done }, shard)
  | .hung, _ => none
  | .done, _ => none

def next (state : ReindexJobs) : ReindexStep → Option ReindexJobs
  | .dispatch kind =>
      some { state with jobs := state.jobs ++ [{ kind, content := none, phase := .waiting }] }
  | .step index content =>
      match state.jobs[index]? with
      | none => none
      | some job =>
          (advance treeSitter path content job state.shard).map (fun (advanced, shard) =>
            { shard := shard, jobs := state.jobs.set index advanced })

/-! ### What is expected -/

/-- The rows of the path are those of the event: none after a delete, and
after an upsert those of a fresh build of the content it read. -/
def Reflects (shard : GraphShard) (job : ReindexJob) : Prop :=
  match job.kind with
  | .delete => SameRows path shard .empty
  | .upsert => ∀ content, job.content = some content →
      SameRows path shard (Cli.indexFile treeSitter path content .empty).2

/-- Once all jobs have finished, the rows reflect the last event. -/
def Converged (state : ReindexJobs) : Prop :=
  (∀ job ∈ state.jobs, job.phase = .done) →
    ∀ job, state.jobs.getLast? = some job → Reflects treeSitter path state.shard job

/-- The edges that touch one of the ids. -/
def edgesAt (ids : List GraphId) (shard : GraphShard) : List EdgeRow :=
  shard.edges.filter (fun row => row.sourceQualified ∈ ids ∨ row.targetQualified ∈ ids)

/-- While a delete is under way, what it found of the file is all there or all
gone. -/
def DeletesWhole (state : ReindexJobs) : Prop :=
  ∀ job ∈ state.jobs, ∀ left seen, job.phase = .deleting left seen →
    (nodesOf path state.shard = nodesOf path seen ∧
        edgesAt (seen.qualifiedNamesOf path) state.shard =
          edgesAt (seen.qualifiedNamesOf path) seen) ∨
      (nodesOf path state.shard = [] ∧ edgesAt (seen.qualifiedNamesOf path) state.shard = [])

/-! ### When it holds -/

/-- Every job dispatched before has finished.  Only the extraction of a file
that is indexed, which touches no row, may come earlier. -/
def InTurn (state : ReindexJobs) : ReindexStep → Prop
  | .dispatch _ => True
  | .step index content =>
      (∀ job ∈ state.jobs.take index, job.phase = .done) ∨
        ∃ job ∈ state.jobs[index]?, job.phase = .waiting ∧ job.kind = .upsert ∧
          (extractedGraph treeSitter path content).isSome

/-- Every edge of the file touches one of its node rows. -/
def Clears (shard : GraphShard) : Prop :=
  ∀ row ∈ edgesOf path shard, row.sourceQualified ∈ shard.qualifiedNamesOf path ∨
    row.targetQualified ∈ shard.qualifiedNamesOf path

/-- The old rows that a job finds as it begins all give way. -/
def FindsClear (content : Option ByteArray) (job : ReindexJob) (shard : GraphShard) : Prop :=
  match job.phase, job.kind with
  | .waiting, .delete => Clears path shard
  | .waiting, .upsert =>
      extractedGraph treeSitter path content = none → GivesWay path shard none
  | .extracted graph, _ => GivesWay path shard (some graph)
  | _, _ => True

def BeginsClear (state : ReindexJobs) : ReindexStep → Prop
  | .dispatch _ => True
  | .step index content =>
      ∀ job ∈ state.jobs[index]?, FindsClear treeSitter path content job state.shard

/-- A delete begins when no edge touches the nodes of the file. -/
def BeginsEdgeless (state : ReindexJobs) : ReindexStep → Prop
  | .dispatch _ => True
  | .step index _ =>
      ∀ job ∈ state.jobs[index]?, job.phase = .waiting → job.kind = .delete →
        edgesAt (state.shard.qualifiedNamesOf path) state.shard = []

/-! ### Jobs in turn -/

/-- A job that has touched no row yet. -/
def Untouched (job : ReindexJob) : Prop :=
  job.phase = .waiting ∨ ∃ graph content, job.phase = .extracted graph ∧ job.kind = .upsert ∧
    job.content = some content ∧ extractedGraph treeSitter path content = some graph

/-- Finished jobs, then at most one that has begun, then jobs that have touched
nothing.  `ready` is asked of the first unfinished job and `final` of the last
job when it has finished. -/
def Ordered (ready final : ReindexJob → Prop) : List ReindexJob → Prop
  | [] => True
  | job :: rest =>
      (job.phase = .done ∧ (rest = [] → final job) ∧ Ordered ready final rest) ∨
        (job.phase ≠ .done ∧ ready job ∧ ∀ later ∈ rest, Untouched treeSitter path later)

theorem untouched_unfinished {job : ReindexJob} (untouched : Untouched treeSitter path job) :
    job.phase ≠ .done := by
  intro done
  rcases untouched with waiting | ⟨graph, content, extracted, _⟩
  · rw [done] at waiting
    cases waiting
  · rw [done] at extracted
    cases extracted

variable {ready final : ReindexJob → Prop} {jobs : List ReindexJob}

theorem ordered_of_untouched (fresh : ∀ job, Untouched treeSitter path job → ready job)
    (untouched : ∀ job ∈ jobs, Untouched treeSitter path job) :
    Ordered treeSitter path ready final jobs := by
  cases jobs with
  | nil => exact trivial
  | cons job rest =>
      have first := untouched job List.mem_cons_self
      exact Or.inr ⟨untouched_unfinished treeSitter path first, fresh job first,
        fun later member => untouched later (List.mem_cons_of_mem job member)⟩

/-- Finished jobs in front matter only when there is nothing behind them. -/
theorem ordered_append_iff {front rest : List ReindexJob}
    (finished : ∀ job ∈ front, job.phase = .done) (more : rest ≠ []) :
    Ordered treeSitter path ready final (front ++ rest) ↔
      Ordered treeSitter path ready final rest := by
  induction front with
  | nil => exact Iff.rfl
  | cons job front ih =>
      have done := finished job List.mem_cons_self
      have behind := ih (fun other member => finished other (List.mem_cons_of_mem job member))
      have notLast : front ++ rest ≠ [] := fun empty => more (List.append_eq_nil_iff.mp empty).2
      rw [List.cons_append, Ordered, behind]
      constructor
      · rintro (⟨_, _, ordered⟩ | ⟨unfinished, _⟩)
        · exact ordered
        · exact absurd done unfinished
      · intro ordered
        exact Or.inl ⟨done, fun empty => absurd empty notLast, ordered⟩

theorem ordered_dispatch (fresh : ∀ job, Untouched treeSitter path job → ready job)
    (ordered : Ordered treeSitter path ready final jobs) {job : ReindexJob}
    (untouched : Untouched treeSitter path job) :
    Ordered treeSitter path ready final (jobs ++ [job]) := by
  induction jobs with
  | nil =>
      exact Or.inr ⟨untouched_unfinished treeSitter path untouched, fresh job untouched,
        fun later member => absurd member List.not_mem_nil⟩
  | cons first rest ih =>
      rcases ordered with ⟨done, _, behind⟩ | ⟨unfinished, held, later⟩
      · exact Or.inl ⟨done, fun empty => absurd (List.append_eq_nil_iff.mp empty).2
          (List.cons_ne_nil _ _), ih behind⟩
      · refine Or.inr ⟨unfinished, held, fun other member => ?_⟩
        rcases List.mem_append.mp member with old | new
        · exact later other old
        · rw [List.mem_singleton.mp new]
          exact untouched

/-- A waiting job may be extracted at any time. -/
theorem ordered_extract (fresh : ∀ job, Untouched treeSitter path job → ready job)
    (ordered : Ordered treeSitter path ready final jobs) {index : Nat} {job changed : ReindexJob}
    (found : jobs[index]? = some job) (waiting : job.phase = .waiting)
    (untouched : Untouched treeSitter path changed) :
    Ordered treeSitter path ready final (jobs.set index changed) := by
  induction jobs generalizing index with
  | nil => cases found
  | cons first rest ih =>
      cases index with
      | zero =>
          cases found
          rcases ordered with ⟨done, _⟩ | ⟨_, _, later⟩
          · rw [waiting] at done
            cases done
          · exact Or.inr ⟨untouched_unfinished treeSitter path untouched, fresh changed untouched,
              later⟩
      | succ index =>
          have inside : rest[index]? = some job := found
          rcases ordered with ⟨done, last, behind⟩ | ⟨unfinished, held, later⟩
          · refine Or.inl ⟨done, fun empty => ?_, ih behind inside⟩
            rw [List.set_eq_nil_iff] at empty
            exact last empty
          · refine Or.inr ⟨unfinished, held, fun other member => ?_⟩
            rcases List.mem_or_eq_of_mem_set member with old | new
            · exact later other old
            · rw [new]
              exact untouched

/-- What a step of a job can be. -/
inductive Moves (content : Option ByteArray) (shard : GraphShard) :
    ReindexJob → ReindexJob → GraphShard → Prop
  | readNames {read : Option (Option ByteArray)} :
      Moves content shard ⟨.delete, read, .waiting⟩
        ⟨.delete, read, .deleting (shard.qualifiedNamesOf path) shard⟩ shard
  | extract {read : Option (Option ByteArray)} {graph : ExtractedGraph}
      (extracted : extractedGraph treeSitter path content = some graph) :
      Moves content shard ⟨.upsert, read, .waiting⟩ ⟨.upsert, some content, .extracted graph⟩ shard
  | skip {read : Option (Option ByteArray)} {phase : JobPhase}
      (unindexed : extractedGraph treeSitter path content = none)
      (ended : phase = .hung ∨ phase = .done) :
      Moves content shard ⟨.upsert, read, .waiting⟩ ⟨.upsert, some content, phase⟩ shard
  | deleteEdges {kind : ChangeKind} {read : Option (Option ByteArray)} {id : GraphId}
      {left : List GraphId} {seen : GraphShard} :
      Moves content shard ⟨kind, read, .deleting (id :: left) seen⟩
        ⟨kind, read, .deleting left seen⟩ (shard.deleteEdgesAt id)
  | deleteNodes {kind : ChangeKind} {read : Option (Option ByteArray)} {seen : GraphShard} :
      Moves content shard ⟨kind, read, .deleting [] seen⟩ ⟨kind, read, .done⟩
        (shard.deleteNodesOf path)
  | readOldNames {kind : ChangeKind} {read : Option (Option ByteArray)} {graph : ExtractedGraph} :
      Moves content shard ⟨kind, read, .extracted graph⟩
        ⟨kind, read, .wiping graph (shard.qualifiedNamesOf path)⟩ shard
  | wipe {kind : ChangeKind} {read : Option (Option ByteArray)} {graph : ExtractedGraph}
      {id : GraphId} {left : List GraphId} :
      Moves content shard ⟨kind, read, .wiping graph (id :: left)⟩ ⟨kind, read, .wiping graph left⟩
        (shard.deleteEdgesFrom id)
  | wiped {kind : ChangeKind} {read : Option (Option ByteArray)} {graph : ExtractedGraph} :
      Moves content shard ⟨kind, read, .wiping graph []⟩
        ⟨kind, read, .inserting graph.nodes graph.edges⟩ shard
  | insertNode {kind : ChangeKind} {read : Option (Option ByteArray)} {node : Node}
      {nodes : List Node} {edges : List Edge} :
      Moves content shard ⟨kind, read, .inserting (node :: nodes) edges⟩
        ⟨kind, read, .inserting nodes edges⟩ (shard.insertNode (nodeRow node))
  | insertEdge {kind : ChangeKind} {read : Option (Option ByteArray)} {edge : Edge}
      {edges : List Edge} :
      Moves content shard ⟨kind, read, .inserting [] (edge :: edges)⟩
        ⟨kind, read, .inserting [] edges⟩ (shard.insertEdge (edgeRow "watcher" edge))
  | inserted {kind : ChangeKind} {read : Option (Option ByteArray)} :
      Moves content shard ⟨kind, read, .inserting [] []⟩ ⟨kind, read, .done⟩ shard

variable {content : Option ByteArray}

variable {job advanced : ReindexJob}

theorem moves_of_advance {shard after : GraphShard}
    (moved : advance treeSitter path content job shard = some (advanced, after)) :
    Moves treeSitter path content shard job advanced after := by
  obtain ⟨kind, read, phase⟩ := job
  cases phase with
  | waiting =>
      cases kind with
      | delete =>
          cases moved
          exact .readNames
      | upsert =>
          unfold advance at moved
          dsimp only at moved
          split at moved
          · next graph extracted =>
              cases moved
              exact .extract extracted
          · next unindexed =>
              split at moved
              · cases moved
                exact .skip unindexed (Or.inl rfl)
              · cases moved
                exact .skip unindexed (Or.inr rfl)
  | deleting left seen =>
      cases left with
      | nil =>
          cases moved
          exact .deleteNodes
      | cons id left =>
          cases moved
          exact .deleteEdges
  | extracted graph =>
      cases moved
      exact .readOldNames
  | wiping graph left =>
      cases left with
      | nil =>
          cases moved
          exact .wiped
      | cons id left =>
          cases moved
          exact .wipe
  | inserting nodes edges =>
      cases nodes with
      | cons node nodes =>
          cases moved
          exact .insertNode
      | nil =>
          cases edges with
          | nil =>
              cases moved
              exact .inserted
          | cons edge edges =>
              cases moved
              exact .insertEdge
  | hung => cases moved
  | done => cases moved

variable {shard : GraphShard}

theorem advance_unfinished {job : ReindexJob} {result : ReindexJob × GraphShard}
    (advanced : advance treeSitter path content job shard = some result) : job.phase ≠ .done := by
  intro done
  unfold advance at advanced
  rw [done] at advanced
  cases advanced

/-- The step rule: `ready` need only survive the steps of the job whose turn it
is. -/
theorem ordered_next {ready final : GraphShard → ReindexJob → Prop}
    (fresh : ∀ shard job, Untouched treeSitter path job → ready shard job)
    {state after : ReindexJobs} {label : ReindexStep}
    (ordered : Ordered treeSitter path (ready state.shard) (final state.shard) state.jobs)
    (inTurn : InTurn treeSitter path state label)
    (own : ∀ index content, label = .step index content → ∀ job advanced shard,
      state.jobs[index]? = some job → ready state.shard job →
        advance treeSitter path content job state.shard = some (advanced, shard) →
          (advanced.phase = .done → final shard advanced) ∧
            (advanced.phase ≠ .done → ready shard advanced))
    (taken : next treeSitter path state label = some after) :
    Ordered treeSitter path (ready after.shard) (final after.shard) after.jobs := by
  cases label with
  | dispatch kind =>
      cases taken
      exact ordered_dispatch treeSitter path (fresh state.shard) ordered (Or.inl rfl)
  | step index content =>
      simp only [next] at taken
      split at taken
      · cases taken
      · next job found =>
          obtain ⟨⟨advanced, shard⟩, moved, built⟩ := Option.map_eq_some_iff.mp taken
          subst built
          rcases inTurn with turn | ⟨other, same, waiting, upsert, indexed⟩
          · have inside : index < state.jobs.length := List.getElem?_eq_some_iff.mp found |>.1
            have split : state.jobs = state.jobs.take index ++ job :: state.jobs.drop (index + 1) := by
              rw [← (List.getElem?_eq_some_iff.mp found).2, List.getElem_cons_drop,
                List.take_append_drop]
            have replaced : state.jobs.set index advanced =
                state.jobs.take index ++ advanced :: state.jobs.drop (index + 1) :=
              List.set_eq_take_append_cons_drop.trans (if_pos inside)
            rw [split, ordered_append_iff treeSitter path turn (List.cons_ne_nil _ _)] at ordered
            dsimp only
            rw [replaced, ordered_append_iff treeSitter path turn (List.cons_ne_nil _ _)]
            rcases ordered with ⟨done, _⟩ | ⟨_, held, later⟩
            · exact absurd done (advance_unfinished treeSitter path moved)
            · obtain ⟨finishes, goesOn⟩ := own index content rfl job advanced shard found held moved
              by_cases done : advanced.phase = .done
              · exact Or.inl ⟨done, fun _ => finishes done,
                  ordered_of_untouched treeSitter path (fresh shard) later⟩
              · exact Or.inr ⟨done, goesOn done, later⟩
          · cases found.symm.trans same
            obtain ⟨graph, extracted⟩ := Option.isSome_iff_exists.mp indexed
            unfold advance at moved
            simp only [waiting, upsert, extracted, Option.some.injEq, Prod.mk.injEq] at moved
            obtain ⟨moved, kept⟩ := moved
            subst moved
            subst kept
            exact ordered_extract treeSitter path (fresh state.shard) ordered found waiting
              (Or.inr ⟨graph, content, rfl, rfl, rfl, extracted⟩)

theorem ordered_last (ordered : Ordered treeSitter path ready final jobs)
    (finished : ∀ job ∈ jobs, job.phase = .done) {job : ReindexJob}
    (last : jobs.getLast? = some job) : final job := by
  induction jobs with
  | nil => cases last
  | cons first rest ih =>
      rcases ordered with ⟨_, final, behind⟩ | ⟨unfinished, _⟩
      · cases rest with
        | nil =>
            cases last
            exact final rfl
        | cons second rest =>
            rw [List.getLast?_cons_cons] at last
            exact ih behind (fun other member => finished other (List.mem_cons_of_mem first member))
              last
      · exact absurd (finished first List.mem_cons_self) unfinished

/-- A job that has begun and is not finished gets the `ready` of its turn. -/
theorem ordered_begun
    (ordered : Ordered treeSitter path ready final jobs) {job : ReindexJob} (member : job ∈ jobs)
    (unfinished : job.phase ≠ .done) (begun : ¬ Untouched treeSitter path job) : ready job := by
  induction jobs with
  | nil => cases member
  | cons first rest ih =>
      rcases ordered with ⟨done, _, behind⟩ | ⟨_, held, later⟩
      · rcases List.mem_cons.mp member with here | inside
        · rw [here] at unfinished
          exact absurd done unfinished
        · exact ih behind inside
      · rcases List.mem_cons.mp member with here | inside
        · rw [here]
          exact held
        · exact absurd (later job inside) begun

/-! ### What a job that has begun will leave -/

/-- The shard after the statements that a job still has to run. -/
def finish : JobPhase → GraphShard → GraphShard
  | .deleting left _, shard =>
      (left.foldl (fun shard id => shard.deleteEdgesAt id) shard).deleteNodesOf path
  | .wiping graph left, shard =>
      persist "watcher" graph (left.foldl (fun shard id => shard.deleteEdgesFrom id) shard)
  | .inserting nodes edges, shard =>
      edges.foldl (fun shard edge => shard.insertEdge (edgeRow "watcher" edge))
        (nodes.foldl (fun shard node => shard.insertNode (nodeRow node)) shard)
  | _, shard => shard

theorem sameRows_deleteFile_iff (shard : GraphShard) :
    SameRows path (deleteFile path shard).2 .empty ↔ Clears path shard := by
  have noNodes : nodesOf path (deleteFile path shard).2 = [] := by
    unfold nodesOf deleteFile
    dsimp only
    rw [foldl_deleteEdgesAt, List.filter_eq_nil_iff]
    intro row member
    rw [decide_eq_true_eq]
    exact of_decide_eq_true (List.mem_filter.mp member).2
  have edgesLeft : edgesOf path (deleteFile path shard).2 =
      (edgesOf path shard).filter (fun row => row.sourceQualified ∉ shard.qualifiedNamesOf path ∧
        row.targetQualified ∉ shard.qualifiedNamesOf path) := by
    unfold edgesOf deleteFile
    dsimp only
    rw [foldl_deleteEdgesAt]
    change (shard.edges.filter _).filter _ = _
    rw [List.filter_filter, List.filter_filter]
    apply List.filter_congr
    intro row _
    rw [Bool.and_comm]
  rw [sameRows_empty_iff, and_iff_right noNodes, edgesLeft, List.filter_eq_nil_iff]
  apply forall₂_congr
  intro row _
  rw [decide_eq_true_eq, not_and_or, not_not, not_not]

theorem sameRows_upsertFile {graph : Option ExtractedGraph} (clear : GivesWay path shard graph)
    (extracted : extractedGraph treeSitter path content = graph) :
    SameRows path (upsertFile treeSitter path content shard).2
      (Cli.indexFile treeSitter path content .empty).2 := by
  subst extracted
  exact (sameRows_upsertFile_iff treeSitter path content shard).mpr clear

/-- The rows come to reflect the event if the job goes on alone. -/
def Converging (shard : GraphShard) (job : ReindexJob) : Prop :=
  match job.phase with
  | .waiting => True
  | .extracted graph => job.kind = .upsert ∧ ∃ content, job.content = some content ∧
      extractedGraph treeSitter path content = some graph
  | .hung => True
  | phase => Reflects treeSitter path (finish path phase shard) job

theorem converging_of_untouched (shard : GraphShard) {job : ReindexJob}
    (untouched : Untouched treeSitter path job) : Converging treeSitter path shard job := by
  unfold Converging
  rcases untouched with waiting | ⟨graph, content, extracted, upsert, read, found⟩
  · rw [waiting]
    exact trivial
  · rw [extracted]
    exact ⟨upsert, content, read, found⟩

theorem converging_advance
    {shard after : GraphShard} (converging : Converging treeSitter path shard job)
    (clear : FindsClear treeSitter path content job shard)
    (moved : advance treeSitter path content job shard = some (advanced, after)) :
    Converging treeSitter path after advanced := by
  cases moves_of_advance treeSitter path moved with
  | readNames => exact (sameRows_deleteFile_iff path shard).mpr clear
  | extract extracted => exact ⟨rfl, content, rfl, extracted⟩
  | skip unindexed ended =>
      rcases ended with hung | done
      · rw [hung]
        exact trivial
      · rw [done]
        intro other same
        cases same
        have gives := sameRows_upsertFile treeSitter path (clear unindexed) unindexed
        rw [upsertFile_shard, unindexed] at gives
        exact gives
  | @readOldNames _ _ graph =>
      obtain ⟨upsert, read, same, extracted⟩ := converging
      dsimp only at upsert same
      subst upsert
      subst same
      intro other same
      cases same
      have old : GivesWay path shard (some graph) := clear
      have gives := sameRows_upsertFile treeSitter path old extracted
      rw [upsertFile_shard, extracted] at gives
      exact gives
  | deleteEdges | deleteNodes | wipe | wiped | insertNode | insertEdge | inserted =>
      exact converging

/-! ### What a delete has found -/

/-- A delete that has begun still has every node it found, and no edge. -/
def FoundWhole (shard : GraphShard) (job : ReindexJob) : Prop :=
  ∀ left seen, job.phase = .deleting left seen →
    nodesOf path shard = nodesOf path seen ∧
      edgesAt (seen.qualifiedNamesOf path) shard = [] ∧
        edgesAt (seen.qualifiedNamesOf path) seen = []

theorem foundWhole_of_untouched (shard : GraphShard) {job : ReindexJob}
    (untouched : Untouched treeSitter path job) : FoundWhole path shard job := by
  intro left seen deleting
  rcases untouched with waiting | ⟨graph, content, extracted, _⟩
  · rw [waiting] at deleting
    cases deleting
  · rw [extracted] at deleting
    cases deleting

theorem edgesAt_deleteEdgesAt {ids : List GraphId} (none : edgesAt ids shard = []) (id : GraphId) :
    edgesAt ids (shard.deleteEdgesAt id) = [] := by
  unfold edgesAt at none ⊢
  rw [List.filter_eq_nil_iff] at none ⊢
  intro row member
  exact none row (List.mem_filter.mp member).1

theorem foundWhole_advance {shard after : GraphShard} (whole : FoundWhole path shard job)
    (edgeless : job.phase = .waiting → job.kind = .delete →
      edgesAt (shard.qualifiedNamesOf path) shard = [])
    (moved : advance treeSitter path content job shard = some (advanced, after)) :
    FoundWhole path after advanced := by
  intro left seen deleting
  cases moves_of_advance treeSitter path moved with
  | readNames =>
      cases deleting
      exact ⟨rfl, edgeless rfl rfl, edgeless rfl rfl⟩
  | deleteEdges =>
      cases deleting
      obtain ⟨nodes, gone, none⟩ := whole _ seen rfl
      exact ⟨nodes, edgesAt_deleteEdgesAt gone _, none⟩
  | skip unindexed ended =>
      rcases ended with hung | done
      · rw [hung] at deleting
        cases deleting
      · rw [done] at deleting
        cases deleting
  | extract | deleteNodes | readOldNames | wipe | wiped | insertNode | insertEdge | inserted =>
      cases deleting

/-! ### Runs -/

variable {state : ReindexJobs}

theorem ordered_converged
    (ordered : Ordered treeSitter path (Converging treeSitter path state.shard)
      (Reflects treeSitter path state.shard) state.jobs) : Converged treeSitter path state :=
  fun finished _ last => ordered_last treeSitter path ordered finished last

theorem ordered_deletesWhole
    (ordered : Ordered treeSitter path (FoundWhole path state.shard) (fun _ => True) state.jobs) :
    DeletesWhole path state := by
  intro job member left seen deleting
  have unfinished : job.phase ≠ .done := by
    rw [deleting]
    exact JobPhase.noConfusion
  have begun : ¬ Untouched treeSitter path job := by
    rintro (waiting | ⟨graph, content, extracted, _⟩)
    · rw [deleting] at waiting
      cases waiting
    · rw [deleting] at extracted
      cases extracted
  obtain ⟨nodes, gone, none⟩ :=
    ordered_begun treeSitter path ordered member unfinished begun left seen deleting
  exact Or.inl ⟨nodes, gone.trans none.symm⟩

variable {history : List (ReindexJobs × ReindexStep)}

theorem converged_of_inTurn (run : Run (next treeSitter path) (start shard) history state)
    (inTurn : Respects (InTurn treeSitter path) history)
    (clear : Respects (BeginsClear treeSitter path) history) :
    Throughout (Converged treeSitter path) history state := by
  have ordered : Throughout (fun state : ReindexJobs =>
      Ordered treeSitter path (Converging treeSitter path state.shard)
        (Reflects treeSitter path state.shard) state.jobs) history state := by
    have both : Respects (fun state label => InTurn treeSitter path state label ∧
        BeginsClear treeSitter path state label) history :=
      fun taken member => ⟨inTurn taken member, clear taken member⟩
    refine run.throughout_of_respects trivial ?_ both
    intro state label after held allowed taken
    refine ordered_next treeSitter path (converging_of_untouched treeSitter path) held allowed.1 ?_
      taken
    intro index content same job advanced shard found converging moved
    subst same
    have next := converging_advance treeSitter path converging (allowed.2 job found) moved
    constructor
    · intro done
      unfold Converging at next
      rw [done] at next
      exact next
    · exact fun _ => next
  exact ⟨fun taken member => ordered_converged treeSitter path (ordered.1 taken member),
    ordered_converged treeSitter path ordered.2⟩

theorem deletesWhole_of_inTurn (run : Run (next treeSitter path) (start shard) history state)
    (inTurn : Respects (InTurn treeSitter path) history)
    (edgeless : Respects (BeginsEdgeless path) history) :
    Throughout (DeletesWhole path) history state := by
  have ordered : Throughout (fun state : ReindexJobs =>
      Ordered treeSitter path (FoundWhole path state.shard) (fun _ => True) state.jobs)
      history state := by
    have both : Respects (fun state label => InTurn treeSitter path state label ∧
        BeginsEdgeless path state label) history :=
      fun taken member => ⟨inTurn taken member, edgeless taken member⟩
    refine run.throughout_of_respects trivial ?_ both
    intro state label after held allowed taken
    refine @ordered_next treeSitter path (FoundWhole path) (fun _ _ => True)
      (foundWhole_of_untouched treeSitter path) _ _ _ held allowed.1 ?_ taken
    intro index content same job advanced shard found whole moved
    subst same
    have next := foundWhole_advance treeSitter path whole (allowed.2 job found) moved
    exact ⟨fun _ => trivial, fun _ => next⟩
  exact ⟨fun taken member => ordered_deletesWhole treeSitter path (ordered.1 taken member),
    ordered_deletesWhole treeSitter path ordered.2⟩

/-- Jobs that run one after another, on rows that give way, converge; deletes
that begin without edges remove the file at once. -/
theorem jobs_in_turn_converge {shard : GraphShard} {history : List (ReindexJobs × ReindexStep)}
    {state : ReindexJobs} (run : Run (next treeSitter path) (start shard) history state)
    (inTurn : Respects (InTurn treeSitter path) history) :
    (Respects (BeginsClear treeSitter path) history →
      Throughout (Converged treeSitter path) history state) ∧
      (Respects (BeginsEdgeless path) history →
        Throughout (DeletesWhole path) history state) :=
  ⟨converged_of_inTurn treeSitter path run inTurn,
    deletesWhole_of_inTurn treeSitter path run inTurn⟩

end Path

/-! ### Concrete runs -/

instance (phase : JobPhase) : Decidable (phase = .waiting) :=
  match phase with
  | .waiting => isTrue rfl
  | .deleting _ _ | .extracted _ | .wiping _ _ | .inserting _ _ | .hung | .done =>
      isFalse JobPhase.noConfusion

instance (phase : JobPhase) : Decidable (phase = .done) :=
  match phase with
  | .done => isTrue rfl
  | .deleting _ _ | .extracted _ | .wiping _ _ | .inserting _ _ | .hung | .waiting =>
      isFalse JobPhase.noConfusion

instance (treeSitter : TreeSitter) (path : Path) (state : ReindexJobs) (label : ReindexStep) :
    Decidable (InTurn treeSitter path state label) :=
  match label with
  | .dispatch _ => isTrue trivial
  | .step index content => inferInstanceAs (Decidable ((∀ job ∈ state.jobs.take index, _) ∨
      ∃ job ∈ state.jobs[index]?, job.phase = .waiting ∧ job.kind = .upsert ∧
        (extractedGraph treeSitter path content).isSome))

instance (path : Path) (shard : GraphShard) : Decidable (Clears path shard) :=
  inferInstanceAs (Decidable (∀ row ∈ edgesOf path shard, _ ∨ _))

instance (path : Path) (prior : GraphShard) (graph : Option ExtractedGraph) :
    Decidable (GivesWay path prior graph) :=
  match graph with
  | none => inferInstanceAs (Decidable (_ ∧ _))
  | some _ => inferInstanceAs (Decidable ((∀ row ∈ nodesOf path prior, _) ∧
      ∀ row ∈ edgesOf path prior, _))

instance (treeSitter : TreeSitter) (path : Path) (content : Option ByteArray) (job : ReindexJob)
    (shard : GraphShard) : Decidable (FindsClear treeSitter path content job shard) :=
  match job with
  | ⟨.delete, _, .waiting⟩ => inferInstanceAs (Decidable (Clears path shard))
  | ⟨.upsert, _, .waiting⟩ => inferInstanceAs (Decidable
      (extractedGraph treeSitter path content = none → GivesWay path shard none))
  | ⟨_, _, .extracted graph⟩ => inferInstanceAs (Decidable (GivesWay path shard (some graph)))
  | ⟨_, _, .deleting _ _⟩ | ⟨_, _, .wiping _ _⟩ | ⟨_, _, .inserting _ _⟩ | ⟨_, _, .hung⟩
  | ⟨_, _, .done⟩ => isTrue trivial

instance (treeSitter : TreeSitter) (path : Path) (state : ReindexJobs) (label : ReindexStep) :
    Decidable (BeginsClear treeSitter path state label) :=
  match label with
  | .dispatch _ => isTrue trivial
  | .step index content => inferInstanceAs (Decidable
      (∀ job ∈ state.jobs[index]?, FindsClear treeSitter path content job state.shard))

instance (path : Path) (state : ReindexJobs) (label : ReindexStep) :
    Decidable (BeginsEdgeless path state label) :=
  match label with
  | .dispatch _ => isTrue trivial
  | .step index _ => inferInstanceAs (Decidable
      (∀ job ∈ state.jobs[index]?, job.phase = .waiting → job.kind = .delete → _ = _))

/-- An empty file is upserted, then deleted. -/
def upsertThenDelete : List ReindexStep :=
  let read := some ByteArray.empty
  [.dispatch .upsert, .dispatch .delete, .step 0 read, .step 0 none, .step 0 none, .step 0 none,
    .step 0 none, .step 1 none, .step 1 none, .step 1 none]

theorem upsert_then_delete_converges : ∃ history state,
    Run (next emptiedFile "a.rs") (start .empty) history state ∧
      history.map Prod.snd = upsertThenDelete ∧
        Throughout (Converged emptiedFile "a.rs") history state ∧
          Throughout (DeletesWhole "a.rs") history state := by
  obtain ⟨history, state, run, labels, allowed⟩ :=
    Run.of_trace (next emptiedFile "a.rs") (start .empty) upsertThenDelete
      (fun history _ => decide (Respects (InTurn emptiedFile "a.rs") history ∧
        Respects (BeginsClear emptiedFile "a.rs") history ∧
          Respects (BeginsEdgeless "a.rs") history)) (by decide)
  obtain ⟨inTurn, clear, edgeless⟩ := of_decide_eq_true allowed
  have held := jobs_in_turn_converge emptiedFile "a.rs" run inTurn
  exact ⟨history, state, run, labels, held.1 clear, held.2 edgeless⟩

/-- The delete runs between the upsert's read and its writes. -/
def deleteOvertakes : List ReindexStep :=
  let read := some ByteArray.empty
  [.dispatch .upsert, .dispatch .delete, .step 0 read, .step 1 none, .step 1 none, .step 0 none,
    .step 0 none, .step 0 none, .step 0 none]

/-- The node of a deleted file stays, and a delete is seen half done. -/
theorem deleted_file_stays :
    (¬ ∀ (treeSitter : TreeSitter) (path : Path) (shard : GraphShard)
      (history : List (ReindexJobs × ReindexStep)) (state : ReindexJobs),
        Run (next treeSitter path) (start shard) history state →
          Throughout (Converged treeSitter path) history state) ∧
      ¬ ∀ (treeSitter : TreeSitter) (path : Path) (shard : GraphShard)
        (history : List (ReindexJobs × ReindexStep)) (state : ReindexJobs),
          Run (next treeSitter path) (start shard) history state →
            Throughout (DeletesWhole path) history state := by
  constructor
  · intro always
    obtain ⟨history, state, run, _, stays⟩ :=
      Run.of_trace (next emptiedFile "a.rs") (start .empty) deleteOvertakes
        (fun _ state => decide ((∀ job ∈ state.jobs, job.phase = .done) ∧
          (∃ job ∈ state.jobs.getLast?, job.kind = .delete) ∧ nodesOf "a.rs" state.shard ≠ []))
        (by decide)
    obtain ⟨finished, ⟨job, last, delete⟩, stays⟩ := of_decide_eq_true stays
    have reflects := (always emptiedFile "a.rs" .empty history state run).2 finished job last
    unfold Reflects at reflects
    rw [delete] at reflects
    exact stays ((sameRows_empty_iff "a.rs" state.shard).mp reflects).1
  · intro always
    let indexed := (Cli.indexFile emptiedFile "a.rs" (some "fn a() {}".toUTF8) .empty).2
    obtain ⟨history, state, run, _, half⟩ :=
      Run.of_trace (next emptiedFile "a.rs") (start indexed)
        [.dispatch .delete, .step 0 none, .step 0 none]
        (fun _ state => state.jobs.any (fun job => match job.phase with
          | .deleting _ seen => decide (nodesOf "a.rs" state.shard ≠ [] ∧
              (edgesAt (seen.qualifiedNamesOf "a.rs") state.shard).length ≠
                (edgesAt (seen.qualifiedNamesOf "a.rs") seen).length)
          | _ => false)) (by decide)
    obtain ⟨job, member, half⟩ := List.any_eq_true.mp half
    split at half
    · next left seen deleting =>
        obtain ⟨some, fewer⟩ := of_decide_eq_true half
        rcases (always emptiedFile "a.rs" indexed history state run).2 job member left seen deleting
          with ⟨_, same⟩ | ⟨none, _⟩
        · exact fewer (congrArg List.length same)
        · exact some none
    · cases half

end ReindexJobs

end Mneme.Supervisor
