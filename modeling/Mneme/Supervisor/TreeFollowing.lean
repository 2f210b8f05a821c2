/-
The watcher at work on a tree that changes under it.

File-system operations change the tree and put the events that a backend
reports into the channel.  The debounce loop merges them by path, and the jobs
of the paths that have become quiet run one after another, each on the tree as
it then is.
-/

import Mneme.Library.Run
import Mneme.Supervisor.FileRows

namespace Mneme.Supervisor

open Common Library Parsers Store Transition

def maxPending : Nat := 10000

/-! ### The debounce loop -/

structure Debouncer where
  pending : Keyed (Prod.fst : Names × ChangeKind → Names)
  /-- History: the paths that found the map full. -/
  dropped : List Names
  /-- It waits for the lock of the statistics, for good. -/
  hung : Bool

namespace Debouncer

def empty : Debouncer :=
  { pending := .empty, dropped := [], hung := false }

/-- One path of an event is merged into the map. -/
def coalesce (kind : ChangeKind) (debouncer : Debouncer) (path : Names) : Debouncer :=
  if maxPending ≤ debouncer.pending.rows.length then
    { debouncer with dropped := debouncer.dropped ++ [path] }
  else
    -- Delete wins over upsert.
    let merged := if (path, .delete) ∈ debouncer.pending.rows then .delete else kind
    { debouncer with pending := debouncer.pending.put (path, merged) }

/-- One event of the channel.  On an ignored path `classify_event` hangs before
any path is merged. -/
def receive (root : Names) (event : FsEvent) (debouncer : Debouncer) : Debouncer :=
  if event.paths.any (fun path => isIgnored path root) then { debouncer with hung := true }
  else (classifyEvent root event).foldl (coalesce (eventKind event)) debouncer

end Debouncer

/-! ### The system -/

/-- What does not change: the parsers, what the build makes of documents and of
ignore files, and where the project lies. -/
structure Project where
  treeSitter : TreeSitter
  registry : Cli.Registry
  builder : IgnoreBuilder
  root : Names

/-- The graph of a fresh build of a tree. -/
def Project.freshBuild (project : Project) (tree : FileTree) : GraphShard :=
  (Cli.buildProject project.treeSitter project.registry project.builder 0 project.root tree
    .empty).2

structure Watch where
  tree : FileTree
  raw : List FsEvent
  debouncer : Debouncer
  index : List (Names × ChangeKind)
  shard : GraphShard
  /-- A job never returns, and so none after it runs. -/
  hung : Bool

inductive WatchStep where
  | operate (operation : Operation) (reported : List FsEvent)
  | receive
  /-- The paths whose quiet time is over, in the order the map yields them. -/
  | tick (ready : List (Names × ChangeKind))
  | reindex

/-- The job comes to lock the statistics. -/
def Reindex.locksStats : Reindex → Bool
  | .ignored | .deleted _ | .upserted _ _ => true
  | .unread | .failed _ => false

/-- What a job reads of a path. -/
def contentAt (root path : Names) (tree : FileTree) : Option ByteArray :=
  tree.read (path.drop root.length)

namespace Watch

variable (project : Project)

def start (tree : FileTree) : Watch :=
  { tree, raw := [], debouncer := .empty, index := [], shard := project.freshBuild tree,
    hung := false }

/-- The job of a path on the tree as it is. -/
def runJob (state : Watch) (path : Names) (kind : ChangeKind) : Reindex × GraphShard :=
  reindexOne project.treeSitter (displayAbsolute path) (contentAt project.root path state.tree) kind
    state.shard

def next (state : Watch) : WatchStep → Option Watch
  | .operate operation reported =>
      -- A recursive watch reports nothing outside the root.
      if ∀ event ∈ reported, ∀ path ∈ event.paths, project.root <+: path then
        (operation.apply state.tree).map (fun tree =>
          { state with tree, raw := state.raw ++ reported })
      else none
  | .receive =>
      match state.raw with
      | [] => none
      | event :: raw =>
          if state.debouncer.hung then none
          else some { state with raw, debouncer := state.debouncer.receive project.root event }
  | .tick ready =>
      if state.debouncer.hung = false ∧ ready.Nodup ∧ ready ⊆ state.debouncer.pending.rows then
        some { state with
          debouncer := { state.debouncer with
            pending := state.debouncer.pending.keep (fun row => row ∉ ready) }
          index := state.index ++ ready }
      else none
  | .reindex =>
      match state.index with
      | [] => none
      | (path, kind) :: index =>
          if state.hung then none
          else
            let (outcome, shard) := state.runJob project path kind
            some { state with
              index, shard
              hung := outcome = .ignored ∨ state.debouncer.hung ∧ outcome.locksStats }

/-! ### What is expected -/

/-- Neither the debounce loop nor the worker has anything more to do, or it
hangs. -/
def Settled (state : Watch) : Prop :=
  (state.debouncer.hung = true ∨ state.raw = [] ∧ state.debouncer.pending.rows = []) ∧
    (state.hung = true ∨ state.index = [])

/-- The files with node rows are those that a fresh build of the tree gives
node rows, and every event has been handled. -/
structure Follows (state : Watch) : Prop where
  files : ∀ path, path ∈ filePaths state.shard ↔ path ∈ filePaths (project.freshBuild state.tree)
  handled : state.raw = [] ∧ state.debouncer.pending.rows = [] ∧ state.index = []
  kept : state.debouncer.dropped = []

/-! ### When it holds -/

/-- The kinds under which the events name a path, in order. -/
def mentions (path : Path) (events : List FsEvent) : List ChangeKind :=
  events.flatMap (fun event =>
    (event.paths.filter (fun named => displayAbsolute named = path)).map (fun _ => eventKind event))

/-- A file that a fresh build gives rows is named, and last not as deleted,
unless it had rows before and is not named at all; one that no longer gets rows
is named as deleted. -/
def Told (before after : FileTree) (reported : List FsEvent) : Prop :=
  (∀ path ∈ filePaths (project.freshBuild after),
    mentions path reported = [] ∧ path ∈ filePaths (project.freshBuild before) ∨
      (mentions path reported).getLast? = some .upsert) ∧
    ∀ path ∈ filePaths (project.freshBuild before), path ∉ filePaths (project.freshBuild after) →
      .delete ∈ mentions path reported

/-- No path is ignored, the map has room, and no change of a file that is there
is merged into a pending delete. -/
def Merges (state : Watch) (event : FsEvent) : Prop :=
  (∀ path ∈ event.paths, isIgnored path project.root = false) ∧
    state.debouncer.pending.rows.length + event.paths.length ≤ maxPending ∧
      (eventKind event = .upsert → ∀ path ∈ event.paths,
        (path, .delete) ∈ state.debouncer.pending.rows →
          displayAbsolute path ∉ filePaths (project.freshBuild state.tree))

/-- The upsert is of a source file in the watcher's eyes, and the watcher can
extract it exactly when a fresh build gives it rows. -/
def Agrees (state : Watch) (path : Names) : Prop :=
  (state.runJob project path .upsert).1 ≠ .ignored ∧
    ((extractedGraph project.treeSitter (displayAbsolute path)
        (contentAt project.root path state.tree)).isSome ↔
      displayAbsolute path ∈ filePaths (project.freshBuild state.tree))

/-- Every event is told, merged and agreed on. -/
def Heard (state : Watch) : WatchStep → Prop
  | .operate operation reported =>
      ∀ after ∈ operation.apply state.tree, Told project state.tree after reported
  | .receive => ∀ event ∈ state.raw.head?, Merges project state event
  | .tick _ => True
  | .reindex => ∀ job ∈ state.index.head?, job.2 = .upsert → Agrees project state job.1

/-- What the backends document: an entry that appears or is written, one that
disappears, and the three events of a rename.  What is reported of a directory
may name entries below it, and need not. -/
def Documented (root : Names) : WatchStep → Prop
  | .operate (.put path _) reported =>
      (∃ event ∈ reported, root ++ path ∈ event.paths) ∧
        ∀ event ∈ reported,
          event.kind ∈ [.create, .modify .other, .modify (.name .to)] ∧
            ∀ named ∈ event.paths, root ++ path <+: named
  | .operate (.remove path) reported =>
      (∃ event ∈ reported, root ++ path ∈ event.paths) ∧
        ∀ event ∈ reported,
          event.kind ∈ [.remove .file, .remove .folder, .remove .any, .modify (.name .from)] ∧
            ∀ named ∈ event.paths, root ++ path <+: named
  | .operate (.rename source target) reported =>
      let moved : FsEvent := { kind := .modify (.name .from), paths := [root ++ source] }
      let arrived : FsEvent := { kind := .modify (.name .to), paths := [root ++ target] }
      let both : FsEvent :=
        { kind := .modify (.name .both), paths := [root ++ source, root ++ target] }
      reported = [moved, arrived, both] ∨ reported = [moved, arrived] ∨ reported = [both]
  | _ => True

end Watch

/-! ### What is promised to one file -/

/-- With these kinds on their way, the file comes to have rows exactly if it is
wanted: the last of them decides for a wanted file, and for any other a delete
among them suffices. -/
def Promised (wanted held : Prop) (kinds : List ChangeKind) : Prop :=
  (wanted → kinds = [] ∧ held ∨ kinds.getLast? = some .upsert) ∧
    (¬ wanted → held → .delete ∈ kinds)

variable {wanted held : Prop}

theorem promised_nil (promised : Promised wanted held []) : held ↔ wanted := by
  constructor
  · intro holds
    by_contra unwanted
    exact List.not_mem_nil (promised.2 unwanted holds)
  · intro wants
    rcases promised.1 wants with ⟨_, holds⟩ | last
    · exact holds
    · cases last

variable {kinds back front : List ChangeKind}

theorem promised_told {before after held : Prop} {reported : List ChangeKind}
    (promised : Promised before held kinds)
    (there : after → reported = [] ∧ before ∨ reported.getLast? = some .upsert)
    (gone : before → ¬ after → .delete ∈ reported) : Promised after held (kinds ++ reported) := by
  constructor
  · intro wanted
    rcases there wanted with ⟨unnamed, was⟩ | last
    · rw [unnamed, List.append_nil]
      exact promised.1 was
    · right
      rw [List.getLast?_append, last]
      rfl
  · intro unwanted holds
    by_cases was : before
    · exact List.mem_append_right kinds (gone was unwanted)
    · exact List.mem_append_left reported (promised.2 was holds)

theorem promised_delete
    (promised : Promised wanted held (.delete :: kinds)) : Promised wanted False kinds := by
  constructor
  · intro wants
    rcases promised.1 wants with ⟨none, _⟩ | last
    · cases none
    · cases kinds with
      | nil => cases last
      | cons kind kinds =>
          rw [List.getLast?_cons_cons] at last
          exact Or.inr last
  · intro _ holds
    exact holds.elim

theorem promised_upsert {wanted held made : Prop}
    (promised : Promised wanted held (.upsert :: kinds)) (agrees : made ↔ wanted) :
    Promised wanted (made ∨ held) kinds := by
  constructor
  · intro wants
    cases kinds with
    | nil => exact Or.inl ⟨rfl, Or.inl (agrees.mpr wants)⟩
    | cons kind kinds =>
        rcases promised.1 wants with ⟨none, _⟩ | last
        · cases none
        · rw [List.getLast?_cons_cons] at last
          exact Or.inr last
  · intro unwanted holds
    have before := promised.2 unwanted (holds.resolve_left (fun made => unwanted (agrees.mp made)))
    rcases List.mem_cons.mp before with first | later
    · cases first
    · exact later

/-- A kind that is merged with the pending one. -/
theorem promised_merge {pending : List ChangeKind}
    {kind : ChangeKind} (promised : Promised wanted held (front ++ pending ++ kind :: back))
    (unmerged : kind = .upsert → .delete ∈ pending → ¬ wanted) :
    Promised wanted held
      (front ++ [if .delete ∈ pending then .delete else kind] ++ back) := by
  constructor
  · intro wants
    right
    rcases promised.1 wants with ⟨none, _⟩ | last
    · exact absurd (List.append_eq_nil_iff.mp none).2 (List.cons_ne_nil _ _)
    · cases back with
      | nil =>
          rw [List.getLast?_concat] at last
          have upsert := Option.some.inj last
          rw [List.append_nil, List.getLast?_concat,
            if_neg (fun merged => unmerged upsert merged wants), upsert]
      | cons next back =>
          rw [List.getLast?_append, List.getLast?_cons_cons] at last
          rw [List.getLast?_append]
          rw [List.getLast?_eq_getLast_of_ne_nil (List.cons_ne_nil next back)] at last ⊢
          exact last
  · intro unwanted holds
    have before := promised.2 unwanted holds
    simp only [List.mem_append, List.mem_cons, List.not_mem_nil, or_false] at before ⊢
    rcases before with (inFront | pended) | own | behind
    · exact Or.inl (Or.inl inFront)
    · rw [if_pos pended]
      exact Or.inl (Or.inr rfl)
    · rw [← own, ite_self]
      exact Or.inl (Or.inr rfl)
    · exact Or.inr behind

/-! ### The kinds on their way to one path -/

def jobsFor (path : Path) (jobs : List (Names × ChangeKind)) : List ChangeKind :=
  (jobs.filter (fun job => displayAbsolute job.1 = path)).map Prod.snd

variable (path : Path)

theorem jobsFor_append (left right : List (Names × ChangeKind)) :
    jobsFor path (left ++ right) = jobsFor path left ++ jobsFor path right := by
  unfold jobsFor
  rw [List.filter_append, List.map_append]

theorem jobsFor_singleton (named : Names) (kind : ChangeKind) :
    jobsFor path [(named, kind)] = if displayAbsolute named = path then [kind] else [] := by
  unfold jobsFor
  rw [List.filter_singleton]
  by_cases same : displayAbsolute named = path
  · rw [if_pos same, decide_eq_true same]
    rfl
  · rw [if_neg same, decide_eq_false same]
    rfl

theorem mem_jobsFor_iff (named : Names) (kind : ChangeKind) (jobs : List (Names × ChangeKind)) :
    kind ∈ jobsFor (displayAbsolute named) jobs ↔ (named, kind) ∈ jobs := by
  unfold jobsFor
  constructor
  · intro member
    obtain ⟨⟨other, held⟩, inside, same⟩ := List.mem_map.mp member
    obtain ⟨there, shown⟩ := List.mem_filter.mp inside
    cases same
    cases displayAbsolute_injective (of_decide_eq_true shown)
    exact there
  · intro member
    exact List.mem_map.mpr ⟨_, List.mem_filter.mpr ⟨member, decide_eq_true rfl⟩, rfl⟩

/-- A path has at most one entry in a map. -/
theorem jobsFor_length_le (table : Keyed (Prod.fst : Names × ChangeKind → Names)) :
    (jobsFor path table.rows).length ≤ 1 := by
  unfold jobsFor
  rw [List.length_map]
  have unique : ((table.rows.filter (fun job => displayAbsolute job.1 = path)).map Prod.fst).Nodup :=
    table.unique.sublist (List.filter_sublist.map Prod.fst)
  generalize held : table.rows.filter (fun job => displayAbsolute job.1 = path) = jobs at unique ⊢
  have shown : ∀ job ∈ jobs, displayAbsolute job.1 = path := by
    intro job member
    rw [← held] at member
    exact of_decide_eq_true (List.mem_filter.mp member).2
  match jobs, unique, shown with
  | [], _, _ => exact Nat.zero_le 1
  | [_], _, _ => exact Nat.le_refl 1
  | first :: second :: _, unique, shown =>
      have same : first.1 = second.1 := displayAbsolute_injective
        ((shown first List.mem_cons_self).trans
          (shown second (List.mem_cons_of_mem _ List.mem_cons_self)).symm)
      exact absurd (same ▸ List.mem_cons_self) (List.nodup_cons.mp unique).1

theorem jobsFor_coalesce (kind : ChangeKind) (named : Names) (debouncer : Debouncer)
    (room : debouncer.pending.rows.length < maxPending) :
    jobsFor path (debouncer.coalesce kind named).pending.rows =
      if displayAbsolute named = path then
        [if .delete ∈ jobsFor path debouncer.pending.rows then .delete else kind]
      else jobsFor path debouncer.pending.rows := by
  unfold Debouncer.coalesce
  rw [if_neg (Nat.not_le.mpr room)]
  change jobsFor path (debouncer.pending.rows.filter (fun old => old.1 ≠ named) ++ [_]) = _
  rw [jobsFor_append, jobsFor_singleton]
  by_cases same : displayAbsolute named = path
  · have others : jobsFor path (debouncer.pending.rows.filter (fun old => old.1 ≠ named)) = [] := by
      unfold jobsFor
      rw [List.filter_filter, List.map_eq_nil_iff, List.filter_eq_nil_iff]
      intro old _ both
      obtain ⟨shown, different⟩ := (Bool.and_eq_true _ _).mp both
      exact of_decide_eq_true different
        (displayAbsolute_injective ((of_decide_eq_true shown).trans same.symm))
    subst same
    rw [others, if_pos rfl, if_pos rfl, List.nil_append]
    simp only [mem_jobsFor_iff]
  · have others : jobsFor path (debouncer.pending.rows.filter (fun old => old.1 ≠ named)) =
        jobsFor path debouncer.pending.rows := by
      unfold jobsFor
      rw [List.filter_filter]
      congr 1
      apply List.filter_congr
      intro old _
      by_cases shown : displayAbsolute old.1 = path
      · have different : old.1 ≠ named := fun equal => same (equal ▸ shown)
        rw [decide_eq_true shown, decide_eq_true different]
        rfl
      · rw [decide_eq_false shown]
        rfl
    rw [others, if_neg same, if_neg same, List.append_nil]

theorem coalesce_length_le (kind : ChangeKind) (named : Names) (debouncer : Debouncer) :
    (debouncer.coalesce kind named).pending.rows.length ≤ debouncer.pending.rows.length + 1 := by
  unfold Debouncer.coalesce
  split
  · exact Nat.le_succ _
  · change (debouncer.pending.rows.filter (fun old : Names × ChangeKind => old.1 ≠ named) ++
      [_]).length ≤ _
    have fewer := List.length_filter_le (fun old : Names × ChangeKind => old.1 ≠ named)
      debouncer.pending.rows
    rw [List.length_append, List.length_singleton]
    omega

variable {debouncer : Debouncer}

/-- An upsert brings no delete into the map. -/
theorem mem_of_coalesce_upsert {named other : Names}
    (member : (other, .delete) ∈ (debouncer.coalesce .upsert named).pending.rows) :
    (other, .delete) ∈ debouncer.pending.rows := by
  unfold Debouncer.coalesce at member
  split at member
  · exact member
  · rcases List.mem_append.mp member with kept | last
    · exact (List.mem_filter.mp kept).1
    · obtain ⟨same, merged⟩ := Prod.mk.inj (List.mem_singleton.mp last)
      subst same
      split at merged
      · next held => exact held
      · cases merged

/-- The paths of one event, merged one after another. -/
theorem promised_coalesce {wanted : List Path} {path : Path} {held : Prop} {kind : ChangeKind}
    {paths : List Names} (room : debouncer.pending.rows.length + paths.length ≤ maxPending)
    (unmerged : kind = .upsert → ∀ named ∈ paths, (named, .delete) ∈ debouncer.pending.rows →
      displayAbsolute named ∉ wanted)
    (promised : Promised (path ∈ wanted) held (front ++ jobsFor path debouncer.pending.rows ++
      ((paths.filter (fun named => displayAbsolute named = path)).map (fun _ => kind) ++ back))) :
    Promised (path ∈ wanted) held
      (front ++ jobsFor path (paths.foldl (Debouncer.coalesce kind) debouncer).pending.rows ++ back) := by
  induction paths generalizing debouncer with
  | nil => exact promised
  | cons named paths ih =>
      rw [List.length_cons] at room
      have shorter := coalesce_length_le kind named debouncer
      have later : kind = .upsert → ∀ other ∈ paths,
          (other, .delete) ∈ (debouncer.coalesce kind named).pending.rows →
            displayAbsolute other ∉ wanted := by
        intro upsert other member merged
        subst upsert
        exact unmerged rfl other (List.mem_cons_of_mem _ member) (mem_of_coalesce_upsert merged)
      refine ih (by omega) later ?_
      rw [jobsFor_coalesce path kind named debouncer (by omega)]
      by_cases same : displayAbsolute named = path
      · rw [List.filter_cons, if_pos (decide_eq_true same)] at promised
        rw [if_pos same]
        refine promised_merge promised (fun upsert merged => ?_)
        rw [← same] at merged ⊢
        exact unmerged upsert named List.mem_cons_self ((mem_jobsFor_iff named .delete _).mp merged)
      · have skipped : ¬ decide (displayAbsolute named = path) = true :=
          fun shown => same (of_decide_eq_true shown)
        rw [List.filter_cons, if_neg skipped] at promised
        rw [if_neg same]
        exact promised

/-- A tick moves the kinds of a path and leaves their order. -/
theorem jobsFor_tick {table : Keyed (Prod.fst : Names × ChangeKind → Names)}
    {ready : List (Names × ChangeKind)} (once : ready.Nodup) (inside : ready ⊆ table.rows)
    (path : Path) :
    jobsFor path ready ++ jobsFor path (table.keep (fun row => row ∉ ready)).rows =
      jobsFor path table.rows := by
  have perm : (ready ++ table.rows.filter (fun row => row ∉ ready)).Perm table.rows := by
    have unique : table.rows.Nodup := List.Nodup.of_map _ table.unique
    refine (List.perm_ext_iff_of_nodup ?_ unique).mpr (fun row => ?_)
    · refine List.nodup_append.mpr ⟨once, unique.filter _, ?_⟩
      intro first member second kept same
      subst same
      exact of_decide_eq_true (List.mem_filter.mp kept).2 member
    · rw [List.mem_append, List.mem_filter, decide_eq_true_eq]
      constructor
      · intro either
        exact either.elim (fun member => inside member) And.left
      · intro member
        by_cases chosen : row ∈ ready
        · exact Or.inl chosen
        · exact Or.inr ⟨member, chosen⟩
  have perms : (jobsFor path (ready ++ table.rows.filter (fun row => row ∉ ready))).Perm
      (jobsFor path table.rows) := (perm.filter _).map _
  rw [jobsFor_append] at perms
  have short := jobsFor_length_le path table
  generalize jobsFor path table.rows = whole at perms short
  match whole, short with
  | [], _ => exact List.perm_nil.mp perms
  | [kind], _ => exact List.perm_singleton.mp perms

theorem mentions_append (left right : List FsEvent) :
    Watch.mentions path (left ++ right) = Watch.mentions path left ++ Watch.mentions path right :=
  List.flatMap_append

namespace Debouncer

theorem coalesce_eq (kind : ChangeKind) (named : Names) {debouncer : Debouncer}
    (room : debouncer.pending.rows.length < maxPending) :
    (debouncer.coalesce kind named).dropped = debouncer.dropped ∧
      (debouncer.coalesce kind named).hung = debouncer.hung := by
  unfold coalesce
  rw [if_neg (Nat.not_le.mpr room)]
  exact ⟨rfl, rfl⟩

theorem foldl_coalesce_eq (kind : ChangeKind) {paths : List Names} {debouncer : Debouncer}
    (room : debouncer.pending.rows.length + paths.length ≤ maxPending) :
    (paths.foldl (coalesce kind) debouncer).dropped = debouncer.dropped ∧
      (paths.foldl (coalesce kind) debouncer).hung = debouncer.hung := by
  induction paths generalizing debouncer with
  | nil => exact ⟨rfl, rfl⟩
  | cons named paths ih =>
      rw [List.length_cons] at room
      have shorter := coalesce_length_le kind named debouncer
      obtain ⟨dropped, hung⟩ := @ih (debouncer.coalesce kind named) (by omega)
      obtain ⟨same, still⟩ := @coalesce_eq kind named debouncer (by omega)
      exact ⟨dropped.trans same, hung.trans still⟩

theorem receive_eq {root : Names} {event : FsEvent}
    (known : ∀ path ∈ event.paths, isIgnored path root = false) (debouncer : Debouncer) :
    debouncer.receive root event = event.paths.foldl (coalesce (eventKind event)) debouncer := by
  unfold receive
  have none : ¬ event.paths.any (fun path => isIgnored path root) = true := by
    intro some
    obtain ⟨path, member, ignored⟩ := List.any_eq_true.mp some
    rw [known path member] at ignored
    cases ignored
  have all : classifyEvent root event = event.paths := by
    unfold classifyEvent
    rw [List.filter_eq_self]
    intro path member
    rw [known path member]
    rfl
  rw [if_neg none, all]

end Debouncer

namespace Watch

variable {project : Project}

def inFlight (path : Path) (state : Watch) : List ChangeKind :=
  jobsFor path state.index ++ jobsFor path state.debouncer.pending.rows ++
    mentions path state.raw

/-- The invariant of the runs in which every event is heard. -/
structure InStep (project : Project) (state : Watch) : Prop where
  alive : state.debouncer.hung = false ∧ state.hung = false
  kept : state.debouncer.dropped = []
  owned : RowsOwned state.shard
  promised : ∀ path, Promised (path ∈ filePaths (project.freshBuild state.tree))
    (path ∈ filePaths state.shard) (inFlight path state)

theorem inStep_start (project : Project) (tree : FileTree) : InStep project (start project tree) where
  alive := ⟨rfl, rfl⟩
  kept := rfl
  owned := rowsOwned_runInline _ _ _
  promised := fun _ => ⟨fun wanted => Or.inl ⟨rfl, wanted⟩, fun unwanted held => absurd held unwanted⟩

variable {state : Watch}

theorem inStep_operate (inStep : InStep project state)
    {reported : List FsEvent} {after : FileTree} (told : Told project state.tree after reported) :
    InStep project { state with tree := after, raw := state.raw ++ reported } where
  alive := inStep.alive
  kept := inStep.kept
  owned := inStep.owned
  promised := by
    intro path
    unfold inFlight
    rw [mentions_append, ← List.append_assoc]
    exact promised_told (inStep.promised path) (told.1 path) (told.2 path)

theorem inStep_receive (inStep : InStep project state) {event : FsEvent}
    {raw : List FsEvent} (first : state.raw = event :: raw) (merges : Merges project state event) :
    InStep project { state with
      raw, debouncer := state.debouncer.receive project.root event } := by
  obtain ⟨known, room, unmerged⟩ := merges
  obtain ⟨dropped, hung⟩ := Debouncer.foldl_coalesce_eq (eventKind event) room
  rw [Debouncer.receive_eq known]
  refine ⟨⟨hung.trans inStep.alive.1, inStep.alive.2⟩, dropped.trans inStep.kept, inStep.owned, ?_⟩
  intro path
  have before := inStep.promised path
  unfold inFlight at before ⊢
  rw [first] at before
  exact promised_coalesce room unmerged before

theorem inStep_tick (inStep : InStep project state)
    {ready : List (Names × ChangeKind)} (once : ready.Nodup)
    (inside : ready ⊆ state.debouncer.pending.rows) :
    InStep project { state with
      debouncer := { state.debouncer with
        pending := state.debouncer.pending.keep (fun row => row ∉ ready) }
      index := state.index ++ ready } where
  alive := inStep.alive
  kept := inStep.kept
  owned := inStep.owned
  promised := by
    intro path
    have before := inStep.promised path
    unfold inFlight at before ⊢
    dsimp only
    rw [jobsFor_append, List.append_assoc (jobsFor path state.index), jobsFor_tick once inside]
    exact before

theorem inStep_reindex (inStep : InStep project state) {named : Names}
    {kind : ChangeKind} {index : List (Names × ChangeKind)}
    (first : state.index = (named, kind) :: index)
    (agrees : kind = .upsert → Agrees project state named) :
    InStep project { state with
      index
      shard := (state.runJob project named kind).2
      hung := (state.runJob project named kind).1 = .ignored ∨
        state.debouncer.hung ∧ (state.runJob project named kind).1.locksStats } where
  alive := by
    refine ⟨inStep.alive.1, decide_eq_false ?_⟩
    rw [inStep.alive.1]
    rintro (ignored | ⟨hung, _⟩)
    · cases kind with
      | delete => cases ignored
      | upsert => exact (agrees rfl).1 ignored
    · cases hung
  kept := inStep.kept
  owned := rowsOwned_reindexOne _ _ _ kind inStep.owned
  promised := by
    intro path
    have before := inStep.promised path
    unfold inFlight at before ⊢
    rw [first, ← List.singleton_append, jobsFor_append, jobsFor_singleton] at before
    dsimp only
    unfold runJob
    rw [mem_filePaths_reindexOne _ _ _ kind inStep.owned path]
    by_cases same : displayAbsolute named = path
    · rw [if_pos same] at before
      rw [if_pos same.symm]
      subst same
      cases kind with
      | delete => exact promised_delete before
      | upsert => exact promised_upsert before (agrees rfl).2
    · rw [if_neg same] at before
      rw [if_neg (Ne.symm same)]
      exact before

theorem inStep_next {state after : Watch} {label : WatchStep} (inStep : InStep project state)
    (heard : Heard project state label) (taken : next project state label = some after) :
    InStep project after := by
  cases label with
  | operate operation reported =>
      unfold next at taken
      dsimp only at taken
      split at taken
      · obtain ⟨tree, applied, built⟩ := Option.map_eq_some_iff.mp taken
        subst built
        exact inStep_operate inStep (heard tree applied)
      · cases taken
  | receive =>
      unfold next at taken
      dsimp only at taken
      split at taken
      · cases taken
      · next event raw first =>
          rw [if_neg (Bool.eq_false_iff.mp inStep.alive.1)] at taken
          cases taken
          refine inStep_receive inStep first (heard event ?_)
          rw [first]
          rfl
  | tick ready =>
      unfold next at taken
      dsimp only at taken
      split at taken
      · next allowed =>
          cases taken
          exact inStep_tick inStep allowed.2.1 allowed.2.2
      · cases taken
  | reindex =>
      unfold next at taken
      dsimp only at taken
      split at taken
      · cases taken
      · next named kind index first =>
          rw [if_neg (Bool.eq_false_iff.mp inStep.alive.2)] at taken
          cases taken
          refine inStep_reindex inStep first (heard (named, kind) ?_)
          rw [first]
          rfl

/-- With nothing on its way, every promise has been kept. -/
theorem follows_of_inStep (inStep : InStep project state)
    (settled : Settled state) : Follows project state := by
  have channel : state.raw = [] ∧ state.debouncer.pending.rows = [] :=
    settled.1.resolve_left (Bool.eq_false_iff.mp inStep.alive.1)
  have queue : state.index = [] := settled.2.resolve_left (Bool.eq_false_iff.mp inStep.alive.2)
  refine ⟨fun path => ?_, ⟨channel.1, channel.2, queue⟩, inStep.kept⟩
  have promised := inStep.promised path
  unfold inFlight at promised
  rw [channel.1, channel.2, queue] at promised
  exact promised_nil promised

theorem watcher_follows (tree : FileTree) {history : List (Watch × WatchStep)} {final : Watch}
    (run : Run (next project) (start project tree) history final)
    (heard : Respects (Heard project) history) :
    Throughout (fun state => Settled state → Follows project state) history final := by
  have inStep := run.throughout_of_respects (inStep_start project tree)
    (fun _ _ _ held allowed taken => inStep_next held allowed taken) heard
  exact ⟨fun taken member => follows_of_inStep (inStep.1 taken member),
    follows_of_inStep inStep.2⟩

/-! ### Concrete runs -/

instance (before after : FileTree) (reported : List FsEvent) :
    Decidable (Told project before after reported) :=
  inferInstanceAs (Decidable ((∀ path ∈ filePaths (project.freshBuild after), _ ∨ _) ∧
    ∀ path ∈ filePaths (project.freshBuild before), _ ∉ _ → _))

instance (state : Watch) (event : FsEvent) : Decidable (Merges project state event) :=
  inferInstanceAs (Decidable ((∀ path ∈ event.paths, _ = _) ∧ _ ∧
    (eventKind event = .upsert → ∀ path ∈ event.paths, _ → _ ∉ _)))

instance (state : Watch) (path : Names) : Decidable (Agrees project state path) :=
  inferInstanceAs (Decidable (_ ∧ (_ ↔ _)))

instance (state : Watch) (label : WatchStep) : Decidable (Heard project state label) :=
  match label with
  | .operate operation reported => inferInstanceAs (Decidable
      (∀ after ∈ operation.apply state.tree, Told project state.tree after reported))
  | .receive => inferInstanceAs (Decidable (∀ event ∈ state.raw.head?, _))
  | .tick _ => isTrue trivial
  | .reindex => inferInstanceAs (Decidable
      (∀ job ∈ state.index.head?, job.2 = .upsert → Agrees project state job.1))

instance (state : Watch) : Decidable (Settled state) :=
  inferInstanceAs (Decidable ((_ ∨ _ ∧ _) ∧ (_ ∨ _)))

theorem normal_p : NormalName "p" := by decide
theorem normal_src : NormalName "src" := by decide
theorem normal_lib : NormalName "lib" := by decide
theorem normal_a : NormalName "a.rs" := by decide
theorem normal_b : NormalName "b.rs" := by decide
theorem normal_c : NormalName "c.rs" := by decide

def projectName : FileName := ⟨"p", normal_p⟩
def srcName : FileName := ⟨"src", normal_src⟩
def libName : FileName := ⟨"lib", normal_lib⟩
def firstName : FileName := ⟨"a.rs", normal_a⟩
def secondName : FileName := ⟨"b.rs", normal_b⟩
def thirdName : FileName := ⟨"c.rs", normal_c⟩

/-- A project at `/p` without documents and ignore files. -/
def rustProject : Project :=
  { treeSitter := emptiedFile, registry := [], builder := fun _ => none, root := [projectName] }

def emptyFile : FileTree := .file (some ByteArray.empty)

/-- The three events of a rename. -/
def renameEvents (source target : Names) : List FsEvent :=
  [{ kind := .modify (.name .from), paths := [source] },
    { kind := .modify (.name .to), paths := [target] },
    { kind := .modify (.name .both), paths := [source, target] }]

/-- `b.rs` is made, then `a.rs` is renamed to `c.rs`. -/
def makeThenRename : List WatchStep :=
  let first := [projectName, firstName]
  let second := [projectName, secondName]
  let third := [projectName, thirdName]
  [.operate (.put [secondName] emptyFile) [{ kind := .create, paths := [second] }], .receive,
    .tick [(second, .upsert)], .reindex,
    .operate (.rename [firstName] [thirdName]) (renameEvents first third), .receive, .receive,
    .receive, .tick [(first, .delete), (third, .upsert)], .reindex, .reindex]

theorem make_then_rename_follows : ∃ history final,
    Run (next rustProject) (start rustProject (.dir (.cons firstName emptyFile .nil))) history
        final ∧
      history.map Prod.snd = makeThenRename ∧
        Throughout (fun state => Settled state → Follows rustProject state) history final ∧
          Settled final := by
  obtain ⟨history, final, run, labels, tested⟩ :=
    Run.of_trace (next rustProject) (start rustProject (.dir (.cons firstName emptyFile .nil)))
      makeThenRename
      (fun history final => decide (Respects (Heard rustProject) history ∧ Settled final))
      (by decide +kernel)
  obtain ⟨heard, settled⟩ := of_decide_eq_true tested
  exact ⟨history, final, run, labels, watcher_follows _ run heard, settled⟩

/-- `src` is renamed to `lib`. -/
def renameDirectory : List WatchStep :=
  let source := [projectName, srcName]
  let target := [projectName, libName]
  [.operate (.rename [srcName] [libName]) (renameEvents source target), .receive, .receive,
    .receive, .tick [(source, .delete), (target, .upsert)], .reindex, .reindex]

theorem renamed_directory_stays :
    ¬ ∀ (project : Project) (tree : FileTree) (history : List (Watch × WatchStep)) (final : Watch),
      Run (next project) (start project tree) history final →
        Respects (fun _ label => Documented project.root label) history →
          Settled final → Follows project final := by
  intro always
  let tree : FileTree := .dir (.cons srcName (.dir (.cons firstName emptyFile .nil)) .nil)
  obtain ⟨history, final, run, labels, tested⟩ :=
    Run.of_trace (next rustProject) (start rustProject tree) renameDirectory
      (fun _ final => decide (Settled final ∧ "/p/src/a.rs" ∈ filePaths final.shard ∧
        "/p/src/a.rs" ∉ filePaths (rustProject.freshBuild final.tree))) (by decide +kernel)
  obtain ⟨settled, stays, gone⟩ := of_decide_eq_true tested
  have documented : Respects (fun _ label => Documented rustProject.root label) history := by
    intro taken member
    have among : taken.2 ∈ renameDirectory := labels ▸ List.mem_map_of_mem member
    have all : ∀ label ∈ renameDirectory, Documented rustProject.root label := by
      intro label listed
      simp only [renameDirectory, List.mem_cons, List.not_mem_nil, or_false] at listed
      rcases listed with rfl | rfl | rfl | rfl | rfl | rfl | rfl
      · exact Or.inl rfl
      all_goals exact trivial
    exact all taken.2 among
  exact gone (((always rustProject tree history final run documented settled).files _).mp stays)

end Watch

end Mneme.Supervisor
