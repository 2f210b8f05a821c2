/-
Runs of a guarded transition function, and sequences of operations cut off by a crash.

A run records every step it takes as the pair of the state before the step and
the label of the step, so a condition on the steps taken and a property of the
states passed through can be stated about one and the same run.  Each rule
below turns a fact about one step into the fact about whole runs.
-/

import Mathlib.Data.List.Basic

namespace Transition

variable {State Label : Type}

/-- The runs of `next` from `initial`. -/
inductive Run (next : State → Label → Option State) (initial : State) :
    List (State × Label) → State → Prop
  | start : Run next initial [] initial
  | step {history : List (State × Label)} {state after : State} {label : Label} :
      Run next initial history state →
      next state label = some after →
      Run next initial (history ++ [(state, label)]) after

def Reachable (next : State → Label → Option State) (initial state : State) : Prop :=
  ∃ history, Run next initial history state

/-- Every state of the run, its last one included, satisfies `good`. -/
def Throughout (good : State → Prop) (history : List (State × Label)) (final : State) : Prop :=
  (∀ taken, taken ∈ history → good taken.1) ∧ good final

/-- Every step of the run was taken where `allowed` holds. -/
def Respects (allowed : State → Label → Prop) (history : List (State × Label)) : Prop :=
  ∀ taken, taken ∈ history → allowed taken.1 taken.2

instance (allowed : State → Label → Prop) [∀ state label, Decidable (allowed state label)]
    (history : List (State × Label)) : Decidable (Respects allowed history) :=
  inferInstanceAs (Decidable (∀ taken, taken ∈ history → allowed taken.1 taken.2))

theorem respects_append_iff (allowed : State → Label → Prop)
    (history : List (State × Label)) (state : State) (label : Label) :
    Respects allowed (history ++ [(state, label)]) ↔
      Respects allowed history ∧ allowed state label := by
  constructor
  · intro respected
    constructor
    · intro taken member
      exact respected taken (List.mem_append_left _ member)
    · exact respected (state, label) (List.mem_append_right _ (List.mem_singleton_self _))
  · intro both taken member
    rcases List.mem_append.mp member with earlier | last
    · exact both.1 taken earlier
    · rw [List.mem_singleton] at last
      subst last
      exact both.2

theorem throughout_append_iff (good : State → Prop)
    (history : List (State × Label)) (state after : State) (label : Label) :
    Throughout good (history ++ [(state, label)]) after ↔
      Throughout good history state ∧ good after := by
  constructor
  · intro held
    refine ⟨⟨?_, ?_⟩, held.2⟩
    · intro taken member
      exact held.1 taken (List.mem_append_left _ member)
    · exact held.1 (state, label) (List.mem_append_right _ (List.mem_singleton_self _))
  · intro both
    refine ⟨?_, both.2⟩
    intro taken member
    rcases List.mem_append.mp member with earlier | last
    · exact both.1.1 taken earlier
    · rw [List.mem_singleton] at last
      subst last
      exact both.1.2

/-- Running a list of labels, used to exhibit concrete runs. -/
def execute (next : State → Label → Option State) (state : State) :
    List Label → Option (List (State × Label) × State)
  | [] => some ([], state)
  | label :: rest =>
      match next state label with
      | none => none
      | some after => (execute next after rest).map (fun done => ((state, label) :: done.1, done.2))

section Rules

variable {next : State → Label → Option State} {initial : State}

theorem Run.prepend {state after final : State} {label : Label}
    {history : List (State × Label)} (taken : next state label = some after)
    (run : Run next after history final) : Run next state ((state, label) :: history) final := by
  induction run with
  | start => exact Run.start.step taken
  | step _ later ih => exact ih.step later

theorem Run.append {between final : State} {history more : List (State × Label)}
    (first : Run next initial history between) (second : Run next between more final) :
    Run next initial (history ++ more) final := by
  induction second with
  | start =>
      rw [List.append_nil]
      exact first
  | step _ taken ih =>
      rw [← List.append_assoc]
      exact ih.step taken

theorem Run.of_execute {labels : List Label} {history : List (State × Label)} {final : State}
    (executed : execute next initial labels = some (history, final)) :
    Run next initial history final := by
  induction labels generalizing initial history final with
  | nil =>
      simp only [execute, Option.some.injEq, Prod.mk.injEq] at executed
      obtain ⟨rfl, rfl⟩ := executed
      exact Run.start
  | cons label rest ih =>
      unfold execute at executed
      cases taken : next initial label with
      | none =>
          rw [taken] at executed
          cases executed
      | some after =>
          rw [taken] at executed
          obtain ⟨done, ran, same⟩ := Option.map_eq_some_iff.mp executed
          cases same
          exact Run.prepend taken (ih ran)

theorem execute_labels {labels : List Label} {history : List (State × Label)} {final : State}
    (executed : execute next initial labels = some (history, final)) :
    history.map Prod.snd = labels := by
  induction labels generalizing initial history final with
  | nil =>
      simp only [execute, Option.some.injEq, Prod.mk.injEq] at executed
      rw [← executed.1]
      rfl
  | cons label rest ih =>
      unfold execute at executed
      cases taken : next initial label with
      | none =>
          rw [taken] at executed
          cases executed
      | some after =>
          rw [taken] at executed
          obtain ⟨done, ran, same⟩ := Option.map_eq_some_iff.mp executed
          cases same
          rw [List.map_cons, ih ran]

/-- A trace that runs to the end and passes a test there is a run. -/
theorem Run.of_trace (next : State → Label → Option State) (initial : State)
    (labels : List Label) (test : List (State × Label) → State → Bool)
    (passed : (execute next initial labels).any (fun done => test done.1 done.2) = true) :
    ∃ history final, Run next initial history final ∧
      history.map Prod.snd = labels ∧ test history final = true := by
  obtain ⟨⟨history, final⟩, executed, tested⟩ := (Option.any_eq_true _ _).mp passed
  exact ⟨history, final, Run.of_execute executed, execute_labels executed, tested⟩

theorem Reachable.refl : Reachable next initial initial :=
  ⟨[], Run.start⟩

theorem Reachable.step {state after : State} {label : Label}
    (reachable : Reachable next initial state) (taken : next state label = some after) :
    Reachable next initial after := by
  obtain ⟨history, run⟩ := reachable
  exact ⟨_, run.step taken⟩

variable {holds : State → Prop}

/-- The invariant rule: what holds initially and survives every step holds in
every reachable state. -/
theorem Reachable.invariant (start : holds initial)
    (preserved : ∀ state label after, holds state → next state label = some after → holds after)
    {state : State} (reachable : Reachable next initial state) : holds state := by
  obtain ⟨history, run⟩ := reachable
  induction run with
  | start => exact start
  | step _ taken ih => exact preserved _ _ _ ih taken

/-- The conditional invariant rule: only the steps of this run need to
preserve the invariant. -/
theorem Run.throughout_of_respects {allowed : State → Label → Prop} (start : holds initial)
    (preserved : ∀ state label after, holds state → allowed state label →
      next state label = some after → holds after) {history : List (State × Label)} {final : State}
    (run : Run next initial history final) (respected : Respects allowed history) :
    Throughout holds history final := by
  induction run with
  | start => exact ⟨fun taken member => absurd member List.not_mem_nil, start⟩
  | @step history state after label _ taken ih =>
      obtain ⟨before, allowedHere⟩ := (respects_append_iff _ _ _ _).mp respected
      have held := ih before
      exact (throughout_append_iff _ _ _ _ _).mpr
        ⟨held, preserved state label after held.2 allowedHere taken⟩

/-- The exactness rule: when a step outside `allowed` always leaves `good`, a
run stays within `good` exactly when all of its steps are allowed. -/
theorem Run.throughout_iff_respects {holds good : State → Prop} {allowed : State → Label → Prop}
    (start : holds initial) (enough : ∀ state, holds state → good state)
    (preserved : ∀ state label after, holds state → allowed state label →
      next state label = some after → holds after)
    (necessary : ∀ state label after, holds state → next state label = some after →
      good after → allowed state label) {history : List (State × Label)} {final : State}
    (run : Run next initial history final) :
    Throughout good history final ↔ Respects allowed history := by
  constructor
  · intro held
    have both : Respects allowed history ∧ holds final := by
      induction run with
      | start => exact ⟨fun taken member => absurd member List.not_mem_nil, start⟩
      | @step history state after label _ taken ih =>
          obtain ⟨before, goodAfter⟩ := (throughout_append_iff _ _ _ _ _).mp held
          obtain ⟨respected, holdsHere⟩ := ih before
          have allowedHere := necessary state label after holdsHere taken goodAfter
          exact ⟨(respects_append_iff _ _ _ _).mpr ⟨respected, allowedHere⟩,
            preserved state label after holdsHere allowedHere taken⟩
    exact both.1
  · intro respected
    have held := run.throughout_of_respects start preserved respected
    exact ⟨fun taken member => enough _ (held.1 taken member), enough _ held.2⟩

/-- The conservation rule: a weight that no step raises, and that exactly the
allowed steps keep, ends where it started exactly when every step was allowed. -/
theorem Run.weight_eq_iff_respects {weight : State → Nat} {allowed : State → Label → Prop}
    (start : holds initial)
    (preserved : ∀ state label after, holds state → next state label = some after → holds after)
    (bounded : ∀ state label after, holds state → next state label = some after →
      weight after ≤ weight state)
    (kept : ∀ state label after, holds state → next state label = some after →
      (weight after = weight state ↔ allowed state label))
    {history : List (State × Label)} {final : State} (run : Run next initial history final) :
    weight final ≤ weight initial ∧
      (weight final = weight initial ↔ Respects allowed history) := by
  have all : holds final ∧ weight final ≤ weight initial ∧
      (weight final = weight initial ↔ Respects allowed history) := by
    induction run with
    | start =>
        refine ⟨start, Nat.le_refl _, ?_⟩
        exact iff_of_true rfl (fun taken member => absurd member List.not_mem_nil)
    | @step history state after label _ taken ih =>
        obtain ⟨holdsHere, below, both⟩ := ih
        have lower := bounded state label after holdsHere taken
        have same := kept state label after holdsHere taken
        refine ⟨preserved state label after holdsHere taken, Nat.le_trans lower below, ?_⟩
        rw [respects_append_iff, ← both, ← same]
        omega
  exact all.2

/-- The conservation rule for tagged items: when a step loses some items and
keeps every other one, the items of each tag that counts are all there at the
end exactly when no step lost one. -/
theorem Run.count_eq_iff_respects {Tag : Type} [BEq Tag] [LawfulBEq Tag]
    {tags : State → List Tag} {lost : State → Label → List Tag} {counts : Tag → Prop}
    (conserved : ∀ state label after, next state label = some after →
      ∀ tag, counts tag →
        (tags after).count tag + (lost state label).count tag = (tags state).count tag)
    {history : List (State × Label)} {final : State} (run : Run next initial history final) :
    (∀ tag, counts tag → (tags final).count tag = (tags initial).count tag) ↔
      Respects (fun state label => ∀ tag, counts tag → tag ∉ lost state label) history := by
  have each : ∀ tag, counts tag →
      ((tags final).count tag = (tags initial).count tag ↔
        Respects (fun state label => tag ∉ lost state label) history) := by
    intro tag counted
    have bounded : ∀ state label after, True → next state label = some after →
        (tags after).count tag ≤ (tags state).count tag := by
      intro state label after _ taken
      have sum := conserved state label after taken tag counted
      omega
    have kept : ∀ state label after, True → next state label = some after →
        ((tags after).count tag = (tags state).count tag ↔ tag ∉ lost state label) := by
      intro state label after _ taken
      have sum := conserved state label after taken tag counted
      rw [← List.count_eq_zero]
      omega
    have weighed := @Run.weight_eq_iff_respects State Label next initial (fun _ => True)
      (fun state => (tags state).count tag) (fun state label => tag ∉ lost state label)
      trivial (fun _ _ _ _ _ => trivial) bounded kept history final run
    exact weighed.2
  constructor
  · intro same taken member tag counted
    exact (each tag counted).mp (same tag counted) taken member
  · intro respected tag counted
    exact (each tag counted).mpr (fun taken member => respected taken member tag counted)

/-- The simulation rule: a step of the concrete system that the abstract one
answers with one step or with none keeps the abstract state reachable. -/
theorem Reachable.simulate {Concrete Action : Type}
    {step : Concrete → Action → Option Concrete} {origin : Concrete}
    (abstraction : Concrete → State) (start : abstraction origin = initial)
    (simulated : ∀ concrete action after, step concrete action = some after →
      abstraction after = abstraction concrete ∨
        ∃ label, next (abstraction concrete) label = some (abstraction after))
    {concrete : Concrete} (reachable : Reachable step origin concrete) :
    Reachable next initial (abstraction concrete) := by
  obtain ⟨history, run⟩ := reachable
  induction run with
  | start =>
      rw [start]
      exact Reachable.refl
  | @step history state after action _ taken ih =>
      rcases simulated state action after taken with silent | ⟨label, answered⟩
      · rw [silent]
        exact ih
      · exact ih.step answered

end Rules

end Transition

namespace Mneme.Library

variable {State Operation : Type}

/-- The state that is found after a crash behind so many operations. -/
def afterCrash (perform : State → Operation → State) (operations : List Operation)
    (start : State) (count : Nat) : State :=
  (operations.take count).foldl perform start

/-- Before the last operation nothing is seen of it. -/
theorem afterCrash_append (perform : State → Operation → State) (earlier later : List Operation)
    (start : State) {count : Nat} (before : count ≤ earlier.length) :
    afterCrash perform (earlier ++ later) start count = afterCrash perform earlier start count := by
  unfold afterCrash
  rw [List.take_append_of_le_length before]

/-- The frame rule: what no operation changes is the same at every crash. -/
theorem afterCrash_frame {View : Type} {perform : State → Operation → State}
    {operations : List Operation} (view : State → View)
    (kept : ∀ operation ∈ operations, ∀ state, view (perform state operation) = view state)
    (start : State) (count : Nat) :
    view (afterCrash perform operations start count) = view start := by
  unfold afterCrash
  induction operations generalizing start count with
  | nil => rw [List.take_nil, List.foldl_nil]
  | cons operation rest ih =>
      cases count with
      | zero => rfl
      | succ count =>
          rw [List.take_succ_cons, List.foldl_cons,
            ih (fun later member => kept later (List.mem_cons_of_mem _ member)),
            kept operation List.mem_cons_self]

end Mneme.Library
