/-
What holds of the subscriber manager however the steps mix: each sweep tries each
subscriber of its snapshot that wants the event, and none of them twice; sweeps that do not
overlap keep their order, and channels hold what was sent.
-/

import Mneme.Livebus.SubscriberSteps

namespace Mneme.Livebus

open Library

namespace Manager

/-! ### The registry -/

structure Registered (manager : Manager) : Prop where
  owned : ∀ (handle : Nat) (subscriber : Subscriber), manager.handles[handle]? = some subscriber →
    subscriber.id = subscriberId (subscriber.tx + 1) ∧ subscriber.tx < manager.channels.length
  next : manager.nextId = manager.channels.length + 1
  live : ∀ (id : String) (handle : Nat), manager.subscribers.lookup id = some handle →
    ∃ subscriber : Subscriber, manager.handles[handle]? = some subscriber ∧ subscriber.id = id

theorem subscriberId_injective {left right : Nat} (same : subscriberId left = subscriberId right) :
    left = right := by
  have chars := congrArg String.toList same
  unfold subscriberId at chars
  rw [String.toList_append, String.toList_append] at chars
  have digits : left.repr.toList = right.repr.toList := List.append_cancel_left chars
  have read := congrArg (fun digits => Nat.ofDigitChars 10 digits 0) digits
  simpa only [Nat.toList_repr, Nat.ofDigitChars_ten_toDigits] using read

theorem Registered.new : Registered new where
  owned := fun handle subscriber impossible => by cases impossible
  next := rfl
  live := fun id handle impossible => by cases impossible

/-- An id has one channel, whichever of its handles is asked. -/
theorem Registered.tx_unique {manager : Manager} (registered : Registered manager)
    {left right : Nat} {first second : Subscriber} (held : manager.handles[left]? = some first)
    (held' : manager.handles[right]? = some second) :
    first.id = second.id ↔ first.tx = second.tx := by
  rw [(registered.owned left first held).1, (registered.owned right second held').1]
  constructor
  · intro same
    have numbers := subscriberId_injective same
    omega
  · intro same
    rw [same]

theorem Registered.step {manager after : Manager} {action : Action}
    (registered : Registered manager) (change : Change manager action after) :
    Registered after := by
  have grows := change.grows
  cases change with
  | refused => exact registered
  | registered patterns =>
      refine ⟨?_, ?_, ?_⟩
      · intro handle subscriber found
        rw [List.length_append, List.length_singleton]
        rcases append_cases found with ⟨_, rfl⟩ | ⟨_, found⟩
        · refine ⟨?_, Nat.lt_succ_self _⟩
          rw [registered.next]
        · obtain ⟨owned, bound⟩ := registered.owned handle subscriber found
          exact ⟨owned, Nat.lt_succ_of_lt bound⟩
      · rw [List.length_append, List.length_singleton, ← registered.next]
      · intro id handle found
        by_cases same : id = subscriberId manager.nextId
        · rw [same, Finmap.lookup_insert] at found
          cases found
          exact ⟨_, append_last, same.symm⟩
        · rw [Finmap.lookup_insert_of_ne _ same] at found
          obtain ⟨subscriber, held, own⟩ := registered.live id handle found
          exact ⟨subscriber, append_here held, own⟩
  | @repatterned id patterns handle existing live held =>
      refine ⟨?_, registered.next, ?_⟩
      · intro other subscriber found
        rcases append_cases found with ⟨_, rfl⟩ | ⟨_, found⟩
        · exact registered.owned handle existing held
        · exact registered.owned other subscriber found
      · intro other place found
        by_cases same : other = id
        · rw [same, Finmap.lookup_insert] at found
          cases found
          obtain ⟨subscriber, held', own⟩ := registered.live id handle live
          rw [held] at held'
          cases held'
          exact ⟨_, append_last, by rw [same]; exact own⟩
        · rw [Finmap.lookup_insert_of_ne _ same] at found
          obtain ⟨subscriber, held, own⟩ := registered.live other place found
          exact ⟨subscriber, append_here held, own⟩
  | removed id =>
      refine ⟨registered.owned, registered.next, ?_⟩
      intro other handle found
      by_cases same : other = id
      · rw [same, Finmap.lookup_erase] at found
        cases found
      · rw [Finmap.lookup_erase_ne same] at found
        exact registered.live other handle found
  | started ordered => exact ⟨registered.owned, registered.next, registered.live⟩
  | passed found next idle held unwanted =>
      exact ⟨registered.owned, registered.next, registered.live⟩
  | tried found next idle held wanted reached =>
      refine ⟨?_, ?_, registered.live⟩
      · intro handle subscriber there
        rw [List.length_set]
        exact registered.owned handle subscriber there
      · rw [List.length_set]
        exact registered.next
  | @accounted number handle sweep result subscriber found sent held =>
      refine ⟨?_, registered.next, ?_⟩
      · intro other kept there
        obtain ⟨before, was, same⟩ := grows.handle_before
          (by have bound := cell_bound there; rwa [List.length_set] at bound) there
        rw [same.1, same.2.2]
        exact registered.owned other before was
      · intro id place there
        obtain ⟨before, was, own⟩ := registered.live id place there
        obtain ⟨later, is, same⟩ := grows.handles place before was
        exact ⟨later, is, same.1.trans own⟩
  | dismissed found due => exact ⟨registered.owned, registered.next, registered.live⟩
  | @evicted number handle now sweep id reason rest subscriber found due live held =>
      refine ⟨registered.owned, registered.next, ?_⟩
      intro other place there
      by_cases same : other = id
      · rw [same, Finmap.lookup_erase] at there
        cases there
      · rw [Finmap.lookup_erase_ne same] at there
        exact registered.live other place there
  | posted ordered found waiting => exact ⟨registered.owned, registered.next, registered.live⟩
  | drained channel =>
      refine ⟨?_, ?_, registered.live⟩
      · intro handle subscriber there
        rw [List.length_modify]
        exact registered.owned handle subscriber there
      · rw [List.length_modify]
        exact registered.next
  | dropped channel =>
      refine ⟨?_, ?_, registered.live⟩
      · intro handle subscriber there
        rw [List.length_modify]
        exact registered.owned handle subscriber there
      · rw [List.length_modify]
        exact registered.next

end Manager

/-! ### Sweeps -/

theorem Subscriber.SameAs.matchesTopic {after before : Subscriber} (same : after.SameAs before)
    (topic : String) : after.matchesTopic topic = before.matchesTopic topic := by
  unfold Subscriber.matchesTopic
  rw [same.2.1]

namespace Manager

structure SweepSound (manager : Manager) (number : Nat) (sweep : Sweep) : Prop where
  known : ∀ handle, handle ∈ sweep.snapshot → handle < manager.handles.length
  suffix : sweep.todo <:+ sweep.snapshot
  apart : sweep.snapshot.Pairwise (fun left right =>
    ∀ first second : Subscriber, manager.handles[left]? = some first →
      manager.handles[right]? = some second → first.tx ≠ second.tx)
  untried : ∀ attempt, attempt ∈ manager.attempts → attempt.sweep = number →
    ∀ handle, handle ∈ sweep.todo → ∀ subscriber : Subscriber,
      manager.handles[handle]? = some subscriber → subscriber.tx ≠ attempt.channel
  tried : ∀ handle, handle ∈ sweep.snapshot → handle ∉ sweep.todo → ∀ subscriber : Subscriber,
    manager.handles[handle]? = some subscriber →
    subscriber.matchesTopic sweep.event.topic = true →
    ∃ attempt, attempt ∈ manager.attempts ∧ attempt.sweep = number ∧
      attempt.channel = subscriber.tx
  overlapped : ∀ (earlier : Nat) (other : Sweep), earlier < number →
    manager.sweeps[earlier]? = some other → other.underWay = true → earlier ∈ sweep.overlaps
  due : ∀ entry, entry ∈ sweep.toEvict →
    ∃ channel, channel < manager.channels.length ∧ entry.1 = subscriberId (channel + 1)

section Carry

variable {before after : Manager} {number : Nat} {sweep later : Sweep}

theorem SweepSound.apart_grows (sound : SweepSound before number sweep)
    (grows : Grows before after) :
    sweep.snapshot.Pairwise (fun left right =>
      ∀ first second : Subscriber, after.handles[left]? = some first →
        after.handles[right]? = some second → first.tx ≠ second.tx) := by
  apply List.Pairwise.imp_of_mem _ sound.apart
  intro left right leftIn rightIn distinct first second held held'
  obtain ⟨old, was, same⟩ := grows.handle_before (sound.known left leftIn) held
  obtain ⟨old', was', same'⟩ := grows.handle_before (sound.known right rightIn) held'
  rw [same.2.2, same'.2.2]
  exact distinct old old' was was'

/-- The parts that depend on no more than the snapshot. -/
theorem SweepSound.carry (sound : SweepSound before number sweep) (grows : Grows before after)
    (old : number < before.sweeps.length) (continued : later.Continues sweep)
    (suffix : later.todo <:+ sweep.todo)
    (untried : ∀ attempt, attempt ∈ after.attempts → attempt.sweep = number →
      ∀ handle, handle ∈ later.todo → ∀ subscriber : Subscriber,
        before.handles[handle]? = some subscriber → subscriber.tx ≠ attempt.channel)
    (tried : ∀ handle, handle ∈ sweep.todo → handle ∉ later.todo → ∀ subscriber : Subscriber,
      before.handles[handle]? = some subscriber →
      subscriber.matchesTopic sweep.event.topic = true →
      ∃ attempt, attempt ∈ after.attempts ∧ attempt.sweep = number ∧
        attempt.channel = subscriber.tx)
    (due : ∀ entry, entry ∈ later.toEvict → entry ∈ sweep.toEvict ∨
      ∃ channel, channel < after.channels.length ∧ entry.1 = subscriberId (channel + 1)) :
    SweepSound after number later where
  known := by
    intro handle member
    rw [continued.snapshot] at member
    exact Nat.lt_of_lt_of_le (sound.known handle member) grows.handles_length
  suffix := by
    rw [continued.snapshot]
    exact suffix.trans sound.suffix
  apart := by
    rw [continued.snapshot]
    exact sound.apart_grows grows
  untried := by
    intro attempt member own handle waiting subscriber held
    obtain ⟨was, found, same⟩ := grows.handle_before
      (sound.known handle (sound.suffix.subset (suffix.subset waiting))) held
    rw [same.2.2]
    exact untried attempt member own handle waiting was found
  tried := by
    intro handle member passed subscriber held wanted
    rw [continued.snapshot] at member
    rw [continued.event] at wanted
    obtain ⟨was, found, same⟩ := grows.handle_before (sound.known handle member) held
    rw [same.matchesTopic] at wanted
    rw [same.2.2]
    by_cases waiting : handle ∈ sweep.todo
    · exact tried handle waiting passed was found wanted
    · obtain ⟨attempt, earlier, own, there⟩ := sound.tried handle member waiting was found wanted
      exact ⟨attempt, grows.attempts.subset earlier, own, there⟩
  overlapped := by
    intro earlier other before_ found open_
    obtain ⟨was, held, same⟩ := grows.sweep_before (Nat.lt_trans before_ old) found
    rw [continued.overlaps]
    exact sound.overlapped earlier was before_ held (same.underWay open_)
  due := by
    intro entry member
    rcases due entry member with earlier | new
    · obtain ⟨channel, bound, same⟩ := sound.due entry earlier
      exact ⟨channel, Nat.lt_of_lt_of_le bound grows.channels_length, same⟩
    · exact new

/-- A sweep at rest while the others go on. -/
theorem SweepSound.rest (sound : SweepSound before number sweep) (grows : Grows before after)
    (old : number < before.sweeps.length) (continued : later.Continues sweep)
    (todo : later.todo = sweep.todo) (toEvict : later.toEvict ⊆ sweep.toEvict)
    (attempts : ∀ attempt, attempt ∈ after.attempts → attempt.sweep = number →
      attempt ∈ before.attempts) : SweepSound after number later := by
  apply sound.carry grows old continued
  · rw [todo]
  · intro attempt member own handle waiting
    rw [todo] at waiting
    exact sound.untried attempt (attempts attempt member own) own handle waiting
  · intro handle waiting passed
    rw [todo] at passed
    exact absurd waiting passed
  · intro entry member
    exact Or.inl (toEvict member)

end Carry

/-! ### A new sweep -/

variable {manager : Manager}

variable {number handle : Nat}

theorem mem_openSweeps {sweep : Sweep}
    (found : manager.sweeps[number]? = some sweep) (underWay : sweep.underWay = true) :
    number ∈ manager.openSweeps := by
  unfold openSweeps
  rw [List.mem_filter, found]
  exact ⟨List.mem_range.mpr (cell_bound found), underWay⟩

theorem snapshot_apart (registered : Registered manager) {order : List String}
    (distinct : order.Nodup) :
    (order.filterMap manager.subscribers.lookup).Pairwise (fun left right =>
      ∀ first second : Subscriber, manager.handles[left]? = some first →
        manager.handles[right]? = some second → first.tx ≠ second.tx) := by
  rw [List.pairwise_filterMap]
  apply List.Pairwise.imp _ distinct
  intro id other different left leftLive right rightLive first second held held' same
  obtain ⟨owner, there, own⟩ := registered.live id left leftLive
  obtain ⟨owner', there', own'⟩ := registered.live other right rightLive
  rw [held] at there
  rw [held'] at there'
  cases there
  cases there'
  apply different
  rw [← own, ← own']
  exact (registered.tx_unique held held').mpr same

theorem sweepSound_start (registered : Registered manager)
    (fresh : ∀ attempt, attempt ∈ manager.attempts → attempt.sweep < manager.sweeps.length)
    {event : Event} {guarded : Bool} {order : List String} (ordered : manager.MapOrder order)
    {sweep : Sweep}
    (new : (manager.startSweep event guarded order).sweeps[manager.sweeps.length]? = some sweep) :
    SweepSound (manager.startSweep event guarded order) manager.sweeps.length sweep := by
  simp only [startSweep, append_last] at new
  cases new
  refine ⟨?_, List.suffix_refl _, snapshot_apart registered ordered.1, ?_, ?_, ?_, ?_⟩
  · intro handle member
    obtain ⟨id, _, live⟩ := List.mem_filterMap.mp member
    obtain ⟨subscriber, held, _⟩ := registered.live id handle live
    exact cell_bound held
  · intro attempt member own
    exact absurd (fresh attempt member) (by rw [own]; exact Nat.lt_irrefl _)
  · intro handle member waiting
    exact absurd member waiting
  · intro earlier other before found underWay
    rcases append_cases found with ⟨same, _⟩ | ⟨_, held⟩
    · exact absurd before (by rw [same]; exact Nat.lt_irrefl _)
    · exact mem_openSweeps held underWay
  · intro entry member
    cases member

/-! ### Every step -/

theorem reason_names {subscriber : Subscriber} {guarded : Bool} {result : SendResult}
    {entry : String × String} (member : entry ∈ (counted subscriber guarded result).2) :
    entry.1 = subscriber.id := by
  cases result with
  | ok => cases member
  | full =>
      simp only [counted] at member
      split at member
      · rw [List.mem_singleton] at member
        rw [member]
      · cases member
  | closed =>
      simp only [counted] at member
      split at member
      · cases member
      · rw [List.mem_singleton] at member
        rw [member]

theorem reasons_due {sweep : Sweep}
    {result : SendResult} {subscriber : Subscriber} (registered : Registered manager)
    (held : manager.handles[handle]? = some subscriber) (entry : String × String)
    (member : entry ∈ sweep.toEvict ++ (counted subscriber sweep.guarded result).2) :
    entry ∈ sweep.toEvict ∨
      ∃ channel, channel < manager.channels.length ∧ entry.1 = subscriberId (channel + 1) := by
  obtain ⟨own, bound⟩ := registered.owned handle subscriber held
  rcases List.mem_append.mp member with earlier | new
  · exact Or.inl earlier
  · exact Or.inr ⟨subscriber.tx, bound, by rw [reason_names new, own]⟩

def SweepsSound (manager : Manager) : Prop :=
  ∀ (number : Nat) (sweep : Sweep), manager.sweeps[number]? = some sweep →
    SweepSound manager number sweep

variable {after before : Manager}

/-- The sweeps after a step that replaced one of them. -/
theorem SweepsSound.set {place : Nat} {sweep replaced : Sweep}
    (sound : SweepsSound before) (grows : Grows before after)
    (sweeps : after.sweeps = before.sweeps.set place replaced)
    (found : before.sweeps[place]? = some sweep)
    (here : SweepSound before place sweep → SweepSound after place replaced)
    (attempts : ∀ attempt, attempt ∈ after.attempts → attempt.sweep ≠ place →
      attempt ∈ before.attempts) : SweepsSound after := by
  intro number held there
  rw [sweeps] at there
  rcases set_cases there with ⟨rfl, rfl⟩ | ⟨other, there⟩
  · exact here (sound number sweep found)
  · apply (sound number held there).rest grows (cell_bound there) (continues_refl _) rfl
      (List.Subset.refl _)
    intro attempt member own
    exact attempts attempt member (by rw [own]; exact other)

theorem SweepsSound.same (sound : SweepsSound before)
    (grows : Grows before after) (sweeps : after.sweeps = before.sweeps)
    (attempts : after.attempts = before.attempts) : SweepsSound after := by
  intro number held there
  rw [sweeps] at there
  apply (sound number held there).rest grows (cell_bound there) (continues_refl _) rfl
    (List.Subset.refl _)
  intro attempt member _
  rw [attempts] at member
  exact member

theorem SweepsSound.start (sound : SweepsSound manager) (registered : Registered manager)
    (fresh : ∀ attempt, attempt ∈ manager.attempts → attempt.sweep < manager.sweeps.length)
    (event : Event) (guarded : Bool) {order : List String} (ordered : manager.MapOrder order) :
    SweepsSound (manager.startSweep event guarded order) := by
  intro number held there
  rcases append_cases there with ⟨rfl, _⟩ | ⟨_, found⟩
  · exact sweepSound_start registered fresh ordered there
  · exact (sound number held found).rest (grows_startSweep event guarded order)
      (cell_bound found) (continues_refl _) rfl (List.Subset.refl _) (fun _ member _ => member)

/-- The handle at the front of a sweep is not among those behind it. -/
theorem SweepSound.front {sweep : Sweep}
    {rest : List Nat} {subscriber : Subscriber} (sound : SweepSound manager number sweep)
    (next : sweep.todo = handle :: rest) (held : manager.handles[handle]? = some subscriber)
    (behind : Nat) (member : behind ∈ rest) (other : Subscriber)
    (held' : manager.handles[behind]? = some other) : subscriber.tx ≠ other.tx := by
  have front := List.Pairwise.sublist (next ▸ sound.suffix.sublist) sound.apart
  exact (List.pairwise_cons.mp front).1 behind member subscriber other held held'

theorem SweepsSound.step {manager : Manager} {action : Action}
    (sound : SweepsSound manager) (registered : Registered manager)
    (fresh : ∀ attempt, attempt ∈ manager.attempts → attempt.sweep < manager.sweeps.length)
    (change : Change manager action after) : SweepsSound after := by
  have grows := change.grows
  cases change with
  | refused => exact sound
  | registered patterns => exact sound.same grows rfl rfl
  | repatterned live held => exact sound.same grows rfl rfl
  | removed id => exact sound.same grows rfl rfl
  | @started event order ordered => exact sound.start registered fresh event false ordered
  | @passed number handle sweep rest subscriber found next idle held unwanted =>
      refine sound.set grows rfl found ?_ (fun attempt member _ => member)
      intro here
      refine here.carry grows (cell_bound found)
        ⟨rfl, rfl, rfl, rfl, fun _ => underWay_of_todo next⟩ ?_ ?_ ?_ (fun entry => Or.inl)
      · rw [next]
        exact List.suffix_cons _ _
      · intro attempt member own behind waiting
        exact here.untried attempt member own behind (by rw [next]; exact .tail _ waiting)
      · intro passed waiting gone other there wanted
        rw [next] at waiting
        rcases List.mem_cons.mp waiting with rfl | behind
        · rw [held] at there
          cases there
          rw [unwanted] at wanted
          cases wanted
        · exact absurd behind gone
  | @tried number handle sweep rest subscriber channel found next idle held wanted reached =>
      refine sound.set grows rfl found ?_ ?_
      · intro here
        refine here.carry grows (cell_bound found)
          ⟨rfl, rfl, rfl, rfl, fun _ => underWay_of_todo next⟩ ?_ ?_ ?_ (fun entry => Or.inl)
        · rw [next]
          exact List.suffix_cons _ _
        · intro attempt member own behind waiting other there
          rcases List.mem_append.mp member with earlier | new
          · exact here.untried attempt earlier own behind (by rw [next]; exact .tail _ waiting)
              other there
          · rw [List.mem_singleton] at new
            rw [new]
            exact (here.front next held behind waiting other there).symm
        · intro passed waiting gone other there _
          rw [next] at waiting
          rcases List.mem_cons.mp waiting with rfl | behind
          · rw [held] at there
            cases there
            exact ⟨_, List.mem_append_right _ (List.mem_singleton_self _), rfl, rfl⟩
          · exact absurd behind gone
      · intro attempt member other
        rcases List.mem_append.mp member with earlier | new
        · exact earlier
        · rw [List.mem_singleton] at new
          exact absurd (by rw [new]) other
  | @accounted number handle sweep result subscriber found sent held =>
      have reasons := @reasons_due manager handle sweep result subscriber registered held
      refine sound.set grows rfl found ?_ (fun attempt member _ => member)
      intro here
      refine here.carry grows (cell_bound found)
        ⟨rfl, rfl, rfl, rfl, fun _ => underWay_of_sent sent⟩ (List.suffix_refl _) here.untried ?_
        reasons
      intro passed waiting gone
      exact absurd waiting gone
  | @dismissed number now sweep first rest found due =>
      refine sound.set grows rfl found ?_ (fun attempt member _ => member)
      intro here
      refine here.rest grows (cell_bound found) ⟨rfl, rfl, rfl, rfl, id⟩ rfl ?_
        (fun _ member _ => member)
      rw [due]
      exact List.subset_cons_self _ _
  | @evicted number handle now sweep id reason rest subscriber found due live held =>
      refine sound.set grows rfl found ?_ (fun attempt member _ => member)
      intro here
      refine here.rest grows (cell_bound found) ⟨rfl, rfl, rfl, rfl, fun open_ => open_⟩ rfl ?_
        (fun _ member _ => member)
      rw [due]
      exact List.subset_cons_self _ _
  | @posted number order sweep event ordered found waiting =>
      have noted : SweepsSound { manager with
          sweeps := manager.sweeps.set number { sweep with
            posting := none
            notice := some manager.sweeps.length } } := by
        have growsHere : Grows manager { manager with
            sweeps := manager.sweeps.set number { sweep with
              posting := none
              notice := some manager.sweeps.length } } :=
          ⟨fun _ subscriber found => ⟨subscriber, found, sameAs_refl _⟩,
            sweeps_set found ⟨rfl, rfl, rfl, rfl, id⟩, channels_kept, List.prefix_refl _⟩
        refine sound.set growsHere rfl found ?_ (fun attempt member _ => member)
        intro here
        exact here.rest growsHere (cell_bound found) ⟨rfl, rfl, rfl, rfl, id⟩ rfl
          (List.Subset.refl _) (fun _ member _ => member)
      apply noted.start ⟨registered.owned, registered.next, registered.live⟩ _ event true ordered
      intro attempt member
      rw [List.length_set]
      exact fresh attempt member
  | drained channel => exact sound.same grows rfl rfl
  | dropped channel => exact sound.same grows rfl rfl

end Manager

end Mneme.Livebus
