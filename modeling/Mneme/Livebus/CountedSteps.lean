/-
Each careful step keeps the lags right, and evicts for a reason.
-/

import Mneme.Livebus.LagFacts

namespace Mneme.Livebus

open Library

namespace Manager

section Steps

variable {manager : Manager}

/-! ### The registry -/

theorem results_beyond (sound : Sound manager) : manager.results manager.channels.length = [] := by
  unfold results attemptsOn
  rw [List.map_eq_nil_iff, List.filter_eq_nil_iff]
  intro attempt member here
  obtain ⟨channel, there, _⟩ := (sound.attempts attempt member).channel
  have bound := cell_bound there
  rw [decide_eq_true_iff] at here
  omega

theorem settled_beyond (registered : Registered manager) :
    manager.settled manager.channels.length = true := by
  rw [settled_iff]
  intro number handle result waiting
  obtain ⟨_, subscriber, held, there⟩ := waiting
  have bound := (registered.owned handle subscriber held).2
  omega

/-- A quiet channel stays quiet while nothing is sent. -/
theorem settled_carry {after : Manager} {place : Nat} (settled : manager.settled place = true)
    (grows : Grows manager after) (counted : Counted manager)
    (sent : ∀ number, after.sentBy number = manager.sentBy number) :
    ∀ number handle result, ¬ after.Uncounted place number handle result := by
  rw [settled_iff] at settled
  intro number handle result waiting
  exact settled number handle result (waiting.back grows counted (sent number))

variable {subscriber : Subscriber}

variable {handle number : Nat}

theorem LagRight.of_settled
    (settled : ∀ number other result, ¬ manager.Uncounted subscriber.tx number other result)
    (lag : subscriber.lag = streak (manager.results subscriber.tx)) :
    LagRight manager handle subscriber where
  waiting := fun number other result waiting => absurd waiting (settled number other result)
  settled := fun _ => lag

variable {patterns : List String}

theorem Counted.registered {after : Manager} (counted : Counted manager)
    (sound : Sound manager) (grows : Grows manager after) (made : after = { manager with
      nextId := manager.nextId + 1
      channels := manager.channels ++ [Channel.new]
      handles := manager.handles ++ [{
        id := subscriberId manager.nextId
        patterns
        tx := manager.channels.length
        lag := 0
        delivered := 0 }]
      subscribers :=
        manager.subscribers.insert (subscriberId manager.nextId) manager.handles.length }) :
    Counted after := by
  have sent : ∀ number, after.sentBy number = manager.sentBy number := by
    intro number
    rw [made]
    rfl
  have attempts : after.attempts = manager.attempts := by rw [made]
  have live : ∀ id handle subscriber, after.Live id handle subscriber →
      (id = subscriberId manager.nextId ∧ subscriber.tx = manager.channels.length ∧
        subscriber.lag = 0) ∨ manager.Live id handle subscriber := by
    intro id handle subscriber here
    obtain ⟨registered, held⟩ := here
    rw [made] at registered held
    by_cases same : id = subscriberId manager.nextId
    · rw [same, Finmap.lookup_insert] at registered
      cases registered
      rw [append_last] at held
      cases held
      exact Or.inl ⟨same, rfl, rfl⟩
    · rw [Finmap.lookup_insert_of_ne _ same] at registered
      obtain ⟨owner, there, _⟩ := sound.registered.live id handle registered
      rw [append_here there] at held
      cases held
      exact Or.inr ⟨registered, there⟩
  apply counted.quiet grows sent attempts
  · intro id handle subscriber here
    rcases live id handle subscriber here with ⟨_, tx, lag⟩ | earlier
    · refine Or.inr (LagRight.of_settled ?_ ?_)
      · rw [tx]
        exact settled_carry (settled_beyond sound.registered) grows counted sent
      · rw [tx, lag, results_same attempts, results_beyond sound]
        rfl
    · exact Or.inl earlier
  · intro number sweep found entry member handle subscriber here
    rw [made] at found
    rcases live entry.1 handle subscriber here with ⟨new, _, _⟩ | earlier
    · obtain ⟨channel, bound, old⟩ := (sound.sweeps number sweep found).due entry member
      rw [old, sound.registered.next] at new
      have same := subscriberId_injective new
      omega
    · exact (counted.due number sweep found entry member handle subscriber earlier).carry grows
  · intro place member
    rw [made] at member
    exact (counted.evictions place member).carry grows

theorem Counted.repatterned {after : Manager} {id : String}
    {existing : Subscriber} (counted : Counted manager) (sound : Sound manager)
    (grows : Grows manager after) (live : manager.Live id handle existing)
    (settled : manager.settled existing.tx = true) (made : after = { manager with
      handles := manager.handles ++ [{ existing with patterns }]
      subscribers := manager.subscribers.insert id manager.handles.length }) : Counted after := by
  have sent : ∀ number, after.sentBy number = manager.sentBy number := by
    intro number
    rw [made]
    rfl
  have attempts : after.attempts = manager.attempts := by rw [made]
  have lives : ∀ other place subscriber, after.Live other place subscriber →
      (other = id ∧ subscriber.tx = existing.tx ∧ subscriber.lag = existing.lag) ∨
        manager.Live other place subscriber := by
    intro other place subscriber here
    obtain ⟨registered, held⟩ := here
    rw [made] at registered held
    by_cases same : other = id
    · rw [same, Finmap.lookup_insert] at registered
      cases registered
      rw [append_last] at held
      cases held
      exact Or.inl ⟨same, rfl, rfl⟩
    · rw [Finmap.lookup_insert_of_ne _ same] at registered
      obtain ⟨owner, there, _⟩ := sound.registered.live other place registered
      rw [append_here there] at held
      cases held
      exact Or.inr ⟨registered, there⟩
  apply counted.quiet grows sent attempts
  · intro other place subscriber here
    rcases lives other place subscriber here with ⟨_, tx, lag⟩ | earlier
    · refine Or.inr (LagRight.of_settled ?_ ?_)
      · rw [tx]
        exact settled_carry settled grows counted sent
      · rw [tx, lag, results_same attempts]
        exact (counted.lags id handle existing live).settled settled
    · exact Or.inl earlier
  · intro number sweep found entry member place subscriber here
    rw [made] at found
    rcases lives entry.1 place subscriber here with ⟨same, tx, _⟩ | earlier
    · rw [tx]
      rw [← same] at live
      exact (counted.due number sweep found entry member handle existing live).carry grows
    · exact (counted.due number sweep found entry member place subscriber earlier).carry grows
  · intro place member
    rw [made] at member
    exact (counted.evictions place member).carry grows

theorem live_erase {id : String} {after : Manager}
    (subscribers : after.subscribers = manager.subscribers.erase id)
    (handles : after.handles = manager.handles) (other : String) (handle : Nat)
    (subscriber : Subscriber) (live : after.Live other handle subscriber) :
    manager.Live other handle subscriber := by
  obtain ⟨registered, held⟩ := live
  rw [subscribers] at registered
  rw [handles] at held
  by_cases same : other = id
  · rw [same, Finmap.lookup_erase] at registered
    cases registered
  · rw [Finmap.lookup_erase_ne same] at registered
    exact ⟨registered, held⟩

/-- A step that leaves the registry and the counters as they are. -/
theorem Counted.still {after : Manager} (counted : Counted manager) (grows : Grows manager after)
    (sent : ∀ number, after.sentBy number = manager.sentBy number)
    (attempts : after.attempts = manager.attempts)
    (live : ∀ id handle subscriber, after.Live id handle subscriber →
      manager.Live id handle subscriber)
    (sweeps : ∀ (number : Nat) (sweep : Sweep), after.sweeps[number]? = some sweep →
      ∀ entry, entry ∈ sweep.toEvict → ∃ (other : Nat) (old : Sweep),
        manager.sweeps[other]? = some old ∧ entry ∈ old.toEvict)
    (evictions : after.evictions = manager.evictions) : Counted after := by
  apply counted.quiet grows sent attempts
  · intro id handle subscriber here
    exact Or.inl (live id handle subscriber here)
  · exact counted.due_carry grows sweeps live
  · intro place member
    rw [evictions] at member
    exact (counted.evictions place member).carry grows

/-! ### A send -/

theorem results_append {after : Manager} {attempt : Attempt}
    (attempts : after.attempts = manager.attempts ++ [attempt]) (place : Nat) :
    after.results place =
      manager.results place ++ (if attempt.channel = place then [attempt.result] else []) := by
  unfold results
  rw [attemptsOn_append manager attempt after attempts, List.map_append]
  by_cases here : attempt.channel = place
  · rw [if_pos here, if_pos here]
    rfl
  · rw [if_neg here, if_neg here]
    rfl

variable {replaced sweep : Sweep}

theorem Counted.tried {after : Manager} {attempt : Attempt} (counted : Counted manager)
    (sound : Sound manager) (grows : Grows manager after)
    (found : manager.sweeps[number]? = some sweep) (idle : sweep.sent = none)
    (held : manager.handles[handle]? = some subscriber)
    (current : ∀ other, manager.subscribers.lookup subscriber.id = some other → other = handle)
    (settled : manager.settled subscriber.tx = true)
    (sweeps : after.sweeps = manager.sweeps.set number replaced)
    (sent : replaced.sent = some (handle, attempt.result))
    (toEvict : replaced.toEvict = sweep.toEvict) (handles : after.handles = manager.handles)
    (subscribers : after.subscribers = manager.subscribers)
    (attempts : after.attempts = manager.attempts ++ [attempt])
    (channel : attempt.channel = subscriber.tx)
    (evictions : after.evictions = manager.evictions) : Counted after := by
  rw [settled_iff] at settled
  have live : ∀ id place other, after.Live id place other → manager.Live id place other := by
    intro id place other here
    obtain ⟨registered, there⟩ := here
    rw [subscribers] at registered
    rw [handles] at there
    exact ⟨registered, there⟩
  -- A send that waits after the step is the new one, or waited before on another channel.
  have waits : ∀ place other handle' result, after.Uncounted place other handle' result →
      (other = number ∧ handle' = handle ∧ result = attempt.result ∧ place = subscriber.tx) ∨
        (place ≠ subscriber.tx ∧ other ≠ number ∧
          manager.Uncounted place other handle' result) := by
    intro place other handle' result waiting
    obtain ⟨due, owner, there, tx⟩ := waiting
    rw [sentBy_set found sweeps] at due
    rw [handles] at there
    by_cases same : other = number
    · rw [if_pos same, sent] at due
      cases due
      rw [held] at there
      cases there
      exact Or.inl ⟨same, rfl, rfl, tx.symm⟩
    · rw [if_neg same] at due
      have earlier : manager.Uncounted place other handle' result := ⟨due, owner, there, tx⟩
      refine Or.inr ⟨?_, same, earlier⟩
      intro here
      rw [here] at earlier
      exact settled other handle' result earlier
  have new : after.Uncounted subscriber.tx number handle attempt.result := by
    refine ⟨?_, subscriber, ?_, rfl⟩
    · rw [sentBy_set found sweeps, if_pos rfl, sent]
    · rw [handles, held]
  refine ⟨?_, ?_, ?_, ?_, ?_⟩
  · intro other handle' result due
    rw [sentBy_set found sweeps] at due
    rw [handles]
    by_cases same : other = number
    · rw [if_pos same, sent] at due
      cases due
      exact cell_bound held
    · rw [if_neg same] at due
      exact counted.sent other handle' result due
  · intro place first handle' result second handle'' result' left right
    rcases waits _ _ _ _ left with ⟨same, _, _, here⟩ | ⟨apart, _, earlier⟩
    · rcases waits _ _ _ _ right with ⟨same', _⟩ | ⟨apart, _⟩
      · rw [same, same']
      · exact absurd here apart
    · rcases waits _ _ _ _ right with ⟨_, _, _, here⟩ | ⟨_, _, earlier'⟩
      · exact absurd here apart
      · exact counted.alone place first handle' result second handle'' result' earlier earlier'
  · intro id place other here
    have before := live id place other here
    have right := counted.lags id place other before
    by_cases same : other.tx = subscriber.tx
    · constructor
      · intro sender handle' result waiting
        rcases waits _ _ _ _ waiting with ⟨_, rfl, rfl, _⟩ | ⟨apart, _⟩
        · have own := (sound.registered.tx_unique before.2 held).mpr same
          obtain ⟨owner, there, mine⟩ := sound.registered.live id place before.1
          rw [before.2] at there
          cases there
          refine ⟨(current place (by rw [← own, mine]; exact before.1)).symm,
            manager.results other.tx, ?_, ?_⟩
          · rw [results_append attempts, if_pos (by rw [channel, same])]
          · apply right.settled
            rw [settled_iff, same]
            exact settled
        · exact absurd same apart
      · intro quiet
        rw [settled_iff, same] at quiet
        exact absurd new (quiet number handle attempt.result)
    · apply right.carry
      · intro sender handle' result
        constructor
        · intro waiting
          rcases waits _ _ _ _ waiting with ⟨_, _, _, here⟩ | ⟨_, _, earlier⟩
          · exact absurd here same
          · exact earlier
        · intro waiting
          apply waiting.carry grows
          rw [sentBy_set found sweeps, if_neg]
          intro chosen
          have due := waiting.sent
          unfold sentBy at due
          rw [chosen, found, Option.bind_some, idle] at due
          cases due
      · rw [results_append attempts, if_neg (fun here => same (by rw [← here, channel])),
          List.append_nil]
  · intro other later there entry member place owner here
    rw [sweeps] at there
    obtain ⟨from_, old, before, earlier⟩ :=
      due_set found (by rw [toEvict]; exact List.Subset.refl _) other later there entry member
    exact (counted.due from_ old before entry earlier place owner (live _ _ _ here)).carry grows
  · intro place member
    rw [evictions] at member
    exact (counted.evictions place member).carry grows

/-! ### A count -/

variable {result : SendResult}

variable {front : List SendResult}

/-- A failure that is a reason to evict ends a full window, or met a closed channel. -/
theorem evidence_of_reasons (sound : Sound manager) {guarded : Bool} {entry : String × String}
    (results : manager.results subscriber.tx = front ++ [result])
    (lag : subscriber.lag = streak front) (reason : entry ∈ (counted subscriber guarded result).2) :
    manager.Evidence subscriber.tx := by
  cases result with
  | ok => cases reason
  | full =>
      simp only [counted] at reason
      split at reason
      · rename_i due
        refine Or.inr ⟨_, List.prefix_refl _, ?_⟩
        rw [results, streak_append, ← lag]
        exact due.2
      · cases reason
  | closed =>
      have last : SendResult.closed ∈ manager.results subscriber.tx := by
        rw [results]
        exact List.mem_append_right _ (List.mem_singleton_self _)
      obtain ⟨attempt, member, closed⟩ := List.mem_map.mp last
      obtain ⟨member, there⟩ := List.mem_filter.mp member
      obtain ⟨channel, reached, gone⟩ := (sound.attempts attempt member).channel
      rw [of_decide_eq_true there] at reached
      exact Or.inl ⟨channel, reached, gone closed⟩

theorem counted_lag {guarded : Bool} (lag : subscriber.lag = streak front) :
    (counted subscriber guarded result).1.lag = streak (front ++ [result]) := by
  rw [streak_append]
  cases result with
  | ok => rfl
  | full =>
      change subscriber.lag + 1 = _
      rw [lag]
  | closed => exact lag

theorem Counted.accounted {after : Manager}
    (counted : Counted manager) (sound : Sound manager) (grows : Grows manager after)
    (found : manager.sweeps[number]? = some sweep) (sent : sweep.sent = some (handle, result))
    (held : manager.handles[handle]? = some subscriber)
    (sweeps : after.sweeps = manager.sweeps.set number replaced) (idle : replaced.sent = none)
    (toEvict : replaced.toEvict =
      sweep.toEvict ++ (Manager.counted subscriber sweep.guarded result).2)
    (handles : after.handles =
      manager.handles.set handle (Manager.counted subscriber sweep.guarded result).1)
    (subscribers : after.subscribers = manager.subscribers)
    (attempts : after.attempts = manager.attempts)
    (evictions : after.evictions = manager.evictions) : Counted after := by
  have waiting : manager.Uncounted subscriber.tx number handle result := by
    refine ⟨?_, subscriber, held, rfl⟩
    unfold sentBy
    rw [found, Option.bind_some, sent]
  have others : ∀ other, other ≠ number → after.sentBy other = manager.sentBy other := by
    intro other apart
    rw [sentBy_set found sweeps, if_neg apart]
  have waits : ∀ place other handle' result', after.Uncounted place other handle' result' →
      other ≠ number ∧ manager.Uncounted place other handle' result' := by
    intro place other handle' result' uncounted
    have apart : other ≠ number := by
      intro same
      have due := uncounted.sent
      rw [sentBy_set found sweeps, if_pos same, idle] at due
      cases due
    exact ⟨apart, uncounted.back grows counted (others other apart)⟩
  -- A registered handle is the one that was counted, or is on another channel.
  have live : ∀ id place other, after.Live id place other →
      (place = handle ∧ manager.Live id handle subscriber ∧
        other = (Manager.counted subscriber sweep.guarded result).1) ∨
      (other.tx ≠ subscriber.tx ∧ manager.Live id place other) := by
    intro id place other here
    obtain ⟨registered, there⟩ := here
    rw [subscribers] at registered
    rw [handles] at there
    rcases set_cases there with ⟨rfl, rfl⟩ | ⟨apart, there⟩
    · exact Or.inl ⟨rfl, ⟨registered, held⟩, rfl⟩
    · refine Or.inr ⟨?_, registered, there⟩
      intro same
      have right := counted.lags id place other ⟨registered, there⟩
      rw [← same] at waiting
      exact apart (right.waiting number handle result waiting).1.symm
  have tx : (Manager.counted subscriber sweep.guarded result).1.tx = subscriber.tx :=
    (counted_sameAs subscriber sweep.guarded result).2.2
  refine ⟨?_, ?_, ?_, ?_, ?_⟩
  · intro other handle' result' due
    have apart : other ≠ number := by
      intro same
      rw [sentBy_set found sweeps, if_pos same, idle] at due
      cases due
    rw [others other apart] at due
    exact Nat.lt_of_lt_of_le (counted.sent other handle' result' due) grows.handles_length
  · intro place first handle' result' second handle'' result'' left right
    exact counted.alone place first handle' result' second handle'' result''
      (waits _ _ _ _ left).2 (waits _ _ _ _ right).2
  · intro id place other here
    rcases live id place other here with ⟨rfl, before, rfl⟩ | ⟨apart, before⟩
    · obtain ⟨_, front, results, lag⟩ :=
        (counted.lags id place subscriber before).waiting number place result waiting
      apply LagRight.of_settled
      · intro other handle' result' uncounted
        rw [tx] at uncounted
        obtain ⟨distinct, earlier⟩ := waits _ _ _ _ uncounted
        exact distinct (counted.alone _ _ _ _ _ _ _ earlier waiting)
      · rw [tx, results_same attempts, results]
        exact counted_lag lag
    · apply (counted.lags id place other before).carry
      · intro sender handle' result'
        constructor
        · intro uncounted
          exact (waits _ _ _ _ uncounted).2
        · intro earlier
          apply earlier.carry grows
          apply others
          intro same
          obtain ⟨due, owner, there, here⟩ := earlier
          rw [same] at due
          rw [waiting.sent] at due
          cases due
          rw [held] at there
          cases there
          exact apart here.symm
      · exact results_same attempts _
  · intro other later there entry member place owner here
    rw [sweeps] at there
    have before : ∃ owner', manager.Live entry.1 place owner' ∧ owner'.tx = owner.tx := by
      rcases live entry.1 place owner here with ⟨rfl, before, rfl⟩ | ⟨_, before⟩
      · exact ⟨subscriber, before, tx.symm⟩
      · exact ⟨owner, before, rfl⟩
    obtain ⟨owner', before, same⟩ := before
    rw [← same]
    apply Evidence.carry _ grows
    rcases set_cases there with ⟨rfl, rfl⟩ | ⟨_, there⟩
    · rw [toEvict] at member
      rcases List.mem_append.mp member with earlier | new
      · exact counted.due other sweep found entry earlier place owner' before
      · -- The new reason is of the counted handle, which is the registered one.
        rcases live entry.1 place owner here with ⟨rfl, mine, _⟩ | ⟨apart, mine⟩
        · rw [before.2] at held
          cases held
          obtain ⟨_, front, results, lag⟩ :=
            (counted.lags _ _ _ before).waiting other place result waiting
          exact evidence_of_reasons sound results lag new
        · exfalso
          apply apart
          obtain ⟨named, there', mine'⟩ := sound.registered.live entry.1 place mine.1
          rw [mine.2] at there'
          cases there'
          exact (sound.registered.tx_unique mine.2 held).mp (mine'.trans (reason_names new))
    · exact counted.due other later there entry member place owner' before
  · intro place member
    rw [evictions] at member
    exact (counted.evictions place member).carry grows

end Steps

theorem Counted.step {manager after : Manager} {action : Action} (counted : Counted manager)
    (sound : Sound manager) (careful : manager.careful action = true)
    (change : Change manager action after) : Counted after := by
  have grows := change.grows
  cases change with
  | refused => exact counted
  | registered patterns => exact counted.registered sound grows rfl
  | @repatterned id patterns handle existing live held =>
      have settled : manager.settled existing.tx = true := by
        simp only [Manager.careful, live, Option.bind_some, held, Option.all_some] at careful
        exact careful
      exact counted.repatterned sound grows ⟨live, held⟩ settled rfl
  | removed id =>
      exact counted.still grows (fun _ => rfl) rfl (live_erase rfl rfl)
        (fun number sweep found entry member => ⟨number, sweep, found, member⟩) rfl
  | @started event order ordered =>
      exact counted.still grows (sentBy_startSweep event false order) rfl
        (fun _ _ _ live => live) (due_start event false order) rfl
  | passed found next idle held unwanted =>
      exact counted.still grows (sentBy_kept found rfl rfl) rfl (fun _ _ _ live => live)
        (due_set found (List.Subset.refl _)) rfl
  | @tried number handle sweep rest subscriber channel found next idle held wanted reached =>
      simp only [Manager.careful, found, Option.all_some, next, idle, held, wanted, Bool.not_true,
        Bool.false_or, Bool.and_eq_true] at careful
      obtain ⟨current, settled⟩ := careful
      refine counted.tried sound grows found idle held ?_ settled rfl rfl rfl rfl rfl rfl rfl rfl
      intro other registered
      rw [registered, Option.all_some, decide_eq_true_iff] at current
      exact current
  | accounted found sent held =>
      exact counted.accounted sound grows found sent held rfl rfl rfl rfl rfl rfl rfl
  | @dismissed number now sweep first rest found due =>
      refine counted.still grows (sentBy_kept found rfl rfl) rfl (fun _ _ _ live => live)
        (due_set found ?_) rfl
      rw [due]
      exact List.subset_cons_self _ _
  | @evicted number handle now sweep id reason rest subscriber found due live held =>
      have fewer : rest ⊆ sweep.toEvict := by
        rw [due]
        exact List.subset_cons_self _ _
      have reasoned : manager.Evidence subscriber.tx :=
        counted.due number sweep found (id, reason) (by rw [due]; exact .head _) handle subscriber
          ⟨live, held⟩
      apply counted.quiet grows (sentBy_kept found rfl rfl) rfl
      · intro other place owner here
        refine Or.inl (@live_erase manager id _ ?_ ?_ other place owner here)
        · rfl
        · rfl
      · exact counted.due_carry grows (due_set found fewer) (@live_erase manager id _ rfl rfl)
      · intro place member
        rcases List.mem_append.mp member with earlier | new
        · exact (counted.evictions place earlier).carry grows
        · rw [List.mem_singleton] at new
          rw [new]
          exact reasoned.carry grows
  | @posted number order sweep event ordered found waiting =>
      refine counted.still grows ?_ rfl (fun _ _ _ live => live) ?_ rfl
      · intro other
        rw [sentBy_startSweep]
        exact @sentBy_kept manager sweep
          { sweep with posting := none, notice := some manager.sweeps.length } number _ found rfl rfl
          other
      · intro other later held entry member
        obtain ⟨place, old, there, earlier⟩ := due_start event true order other later held entry member
        refine due_set found ?_ place old there entry earlier
        exact List.Subset.refl _
  | drained channel =>
      exact counted.still grows (fun _ => rfl) rfl (fun _ _ _ live => live)
        (fun number sweep found entry member => ⟨number, sweep, found, member⟩) rfl
  | dropped channel =>
      exact counted.still grows (fun _ => rfl) rfl (fun _ _ _ live => live)
        (fun number sweep found entry member => ⟨number, sweep, found, member⟩) rfl

end Manager

end Mneme.Livebus
