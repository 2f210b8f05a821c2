/-
The lock file of a project.

Any number of processes open `.lock`, take an advisory lock on the inode they
opened, and remove the name when they are done.  The lock belongs to the inode
and not to the name, so the two can part.
-/

import Mathlib.Tactic.Cases
import Mneme.Library.Files
import Mneme.Library.Run

namespace Mneme.Cli

open Library.Files Transition

variable {Process : Type} [DecidableEq Process]

/-- What the kernel and the file itself keep for an inode: who holds the
exclusive lock on it, and whose stamp is written in it. -/
structure LockFile (Process : Type) where
  owner : Option Process
  stamp : Option Process

/-- Where a process stands in `acquire`, with the lock, or in `drop`. -/
inductive LockPhase where
  | outside
  | opening
  | opened (inode : Inode)
  /-- `try_lock_exclusive` succeeded and the stamp is not written yet. -/
  | locked (inode : Inode)
  | holding (inode : Inode)
  /-- `try_lock_exclusive` failed and the file is closed. -/
  | contended
  | unlocked (inode : Inode)
  | closed
deriving DecidableEq

/-- The inode a process has locked. -/
def LockPhase.held? : LockPhase → Option Inode
  | .locked inode => some inode
  | .holding inode => some inode
  | _ => none

structure LockSystem (Process : Type) where
  disk : Disk Unit (LockFile Process)
  phase : Process → LockPhase

inductive LockEvent (Process : Type) where
  | acquire (process : Process)
  | openFile (process : Process)
  | openFailed (process : Process)
  | tryLock (process : Process)
  /-- Any error of `try_lock_exclusive` counts as contention. -/
  | tryLockFailed (process : Process)
  | stamp (process : Process)
  | retry (process : Process)
  | giveUp (process : Process)
  | unlock (process : Process)
  | close (process : Process)
  | removeFile (process : Process)
  /-- The process dies; the kernel closes its file. -/
  | crash (process : Process)

namespace LockSystem

def unlocked : LockFile Process :=
  { owner := none, stamp := none }

def initial (disk : Disk Unit (LockFile Process)) : LockSystem Process :=
  { disk := disk, phase := fun _ => .outside }

def goTo (state : LockSystem Process) (process : Process) (phase : LockPhase) :
    LockSystem Process :=
  { state with phase := Function.update state.phase process phase }

def lock (process : Process) (file : LockFile Process) : LockFile Process :=
  { file with owner := some process }

def release (file : LockFile Process) : LockFile Process :=
  { file with owner := none }

def write (process : Process) (file : LockFile Process) : LockFile Process :=
  { file with stamp := some process }

def onDisk (state : LockSystem Process) (disk : Disk Unit (LockFile Process)) :
    LockSystem Process :=
  { state with disk := disk }

def next (state : LockSystem Process) : LockEvent Process → Option (LockSystem Process)
  | .acquire process =>
      match state.phase process with
      | .outside => some (state.goTo process .opening)
      | _ => none
  | .openFile process =>
      match state.phase process with
      | .opening =>
          let (disk, inode) := state.disk.openFile unlocked ()
          some ((state.onDisk disk).goTo process (.opened inode))
      | _ => none
  | .openFailed process =>
      match state.phase process with
      | .opening => some (state.goTo process .outside)
      | _ => none
  | .tryLock process =>
      match state.phase process with
      | .opened inode =>
          if (state.disk.contents inode).owner.isNone then
            some ((state.onDisk (state.disk.modify inode (lock process))).goTo process
              (.locked inode))
          else none
      | _ => none
  | .tryLockFailed process =>
      match state.phase process with
      | .opened _ => some (state.goTo process .contended)
      | _ => none
  | .stamp process =>
      match state.phase process with
      | .locked inode =>
          some ((state.onDisk (state.disk.modify inode (write process))).goTo process
            (.holding inode))
      | _ => none
  | .retry process =>
      match state.phase process with
      | .contended => some (state.goTo process .opening)
      | _ => none
  | .giveUp process =>
      match state.phase process with
      | .contended => some (state.goTo process .outside)
      | _ => none
  | .unlock process =>
      match state.phase process with
      | .holding inode =>
          some ((state.onDisk (state.disk.modify inode release)).goTo process (.unlocked inode))
      | _ => none
  | .close process =>
      match state.phase process with
      | .unlocked _ => some (state.goTo process .closed)
      | _ => none
  | .removeFile process =>
      match state.phase process with
      | .closed => some ((state.onDisk (state.disk.remove ())).goTo process .outside)
      | _ => none
  | .crash process =>
      match (state.phase process).held? with
      | some inode =>
          some ((state.onDisk (state.disk.modify inode release)).goTo process .outside)
      | none => some (state.goTo process .outside)

/-- The process has the lock, from the moment the kernel granted it until
`drop` gives it back. -/
def Holds (state : LockSystem Process) (process : Process) : Prop :=
  ((state.phase process).held?).isSome

def Exclusive (state : LockSystem Process) : Prop :=
  ∀ first second, state.Holds first → state.Holds second → first = second

/-- A lock is only granted on the inode that `.lock` still names, and the file
is only removed while nobody has locked it. -/
def Careful (state : LockSystem Process) : LockEvent Process → Prop
  | .tryLock process =>
      ∀ inode, state.phase process = .opened inode → state.disk.files () = some inode
  | .removeFile _ =>
      ∀ inode, state.disk.files () = some inode → (state.disk.contents inode).owner = none
  | _ => True

instance (state : LockSystem Process) (event : LockEvent Process) :
    Decidable (state.Careful event) :=
  match event with
  | .tryLock process =>
      match phase : state.phase process with
      | .opened inode => decidable_of_iff (state.disk.files () = some inode)
          ⟨fun named other same => by rw [phase] at same; cases same; exact named,
            fun all => all inode phase⟩
      | .outside | .opening | .locked _ | .holding _ | .contended | .unlocked _ | .closed =>
          isTrue (fun other same => by rw [phase] at same; cases same)
  | .removeFile _ =>
      match named : state.disk.files () with
      | some inode => decidable_of_iff ((state.disk.contents inode).owner = none)
          ⟨fun free other same => by rw [named] at same; cases same; exact free,
            fun all => all inode named⟩
      | none => isTrue (fun other same => by rw [named] at same; cases same)
  | .acquire _ | .openFile _ | .openFailed _ | .tryLockFailed _ | .stamp _ | .retry _
  | .giveUp _ | .unlock _ | .close _ | .crash _ => isTrue trivial

/-! ### The invariant -/

/-- Whoever holds the lock owns the inode that the name leads to. -/
def Sound (state : LockSystem Process) : Prop :=
  ∀ process inode, (state.phase process).held? = some inode →
    (state.disk.contents inode).owner = some process ∧ state.disk.files () = some inode

variable {state : LockSystem Process}

omit [DecidableEq Process] in
theorem exclusive_of_sound (sound : Sound state) : Exclusive state := by
  intro first second firstHolds secondHolds
  obtain ⟨inode, firstInode⟩ := Option.isSome_iff_exists.mp firstHolds
  obtain ⟨other, secondInode⟩ := Option.isSome_iff_exists.mp secondHolds
  obtain ⟨firstOwner, firstFile⟩ := sound first inode firstInode
  obtain ⟨secondOwner, secondFile⟩ := sound second other secondInode
  rw [firstFile] at secondFile
  cases secondFile
  rw [firstOwner] at secondOwner
  exact Option.some.inj secondOwner

theorem phase_goTo_other {process other : Process}
    (different : other ≠ process) (phase : LockPhase) :
    (state.goTo process phase).phase other = state.phase other :=
  Function.update_of_ne different _ _

theorem phase_goTo_self (state : LockSystem Process) (process : Process) (phase : LockPhase) :
    (state.goTo process phase).phase process = phase :=
  Function.update_self _ _ _

variable {process : Process}

/-- A step without a lock in hand that moves neither the disk. -/
theorem goTo_sound (sound : Sound state)
    {phase : LockPhase} (idle : phase.held? = none) : Sound (state.goTo process phase) := by
  intro other inode held
  by_cases same : other = process
  · subst same
    rw [phase_goTo_self, idle] at held
    cases held
  · rw [phase_goTo_other same] at held
    exact sound other inode held

/-- Changing what is kept for an inode that nobody else has locked. -/
theorem modify_sound (sound : Sound state)
    {inode : Inode} {phase : LockPhase} (change : LockFile Process → LockFile Process)
    (alone : ∀ other, other ≠ process → (state.phase other).held? ≠ some inode)
    (kept : ∀ held, phase.held? = some held → held = inode ∧ state.disk.files () = some inode ∧
      (change (state.disk.contents inode)).owner = some process) :
    Sound ((state.onDisk (state.disk.modify inode change)).goTo process phase) := by
  intro other held holds
  by_cases same : other = process
  · subst same
    rw [phase_goTo_self] at holds
    obtain ⟨rfl, named, owned⟩ := kept held holds
    refine ⟨?_, named⟩
    change (Function.update state.disk.contents held _ held).owner = some other
    rw [Function.update_self]
    exact owned
  · rw [phase_goTo_other same] at holds
    obtain ⟨owned, named⟩ := sound other held holds
    refine ⟨?_, named⟩
    have different : held ≠ inode := by
      intro equal
      subst equal
      exact alone other same holds
    change (Function.update state.disk.contents inode _ held).owner = some other
    rw [Function.update_of_ne different]
    exact owned

omit [DecidableEq Process] in
/-- Only the owner of an inode has it locked. -/
theorem alone_of_owner (sound : Sound state)
    {inode : Inode} (owner : (state.disk.contents inode).owner = some process) :
    ∀ other, other ≠ process → (state.phase other).held? ≠ some inode := by
  intro other different holds
  rw [(sound other inode holds).1] at owner
  exact different (Option.some.inj owner)

theorem step_sound {state after : LockSystem Process} {event : LockEvent Process}
    (sound : Sound state) (careful : state.Careful event)
    (step : state.next event = some after) : Sound after := by
  cases event with
  | acquire process =>
      simp only [next] at step
      split at step <;> cases step
      exact goTo_sound sound rfl
  | openFile process =>
      simp only [next] at step
      split at step <;> cases step
      apply goTo_sound _ rfl
      intro other inode held
      obtain ⟨owned, named⟩ := sound other inode held
      have same : state.disk.openFile unlocked () = (state.disk, inode) := by
        unfold Disk.openFile
        rw [named]
      change ((state.disk.openFile unlocked ()).1.contents inode).owner = _ ∧
        (state.disk.openFile unlocked ()).1.files () = _
      rw [same]
      exact ⟨owned, named⟩
  | openFailed process =>
      simp only [next] at step
      split at step <;> cases step
      exact goTo_sound sound rfl
  | tryLock process =>
      simp only [next] at step
      split at step
      · next inode phase =>
          split at step
          · next free =>
              cases step
              rw [Option.isNone_iff_eq_none] at free
              apply modify_sound sound
              · intro other _ holds
                rw [(sound other inode holds).1] at free
                cases free
              · intro held same
                cases same
                exact ⟨rfl, careful inode phase, rfl⟩
          · cases step
      · cases step
  | tryLockFailed process =>
      simp only [next] at step
      split at step <;> cases step
      exact goTo_sound sound rfl
  | stamp process =>
      simp only [next] at step
      split at step
      · next inode phase =>
          cases step
          have holds : (state.phase process).held? = some inode := by
            rw [phase]
            rfl
          obtain ⟨owned, named⟩ := sound process inode holds
          apply modify_sound sound _ (alone_of_owner sound owned)
          intro held same
          cases same
          exact ⟨rfl, named, owned⟩
      · cases step
  | retry process =>
      simp only [next] at step
      split at step <;> cases step
      exact goTo_sound sound rfl
  | giveUp process =>
      simp only [next] at step
      split at step <;> cases step
      exact goTo_sound sound rfl
  | unlock process =>
      simp only [next] at step
      split at step
      · next inode phase =>
          cases step
          have holds : (state.phase process).held? = some inode := by
            rw [phase]
            rfl
          apply modify_sound sound _ (alone_of_owner sound (sound process inode holds).1)
          intro held impossible
          cases impossible
      · cases step
  | close process =>
      simp only [next] at step
      split at step <;> cases step
      exact goTo_sound sound rfl
  | removeFile process =>
      simp only [next] at step
      split at step <;> cases step
      apply goTo_sound _ rfl
      -- the removed inode has no owner, so nobody held a lock at all
      intro other inode held
      obtain ⟨owned, named⟩ := sound other inode held
      rw [careful inode named] at owned
      cases owned
  | crash process =>
      simp only [next] at step
      split at step
      · next inode holds =>
          cases step
          apply modify_sound sound _ (alone_of_owner sound (sound process inode holds).1)
          intro held impossible
          cases impossible
      · cases step
        exact goTo_sound sound rfl

/-- At most one process has the lock as long as no lock is granted on an inode
that has lost its name and no locked file is removed. -/
theorem exclusive_of_careful {disk : Disk Unit (LockFile Process)}
    {history : List (LockSystem Process × LockEvent Process)} {final : LockSystem Process}
    (run : Run next (initial disk) history final) (careful : Respects Careful history) :
    Throughout Exclusive history final := by
  have start : Sound (initial disk) := by
    intro process inode impossible
    cases impossible
  have held := run.throughout_of_respects start
    (fun state event after sound allowed step => step_sound sound allowed step) careful
  exact ⟨fun taken member => exclusive_of_sound (held.1 taken member),
    exclusive_of_sound held.2⟩

def noFile : Disk Unit (LockFile Nat) :=
  Disk.empty unlocked

theorem exclusive_of_careful_turns :
    ∃ history final, Run next (initial noFile) history final ∧ history.length = 11 ∧
      final.phase 1 = .holding 1 ∧ Throughout Exclusive history final := by
  obtain ⟨history, final, run, labels, tested⟩ := Run.of_trace next (initial noFile)
    [.acquire 0, .openFile 0, .tryLock 0, .stamp 0, .unlock 0, .close 0, .removeFile 0,
      .acquire 1, .openFile 1, .tryLock 1, .stamp 1]
    (fun history final => Respects Careful history ∧ final.phase 1 = .holding 1) (by decide)
  obtain ⟨careful, holds⟩ := of_decide_eq_true tested
  refine ⟨history, final, run, ?_, holds, exclusive_of_careful run careful⟩
  rw [← List.length_map Prod.snd, labels]
  rfl

/-- Process 1 locks the inode between the unlock and the removal of process 0;
process 2 then creates a file of its own and locks that. -/
theorem removed_file_lets_two_in :
    ∃ history final, Run next (initial noFile) history final ∧
      history.map Prod.snd = [.acquire 0, .openFile 0, .tryLock 0, .stamp 0,
        .acquire 1, .openFile 1, .unlock 0, .tryLock 1, .stamp 1, .close 0, .removeFile 0,
        .acquire 2, .openFile 2, .tryLock 2, .stamp 2] ∧
      final.phase 1 = .holding 0 ∧ final.phase 2 = .holding 1 ∧ ¬ Exclusive final := by
  obtain ⟨history, final, run, labels, tested⟩ := Run.of_trace next (initial noFile)
    [.acquire 0, .openFile 0, .tryLock 0, .stamp 0, .acquire 1, .openFile 1, .unlock 0,
      .tryLock 1, .stamp 1, .close 0, .removeFile 0, .acquire 2, .openFile 2, .tryLock 2, .stamp 2]
    (fun _ final => final.phase 1 = .holding 0 ∧ final.phase 2 = .holding 1) (by decide)
  obtain ⟨first, second⟩ := of_decide_eq_true tested
  refine ⟨history, final, run, labels, first, second, ?_⟩
  intro exclusive
  have firstHolds : final.Holds 1 := by
    unfold Holds
    rw [first]
    rfl
  have secondHolds : final.Holds 2 := by
    unfold Holds
    rw [second]
    rfl
  exact absurd (exclusive 1 2 firstHolds secondHolds) (by decide)

end LockSystem

end Mneme.Cli
