/-
The ring of the last log lines of the workers.
-/

import Mathlib.Data.List.Induction
import Mneme.Common.Text
import Mneme.Supervisor.Control

namespace Mneme.Supervisor

open Common

def LogLevel.parse (s : String) : LogLevel :=
  match toAsciiLowercase s with
  | "trace" => .trace
  | "debug" => .debug
  | "info" => .info
  | "warn" | "warning" => .warn
  | "error" | "err" => .error
  | "fatal" | "critical" => .fatal
  | _ => .info

/-- A line of a child as it arrives at a moment, and what `from_str` makes of JSON text. -/
def parseLogLine (fromStr : String → Option Json) (timestamp child line : String) : LogEntry :=
  let trimmed := trim line
  let raw : LogEntry := { timestamp, child, level := .info, message := trimmed, fields := none }
  if trimmed.toList.head? = some '\x7b' then
    match fromStr trimmed with
    | some (.object fields) =>
        { timestamp, child
          level := ((fields.lookup "level").bind Json.string?).elim .info LogLevel.parse
          message := (((fields.lookup "message").or (fields.lookup "msg")).bind Json.string?).getD
            trimmed
          fields := some (.object fields) }
    | _ => raw
  else raw

structure LogRing where
  capacity : Nat
  /-- The oldest entry first. -/
  inner : List LogEntry
  positive : 0 < capacity
  bounded : inner.length ≤ capacity

namespace LogRing

def new (capacity : Nat) : LogRing :=
  { capacity := max capacity 16, inner := [], positive := by omega, bounded := Nat.zero_le _ }

def push (ring : LogRing) (entry : LogEntry) : LogRing :=
  { ring with
    inner := (if ring.inner.length = ring.capacity then ring.inner.tail else ring.inner) ++ [entry]
    bounded := by
      have bounded := ring.bounded
      have positive := ring.positive
      split <;> simp <;> omega }

def tail (ring : LogRing) (child : Option String) (n : Nat) : List LogEntry :=
  let collected := ring.inner.filter (fun entry => child.all (fun c => entry.child = c))
  collected.drop (collected.length - n)

/-- The lines, pushed as they come into a new ring. -/
def pushed (fromStr : String → Option Json) (capacity : Nat) (lines : List (String × String × String)) :
    LogRing :=
  lines.foldl (fun ring line => ring.push (parseLogLine fromStr line.1 line.2.1 line.2.2))
    (new capacity)

/-- The ring holds the entries that came last. -/
theorem inner_pushed (fromStr : String → Option Json) (capacity : Nat)
    (lines : List (String × String × String)) :
    (pushed fromStr capacity lines).capacity = max capacity 16 ∧
      (pushed fromStr capacity lines).inner =
        (lines.map (fun line => parseLogLine fromStr line.1 line.2.1 line.2.2)).drop
          (lines.length - max capacity 16) := by
  induction lines using List.reverseRecOn with
  | nil => exact ⟨rfl, List.drop_nil.symm⟩
  | append_singleton lines line ih =>
      obtain ⟨size, held⟩ := ih
      have last : pushed fromStr capacity (lines ++ [line]) = (pushed fromStr capacity lines).push
          (parseLogLine fromStr line.1 line.2.1 line.2.2) := List.foldl_concat ..
      rw [last]
      refine ⟨size, ?_⟩
      change (if (pushed fromStr capacity lines).inner.length = _ then _ else _) ++ _ = _
      rw [held, size, List.map_append, List.length_append, List.length_singleton,
        List.length_drop, List.length_map]
      split
      · rename_i full
        rw [List.tail_drop, List.drop_append_of_le_length (by rw [List.length_map]; omega)]
        congr 2
        omega
      · rw [List.drop_append_of_le_length (by rw [List.length_map]; omega)]
        congr 2
        omega

/-- The tail of a child is the end of all its lines, cut off by the number asked for and by the
lines of all children that the ring still holds. -/
theorem tail_pushed (fromStr : String → Option Json) (capacity n : Nat) (child : Option String)
    (lines : List (String × String × String)) :
    let entries := lines.map (fun line => parseLogLine fromStr line.1 line.2.1 line.2.2)
    let own := fun entry : LogEntry => child.all (fun c => decide (entry.child = c))
    (pushed fromStr capacity lines).tail child n <:+ entries.filter own ∧
      ((pushed fromStr capacity lines).tail child n).length =
        min n ((entries.drop (entries.length - max capacity 16)).countP own) := by
  intro entries own
  have held : (pushed fromStr capacity lines).inner =
      entries.drop (entries.length - max capacity 16) := by
    rw [(inner_pushed fromStr capacity lines).2, List.length_map]
  unfold tail
  rw [held]
  constructor
  · exact (List.drop_suffix _ _).trans ((List.drop_suffix _ entries).filter own)
  · rw [List.length_drop, List.countP_eq_length_filter]
    have cut : ∀ size : Nat, size - (size - n) = min n size := by omega
    exact cut _

end LogRing

end Mneme.Supervisor
