import EventSourcing.Record.Basic
import EventSourcing.Keyed

/-!
# The transient state

What an engine has seen of the logs since it was built, whether or not it has been applied:
the largest event sequence, the largest command sequence of each source, and the newest
event time. Sequencers start a source after the larger of its base watermark and what is
seen here, so that a new command never reuses a logged sequence.
-/

namespace EventSourcing

/-- The maxima seen in the logs since the engine was built. -/
structure Transient where
  maxEvent : UInt64 := 0
  /-- The largest command sequence of each source named so far, by ascending source. -/
  sources : List (SourceId × UInt64) := []
  newestEventTime : Option Timestamp := none
  deriving DecidableEq, Repr, Inhabited

namespace Transient

/-- The largest command sequence seen of a source; 0 for none. -/
def maxSource (t : Transient) (source : SourceId) : UInt64 := Keyed.findD t.sources source 0

/-- Notes a logged command. -/
def noteCommand (t : Transient) (source : SourceId) (sequence : UInt64) : Transient :=
  { t with sources := Keyed.insert t.sources source (max (t.maxSource source) sequence) }

/-- Notes a logged event with its time; a time counts as newest only when it is later. -/
def noteEvent (t : Transient) (sequence : UInt64) (time : Timestamp) : Transient :=
  { t with
    maxEvent := max t.maxEvent sequence
    newestEventTime :=
      match t.newestEventTime with
      | some newest => if newest < time then some time else some newest
      | none => some time }

theorem maxSource_noteCommand (t : Transient) (source : SourceId) (sequence : UInt64) :
    (t.noteCommand source sequence).maxSource source = max (t.maxSource source) sequence := by
  simp [noteCommand, maxSource, Keyed.findD]

/-- Noting a command raises its source's maximum to its sequence when that is above, and leaves
every other source's as it was. -/
theorem maxSource_noteCommand_eq (t : Transient) (source x : SourceId) (sequence : UInt64) :
    (t.noteCommand source sequence).maxSource x =
      if source = x ∧ t.maxSource x < sequence then sequence else t.maxSource x := by
  by_cases hx : source = x
  · subst hx
    rw [maxSource_noteCommand]
    by_cases hlt : t.maxSource source < sequence
    · simp [hlt, max, UInt64.le_of_lt hlt]
    · have hle : sequence ≤ t.maxSource source := UInt64.not_lt.1 hlt
      simp only [hlt, and_false, if_false, max]
      split
      · exact UInt64.le_antisymm hle ‹_›
      · rfl
  · simp [noteCommand, maxSource, Keyed.findD, Keyed.find?_insert_of_ne _ _ _ _ (Ne.symm hx), hx]

end Transient

end EventSourcing
