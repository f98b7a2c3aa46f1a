import EventSourcing.Record.Basic

/-!
# Commands in flight

A command is in flight from the moment it is sent until the terminal event of its
transaction is applied. Because commands are processed in the order they were logged,
terminal events must acknowledge the in-flight commands oldest first: the tracker is a FIFO
queue. It keeps the queue together with a capacity, a power of two that doubles whenever a
command is sent while the queue fills it.

A terminal event is checked against the oldest entry when its source has anything in
flight: another source at the head, or another sequence of the same source, is an ordering
violation.
-/

namespace EventSourcing

/-- A command in flight: its source, sequence and the time it was sent. -/
structure InFlightEntry where
  source : SourceId
  sequence : UInt64
  time : Timestamp
  deriving DecidableEq, Repr, Inhabited

/-- A terminal event that does not acknowledge the oldest command in flight. -/
inductive InFlightError where
  /-- The head is of the event's source, with another sequence. -/
  | sequenceMismatch (source : SourceId) (expected received : UInt64)
  /-- The head is of another source. -/
  | sourceMismatch (source : SourceId) (received : UInt64) (headSource : SourceId)
      (headSequence : UInt64)
  deriving DecidableEq, Repr

namespace InFlightError

/-- The sentence that reports the error. -/
def message : InFlightError → String
  | sequenceMismatch source expected received =>
    s!"terminal event for source {source} sequence {received} acknowledged out of order: " ++
      s!"oldest in-flight sequence is {expected}"
  | sourceMismatch source received headSource headSequence =>
    s!"terminal event for source {source} sequence {received} arrived while the oldest " ++
      s!"in-flight command is source {headSource} sequence {headSequence}"

end InFlightError

/-- The commands in flight, oldest first, and the capacity they have room for. A tracker whose
room wrapped around to zero cannot hold a command: sending one breaks it. -/
structure InFlight where
  entries : List InFlightEntry
  capacity : Nat
  broken : Bool := false
  deriving Repr

namespace InFlight

/-- The room for at least `capacity` commands, and two at least: a power of two, counted in a
64-bit word, so that asking for more than `2^63` wraps the room around to zero. -/
def roomFor (capacity : Nat) : Nat := (max capacity 2).nextPowerOfTwo % 18446744073709551616

/-- Whether the room for `capacity` commands can be set up: each entry takes 24 bytes, and no
block of more than `2^63 - 1` bytes can be asked for. -/
def fits (capacity : Nat) : Bool := roomFor capacity * 24 ≤ 9223372036854775807

/-- An empty tracker with the room for `capacity` commands. -/
def withCapacity (capacity : Nat) : InFlight := ⟨[], roomFor capacity, false⟩

/-- The room a tracker has unless told otherwise. -/
def defaultCapacity : Nat := 64

instance : Inhabited InFlight := ⟨withCapacity defaultCapacity⟩

/-- The number of commands in flight. -/
def size (t : InFlight) : Nat := t.entries.length

/-- Whether any command is in flight. -/
def hasAny (t : InFlight) : Bool := !t.entries.isEmpty

/-- The number of commands of a source in flight. -/
def countFor (t : InFlight) (source : SourceId) : Nat := t.entries.countP (·.source == source)

/-- Whether a command of the source is in flight. -/
def holds (t : InFlight) (source : SourceId) : Bool := t.entries.any (·.source == source)

/-- The oldest command in flight. -/
def oldest? (t : InFlight) : Option InFlightEntry := t.entries.head?

/-- The sources with commands in flight, in ascending order, each with its count. -/
def perSource (t : InFlight) : List (SourceId × Nat) :=
  let ids := t.entries.map (·.source)
  let sorted := (ids.eraseDups).mergeSort (fun a b => decide (a ≤ b))
  sorted.map fun s => (s, t.countFor s)

/-- Records a command as sent; the room doubles when the queue fills it, and a tracker without
room breaks. -/
def send (t : InFlight) (source : SourceId) (sequence : UInt64) (time : Timestamp) : InFlight :=
  { entries := t.entries ++ [⟨source, sequence, time⟩]
    capacity := if t.entries.length = t.capacity then 2 * t.capacity else t.capacity
    broken := t.broken || t.capacity == 0 }

/-- Takes back the newest command when it is the one named; says whether it was. -/
def undo (t : InFlight) (source : SourceId) (sequence : UInt64) : Bool × InFlight :=
  match t.entries.getLast? with
  | some e =>
    if e.source = source ∧ e.sequence = sequence then (true, { t with entries := t.entries.dropLast })
    else (false, t)
  | none => (false, t)

/-- Whether an event of the given kind acknowledges the oldest command: `false` for an
intermediary event or a source with nothing in flight, an error for an event out of order. -/
def check (t : InFlight) (source : SourceId) (sequence : UInt64) (kind : EventKind) :
    Except InFlightError Bool :=
  if !kind.isTerminal || !t.holds source then .ok false
  else
    match t.entries with
    | [] => .ok false
    | head :: _ =>
      if head.source ≠ source then
        .error (.sourceMismatch source sequence head.source head.sequence)
      else if head.sequence ≠ sequence then
        .error (.sequenceMismatch source head.sequence sequence)
      else .ok true

/-- Applies an event: when it acknowledges the oldest command, that command leaves. -/
def acknowledge (t : InFlight) (source : SourceId) (sequence : UInt64) (kind : EventKind) :
    Except InFlightError (Bool × InFlight) :=
  match t.check source sequence kind with
  | .error e => .error e
  | .ok false => .ok (false, t)
  | .ok true => .ok (true, { t with entries := t.entries.tail })

/-- A check that goes through tells the acknowledgement whether the oldest command leaves. -/
theorem acknowledge_of_check {t : InFlight} {source : SourceId} {sequence : UInt64}
    {kind : EventKind} {b : Bool} (h : t.check source sequence kind = .ok b) :
    t.acknowledge source sequence kind =
      .ok (b, if b then { t with entries := t.entries.tail } else t) := by
  unfold acknowledge
  cases b <;> simp [h]

/-- With nothing in flight, every event goes through and acknowledges nothing. -/
theorem check_of_entries_nil {t : InFlight} (h : t.entries = []) (source : SourceId)
    (sequence : UInt64) (kind : EventKind) : t.check source sequence kind = .ok false := by
  simp [check, holds, h]

/-- An event that is not terminal acknowledges nothing. -/
theorem acknowledge_of_not_terminal (t : InFlight) (source : SourceId) (sequence : UInt64)
    {kind : EventKind} (h : kind.isTerminal = false) :
    t.acknowledge source sequence kind = .ok (false, t) := by
  simp [acknowledge, check, h]

/-- A terminal event of the oldest command in flight takes it out. -/
theorem acknowledge_head {t : InFlight} {e : InFlightEntry} {rest : List InFlightEntry}
    (ht : t.entries = e :: rest) {kind : EventKind} (h : kind.isTerminal = true) :
    t.acknowledge e.source e.sequence kind = .ok (true, { t with entries := rest }) := by
  simp [acknowledge, check, holds, ht, h]

/-- Taking back the command just sent leaves the commands in flight as they were. -/
theorem entries_undo_send (t : InFlight) (source : SourceId) (sequence : UInt64)
    (time : Timestamp) : ((t.send source sequence time).undo source sequence).2.entries = t.entries := by
  simp [undo, send]

@[simp]
theorem entries_send (t : InFlight) (source : SourceId) (sequence : UInt64) (time : Timestamp) :
    (t.send source sequence time).entries = t.entries ++ [⟨source, sequence, time⟩] := rfl

end InFlight

end EventSourcing
