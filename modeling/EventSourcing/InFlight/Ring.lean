import EventSourcing.InFlight
import EventSourcing.Keyed

/-!
# The ring of commands in flight

The tracker as it is laid out: a ring of slots whose length is a power of two, the slot of the
oldest entry, the number of entries, and the count of entries of each source. The entry `k`
places after the oldest sits in slot `(head + k) &&& (length - 1)`. A send into a full ring
first doubles it, copying the entries out oldest first, so that the oldest sits in the first
slot. A source's count is a 32-bit word, and a source whose count drops to zero leaves the
counts.

Where the program stops with a panic an operation gives no ring: a ring too large to ask
memory for, and a send into a ring without slots.

`InFlight.step` and `Ring.step` run one operation of the tracker's interface on the queue view
and on the ring.
-/

namespace EventSourcing

namespace InFlight

/-- An operation on a tracker. -/
inductive Op where
  /-- A command was sent. -/
  | sent (source : SourceId) (sequence : UInt64) (time : Timestamp)
  /-- An event was applied. -/
  | event (source : SourceId) (sequence : UInt64) (kind : EventKind)
  /-- An event is checked without being applied. -/
  | check (source : SourceId) (sequence : UInt64) (kind : EventKind)
  /-- The sending side takes a command back. -/
  | undo (source : SourceId) (sequence : UInt64)
  deriving DecidableEq, Repr

/-- What an operation answers. -/
inductive Reply where
  | sent
  | verdict (result : Except InFlightError Bool)
  | undone (taken : Bool)
  deriving Repr

/-- Runs an operation on the queue of commands in flight. -/
def step (t : InFlight) : Op → Reply × InFlight
  | .sent source sequence time => (.sent, t.send source sequence time)
  | .event source sequence kind =>
    match t.acknowledge source sequence kind with
    | .ok (b, t') => (.verdict (.ok b), t')
    | .error e => (.verdict (.error e), t)
  | .check source sequence kind => (.verdict (t.check source sequence kind), t)
  | .undo source sequence =>
    let (b, t') := t.undo source sequence
    (.undone b, t')

/-- Runs operations one after the other on the queue; gives the replies in order. -/
def run (t : InFlight) : List Op → List Reply × InFlight
  | [] => ([], t)
  | op :: ops =>
    let (reply, t₁) := t.step op
    let (replies, t₂) := t₁.run ops
    (reply :: replies, t₂)

/-- The tracker as it is laid out: slots, the slot of the oldest entry, the number of entries,
and the count of entries of each source that has any. -/
structure Ring where
  slots : List InFlightEntry
  head : Nat
  len : Nat
  counts : List (SourceId × UInt32)
  deriving Repr

namespace Ring

/-- The number of slots. -/
def capacity (r : Ring) : Nat := r.slots.length

/-- The slot of the entry `offset` places after the oldest. -/
def slot (r : Ring) (offset : Nat) : Nat := (r.head + offset) &&& (r.capacity - 1)

/-- The entry `offset` places after the oldest. -/
def entryAt (r : Ring) (offset : Nat) : InFlightEntry := r.slots.getD (r.slot offset) default

/-- The commands in flight, oldest first. -/
def entries (r : Ring) : List InFlightEntry := (List.range r.len).map r.entryAt

/-- The number of commands of a source in flight, as its count says. -/
def countFor (r : Ring) (source : SourceId) : Nat := (Keyed.findD r.counts source 0).toNat

/-- Whether a command of the source is in flight, as the counts say. -/
def holds (r : Ring) (source : SourceId) : Bool := Keyed.contains r.counts source

/-- The oldest command in flight. -/
def oldest? (r : Ring) : Option InFlightEntry :=
  if 0 < r.len then some (r.slots.getD r.head default) else none

/-- The queue the ring holds: its entries, oldest first, and its number of slots. -/
def toQueue (r : Ring) : InFlight := ⟨r.entries, r.capacity, false⟩

/-- The sources with commands in flight, in ascending order, each with its count. -/
def perSource (r : Ring) : List (SourceId × Nat) :=
  r.toQueue.perSource.map fun (s, _) => (s, r.countFor s)

/-- An empty ring with room for `capacity` commands, or none when that room cannot be asked
for. -/
def withCapacity (capacity : Nat) : Option Ring :=
  if fits capacity then some ⟨List.replicate (roomFor capacity) default, 0, 0, []⟩ else none

/-- Whether `n` slots can be asked for: each takes 24 bytes, and no block of more than
`2^63 - 1` bytes can be. -/
def slotsFit (n : Nat) : Bool := n * 24 ≤ 9223372036854775807

/-- Doubles the ring, copying its entries out oldest first. -/
def grow (r : Ring) : Option Ring :=
  if slotsFit (2 * r.capacity) then
    some { r with
      slots := r.slots.drop r.head ++ r.slots.take r.head ++ List.replicate r.capacity default
      head := 0 }
  else none

/-- One more entry of a source. -/
def countUp (counts : List (SourceId × UInt32)) (source : SourceId) : List (SourceId × UInt32) :=
  Keyed.insert counts source (Keyed.findD counts source 0 + 1)

/-- One entry of a source less; a source whose count reaches zero leaves. -/
def countDown (counts : List (SourceId × UInt32)) (source : SourceId) :
    List (SourceId × UInt32) :=
  match Keyed.find? counts source with
  | none => counts
  | some n => if n - 1 = 0 then Keyed.erase counts source else Keyed.insert counts source (n - 1)

/-- Writes an entry after the newest, into a ring with room for it; a ring without slots has
no slot to write. -/
def push (r : Ring) (e : InFlightEntry) : Option Ring :=
  if r.capacity = 0 then none
  else some { r with slots := r.slots.set (r.slot r.len) e, len := r.len + 1,
                     counts := countUp r.counts e.source }

/-- Records a command as sent, doubling a full ring first. -/
def send (r : Ring) (source : SourceId) (sequence : UInt64) (time : Timestamp) : Option Ring :=
  (if r.len = r.capacity then r.grow else some r).bind (·.push ⟨source, sequence, time⟩)

/-- Takes back the newest command when it is the one named; says whether it was. -/
def undo (r : Ring) (source : SourceId) (sequence : UInt64) : Bool × Ring :=
  if r.len = 0 then (false, r)
  else
    let newest := r.entryAt (r.len - 1)
    if newest.source = source ∧ newest.sequence = sequence then
      (true, { r with len := r.len - 1, counts := countDown r.counts source })
    else (false, r)

/-- Whether an event of the given kind acknowledges the oldest command: `false` for an
intermediary event or a source the counts do not hold, an error for an event out of order. -/
def check (r : Ring) (source : SourceId) (sequence : UInt64) (kind : EventKind) :
    Except InFlightError Bool :=
  if !kind.isTerminal || !r.holds source then .ok false
  else
    let head := r.slots.getD r.head default
    if head.source ≠ source then
      .error (.sourceMismatch source sequence head.source head.sequence)
    else if head.sequence ≠ sequence then
      .error (.sequenceMismatch source head.sequence sequence)
    else .ok true

/-- Applies an event: when it acknowledges the oldest command, the head moves on. -/
def acknowledge (r : Ring) (source : SourceId) (sequence : UInt64) (kind : EventKind) :
    Except InFlightError (Bool × Ring) :=
  match r.check source sequence kind with
  | .error e => .error e
  | .ok false => .ok (false, r)
  | .ok true =>
    .ok (true, { r with head := (r.head + 1) &&& (r.capacity - 1), len := r.len - 1,
                        counts := countDown r.counts source })

/-- Runs an operation on the ring; none when the program panics. -/
def step (r : Ring) : Op → Option (Reply × Ring)
  | .sent source sequence time => (r.send source sequence time).map fun r' => (.sent, r')
  | .event source sequence kind =>
    match r.acknowledge source sequence kind with
    | .ok (b, r') => some (.verdict (.ok b), r')
    | .error e => some (.verdict (.error e), r)
  | .check source sequence kind => some (.verdict (r.check source sequence kind), r)
  | .undo source sequence =>
    let (b, r') := r.undo source sequence
    some (.undone b, r')

/-- Runs operations one after the other on the ring; none when one panics. -/
def run (r : Ring) : List Op → Option (List Reply × Ring)
  | [] => some ([], r)
  | op :: ops => do
    let (reply, r₁) ← r.step op
    let (replies, r₂) ← r₁.run ops
    pure (reply :: replies, r₂)

end Ring

end InFlight

end EventSourcing
