import EventSourcing.MessageLog
import Std.Data.HashMap

/-!
# A message log in one arena

The log as the in-memory store lays it out: the messages back to back in one byte arena, a
table with the start and end offset of each message, the positions of the pollers in a hash
map, and an optional capacity. Reading a message slices the arena between its offsets;
appending copies the message to the end of the arena and records where it lies. A batch is
checked against the capacity as a whole, then copied message by message.

`MessageLog.Op` names the operations of a log; `MessageLog.step` runs one of them on the log
the engine keeps, and `ArenaLog.step` on the arena. An operation the arena refuses leaves it as
it was.
-/

namespace EventSourcing

namespace MessageLog

/-- An operation on a message log. -/
inductive Op where
  | append (message : Bytes)
  | appendBatch (messages : List Bytes)
  | read (index : Nat)
  | peek (poller : String)
  | position (poller : String)
  | advance (poller : String)
  | moveTo (poller : String) (position : Nat)
  /-- Peeks, and moves the poller past the message peeked. -/
  | poll (poller : String)
  /-- Lists every message with its index. -/
  | iter
  deriving DecidableEq, Repr

/-- What an operation on a message log answers. -/
inductive Reply where
  /-- The index of the message appended, or of the first message of a batch. -/
  | index (i : Nat)
  | refused (e : StoreError)
  | read (message : Option Bytes)
  | peeked (message : Option Stored)
  | position (n : Nat)
  /-- A poller moved. -/
  | moved
  | polled (message : Option Stored)
  | listed (messages : List Stored)
  deriving DecidableEq, Repr

/-- Runs an operation on the log the engine keeps; a refused operation leaves the log as it
was, but for the messages before the one that failed when batches go in one at a time. -/
def step (log : MessageLog) : Op → Reply × MessageLog
  | .append message =>
    match log.append message with
    | .ok (i, log') => (.index i, log')
    | .error e => (.refused e, log)
  | .appendBatch messages =>
    match log.appendBatch messages with
    | (.ok i, log') => (.index i, log')
    | (.error e, log') => (.refused e, log')
  | .read index => (.read (log.read? index), log)
  | .peek poller => (.peeked (log.peek? poller), log)
  | .position poller => (.position (log.position poller), log)
  | .advance poller =>
    match log.advance poller with
    | .ok log' => (.moved, log')
    | .error e => (.refused e, log)
  | .moveTo poller position =>
    match log.moveTo poller position with
    | .ok log' => (.moved, log')
    | .error e => (.refused e, log)
  | .poll poller =>
    match log.poll poller with
    | .ok (m, log') => (.polled m, log')
    | .error e => (.refused e, log)
  | .iter => (.listed log.toStored, log)

/-- Runs operations one after the other; gives the replies in order. -/
def run (log : MessageLog) : List Op → List Reply × MessageLog
  | [] => ([], log)
  | op :: ops =>
    let (reply, log₁) := log.step op
    let (replies, log₂) := log₁.run ops
    (reply :: replies, log₂)

end MessageLog

/-- A message log laid out in one byte arena. -/
structure ArenaLog where
  /-- The messages, back to back. -/
  data : Array UInt8 := #[]
  /-- The start and end offsets in `data` of each message, in log order. -/
  bounds : Array (Nat × Nat) := #[]
  /-- The positions of the pollers moved so far. -/
  pollers : Std.HashMap String Nat := {}
  capacity : Option Nat := none

namespace ArenaLog

/-- A log without a capacity. -/
def new : ArenaLog := {}

/-- A log that refuses appends once it holds `capacity` messages. -/
def withCapacityLimit (capacity : Nat) : ArenaLog := { capacity := some capacity }

/-- The number of messages. -/
def length (a : ArenaLog) : Nat := a.bounds.size

/-- Refuses `additional` more messages when they would pass the capacity. -/
def checkCapacity (a : ArenaLog) (additional : Nat) : Except StoreError Unit :=
  match a.capacity with
  | some capacity =>
    if capacity < a.length + additional then .error (.full capacity) else .ok ()
  | none => .ok ()

/-- Copies a message to the end of the arena and records its offsets; gives its index. -/
def push (a : ArenaLog) (message : Bytes) : Nat × ArenaLog :=
  let start := a.data.size
  let data := a.data ++ message.toArray
  let bounds := a.bounds.push (start, data.size)
  (bounds.size - 1, { a with data := data, bounds := bounds })

/-- Appends a message and gives its index. -/
def append (a : ArenaLog) (message : Bytes) : Except StoreError (Nat × ArenaLog) := do
  a.checkCapacity 1
  pure (a.push message)

/-- Appends a batch, all of it or none, and gives the index of its first message. -/
def appendBatch (a : ArenaLog) (messages : List Bytes) : Except StoreError (Nat × ArenaLog) := do
  a.checkCapacity messages.length
  pure (a.length, messages.foldl (fun a m => (a.push m).2) a)

/-- The bytes of the arena between two offsets. -/
def slice (a : ArenaLog) (start stop : Nat) : Bytes := (a.data.extract start stop).toList

/-- The message at an index. -/
def read? (a : ArenaLog) (index : Nat) : Option Bytes :=
  a.bounds[index]?.map fun (start, stop) => a.slice start stop

/-- The position of a poller; 0 for one never moved. -/
def position (a : ArenaLog) (poller : String) : Nat := a.pollers.getD poller 0

/-- The message a poller points at. -/
def peek? (a : ArenaLog) (poller : String) : Option Stored :=
  let index := a.position poller
  (a.read? index).map (⟨index, ·⟩)

/-- Moves a poller one message on. -/
def advance (a : ArenaLog) (poller : String) : Except StoreError ArenaLog :=
  let position := a.position poller
  if a.length ≤ position then .error (.endOfLog poller)
  else .ok { a with pollers := a.pollers.insert poller (position + 1) }

/-- Moves a poller to a position, which may be the end of the log but not past it. -/
def moveTo (a : ArenaLog) (poller : String) (position : Nat) : Except StoreError ArenaLog :=
  if a.length < position then .error (.invalidPosition poller position a.length)
  else .ok { a with pollers := a.pollers.insert poller position }

/-- Takes the message a poller points at and moves the poller on. -/
def poll (a : ArenaLog) (poller : String) : Except StoreError (Option Stored × ArenaLog) :=
  match a.peek? poller with
  | none => .ok (none, a)
  | some m => (fun a' => (some m, a')) <$> a.advance poller

/-- All messages with their indexes. -/
def iter (a : ArenaLog) : List Stored :=
  a.bounds.toList.zipIdx.map fun ((start, stop), index) => ⟨index, a.slice start stop⟩

/-- The pollers moved so far with their positions, by name. -/
def movedPollers (a : ArenaLog) : List (String × Nat) :=
  a.pollers.toList.mergeSort fun x y => decide (x.1 ≤ y.1)

/-- Runs an operation on the log; a refused operation leaves the log as it was. -/
def step (a : ArenaLog) : MessageLog.Op → MessageLog.Reply × ArenaLog
  | .append message =>
    match a.append message with
    | .ok (i, a') => (.index i, a')
    | .error e => (.refused e, a)
  | .appendBatch messages =>
    match a.appendBatch messages with
    | .ok (i, a') => (.index i, a')
    | .error e => (.refused e, a)
  | .read index => (.read (a.read? index), a)
  | .peek poller => (.peeked (a.peek? poller), a)
  | .position poller => (.position (a.position poller), a)
  | .advance poller =>
    match a.advance poller with
    | .ok a' => (.moved, a')
    | .error e => (.refused e, a)
  | .moveTo poller position =>
    match a.moveTo poller position with
    | .ok a' => (.moved, a')
    | .error e => (.refused e, a)
  | .poll poller =>
    match a.poll poller with
    | .ok (m, a') => (.polled m, a')
    | .error e => (.refused e, a)
  | .iter => (.listed a.iter, a)

/-- Runs operations one after the other; gives the replies in order. -/
def run (a : ArenaLog) : List MessageLog.Op → List MessageLog.Reply × ArenaLog
  | [] => ([], a)
  | op :: ops =>
    let (reply, a₁) := a.step op
    let (replies, a₂) := a₁.run ops
    (reply :: replies, a₂)

end ArenaLog

end EventSourcing
