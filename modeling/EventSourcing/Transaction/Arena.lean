import EventSourcing.Transaction
import EventSourcing.Record.Codec

/-!
# A transaction in one arena

The buffers of one command transaction as the engine lays them out, cleared and reused for
every command: the payloads of the routed events back to back in one byte arena, with the
payload type and the offsets of each, whether the transaction is aborted, and the records of
the last batch encoded, back to back in a second buffer with the offsets of each.

Routing copies the payload to the end of the arena, or lets an encoder append it there, and
records where it lies. What a failing encoder appended, and a payload too large for a record's
size field, are cut back out of the arena. Encoding the batch writes the records of its events
into the second buffer; the batch is read back by slicing that buffer.
-/

namespace EventSourcing

/-- A routed event in the arena: its payload type and the offsets where its payload starts and
ends. -/
structure RoutedSpan where
  payloadType : PayloadType
  start : Nat
  stop : Nat
  deriving DecidableEq, Repr

/-- The buffers of one command transaction. -/
structure Transaction where
  arena : Bytes := []
  routed : List RoutedSpan := []
  aborted : Bool := false
  /-- The records of the last batch encoded, back to back. -/
  encoded : Bytes := []
  /-- Where each record of the last batch starts and ends in `encoded`. -/
  bounds : List (Nat × Nat) := []
  deriving DecidableEq, Repr

namespace Transaction

/-- Clears the buffers for the next command. -/
def begin (t : Transaction) : Transaction :=
  { t with arena := [], routed := [], aborted := false, encoded := [], bounds := [] }

def abort (t : Transaction) : Transaction := { t with aborted := true }

def eventCount (t : Transaction) : Nat := t.routed.length

/-- Records what lies in the arena from `start` on as the next routed event and gives its index;
a payload that a record's size field cannot declare is cut back out. -/
def push (t : Transaction) (payloadType : PayloadType) (start : Nat) :
    Except RouteError Nat × Transaction :=
  let stop := t.arena.length
  if Router.maxPayload < stop - start then
    (.error (.payloadTooLarge (stop - start)), { t with arena := t.arena.take start })
  else (.ok t.routed.length, { t with routed := t.routed ++ [⟨payloadType, start, stop⟩] })

/-- Refuses to route once the transaction of the command `c` is aborted. -/
def ensureOpen (t : Transaction) (c : Command) : Except RouteError Unit :=
  if t.aborted then .error (.aborted c.source c.sequence) else .ok ()

/-- Routes an event of the command `c`, copying its payload to the end of the arena. -/
def route (t : Transaction) (c : Command) (payloadType : PayloadType) (payload : Bytes) :
    Except RouteError Nat × Transaction :=
  match t.ensureOpen c with
  | .error e => (.error e, t)
  | .ok () => { t with arena := t.arena ++ payload }.push payloadType t.arena.length

/-- Routes an event of the command `c` whose payload an encoder appends to the arena: `written`
is what it appends, and `result` whether it then fails. What a failing encoder appended is cut
back out, and nothing is routed. -/
def routeWith (t : Transaction) (c : Command) (payloadType : PayloadType) (written : Bytes)
    (result : Except Failure Unit) : Except RouteError Nat × Transaction :=
  match t.ensureOpen c with
  | .error e => (.error e, t)
  | .ok () =>
    let start := t.arena.length
    match result with
    | .error f => (.error (.encode f), { t with arena := (t.arena ++ written).take start })
    | .ok () => { t with arena := t.arena ++ written }.push payloadType start

/-- The records of the batch last encoded. -/
def batch (t : Transaction) : List Bytes :=
  t.bounds.map fun b => t.encoded.extract b.1 b.2

/-- What a processor does to its command's transaction. -/
inductive Op where
  | route (payloadType : PayloadType) (payload : Bytes)
  /-- An encoder appends `written` to the arena, then succeeds or fails. -/
  | routeWith (payloadType : PayloadType) (written : Bytes) (result : Except Failure Unit)
  | abort

/-- Performs an operation for the command `c`: what routing answers, or nothing for an abort,
and the buffers after it. -/
def perform (t : Transaction) (c : Command) : Op → Option (Except RouteError Nat) × Transaction
  | .route pt p => ((t.route c pt p).1, (t.route c pt p).2)
  | .routeWith pt written result =>
    ((t.routeWith c pt written result).1, (t.routeWith c pt written result).2)
  | .abort => (none, t.abort)

/-- Performs operations one after the other: the answers, in order, and the buffers after the
last. -/
def runOps (t : Transaction) (c : Command) : List Op → List (Option (Except RouteError Nat)) × Transaction
  | [] => ([], t)
  | op :: ops =>
    let (a, t₁) := t.perform c op
    let (as, t₂) := t₁.runOps c ops
    (a :: as, t₂)

end Transaction

end EventSourcing
