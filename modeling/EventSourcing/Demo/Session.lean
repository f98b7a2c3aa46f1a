import EventSourcing.Engine.Run
import EventSourcing.Engine.Report
import EventSourcing.Demo.Workload

/-!
# Inventory sessions

The warehouse on an engine over in-memory logs, with a reorder output that restocks an item
by 10 once it falls below 3. Two sessions drive it with a generated workload:

* a workload run sends the commands one a cycle and settles; then a second engine starts over
  the same logs with an empty warehouse, and replay has to rebuild the same stock and the
  same last event;
* a serving session sends one command a tick and settles after each.

The demo's times never show, so the clock stands still at 0.
-/

namespace EventSourcing

namespace Inventory

/-- The level below which the reorder output restocks an item. -/
def reorderThreshold : Int64 := 3

/-- The quantity the reorder output restocks. -/
def reorderBatch : Int64 := 10

/-- The warehouse's engine over the given logs. -/
def blueprint (config : EngineConfig) (commands events : MessageLog) : Blueprint Warehouse where
  commands := commands
  events := events
  config := config
  processor := some (Warehouse.processor Focus.whole)
  applier := some (Warehouse.applier Focus.whole)
  outputs := [Warehouse.reorder reorderThreshold reorderBatch]

/-- What the replay into a fresh engine found. -/
structure ReplaySummary where
  status : EngineStatus
  /-- Whether the replayed stock and last event are the live engine's. -/
  stateMatches : Bool
  /-- How many events the replaying engine appended. -/
  eventsAppended : Nat
  deriving DecidableEq, Repr

/-- What a workload run reports. -/
structure RunSummary where
  counters : EngineCounters
  /-- The live stock, by item. -/
  stock : List (String × Int64)
  commandsLogged : Nat
  eventsLogged : Nat
  replay : ReplaySummary
  deriving DecidableEq, Repr

/-- The replay summary as a JSON object. -/
def ReplaySummary.toJson (r : ReplaySummary) : Json :=
  .obj [("status", r.status.toJson), ("state_matches", .bool r.stateMatches),
    ("events_appended", .nat r.eventsAppended)]

/-- The run summary as a JSON object. -/
def RunSummary.toJson (r : RunSummary) : Json :=
  .obj [("counters", r.counters.toJson),
    ("stock", .obj (r.stock.map fun (item, level) => (item, .int level.toInt))),
    ("commands_logged", .nat r.commandsLogged), ("events_logged", .nat r.eventsLogged),
    ("replay", r.replay.toJson)]

/-- An engine with its warehouse. -/
structure Session where
  engine : Engine Warehouse
  warehouse : Warehouse

namespace Session

/-- Runs an engine call; an error ends the session. -/
def call {α : Type} (s : Session) (m : EngineM Warehouse α) : Except EngineError (α × Session) :=
  let (result, (e, w)) := ((m.run).run 0).run (s.engine, s.warehouse)
  (fun a => (a, ⟨e, w⟩)) <$> result

/-- Builds and starts the warehouse's engine over the given logs, with an empty warehouse. -/
def start (config : EngineConfig) (commands events : MessageLog) :
    Except EngineError (EngineStatus × Session) := do
  let engine ← (blueprint config commands events).build
  Session.call ⟨engine, {}⟩ Engine.start

/-- Sends a generated command. -/
def send (s : Session) (command : SourceId × PayloadType × String) : Except EngineError Session :=
  let (source, payloadType, text) := command
  Prod.snd <$> s.call (Engine.send source payloadType (Bytes.ofString text))

/-- Sends each command and runs one cycle after it. -/
def sendEach (s : Session) : List (SourceId × PayloadType × String) → Except EngineError Session
  | [] => pure s
  | command :: rest => do
    let s ← s.send command
    let (_, s) ← s.call Engine.runCycle
    sendEach s rest

/-- Runs cycles until one does no work. -/
def settle (s : Session) : Except EngineError Session :=
  Prod.snd <$> s.call Engine.runUntilIdle

/-- Sends the workload's commands one a tick, settling after each: `ticks` of them, and one
at least, since a tick sends before it counts. -/
def serveTicks (s : Session) (w : Workload) : Nat → Except EngineError Session
  | 0 => pure s
  | n + 1 => do
    let (command, w) := w.next
    let s ← (← s.send command).settle
    serveTicks s w n

end Session

/-- Sends `commands` on a fresh engine, one a cycle, and settles; then replays the logs into a
fresh engine. -/
def runCommands (config : EngineConfig) (commands : List (SourceId × PayloadType × String)) :
    Except EngineError RunSummary := do
  let (_, live) ← Session.start config {} {}
  let live ← (← live.sendEach commands).settle
  let eventsLogged := live.engine.events.length
  let (status, replayed) ← Session.start config live.engine.outbox.commands live.engine.events
  let replayed ← replayed.settle
  pure {
    counters := live.engine.currentCounters
    stock := live.warehouse.stock
    commandsLogged := live.engine.outbox.commands.length
    eventsLogged := eventsLogged
    replay := {
      status := status
      stateMatches := replayed.warehouse.stock == live.warehouse.stock &&
        replayed.engine.base.lastEvent == live.engine.base.lastEvent
      eventsAppended := replayed.engine.events.length - eventsLogged } }

/-- Runs `commands` generated commands, then replays the logs into a fresh engine. -/
def runWorkload (config : EngineConfig) (commands : Nat) (sources : SourceId) (seed : UInt64) :
    Except EngineError RunSummary :=
  runCommands config ((Workload.seeded seed sources).take commands)

/-- The ticks a serving session without a limit could run: its count of commands sent is a
64-bit number. -/
def tickBound : Nat := 18446744073709551616

/-- Serves the workload for `ticks` ticks (one at least; without a limit, until the count of
ticks runs out) and reports the counters. -/
def serve (config : EngineConfig) (ticks : Option Nat) (sources : SourceId) (seed : UInt64) :
    Except EngineError EngineCounters := do
  let (_, s) ← Session.start config {} {}
  let s ← s.serveTicks (Workload.seeded seed sources) (max (ticks.getD tickBound) 1)
  pure s.engine.currentCounters

end Inventory

end EventSourcing
