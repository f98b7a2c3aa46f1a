import EventSourcing.Bench.Members
import EventSourcing.Engine.Run

/-!
# Scenarios

A scenario builds an engine from a setup over two fresh logs, then runs steps against it: the
engine's calls, moves of a hand-driven clock, raw appends, switching a log's fault on or off,
and restarts. A restart hands the logs, poller positions included, to a new engine built from
the same setup; raw records may be appended first, and the new engine may start from a base
state computed from a prefix of the event log.
-/

namespace EventSourcing.Bench

/-- How a log of a scenario behaves. -/
inductive LogSpec where
  /-- A log that appends a batch at once, with an optional capacity. -/
  | memory (capacity : Option Nat)
  /-- A log whose appends fail while its fault switch is on. -/
  | failing
  /-- A log that appends a batch one message at a time, with an optional capacity. -/
  | oneByOne (capacity : Option Nat)
  deriving DecidableEq, Repr

/-- The fresh log of a specification. -/
def LogSpec.build : LogSpec → MessageLog
  | .memory capacity => { capacity := capacity }
  | .failing => { fault := some false }
  | .oneByOne capacity => { capacity := capacity, batching := .oneByOne }

/-- Everything a scenario's engine is built from. -/
structure Setup where
  config : EngineConfig := {}
  /-- The clock's first reading. -/
  start : Timestamp := 0
  processor : Option ProcessorSpec := none
  applier : Option ApplierSpec := none
  outputs : List OutputSpec := []
  inputs : List InputSpec := []
  plugins : List PluginSpec := []
  /-- Events whose recording gives the application's own base state. -/
  baseEvents : Option (List Event) := none
  commandLog : LogSpec := .memory none
  eventLog : LogSpec := .memory none
  /-- Whether times are read from the wall clock, and so hidden in reports. -/
  systemClock : Bool := false
  /-- Whether the engine keeps its own handlers, which record nothing. -/
  quietHandlers : Bool := false
  deriving Repr

/-- Which demo application a scenario reports on. -/
inductive Showcase where
  | ledger
  | warehouse
  | none
  deriving DecidableEq, Repr

/-- The names of the fixtures: recording appliers, recording outputs and flaky outputs. -/
structure FixtureNames where
  /-- The name of each recording applier, by instance number. -/
  appliers : List String := []
  recordingOutputs : List String := []
  flakyOutputs : List String := []
  deriving Repr

namespace Setup

/-- The application the reports show: the ledger when a ledger member is used, else the
warehouse when a warehouse member is. -/
def showcase (s : Setup) : Showcase :=
  if s.processor == some .ledger || s.applier == some .ledger then .ledger
  else if s.processor == some .warehouse || s.applier == some .warehouse then .warehouse
  else .none

/-- The recording appliers of a list of specifications. -/
def recordingAppliers (specs : List ApplierSpec) : List String :=
  specs.filterMap fun | .recording n => some n | _ => none

/-- The recording outputs of a list of specifications. -/
def recordingOutputs (specs : List OutputSpec) : List String :=
  specs.filterMap fun | .recording n _ => some n | _ => none

/-- The flaky outputs of a list of specifications. -/
def flakyOutputs (specs : List OutputSpec) : List String :=
  specs.filterMap fun | .flaky n _ => some n | _ => none

/-- The fixtures of the setup, application first, then plugins. -/
def fixtures (s : Setup) : FixtureNames :=
  let pluginAppliers := s.plugins.flatMap fun
    | .bundle _ _ appliers _ _ _ => recordingAppliers appliers
    | .recording n => [n]
  let pluginOutputs := s.plugins.flatMap fun
    | .bundle _ _ _ outputs _ _ => outputs
    | .recording _ => []
  { appliers := recordingAppliers s.applier.toList ++ pluginAppliers
    recordingOutputs := recordingOutputs (s.outputs ++ pluginOutputs)
    flakyOutputs := flakyOutputs (s.outputs ++ pluginOutputs) }

/-- Whether the setup has any fixture. -/
def hasFixtures (s : Setup) : Bool :=
  let f := s.fixtures
  !(f.appliers.isEmpty && f.recordingOutputs.isEmpty && f.flakyOutputs.isEmpty)

/-- Builds plugins in order; their recording appliers are numbered from `firstApplier` on and
their inputs from `firstInput` on. -/
def buildPlugins (firstApplier firstInput : Nat) : List PluginSpec → List (Plugin World)
  | [] => []
  | p :: rest =>
    p.build firstApplier firstInput ::
      buildPlugins (firstApplier + p.recordingAppliers) (firstInput + p.inputCount) rest

/-- The blueprint over given logs, with the base state a restart computed, if any; the setup's
own base events win over it. Recording appliers and inputs are numbered in the order they are
installed, the application's first, so that each instance keeps its own fixture and progress
across rebuilds. -/
def blueprint (s : Setup) (commands events : MessageLog) (restored : Option BaseState) :
    Blueprint World :=
  { commands := commands
    events := events
    config := s.config
    processor := s.processor.map ProcessorSpec.build
    applier := s.applier.map (ApplierSpec.build 0)
    outputs := s.outputs.map OutputSpec.build
    inputs := buildNumbered InputSpec.build 0 s.inputs
    plugins := buildPlugins (recordingCount s.applier.toList) s.inputs.length s.plugins
    baseState := match s.baseEvents with
      | some events => some (BaseState.recordAll {} events)
      | none => restored
    handlers := if s.quietHandlers then {} else recordingHandlers }

end Setup

/-- The world of a fresh build: fixtures emptied, one entry per recording applier and one per
fixture output's name. -/
def World.withFixtures (w : World) (f : FixtureNames) : World :=
  { w with
    seenBy := (List.range f.appliers.length).map fun k => (k, [])
    publishedBy := f.recordingOutputs.foldl (fun acc n => Keyed.insert acc n []) []
    attemptsBy := f.flakyOutputs.foldl (fun acc n => Keyed.insert acc n []) [] }

/-- One step of a scenario. -/
inductive Op where
  | start
  | send (source : SourceId) (payloadType : PayloadType) (payload : Bytes)
  | nextSequence (source : SourceId)
  | senderInfo (source : SourceId)
  | runCycle
  | runUntilIdle
  | dispatch
  | publish
  | apply (limit : Nat)
  | advanceTime (delta : Int)
  | setTime (time : Int)
  | appendCommand (bytes : Bytes)
  | fault (events : Bool) (failing : Bool)
  | restart (commands events : List Bytes) (baseFromEvents : Option Nat)
  | debug
  | hasInFlight
  | logs
  deriving Repr

/-- What the sender reports about a source. -/
structure SenderInfo where
  hasAny : Bool
  hasSource : Bool
  inFlight : Nat
  baseLast : UInt64
  transientMax : UInt64
  deriving Repr

/-- The result of a step. -/
inductive Reply where
  | status (r : Except EngineError EngineStatus)
  | sequence (r : Except EngineError UInt64)
  | info (r : Except EngineError SenderInfo)
  | work (r : Except EngineError Nat)
  | nothing
  | appended (r : Except StoreError Nat)
  /-- A fault switch was set, or the log has none. -/
  | fault (switched : Bool)
  /-- A restart, with the results of its raw appends. -/
  | restarted (appends : List (Except StoreError Nat))
  | text (s : String)
  | flag (b : Bool)
  /-- The decoded logs; `none` for a log holding a record that does not decode. -/
  | logs (commands : Option (List Command)) (events : Option (List Event))
  deriving Repr

/-- A running scenario. -/
structure Run where
  setup : Setup
  engine : Engine World
  world : World
  /-- The hand-driven clock's reading. -/
  now : Timestamp

namespace Run

/-- Builds an engine from the setup over given logs and a world. -/
def build (s : Setup) (commands events : MessageLog) (restored : Option BaseState)
    (w : World) (now : Timestamp) : Except EngineError Run :=
  (fun e => ⟨s, e, w.withFixtures s.fixtures, now⟩) <$> (s.blueprint commands events restored).build

/-- The first engine of a setup, over fresh logs. -/
def first (s : Setup) : Except EngineError Run :=
  build s s.commandLog.build s.eventLog.build none {} s.start

/-- Runs an engine call at the clock's reading. -/
def call {α : Type} (r : Run) (m : EngineM World α) : Except EngineError α × Run :=
  let (result, (e, w)) := ((m.run).run r.now).run (r.engine, r.world)
  (result, { r with engine := e, world := w })

/-- Moves the clock on; a negative delta counts as none, and the reading stops at the
largest time. -/
def advance (r : Run) (delta : Int) : Run :=
  let target := r.now.toInt + max delta 0
  { r with now := Int64.ofInt (min target 9223372036854775807) }

/-- Sets the clock; a reading that is not later is ignored. -/
def setClock (r : Run) (time : Int) : Run :=
  if r.now.toInt < time then { r with now := Int64.ofInt (min time 9223372036854775807) } else r

/-- Decodes every record of a log, or gives `none` when one does not decode. -/
def decodeAll {α : Type} (decode : Bytes → Except RecordError α) (log : MessageLog) :
    Option (List α) :=
  log.messages.toList.mapM fun bytes => (decode bytes).toOption

/-- Appends raw records one by one, each with its result. -/
def appendRaw (log : MessageLog) : List Bytes → List (Except StoreError Nat) × MessageLog
  | [] => ([], log)
  | m :: rest =>
    match log.append m with
    | .ok (i, log') =>
      let (results, log'') := appendRaw log' rest
      (.ok i :: results, log'')
    | .error e =>
      let (results, log'') := appendRaw log rest
      (.error e :: results, log'')

/-- What the sender reports about a source. -/
def senderInfo (e : Engine World) (source : SourceId) : SenderInfo :=
  ⟨e.outbox.inFlight.hasAny, e.outbox.inFlight.holds source, e.outbox.inFlight.size,
    e.base.lastCommand source, e.outbox.transient.maxSource source⟩

/-- The base state and demo applications after the first `n` logged events. -/
def prefixState (events : MessageLog) (n : Nat) : BaseState × Ledger × Warehouse :=
  let decoded := (events.messages.toList.take n).filterMap fun b => (Event.decode b).toOption
  (BaseState.recordAll {} decoded,
    decoded.foldl (fun l e => (Ledger.applier Focus.whole).apply e l) {},
    decoded.foldl (fun h e => (Warehouse.applier Focus.whole).apply e h) {})

/-- Restarts: appends the raw records, then builds a new engine over the logs. -/
def restart (r : Run) (commands events : List Bytes) (baseFromEvents : Option Nat) :
    List (Except StoreError Nat) × Except EngineError Run :=
  let (c1, commandLog) := appendRaw r.engine.outbox.commands commands
  let (c2, eventLog) := appendRaw r.engine.events events
  let w := r.world.rebuilt
  let (restored, w) := match baseFromEvents with
    | some n =>
      let (b, l, h) := prefixState eventLog n
      (some b, { w with ledger := l, warehouse := h })
    | none => (none, w)
  (c1 ++ c2, build r.setup commandLog eventLog restored w r.now)

/-- Switches the fault of a log, when it has a switch. -/
def setFault (log : MessageLog) (failing : Bool) : Option MessageLog :=
  log.fault.map fun _ => { log with fault := some failing }

/-- Runs one step. A failed rebuild ends the scenario with its error. -/
def step (r : Run) : Op → Reply × Except EngineError Run
  | .start => let (x, r) := r.call Engine.start; (.status x, .ok r)
  | .send source pt payload =>
    let (x, r) := r.call (Engine.send source pt payload); (.sequence x, .ok r)
  | .nextSequence source => let (x, r) := r.call (Engine.nextSequence source); (.sequence x, .ok r)
  | .senderInfo source =>
    let (x, r) := r.call (do Engine.ensureStarted; return senderInfo (← Engine.engine) source)
    (.info x, .ok r)
  | .runCycle => let (x, r) := r.call Engine.runCycle; (.work x, .ok r)
  | .runUntilIdle => let (x, r) := r.call Engine.runUntilIdle; (.work x, .ok r)
  | .dispatch => let (x, r) := r.call Engine.dispatch; (.work x, .ok r)
  | .publish => let (x, r) := r.call Engine.publish; (.work x, .ok r)
  | .apply limit => let (x, r) := r.call (Engine.apply limit); (.work x, .ok r)
  | .advanceTime delta => (.nothing, .ok (r.advance delta))
  | .setTime time => (.nothing, .ok (r.setClock time))
  | .appendCommand bytes =>
    match r.engine.outbox.commands.append bytes with
    | .ok (i, log) =>
      (.appended (.ok i), .ok { r with engine := { r.engine with
        outbox := { r.engine.outbox with commands := log } } })
    | .error e => (.appended (.error e), .ok r)
  | .fault events failing =>
    if events then
      match setFault r.engine.events failing with
      | some log => (.fault true, .ok { r with engine := { r.engine with events := log } })
      | none => (.fault false, .ok r)
    else
      match setFault r.engine.outbox.commands failing with
      | some log => (.fault true, .ok { r with engine := { r.engine with
          outbox := { r.engine.outbox with commands := log } } })
      | none => (.fault false, .ok r)
  | .restart commands events baseFromEvents =>
    let (appends, rebuilt) := r.restart commands events baseFromEvents
    (.restarted appends, rebuilt)
  | .debug => (.text r.engine.dump, .ok r)
  | .hasInFlight => (.flag r.engine.outbox.inFlight.hasAny, .ok r)
  | .logs =>
    (.logs (decodeAll Command.decode r.engine.outbox.commands)
      (decodeAll Event.decode r.engine.events), .ok r)

end Run

end EventSourcing.Bench
