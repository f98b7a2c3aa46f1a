import EventSourcing.Config
import EventSourcing.Processing
import EventSourcing.Application
import EventSourcing.Publishing

/-!
# Engines

An engine holds the two logs, the chains of members and the bookkeeping of one life: the
sequencers, the commands in flight, the maxima seen, the counters and the start status. The
application's own state is kept outside the engine, as a value of a type `W` that the
members read and change.

An engine is built from a blueprint: the application's members, the plugins, which add
members of their own and may offer a base state, and the settings.
-/

namespace EventSourcing

/-- What the engine reports about its start. -/
structure EngineStatus where
  started : Bool := false
  replayedEvents : Nat := 0
  /-- The length of the event log when the start's replay ended. -/
  replayEnd : Nat := 0
  commandsScanned : Nat := 0
  inFlightRestored : Nat := 0
  deriving DecidableEq, Repr, Inhabited

/-- What the engine has done in its life. -/
structure EngineCounters where
  cycles : Nat := 0
  commandsSent : Nat := 0
  commandsDispatched : Nat := 0
  duplicatesSkipped : Nat := 0
  commits : Nat := 0
  autoCommits : Nat := 0
  rollbacks : Nat := 0
  eventsAppended : Nat := 0
  eventsApplied : Nat := 0
  eventsReplayed : Nat := 0
  outputsPublished : Nat := 0
  outputsIgnored : Nat := 0
  outputRetries : Nat := 0
  outputFailures : Nat := 0
  inputFailures : Nat := 0
  deriving DecidableEq, Repr, Inhabited

namespace EngineStatus

/-- The fields as dumps write them. -/
def dump (s : EngineStatus) : String :=
  s!"EngineStatus \x7b started: {s.started}, replayed_events: {s.replayedEvents}, " ++
    s!"replay_end: {s.replayEnd}, commands_scanned: {s.commandsScanned}, " ++
    s!"in_flight_restored: {s.inFlightRestored} \x7d"

end EngineStatus

namespace EngineCounters

/-- The counters with their names, in declaration order. -/
def fields (c : EngineCounters) : List (String × Nat) :=
  [("cycles", c.cycles), ("commands_sent", c.commandsSent),
    ("commands_dispatched", c.commandsDispatched), ("duplicates_skipped", c.duplicatesSkipped),
    ("commits", c.commits), ("auto_commits", c.autoCommits), ("rollbacks", c.rollbacks),
    ("events_appended", c.eventsAppended), ("events_applied", c.eventsApplied),
    ("events_replayed", c.eventsReplayed), ("outputs_published", c.outputsPublished),
    ("outputs_ignored", c.outputsIgnored), ("output_retries", c.outputRetries),
    ("output_failures", c.outputFailures), ("input_failures", c.inputFailures)]

/-- The fields as dumps write them. -/
def dump (c : EngineCounters) : String :=
  "EngineCounters \x7b " ++ ", ".intercalate (c.fields.map fun (k, v) => s!"{k}: {v}") ++ " \x7d"

end EngineCounters

/-- Where an engine reports what went wrong outside its own bookkeeping, and the duplicates
it skips; each report may change the application's state. -/
structure Handlers (W : Type) where
  processingError : Command → Failure → W → W := fun _ _ w => w
  outputError : String → Event → Nat → Failure → W → W := fun _ _ _ _ w => w
  inputError : String → Failure → W → W := fun _ _ w => w
  duplicate : Command → UInt64 → W → W := fun _ _ w => w

/-- An input: polled once a cycle, it may send commands and says how many it sent. -/
structure Input (W : Type) where
  name : String
  /-- An input that does nothing; chains leave it out. -/
  isNoop : Bool := false
  poll : SendContext → W → Outbox → Except Failure Nat × W × Outbox
  /-- Polling reaches the outbox only by sending. -/
  poll_sends : ∀ ctx w o, Outbox.Sends ctx o (poll ctx w o).2.2

instance {W : Type} : Member (Input W) := ⟨Input.name, Input.isNoop⟩

/-- The members a plugin adds. -/
structure Installer (W : Type) where
  processors : List (Processor W) := []
  appliers : List (Applier W) := []
  outputs : List (Output W) := []
  inputs : List (Input W) := []

namespace Installer

/-- Whether nothing has been added. -/
def isEmpty {W : Type} (i : Installer W) : Bool :=
  i.processors.isEmpty && i.appliers.isEmpty && i.outputs.isEmpty && i.inputs.isEmpty

end Installer

/-- A plugin: it adds members, and may offer a base state. -/
structure Plugin (W : Type) where
  name : String
  install : Installer W → Installer W
  baseState : Option BaseState := none

/-- An engine over the application's state `W`. -/
structure Engine (W : Type) where
  config : EngineConfig
  events : MessageLog
  outbox : Outbox
  processors : Chain (Processor W)
  handlers : Handlers W
  application : Application W
  publisher : Publisher W
  inputs : Chain (Input W)
  extensionInputs : Chain (Input W)
  counters : EngineCounters := {}
  status : EngineStatus := {}

/-- What an engine is built from. -/
structure Blueprint (W : Type) where
  commands : MessageLog
  events : MessageLog
  config : EngineConfig := {}
  processor : Option (Processor W) := none
  applier : Option (Applier W) := none
  outputs : List (Output W) := []
  inputs : List (Input W) := []
  plugins : List (Plugin W) := []
  baseState : Option BaseState := none
  handlers : Handlers W := {}

namespace Blueprint

variable {W : Type}

/-- The base state to start from: the blueprint's own, else the first one a plugin offers,
else a fresh one. -/
def chosenBase (b : Blueprint W) : BaseState :=
  match b.baseState with
  | some s => s
  | none => ((b.plugins.findSome? (·.baseState))).getD {}

/-- The members all plugins add, in plugin order. -/
def installed (b : Blueprint W) : Installer W :=
  b.plugins.foldl (fun i p => p.install i) {}

/-- Builds the engine: processors with the application's first, appliers with the
application's last, outputs with the application's first and names distinct, and the
application's inputs apart from the extensions' ones. -/
def build (b : Blueprint W) : Except EngineError (Engine W) := do
  let installer := b.installed
  let publisher ← Publisher.build b.outputs installer.outputs b.config.outputRetryBudget
    b.config.loopbackSource
  pure {
    config := b.config
    events := b.events
    outbox := { commands := b.commands, inFlight := .withCapacity b.config.inFlightCapacity }
    processors := Chain.compose b.processor.toList installer.processors .applicationFirst
    handlers := b.handlers
    application := Application.compose b.chosenBase b.applier.toList installer.appliers
      b.config.replayMode
    publisher := publisher
    inputs := Chain.compose b.inputs [] .applicationFirst
    extensionInputs := Chain.compose [] installer.inputs .applicationFirst }

end Blueprint

namespace Engine

variable {W : Type}

/-- The counters, with the commands sent taken from the sequencers. -/
def currentCounters (e : Engine W) : EngineCounters :=
  { e.counters with commandsSent := e.outbox.sequencers.sent }

/-- The base state. -/
def base (e : Engine W) : BaseState := e.application.base

/-- The engine's status, counters, dispatcher poller, application and publisher, as dumps
write them. -/
def dump (e : Engine W) : String :=
  "Engine \x7b status: " ++ e.status.dump ++ ", counters: " ++ e.currentCounters.dump ++
    ", dispatcher: " ++ Text.quoteInDump e.config.dispatcherPoller ++ ", application: " ++
    e.application.dump ++ ", publisher: " ++ e.publisher.dump ++ " \x7d"

end Engine

end EventSourcing
