import EventSourcing.Engine.Basic

/-!
# Running an engine

The calls of an engine's life. Each runs at one reading of the clock and changes the engine
and the application's state; a call that fails keeps every change made before the failure.

* `start` replays the event log from the base state's last event, notes where replay ended,
  and scans the command log: a command above both its source's watermark and every earlier
  sequence of its source is restored as in flight.
* `dispatch` takes up to a limit of logged commands; a command at or below its source's
  watermark is a duplicate, any other is processed in a transaction whose events are
  appended as one batch and applied at once.
* `apply` applies logged events in order, checking them against the commands in flight.
* `publish` offers applied events to the outputs.
* `runCycle` polls the application's inputs, dispatches, applies, publishes and polls the
  extensions' inputs; `runUntilIdle` runs cycles until one does no work.
-/

namespace EventSourcing

/-- A call of an engine: it reads the clock, changes the engine and the application's state,
and returns a value or an error. -/
abbrev EngineM (W : Type) := ExceptT EngineError (ReaderT Timestamp (StateM (Engine W × W)))

/-- How the dispatch of one command ended. -/
inductive DispatchOutcome where
  | idle
  | duplicate
  | processed (outcome : Outcome)
  deriving DecidableEq, Repr

namespace Engine

variable {W : Type}

/-- The engine. -/
def engine : EngineM W (Engine W) := return (← get).1

/-- The application's state. -/
def world : EngineM W W := return (← get).2

/-- Changes the engine. -/
def modifyEngine (f : Engine W → Engine W) : EngineM W Unit := modify fun (e, w) => (f e, w)

/-- Changes the application's state. -/
def modifyWorld (f : W → W) : EngineM W Unit := modify fun (e, w) => (e, f w)

/-- Changes the counters. -/
def count (f : EngineCounters → EngineCounters) : EngineM W Unit :=
  modifyEngine fun e => { e with counters := f e.counters }

/-- Fails with the error of a result. -/
def lift {ε α : Type} (wrap : ε → EngineError) : Except ε α → EngineM W α
  | .ok a => pure a
  | .error e => throw (wrap e)

/-- What sending reads now. -/
def sendContext : EngineM W SendContext := do
  return ⟨(← engine).base, ← read⟩

/-- Refuses calls before the start. -/
def ensureStarted : EngineM W Unit := do
  unless (← engine).status.started do throw .notStarted

/-- Applies the event at the applier's poller, if there is one; says whether there was. -/
def applyNext : EngineM W Bool := do
  let e ← engine
  match e.events.peek? e.config.applierPoller with
  | none => return false
  | some m =>
    let ev ← lift .record (Event.decode m.bytes)
    let _ ← lift .inFlight (e.outbox.inFlight.check ev.source ev.sourceSequence ev.kind)
    let (_, application, w) ← lift .replay (e.application.apply ev (← world))
    modify fun (e, _) => ({ e with application := application }, w)
    let e ← engine
    let (_, inFlight) ← lift .inFlight (e.outbox.inFlight.acknowledge ev.source ev.sourceSequence ev.kind)
    let events ← lift .store (e.events.advance e.config.applierPoller)
    modifyEngine fun e => { e with
      outbox := { e.outbox with inFlight := inFlight,
                                transient := e.outbox.transient.noteEvent ev.sequence ev.time }
      events := events }
    count fun c => { c with eventsApplied := c.eventsApplied + 1 }
    return true

/-- Applies up to `limit` events; says how many. -/
def applyUpTo : Nat → EngineM W Nat
  | 0 => pure 0
  | limit + 1 => do
    if ← applyNext then return (← applyUpTo limit) + 1 else return 0

/-- Applies up to `limit` logged events. -/
def apply (limit : Nat) : EngineM W Nat := do
  ensureStarted
  applyUpTo limit

/-- Reports a chain of processors that failed or panicked to the processing-error handler. -/
def reportHalt (handlers : Handlers W) (c : Command) : Except Halt Unit → EngineM W Unit
  | .ok () => pure ()
  | .error (.failed f) => modifyWorld (handlers.processingError c f)
  | .error (.panicked m) =>
    let text := m.getD "unknown panic"
    modifyWorld (handlers.processingError c (Failure.plain s!"command processor panicked: {text}"))

/-- Processes a command in a transaction and appends its batch. -/
def process (c : Command) : EngineM W Outcome := do
  let e ← engine
  let (result, w, router) := Processor.runAll c e.base e.processors.members (← world) (Router.begin c)
  modifyWorld fun _ => w
  reportHalt e.handlers c result
  let now ← read
  let first : UInt64 := (e.events.length + 1).toUInt64
  let (outcome, batch) := (router.close result).finish first now
  let (appended, events) := e.events.appendBatch (batch.map Event.encode)
  modifyEngine fun e => { e with events := events }
  let _ ← lift .store appended
  modifyEngine fun e => { e with outbox := { e.outbox with
    transient := e.outbox.transient.noteEvent (first + outcome.eventCount.toUInt64 - 1) now } }
  return outcome

/-- Dispatches the command at the dispatcher's poller, if there is one. -/
def dispatchNext : EngineM W DispatchOutcome := do
  let e ← engine
  match e.outbox.commands.peek? e.config.dispatcherPoller with
  | none => return .idle
  | some m =>
    let c ← lift .record (Command.decode m.bytes)
    modifyEngine fun e => { e with outbox := { e.outbox with
      transient := e.outbox.transient.noteCommand c.source c.sequence } }
    let last := e.base.lastCommand c.source
    let outcome ← if c.sequence ≤ last then do
        modifyWorld (e.handlers.duplicate c last)
        pure DispatchOutcome.duplicate
      else DispatchOutcome.processed <$> process c
    let e ← engine
    let commands ← lift .store (e.outbox.commands.advance e.config.dispatcherPoller)
    modifyEngine fun e => { e with outbox := { e.outbox with commands := commands } }
    return outcome

/-- The largest number a machine word holds: the limit of an unbounded application. -/
def unbounded : Nat := 18446744073709551615

/-- Dispatches the command at the dispatcher's poller and applies the events of its
transaction at once; counts the command and the events applied as work. Gives `none` when
there is no command. -/
def dispatchRound : EngineM W (Option Nat) := do
  match ← dispatchNext with
  | .idle => return none
  | .duplicate =>
    count fun c => { c with duplicatesSkipped := c.duplicatesSkipped + 1 }
    let applied ← apply unbounded
    return some (1 + applied)
  | .processed outcome =>
    count fun c => { c with
      commandsDispatched := c.commandsDispatched + 1
      eventsAppended := c.eventsAppended + outcome.eventCount
      commits := c.commits + (match outcome with | .committed _ => 1 | _ => 0)
      autoCommits := c.autoCommits + (match outcome with | .autoCommitted => 1 | _ => 0)
      rollbacks := c.rollbacks + (match outcome with | .rolledBack => 1 | _ => 0) }
    let applied ← apply unbounded
    return some (1 + applied)

/-- Dispatches up to `limit` commands, applying the events of each at once. -/
def dispatchUpTo : Nat → EngineM W Nat
  | 0 => pure 0
  | limit + 1 => do
    match ← dispatchRound with
    | none => return 0
    | some work => return work + (← dispatchUpTo limit)

/-- Dispatches up to the configured batch of commands. -/
def dispatch : EngineM W Nat := do
  ensureStarted
  dispatchUpTo (← engine).config.dispatchBatchLimit

/-- Replaces the slot at an index of the publisher. -/
def setSlot (i : Nat) (slot : OutputSlot W) : EngineM W Unit :=
  modifyEngine fun e => { e with publisher := { e.publisher with slots := e.publisher.slots.set i slot } }

/-- Offers the event `ev`, read from the record `m`, once to the output at slot `i`. Gives
the report when the output is done with the event, and `none` when the event is to be
offered again. -/
def offer (i : Nat) (slot : OutputSlot W) (m : Stored) (ev : Event) (replayEnd : Nat)
    (report : PublishReport) : EngineM W (Option PublishReport) := do
  let e ← engine
  let attempt := slot.attempts + 1
  setSlot i { slot with attempts := attempt }
  let ctx : OutputContext :=
    ⟨m.index < replayEnd, attempt, e.publisher.loopbackSource, ← sendContext⟩
  let answer := slot.output.publish ev ctx (← world) (← engine).outbox
  modify fun (e, _) => ({ e with outbox := answer.2.2 }, answer.2.1)
  match report.answer attempt answer.1 with
  | (report, none) => return some report
  | (report, some f) =>
    if attempt < e.publisher.retryBudget then return none
    else do
      modifyWorld (e.handlers.outputError slot.output.name ev attempt f)
      return some { report with failures := report.failures + 1 }

/-- Offers up to `limit` events to the output at slot `i`, adding to the report. -/
def publishSlot (i : Nat) (lastApplied : UInt64) (replayEnd : Nat) :
    Nat → PublishReport → EngineM W PublishReport
  | 0, report => pure report
  | limit + 1, report => do
    let e ← engine
    match e.publisher.slots[i]? with
    | none => pure report
    | some slot =>
      match e.events.peek? slot.poller with
      | none => pure report
      | some m =>
        let ev ← lift .record (Event.decode m.bytes)
        if lastApplied < ev.sequence then return report
        else
          match ← offer i slot m ev replayEnd report with
          | none =>
            -- attempts remain: the retry ends the output's turn
            return { report with retries := report.retries + 1 }
          | some report =>
            setSlot i { slot with attempts := 0 }
            let events ← lift .store ((← engine).events.advance slot.poller)
            modifyEngine fun e => { e with events := events }
            publishSlot i lastApplied replayEnd limit report

/-- Offers applied events to every output in turn, each up to the configured limit. -/
def publish : EngineM W Nat := do
  ensureStarted
  let e ← engine
  if e.publisher.slots.isEmpty then return 0
  let lastApplied := e.base.lastEvent
  let replayEnd := e.status.replayEnd
  let limit := e.config.publishBatchLimit
  let report ← (List.range e.publisher.slots.length).foldlM
    (fun report i => publishSlot i lastApplied replayEnd limit report) {}
  count fun c => { c with
    outputsPublished := c.outputsPublished + report.published
    outputsIgnored := c.outputsIgnored + report.ignored
    outputRetries := c.outputRetries + report.retries
    outputFailures := c.outputFailures + report.failures }
  return report.work

/-- Polls one input, adding the commands it sent to `work`; a failed poll is reported and
counted. -/
def pollInput (work : Nat) (input : Input W) : EngineM W Nat := do
  let ctx ← sendContext
  let answer := input.poll ctx (← world) (← engine).outbox
  modify fun (e, _) => ({ e with outbox := answer.2.2 }, answer.2.1)
  match answer.1 with
  | .ok n => return work + n
  | .error f =>
    modifyWorld ((← engine).handlers.inputError input.name f)
    count fun c => { c with inputFailures := c.inputFailures + 1 }
    return work

/-- Polls the application's inputs, or the extensions' ones. Says how many commands the
inputs sent. -/
def pollInputs (extensions : Bool) : EngineM W Nat := do
  let e ← engine
  let chain := if extensions then e.extensionInputs else e.inputs
  chain.members.foldlM pollInput 0

/-- The steps of a cycle. -/
def runSteps : EngineM W Nat := do
  let fromInputs ← pollInputs false
  let dispatched ← dispatch
  let applied ← apply (← engine).config.applyBatchLimit
  let published ← publish
  let fromExtensions ← pollInputs true
  return fromInputs + dispatched + applied + published + fromExtensions

/-- Runs one cycle; the cycle counts even when it fails. -/
def runCycle : EngineM W Nat := do
  ensureStarted
  tryCatch (do
      let work ← runSteps
      count fun c => { c with cycles := c.cycles + 1 }
      return work)
    (fun err => do
      count fun c => { c with cycles := c.cycles + 1 }
      throw err)

/-- Runs up to `budget` cycles, stopping after one that does no work; says how much work
was done. -/
def runCycles : Nat → Nat → EngineM W Nat
  | 0, total => pure total
  | budget + 1, total => do
    let work ← runCycle
    if work = 0 then return total else runCycles budget (total + work)

/-- Runs cycles until one does no work, at most the configured number. -/
def runUntilIdle : EngineM W Nat := do
  runCycles (← engine).config.maxIdleCycles 0

/-- Sends a command from the host. -/
def send (source : SourceId) (payloadType : PayloadType) (payload : Bytes) : EngineM W UInt64 := do
  ensureStarted
  let (result, outbox) := (← engine).outbox.send (← sendContext) source payloadType payload
  modifyEngine fun e => { e with outbox := outbox }
  lift id result

/-- The next sequence of a source, starting its sequencer if needed. -/
def nextSequence (source : SourceId) : EngineM W UInt64 := do
  ensureStarted
  let (n, outbox) := (← engine).outbox.nextSequence (← sendContext) source
  modifyEngine fun e => { e with outbox := outbox }
  return n

/-- Replays events until there is none left; says how many. -/
def replayAll : Nat → EngineM W Nat
  | 0 => pure 0
  | fuel + 1 => do
    if ← applyNext then return (← replayAll fuel) + 1 else return 0

/-- Scans the logged command at an index: restores it as in flight when it is above its
source's watermark and every earlier sequence of its source, and notes it as seen. -/
def scanCommand (i : Nat) : EngineM W Unit := do
  match (← engine).outbox.commands.read? i with
  | none => pure ()
  | some bytes =>
    let c ← lift .record (Command.decode bytes)
    let e ← engine
    let pending := e.base.lastCommand c.source < c.sequence ∧
      e.outbox.transient.maxSource c.source < c.sequence
    if pending then
      modifyEngine fun e => { e with
        outbox := { e.outbox with inFlight := e.outbox.inFlight.send c.source c.sequence c.time }
        status := { e.status with inFlightRestored := e.status.inFlightRestored + 1 } }
    modifyEngine fun e => { e with outbox := { e.outbox with
      transient := e.outbox.transient.noteCommand c.source c.sequence } }

/-- Scans the command log from the start. -/
def scanCommands : EngineM W Unit := do
  let total := (← engine).outbox.commands.length
  (List.range total).forM scanCommand
  modifyEngine fun e => { e with status := { e.status with commandsScanned := total } }

/-- Starts the engine: replays the event log from the base state's last event, then scans
the command log. -/
def start : EngineM W EngineStatus := do
  let e ← engine
  if e.status.started then throw .alreadyStarted
  let events ← lift .store (e.events.moveTo e.config.applierPoller e.base.lastEvent.toNat)
  modifyEngine fun e => { e with events := events }
  let replayed ← replayAll (events.length + 1)
  modifyEngine fun e => { e with
    counters := { e.counters with eventsReplayed := e.counters.eventsReplayed + replayed }
    status := { e.status with replayedEvents := replayed, replayEnd := e.events.length } }
  scanCommands
  modifyEngine fun e => { e with status := { e.status with started := true } }
  return (← engine).status

end Engine

end EventSourcing
