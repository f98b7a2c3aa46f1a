import EventSourcing.Api.Request
import EventSourcing.Api.Answer
import EventSourcing.Api.Trackers
import EventSourcing.Bench.Scenario
import EventSourcing.Config
import EventSourcing.Engine.Report

/-!
# Scenario requests

Reads a scenario's setup and steps from a request, runs them, and reports each step: its
result, the engine's state after it, the records new in the logs, and what the bench's
members and handlers recorded during it.
-/

namespace EventSourcing.Api

open Bench

/-- Reads a processor specification. -/
def processorSpecOf : Json → Reader ProcessorSpec
  | .str "ledger" => .ok .ledger
  | .str "inventory" => .ok .warehouse
  | .str "noop" => .ok .noop
  | .str s =>
    match s.dropPrefix? "script:" with
    | some name => .ok (.script name.toString)
    | none => .error s!"unknown processor '{s}'"
  | _ => .error "a processor must be a string"

/-- Reads an applier specification. -/
def applierSpecOf : Json → Reader ApplierSpec
  | .str "ledger" => .ok .ledger
  | .str "inventory" => .ok .warehouse
  | .str "noop" => .ok .noop
  | .str s =>
    match s.dropPrefix? "record:", s.dropPrefix? "recording:" with
    | some name, _ => .ok (.record name.toString)
    | none, some name => .ok (.recording name.toString)
    | none, none => .error s!"unknown applier '{s}'"
  | _ => .error "an applier must be a string"

/-- Reads an acknowledgement by name. -/
def ackOf (name : String) : Reader Ack :=
  match name with
  | "committed" => .ok .committed
  | "ignored" => .ok .ignored
  | "retry" => .ok .retry
  | other => .error s!"unknown ack '{other}'"

/-- Reads a loopback specification; its switches count as off unless they are truth values. -/
def loopbackOf (j : Json) : Reader LoopbackSpec := do
  pure { onPayloadType := ← int32Field j "on_payload_type", payloadType := ← int32Field j "payload_type",
         payload := ← bytesField j "payload", max := ← natField j "max" 1,
         skipReplay := flagField j "skip_replay" false,
         skipIfInFlight := flagField j "skip_if_in_flight" false }

/-- Reads an output specification: a reorder, recording or flaky output by its kind, and a
scripted output for any other kind. -/
def outputSpecOf (j : Json) : Reader OutputSpec := do
  match j.field? "kind" with
  | some (.str "reorder") =>
    pure (.reorder (← int64Field j "threshold" 3) (← int64Field j "batch" 10))
  | some (.str "recording") =>
    let name ← requiredString j "name"
    let ack ← match (j.field? "ack").bind Json.str? with
      | some text => ackOf text
      | none => pure .committed
    pure (.recording name ack)
  | some (.str "flaky") =>
    let name ← requiredString j "name"
    pure (.flaky name (← intField j "failures" .u32).toNat)
  | _ =>
    let name ← requiredString j "name"
    let acks ← eachOf (fun a => match a with
      | .str s => .ok s
      | _ => .error "'acks' must hold strings") (← listField j "acks")
    let loopback ← match j.present? "loopback" with
      | some l => some <$> loopbackOf l
      | none => pure none
    pure (.script name acks (← intField j "fail_attempts" .u32).toNat loopback)

/-- Reads a command to send, `[source, payload type, payload]`: the source and payload type are
read leniently, and missing items are zero or empty. -/
def sendSpecOf (j : Json) : Reader (SourceId × PayloadType × Bytes) := do
  pure (lenientInt32 (j.item 0), lenientInt32 (j.item 1), ← bytesOf (j.item 2))

/-- Reads a step of a scripted input. Its commands' payloads are read when the step is taken;
an error that is no text, and a source to wait for that is no integer, count as absent. -/
def inputStepOf (j : Json) : InputStep :=
  let due (payload : Json) : DuePayload :=
    match bytesOf payload with
    | .ok b => .bytes b
    | .error (.badRequest reason) => .unreadable reason
    | .error .panicked => .panics
  let send := match j.field? "send" with
    | some (.arr entries) => entries.map fun e =>
        (lenientInt32 (e.item 0), lenientInt32 (e.item 1), due (e.item 2))
    | _ => []
  { send := send, error := (j.field? "error").bind Json.str?,
    deferIfInFlight := ((j.field? "defer_if_in_flight").bind Json.int64?).map Int32.ofInt }

/-- Reads an input specification. -/
def inputSpecOf (j : Json) : Reader InputSpec := do
  let name ← requiredString j "name"
  match j.present? "topper_source" with
  | some _ =>
    pure (.topper name (← sourceField j "topper_source") (← int32Field j "payload_type")
      (← bytesField j "payload") (← natField j "max"))
  | none => pure (.script name ((← listField j "steps").map inputStepOf))

/-- Reads the event a specification gives; bytes that do not decode refuse the request with
the decoder's sentence. -/
def decodedEventOf (j : Json) : Reader Event := do
  match Event.decode (← eventBytes j) with
  | .ok e => pure e
  | .error e => .error e.message

/-- Reads the events of a list of specifications. -/
def eventsOf (specs : List Json) : Reader (List Event) := eachOf decodedEventOf specs

/-- Reads a plugin specification. -/
def pluginSpecOf (j : Json) : Reader PluginSpec := do
  match j.present? "recording_plugin" with
  | some (.str name) => pure (.recording name)
  | some _ => .error "'recording_plugin' must be a string"
  | none =>
    let base ← match j.present? "base_state_events" with
      | some (.arr specs) => some <$> eventsOf specs
      | some _ => .error "'base_state_events' must be an array"
      | none => pure none
    pure (.bundle (← stringField j "name") (← eachOf processorSpecOf (← listField j "processors"))
      (← eachOf applierSpecOf (← listField j "appliers")) (← eachOf outputSpecOf (← listField j "outputs"))
      (← eachOf inputSpecOf (← listField j "inputs")) base)

/-- Reads a log specification: a log that appends one message at a time wins over a failing
one; switches that are no truth values count as off. -/
def logSpecOf (j : Json) (key : String) : Reader LogSpec := do
  match j.present? key with
  | none => pure (.memory none)
  | some spec =>
    if flagField spec "plain_batch" false then pure (.oneByOne (← natField? spec "capacity"))
    else if flagField spec "failing" false then pure .failing
    else pure (.memory (← natField? spec "capacity"))

/-- Reads the settings of a request: defaults, then the object's fields. -/
def configField (j : Json) : Reader EngineConfig :=
  match j.field? "config" with
  | none => .ok {}
  | some c => (EngineConfig.ofJson c).mapError fun m => .badRequest s!"config: {m}"

/-- Reads a scenario's setup. -/
def setupOf (j : Json) : Reader Setup := do
  let processor ← match j.present? "processor" with
    | some p => some <$> processorSpecOf p
    | none => pure none
  let applier ← match j.present? "applier" with
    | some a => some <$> applierSpecOf a
    | none => pure none
  let baseEvents ← match j.present? "base_state_events" with
    | some (.arr specs) => some <$> eventsOf specs
    | some _ => .error "'base_state_events' must be an array"
    | none => pure none
  pure { config := ← configField j, start := ← int64Field j "time", processor := processor,
         applier := applier, outputs := ← eachOf outputSpecOf (← listField j "outputs"),
         inputs := ← eachOf inputSpecOf (← listField j "inputs"),
         plugins := ← eachOf pluginSpecOf (← listField j "plugins"), baseEvents := baseEvents,
         commandLog := ← logSpecOf j "command_store", eventLog := ← logSpecOf j "event_store",
         systemClock := (← stringField? j "clock") == some "system",
         quietHandlers := ← boolField j "default_handlers" }

/-- Reads one step of a scenario. -/
def opOf (j : Json) : Reader Op := do
  match ← requiredString j "op" with
  | "start" => pure .start
  | "send" => pure (.send (← sourceField j) (← int32Field j "payload_type") (← bytesField j "payload"))
  | "next_sequence" => pure (.nextSequence (← sourceField j))
  | "sender_info" => pure (.senderInfo (← sourceField j))
  | "run_cycle" => pure .runCycle
  | "run_until_idle" => pure .runUntilIdle
  | "dispatch" => pure .dispatch
  | "publish" => pure .publish
  | "apply" => pure (.apply (← natField j "limit" Engine.unbounded))
  | "advance_time" => pure (.advanceTime (← intField j "delta" .i64))
  | "set_time" => pure (.setTime (← intField j "time" .i64))
  | "append_command" =>
    match j.field? "command" with
    | some command => pure (.appendCommand (← commandBytes command))
    | none => .error "missing 'command'"
  | "fault" =>
    let commands := (j.field? "store").bind Json.str? == some "commands"
    pure (.fault (!commands) (flagField j "failing" true))
  | "restart" =>
    let commands ← eachOf commandBytes (← listField j "append_commands")
    let events ← eachOf eventBytes (← listField j "append_events")
    pure (.restart commands events (← natField? j "base_from_events"))
  | "debug" => pure .debug
  | "has_in_flight" => pure .hasInFlight
  | "logs" => pure .logs
  | other => .error s!"unknown engine op '{other}'"

/-- The name of an acknowledgement in reports. -/
def ackName : Ack → String
  | .committed => "Committed"
  | .ignored => "Ignored"
  | .retry => "Retry"

/-- A call of a scripted output. -/
def outputCallJson (c : OutputCall) : Json :=
  let loopback := match c.loopback with
    | some (.ok n) => [("loopback", uint64Json n)]
    | some (.error e) => [("loopback", engineErrorJson e)]
    | none => []
  let outcome := match c.outcome with
    | .ok a => Json.str (ackName a)
    | .error m => .obj [("error", .str m)]
  .obj ([("output", .str c.output), ("event_sequence", uint64Json c.eventSequence),
    ("attempt", .nat c.attempt), ("replay", .bool c.replay)] ++ loopback ++ [("outcome", outcome)])

/-- A record of a log, or its raw bytes and why it does not decode. -/
def recordJson {α : Type} (decode : Bytes → Except RecordError α) (render : α → Json)
    (bytes : Bytes) : Json :=
  match decode bytes with
  | .ok r => render r
  | .error e => .obj [("raw", .str (Bytes.toHex bytes)), ("decode_error", recordErrorJson e)]

/-- The sender's report on a source. -/
def senderInfoJson (i : SenderInfo) : Json :=
  .obj [("has_any", .bool i.hasAny), ("has_source", .bool i.hasSource), ("in_flight", .nat i.inFlight),
    ("base_last", uint64Json i.baseLast), ("transient_max", uint64Json i.transientMax)]

/-- The result of a step. -/
def replyJson (hide : Bool) : Reply → Json
  | .status r => outcomeJson EngineStatus.toJson r
  | .sequence r => outcomeJson uint64Json r
  | .info r => outcomeJson senderInfoJson r
  | .work r => outcomeJson Json.nat r
  | .nothing => .null
  | .appended (.ok i) => .obj [("ok", .nat i)]
  | .appended (.error e) => storeErrorJson e
  | .fault true => .null
  | .fault false => .obj [("error", .str "NoFaultInjection")]
  | .restarted _ => .null
  | .text s => .str s
  | .flag b => .bool b
  | .logs commands events =>
    let panicked := Json.obj [("panicked", .bool true)]
    .obj [("commands", (commands.map (Json.list (commandJson hide))).getD panicked),
      ("events", (events.map (Json.list (eventJson hide))).getD panicked)]

/-- The lengths of the logs and records at the end of the last step. -/
structure Marks where
  commands : Nat := 0
  events : Nat := 0
  applied : Nat := 0
  calls : Nat := 0
  sent : Nat := 0
  duplicates : Nat := 0
  processing : Nat := 0
  outputs : Nat := 0
  inputs : Nat := 0

/-- The marks after a step. -/
def marksOf (r : Run) : Marks :=
  { commands := r.engine.outbox.commands.length, events := r.engine.events.length,
    applied := r.world.applied.length, calls := r.world.calls.length, sent := r.world.sent.length,
    duplicates := r.world.duplicates.length, processing := r.world.processingErrors.length,
    outputs := r.world.outputErrors.length, inputs := r.world.inputErrors.length }

/-- The source ids of every decodable record of both logs, ascending. -/
def sourceIds (r : Run) : List SourceId :=
  let fromCommands := r.engine.outbox.commands.messages.toList.filterMap fun b =>
    (Command.decode b).toOption.map (·.source)
  let fromEvents := r.engine.events.messages.toList.filterMap fun b =>
    (Event.decode b).toOption.map (·.source)
  ((fromCommands ++ fromEvents).eraseDups).mergeSort (fun a b => decide (a ≤ b))

/-- The report of the demo application. -/
def showcaseJson (r : Run) : Json :=
  match r.setup.showcase with
  | .ledger => .list (fun (s, b) => .arr [int32Json s, int64Json b]) r.world.ledger.balances
  | .warehouse => .obj (r.world.warehouse.stock.map fun (item, n) => (item, int64Json n))
  | .none => .null

/-- The first-appearance order of a list without repeats. -/
def distinctInOrder {α : Type} [BEq α] (xs : List α) : List α :=
  xs.foldl (fun acc x => if acc.contains x then acc else acc ++ [x]) []

/-- The events the recording appliers named `name` saw: those of the last one installed,
since a name's report is replaced by each applier of that name. -/
def seenByName (w : World) (names : List String) (name : String) : List Event :=
  let keys := (names.zipIdx.filter (·.1 == name)).map (·.2)
  match keys.getLast? with
  | some k => Keyed.findD w.seenBy k []
  | none => []

/-- The fixtures' reports; `names` names the recording appliers by instance number. -/
def fixturesJson (w : World) (names : List String) : Json :=
  let appliers := (distinctInOrder names).map fun name =>
    let events := seenByName w names name
    ("applier:" ++ name, Json.obj [("len", .nat events.length), ("is_empty", .bool events.isEmpty),
      ("events", .list (fun e => .arr [uint64Json e.sequence, .str e.kind.name, int32Json e.payloadType]) events)])
  let recordings := w.publishedBy.map fun (name, ps) =>
    ("output:" ++ name, Json.obj [("len", .nat ps.length), ("is_empty", .bool ps.isEmpty),
      ("event_sequences", .list (fun p => uint64Json p.event.sequence) ps),
      ("published", .list (fun p => .arr [uint64Json p.event.sequence, .bool p.replay, .nat p.attempt]) ps)])
  let flaky := w.attemptsBy.map fun (name, attempts) =>
    let seqs := distinctInOrder (attempts.map (·.1))
    ("output:" ++ name, Json.obj [
      ("attempts", .list (fun (s, a) => .arr [uint64Json s, .nat a]) attempts),
      ("attempts_for", .list (fun s => .arr [uint64Json s, .nat (attempts.countP (·.1 == s))]) seqs)])
  .obj (appliers ++ recordings ++ flaky)

/-- The report of a step: its result and the state after it, with what is new since `m`. -/
def stepReport (r : Run) (m : Marks) (reply : Reply) : Json :=
  let hide := r.setup.systemClock
  let e := r.engine
  let w := r.world
  let ids := sourceIds r
  let base := Json.obj [("last_event", uint64Json e.base.lastEvent),
    ("sources", sourcePairs (ids.map fun s => (s, e.base.lastCommand s)))]
  let t := e.outbox.transient
  let transient := Json.obj [("max_event", uint64Json t.maxEvent),
    ("newest_event_time", Json.option (timeJson hide) t.newestEventTime),
    ("sources", sourcePairs (ids.map fun s => (s, t.maxSource s)))]
  let positions := [Json.arr [.str "commands", .str e.config.dispatcherPoller,
      .nat (e.outbox.commands.position e.config.dispatcherPoller)],
    .arr [.str "events", .str e.config.applierPoller, .nat (e.events.position e.config.applierPoller)]] ++
    e.publisher.pollers.map fun p => .arr [.str "events", .str p, .nat (e.events.position p)]
  let newCommands := (e.outbox.commands.messages.toList.drop m.commands).map
    (recordJson Command.decode (commandJson hide))
  let newEvents := (e.events.messages.toList.drop m.events).map (recordJson Event.decode (eventJson hide))
  let appended := match reply with
    | .restarted appends => [("appended", .list (fun
        | .ok i => Json.nat i
        | .error err => storeErrorJson err) appends)]
    | _ => []
  let fixtures := if r.setup.hasFixtures then [("fixtures", fixturesJson w r.setup.fixtures.appliers)] else []
  .obj ([("result", replyJson hide reply)] ++ appended ++ [("base", base), ("transient", transient),
    ("in_flight", inFlightJson hide e.outbox.inFlight), ("counters", e.currentCounters.toJson),
    ("status", e.status.toJson), ("commands_len", .nat e.outbox.commands.length),
    ("events_len", .nat e.events.length), ("positions", .arr positions),
    ("new_commands", .arr newCommands), ("new_events", .arr newEvents), ("app", showcaseJson r),
    ("applied", .list (fun (n, s, k) => .arr [.str n, uint64Json s, .str k.name]) (w.applied.drop m.applied)),
    ("outputs", .list outputCallJson (w.calls.drop m.calls)),
    ("inputs", .list (fun (n, s) => .arr [.str n, uint64Json s]) (w.sent.drop m.sent)),
    ("duplicates", .list (fun (s, q, l) => .arr [int32Json s, uint64Json q, uint64Json l])
      (w.duplicates.drop m.duplicates)),
    ("exceptions", .obj [
      ("processing", .list (fun (s, q, msg) => .arr [int32Json s, uint64Json q, .str msg])
        (w.processingErrors.drop m.processing)),
      ("output", .list (fun (n, s, a) => .arr [.str n, uint64Json s, .nat a]) (w.outputErrors.drop m.outputs)),
      ("input", .list (fun (n, msg) => .arr [.str n, .str msg]) (w.inputErrors.drop m.inputs))])] ++
    fixtures)

/-- Runs steps, each read when its turn comes, reporting each; a failed rebuild stops the run
with its error. A step that sends a command into an in-flight tracker without room panics. -/
def runSteps (r : Run) (m : Marks) : List Json → Reader (List Json × Option EngineError)
  | [] => pure ([], none)
  | j :: rest => do
    let op ← opOf j
    match r.step op with
    | (reply, .ok r') =>
      if r'.engine.outbox.inFlight.broken || r'.world.panicked then throw .panicked
      -- records appended by a restart are never reported as new
      let m := match reply with
        | .restarted _ => { m with commands := r'.engine.outbox.commands.length,
                                   events := r'.engine.events.length }
        | _ => m
      let report := stepReport r' m reply
      let (more, stop) ← runSteps r' (marksOf r') rest
      pure (report :: more, stop)
    | (_, .error err) => pure ([], some err)

/-- Runs a scenario request. An in-flight tracker whose room cannot be set up panics. -/
def scenario (j : Json) : Reader Json := do
  let setup ← setupOf j
  let ops ← listField j "ops"
  match Run.first setup with
  | .error err => pure (.obj [("build", engineErrorJson err)])
  | .ok r =>
    if !InFlight.fits setup.config.inFlightCapacity then throw .panicked
    let names := Json.obj [("processors", .list .str r.engine.processors.names),
      ("appliers", .list .str r.engine.application.appliers.names),
      ("outputs", .list .str r.engine.publisher.names)]
    let (steps, stop) ← runSteps r (marksOf r) ops
    pure <| match stop with
      | none => .obj [("names", names), ("steps", .arr steps)]
      | some err => .obj [("names", names), ("steps", .arr steps), ("rebuild", engineErrorJson err)]

end EventSourcing.Api
