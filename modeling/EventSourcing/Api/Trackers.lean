import EventSourcing.Api.Request
import EventSourcing.Api.Answer
import EventSourcing.State.Snapshot
import EventSourcing.MessageLog.Arena

/-!
# Requests on single trackers

Runs of operations on one in-flight tracker, one message log, one base state or one transient
state. Each operation gives a result, and each step shows it with the state after it.
-/

namespace EventSourcing.Api

/-- Runs operations one after the other from a state; each gives a step's answer. -/
def runOps {σ : Type} (step : σ → Json → Reader (Json × σ)) : σ → List Json → Reader (List Json)
  | _, [] => .ok []
  | s, op :: rest => do
    let (answer, s') ← step s op
    let more ← runOps step s' rest
    pure (answer :: more)

/-- A step: the result and the state after it. -/
def stepJson (result state : Json) : Json := .obj [("result", result), ("state", state)]

/-- The operation named `name` on a tracker, read from the request. -/
def inFlightOp (name : String) (op : Json) (source : SourceId) (sequence : UInt64) :
    Reader InFlight.Op :=
  match name with
  | "sent" => do pure (.sent source sequence (← int64Field op "time"))
  | "event" => do pure (.event source sequence (← kindField op "event_type" .commit))
  | "check" => do pure (.check source sequence (← kindField op "event_type" .commit))
  | "undo" => pure (.undo source sequence)
  | other => .error s!"unknown inflight op '{other}'"

/-- One operation on an in-flight ring; a send the ring cannot take panics. -/
def inFlightStep (r : InFlight.Ring) (op : Json) : Reader (Json × InFlight.Ring) := do
  let name ← requiredString op "op"
  let source ← sourceField op
  let sequence ← uint64Field op "source_sequence"
  let (result, r') ← match name with
    | "has" => pure (Json.arr [.bool (r.holds source), .nat (r.countFor source)], r)
    | _ => do
      match r.step (← inFlightOp name op source sequence) with
      | some (reply, r') => pure (inFlightReplyJson reply, r')
      | none => throw .panicked
  pure (stepJson result (ringJson false r'), r')

/-- Runs operations on an in-flight ring; the first step is the empty ring. -/
def inFlightRun (j : Json) : Reader Json := do
  let capacity := (← natField? j "capacity").getD InFlight.defaultCapacity
  let some r := InFlight.Ring.withCapacity capacity | throw .panicked
  let ops ← listField j "ops"
  let steps ← runOps inFlightStep r ops
  pure (.obj [("steps", .arr (stepJson .null (ringJson false r) :: steps))])

/-- A stored message with its index. -/
def storedJson (m : Stored) : Json := .obj [("index", .nat m.index), ("bytes", bytesJson m.bytes)]

/-- The operation named `name` on a message log, read from the request. -/
def logOp (name : String) (op : Json) : Reader MessageLog.Op :=
  match name with
  | "append" => do pure (.append (← bytesField op "message"))
  | "append_batch" => do pure (.appendBatch (← eachOf bytesOf (← listField op "messages")))
  | "read" => do pure (.read (← natField op "index"))
  | "peek" => do pure (.peek (← requiredString op "poller"))
  | "position" => do pure (.position (← requiredString op "poller"))
  | "advance" => do pure (.advance (← requiredString op "poller"))
  | "move_to" => do pure (.moveTo (← requiredString op "poller") (← natField op "position"))
  | "poll" => do pure (.poll (← requiredString op "poller"))
  | "iter" => pure .iter
  | other => .error s!"unknown store op '{other}'"

/-- The answer of an operation on a message log. -/
def logReplyJson : MessageLog.Reply → Json
  | .index i => .nat i
  | .refused e => storeErrorJson e
  | .read m => Json.option bytesJson m
  | .peeked m => Json.option storedJson m
  | .position n => .nat n
  | .moved => .null
  | .polled m => .obj [("polled", .bool m.isSome), ("message", Json.option storedJson m)]
  | .listed ms => Json.list storedJson ms

/-- The state of a message log. -/
def logStateJson (a : ArenaLog) : Json :=
  .obj [("len", .nat a.length), ("is_empty", .bool (a.length == 0)),
    ("pollers", .list (fun (p, n) => .arr [.str p, .nat n]) a.movedPollers)]

/-- One operation on a message log. -/
def logStep (a : ArenaLog) (op : Json) : Reader (Json × ArenaLog) := do
  let name ← requiredString op "op"
  let (reply, a') := a.step (← logOp name op)
  pure (stepJson (logReplyJson reply) (logStateJson a'), a')

/-- Runs operations on a message log, with a capacity when one is given. -/
def logRun (j : Json) : Reader Json := do
  let log := match ← natField? j "capacity" with
    | some capacity => ArenaLog.withCapacityLimit capacity
    | none => ArenaLog.new
  let ops ← listField j "ops"
  let steps ← runOps logStep log ops
  pure (.obj [("steps", .arr steps)])

/-- The state of a base state. -/
def baseJson (b : BaseState) : Json :=
  .obj [("last_event", uint64Json b.lastEvent), ("sources", sourcePairs b.sources)]

/-- One operation on a base state. -/
def baseStep (b : BaseState) (op : Json) : Reader (Json × BaseState) := do
  let name ← requiredString op "op"
  let (result, b') ← match name with
    | "apply" => do
      let spec := (op.present? "event").getD (.obj [])
      let bytes ← eventBytes spec
      pure <| match Event.decode bytes with
        | .ok e => (Json.null, b.record e)
        | .error e => (recordErrorJson e, b)
    | "query" => do
      let source ← sourceField op
      let sequence ← uint64Field op "source_sequence"
      pure (Json.obj [("last_command", uint64Json (b.lastCommand source)),
        ("is_applied", .bool (b.isApplied source sequence))], b)
    | "snapshot" => pure (Json.str b.snapshot, b)
    | "restore" => do
      let text ← requiredString op "snapshot"
      pure <| match BaseState.restore text with
        | .ok b' => (Json.obj [("restored", .bool true), ("equal_to_previous", .bool (b' == b))], b')
        | .error f => (Json.obj [("error", .str "SnapshotError"), ("category", .str f.category)], b)
    | other => .error s!"unknown base_state op '{other}'"
  pure (stepJson result (baseJson b'), b')

/-- Runs operations on a fresh base state. -/
def baseRun (j : Json) : Reader Json := do
  let steps ← runOps baseStep {} (← listField j "ops")
  pure (.obj [("steps", .arr steps)])

/-- The state of a transient state. -/
def transientJson (hide : Bool) (t : Transient) : Json :=
  .obj [("max_event", uint64Json t.maxEvent),
    ("newest_event_time", Json.option (timeJson hide) t.newestEventTime),
    ("sources", sourcePairs t.sources)]

/-- One operation on a transient state. -/
def transientStep (t : Transient) (op : Json) : Reader (Json × Transient) := do
  let name ← requiredString op "op"
  let t' ← match name with
    | "command" => do
      pure (t.noteCommand (← sourceField op) (← uint64Field op "source_sequence"))
    | "event" => do
      pure (t.noteEvent (← uint64Field op "event_sequence") (← int64Field op "event_time"))
    | other => .error s!"unknown transient op '{other}'"
  pure (transientJson false t', t')

/-- Runs operations on a fresh transient state. -/
def transientRun (j : Json) : Reader Json := do
  let steps ← runOps transientStep {} (← listField j "ops")
  pure (.obj [("steps", .arr steps)])

end EventSourcing.Api
