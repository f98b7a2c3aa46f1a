import EventSourcing.Api.Scenario

/-!
# Scenario trials

A trial drives a ledger engine in steps: each `given` or `then` sends a command and runs the
engine until idle, and the expectations that follow look at what that step appended, at the
last event, at the base state or at the counters. The first expectation that fails, or a call
that fails, ends the trial unfinished.
-/

namespace EventSourcing.Api

open Bench

/-- A running trial: the engine, the sequence of the last command sent by a step, and where
the step's events begin in the event log. -/
structure Trial where
  run : Run
  lastSequence : Option UInt64 := none
  stepStart : Nat := 0

namespace Trial

/-- The decoded events of the log from a position on. -/
def eventsFrom (t : Trial) (start : Nat) : List Event :=
  (t.run.engine.events.messages.toList.drop start).filterMap fun b => (Event.decode b).toOption

/-- The events the last step appended. -/
def stepEvents (t : Trial) : List Event := t.eventsFrom t.stepStart

/-- Runs until idle; `none` when the engine fails. -/
def settle (t : Trial) : Option Trial :=
  match t.run.call Engine.runUntilIdle with
  | (.ok _, r) => some { t with run := r }
  | (.error _, _) => none

/-- Whether a JSON value is the given integer. -/
def isInt (v : Json) (n : Int) : Bool :=
  match v with
  | .int i => i == n
  | _ => false

/-- Whether a JSON value is the given text. -/
def isText (v : Json) (s : String) : Bool :=
  match v with
  | .str t => t == s
  | _ => false

/-- Whether a JSON value is `null`. -/
def isNull : Json → Bool
  | .null => true
  | _ => false

/-- Whether a field of an event has the given value; the payload is compared as text, and a
payload that is no text, like a field the event does not have, reads as `null`. -/
def fieldMatches (e : Event) : String × Json → Bool
  | ("source_id", v) => isInt v e.source.toInt
  | ("source_sequence", v) => isInt v e.sourceSequence.toNat
  | ("event_sequence", v) => isInt v e.sequence.toNat
  | ("event_index", v) => isInt v e.index.toNat
  | ("event_type", v) => isText v e.kind.name
  | ("event_time", v) => isInt v e.time.toInt
  | ("payload_type", v) => isInt v e.payloadType.toInt
  | ("payload", v) => match Bytes.utf8? e.payload with
    | some text => isText v text
    | none => isNull v
  | (_, v) => isNull v

/-- The report of a step that passed. -/
def report (t : Trial) : Json :=
  let hide := t.run.setup.systemClock
  .obj [("ok", .bool true), ("step_events", .list (eventJson hide) t.stepEvents),
    ("balances", .list (fun (s, b) => .arr [int32Json s, int64Json b]) t.run.world.ledger.balances),
    ("balance_1", int64Json (t.run.world.ledger.balance 1)),
    ("last_event", uint64Json t.run.engine.base.lastEvent)]

/-- Sends a command from a step's triple `[source, payload type, text]`. -/
def sendOf (t : Trial) (triple : Json) : Reader (Except EngineError UInt64 × Trial) := do
  let (source, pt, payload) ← sendSpecOf triple
  let (result, r) := t.run.call (Engine.send source pt payload)
  pure (result, { t with run := r })

/-- The keys a step may hold, in the order they are looked for: the first one the step holds
says what it does. -/
def stepKeys : List String :=
  ["given", "then", "run", "expect_sequence", "expect_events", "expect_event_types",
    "expect_last_event", "assert_base_state", "assert_engine", "reset_ledger", "engine_send"]

/-- The fields of an object, and none for any other value. -/
def fieldsOf : Json → List (String × Json)
  | .obj fields => fields
  | _ => []

/-- Runs one step: the entries it reports, and the trial after it, or `none` when the step
failed. -/
def step (t : Trial) (s : Json) : Reader (List Json × Option Trial) := do
  let pass (t : Trial) : List Json × Option Trial := ([t.report], some t)
  let check (ok : Bool) : List Json × Option Trial := if ok then pass t else ([], none)
  match stepKeys.findSome? (fun k => (s.field? k).map (k, ·)) with
  | none => .error "unknown scenario step"
  | some (key, arg) =>
    match key with
    | "given" | "then" =>
      let t := { t with stepStart := t.run.engine.events.length }
      let (result, t) ← t.sendOf arg
      pure <| match result with
        | .error _ => ([], none)
        | .ok sequence =>
          match { t with lastSequence := some sequence }.settle with
          | some t => pass t
          | none => ([], none)
    | "run" =>
      let t := { t with stepStart := t.run.engine.events.length, lastSequence := none }
      pure <| match t.settle with
        | some t => pass t
        | none => ([], none)
    | "expect_sequence" =>
      match arg.uint64? with
      | some n => pure (check (t.lastSequence == some n.toUInt64))
      | none => .error "u64"
    | "expect_events" =>
      match arg.uint64? with
      | some n => pure (check (t.stepEvents.length == n))
      | none => .error "u64"
    | "expect_event_types" => do
      let names ← match arg with
        | .arr items => eachOf (fun i => match i with
            | .str s => kindOf s
            | _ => .error "event types must be strings") items
        | _ => .error s!"'{key}' must be an array"
      pure (check (t.stepEvents.map (·.kind) == names))
    | "expect_last_event" =>
      pure <| match (t.eventsFrom 0).getLast? with
        | none => ([], none)
        | some e => check ((fieldsOf arg).all (fieldMatches e))
    | "assert_base_state" =>
      let source := lenientInt32 (arg.item 0)
      let sequence := ((arg.item 1).uint64?.getD 0).toUInt64
      pure (check (t.run.engine.base.lastCommand source == sequence))
    | "assert_engine" =>
      let counters := t.run.engine.currentCounters.fields
      pure (check ((fieldsOf arg).all fun (k, v) =>
        match counters.find? (·.1 == k) with
        | some (_, n) => isInt v n
        | none => isNull v))
    | "reset_ledger" =>
      let t := { t with run := { t.run with world := { t.run.world with ledger := {} } } }
      pure (pass t)
    | "engine_send" =>
      let (result, t) ← t.sendOf arg
      pure ([.obj [("send", outcomeJson uint64Json result)], t.report], some t)
    | _ => .error "unknown scenario step"

/-- Runs the steps until one fails. -/
def steps (t : Trial) : List Json → Reader (List Json × Option Trial)
  | [] => .ok ([], some t)
  | s :: rest => do
    match ← t.step s with
    | (entries, some t') =>
      let (more, last) ← steps t' rest
      pure (entries ++ more, last)
    | (entries, none) => pure (entries ++ [.obj [("ok", .bool false)]], none)

end Trial

/-- Runs a trial request over a fresh ledger engine. -/
def trial (j : Json) : Reader Json := do
  let system := (j.field? "engine").bind Json.str? == some "ledger_default"
  let start ← int64Field j "time"
  let setup : Setup :=
    { start := start, processor := some .ledger, applier := some .ledger, systemClock := system,
      quietHandlers := true }
  let stepsJson ← listField j "steps"
  match Run.first setup with
  | .error e => pure (engineErrorJson e)
  | .ok r =>
    -- a fresh engine over empty logs always starts
    let (_, r) := r.call Engine.start
    let t : Trial := { run := r, stepStart := r.engine.events.length }
    let (entries, last) ← t.steps stepsJson
    pure <| match last with
      | some t => .obj [("steps", .arr entries), ("finished", .bool true),
          ("counters", t.run.engine.currentCounters.toJson),
          ("events_len", .nat t.run.engine.events.length)]
      | none => .obj [("steps", .arr entries), ("finished", .bool false)]

end EventSourcing.Api
