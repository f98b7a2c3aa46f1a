import EventSourcing.Api.Composition
import EventSourcing.Demo.Workload

/-!
# Settings, clock and workload requests

Reading engine settings from JSON, from environment variables and through setters; parsing
replay modes; running a hand-driven clock; and generating a demo workload.
-/

namespace EventSourcing.Api

/-- The settings as an answer, with whether they are the defaults. -/
def configAnswer (c : EngineConfig) : Json :=
  .obj [("config", c.toJson), ("is_default", .bool (c == {}))]

/-- Parses a replay mode and names it. -/
def replayModeInfo (j : Json) : Reader Json := do
  let text ← requiredString j "text"
  pure <| match ReplayMode.parse text with
    | .ok m => .obj [("mode", .str m.name), ("serialized", .str m.name)]
    | .error msg => parseErrorJson msg

/-- Reads settings from a JSON value. -/
def configFromJson (j : Json) : Reader Json := do
  let value := (j.field? "config").getD (.obj [])
  pure <| match EngineConfig.ofJson value with
    | .ok c => configAnswer c
    | .error msg =>
      .obj [("error", .str "ConfigError"), ("category", .str "Data"), ("message", .str msg)]

/-- Reads settings from environment variables. -/
def configFromEnv (j : Json) : Reader Json := do
  let entries := match j.field? "env" with
    | some (.obj fields) => fields
    | _ => []
  let vars ← entries.mapM fun (k, v) =>
    match v with
    | .str s => .ok (k, some s)
    | _ => .error "env values are strings"
  let lookup (name : String) : Option String := ((vars.reverse.find? (·.1 == name)).map (·.2)).join
  pure <| match EngineConfig.ofEnv lookup with
    | .ok c => .obj [("config", c.toJson)]
    | .error f => .obj [("error", .str "ConfigError"), ("message", .str f.render)]

/-- Applies one setter of the settings. -/
def applySetter (c : EngineConfig) (call : Json) : Reader (Except String EngineConfig) :=
  match call with
  | .arr [.str name, arg] =>
    match name with
    | "replay_mode" =>
      match arg with
      | .str text => .ok ((fun m => { c with replayMode := m }) <$> ReplayMode.parse text)
      | _ => .error "'replay_mode' takes a string"
    | "output_retry_budget" =>
      (fun n => .ok { c with outputRetryBudget := n.toNat.toUInt32 }) <$> intOf name .u32 arg
    | "in_flight_initial_capacity" =>
      (fun n => .ok { c with inFlightCapacity := n.toNat }) <$> intOf name .u64 arg
    | "dispatch_batch_limit" =>
      (fun n => .ok { c with dispatchBatchLimit := n.toNat }) <$> intOf name .u64 arg
    | "apply_batch_limit" =>
      (fun n => .ok { c with applyBatchLimit := n.toNat }) <$> intOf name .u64 arg
    | "publish_batch_limit" =>
      (fun n => .ok { c with publishBatchLimit := n.toNat }) <$> intOf name .u64 arg
    | "loopback_source_id" =>
      (fun n => .ok { c with loopbackSource := Int32.ofInt n }) <$> intOf name .i32 arg
    | "max_idle_cycles" =>
      (fun n => .ok { c with maxIdleCycles := n.toNat }) <$> intOf name .u64 arg
    | other => .error s!"unknown setter '{other}'"
  | _ => .error "'calls' entries must be [name, arg]"

/-- Applies setters to the default settings in order. -/
def configFromSetters (j : Json) : Reader Json := do
  let calls ← listField j "calls"
  let result ← calls.foldlM (fun (acc : Except String EngineConfig) call =>
    match acc with
    | .error m => .ok (.error m)
    | .ok c => applySetter c call) (.ok {})
  pure <| match result with
    | .ok c => configAnswer c
    | .error msg => parseErrorJson msg

/-- Runs a hand-driven clock: `set` moves it forward only, `advance` adds a delta that is
not negative, saturating. Each step reads the clock twice, through two handles that share it. -/
def clockRun (j : Json) : Reader Json := do
  let start ← intField j "start" .i64
  let ops ← listField j "ops"
  let step (acc : List Json × Int) (op : Json) : Reader (List Json × Int) := do
    let (steps, now) := acc
    let now' ← match ← requiredString op "op" with
      | "set" => do
        let t ← intField op "time" .i64
        pure (if now < t then t else now)
      | "advance" => do
        let d ← intField op "delta" .i64
        pure (min (now + max d 0) 9223372036854775807)
      | "now" => pure now
      | other => .error s!"unknown time op '{other}'"
    pure (steps ++ [.arr [.int now', .int now']], now')
  let (steps, _) ← ops.foldlM step ([], start)
  pure (.obj [("steps", .arr steps), ("system_monotonic", .bool true)])

/-- Generates the demo workload. -/
def workloadRun (j : Json) : Reader Json := do
  let seed ← intField j "seed" .u64
  let sources ← intField j "sources" .i32
  let count ← natField j "count"
  let commands := (Workload.seeded seed.toNat.toUInt64 (Int32.ofInt sources)).take count
  pure (.obj [("commands", .list (fun (s, pt, text) => .arr [int32Json s, int32Json pt, .str text]) commands)])

end EventSourcing.Api
