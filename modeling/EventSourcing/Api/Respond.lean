import EventSourcing.Api.Records
import EventSourcing.Api.Trackers
import EventSourcing.Api.Settings
import EventSourcing.Api.Trial
import EventSourcing.Api.CommandLine
import EventSourcing.Json.Parse
import EventSourcing.Json.Print

/-!
# Answering requests

A request names its operation in the field `op`; the answer is the operation's JSON, or a
refusal `{"error": "BadRequest", "message": ...}` when the request cannot be read.
-/

namespace EventSourcing.Api

/-- The refusal of a request that cannot be read. -/
def refusal (message : String) : Json :=
  .obj [("error", .str "BadRequest"), ("message", .str message)]

/-- The operation a request names. -/
def operation (name : String) (j : Json) : Reader Json :=
  match name with
  | "decode_command" => decodeCommand j
  | "decode_event" => decodeEvent j
  | "encode_command" => encodeCommand j
  | "encode_event" => encodeEvent j
  | "event_type" => eventKindInfo j
  | "debug_record" => debugRecord j
  | "inflight" => inFlightRun j
  | "store" => logRun j
  | "base_state" => baseRun j
  | "transient" => transientRun j
  | "engine" => scenario j
  | "apply_events" => applyEvents j
  | "application_info" => applicationInfo j
  | "chain" => chainInfo j
  | "publisher" => publisherInfo j
  | "installer" => installerInfo j
  | "sequencers" => sequencersInfo j
  | "outcome" => outcomeInfo j
  | "replay_mode" => replayModeInfo j
  | "config_json" => configFromJson j
  | "config_env" => configFromEnv j
  | "config_builder" => configFromSetters j
  | "time" => clockRun j
  | "workload" => workloadRun j
  | "scenario_test" => trial j
  | "cli" => commandLine j
  | other => .error s!"unknown op '{other}'"

/-- The answer to a request. -/
def respond (j : Json) : Json :=
  match j.field? "op" with
  | some (.str name) =>
    match operation name j with
    | .ok answer => answer
    | .error (.badRequest message) => refusal message
    | .error .panicked => .obj [("error", .str "DriverPanic"), ("message", .str "driver panicked")]
  | _ => refusal "'op' must be a string"

/-- The answer to a request line, as one line of JSON. -/
def respondLine (line : String) : String :=
  match Json.parse line with
  | .ok j => Json.compress (respond j)
  | .error e => Json.compress (refusal s!"invalid JSON: {e}")

end EventSourcing.Api
