import EventSourcing.Json.Basic
import EventSourcing.Text.Decimal
import EventSourcing.Text.Shortest
import EventSourcing.Text.Debug
import EventSourcing.ReplayMode
import EventSourcing.Failure
import EventSourcing.Record.Basic

/-!
# Engine configuration

The settings of an engine, with their defaults, read from a JSON value or from environment
variables.

A JSON object sets the fields it names, in key order, and leaves the rest at their
defaults; an array sets the fields in declaration order. A value of the wrong kind or range is
refused with a sentence that names what it found and what was expected.

Each environment variable sets one field; numbers and the replay mode are read after
trimming blanks, poller names as they are. The variables are read in declaration order and
the first bad one is reported, with the variable's raw text and the reason.
-/

namespace EventSourcing

/-- The settings of an engine. -/
structure EngineConfig where
  replayMode : ReplayMode := .all
  outputRetryBudget : UInt32 := 3
  inFlightCapacity : Nat := 64
  dispatchBatchLimit : Nat := 64
  applyBatchLimit : Nat := 1024
  publishBatchLimit : Nat := 64
  loopbackSource : SourceId := 2147483647
  dispatcherPoller : String := "dispatcher"
  applierPoller : String := "applier"
  maxIdleCycles : Nat := 10000
  deriving DecidableEq, Repr, Inhabited

namespace EngineConfig

/-- The settings as a JSON object, fields in declaration order. -/
def toJson (c : EngineConfig) : Json :=
  .obj [("replay_mode", .str c.replayMode.name),
    ("output_retry_budget", .nat c.outputRetryBudget.toNat),
    ("in_flight_initial_capacity", .nat c.inFlightCapacity),
    ("dispatch_batch_limit", .nat c.dispatchBatchLimit),
    ("apply_batch_limit", .nat c.applyBatchLimit),
    ("publish_batch_limit", .nat c.publishBatchLimit),
    ("loopback_source_id", .int c.loopbackSource.toInt),
    ("dispatcher_poller", .str c.dispatcherPoller),
    ("applier_poller", .str c.applierPoller),
    ("max_idle_cycles", .nat c.maxIdleCycles)]

/-- How a JSON value is named when it is not what was expected. -/
def describe : Json → String
  | .null => "null"
  | .bool b => s!"boolean `{b}`"
  | .int i => s!"integer `{i}`"
  | .float d => s!"floating point `{d.text}`"
  | .str s => "string " ++ Text.quoteInDump s
  | .arr _ => "sequence"
  | .obj _ => "map"

/-- A value of the wrong kind. -/
def wrongKind (found : Json) (expected : String) : String :=
  s!"invalid type: {describe found}, expected {expected}"

/-- An integer of the wrong range. -/
def wrongValue (found : Int) (expected : String) : String :=
  s!"invalid value: integer `{found}`, expected {expected}"

/-- An integer within `[lo, hi]`, named `expected` in errors. -/
def boundedOfJson (lo hi : Int) (expected : String) : Json → Except String Int
  | .int i => if lo ≤ i ∧ i ≤ hi then .ok i else .error (wrongValue i expected)
  | j => .error (wrongKind j expected)

/-- The entries of an object with one entry a key, the last written winning. -/
def lastEntries (fields : List (String × Json)) : List (String × Json) :=
  fields.foldl (fun acc (k, v) => (acc.filter (·.1 != k)) ++ [(k, v)]) []

/-- A replay mode: its name, or an object with its name as the only key and nothing as the
value. -/
def modeOfJson : Json → Except String ReplayMode
  | .str s =>
    match ReplayMode.ofName? s with
    | some m => .ok m
    | none => .error s!"unknown variant `{s}`, expected `replay_all` or `replay_non_aborted`"
  | .obj fields =>
    match lastEntries fields with
    | [(k, v)] =>
      match ReplayMode.ofName? k with
      | none => .error s!"unknown variant `{k}`, expected `replay_all` or `replay_non_aborted`"
      | some m =>
        match v with
        | .null => .ok m
        | other => .error (wrongKind other "unit")
    | _ => .error "invalid value: map, expected map with a single key"
  | j => .error (wrongKind j "string or map")

/-- A text. -/
def stringOfJson : Json → Except String String
  | .str s => .ok s
  | j => .error (wrongKind j "a string")

/-- The largest unsigned word. -/
def maxWord : Int := 18446744073709551615

/-- Sets the field at position `i` of the declaration order. -/
def setField (c : EngineConfig) (i : Nat) (v : Json) : Except String EngineConfig :=
  match i with
  | 0 => (fun m => { c with replayMode := m }) <$> modeOfJson v
  | 1 => (fun n => { c with outputRetryBudget := n.toNat.toUInt32 }) <$>
      boundedOfJson 0 4294967295 "u32" v
  | 2 => (fun n => { c with inFlightCapacity := n.toNat }) <$> boundedOfJson 0 maxWord "usize" v
  | 3 => (fun n => { c with dispatchBatchLimit := n.toNat }) <$> boundedOfJson 0 maxWord "usize" v
  | 4 => (fun n => { c with applyBatchLimit := n.toNat }) <$> boundedOfJson 0 maxWord "usize" v
  | 5 => (fun n => { c with publishBatchLimit := n.toNat }) <$> boundedOfJson 0 maxWord "usize" v
  | 6 => (fun n => { c with loopbackSource := Int32.ofInt n }) <$>
      boundedOfJson (-2147483648) 2147483647 "i32" v
  | 7 => (fun s => { c with dispatcherPoller := s }) <$> stringOfJson v
  | 8 => (fun s => { c with applierPoller := s }) <$> stringOfJson v
  | 9 => (fun n => { c with maxIdleCycles := n.toNat }) <$> boundedOfJson 0 maxWord "usize" v
  | _ => .ok c

/-- The names of the fields in declaration order. -/
def fieldNames : List String :=
  ["replay_mode", "output_retry_budget", "in_flight_initial_capacity", "dispatch_batch_limit",
    "apply_batch_limit", "publish_batch_limit", "loopback_source_id", "dispatcher_poller",
    "applier_poller", "max_idle_cycles"]

/-- The entries of an object in key order. -/
def keyOrder (fields : List (String × Json)) : List (String × Json) :=
  (lastEntries fields).mergeSort (fun a b => decide (a.1 ≤ b.1))

/-- Sets the fields of a list of entries, one after the other. -/
def setFields (c : EngineConfig) : List (String × Json) → Except String EngineConfig
  | [] => .ok c
  | (k, v) :: rest =>
    match fieldNames.idxOf? k with
    | none => setFields c rest
    | some i =>
      match c.setField i v with
      | .ok c' => setFields c' rest
      | .error e => .error e

/-- Sets the fields of a list of values, one after the other in declaration order. -/
def setPositional (c : EngineConfig) : Nat → List Json → Except String EngineConfig
  | _, [] => .ok c
  | i, v :: rest =>
    match c.setField i v with
    | .ok c' => setPositional c' (i + 1) rest
    | .error e => .error e

/-- The settings a JSON value gives, starting from the defaults. -/
def ofJson (j : Json) : Except String EngineConfig :=
  match j with
  | .obj fields => setFields {} (keyOrder fields)
  | .arr items => do
    let c ← setPositional {} 0 (items.take fieldNames.length)
    if items.length > fieldNames.length then
      .error s!"invalid length {items.length}, expected fewer elements in array"
    else pure c
  | other => .error (wrongKind other "struct EngineConfig")

/-- The names of the environment variables, in reading order. -/
def envNames : List String :=
  ["LOCKSTEP_REPLAY_MODE", "LOCKSTEP_OUTPUT_RETRY_BUDGET", "LOCKSTEP_IN_FLIGHT_CAPACITY",
    "LOCKSTEP_DISPATCH_BATCH_LIMIT", "LOCKSTEP_APPLY_BATCH_LIMIT",
    "LOCKSTEP_PUBLISH_BATCH_LIMIT", "LOCKSTEP_LOOPBACK_SOURCE_ID",
    "LOCKSTEP_DISPATCHER_POLLER", "LOCKSTEP_APPLIER_POLLER", "LOCKSTEP_MAX_IDLE_CYCLES"]

/-- Reads a variable, when it is set, with `read` after trimming; a bad value is reported with
the variable's name and raw text. -/
def readVar {α : Type} (env : String → Option String) (name : String)
    (read : String → Except String α) (default : α) : Except Failure α :=
  match env name with
  | none => .ok default
  | some raw =>
    match read (Text.trim raw) with
    | .ok v => .ok v
    | .error reason => .error ⟨[s!"{name} must be a valid value, got '{raw}'", reason]⟩

/-- An unsigned word of the machine's width, as text. -/
def readSize (s : String) : Except String Nat :=
  (Text.parseSize s).mapError Text.IntegerError.message

/-- The settings that the environment gives, starting from the defaults. -/
def ofEnv (env : String → Option String) : Except Failure EngineConfig := do
  let d : EngineConfig := {}
  let replayMode ← readVar env "LOCKSTEP_REPLAY_MODE" ReplayMode.parse d.replayMode
  let outputRetryBudget ← readVar env "LOCKSTEP_OUTPUT_RETRY_BUDGET"
    (fun s => (Text.parseUInt32 s).mapError Text.IntegerError.message) d.outputRetryBudget
  let inFlightCapacity ← readVar env "LOCKSTEP_IN_FLIGHT_CAPACITY" readSize d.inFlightCapacity
  let dispatchBatchLimit ← readVar env "LOCKSTEP_DISPATCH_BATCH_LIMIT" readSize
    d.dispatchBatchLimit
  let applyBatchLimit ← readVar env "LOCKSTEP_APPLY_BATCH_LIMIT" readSize d.applyBatchLimit
  let publishBatchLimit ← readVar env "LOCKSTEP_PUBLISH_BATCH_LIMIT" readSize
    d.publishBatchLimit
  let loopbackSource ← readVar env "LOCKSTEP_LOOPBACK_SOURCE_ID"
    (fun s => (Text.parseInt32 s).mapError Text.IntegerError.message) d.loopbackSource
  let dispatcherPoller := (env "LOCKSTEP_DISPATCHER_POLLER").getD d.dispatcherPoller
  let applierPoller := (env "LOCKSTEP_APPLIER_POLLER").getD d.applierPoller
  let maxIdleCycles ← readVar env "LOCKSTEP_MAX_IDLE_CYCLES" readSize d.maxIdleCycles
  pure ⟨replayMode, outputRetryBudget, inFlightCapacity, dispatchBatchLimit, applyBatchLimit,
    publishBatchLimit, loopbackSource, dispatcherPoller, applierPoller, maxIdleCycles⟩

end EngineConfig

end EventSourcing
