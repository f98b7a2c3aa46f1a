import EventSourcing.Json.Basic
import EventSourcing.Record.Codec
import EventSourcing.InFlight.Ring
import EventSourcing.MessageLog
import EventSourcing.Application
import EventSourcing.EngineError
import EventSourcing.State.Base
import EventSourcing.State.Transient

/-!
# Writing answers

The JSON form of the library's values in answers: bytes as hex with their text, records field by
field, the in-flight tracker's state, and each kind of error as an object that names its family,
its kind and its sentence.
-/

namespace EventSourcing

/-- The name of a record error's kind. -/
def RecordError.kindName : RecordError → String
  | .truncated .. => "Truncated"
  | .payloadOverflow .. => "PayloadOverflow"
  | .unknownKind .. => "UnknownEventType"

/-- The name of a log error's kind. -/
def StoreError.kindName : StoreError → String
  | .full .. => "Full"
  | .invalidPosition .. => "InvalidPosition"
  | .endOfLog .. => "EndOfLog"
  | .backend .. => "Backend"

/-- The name of an in-flight error's kind. -/
def InFlightError.kindName : InFlightError → String
  | .sequenceMismatch .. => "SequenceMismatch"
  | .sourceMismatch .. => "SourceMismatch"

/-- The name of a replay error's kind. -/
def ReplayError.kindName : ReplayError → String
  | .alreadyApplied .. => "AlreadyApplied"
  | .gap .. => "Gap"

/-- The name of an engine error's kind. -/
def EngineError.kindName : EngineError → String
  | .record _ => "Wire"
  | .store _ => "Store"
  | .inFlight _ => "InFlight"
  | .replay _ => "Replay"
  | .send .. => "Send"
  | .payloadTooLarge _ => "PayloadTooLarge"
  | .duplicateOutput _ => "DuplicateOutput"
  | .notStarted => "NotStarted"
  | .alreadyStarted => "AlreadyStarted"

/-- The kind of the error inside an engine error, where there is one. -/
def EngineError.detail? : EngineError → Option String
  | .record e => some e.kindName
  | .store e => some e.kindName
  | .inFlight e => some e.kindName
  | .replay e => some e.kindName
  | .send _ cause => some cause.kindName
  | _ => none

namespace Api

/-- Bytes as hex, with their text when they are valid UTF-8. -/
def bytesJson (b : Bytes) : Json :=
  .obj [("hex", .str (Bytes.toHex b)), ("str", Json.option .str (Bytes.utf8? b))]

/-- A signed 32-bit number. -/
def int32Json (i : Int32) : Json := .int i.toInt

/-- A signed 64-bit number. -/
def int64Json (i : Int64) : Json := .int i.toInt

/-- An unsigned 64-bit number. -/
def uint64Json (i : UInt64) : Json := .nat i.toNat

/-- A time, or `null` when times are hidden. -/
def timeJson (hide : Bool) (t : Timestamp) : Json := if hide then .null else int64Json t

/-- A command, field by field. -/
def commandJson (hide : Bool) (c : Command) : Json :=
  .obj [("source_id", int32Json c.source), ("source_sequence", uint64Json c.sequence),
    ("command_time", timeJson hide c.time), ("payload_type", int32Json c.payloadType),
    ("payload", bytesJson c.payload)]

/-- An event, field by field. -/
def eventJson (hide : Bool) (e : Event) : Json :=
  .obj [("source_id", int32Json e.source), ("source_sequence", uint64Json e.sourceSequence),
    ("event_sequence", uint64Json e.sequence), ("event_index", .nat e.index.toNat),
    ("event_type", .str e.kind.name), ("event_time", timeJson hide e.time),
    ("payload_type", int32Json e.payloadType), ("payload", bytesJson e.payload)]

/-- An error object: family, kind and sentence. -/
def errorJson (family kind message : String) : Json :=
  .obj [("error", .str family), ("kind", .str kind), ("message", .str message)]

/-- A record error as an answer. -/
def recordErrorJson (e : RecordError) : Json := errorJson "WireError" e.kindName e.message

/-- A log error as an answer. -/
def storeErrorJson (e : StoreError) : Json := errorJson "StoreError" e.kindName e.message

/-- An in-flight error as an answer. -/
def inFlightErrorJson (e : InFlightError) : Json :=
  errorJson "InFlightError" e.kindName e.message

/-- A replay error as an answer. -/
def replayErrorJson (e : ReplayError) : Json := errorJson "ReplayError" e.kindName e.message

/-- An engine error as an answer: the inner kind as `detail`, a failed send's cause, and
whether the error is fatal. -/
def engineErrorJson (e : EngineError) : Json :=
  let detail := match e.detail? with
    | some d => [("detail", Json.str d)]
    | none => []
  let cause := match e with
    | .send _ c => [("cause", Json.str c.message)]
    | _ => []
  .obj ([("error", .str "LockstepError"), ("kind", .str e.kindName)] ++ detail ++
    [("message", .str e.message)] ++ cause ++ [("fatal", .bool e.isFatal)])

/-- A result of an engine call: `{"ok": value}` or the error. -/
def outcomeJson {α : Type} (f : α → Json) : Except EngineError α → Json
  | .ok a => .obj [("ok", f a)]
  | .error e => engineErrorJson e

/-- A pair of a source and a number. -/
def sourcePairs (pairs : List (SourceId × UInt64)) : Json :=
  .list (fun (s, n) => .arr [int32Json s, uint64Json n]) pairs

/-- An in-flight entry `[source, sequence, time]`. -/
def entryJson (hide : Bool) (e : InFlightEntry) : Json :=
  .arr [int32Json e.source, uint64Json e.sequence, timeJson hide e.time]

/-- The state of an in-flight tracker. -/
def inFlightJson (hide : Bool) (t : InFlight) : Json :=
  .obj [("capacity", .nat t.capacity), ("len", .nat t.size), ("has_any", .bool t.hasAny),
    ("entries", .list (entryJson hide) t.entries),
    ("per_source", .list (fun (s, n) => .arr [int32Json s, .nat n]) t.perSource),
    ("oldest", Json.option (entryJson hide) t.oldest?)]

/-- The state of an in-flight ring. -/
def ringJson (hide : Bool) (r : InFlight.Ring) : Json :=
  .obj [("capacity", .nat r.capacity), ("len", .nat r.len), ("has_any", .bool (0 < r.len)),
    ("entries", .list (entryJson hide) r.entries),
    ("per_source", .list (fun (s, n) => .arr [int32Json s, .nat n]) r.perSource),
    ("oldest", Json.option (entryJson hide) r.oldest?)]

/-- What an in-flight operation answers. -/
def inFlightReplyJson : InFlight.Reply → Json
  | .sent => .null
  | .verdict (.ok b) => .bool b
  | .verdict (.error e) => inFlightErrorJson e
  | .undone b => .bool b

end Api

end EventSourcing
