import EventSourcing.Api.Request
import EventSourcing.Api.Answer

/-!
# Record requests

Decoding, encoding and naming single records and event kinds. A decoded record is answered with
its fields, its length, its one-line description and its bytes written again; an encoded one
with its bytes and the text of its payload.
-/

namespace EventSourcing.Api

/-- The hex text of a request, as bytes. -/
def hexField (j : Json) : Reader Bytes := do
  hexBytes (← requiredString j "hex")

/-- Adds fields to an object answer. -/
def withFields (j : Json) (more : List (String × Json)) : Json :=
  match j with
  | .obj fields => .obj (fields ++ more)
  | other => other

/-- Decodes a command and describes it. -/
def decodeCommand (j : Json) : Reader Json := do
  let bytes ← hexField j
  pure <| match Command.decode bytes with
    | .error e => recordErrorJson e
    | .ok c => withFields (commandJson false c)
        [("record_len", .nat c.recordLength), ("display", .str c.describe),
          ("reencoded", .str (Bytes.toHex c.encode))]

/-- Decodes an event and describes it. -/
def decodeEvent (j : Json) : Reader Json := do
  let bytes ← hexField j
  pure <| match Event.decode bytes with
    | .error e => recordErrorJson e
    | .ok e => withFields (eventJson false e)
        [("record_len", .nat e.recordLength), ("display", .str e.describe),
          ("reencoded", .str (Bytes.toHex e.encode)), ("is_terminal", .bool e.isTerminal)]

/-- Encodes a command given by its fields. -/
def encodeCommand (j : Json) : Reader Json := do
  let c : Command := ⟨← sourceField j, ← uint64Field j "source_sequence",
    ← int64Field j "command_time", ← int32Field j "payload_type", ← bytesField j "payload"⟩
  let bytes := c.encode
  pure <| .obj [("hex", .str (Bytes.toHex bytes)), ("len", .nat bytes.length),
    ("display", .str c.describe), ("payload_str", Json.option .str (Bytes.utf8? c.payload))]

/-- Encodes an event given by its fields; its kind must be named. -/
def encodeEvent (j : Json) : Reader Json := do
  let e ← eventOf j none
  let bytes := e.encode
  pure <| .obj [("hex", .str (Bytes.toHex bytes)), ("len", .nat bytes.length),
    ("display", .str e.describe), ("payload_str", Json.option .str (Bytes.utf8? e.payload)),
    ("is_terminal", .bool e.isTerminal)]

/-- Names the event kind of a code and classifies it. -/
def eventKindInfo (j : Json) : Reader Json := do
  let code ← intField j "code" .u8
  pure <| match EventKind.ofCode? (UInt8.ofNat code.toNat) with
    | none => .obj [("known", .bool false)]
    | some k => .obj [("known", .bool true), ("name", .str k.name), ("code", .nat k.code.toNat),
        ("is_terminal", .bool k.isTerminal), ("is_committed", .bool k.isCommitted),
        ("is_rollback", .bool k.isRollback)]

/-- The debugging form of a command or an event record. -/
def debugRecord (j : Json) : Reader Json := do
  let kind ← requiredString j "kind"
  let bytes ← hexField j
  if kind == "event" then
    pure <| match Event.decode bytes with
      | .error e => recordErrorJson e
      | .ok e => .obj [("debug", .str e.dump)]
  else
    pure <| match Command.decode bytes with
      | .error e => recordErrorJson e
      | .ok c => .obj [("debug", .str c.dump)]

end EventSourcing.Api
