import EventSourcing.Bytes
import EventSourcing.Record.Kind

/-!
# Commands and events

A command is what a source asks for: it names its source, the source's sequence number, the
time it was sent and a typed payload. An event is what processing a command produced: it
names the command it belongs to, its own place in the event log, its index within the
command's transaction and its kind.
-/

namespace EventSourcing

/-- The identity of a source of commands. -/
abbrev SourceId := Int32

/-- A reading of the clock. -/
abbrev Timestamp := Int64

/-- The application's tag for what a payload holds. -/
abbrev PayloadType := Int32

/-- A command of a source, as it is logged. -/
structure Command where
  source : SourceId
  sequence : UInt64
  time : Timestamp
  payloadType : PayloadType
  payload : Bytes
  deriving DecidableEq, Repr, Inhabited

/-- An event of the event log. -/
structure Event where
  source : SourceId
  /-- The sequence of the command whose transaction wrote the event. -/
  sourceSequence : UInt64
  /-- The place of the event in the event log, counted from one. -/
  sequence : UInt64
  /-- The place of the event in its transaction, counted from zero. -/
  index : UInt32
  kind : EventKind
  time : Timestamp
  payloadType : PayloadType
  payload : Bytes
  deriving DecidableEq, Repr, Inhabited

namespace Command

/-- One line that names the command: its source and sequence, payload type and size. -/
def describe (c : Command) : String :=
  s!"command {c.source}:{c.sequence} (type {c.payloadType}, {c.payload.length} bytes)"

end Command

namespace Event

/-- Whether the event ends its transaction. -/
def isTerminal (e : Event) : Bool := e.kind.isTerminal

/-- One line that names the event: its sequence and kind, its command, index and payload. -/
def describe (e : Event) : String :=
  s!"event #{e.sequence} {e.kind.name} for {e.source}:{e.sourceSequence} [{e.index}] " ++
    s!"(type {e.payloadType}, {e.payload.length} bytes)"

end Event

end EventSourcing
