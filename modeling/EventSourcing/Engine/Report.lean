import EventSourcing.Engine.Basic
import EventSourcing.Json.Basic

/-!
# Engine reports as JSON

The start status and the counters of an engine as JSON objects, fields in declaration order.
-/

namespace EventSourcing

/-- The start status as a JSON object. -/
def EngineStatus.toJson (s : EngineStatus) : Json :=
  .obj [("started", .bool s.started), ("replayed_events", .nat s.replayedEvents),
    ("replay_end", .nat s.replayEnd), ("commands_scanned", .nat s.commandsScanned),
    ("in_flight_restored", .nat s.inFlightRestored)]

/-- The counters as a JSON object. -/
def EngineCounters.toJson (c : EngineCounters) : Json :=
  .obj (c.fields.map fun (k, v) => (k, .nat v))

end EventSourcing
