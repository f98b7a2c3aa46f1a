import EventSourcing.Record.Codec
import EventSourcing.MessageLog
import EventSourcing.InFlight
import EventSourcing.Application
import EventSourcing.Failure

/-!
# Engine errors

The errors an engine call returns. Corrupt records, log failures, ordering violations of
in-flight commands and of replay are fatal: the engine cannot go on past them and every later
cycle meets them again. A failed send, a payload too large for a record, a duplicate output
name and calls in the wrong life stage are not.
-/

namespace EventSourcing

/-- An error of an engine call. -/
inductive EngineError where
  | record (e : RecordError)
  | store (e : StoreError)
  | inFlight (e : InFlightError)
  | replay (e : ReplayError)
  /-- A command could not be appended to the command log. -/
  | send (source : SourceId) (cause : StoreError)
  /-- A payload does not fit the size field of a record. -/
  | payloadTooLarge (length : Nat)
  /-- Two outputs have one name. -/
  | duplicateOutput (name : String)
  | notStarted
  | alreadyStarted
  deriving DecidableEq, Repr

namespace EngineError

/-- The sentence that reports the error. -/
def message : EngineError → String
  | record e => s!"corrupt log record: {e.message}"
  | store e => e.message
  | inFlight e => s!"in-flight ordering violation: {e.message}"
  | replay e => s!"replay violation: {e.message}"
  | send source _ => s!"failed to send command for source {source}"
  | payloadTooLarge length => s!"payload of {length} bytes is too large"
  | duplicateOutput name => s!"output '{name}' is registered more than once"
  | notStarted => "engine is not started"
  | alreadyStarted => "engine is already started"

/-- Whether the engine cannot go on past the error. -/
def isFatal : EngineError → Bool
  | record _ | store _ | inFlight _ | replay _ => true
  | _ => false

/-- The error as a failure chain: a failed send carries the log's error as its cause, and a
failure of the log's medium carries the medium's own message. -/
def failure : EngineError → Failure
  | send source cause => ⟨s!"failed to send command for source {source}" :: cause.chain⟩
  | store cause => ⟨cause.chain⟩
  | e => .plain e.message

end EngineError

end EventSourcing
