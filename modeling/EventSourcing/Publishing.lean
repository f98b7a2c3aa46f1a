import EventSourcing.Outbox
import EventSourcing.Chain
import EventSourcing.Failure

/-!
# Outputs

An output publishes applied events to the world outside, one event at a time. It answers
with an acknowledgement, or fails; it may send commands back into the engine, from the
loopback source, while it publishes.

The publisher keeps, for each output, a poller on the event log named `output:<name>` and
the number of attempts made at the current event. Per call, each output takes up to a limit
of events, stopping at an event not applied yet. A retry or a failure ends the output's turn
while attempts remain in the budget; once the budget is spent, the failure is reported and
the output moves on. An event stored before the end of the replay at start counts as a
replay.
-/

namespace EventSourcing

/-- How an output answers an event. -/
inductive Ack where
  | committed
  | ignored
  | retry
  deriving DecidableEq, Repr

/-- What an output knows when it publishes an event. -/
structure OutputContext where
  /-- Whether the event was in the log before the engine started. -/
  replay : Bool
  /-- The attempt at this event, from one. -/
  attempt : Nat
  loopbackSource : SourceId
  send : SendContext

/-- An output over the application's state `W`. -/
structure Output (W : Type) where
  name : String
  /-- An output that does nothing; chains leave it out. -/
  isNoop : Bool := false
  publish : Event → OutputContext → W → Outbox → Except Failure Ack × W × Outbox
  /-- Publishing reaches the outbox only by sending. -/
  publish_sends : ∀ e (ctx : OutputContext) w o, Outbox.Sends ctx.send o (publish e ctx w o).2.2

instance {W : Type} : Member (Output W) := ⟨Output.name, Output.isNoop⟩

/-- Sends a command from the loopback source. -/
def OutputContext.loopback (ctx : OutputContext) (o : Outbox) (payloadType : PayloadType)
    (payload : Bytes) : Except EngineError UInt64 × Outbox :=
  o.send ctx.send ctx.loopbackSource payloadType payload

theorem OutputContext.sends_of_loopback {ctx : OutputContext} {o o' : Outbox}
    {payloadType : PayloadType} {payload : Bytes} {r : Except EngineError UInt64}
    (h : ctx.loopback o payloadType payload = (r, o')) : Outbox.Sends ctx.send o o' :=
  Outbox.Sends.of_send h

/-- An output with its poller and the attempts made at its current event. -/
structure OutputSlot (W : Type) where
  output : Output W
  poller : String
  attempts : Nat := 0

/-- What one publishing call did. -/
structure PublishReport where
  published : Nat := 0
  ignored : Nat := 0
  retries : Nat := 0
  failures : Nat := 0
  deriving DecidableEq, Repr

namespace PublishReport

/-- The work done: every event answered, retried or given up. -/
def work (r : PublishReport) : Nat := r.published + r.ignored + r.retries + r.failures

/-- What an output's answer at attempt `attempt` adds to the report, and the failure to report
when the output did not take the event. -/
def answer (r : PublishReport) (attempt : Nat) : Except Failure Ack → PublishReport × Option Failure
  | .ok .committed => ({ r with published := r.published + 1 }, none)
  | .ok .ignored => ({ r with ignored := r.ignored + 1 }, none)
  | .ok .retry => (r, some (Failure.plain s!"output requested a retry on attempt {attempt}"))
  | .error f => (r, some f)

end PublishReport

/-- The outputs, the retry budget and the loopback source. -/
structure Publisher (W : Type) where
  slots : List (OutputSlot W)
  /-- The number of attempts an event gets, one at least. -/
  retryBudget : Nat
  loopbackSource : SourceId

namespace Publisher

variable {W : Type}

/-- Composes the application's outputs before the extensions' ones; two outputs of one name
are refused. -/
def build (application extensions : List (Output W)) (retryBudget : UInt32)
    (loopbackSource : SourceId) : Except EngineError (Publisher W) :=
  let chain := Chain.compose application extensions .applicationFirst
  let rec place (seen : List String) : List (Output W) → Except EngineError (List (OutputSlot W))
    | [] => .ok []
    | o :: rest =>
      if seen.contains o.name then .error (.duplicateOutput o.name)
      else (fun slots => { output := o, poller := "output:" ++ o.name } :: slots) <$>
        place (o.name :: seen) rest
  (fun slots => ⟨slots, max retryBudget.toNat 1, loopbackSource⟩) <$> place [] chain.members

/-- The names of the outputs, in publishing order. -/
def names (p : Publisher W) : List String := p.slots.map (·.output.name)

/-- The pollers of the outputs, in publishing order. -/
def pollers (p : Publisher W) : List String := p.slots.map (·.poller)

/-- The outputs, budget and loopback source, as dumps write them. -/
def dump (p : Publisher W) : String :=
  "OutputPublisher \x7b outputs: " ++ Text.nameList p.names ++ ", retry_budget: " ++
    toString p.retryBudget ++ ", loopback_source_id: " ++ toString p.loopbackSource ++ " \x7d"

end Publisher

end EventSourcing
