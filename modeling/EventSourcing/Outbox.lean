import EventSourcing.Record.Codec
import EventSourcing.MessageLog
import EventSourcing.InFlight
import EventSourcing.State.Base
import EventSourcing.State.Transient
import EventSourcing.EngineError

/-!
# Sending commands

Sending gives a command the next sequence of its source, stamps it with the time, records it
as in flight and appends it to the command log. A payload too large for the size field of a
record is refused before anything is recorded. The next sequence of a source starts, the
first time the source sends, after the larger of its base watermark and the largest sequence
of it seen in the log; after that it counts on from the last sequence sent.

The in-flight entry is written before the append and taken back when the append fails; a
failed send changes nothing else, and the sequence is not used up.

Inputs and outputs reach the outbox only through a sender: `Outbox.Sends` says what the
outbox can become.
-/

namespace EventSourcing

/-- The last sequence sent by each source, and how many commands were sent. -/
structure Sequencers where
  lastSent : List (SourceId × UInt64) := []
  sent : Nat := 0
  deriving Repr, Inhabited

namespace Sequencers

/-- The last sequence a source sent or was started from. -/
def last? (s : Sequencers) (source : SourceId) : Option UInt64 := Keyed.find? s.lastSent source

/-- The next sequence of a source; a source not seen before is started from the larger of
its base watermark and the largest sequence of it seen in the log. -/
def next (s : Sequencers) (source : SourceId) (base : BaseState) (transient : Transient) :
    UInt64 × Sequencers :=
  match s.last? source with
  | some last => (last + 1, s)
  | none =>
    let start := max (base.lastCommand source) (transient.maxSource source)
    (start + 1, { s with lastSent := Keyed.insert s.lastSent source start })

/-- Records a sent command. -/
def commit (s : Sequencers) (source : SourceId) (sequence : UInt64) : Sequencers :=
  { lastSent := Keyed.insert s.lastSent source sequence, sent := s.sent + 1 }

theorem last?_commit (s : Sequencers) (source x : SourceId) (sequence : UInt64) :
    (s.commit source sequence).last? x = if x = source then some sequence else s.last? x := by
  unfold commit last?
  split
  · rename_i hx
    subst hx
    exact Keyed.find?_insert_self _ _ _
  · exact Keyed.find?_insert_of_ne _ _ _ _ ‹_›

end Sequencers

/-- The part of an engine that sending commands changes: the command log, the sequencers,
the commands in flight and the maxima seen. -/
structure Outbox where
  commands : MessageLog
  sequencers : Sequencers := {}
  inFlight : InFlight
  transient : Transient := {}
  deriving Repr

/-- What sending reads but does not change: the base state and the time. -/
structure SendContext where
  base : BaseState
  now : Timestamp

namespace Outbox

/-- The next sequence of a source, as `Sequencers.next` gives it. -/
def nextSequence (o : Outbox) (ctx : SendContext) (source : SourceId) : UInt64 × Outbox :=
  let (n, s) := o.sequencers.next source ctx.base o.transient
  (n, { o with sequencers := s })

/-- Sends a command and gives its sequence. -/
def send (o : Outbox) (ctx : SendContext) (source : SourceId) (payloadType : PayloadType)
    (payload : Bytes) : Except EngineError UInt64 × Outbox :=
  let (sequence, o) := o.nextSequence ctx source
  if 4294967296 ≤ payload.length then (.error (.payloadTooLarge payload.length), o)
  else
    let c : Command := ⟨source, sequence, ctx.now, payloadType, payload⟩
    let inFlight := o.inFlight.send source sequence ctx.now
    match o.commands.append c.encode with
    | .error e => (.error (.send source e), { o with inFlight := (inFlight.undo source sequence).2 })
    | .ok (_, commands) =>
      (.ok sequence,
        { o with commands := commands, inFlight := inFlight
                 sequencers := o.sequencers.commit source sequence
                 transient := o.transient.noteCommand source sequence })

/-- What an outbox can become through a sender at one reading of the clock: commands sent
one after the other, and sources' next sequences asked for. -/
inductive Sends (ctx : SendContext) : Outbox → Outbox → Prop where
  | refl (o : Outbox) : Sends ctx o o
  | send {o o' : Outbox} (source : SourceId) (payloadType : PayloadType) (payload : Bytes) :
      Sends ctx (o.send ctx source payloadType payload).2 o' → Sends ctx o o'
  | next {o o' : Outbox} (source : SourceId) :
      Sends ctx (o.nextSequence ctx source).2 o' → Sends ctx o o'

namespace Sends

variable {ctx : SendContext}

theorem trans {o o' o'' : Outbox} (h : Sends ctx o o') (h' : Sends ctx o' o'') :
    Sends ctx o o'' := by
  induction h with
  | refl => exact h'
  | send source payloadType payload _ ih => exact .send source payloadType payload (ih h')
  | next source _ ih => exact .next source (ih h')

theorem of_send {o o' : Outbox} {source : SourceId} {payloadType : PayloadType}
    {payload : Bytes} {r : Except EngineError UInt64}
    (h : o.send ctx source payloadType payload = (r, o')) : Sends ctx o o' :=
  .send source payloadType payload (by rw [h]; exact .refl o')

end Sends

/-- A send appends the command's record to the command log, or leaves the log as it was. -/
theorem send_commands (o : Outbox) (ctx : SendContext) (source : SourceId)
    (payloadType : PayloadType) (payload : Bytes) :
    let o' := (o.send ctx source payloadType payload).2
    o'.commands.pollers = o.commands.pollers ∧
      (o'.commands.messages = o.commands.messages ∨ ∃ c : Command,
        o'.commands.messages = o.commands.messages.push c.encode) := by
  unfold send nextSequence
  dsimp only
  split
  · exact ⟨rfl, .inl rfl⟩
  split
  · exact ⟨rfl, .inl rfl⟩
  · rename_i i commands happend
    obtain ⟨-, rfl⟩ := MessageLog.append_eq_ok happend
    exact ⟨rfl, .inr ⟨_, rfl⟩⟩

namespace Sends

variable {ctx : SendContext}

/-- Senders only append records of commands to the command log, and move no poller. -/
theorem commands {o o' : Outbox} (h : Sends ctx o o') :
    o'.commands.pollers = o.commands.pollers ∧ ∃ cs : List Command,
      o'.commands.messages.toList = o.commands.messages.toList ++ cs.map Command.encode := by
  induction h with
  | refl o => exact ⟨rfl, [], by simp⟩
  | send source payloadType payload _ ih =>
    obtain ⟨hpollers, cs, hcs⟩ := ih
    obtain ⟨hpollers₁, hsent⟩ := send_commands _ ctx source payloadType payload
    refine ⟨hpollers.trans hpollers₁, ?_⟩
    rcases hsent with hsame | ⟨c, hc⟩
    · exact ⟨cs, by rw [hcs, hsame]⟩
    · exact ⟨c :: cs, by rw [hcs, hc]; simp⟩
  | next source _ ih =>
    obtain ⟨hpollers, cs, hcs⟩ := ih
    exact ⟨hpollers, cs, hcs⟩

end Sends

/-- A send fails only with an error the engine can go on past: a payload too large for a record,
or a send error. -/
theorem send_error_not_fatal {o o' : Outbox} {ctx : SendContext} {source : SourceId}
    {payloadType : PayloadType} {payload : Bytes} {e : EngineError}
    (h : o.send ctx source payloadType payload = (.error e, o')) : e.isFatal = false := by
  unfold send at h
  dsimp only at h
  split at h
  · cases h
    rfl
  · split at h
    · cases h
      rfl
    · cases h

end Outbox

end EventSourcing
