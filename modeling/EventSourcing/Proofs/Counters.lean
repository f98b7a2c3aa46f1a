import Mathlib
import EventSourcing.Proofs.Atomicity
import EventSourcing.Proofs.Delivery
import EventSourcing.Proofs.Tracker

/-!
# The counters keep step with the logs

An engine counts what it does, each count at its own place: the dispatcher counts the commands
it takes, by outcome, and the events it appends; the applier counts the events it applies; a
publishing call counts, at its end, what its report says the outputs did; and the sequencers
count the commands sent. Along a session of an engine started over two empty logs, in which
commands reach the command log only through senders and no call ends with a fatal error, the
counters say what the logs show (`counters_match_logs`): every command the dispatcher passed is
counted as dispatched or skipped, and every dispatched one by its outcome; every event is counted
as appended and as applied, and is the last one the base state and the engine have seen; every
command logged is counted as sent; and every event an output's poller moved past is counted as
published, ignored or failed.

The invariant is `Tallied`. Its weaker form `Tally` lets the applier lag behind the event log, as
it does within a dispatcher's round, between the append of a batch and the events' application;
`Tallied` has the applier caught up, as it is between calls. Every call keeps it when it ends
without a fatal error (`KeepsTally`), so long as the event log stays within a machine word.

An output's poller counts only the events the output was offered when no other reader moves it:
an applier that polls under an output's name moves that output on as it applies.
-/

namespace EventSourcing

namespace Router

/-- A sealed transaction counts the events of its batch. -/
theorem eventCount_finish (r : Router) (first : UInt64) (time : Timestamp) :
    (r.finish first time).1.eventCount = (r.finish first time).2.length := by
  unfold finish
  split
  · rfl
  split
  · rfl
  · simp [Outcome.eventCount]

end Router

namespace PublishReport

/-- The events a report counts as done with: taken, ignored or given up. -/
def finished (r : PublishReport) : Nat := r.published + r.ignored + r.failures

/-- An answer that takes or ignores the event adds one event done with; a failure adds none. -/
theorem finished_answer (r : PublishReport) (attempt : Nat) (answer : Except Failure Ack) :
    (r.answer attempt answer).1.finished =
      r.finished + if (r.answer attempt answer).2.isNone then 1 else 0 := by
  rcases answer with f | ack
  · simp [PublishReport.answer]
  · cases ack <;> simp [PublishReport.answer, finished] <;> omega

end PublishReport

namespace Sequencers

theorem sent_next (s : Sequencers) (source : SourceId) (base : BaseState) (t : Transient) :
    (s.next source base t).2.sent = s.sent := by
  unfold next
  split <;> rfl

end Sequencers

namespace Outbox

/-- The sequencers count a send exactly when the command log takes the command, and sending
notes no event. -/
theorem send_counted (o : Outbox) (ctx : SendContext) (source : SourceId)
    (payloadType : PayloadType) (payload : Bytes) :
    (o.send ctx source payloadType payload).2.sequencers.sent + o.commands.length =
        o.sequencers.sent + (o.send ctx source payloadType payload).2.commands.length ∧
      (o.send ctx source payloadType payload).2.transient.maxEvent = o.transient.maxEvent := by
  unfold send nextSequence
  dsimp only
  split
  · exact ⟨by rw [Sequencers.sent_next], rfl⟩
  split
  · exact ⟨by rw [Sequencers.sent_next], rfl⟩
  · rename_i i commands happend
    obtain ⟨-, rfl⟩ := MessageLog.append_eq_ok happend
    refine ⟨?_, rfl⟩
    simp only [Sequencers.commit, Sequencers.sent_next, MessageLog.length, Array.size_push]
    omega

/-- Senders log as many commands as the sequencers count, and note no event. -/
theorem Sends.counted {ctx : SendContext} {o o' : Outbox} (h : Sends ctx o o') :
    o'.sequencers.sent + o.commands.length = o.sequencers.sent + o'.commands.length ∧
      o'.transient.maxEvent = o.transient.maxEvent := by
  induction h with
  | refl => exact ⟨rfl, rfl⟩
  | send source payloadType payload _ ih =>
    obtain ⟨hsent, hmax⟩ := send_counted _ ctx source payloadType payload
    exact ⟨by omega, ih.2.trans hmax⟩
  | @next o₁ o₂ source _ ih =>
    -- asking for a sequence counts nothing and logs nothing
    obtain ⟨hsent, hmax⟩ := ih
    rw [show (o₁.nextSequence ctx source).2.sequencers.sent = o₁.sequencers.sent from
      Sequencers.sent_next _ _ _ _] at hsent
    exact ⟨hsent, hmax⟩

end Outbox

namespace Application

/-- An event accepted in order carries the number after the last applied: the word does not
wrap. -/
theorem toNat_of_next {last sequence : UInt64} (hlt : last < sequence) (heq : sequence = last + 1) :
    sequence.toNat = last.toNat + 1 := by
  subst heq
  rw [UInt64.lt_iff_toNat_lt, UInt64.toNat_add] at hlt
  rw [UInt64.toNat_add]
  simp only [UInt64.reduceToNat] at hlt ⊢
  omega

end Application

namespace Transient

/-- Noting an event later than the last one applied, when the engine had seen no later event
than that one and the log's end, leaves it having seen no later event than this one and the
log's end. -/
theorem maxEvent_noteEvent_of_lt {t : Transient} {last sequence bound : UInt64} (time : Timestamp)
    (ht : t.maxEvent = max last bound) (hlt : last < sequence) :
    (t.noteEvent sequence time).maxEvent = max sequence bound := by
  show max t.maxEvent sequence = _
  rw [ht]
  apply UInt64.toNat_inj.1
  rw [UInt64.lt_iff_toNat_lt] at hlt
  simp only [UInt64.toNat_max]
  omega

/-- The last event of a batch appended after `n` events, numbered from `n + 1`. -/
theorem last_of_batch (n k : Nat) : (n + 1).toUInt64 + k.toUInt64 - 1 = (n + k).toUInt64 := by
  simp only [Nat.toUInt64_eq, UInt64.ofNat_add, show UInt64.ofNat 1 = 1 from rfl]
  rw [add_right_comm, add_sub_cancel_right]

end Transient

namespace MessageLog

theorem position_congr {log log' : MessageLog} (h : log'.pollers = log.pollers) (p : String) :
    log'.position p = log.position p := by
  unfold position
  rw [h]

end MessageLog

namespace Engine

variable {W : Type}

/-- How far the outputs have come through the event log: their pollers' positions, summed. -/
def outputsAt (e : Engine W) : Nat := (e.publisher.pollers.map e.events.position).sum

/-- Moving one of a list of distinct pollers on adds one to their positions' sum. -/
theorem sum_positions_advance {log log' : MessageLog} {p : String} :
    ∀ {ps : List String}, ps.Nodup → p ∈ ps → log.advance p = .ok log' →
      (ps.map log'.position).sum = (ps.map log.position).sum + 1
  | [], _, hp, _ => absurd hp List.not_mem_nil
  | q :: rest, hnodup, hp, h => by
    obtain ⟨hq, hrest⟩ := List.nodup_cons.1 hnodup
    simp only [List.map_cons, List.sum_cons]
    by_cases hqp : q = p
    · -- the poller moved is the first; the others stay
      subst hqp
      have hsame : rest.map log'.position = rest.map log.position :=
        List.map_congr_left fun x hx =>
          MessageLog.position_advance_of_ne h fun hxq => hq (hxq ▸ hx)
      rw [hsame, MessageLog.position_advance h]
      omega
    · rw [MessageLog.position_advance_of_ne h hqp,
        sum_positions_advance hrest ((List.mem_cons.1 hp).resolve_left (Ne.symm hqp)) h]
      omega

/-- Steps that leave the outputs alone leave them where they stood, when the applier shares no
output's poller. -/
theorem OutputsKept.outputsAt {s t : Engine W × W} (h : OutputsKept s t)
    (hapart : s.1.config.applierPoller ∉ s.1.publisher.pollers) : t.1.outputsAt = s.1.outputsAt := by
  unfold Engine.outputsAt
  rw [h.publisher]
  exact congrArg List.sum (List.map_congr_left fun q hq => h.positions q hq fun heq => hapart (heq ▸ hq))

theorem Sound.congr {s t : Engine W × W} (h : Sound s) (hp : t.1.publisher = s.1.publisher)
    (hc : t.1.config = s.1.config) : Sound t :=
  ⟨hp ▸ h.distinct, hp ▸ hc ▸ h.apart, hp ▸ h.budget⟩

/-- The counters agree with the logs, the applier perhaps lagging behind the event log: every
command the dispatcher passed is counted as dispatched or skipped, every dispatched one by its
outcome; every event is counted as appended, every one the applier passed as applied, and the
last of these is the base state's; the engine has seen no later event than the log's last; every
logged command is counted as sent; every event an output's poller passed is counted as published,
ignored or failed. The outputs' pollers are apart from the applier's, and the engine is started. -/
structure Tally (s : Engine W × W) : Prop where
  sound : Sound s
  started : Started s
  outcomes : s.1.counters.commits + s.1.counters.autoCommits + s.1.counters.rollbacks =
    s.1.counters.commandsDispatched
  passed : s.1.counters.commandsDispatched + s.1.counters.duplicatesSkipped = s.1.dispatcherAt
  appended : s.1.counters.eventsAppended = s.1.events.length
  applied : s.1.counters.eventsApplied = s.1.applierAt
  behind : s.1.applierAt ≤ s.1.events.length
  lastEvent : s.1.base.lastEvent.toNat = s.1.applierAt
  maxEvent : s.1.outbox.transient.maxEvent = max s.1.base.lastEvent s.1.events.length.toUInt64
  sent : s.1.outbox.sequencers.sent = s.1.outbox.commands.length
  outputs : s.1.counters.outputsPublished + s.1.counters.outputsIgnored +
    s.1.counters.outputFailures = s.1.outputsAt

/-- The counters agree with the logs, and the applier has applied the whole event log. -/
structure Tallied (s : Engine W × W) : Prop extends Tally s where
  caughtUp : s.1.applierAt = s.1.events.length

section Frame

variable {s : Engine W × W}

/-- Senders change what the tally reads of the outbox only by logging commands they count. -/
theorem Tally.sends {ctx : SendContext} {o : Outbox} (h : Tally s)
    (hsends : Outbox.Sends ctx s.1.outbox o) (w : W) : Tally ({ s.1 with outbox := o }, w) := by
  obtain ⟨hpollers, -⟩ := hsends.commands
  obtain ⟨hsent, hmax⟩ := hsends.counted
  refine ⟨h.sound.congr rfl rfl, h.started, h.outcomes, ?_, h.appended, h.applied, h.behind,
    h.lastEvent, hmax.trans h.maxEvent, ?_, h.outputs⟩
  · show _ = o.commands.position s.1.config.dispatcherPoller
    rw [MessageLog.position_congr hpollers]
    exact h.passed
  · have := h.sent
    show o.sequencers.sent = o.commands.length
    omega

theorem Tallied.sends {ctx : SendContext} {o : Outbox} (h : Tallied s)
    (hsends : Outbox.Sends ctx s.1.outbox o) (w : W) : Tallied ({ s.1 with outbox := o }, w) :=
  ⟨h.toTally.sends hsends w, h.caughtUp⟩

/-- The tally reads nothing of the application's state. -/
theorem Tallied.world (h : Tallied s) (w : W) : Tallied (s.1, w) :=
  ⟨⟨h.sound.congr rfl rfl, h.started, h.outcomes, h.passed, h.appended, h.applied, h.behind,
    h.lastEvent, h.maxEvent, h.sent, h.outputs⟩, h.caughtUp⟩

/-- Counting cycles and failed polls keeps the tally. -/
theorem Tallied.count_other {f : EngineCounters → EngineCounters} (h : Tallied s)
    (hf : ∀ c, f c = { c with cycles := (f c).cycles, inputFailures := (f c).inputFailures }) :
    Tallied ({ s.1 with counters := f s.1.counters }, s.2) := by
  rw [hf]
  exact ⟨⟨h.sound.congr rfl rfl, h.started, h.outcomes, h.passed, h.appended, h.applied, h.behind,
    h.lastEvent, h.maxEvent, h.sent, h.outputs⟩, h.caughtUp⟩

/-- The applier is at the log's end, so the base state's last event is the log's last. -/
theorem Tallied.length_toUInt64 (h : Tallied s) : s.1.events.length.toUInt64 = s.1.base.lastEvent := by
  rw [← h.caughtUp, ← h.lastEvent]
  exact UInt64.ofNat_toNat

theorem Delivered.sound_of {t : Engine W × W} (h : Delivered s t) (hs : Sound s) : Sound t := by
  obtain ⟨ds, hd, -⟩ := h hs
  exact hd.sound hs

/-- Steps that keep the outputs' law only append to the event log. -/
theorem Delivered.length_le {t : Engine W × W} (h : Delivered s t) (hs : Sound s) :
    s.1.events.length ≤ t.1.events.length := by
  obtain ⟨ds, hd, -⟩ := h hs
  simpa [MessageLog.length] using hd.grows.length_le

end Frame

/-- The tally holds after as it held before. -/
def TallyKept (s t : Engine W × W) : Prop := Tallied s → Tallied t

instance : Std.Refl (TallyKept (W := W)) := ⟨fun _ => id⟩

instance : Trans (TallyKept (W := W)) TallyKept TallyKept := ⟨fun h h' hs => h' (h hs)⟩

/-- Running `m` from a tallied engine ends tallied when it ends without a fatal error and leaves
the event log within a machine word. Whatever its end, it keeps the outputs' law, and so only
appends to the event log. -/
structure KeepsTally {α : Type} (m : EngineM W α) : Prop where
  delivered : Relates Delivered m
  tallied : ∀ now s, Tallied s → (∀ e, (exec m now s).1 = .error e → e.isFatal = false) →
    (exec m now s).2.1.events.length ≤ unbounded → Tallied (exec m now s).2

namespace KeepsTally

variable {α β : Type} {x : EngineM W α}

theorem of_relates (hd : Relates Delivered x) (h : Relates TallyKept x) : KeepsTally x :=
  ⟨hd, fun now s hs _ _ => h now s hs⟩

theorem pure (a : α) : KeepsTally (Pure.pure a : EngineM W α) := of_relates (.pure a) (.pure a)

theorem engine : KeepsTally (Engine.engine : EngineM W (Engine W)) := of_relates .engine .engine

theorem ensureStarted : KeepsTally (Engine.ensureStarted : EngineM W Unit) :=
  of_relates .ensureStarted .ensureStarted

/-- The pieces of a call keep the tally, the later ones only appending to the event log. -/
theorem bind {f : α → EngineM W β} (hx : KeepsTally x) (hf : ∀ a, KeepsTally (f a)) :
    KeepsTally (x >>= f) where
  delivered := .bind hx.delivered fun a => (hf a).delivered
  tallied now s hs hfatal hbound := by
    rw [exec_bind] at hfatal hbound ⊢
    cases hr : (exec x now s).1 with
    | error e =>
      simp only [hr] at hfatal hbound ⊢
      refine hx.tallied now s hs (fun e' he' => ?_) hbound
      rw [hr] at he'
      cases he'
      exact hfatal e rfl
    | ok a =>
      simp only [hr] at hfatal hbound ⊢
      -- the rest of the call only appends, so the log was within the word before it
      have hgrow := ((hf a).delivered now _).length_le ((hx.delivered now s).sound_of hs.sound)
      have hs₁ := hx.tallied now s hs (fun e he => by rw [hr] at he; cases he) (hgrow.trans hbound)
      exact (hf a).tallied now _ hs₁ hfatal hbound

/-- A cycle counted whether it fails or not keeps the tally as its steps do. -/
theorem tryCatch_count (hx : KeepsTally x) (g : EngineCounters → EngineCounters)
    (hg : ∀ c, g c = { c with cycles := (g c).cycles, inputFailures := (g c).inputFailures }) :
    KeepsTally (tryCatch x fun err => do Engine.count g; throw err) where
  delivered := .tryCatch hx.delivered fun e =>
    .bind (.count g fun _ => .of_kept (.of_events rfl rfl rfl)) fun _ => .throw e
  tallied now s hs hfatal hbound := by
    rw [exec_tryCatch] at hfatal hbound ⊢
    cases hr : (exec x now s).1 with
    | ok a =>
      simp only [hr] at hfatal hbound ⊢
      exact hx.tallied now s hs (fun e he => by rw [hr] at he; cases he) hbound
    | error e =>
      simp only [hr, exec_bind, exec_count, exec_throw] at hfatal hbound ⊢
      -- the handler fails with the error of the steps, after counting the cycle
      have hs₁ := hx.tallied now s hs (fun e' he' => by
        rw [hr] at he'
        cases he'
        exact hfatal e rfl) hbound
      exact hs₁.count_other hg

end KeepsTally

section Applier

variable {now : Timestamp} {s t : Engine W × W}

/-- The applier's step that took an event keeps the tally: the event is counted as applied, it is
the one after the base state's last, it is the latest seen, and the poller moves one on, within
the log and apart from the outputs. -/
theorem Tally.applyNext_keeps (h : Tally s) (hnext : exec applyNext now s = (.ok true, t)) : Tally t := by
  obtain ⟨m, ev, d, a, w, acked, inFlight, events, hpeek, hdecode, happly, hack, hadvance, ht⟩ :=
    applyNext_eq_true hnext
  have hkept : OutputsKept s t := .of_advance (by rw [ht]) (by rw [ht]) (by rw [ht]; exact hadvance)
  obtain ⟨hlt, hseq, rfl, -, -⟩ := Application.apply_eq_ok happly
  obtain ⟨hpos, rfl⟩ := MessageLog.advance_eq_ok hadvance
  have hnum := Application.toNat_of_next hlt hseq
  subst ht
  refine ⟨h.sound.congr rfl rfl, h.started, h.outcomes, h.passed, ?_, ?_, ?_, ?_, ?_, h.sent, ?_⟩
  · show s.1.counters.eventsAppended = (s.1.events.setPosition _ _).length
    rw [MessageLog.length_setPosition]
    exact h.appended
  · show s.1.counters.eventsApplied + 1 = (s.1.events.setPosition _ _).position _
    rw [MessageLog.position_setPosition, h.applied]
    rfl
  · show (s.1.events.setPosition _ _).position _ ≤ (s.1.events.setPosition _ _).length
    rw [MessageLog.position_setPosition, MessageLog.length_setPosition]
    exact hpos
  · show (s.1.base.record ev).lastEvent.toNat = (s.1.events.setPosition _ _).position _
    rw [BaseState.lastEvent_record, hnum, MessageLog.position_setPosition]
    exact congrArg (· + 1) h.lastEvent
  · show (s.1.outbox.transient.noteEvent ev.sequence ev.time).maxEvent =
      max ev.sequence (s.1.events.setPosition _ _).length.toUInt64
    rw [MessageLog.length_setPosition]
    exact Transient.maxEvent_noteEvent_of_lt ev.time h.maxEvent hlt
  · rw [hkept.outputsAt h.sound.apart]
    exact h.outputs

/-- Applying up to `limit` events keeps the tally. -/
theorem Tally.applyUpTo_keeps : ∀ (limit : Nat) {s t : Engine W × W} {k : Nat}, Tally s →
    exec (applyUpTo limit) now s = (.ok k, t) → Tally t
  | 0, s, t, k, h, happly => by
    simp only [applyUpTo, exec_pure, Prod.mk.injEq] at happly
    obtain ⟨-, rfl⟩ := happly
    exact h
  | limit + 1, s, t, k, h, happly => by
    rw [applyUpTo, exec_bind] at happly
    cases hr : (exec applyNext now s).1 with
    | error e => simp [hr] at happly
    | ok taken =>
      cases taken with
      | false =>
        rw [applyNext_unchanged hr] at happly
        simp only [Bool.false_eq_true, if_false, exec_pure, Prod.mk.injEq] at happly
        obtain ⟨-, rfl⟩ := happly
        exact h
      | true =>
        have h₁ := h.applyNext_keeps (Prod.ext hr rfl)
        simp only [hr, if_true, exec_bind] at happly
        cases hrest : (exec (applyUpTo limit) now (exec applyNext now s).2).1 with
        | error e => simp [hrest] at happly
        | ok n =>
          simp only [hrest, exec_pure, Prod.mk.injEq] at happly
          obtain ⟨-, rfl⟩ := happly
          exact Tally.applyUpTo_keeps limit h₁ (Prod.ext hrest rfl)

/-- Applying as many events as a word counts catches the applier up, when the log is within a
word. -/
theorem Tally.catchUp {k : Nat} (h : Tally s) (happly : exec (applyUpTo unbounded) now s = (.ok k, t))
    (hbound : t.1.events.length ≤ unbounded) : Tallied t := by
  have ht := h.applyUpTo_keeps unbounded happly
  obtain ⟨evs, rfl, hreplay, hend⟩ := replayed_applyUpTo unbounded happly
  refine ⟨ht, ?_⟩
  by_cases hk : evs.length < unbounded
  · exact Nat.le_antisymm ht.behind (hend hk)
  · -- taking a word's count of events took every event the log held
    have hfits := hreplay.fits
    have hat := hreplay.applierAt
    have hbehind := h.behind
    have hlen : t.1.events.length = s.1.events.length := by
      simp [MessageLog.length, hreplay.messages]
    omega

/-- An applier caught up finds nothing to apply. -/
theorem exec_applyUpTo_of_caughtUp (h : s.1.applierAt = s.1.events.length) :
    ∀ limit, exec (applyUpTo limit) now s = (.ok 0, s)
  | 0 => rfl
  | limit + 1 => by
    rw [applyUpTo, exec_bind, exec_applyNext_none (MessageLog.peek?_eq_none.2 h.ge)]
    rfl

end Applier

section Calls

theorem keepsTally_apply (limit : Nat) : KeepsTally (apply limit : EngineM W Nat) :=
  ⟨(outputsKept_apply limit).delivered, fun now s hs _ _ => by
    rw [exec_apply_of_started hs.started, exec_applyUpTo_of_caughtUp hs.caughtUp]
    exact hs⟩

theorem keepsTally_send (source : SourceId) (payloadType : PayloadType) (payload : Bytes) :
    KeepsTally (send source payloadType payload : EngineM W UInt64) :=
  ⟨(outputsKept_send source payloadType payload).delivered, fun now s hs _ _ => by
    rw [exec_send_of_started hs.started]
    exact hs.sends (Outbox.Sends.of_send rfl) s.2⟩

theorem keepsTally_nextSequence (source : SourceId) :
    KeepsTally (nextSequence source : EngineM W UInt64) :=
  ⟨(outputsKept_nextSequence source).delivered, fun now s hs _ _ => by
    rw [exec_nextSequence_of_started hs.started]
    exact hs.sends (.next source (.refl _)) s.2⟩

/-- Polling keeps the tally whatever the inputs answer: they only send, and a failed poll is
counted apart. -/
theorem keepsTally_pollInputs (extensions : Bool) :
    KeepsTally (pollInputs extensions : EngineM W Nat) := by
  have hpoll : ∀ work input, Relates TallyKept (pollInput work input : EngineM W Nat) := by
    intro work input now s hs
    unfold pollInput
    simp only [exec_bind, exec_sendContext, exec_world, exec_engine, exec_modify]
    have hsent := hs.sends (input.poll_sends ⟨s.1.base, now⟩ s.2 s.1.outbox)
      (input.poll ⟨s.1.base, now⟩ s.2 s.1.outbox).2.1
    cases (input.poll ⟨s.1.base, now⟩ s.2 s.1.outbox).1 with
    | ok n => exact hsent
    | error f =>
      simp only [exec_bind, exec_engine, exec_modifyWorld, exec_count, exec_pure]
      exact (hsent.world _).count_other (f := fun c => { c with inputFailures := c.inputFailures + 1 })
        fun _ => rfl
  unfold pollInputs
  exact .of_relates (outputsKept_pollInputs extensions).delivered
    (.bind .engine fun _ => .foldlM hpoll _ 0)

/-- A started engine refuses to start again and stays as it was. -/
theorem keepsTally_start : KeepsTally (start : EngineM W EngineStatus) :=
  ⟨outputsKept_start.delivered, fun now s hs _ _ => by
    unfold start
    rw [exec_engine_bind]
    dsimp only
    rw [if_pos (show s.1.status.started = true from hs.started)]
    simp only [exec_bind, exec_throw]
    exact hs⟩

end Calls

section Dispatcher

variable {now : Timestamp} {s t : Engine W × W} {m : Stored} {c : Command}

/-- The dispatcher's step at a command at or below its source's watermark reports the duplicate,
notes the command as seen and moves past its record. -/
theorem exec_dispatchNext_of_duplicate
    (hpeek : s.1.outbox.commands.peek? s.1.config.dispatcherPoller = some m)
    (hdecode : Command.decode m.bytes = .ok c) (hdup : c.sequence ≤ s.1.base.lastCommand c.source) :
    exec dispatchNext now s = (.ok .duplicate, ({ s.1 with outbox := { s.1.outbox with
      transient := s.1.outbox.transient.noteCommand c.source c.sequence
      commands := s.1.outbox.commands.setPosition s.1.config.dispatcherPoller
        (s.1.dispatcherAt + 1) } },
      s.1.handlers.duplicate c (s.1.base.lastCommand c.source) s.2)) := by
  unfold dispatchNext
  rw [exec_engine_bind]
  simp only [hpeek]
  rw [exec_bind, hdecode, exec_lift_ok]
  dsimp only
  rw [exec_bind, exec_modifyEngine]
  dsimp only
  rw [if_pos hdup]
  simp only [exec_bind, exec_modifyWorld, exec_pure, exec_engine, MessageLog.advance_of_peek? hpeek,
    exec_lift_ok, exec_modifyEngine]
  rfl

/-- The dispatcher's step at a command above its source's watermark, when the event log takes its
batch: the batch is appended, the command and the batch's last event are noted as seen, and the
poller moves past the record. The outcome counts the batch's events. -/
theorem exec_dispatchNext_of_appended {i : Nat} {events : MessageLog}
    (hpeek : s.1.outbox.commands.peek? s.1.config.dispatcherPoller = some m)
    (hdecode : Command.decode m.bytes = .ok c) (hnew : s.1.base.lastCommand c.source < c.sequence)
    (happend : s.1.events.appendBatch ((dispatchOf s m.index c now).batch.map Event.encode) =
      (.ok i, events)) :
    ∃ (o : Outcome) (w : W), o.eventCount = (dispatchOf s m.index c now).batch.length ∧
      exec dispatchNext now s = (.ok (.processed o), ({ s.1 with
        events := events
        outbox := { s.1.outbox with
          transient := (s.1.outbox.transient.noteCommand c.source c.sequence).noteEvent
            ((s.1.events.length + 1).toUInt64 + o.eventCount.toUInt64 - 1) now
          commands := s.1.outbox.commands.setPosition s.1.config.dispatcherPoller
            (s.1.dispatcherAt + 1) } }, w)) := by
  rw [batch_dispatchOf, if_neg (UInt64.not_le.2 hnew)] at happend ⊢
  obtain ⟨w, hw⟩ := @exec_process W now ({ s.1 with outbox := { s.1.outbox with
    transient := s.1.outbox.transient.noteCommand c.source c.sequence } }, s.2) c
  refine ⟨_, w, Router.eventCount_finish _ _ _, ?_⟩
  rw [exec_dispatchNext_of_new hpeek hdecode hnew, hw]
  simp only [Engine.base] at happend ⊢
  rw [happend]
  simp only [MessageLog.advance_of_peek? hpeek]
  rfl

/-- The end of a round that goes through: the step is counted, then the applier catches up.
When the count leaves the tally, the applier perhaps behind, the round ends tallied. -/
theorem Tally.roundEnd_keeps {f : EngineCounters → EngineCounters} {u : Engine W × W}
    {r : Option Nat} (hu : Started u) (h : Tally ({ u.1 with counters := f u.1.counters }, u.2))
    (hend : exec (do count f; let applied ← apply unbounded; return some (1 + applied)) now u =
      (.ok r, t))
    (hbound : t.1.events.length ≤ unbounded) : Tallied t := by
  rw [exec_bind, exec_count, exec_bind, exec_apply_of_started (by exact hu)] at hend
  cases happly : exec (applyUpTo unbounded) now ({ u.1 with counters := f u.1.counters }, u.2) with
  | mk r' t' =>
  rw [happly] at hend
  cases r' with
  | error e => cases hend
  | ok k =>
    simp only [exec_pure, Prod.mk.injEq] at hend
    obtain ⟨-, rfl⟩ := hend
    exact Tally.catchUp h happly hbound

/-- A round from a tallied engine that goes through ends tallied, the event log within a word:
the command taken is counted as skipped, or as dispatched by its outcome with its batch counted
as appended, and the applier applies the batch to the end. -/
theorem Tallied.dispatchRound_keeps (h : Tallied s) {r : Option Nat}
    (hround : exec dispatchRound now s = (.ok r, t)) (hbound : t.1.events.length ≤ unbounded) :
    Tallied t := by
  cases hpeek : s.1.outbox.commands.peek? s.1.config.dispatcherPoller with
  | none =>
    rw [exec_dispatchRound_idle hpeek] at hround
    cases hround
    exact h
  | some m =>
  cases hdecode : Command.decode m.bytes with
  | error e =>
    rw [exec_dispatchRound_undecodable hpeek hdecode] at hround
    cases hround
  | ok c =>
  by_cases hdup : c.sequence ≤ s.1.base.lastCommand c.source
  · -- a duplicate: the dispatcher's poller moves past it, and the skip is counted
    unfold dispatchRound at hround
    rw [exec_bind, exec_dispatchNext_of_duplicate hpeek hdecode hdup] at hround
    dsimp only at hround
    refine Tally.roundEnd_keeps (by exact h.started) ?_ hround hbound
    refine ⟨h.sound.congr rfl rfl, h.started, h.outcomes, ?_, h.appended, h.applied,
      h.behind, h.lastEvent, h.maxEvent, ?_, h.outputs⟩
    · show s.1.counters.commandsDispatched + (s.1.counters.duplicatesSkipped + 1) =
        (s.1.outbox.commands.setPosition _ _).position _
      rw [MessageLog.position_setPosition, ← h.passed]
      omega
    · show _ = (s.1.outbox.commands.setPosition _ _).length
      rw [MessageLog.length_setPosition]
      exact h.sent
  · -- a new command: its batch is appended, or the round fails on the log
    have hnew := UInt64.not_le.1 hdup
    cases happend : s.1.events.appendBatch ((dispatchOf s m.index c now).batch.map Event.encode) with
    | mk appended events =>
    cases appended with
    | error err =>
      obtain ⟨w, hw⟩ := dispatchNext_of_refused hpeek hdecode hnew happend
      unfold dispatchRound at hround
      rw [exec_bind, hw] at hround
      cases hround
    | ok i =>
    obtain ⟨o, w, hcount, hnext⟩ := exec_dispatchNext_of_appended hpeek hdecode hnew happend
    obtain ⟨-, rfl⟩ := MessageLog.appendBatch_eq_ok happend
    unfold dispatchRound at hround
    rw [exec_bind, hnext] at hround
    dsimp only at hround
    refine Tally.roundEnd_keeps (by exact h.started) ?_ hround hbound
    have hlast := h.length_toUInt64
    have hlen : ({ s.1.events with messages := s.1.events.messages ++
        ((dispatchOf s m.index c now).batch.map Event.encode).toArray } : MessageLog).length =
        s.1.events.length + o.eventCount := by
      simp [MessageLog.length, hcount]
    refine ⟨h.sound.congr rfl rfl, h.started, ?_, ?_, ?_, h.applied, ?_, h.lastEvent,
      ?_, ?_, h.outputs⟩
    · have := h.outcomes
      show _ + _ + _ = _ + 1
      cases o <;> simp <;> omega
    · show s.1.counters.commandsDispatched + 1 + s.1.counters.duplicatesSkipped =
        (s.1.outbox.commands.setPosition _ _).position _
      rw [MessageLog.position_setPosition, ← h.passed]
      omega
    · show _ + _ = _
      rw [hlen, h.appended]
    · show _ ≤ MessageLog.length _
      rw [hlen]
      exact le_add_right h.behind
    · show max s.1.outbox.transient.maxEvent
          ((s.1.events.length + 1).toUInt64 + o.eventCount.toUInt64 - 1) =
        max s.1.base.lastEvent (MessageLog.length _).toUInt64
      rw [hlen, Transient.last_of_batch, h.maxEvent, ← hlast]
      apply UInt64.toNat_inj.1
      simp only [UInt64.toNat_max]
      omega
    · show _ = (s.1.outbox.commands.setPosition _ _).length
      rw [MessageLog.length_setPosition]
      exact h.sent

/-- A round fails only fatally; one that goes through keeps the tally. -/
theorem keepsTally_dispatchRound : KeepsTally (dispatchRound : EngineM W (Option Nat)) :=
  ⟨outputsKept_dispatchRound.delivered, fun now s hs hfatal hbound => by
    cases hr : exec dispatchRound now s with
    | mk r t =>
    rw [hr] at hfatal hbound
    dsimp only at hfatal hbound ⊢
    cases r with
    | error e =>
      have hfatal' := dispatchRound_error_isFatal hs.started (congrArg Prod.fst hr)
      rw [hfatal e rfl] at hfatal'
      cases hfatal'
    | ok r => exact hs.dispatchRound_keeps hr hbound⟩

theorem keepsTally_dispatchUpTo : ∀ limit, KeepsTally (dispatchUpTo limit : EngineM W Nat)
  | 0 => .pure 0
  | limit + 1 => by
    rw [dispatchUpTo]
    refine .bind keepsTally_dispatchRound fun r => ?_
    cases r with
    | none => exact .pure 0
    | some work => exact .bind (keepsTally_dispatchUpTo limit) fun n => .pure (work + n)

theorem keepsTally_dispatch : KeepsTally (dispatch : EngineM W Nat) :=
  .bind .ensureStarted fun _ => .bind .engine fun _ => keepsTally_dispatchUpTo _

end Dispatcher

section Publishing

variable {now : Timestamp} {s t u : Engine W × W}

/-- What publishing changes: the outputs' attempts and their pollers' positions, the outbox, by
sending at the base state and the time, and the application's state. -/
structure Publishing (now : Timestamp) (s t : Engine W × W) : Prop where
  config : t.1.config = s.1.config
  counters : t.1.counters = s.1.counters
  application : t.1.application = s.1.application
  status : t.1.status = s.1.status
  messages : t.1.events.messages = s.1.events.messages
  applierAt : t.1.applierAt = s.1.applierAt
  pollers : t.1.publisher.pollers = s.1.publisher.pollers
  sends : Outbox.Sends ⟨s.1.base, now⟩ s.1.outbox t.1.outbox

namespace Publishing

theorem refl (s : Engine W × W) : Publishing now s s :=
  ⟨rfl, rfl, rfl, rfl, rfl, rfl, rfl, .refl _⟩

theorem trans (h : Publishing now s t) (h' : Publishing now t u) : Publishing now s u where
  config := h'.config.trans h.config
  counters := h'.counters.trans h.counters
  application := h'.application.trans h.application
  status := h'.status.trans h.status
  messages := h'.messages.trans h.messages
  applierAt := h'.applierAt.trans h.applierAt
  pollers := h'.pollers.trans h.pollers
  sends := h.sends.trans (by
    have hbase : t.1.base = s.1.base := congrArg Application.base h.application
    rw [← hbase]
    exact h'.sends)

end Publishing

/-- A publishing call whose report `r` counts as done with the events the outputs' pollers moved
past keeps the tally once the report is counted. -/
theorem Tallied.published (hs : Tallied s) (h : Publishing now s t) (hsound : Sound t)
    (r : PublishReport) (hout : t.1.outputsAt = s.1.outputsAt + r.finished) :
    Tallied ({ t.1 with counters := { t.1.counters with
      outputsPublished := t.1.counters.outputsPublished + r.published
      outputsIgnored := t.1.counters.outputsIgnored + r.ignored
      outputRetries := t.1.counters.outputRetries + r.retries
      outputFailures := t.1.counters.outputFailures + r.failures } }, t.2) := by
  obtain ⟨hpollers, -⟩ := h.sends.commands
  obtain ⟨hsent, hmax⟩ := h.sends.counted
  have hbase : t.1.base = s.1.base := congrArg Application.base h.application
  have hlen : t.1.events.length = s.1.events.length := by
    simp only [MessageLog.length, h.messages]
  have hat : t.1.dispatcherAt = s.1.dispatcherAt := by
    unfold dispatcherAt
    rw [MessageLog.position_congr hpollers, h.config]
  have hc := h.counters
  refine ⟨⟨hsound.congr rfl rfl, ?_, ?_, ?_, ?_, ?_, ?_, ?_, ?_, ?_, ?_⟩, ?_⟩
  · exact (congrArg EngineStatus.started h.status).trans hs.started
  · simpa only [hc] using hs.outcomes
  · show _ = t.1.dispatcherAt
    simpa only [hc, hat] using hs.passed
  · show _ = t.1.events.length
    simpa only [hc, hlen] using hs.appended
  · show _ = t.1.applierAt
    simpa only [hc, h.applierAt] using hs.applied
  · show t.1.applierAt ≤ t.1.events.length
    rw [h.applierAt, hlen]
    exact hs.behind
  · show t.1.base.lastEvent.toNat = t.1.applierAt
    rw [hbase, h.applierAt]
    exact hs.lastEvent
  · show t.1.outbox.transient.maxEvent = max t.1.base.lastEvent t.1.events.length.toUInt64
    rw [hmax, hbase, hlen]
    exact hs.maxEvent
  · have := hs.sent
    show t.1.outbox.sequencers.sent = t.1.outbox.commands.length
    omega
  · have := hs.outputs
    show _ = t.1.outputsAt
    rw [hout, hc]
    simp only [PublishReport.finished] at this ⊢
    omega
  · show t.1.applierAt = t.1.events.length
    rw [h.applierAt, hlen]
    exact hs.caughtUp

end Publishing

section Offers

variable {i : Nat} {slot : OutputSlot W} {m : Stored} {ev : Event} {replayEnd : Nat}
  {report : PublishReport}

/-- An offer counts the attempt at the output's slot and lets the output send; when it ends the
output's turn at the event, its report counts one more event done with. -/
theorem exec_offer_eq_ok {r : Option PublishReport}
    (h : exec (offer i slot m ev replayEnd report) now s = (.ok r, t)) :
    ∃ (o : Outbox) (w : W), Outbox.Sends ⟨s.1.base, now⟩ s.1.outbox o ∧
      t = ({ s.1 with
        publisher := s.1.publisher.setAttempts i slot (slot.attempts + 1)
        outbox := o }, w) ∧
      ∀ r', r = some r' → r'.finished = report.finished + 1 := by
  unfold offer at h
  simp only [exec_bind, exec_engine, setSlot, exec_modifyEngine, exec_sendContext, exec_world,
    exec_modify] at h
  generalize hctx : (OutputContext.mk _ _ _ _) = ctx at h
  have hsend : ctx.send = ⟨s.1.base, now⟩ := by
    rw [← hctx]
    rfl
  have hsends := slot.output.publish_sends ev ctx s.2 s.1.outbox
  generalize hpub : slot.output.publish ev ctx s.2 s.1.outbox = a at h hsends
  obtain ⟨answer, w, o⟩ := a
  rw [hsend] at hsends
  have hfinished := PublishReport.finished_answer report (slot.attempts + 1) answer
  rcases hans : report.answer (slot.attempts + 1) answer with ⟨r', _ | f⟩
  · -- the output took or ignored the event
    simp only [hans, exec_pure, Prod.mk.injEq, Except.ok.injEq] at h hfinished
    obtain ⟨rfl, rfl⟩ := h
    refine ⟨o, w, hsends, rfl, fun r'' hr'' => ?_⟩
    cases hr''
    simpa using hfinished
  · rw [hans] at h hfinished
    dsimp only at h
    split at h
    · -- attempts remain: the event stays
      simp only [exec_pure, Prod.mk.injEq, Except.ok.injEq] at h
      obtain ⟨rfl, rfl⟩ := h
      exact ⟨o, w, hsends, rfl, fun _ hr'' => by cases hr''⟩
    · -- the budget is spent: the output gives the event up
      simp only [exec_bind, exec_modifyWorld, exec_pure, Prod.mk.injEq, Except.ok.injEq] at h
      obtain ⟨rfl, rfl⟩ := h
      refine ⟨o, _, hsends, rfl, fun r'' hr'' => ?_⟩
      cases hr''
      simp only [Option.isNone_some, Bool.false_eq_true, if_false, Nat.add_zero] at hfinished
      simp only [PublishReport.finished] at hfinished ⊢
      omega

/-- Offering events to the output at slot `i`, from a report, moves the output's poller past
as many events as the report gains events done with, and changes only what publishing changes. -/
theorem publishSlot_publishing (i : Nat) (lastApplied : UInt64) (replayEnd : Nat) :
    ∀ (limit : Nat) (report : PublishReport) {s t : Engine W × W} {r : PublishReport},
      s.1.publisher.pollers.Nodup → s.1.config.applierPoller ∉ s.1.publisher.pollers →
      exec (publishSlot i lastApplied replayEnd limit report) now s = (.ok r, t) →
      Publishing now s t ∧ t.1.outputsAt + report.finished = s.1.outputsAt + r.finished
  | 0, report, s, t, r, _, _, h => by
    simp only [publishSlot, exec_pure, Prod.mk.injEq, Except.ok.injEq] at h
    obtain ⟨rfl, rfl⟩ := h
    exact ⟨.refl s, rfl⟩
  | limit + 1, report, s, t, r, hdistinct, hapart, h => by
    rw [publishSlot, exec_engine_bind] at h
    cases hslot : s.1.publisher.slots[i]? with
    | none =>
      simp only [hslot, exec_pure, Prod.mk.injEq, Except.ok.injEq] at h
      obtain ⟨rfl, rfl⟩ := h
      exact ⟨.refl s, rfl⟩
    | some slot =>
    simp only [hslot] at h
    cases hpeek : s.1.events.peek? slot.poller with
    | none =>
      simp only [hpeek, exec_pure, Prod.mk.injEq, Except.ok.injEq] at h
      obtain ⟨rfl, rfl⟩ := h
      exact ⟨.refl s, rfl⟩
    | some m =>
    simp only [hpeek] at h
    cases hdecode : Event.decode m.bytes with
    | error e => simp [exec_bind, hdecode] at h
    | ok ev =>
    simp only [exec_bind, hdecode, exec_lift_ok] at h
    by_cases hlate : lastApplied < ev.sequence
    · simp only [hlate, if_true, exec_pure, Prod.mk.injEq, Except.ok.injEq] at h
      obtain ⟨rfl, rfl⟩ := h
      exact ⟨.refl s, rfl⟩
    simp only [hlate, if_false] at h
    rw [exec_bind] at h
    cases hoffer : exec (offer i slot m ev replayEnd report) now s with
    | mk res s₁ =>
    rw [hoffer] at h
    cases res with
    | error e => cases h
    | ok res =>
    obtain ⟨o, w, hsends, rfl, hfinished⟩ := exec_offer_eq_ok hoffer
    have hpollers : (s.1.publisher.setAttempts i slot (slot.attempts + 1)).pollers =
        s.1.publisher.pollers := Publisher.pollers_setAttempts _ hslot
    have hoffered : Publishing now s ({ s.1 with
        publisher := s.1.publisher.setAttempts i slot (slot.attempts + 1)
        outbox := o }, w) := ⟨rfl, rfl, rfl, rfl, rfl, rfl, hpollers, hsends⟩
    cases res with
    | none =>
      -- attempts remain: the retry ends the output's turn and finishes nothing
      simp only [exec_pure, Prod.mk.injEq, Except.ok.injEq] at h
      obtain ⟨rfl, rfl⟩ := h
      refine ⟨hoffered, ?_⟩
      simp only [outputsAt, hpollers, PublishReport.finished]
    | some report' =>
      -- the output is done with the event: its poller moves past it
      obtain ⟨events, hadvance⟩ : ∃ events, s.1.events.advance slot.poller = .ok events :=
        ⟨_, MessageLog.advance_of_peek? hpeek⟩
      simp only [setSlot, exec_bind, exec_modifyEngine, exec_engine, hadvance, exec_lift_ok,
        Publisher.setAttempts, List.set_set] at h
      have hmem : slot.poller ∈ s.1.publisher.pollers := poller_mem_pollers hslot
      have hne : s.1.config.applierPoller ≠ slot.poller := fun heq => hapart (heq ▸ hmem)
      have hpollers₀ : (s.1.publisher.setAttempts i slot 0).pollers = s.1.publisher.pollers :=
        Publisher.pollers_setAttempts _ hslot
      have hmoved : Publishing now s ({ s.1 with
          publisher := s.1.publisher.setAttempts i slot 0
          outbox := o
          events := events }, w) :=
        ⟨rfl, rfl, rfl, rfl, MessageLog.messages_advance hadvance,
          MessageLog.position_advance_of_ne hadvance hne, hpollers₀, hsends⟩
      have hsum : (s.1.publisher.pollers.map events.position).sum = s.1.outputsAt + 1 :=
        sum_positions_advance hdistinct hmem hadvance
      have hdistinct₀ : (s.1.publisher.setAttempts i slot 0).pollers.Nodup := hpollers₀ ▸ hdistinct
      have hapart₀ : s.1.config.applierPoller ∉ (s.1.publisher.setAttempts i slot 0).pollers :=
        hpollers₀ ▸ hapart
      obtain ⟨hrest, hout⟩ :=
        publishSlot_publishing i lastApplied replayEnd limit report' hdistinct₀ hapart₀ h
      refine ⟨hmoved.trans hrest, ?_⟩
      have hdone := hfinished report' rfl
      have hout' : t.1.outputsAt + report'.finished =
          (s.1.publisher.pollers.map events.position).sum + r.finished := by
        rw [← hpollers₀]
        exact hout
      rw [hsum] at hout'
      omega

/-- Publishing to the outputs at the slots `l` in turn moves their pollers past as many events as
the report gains events done with. -/
theorem publishSlots_publishing (lastApplied : UInt64) (replayEnd limit : Nat) :
    ∀ (l : List Nat) (report : PublishReport) {s t : Engine W × W} {r : PublishReport},
      s.1.publisher.pollers.Nodup → s.1.config.applierPoller ∉ s.1.publisher.pollers →
      exec (l.foldlM (fun report i => publishSlot i lastApplied replayEnd limit report) report)
        now s = (.ok r, t) →
      Publishing now s t ∧ t.1.outputsAt + report.finished = s.1.outputsAt + r.finished
  | [], report, s, t, r, _, _, h => by
    simp only [List.foldlM_nil, exec_pure, Prod.mk.injEq, Except.ok.injEq] at h
    obtain ⟨rfl, rfl⟩ := h
    exact ⟨.refl s, rfl⟩
  | k :: l, report, s, t, r, hdistinct, hapart, h => by
    rw [List.foldlM_cons, exec_bind] at h
    cases hfirst : exec (publishSlot k lastApplied replayEnd limit report) now s with
    | mk res s₁ =>
    rw [hfirst] at h
    cases res with
    | error e => cases h
    | ok report₁ =>
    dsimp only at h
    obtain ⟨hpub, hout⟩ := publishSlot_publishing k lastApplied replayEnd limit report hdistinct
      hapart hfirst
    obtain ⟨hpub', hout'⟩ := publishSlots_publishing lastApplied replayEnd limit l report₁
      (hpub.pollers ▸ hdistinct) (hpub.pollers ▸ hpub.config ▸ hapart) h
    exact ⟨hpub.trans hpub', by omega⟩

theorem FailsOnly.foldlM {P : EngineError → Prop} {α β : Type} {f : β → α → EngineM W β}
    (hf : ∀ b a, FailsOnly P (f b a)) : ∀ (l : List α) (b : β), FailsOnly P (l.foldlM f b)
  | [], b => FailsOnly.of_ok fun _ _ => ⟨b, rfl⟩
  | a :: l, b => FailsOnly.bind (hf b a) fun b' => FailsOnly.foldlM hf l b'

/-- An offer never fails. -/
theorem failsFatally_offer : FailsFatally (offer i slot m ev replayEnd report : EngineM W _) := by
  refine FailsOnly.of_ok fun now s => ?_
  unfold offer
  simp only [exec_bind, exec_engine, setSlot, exec_modifyEngine, exec_sendContext, exec_world,
    exec_modify]
  generalize (OutputContext.mk _ _ _ _) = ctx
  generalize slot.output.publish ev ctx s.2 s.1.outbox = a
  obtain ⟨answer, w, o⟩ := a
  rcases report.answer (slot.attempts + 1) answer with ⟨r', _ | f⟩
  · exact ⟨_, rfl⟩
  · dsimp only
    split
    · exact ⟨_, rfl⟩
    · exact ⟨_, rfl⟩

/-- Publishing to an output fails only on a record that does not read or a poller that cannot
move: fatally. -/
theorem failsFatally_publishSlot (i : Nat) (lastApplied : UInt64) (replayEnd : Nat) :
    ∀ limit report, FailsFatally (publishSlot i lastApplied replayEnd limit report :
      EngineM W PublishReport)
  | 0, report => FailsOnly.of_ok fun _ _ => ⟨report, rfl⟩
  | limit + 1, report => by
    rw [publishSlot]
    refine FailsOnly.bind (FailsOnly.of_ok fun _ _ => ⟨_, rfl⟩) fun e => ?_
    split
    · exact FailsOnly.of_ok fun _ _ => ⟨_, rfl⟩
    split
    · exact FailsOnly.of_ok fun _ _ => ⟨_, rfl⟩
    refine FailsOnly.bind (FailsOnly.lift (P := fun e => e.isFatal = true) (fun _ => rfl) _)
      fun ev => ?_
    split
    · exact FailsOnly.of_ok fun _ _ => ⟨_, rfl⟩
    refine FailsOnly.bind failsFatally_offer fun r => ?_
    split
    · exact FailsOnly.of_ok fun _ _ => ⟨_, rfl⟩
    exact FailsOnly.bind (FailsOnly.of_ok fun _ _ => ⟨_, rfl⟩) fun _ =>
      FailsOnly.bind (FailsOnly.of_ok fun _ _ => ⟨_, rfl⟩) fun _ =>
      FailsOnly.bind (FailsOnly.lift (P := fun e => e.isFatal = true) (fun _ => rfl) _) fun _ =>
      FailsOnly.bind (FailsOnly.of_ok fun _ _ => ⟨_, rfl⟩) fun _ =>
      failsFatally_publishSlot i lastApplied replayEnd limit _

end Offers

/-- A publishing call fails only fatally; one that goes through counts, at its end, as done with
exactly the events the outputs' pollers moved past. -/
theorem keepsTally_publish : KeepsTally (publish : EngineM W Nat) :=
  ⟨delivered_publish, fun now s hs hfatal hbound => by
    have hsound := (delivered_publish now s).sound_of hs.sound
    cases hp : exec publish now s with
    | mk res t =>
    rw [hp] at hfatal hsound
    dsimp only at hfatal hsound ⊢
    unfold publish at hp
    rw [exec_bind, exec_ensureStarted, if_pos (show s.1.status.started = true from hs.started)] at hp
    dsimp only at hp
    rw [exec_engine_bind] at hp
    split at hp
    · -- no outputs: nothing to publish
      simp only [exec_pure, Prod.mk.injEq] at hp
      obtain ⟨-, rfl⟩ := hp
      exact hs
    rw [exec_bind] at hp
    split at hp
    · rename_i report hfold
      simp only [exec_bind, exec_count, exec_pure, Prod.mk.injEq] at hp
      obtain ⟨-, rfl⟩ := hp
      obtain ⟨hpub, hout⟩ := publishSlots_publishing _ _ _ _ {} hs.sound.distinct hs.sound.apart
        (Prod.ext hfold rfl)
      exact hs.published hpub (hsound.congr rfl rfl) report
        (by simpa [PublishReport.finished] using hout)
    · -- publishing failed on a record or a poller: fatally
      rename_i e hfold
      simp only [Prod.mk.injEq] at hp
      obtain ⟨rfl, rfl⟩ := hp
      have hfatal' := FailsOnly.foldlM (fun b a => failsFatally_publishSlot a _ _ _ b) _ _ now s e hfold
      rw [hfatal e rfl] at hfatal'
      cases hfatal'⟩

namespace KeepsTally

/-- Counting cycles or failed polls keeps the tally. -/
theorem count_other (f : EngineCounters → EngineCounters)
    (hf : ∀ c, f c = { c with cycles := (f c).cycles, inputFailures := (f c).inputFailures }) :
    KeepsTally (Engine.count f : EngineM W Unit) :=
  ⟨.count f fun _ => .of_kept (.of_events rfl rfl rfl), fun _ _ hs _ _ => hs.count_other hf⟩

end KeepsTally

section Cycles

theorem keepsTally_runSteps : KeepsTally (runSteps : EngineM W Nat) := by
  unfold runSteps
  exact .bind (keepsTally_pollInputs false) fun _ => .bind keepsTally_dispatch fun _ =>
    .bind .engine fun _ => .bind (keepsTally_apply _) fun _ => .bind keepsTally_publish fun _ =>
    .bind (keepsTally_pollInputs true) fun _ => .pure _

theorem keepsTally_runCycle : KeepsTally (runCycle : EngineM W Nat) := by
  unfold runCycle
  exact .bind .ensureStarted fun _ =>
    .tryCatch_count (.bind keepsTally_runSteps fun _ =>
      .bind (.count_other _ fun _ => rfl) fun _ => .pure _) _ fun _ => rfl

theorem keepsTally_runCycles : ∀ budget total, KeepsTally (runCycles budget total : EngineM W Nat)
  | 0, total => .pure total
  | budget + 1, total => by
    rw [runCycles]
    refine .bind keepsTally_runCycle fun work => ?_
    split
    · exact .pure _
    · exact keepsTally_runCycles budget _

/-- Every call of the host keeps the tally when it ends without a fatal error. -/
theorem Call.keepsTally {α : Type} {m : EngineM W α} (h : Call m) : KeepsTally m := by
  cases h with
  | send source payloadType payload => exact keepsTally_send source payloadType payload
  | nextSequence source => exact keepsTally_nextSequence source
  | runCycle => exact keepsTally_runCycle
  | runUntilIdle => exact .bind .engine fun _ => keepsTally_runCycles _ 0
  | dispatch => exact keepsTally_dispatch
  | apply limit => exact keepsTally_apply limit
  | publish => exact keepsTally_publish

end Cycles

/-- A built engine has counted nothing. -/
theorem Blueprint.build_counters {b : Blueprint W} {e : Engine W} (h : b.build = .ok e) :
    e.counters = {} := by
  unfold Blueprint.build at h
  cases hp : Publisher.build b.outputs b.installed.outputs b.config.outputRetryBudget
      b.config.loopbackSource with
  | error err => simp only [hp] at h; cases h
  | ok p =>
    simp only [hp] at h
    cases h
    rfl

section Start

variable {now : Timestamp} {s : Engine W × W}

/-- The start of a fresh engine over two empty logs only sets the applier's poller and marks
the engine started. -/
theorem exec_start_of_empty (hfresh : s.1.status.started = false)
    (hevents : s.1.events.messages = #[]) (hcommands : s.1.outbox.commands.messages = #[])
    (hlast : s.1.base.lastEvent = 0) :
    ∃ st, exec start now s = (.ok st, ({ s.1 with
      events := s.1.events.setPosition s.1.config.applierPoller 0
      status := st }, s.2)) ∧ st.started = true := by
  have hlen : s.1.events.length = 0 := by simp [MessageLog.length, hevents]
  have hmove : s.1.events.moveTo s.1.config.applierPoller s.1.base.lastEvent.toNat =
      .ok (s.1.events.setPosition s.1.config.applierPoller 0) := by
    simp [MessageLog.moveTo, hlen, hlast]
  unfold start
  rw [exec_engine_bind, if_neg (by simp [hfresh]), exec_bind, hmove, exec_lift_ok]
  dsimp only
  rw [exec_bind, exec_modifyEngine]
  dsimp only
  rw [exec_bind, replayAll_eq_applyUpTo, exec_applyUpTo_of_caughtUp (by
    show (s.1.events.setPosition _ _).position _ = (s.1.events.setPosition _ _).length
    rw [MessageLog.position_setPosition, MessageLog.length_setPosition, hlen])]
  dsimp only
  rw [exec_bind, exec_modifyEngine]
  dsimp only
  unfold scanCommands
  simp [exec_bind, MessageLog.length, hcommands]
  exact ⟨_, by rw [exec_map, exec_engine], rfl⟩

end Start

section Sessions

variable {s₀ s : Engine W × W}

/-- The states a started engine reaches when the host makes calls, none of them ending in a
fatal error, and nothing else writes to its logs. -/
inductive Session (s₀ : Engine W × W) : Engine W × W → Prop where
  | started : Session s₀ s₀
  | start {s : Engine W × W} (now : Timestamp) : Session s₀ s →
      (∀ e, (exec start now s).1 = .error e → e.isFatal = false) → Session s₀ (exec start now s).2
  | call {α : Type} {m : EngineM W α} {s : Engine W × W} (hm : Call m) (now : Timestamp) :
      Session s₀ s → (∀ e, (exec m now s).1 = .error e → e.isFatal = false) →
      Session s₀ (exec m now s).2

/-- One call of a session keeps the tally of every state short of the bound. -/
theorem KeepsTally.step {α : Type} {m : EngineM W α} (hm : KeepsTally m) (now : Timestamp)
    (hs : Sound s) (ih : s.1.events.length ≤ unbounded → Tallied s)
    (hnf : ∀ e, (exec m now s).1 = .error e → e.isFatal = false) :
    Sound (exec m now s).2 ∧ ((exec m now s).2.1.events.length ≤ unbounded →
      Tallied (exec m now s).2) :=
  ⟨(hm.delivered now s).sound_of hs, fun hbound =>
    hm.tallied now s (ih (((hm.delivered now s).length_le hs).trans hbound)) hnf hbound⟩

/-- Every state of a session from a tallied engine is sound, and tallied while the event log
stays within the bound. -/
theorem Session.tallied (h : Session s₀ s) (h₀ : Tallied s₀) :
    Sound s ∧ (s.1.events.length ≤ unbounded → Tallied s) := by
  induction h with
  | started => exact ⟨h₀.sound, fun _ => h₀⟩
  | start now _ hnf ih => exact keepsTally_start.step now ih.1 ih.2 hnf
  | call hm now _ hnf ih => exact hm.keepsTally.step now ih.1 ih.2 hnf

end Sessions

end Engine

end EventSourcing
