import Mathlib
import EventSourcing.Proofs.Offers

/-!
# Failed steps change nothing

The applier's and the dispatcher's steps fail cleanly, so that the engine can report the
error and the same step can be tried again.

* The applier's step at a record either takes its event, or fails with a corrupt record, an
  ordering violation of the commands in flight or a replay violation, the tracker's violation
  first when both apply. A failed step leaves the engine and the application's state exactly
  as they were, and fails the same way at every later call (`applier_step_is_atomic`). This
  holds because the tracker is only read before the application is offered the event, the
  application refuses an event before it changes anything, and nothing after that can fail
  once the check went through.
* A dispatch whose batch the event log refuses fails with the log's error and leaves the
  dispatcher's poller, the event log, the base state and the tracker as they were. Once the
  log takes the batch, the same command is dispatched again, not as a duplicate, and, for
  processors that do not read the application's state, the batch it appends is the one a
  dispatch without the fault appends, numbered from the same place
  (`refused_batch_is_retried`).
-/

namespace EventSourcing

namespace InFlight

/-- A check that goes through acknowledges the oldest command exactly when the event is
terminal and its source has a command in flight. -/
theorem check_eq_ok {t : InFlight} {source : SourceId} {sequence : UInt64} {kind : EventKind}
    {b : Bool} (h : t.check source sequence kind = .ok b) :
    b = (kind.isTerminal && t.holds source) := by
  unfold check at h
  split at h
  · rename_i hskip
    cases h
    cases hterm : kind.isTerminal <;> cases hholds : t.holds source <;> simp_all
  · rename_i hcheck
    simp only [Bool.or_eq_true, Bool.not_eq_eq_eq_not, Bool.not_true, not_or,
      Bool.not_eq_false] at hcheck
    split at h
    · -- a source with a command in flight leaves the queue non-empty
      rename_i hnil
      simp [holds, hnil] at hcheck
    · split at h
      · cases h
      · split at h
        · cases h
        · cases h
          simp [hcheck.1, hcheck.2]

end InFlight

namespace MessageLog

variable {log : MessageLog} {ms : List Bytes}

/-- A log that appends batches whole refuses a batch without changing. -/
theorem appendBatch_snd_of_error (hwhole : log.batching = .whole) {e : StoreError}
    (h : (log.appendBatch ms).1 = .error e) : (log.appendBatch ms).2 = log := by
  unfold appendBatch at h ⊢
  rw [hwhole] at h ⊢
  dsimp only at h ⊢
  by_cases hfail : log.failing = true
  · simp [hfail]
  · cases hfits : log.fits ms.length with
    | error e' => simp [hfail]
    | ok u => simp [hfail, hfits] at h

/-- A log that appends batches whole, with its fault switch off and room for the batch, takes
it at its end. -/
theorem appendBatch_of_fits (hwhole : log.batching = .whole) (hok : log.failing = false)
    (hfits : log.fits ms.length = .ok ()) :
    log.appendBatch ms = (.ok log.length, { log with messages := log.messages ++ ms.toArray }) := by
  simp [appendBatch, hwhole, hok, hfits]

end MessageLog

namespace Router

/-- Sealing a transaction at another time changes only the time its events carry. -/
theorem finish_at (r : Router) (first : UInt64) (time time' : Timestamp) :
    r.finish first time' =
      ((r.finish first time).1, (r.finish first time).2.map fun e => { e with time := time' }) := by
  unfold finish
  split
  · rfl
  split
  · rfl
  · simp [List.map_map, Function.comp_def]

end Router

namespace Processor

variable {W : Type}

/-- A processor whose outcome and transaction are decided by the command, the base state and
the transaction it is handed, whatever the application's state. -/
def Deterministic (p : Processor W) : Prop :=
  ∀ c b w w' r, (p.process c b w r).1 = (p.process c b w' r).1 ∧
    (p.process c b w r).2.2 = (p.process c b w' r).2.2

/-- A chain of such processors ends and leaves the transaction alike from every application
state. -/
theorem runAll_deterministic (c : Command) (b : BaseState) :
    ∀ (ps : List (Processor W)), (∀ p ∈ ps, p.Deterministic) → ∀ (w w' : W) (r : Router),
      (runAll c b ps w r).1 = (runAll c b ps w' r).1 ∧
        (runAll c b ps w r).2.2 = (runAll c b ps w' r).2.2
  | [], _, _, _, _ => ⟨rfl, rfl⟩
  | p :: rest, hps, w, w', r => by
    obtain ⟨hresult, hrouter⟩ := hps p List.mem_cons_self c b w w' r
    unfold runAll
    split
    · exact ⟨rfl, rfl⟩
    · -- the processor answers alike, so both runs take the same branch
      rcases hp : p.process c b w r with ⟨result, w₁, r₁⟩
      rcases hp' : p.process c b w' r with ⟨result', w₁', r₁'⟩
      rw [hp, hp'] at hresult hrouter
      dsimp only at hresult hrouter
      subst hresult hrouter
      rcases result with ⟨f | msg⟩ | ⟨⟨⟩⟩
      · exact ⟨rfl, rfl⟩
      · exact ⟨rfl, rfl⟩
      · exact runAll_deterministic c b rest (fun q hq => hps q (List.mem_cons_of_mem p hq)) w₁ w₁' r₁

end Processor

namespace Application

variable {W : Type}

/-- An event is in order exactly when it is the one after the last applied. -/
theorem order_eq_ok {last sequence : UInt64} :
    order last sequence = .ok () ↔ last < sequence ∧ sequence = last + 1 := by
  unfold order
  by_cases hle : sequence ≤ last
  · simp [hle, UInt64.not_lt.2 hle]
  · by_cases hne : sequence = last + 1
    · simp [hne]
    · simp [hle, hne]

/-- An event out of order is refused with the ordering error, whatever the state. -/
theorem apply_of_order_error {a : Application W} {e : Event} {err : ReplayError} (w : W)
    (h : order a.base.lastEvent e.sequence = .error err) : a.apply e w = .error err := by
  simp [apply, h]

end Application

namespace Engine

variable {W : Type} {now : Timestamp} {s : Engine W × W}

section Applier

variable {m : Stored} {ev : Event}

/-- An event that the tracker refuses is refused before anything changes. -/
theorem exec_applyNext_of_check_error {err : InFlightError}
    (hpeek : s.1.events.peek? s.1.config.applierPoller = some m)
    (hdecode : Event.decode m.bytes = .ok ev)
    (hcheck : s.1.outbox.inFlight.check ev.source ev.sourceSequence ev.kind = .error err) :
    exec applyNext now s = (.error (.inFlight err), s) := by
  unfold applyNext
  simp [exec_bind, hpeek, hdecode, hcheck]

/-- An event that the tracker lets through but that is out of order for the application is
refused before anything changes. -/
theorem exec_applyNext_of_order_error {b : Bool} {err : ReplayError}
    (hpeek : s.1.events.peek? s.1.config.applierPoller = some m)
    (hdecode : Event.decode m.bytes = .ok ev)
    (hcheck : s.1.outbox.inFlight.check ev.source ev.sourceSequence ev.kind = .ok b)
    (horder : Application.order s.1.base.lastEvent ev.sequence = .error err) :
    exec applyNext now s = (.error (.replay err), s) := by
  have happly := Application.apply_of_order_error s.2 horder
  unfold applyNext
  simp [exec_bind, hpeek, hdecode, hcheck, happly]

/-- An event that the tracker and the application both accept is taken: the base state
records it, the appliers see it when the mode admits it, the tracker lets go of the command
the event acknowledges, the event is noted as seen, the poller moves past it and it is
counted. -/
theorem exec_applyNext_of_accepted {b : Bool}
    (hpeek : s.1.events.peek? s.1.config.applierPoller = some m)
    (hdecode : Event.decode m.bytes = .ok ev)
    (hcheck : s.1.outbox.inFlight.check ev.source ev.sourceSequence ev.kind = .ok b)
    (horder : Application.order s.1.base.lastEvent ev.sequence = .ok ()) :
    exec applyNext now s = (.ok true,
      ({ s.1 with
          application := { s.1.application with base := s.1.base.record ev }
          outbox := { s.1.outbox with
            inFlight := if b then { s.1.outbox.inFlight with
              entries := s.1.outbox.inFlight.entries.tail } else s.1.outbox.inFlight
            transient := s.1.outbox.transient.noteEvent ev.sequence ev.time }
          events := s.1.events.setPosition s.1.config.applierPoller (m.index + 1)
          counters := { s.1.counters with eventsApplied := s.1.counters.eventsApplied + 1 } },
        if s.1.application.mode.admits ev.kind then
          s.1.application.appliers.members.foldl (fun w ap => ap.apply ev w) s.2
        else s.2)) := by
  obtain ⟨hlt, heq⟩ := Application.order_eq_ok.1 horder
  have happly := Application.apply_of_next s.2 hlt heq
  have hindex : m.index = s.1.events.position s.1.config.applierPoller :=
    (MessageLog.peek?_eq_some.1 hpeek).1
  rw [exec_applyNext_of_ok hpeek hdecode happly (InFlight.acknowledge_of_check hcheck)
    (MessageLog.advance_of_peek? hpeek), hindex]
  rfl

/-- The applier's step at a record is atomic. Either it takes the record's event and changes
exactly this: the base state records the event, the appliers see it when the replay mode
admits it, the oldest command in flight leaves when the event is terminal and its source has a
command in flight, the event is noted as seen, the applier's poller moves one on and the event
is counted. Or it fails with a corrupt record, an ordering violation of the tracker or a
replay violation, leaves the engine and the application's state as they were, and fails the
same way at every call, whatever the clock says. The tracker's violation is reported when the
event violates both orders. -/
theorem applier_step_is_atomic (hpeek : s.1.events.peek? s.1.config.applierPoller = some m) :
    ((∃ ev, Event.decode m.bytes = .ok ev ∧ ∀ now, exec applyNext now s = (.ok true,
        ({ s.1 with
            application := { s.1.application with base := s.1.base.record ev }
            outbox := { s.1.outbox with
              inFlight :=
                if ev.kind.isTerminal && s.1.outbox.inFlight.holds ev.source then
                  { s.1.outbox.inFlight with entries := s.1.outbox.inFlight.entries.tail }
                else s.1.outbox.inFlight
              transient := s.1.outbox.transient.noteEvent ev.sequence ev.time }
            events := s.1.events.setPosition s.1.config.applierPoller (m.index + 1)
            counters := { s.1.counters with eventsApplied := s.1.counters.eventsApplied + 1 } },
          if s.1.application.mode.admits ev.kind then
            s.1.application.appliers.members.foldl (fun w ap => ap.apply ev w) s.2
          else s.2))) ∨
      (∃ err, ((∃ r, Event.decode m.bytes = .error r ∧ err = .record r) ∨
          (∃ ev e, Event.decode m.bytes = .ok ev ∧
            s.1.outbox.inFlight.check ev.source ev.sourceSequence ev.kind = .error e ∧
            err = .inFlight e) ∨
          (∃ ev e, Event.decode m.bytes = .ok ev ∧
            Application.order s.1.base.lastEvent ev.sequence = .error e ∧ err = .replay e)) ∧
        ∀ now, exec applyNext now s = (.error err, s))) ∧
    ∀ ev e e', Event.decode m.bytes = .ok ev →
      s.1.outbox.inFlight.check ev.source ev.sourceSequence ev.kind = .error e →
      Application.order s.1.base.lastEvent ev.sequence = .error e' →
      ∀ now, (exec applyNext now s).1 = .error (.inFlight e) := by
  refine ⟨?_, fun ev e _ hdecode hcheck _ now => by
    rw [exec_applyNext_of_check_error hpeek hdecode hcheck]⟩
  -- the pieces that can fail, in the order the step tries them
  cases hdecode : Event.decode m.bytes with
  | error r => exact .inr ⟨_, .inl ⟨r, rfl, rfl⟩, fun _ => exec_applyNext_undecodable hpeek hdecode⟩
  | ok ev =>
  cases hcheck : s.1.outbox.inFlight.check ev.source ev.sourceSequence ev.kind with
  | error e =>
    exact .inr ⟨_, .inr (.inl ⟨ev, e, rfl, hcheck, rfl⟩),
      fun _ => exec_applyNext_of_check_error hpeek hdecode hcheck⟩
  | ok b =>
  cases horder : Application.order s.1.base.lastEvent ev.sequence with
  | error e =>
    exact .inr ⟨_, .inr (.inr ⟨ev, e, rfl, horder, rfl⟩),
      fun _ => exec_applyNext_of_order_error hpeek hdecode hcheck horder⟩
  | ok u =>
    refine .inl ⟨ev, rfl, fun _ => ?_⟩
    rw [exec_applyNext_of_accepted hpeek hdecode hcheck horder, InFlight.check_eq_ok hcheck]

/-- The applier's step is atomic at a log whose only record is an auto-commit event. -/
theorem applier_step_is_atomic_at_auto_commit :
    ∃ (s : Engine Unit × Unit) (m : Stored),
      s.1.events.peek? s.1.config.applierPoller = some m ∧
      ((∃ ev, Event.decode m.bytes = .ok ev ∧ ∀ now, exec applyNext now s = (.ok true,
          ({ s.1 with
              application := { s.1.application with base := s.1.base.record ev }
              outbox := { s.1.outbox with
                inFlight :=
                  if ev.kind.isTerminal && s.1.outbox.inFlight.holds ev.source then
                    { s.1.outbox.inFlight with entries := s.1.outbox.inFlight.entries.tail }
                  else s.1.outbox.inFlight
                transient := s.1.outbox.transient.noteEvent ev.sequence ev.time }
              events := s.1.events.setPosition s.1.config.applierPoller (m.index + 1)
              counters := { s.1.counters with eventsApplied := s.1.counters.eventsApplied + 1 } },
            if s.1.application.mode.admits ev.kind then
              s.1.application.appliers.members.foldl (fun w ap => ap.apply ev w) s.2
            else s.2))) ∨
        (∃ err, ((∃ r, Event.decode m.bytes = .error r ∧ err = .record r) ∨
            (∃ ev e, Event.decode m.bytes = .ok ev ∧
              s.1.outbox.inFlight.check ev.source ev.sourceSequence ev.kind = .error e ∧
              err = .inFlight e) ∨
            (∃ ev e, Event.decode m.bytes = .ok ev ∧
              Application.order s.1.base.lastEvent ev.sequence = .error e ∧ err = .replay e)) ∧
          ∀ now, exec applyNext now s = (.error err, s))) ∧
      ∀ ev e e', Event.decode m.bytes = .ok ev →
        s.1.outbox.inFlight.check ev.source ev.sourceSequence ev.kind = .error e →
        Application.order s.1.base.lastEvent ev.sequence = .error e' →
        ∀ now, (exec applyNext now s).1 = .error (.inFlight e) := by
  let ev : Event :=
    { source := 1, sourceSequence := 1, sequence := 1, index := 0, kind := .autoCommit,
      time := 0, payloadType := 0, payload := [] }
  obtain ⟨e, hb⟩ : ∃ e, ({ commands := {}, events := { messages := #[ev.encode] } } :
      Blueprint Unit).build = .ok e := ⟨_, rfl⟩
  obtain ⟨hconfig, hevents, -⟩ := Blueprint.build_eq_ok hb
  have hpeek : e.events.peek? e.config.applierPoller = some ⟨0, ev.encode⟩ := by
    rw [hevents, hconfig]
    rfl
  exact ⟨(e, ()), _, hpeek, applier_step_is_atomic hpeek⟩

end Applier

section Dispatcher

variable {m : Stored} {c : Command}

/-- Processing a command runs the chain of processors on a fresh transaction, reports a halt,
seals the transaction at the next event sequence and hands its batch to the event log. It fails
exactly when the log refuses the batch; otherwise it notes the batch's last event as seen. Of
the engine, nothing else changes. -/
theorem exec_process (c : Command) : ∃ w : W,
    let chain := Processor.runAll c s.1.base s.1.processors.members s.2 (Router.begin c)
    let sealed := (chain.2.2.close chain.1).finish (s.1.events.length + 1).toUInt64 now
    exec (process c) now s =
      match s.1.events.appendBatch (sealed.2.map Event.encode) with
      | (.error e, events) => (.error (.store e), ({ s.1 with events := events }, w))
      | (.ok _, events) => (.ok sealed.1, ({ s.1 with
          events := events
          outbox := { s.1.outbox with
            transient := s.1.outbox.transient.noteEvent
              ((s.1.events.length + 1).toUInt64 + sealed.1.eventCount.toUInt64 - 1) now } },
          w)) := by
  unfold process
  rw [exec_engine_bind, exec_bind, exec_world]
  dsimp only
  generalize Processor.runAll c s.1.base s.1.processors.members s.2 (Router.begin c) = r
  obtain ⟨result, w, router⟩ := r
  dsimp only
  rw [exec_bind, exec_modifyWorld, exec_bind]
  -- reporting a halt changes only the application's state
  obtain ⟨f, hf⟩ := exec_reportHalt now (s.1, w) s.1.handlers c result
  rw [hf]
  dsimp only
  rw [exec_bind, exec_read]
  refine ⟨f w, ?_⟩
  dsimp only
  generalize (router.close result).finish (s.1.events.length + 1).toUInt64 now = sealed
  rcases s.1.events.appendBatch (sealed.2.map Event.encode) with ⟨_ | i, events⟩ <;>
    simp [exec_bind, exec_map]

/-- The dispatcher's step at a command above its source's watermark notes the command as seen
and processes it; when processing goes through, the poller moves past the record. -/
theorem exec_dispatchNext_of_new
    (hpeek : s.1.outbox.commands.peek? s.1.config.dispatcherPoller = some m)
    (hdecode : Command.decode m.bytes = .ok c)
    (hnew : s.1.base.lastCommand c.source < c.sequence) :
    exec dispatchNext now s =
      match exec (process c) now ({ s.1 with outbox := { s.1.outbox with
          transient := s.1.outbox.transient.noteCommand c.source c.sequence } }, s.2) with
      | (.error e, t) => (.error e, t)
      | (.ok o, t) =>
        match t.1.outbox.commands.advance t.1.config.dispatcherPoller with
        | .error e => (.error (.store e), t)
        | .ok commands =>
          (.ok (.processed o), ({ t.1 with outbox := { t.1.outbox with commands := commands } }, t.2)) := by
  unfold dispatchNext
  rw [exec_engine_bind]
  simp only [hpeek]
  rw [exec_bind, hdecode, exec_lift_ok]
  dsimp only
  rw [exec_bind, exec_modifyEngine]
  dsimp only
  rw [if_neg (UInt64.not_le.2 hnew), exec_bind, exec_map]
  rcases exec (process c) now _ with ⟨_ | o, t⟩
  · rfl
  · dsimp only
    rw [exec_bind, exec_engine]
    dsimp only
    rw [exec_bind]
    rcases t.1.outbox.commands.advance t.1.config.dispatcherPoller with _ | commands <;> rfl

/-- A dispatch whose batch the event log refuses fails with the log's error, after noting the
command as seen and leaving the log as the refusal left it. -/
theorem dispatchNext_of_refused {e : StoreError} {events : MessageLog}
    (hpeek : s.1.outbox.commands.peek? s.1.config.dispatcherPoller = some m)
    (hdecode : Command.decode m.bytes = .ok c)
    (hnew : s.1.base.lastCommand c.source < c.sequence)
    (hrefused : s.1.events.appendBatch ((dispatchOf s m.index c now).batch.map Event.encode) =
      (.error e, events)) :
    ∃ w, exec dispatchNext now s = (.error (.store e), ({ s.1 with
      events := events
      outbox := { s.1.outbox with
        transient := s.1.outbox.transient.noteCommand c.source c.sequence } }, w)) := by
  rw [batch_dispatchOf, if_neg (UInt64.not_le.2 hnew)] at hrefused
  obtain ⟨w, hw⟩ := @exec_process W now ({ s.1 with outbox := { s.1.outbox with
    transient := s.1.outbox.transient.noteCommand c.source c.sequence } }, s.2) c
  refine ⟨w, ?_⟩
  rw [exec_dispatchNext_of_new hpeek hdecode hnew, hw]
  simp only [Engine.base] at hrefused ⊢
  rw [hrefused]

/-- A dispatch whose batch the event log takes processes the command. -/
theorem dispatchNext_of_accepted {i : Nat} {events : MessageLog}
    (hpeek : s.1.outbox.commands.peek? s.1.config.dispatcherPoller = some m)
    (hdecode : Command.decode m.bytes = .ok c)
    (hnew : s.1.base.lastCommand c.source < c.sequence)
    (haccepted : s.1.events.appendBatch ((dispatchOf s m.index c now).batch.map Event.encode) =
      (.ok i, events)) :
    ∃ o s', exec dispatchNext now s = (.ok (.processed o), s') := by
  rw [batch_dispatchOf, if_neg (UInt64.not_le.2 hnew)] at haccepted
  obtain ⟨w, hw⟩ := @exec_process W now ({ s.1 with outbox := { s.1.outbox with
    transient := s.1.outbox.transient.noteCommand c.source c.sequence } }, s.2) c
  rw [exec_dispatchNext_of_new hpeek hdecode hnew, hw]
  simp only [Engine.base] at haccepted ⊢
  rw [haccepted]
  -- processing left the command log, so the poller still points at the record
  simp only [MessageLog.advance_of_peek? hpeek]
  exact ⟨_, _, rfl⟩

/-- A dispatch at another time appends the same batch, but for the time its events carry. -/
theorem batch_dispatchOf_at {i : Nat} (now' : Timestamp) :
    (dispatchOf s i c now').batch = (dispatchOf s i c now).batch.map fun e => { e with time := now' } := by
  rw [batch_dispatchOf, batch_dispatchOf]
  split
  · rfl
  · exact congrArg Prod.snd (Router.finish_at _ _ now now')

/-- Deterministic processors append the same batch from every application state, given the
same base state and the same length of the event log. -/
theorem batch_dispatchOf_congr {t : Engine W × W} {i : Nat} (hbase : t.1.base = s.1.base)
    (hprocessors : t.1.processors = s.1.processors)
    (hlength : t.1.events.length = s.1.events.length)
    (hdet : ∀ p ∈ s.1.processors.members, p.Deterministic) :
    (dispatchOf t i c now).batch = (dispatchOf s i c now).batch := by
  obtain ⟨hresult, hrouter⟩ := Processor.runAll_deterministic c s.1.base _ hdet t.2 s.2 (Router.begin c)
  rw [batch_dispatchOf, batch_dispatchOf, hbase, hprocessors, hlength]
  dsimp only
  rw [hresult, hrouter]

/-- A dispatch whose batch the event log refuses fails cleanly, and is retried as if the fault
had never been.

At a command record that does not read, the dispatcher's step fails with the record's error
and changes nothing. At a command above its source's watermark, when a log that appends batches
whole refuses the batch, the step fails with the log's error, which is fatal to the engine, and
leaves the dispatcher's poller, the event log, the base state and the tracker as they were.
Once the fault is gone (the log's switch is off and it has no capacity limit), the next step,
at any clock reading, processes the same command again, not as a duplicate, and moves past it.
When the processors do not read the application's state, it appends the batch that a dispatch
without the fault appends at that time: the refused batch with the new time, numbered on from
the unchanged length of the log. -/
theorem refused_batch_is_retried {m : Stored}
    (hpeek : s.1.outbox.commands.peek? s.1.config.dispatcherPoller = some m) :
    (∀ r, Command.decode m.bytes = .error r → (EngineError.record r).isFatal = true ∧
      ∀ now, exec dispatchNext now s = (.error (.record r), s)) ∧
    ∀ c now err, Command.decode m.bytes = .ok c → s.1.base.lastCommand c.source < c.sequence →
      s.1.events.batching = .whole →
      (s.1.events.appendBatch ((dispatchOf s m.index c now).batch.map Event.encode)).1 =
        .error err →
      ∃ s', exec dispatchNext now s = (.error (.store err), s') ∧
        (EngineError.store err).isFatal = true ∧
        s'.1.dispatcherAt = s.1.dispatcherAt ∧ s'.1.events = s.1.events ∧ s'.1.base = s.1.base ∧
        s'.1.outbox.inFlight = s.1.outbox.inFlight ∧
        ∀ (L : MessageLog) (now' : Timestamp), L.messages = s.1.events.messages →
          L.pollers = s.1.events.pollers → L.batching = .whole → L.failing = false →
          L.capacity = none →
          ∃ o s'', exec dispatchNext now' ({ s'.1 with events := L }, s'.2) =
              (.ok (.processed o), s'') ∧
            s''.1.dispatcherAt = s.1.dispatcherAt + 1 ∧
            ((∀ p ∈ s.1.processors.members, p.Deterministic) →
              s''.1.events.messages = s.1.events.messages ++
                ((dispatchOf s m.index c now').batch.map Event.encode).toArray ∧
              (dispatchOf s m.index c now').batch =
                (dispatchOf s m.index c now).batch.map (fun e => { e with time := now' }) ∧
              ∀ (j : Nat) (e : Event), (dispatchOf s m.index c now').batch[j]? = some e →
                e.sequence = (s.1.events.length + 1).toUInt64 + j.toUInt64) := by
  refine ⟨fun r hdecode => ⟨rfl, fun now => by simp [dispatchNext, exec_bind, hpeek, hdecode]⟩, ?_⟩
  intro c now err hdecode hnew hwhole hrefused
  -- a log that appends batches whole is left as it was by the refusal
  have hkept := MessageLog.appendBatch_snd_of_error hwhole hrefused
  obtain ⟨w, hexec⟩ := dispatchNext_of_refused hpeek hdecode hnew
    (Prod.ext hrefused hkept : _ = (Except.error err, s.1.events))
  refine ⟨_, hexec, rfl, rfl, rfl, rfl, rfl, fun L now' hmessages hpollers hwholeL hok hcap => ?_⟩
  -- the retry starts where the failed step left off, on the healed log
  let u : Engine W × W := ({ s.1 with
    events := L
    outbox := { s.1.outbox with
      transient := s.1.outbox.transient.noteCommand c.source c.sequence } }, w)
  have hlength : L.length = s.1.events.length := by simp [MessageLog.length, hmessages]
  have haccepted := @MessageLog.appendBatch_of_fits L
    ((dispatchOf u m.index c now').batch.map Event.encode) hwholeL hok
    (by simp [MessageLog.fits, hcap])
  obtain ⟨o, s'', hretry⟩ := dispatchNext_of_accepted (s := u) hpeek hdecode hnew haccepted
  have hdispatched := dispatchNext_eq_ok (s := u) hpeek hdecode hretry
  refine ⟨o, s'', hretry, ?_, fun hdet => ?_⟩
  · simp only [dispatcherAt]
    rw [hdispatched.fixed.config, MessageLog.position_advance hdispatched.commands]
  -- deterministic processors append from the application's state after the failure what they
  -- appended before it
  have hsame : (dispatchOf u m.index c now').batch = (dispatchOf s m.index c now').batch :=
    batch_dispatchOf_congr rfl rfl hlength hdet
  refine ⟨?_, batch_dispatchOf_at now', fun j e hj => ?_⟩
  · rw [hdispatched.events, hsame]
    simp [u, hmessages]
  · exact sequence_batch_dispatchOf hj

/-- A log with no room refuses the first batch, and the dispatch is retried once the limit is
lifted. -/
theorem refused_batch_is_retried_at_full_log :
    ∃ (s : Engine Unit × Unit) (m : Stored) (c : Command) (err : StoreError),
      s.1.outbox.commands.peek? s.1.config.dispatcherPoller = some m ∧
      Command.decode m.bytes = .ok c ∧ s.1.base.lastCommand c.source < c.sequence ∧
      s.1.events.batching = .whole ∧
      (s.1.events.appendBatch ((dispatchOf s m.index c 0).batch.map Event.encode)).1 =
        .error err ∧
      ∃ s', exec dispatchNext 0 s = (.error (.store err), s') ∧
        (EngineError.store err).isFatal = true ∧
        s'.1.dispatcherAt = s.1.dispatcherAt ∧ s'.1.events = s.1.events ∧ s'.1.base = s.1.base ∧
        s'.1.outbox.inFlight = s.1.outbox.inFlight ∧
        ∀ (L : MessageLog) (now' : Timestamp), L.messages = s.1.events.messages →
          L.pollers = s.1.events.pollers → L.batching = .whole → L.failing = false →
          L.capacity = none →
          ∃ o s'', exec dispatchNext now' ({ s'.1 with events := L }, s'.2) =
              (.ok (.processed o), s'') ∧
            s''.1.dispatcherAt = s.1.dispatcherAt + 1 ∧
            ((∀ p ∈ s.1.processors.members, p.Deterministic) →
              s''.1.events.messages = s.1.events.messages ++
                ((dispatchOf s m.index c now').batch.map Event.encode).toArray ∧
              (dispatchOf s m.index c now').batch =
                (dispatchOf s m.index c 0).batch.map (fun e => { e with time := now' }) ∧
              ∀ (j : Nat) (e : Event), (dispatchOf s m.index c now').batch[j]? = some e →
                e.sequence = (s.1.events.length + 1).toUInt64 + j.toUInt64) := by
  let c : Command := { source := 1, sequence := 1, time := 0, payloadType := 1, payload := [] }
  let e : Engine Unit :=
    { config := {}
      events := { capacity := some 0 }
      outbox := { commands := { messages := #[c.encode] }, inFlight := .withCapacity 64 }
      processors := {}
      handlers := {}
      application := ⟨{}, {}, .all⟩
      publisher := ⟨[], 3, 2147483647⟩
      inputs := {}
      extensionInputs := {} }
  have hpeek : e.outbox.commands.peek? e.config.dispatcherPoller = some ⟨0, c.encode⟩ := rfl
  have hdecode : Command.decode c.encode = .ok c := by
    rw [Command.decode_encode]
    rfl
  have hnew : (e, ()).1.base.lastCommand c.source < c.sequence := by decide
  have hrefused : ((e, ()).1.events.appendBatch
      ((dispatchOf (e, ()) 0 c 0).batch.map Event.encode)).1 = .error (.full 0) := rfl
  exact ⟨(e, ()), _, c, _, hpeek, hdecode, hnew, rfl, hrefused,
    (refused_batch_is_retried hpeek).2 c 0 _ hdecode hnew rfl hrefused⟩

end Dispatcher

end Engine

end EventSourcing
