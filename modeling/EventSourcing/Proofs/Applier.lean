import EventSourcing.Proofs.Calls
import EventSourcing.Proofs.CommandLog

/-!
# The applier and the start

What the applier's steps do, exactly. `Replayed s evs s'` says that the applier took the
events `evs`, one after the other, from `s` to `s'`: they are the records from its poller on,
each moved the base state on and reached the appliers as the replay mode admits it, and the
command log, the settings and the rest of the application were left alone. A run of
`applyUpTo` is such a replay, stopping short of its limit only at the end of the log
(`replayed_applyUpTo`); with nothing in flight, it goes through every record that reads as
an event numbered on from the last one applied (`applyUpTo_of_numbered`).

A start that goes through replays the event log from the base state's last event to its end,
then scans the command log (`starts_of_exec`); a fresh engine over logs that read starts
(`start_ok`).
-/

namespace EventSourcing

namespace Application

variable {W : Type}

/-- The application's state after the events reach the appliers, each as the mode admits
it. -/
def deliverAll (a : Application W) (evs : List Event) (w : W) : W :=
  (evs.filter fun ev => a.mode.admits ev.kind).foldl
    (fun w ev => a.appliers.members.foldl (fun w ap => ap.apply ev w) w) w

end Application

namespace InFlight

/-- The tracker after the events acknowledge it one after the other, or the error of the first
that does not. -/
def acknowledgeAll (t : InFlight) : List Event → Except InFlightError InFlight
  | [] => .ok t
  | ev :: evs =>
    match t.acknowledge ev.source ev.sourceSequence ev.kind with
    | .ok (_, t₁) => t₁.acknowledgeAll evs
    | .error e => .error e

/-- Acknowledgements that went through, taken apart at the first event. -/
theorem acknowledgeAll_cons_eq_ok {t t' : InFlight} {ev : Event} {evs : List Event}
    (h : t.acknowledgeAll (ev :: evs) = .ok t') :
    ∃ b t₁, t.acknowledge ev.source ev.sourceSequence ev.kind = .ok (b, t₁) ∧
      t₁.acknowledgeAll evs = .ok t' := by
  rw [acknowledgeAll] at h
  cases hack : t.acknowledge ev.source ev.sourceSequence ev.kind with
  | error e => rw [hack] at h; cases h
  | ok r =>
    obtain ⟨b, t₁⟩ := r
    rw [hack] at h
    exact ⟨b, t₁, rfl, h⟩

theorem acknowledgeAll_append {t t₁ : InFlight} {evs : List Event}
    (h : t.acknowledgeAll evs = .ok t₁) (evs' : List Event) :
    t.acknowledgeAll (evs ++ evs') = t₁.acknowledgeAll evs' := by
  induction evs generalizing t with
  | nil => cases h; rfl
  | cons ev evs ih =>
    obtain ⟨b, t₂, hack, hrest⟩ := acknowledgeAll_cons_eq_ok h
    rw [List.cons_append, acknowledgeAll, hack]
    exact ih hrest

/-- With nothing in flight, every event goes through and the tracker stays as it is. -/
theorem acknowledgeAll_of_entries_nil {t : InFlight} (h : t.entries = []) :
    ∀ evs, t.acknowledgeAll evs = .ok t
  | [] => rfl
  | ev :: evs => by
    rw [acknowledgeAll, acknowledge_of_check (check_of_entries_nil h ..)]
    exact acknowledgeAll_of_entries_nil h evs

end InFlight

namespace Engine

variable {W : Type} {now : Timestamp} {s s' : Engine W × W}

/-- The applier's step, run when every piece of it goes through. -/
theorem exec_applyNext_of_ok {m : Stored} {ev : Event} {d acked : Bool} {a : Application W}
    {w : W} {t : InFlight} {events : MessageLog}
    (hpeek : s.1.events.peek? s.1.config.applierPoller = some m)
    (hdecode : Event.decode m.bytes = .ok ev)
    (happly : s.1.application.apply ev s.2 = .ok (d, a, w))
    (hack : s.1.outbox.inFlight.acknowledge ev.source ev.sourceSequence ev.kind = .ok (acked, t))
    (hadvance : s.1.events.advance s.1.config.applierPoller = .ok events) :
    exec applyNext now s = (.ok true, ({ s.1 with
      application := a
      outbox := { s.1.outbox with
        inFlight := t
        transient := s.1.outbox.transient.noteEvent ev.sequence ev.time }
      events := events
      counters := { s.1.counters with eventsApplied := s.1.counters.eventsApplied + 1 } }, w)) := by
  -- the acknowledgement went through, so the check before it did
  have hcheck : ∃ b, s.1.outbox.inFlight.check ev.source ev.sourceSequence ev.kind = .ok b := by
    unfold InFlight.acknowledge at hack
    split at hack
    · cases hack
    · exact ⟨_, ‹_›⟩
    · exact ⟨_, ‹_›⟩
  obtain ⟨b, hcheck⟩ := hcheck
  unfold applyNext
  simp [exec_bind, hpeek, hdecode, hcheck, happly, hack, hadvance]
  rfl

/-- The applier's step that took an event: every piece of it went through. -/
theorem applyNext_eq_true (h : exec applyNext now s = (.ok true, s')) :
    ∃ m ev d a w acked t events,
      s.1.events.peek? s.1.config.applierPoller = some m ∧ Event.decode m.bytes = .ok ev ∧
      s.1.application.apply ev s.2 = .ok (d, a, w) ∧
      s.1.outbox.inFlight.acknowledge ev.source ev.sourceSequence ev.kind = .ok (acked, t) ∧
      s.1.events.advance s.1.config.applierPoller = .ok events ∧
      s' = ({ s.1 with
        application := a
        outbox := { s.1.outbox with
          inFlight := t
          transient := s.1.outbox.transient.noteEvent ev.sequence ev.time }
        events := events
        counters := { s.1.counters with eventsApplied := s.1.counters.eventsApplied + 1 } }, w) := by
  obtain ⟨m, ev, hpeek, hdecode⟩ := applyNext_taken (congrArg Prod.fst h)
  -- each later piece went through, or the step would have ended with its error
  cases hcheck : s.1.outbox.inFlight.check ev.source ev.sourceSequence ev.kind with
  | error err => simp [applyNext, exec_bind, hpeek, hdecode, hcheck] at h
  | ok b =>
  cases happly : s.1.application.apply ev s.2 with
  | error err => simp [applyNext, exec_bind, hpeek, hdecode, hcheck, happly] at h
  | ok r =>
  obtain ⟨d, a, w⟩ := r
  have hack := InFlight.acknowledge_of_check hcheck
  cases hadvance : s.1.events.advance s.1.config.applierPoller with
  | error err =>
    simp [applyNext, exec_bind, hpeek, hdecode, hcheck, happly, hack, hadvance] at h
  | ok events =>
    rw [exec_applyNext_of_ok hpeek hdecode happly hack hadvance] at h
    exact ⟨m, ev, d, a, w, _, _, events, hpeek, hdecode, happly, hack, rfl,
      (Prod.mk.inj h).2.symm⟩

/-- The applier's step fails on the tracker only when the event at its poller does not
acknowledge it. -/
theorem applyNext_eq_inFlight {err : InFlightError}
    (h : (exec applyNext now s).1 = .error (.inFlight err)) :
    ∃ m ev, s.1.events.peek? s.1.config.applierPoller = some m ∧ Event.decode m.bytes = .ok ev ∧
      s.1.outbox.inFlight.acknowledge ev.source ev.sourceSequence ev.kind = .error err := by
  cases hpeek : s.1.events.peek? s.1.config.applierPoller with
  | none => rw [exec_applyNext_none hpeek] at h; cases h
  | some m =>
  cases hdecode : Event.decode m.bytes with
  | error r => rw [exec_applyNext_undecodable hpeek hdecode] at h; cases h
  | ok ev =>
  refine ⟨m, ev, rfl, hdecode, ?_⟩
  cases hcheck : s.1.outbox.inFlight.check ev.source ev.sourceSequence ev.kind with
  | error err' =>
    simp [applyNext, exec_bind, hpeek, hdecode, hcheck] at h
    simp [InFlight.acknowledge, hcheck, h]
  | ok b =>
  -- past the check, only the application and the log can fail
  exfalso
  cases happly : s.1.application.apply ev s.2 with
  | error err' => simp [applyNext, exec_bind, hpeek, hdecode, hcheck, happly] at h
  | ok r =>
  obtain ⟨d, a, w⟩ := r
  have hack := InFlight.acknowledge_of_check hcheck
  cases hadvance : s.1.events.advance s.1.config.applierPoller with
  | error err' =>
    simp [applyNext, exec_bind, hpeek, hdecode, hcheck, happly, hack, hadvance] at h
  | ok events =>
    rw [exec_applyNext_of_ok hpeek hdecode happly hack hadvance] at h
    cases h

/-- The applier took the events `evs`, one after the other, from `s` to `s'`. -/
structure Replayed (s : Engine W × W) (evs : List Event) (s' : Engine W × W) : Prop where
  /-- The events are the records from the applier's poller on. -/
  records : ((s.1.events.messages.toList.drop s.1.applierAt).take evs.length).map Event.decode =
    evs.map .ok
  messages : s'.1.events.messages = s.1.events.messages
  applierAt : s'.1.applierAt = s.1.applierAt + evs.length
  base : s'.1.base = s.1.base.recordAll evs
  mode : s'.1.application.mode = s.1.application.mode
  appliers : s'.1.application.appliers = s.1.application.appliers
  world : s'.2 = s.1.application.deliverAll evs s.2
  commands : s'.1.outbox.commands = s.1.outbox.commands
  fixed : Fixed s s'
  /-- The tracker took the events' acknowledgements, one after the other. -/
  acks : s.1.outbox.inFlight.acknowledgeAll evs = .ok s'.1.outbox.inFlight
  sequencers : s'.1.outbox.sequencers = s.1.outbox.sequencers
  sources : s'.1.outbox.transient.sources = s.1.outbox.transient.sources

namespace Replayed

theorem refl (s : Engine W × W) : Replayed s [] s where
  records := by simp
  messages := rfl
  applierAt := rfl
  base := rfl
  mode := rfl
  appliers := rfl
  world := rfl
  commands := rfl
  fixed := Fixed.refl s
  acks := rfl
  sequencers := rfl
  sources := rfl

/-- The events taken lie in the log. -/
theorem fits {evs : List Event} (h : Replayed s evs s') :
    evs.length ≤ s.1.events.length - s.1.applierAt := by
  have hlen := congrArg List.length h.records
  simp only [List.length_map, List.length_take, List.length_drop, Array.length_toList] at hlen
  simp only [MessageLog.length]
  omega

/-- The applier's step that took an event took it alone. -/
theorem of_applyNext (h : exec applyNext now s = (.ok true, s')) :
    ∃ ev, Replayed s [ev] s' := by
  obtain ⟨m, ev, d, a, w, acked, t, events, hpeek, hdecode, happly, hack, hadvance, rfl⟩ :=
    applyNext_eq_true h
  obtain ⟨hindex, hbytes⟩ := MessageLog.peek?_eq_some.1 hpeek
  obtain ⟨-, hevents⟩ := MessageLog.advance_eq_ok hadvance
  obtain ⟨-, -, rfl, rfl, rfl⟩ := Application.apply_eq_ok happly
  refine ⟨ev, ⟨?_, ?_, ?_, rfl, rfl, rfl, ?_, rfl, ⟨rfl, rfl, rfl, rfl, rfl, rfl⟩, ?_, rfl, rfl⟩⟩
  · -- the record at the poller is the event
    obtain ⟨hlt, hget⟩ := List.getElem?_eq_some_iff.1 hbytes
    unfold Engine.applierAt
    rw [List.drop_eq_getElem_cons hlt, hget]
    simp [hdecode]
  · simp [hevents]
  · show events.position s.1.config.applierPoller = _
    simp [hevents, MessageLog.position_setPosition, Engine.applierAt]
  · simp only [Application.deliverAll, List.filter_cons, List.filter_nil]
    split <;> simp_all
  · rw [InFlight.acknowledgeAll, hack]
    rfl

/-- With nothing in flight, a replay leaves the tracker as it was. -/
theorem inFlight_of_entries_nil {evs : List Event} (h : Replayed s evs s')
    (hempty : s.1.outbox.inFlight.entries = []) :
    s'.1.outbox.inFlight = s.1.outbox.inFlight := by
  have hacks := h.acks
  rw [InFlight.acknowledgeAll_of_entries_nil hempty] at hacks
  exact (Except.ok.inj hacks).symm

theorem trans {evs evs' : List Event} {s₁ s₂ : Engine W × W} (h : Replayed s evs s₁)
    (h' : Replayed s₁ evs' s₂) : Replayed s (evs ++ evs') s₂ where
  records := by
    -- the events after the first ones are read where the first ones left the poller
    have hrest := h'.records
    rw [h.messages, h.applierAt, ← List.drop_drop] at hrest
    rw [List.length_append, List.take_add, List.map_append, h.records, hrest, List.map_append]
  messages := h'.messages.trans h.messages
  applierAt := by rw [h'.applierAt, h.applierAt, List.length_append, Nat.add_assoc]
  base := by
    rw [h'.base, h.base, BaseState.recordAll, BaseState.recordAll, BaseState.recordAll,
      List.foldl_append]
  mode := h'.mode.trans h.mode
  appliers := h'.appliers.trans h.appliers
  world := by
    rw [h'.world, h.world, Application.deliverAll, Application.deliverAll,
      Application.deliverAll, h.mode, h.appliers, List.filter_append, List.foldl_append]
  commands := h'.commands.trans h.commands
  fixed := h.fixed.trans h'.fixed
  acks := by rw [InFlight.acknowledgeAll_append h.acks]; exact h'.acks
  sequencers := h'.sequencers.trans h.sequencers
  sources := h'.sources.trans h.sources

end Replayed

/-- Applying up to `limit` events takes the events from the poller on, one after the other,
and stops short of the limit only at the end of the log. -/
theorem replayed_applyUpTo : ∀ (limit : Nat) {s s' : Engine W × W} {k : Nat},
    exec (applyUpTo limit) now s = (.ok k, s') →
      ∃ evs, evs.length = k ∧ Replayed s evs s' ∧
        (k < limit → s'.1.events.length ≤ s'.1.applierAt)
  | 0, s, s', k, h => by
    simp only [applyUpTo, exec_pure, Prod.mk.injEq, Except.ok.injEq] at h
    obtain ⟨rfl, rfl⟩ := h
    exact ⟨[], rfl, .refl s, by simp⟩
  | limit + 1, s, s', k, h => by
    rw [applyUpTo, exec_bind] at h
    cases hr : (exec applyNext now s).1 with
    | error e => simp [hr] at h
    | ok taken =>
      cases taken with
      | false =>
        -- nothing at the poller: the log has been applied to its end
        rw [applyNext_unchanged hr] at h
        simp only [Bool.false_eq_true, if_false, exec_pure, Prod.mk.injEq, Except.ok.injEq] at h
        obtain ⟨rfl, rfl⟩ := h
        refine ⟨[], rfl, .refl s, fun _ => ?_⟩
        cases hpeek : s.1.events.peek? s.1.config.applierPoller with
        | none => exact MessageLog.peek?_eq_none.1 hpeek
        | some m => exact absurd hr (applyNext_ne_false hpeek)
      | true =>
        obtain ⟨ev, hev⟩ := Replayed.of_applyNext (Prod.ext hr rfl)
        simp only [hr, if_true, exec_bind] at h
        cases hrest : (exec (applyUpTo limit) now (exec applyNext now s).2).1 with
        | error e => simp [hrest] at h
        | ok n =>
          simp only [hrest, exec_pure, Prod.mk.injEq, Except.ok.injEq] at h
          obtain ⟨rfl, rfl⟩ := h
          obtain ⟨evs, hlen, hevs, hend⟩ := replayed_applyUpTo limit (Prod.ext hrest rfl)
          exact ⟨ev :: evs, by simp [hlen], hev.trans hevs, fun hlt => hend (by omega)⟩

/-- Applying up to `limit` events that failed took events, one after the other, and failed on
the next. -/
theorem applyUpTo_eq_error : ∀ (limit : Nat) {s : Engine W × W} {e : EngineError},
    (exec (applyUpTo limit) now s).1 = .error e →
      ∃ evs s₁, Replayed s evs s₁ ∧ (exec applyNext now s₁).1 = .error e
  | 0, s, e, h => by simp [applyUpTo, exec_pure] at h
  | limit + 1, s, e, h => by
    rw [applyUpTo, exec_bind] at h
    cases hr : (exec applyNext now s).1 with
    | error e' =>
      rw [hr] at h
      cases h
      exact ⟨[], s, .refl s, hr⟩
    | ok taken =>
      cases taken with
      | false =>
        rw [applyNext_unchanged hr] at h
        simp [exec_pure] at h
      | true =>
        obtain ⟨ev, hev⟩ := Replayed.of_applyNext (Prod.ext hr rfl)
        simp only [hr, if_true, exec_bind] at h
        cases hrest : (exec (applyUpTo limit) now (exec applyNext now s).2).1 with
        | error e' =>
          rw [hrest] at h
          cases h
          obtain ⟨evs, s₁, hevs, hfail⟩ := applyUpTo_eq_error limit hrest
          exact ⟨ev :: evs, s₁, hev.trans hevs, hfail⟩
        | ok n => simp [hrest, exec_pure] at h

/-- With nothing in flight, the applier goes through every record from its poller on, when
they read as events numbered on from the last one applied. -/
theorem applyUpTo_of_numbered : ∀ (evs : List Event) (s : Engine W × W) (limit : Nat),
    s.1.outbox.inFlight.entries = [] →
    (s.1.events.messages.toList.drop s.1.applierAt).map Event.decode = evs.map .ok →
    (∀ i (h : i < evs.length), evs[i].sequence.toNat = s.1.base.lastEvent.toNat + i + 1) →
    evs.length < limit →
    (exec (applyUpTo limit) now s).1 = .ok evs.length
  | [], s, limit + 1, _, hrec, _, _ => by
    have hend : s.1.events.length ≤ s.1.applierAt := by
      simpa [MessageLog.length] using hrec
    rw [applyUpTo, exec_bind, exec_applyNext_none (MessageLog.peek?_eq_none.2 hend)]
    rfl
  | ev :: evs, s, limit + 1, hempty, hrec, hnum, hlimit => by
    -- the record at the poller reads as `ev`
    obtain ⟨b, rest, hdrop, hb, hrest⟩ : ∃ b rest, s.1.events.messages.toList.drop s.1.applierAt =
        b :: rest ∧ Event.decode b = .ok ev ∧ rest.map Event.decode = evs.map .ok := by
      cases hd : s.1.events.messages.toList.drop s.1.applierAt with
      | nil => simp [hd] at hrec
      | cons b rest =>
        simp only [hd, List.map_cons, List.cons.injEq] at hrec
        exact ⟨b, rest, rfl, hrec.1, hrec.2⟩
    have hlt : s.1.applierAt < s.1.events.length := by
      have := congrArg List.length hdrop
      simp [MessageLog.length] at this ⊢
      omega
    have hpeek : s.1.events.peek? s.1.config.applierPoller = some ⟨s.1.applierAt, b⟩ := by
      rw [MessageLog.peek?_eq_some]
      refine ⟨rfl, ?_⟩
      show s.1.events.messages.toList[s.1.applierAt]? = some b
      rw [← List.head?_drop, hdrop]
      rfl
    -- it is the next event, and nothing in flight waits for it
    have hseq : ev.sequence.toNat = s.1.base.lastEvent.toNat + 1 :=
      hnum 0 (Nat.zero_lt_succ _)
    have hbound := ev.sequence.toNat_lt
    have hnext : s.1.base.lastEvent < ev.sequence := by
      rw [UInt64.lt_iff_toNat_lt]
      omega
    have hsucc : ev.sequence = s.1.base.lastEvent + 1 := by
      apply UInt64.toNat_inj.1
      rw [UInt64.toNat_add, hseq, UInt64.toNat_one, Nat.mod_eq_of_lt (by omega)]
    have happly := Application.apply_of_next s.2 hnext hsucc
    have hack := InFlight.acknowledge_of_check
      (InFlight.check_of_entries_nil hempty ev.source ev.sourceSequence ev.kind)
    obtain ⟨events, hadvance⟩ : ∃ events,
        s.1.events.advance s.1.config.applierPoller = .ok events := by
      unfold MessageLog.advance
      exact ⟨_, if_neg (by simp only [Engine.applierAt] at hlt; omega)⟩
    have hexec : exec applyNext now s = _ := exec_applyNext_of_ok hpeek hb happly hack hadvance
    obtain ⟨-, hevents⟩ := MessageLog.advance_eq_ok hadvance
    have ih := applyUpTo_of_numbered evs (exec applyNext now s).2 limit ?_ ?_ ?_
      (by simp at hlimit; omega)
    · rw [applyUpTo, exec_bind, hexec]
      rw [hexec] at ih
      dsimp only
      rw [if_pos rfl, exec_bind, ih]
      rfl
    · rw [hexec]
      exact hempty
    · -- the rest of the records follow the one taken
      rw [hexec]
      show (events.messages.toList.drop (events.position s.1.config.applierPoller)).map
        Event.decode = _
      rw [hevents, MessageLog.messages_setPosition, MessageLog.position_setPosition,
        ← List.drop_drop, ← Engine.applierAt, hdrop]
      exact hrest
    · intro i hi
      have := hnum (i + 1) (by simp; omega)
      simp only [List.getElem_cons_succ] at this
      rw [hexec]
      show evs[i].sequence.toNat = ev.sequence.toNat + i + 1
      omega

theorem replayAll_eq_applyUpTo : ∀ fuel, (replayAll fuel : EngineM W Nat) = applyUpTo fuel
  | 0 => rfl
  | fuel + 1 => by rw [replayAll, applyUpTo, replayAll_eq_applyUpTo fuel]

/-- Two states with the same logs, application, settings, application's state, count of
replayed events and sequencers: what scanning the command log keeps. -/
structure LogsKept (s s' : Engine W × W) : Prop where
  events : s'.1.events = s.1.events
  commands : s'.1.outbox.commands = s.1.outbox.commands
  application : s'.1.application = s.1.application
  config : s'.1.config = s.1.config
  world : s'.2 = s.2
  replayed : s'.1.status.replayedEvents = s.1.status.replayedEvents
  sequencers : s'.1.outbox.sequencers = s.1.outbox.sequencers

namespace LogsKept

theorem refl (s : Engine W × W) : LogsKept s s := ⟨rfl, rfl, rfl, rfl, rfl, rfl, rfl⟩

theorem trans {s₁ s₂ s₃ : Engine W × W} (h : LogsKept s₁ s₂) (h' : LogsKept s₂ s₃) :
    LogsKept s₁ s₃ :=
  ⟨h'.events.trans h.events, h'.commands.trans h.commands, h'.application.trans h.application,
    h'.config.trans h.config, h'.world.trans h.world, h'.replayed.trans h.replayed,
    h'.sequencers.trans h.sequencers⟩

instance : Std.Refl (LogsKept (W := W)) := ⟨refl⟩

instance : Trans (LogsKept (W := W)) LogsKept LogsKept := ⟨trans⟩

end LogsKept

theorem logsKept_scanCommand (i : Nat) : Relates LogsKept (scanCommand i : EngineM W Unit) :=
  .scanCommand (fun _ _ => ⟨rfl, rfl, rfl, rfl, rfl, rfl, rfl⟩)
    (fun _ _ => ⟨rfl, rfl, rfl, rfl, rfl, rfl, rfl⟩) i

theorem logsKept_scanCommands : Relates LogsKept (scanCommands : EngineM W Unit) :=
  .bind .engine fun _ => .bind (Relates.forM logsKept_scanCommand _) fun _ =>
    .modifyEngine _ fun _ => ⟨rfl, rfl, rfl, rfl, rfl, rfl, rfl⟩

/-- Every command of a log whose records all read is scanned. -/
theorem scanCommand_ok
    (hread : ∀ b ∈ s.1.outbox.commands.messages.toList, ∃ c, Command.decode b = .ok c)
    (i : Nat) : (exec (scanCommand i) now s).1 = .ok () := by
  unfold scanCommand
  rw [exec_engine_bind]
  split
  · rfl
  · rename_i b hb
    obtain ⟨c, hc⟩ := hread b (List.mem_of_getElem? (by simpa [MessageLog.read?] using hb))
    simp only [exec_bind, hc, exec_lift_ok, exec_engine]
    split <;> simp [exec_bind]

theorem scanCommands_ok
    (hread : ∀ b ∈ s.1.outbox.commands.messages.toList, ∃ c, Command.decode b = .ok c) :
    (exec scanCommands now s).1 = .ok () := by
  -- the loop keeps the command log, so every scan reads it
  have hloop : ∀ (l : List Nat) (s : Engine W × W),
      (∀ b ∈ s.1.outbox.commands.messages.toList, ∃ c, Command.decode b = .ok c) →
      (exec (l.forM scanCommand) now s).1 = .ok () := by
    intro l
    induction l with
    | nil => intro s _; rfl
    | cons i l ih =>
      intro s hs
      rw [show (i :: l).forM scanCommand = (scanCommand i >>= fun _ => l.forM scanCommand) from rfl,
        exec_bind, scanCommand_ok hs i]
      apply ih
      rw [(logsKept_scanCommand i now s).commands]
      exact hs
  unfold scanCommands
  rw [exec_engine_bind, exec_bind, hloop _ s hread]
  rfl

/-- Scanning a record that reads as `c` restores the command as in flight when it is above its
source's watermark and every sequence of its source seen so far, and notes it as seen. -/
theorem exec_scanCommand {i : Nat} {b : Bytes} {c : Command}
    (hb : s.1.outbox.commands.read? i = some b) (hc : Command.decode b = .ok c) :
    (exec (scanCommand i) now s).1 = .ok () ∧
      (exec (scanCommand i) now s).2.1.outbox = { s.1.outbox with
        inFlight :=
          if s.1.base.lastCommand c.source < c.sequence ∧
              s.1.outbox.transient.maxSource c.source < c.sequence then
            s.1.outbox.inFlight.send c.source c.sequence c.time
          else s.1.outbox.inFlight
        transient := s.1.outbox.transient.noteCommand c.source c.sequence } := by
  unfold scanCommand
  rw [exec_engine_bind]
  simp only [hb]
  rw [exec_bind, hc, exec_lift_ok]
  dsimp only
  rw [exec_engine_bind]
  split <;> simp [exec_bind, exec_modifyEngine, *]

/-- Scanning the first `n` records of a readable log, from a state that has seen no command,
restores after what is in flight the pending commands among them, in log order, and notes every
one of them as seen. -/
theorem scan_range (hread : s.1.outbox.commands.Readable)
    (hseen : ∀ x, s.1.outbox.transient.maxSource x = 0) : ∀ n, n ≤ s.1.outbox.commands.length →
    (exec ((List.range n).forM scanCommand) now s).1 = .ok () ∧
      (exec ((List.range n).forM scanCommand) now s).2.1.outbox.inFlight.entries =
        s.1.outbox.inFlight.entries ++
          InFlight.pending s.1.base.lastCommand (s.1.outbox.commands.readCommands.take n) 0 ∧
      (∀ x, (exec ((List.range n).forM scanCommand) now s).2.1.outbox.transient.maxSource x =
        Command.highest (s.1.outbox.commands.readCommands.take n) x) ∧
      (exec ((List.range n).forM scanCommand) now s).2.1.outbox.sequencers =
        s.1.outbox.sequencers
  | 0, _ => ⟨rfl, by simp [InFlight.pending, InFlight.pendingAfter], hseen, rfl⟩
  | n + 1, hn => by
    obtain ⟨hok, hentries, hmax, hseq⟩ := scan_range hread hseen n (by omega)
    have hkept : LogsKept s (exec ((List.range n).forM scanCommand) now s).2 :=
      Relates.forM logsKept_scanCommand (List.range n) now s
    -- the record at `n` reads as the command at `n`
    have hlt : n < s.1.outbox.commands.messages.toList.length := by
      simp only [MessageLog.length] at hn
      simp only [Array.length_toList]
      omega
    obtain ⟨c, hc⟩ := hread _ (List.getElem_mem hlt)
    have hget : s.1.outbox.commands.readCommands[n]? = some c :=
      MessageLog.getElem?_readCommands hread (List.getElem?_eq_getElem hlt) hc
    have htake : s.1.outbox.commands.readCommands.take (n + 1) =
        s.1.outbox.commands.readCommands.take n ++ [c] := by
      rw [List.take_add_one, hget]
      rfl
    have hbase : (exec ((List.range n).forM scanCommand) now s).2.1.base = s.1.base := by
      simp only [Engine.base, hkept.application]
    simp only [List.forM_eq_forM] at hok hentries hmax hseq hkept hbase ⊢
    rw [List.range_succ, List.forM_append, exec_bind]
    generalize hs₁ : exec ((List.range n).forM scanCommand) now s = p at hok hentries hmax hseq hkept hbase
    obtain ⟨r, s₁⟩ := p
    dsimp only at hok hentries hmax hseq hkept hbase
    subst hok
    have hb : s₁.1.outbox.commands.read? n = some s.1.outbox.commands.messages.toList[n] := by
      rw [hkept.commands]
      simp [MessageLog.read?]
    obtain ⟨hok₁, houtbox⟩ := @exec_scanCommand W now s₁ n _ c hb hc
    simp only [List.forM_cons, List.forM_nil, exec_bind, hok₁, exec_pure]
    rw [htake, houtbox, InFlight.pending_append_singleton _ (Nat.zero_le _)]
    refine ⟨trivial, ?_, fun x => ?_, hseq⟩
    · -- the command is restored exactly when it is pending
      rw [hbase, hmax c.source]
      by_cases hpend : s.1.base.lastCommand c.source < c.sequence ∧
          Command.highest (s.1.outbox.commands.readCommands.take n) c.source < c.sequence
      · rw [if_pos hpend, if_pos hpend, InFlight.entries_send, hentries, List.append_assoc]
        rfl
      · rw [if_neg hpend, if_neg hpend, hentries, List.append_nil]
    · rw [Transient.maxSource_noteCommand_eq, hmax, Command.highest_append_singleton]

/-- Scanning a readable command log from a state that has seen no command restores, after what
is in flight, the pending commands of the whole log in log order, and notes every command as
seen. -/
theorem scanCommands_restores {r : Except EngineError Unit} {s' : Engine W × W}
    (hscan : exec scanCommands now s = (r, s')) (hread : s.1.outbox.commands.Readable)
    (hseen : ∀ x, s.1.outbox.transient.maxSource x = 0) :
    s'.1.outbox.inFlight.entries = s.1.outbox.inFlight.entries ++
        InFlight.pending s.1.base.lastCommand s.1.outbox.commands.readCommands 0 ∧
      (∀ x, s'.1.outbox.transient.maxSource x =
        Command.highest s.1.outbox.commands.readCommands x) ∧
      s'.1.outbox.sequencers = s.1.outbox.sequencers := by
  obtain ⟨hok, hentries, hmax, hseq⟩ := @scan_range W now s hread hseen _ (Nat.le_refl _)
  have htake : s.1.outbox.commands.readCommands.take s.1.outbox.commands.length =
      s.1.outbox.commands.readCommands :=
    List.take_of_length_le (Nat.le_of_eq (MessageLog.length_readCommands hread))
  rw [htake] at hentries hmax
  unfold scanCommands at hscan
  rw [exec_engine_bind, exec_bind, hok] at hscan
  obtain ⟨-, rfl⟩ := Prod.mk.inj hscan
  exact ⟨hentries, hmax, hseq⟩

/-- A start that went through, taken apart: the engine was fresh, the applier's poller moved to
the base state's last event, the replay over the moved log took `k` events, the scan went
through, and the engine was marked started. -/
theorem start_eq_ok {st : EngineStatus} (h : exec start now s = (.ok st, s')) :
    ∃ k s₂ s₃, s.1.status.started = false ∧ s.1.base.lastEvent.toNat ≤ s.1.events.length ∧
      exec (applyUpTo (s.1.events.length + 1)) now
          ({ s.1 with
              events := s.1.events.setPosition s.1.config.applierPoller s.1.base.lastEvent.toNat },
            s.2) = (.ok k, s₂) ∧
      exec scanCommands now ({ s₂.1 with
          counters := { s₂.1.counters with eventsReplayed := s₂.1.counters.eventsReplayed + k }
          status := { s₂.1.status with replayedEvents := k, replayEnd := s₂.1.events.length } },
          s₂.2) = (.ok (), s₃) ∧
      s' = ({ s₃.1 with status := { s₃.1.status with started := true } }, s₃.2) ∧
      st = s'.1.status := by
  unfold start at h
  rw [exec_engine_bind] at h
  split at h
  · simp at h
  rename_i hnot
  cases hmove : s.1.events.moveTo s.1.config.applierPoller s.1.base.lastEvent.toNat with
  | error err => simp [exec_bind, hmove] at h
  | ok events =>
  obtain ⟨hle, rfl⟩ := MessageLog.moveTo_eq_ok hmove
  rw [exec_bind, hmove, exec_lift_ok] at h
  dsimp only at h
  rw [exec_bind, exec_modifyEngine] at h
  dsimp only at h
  rw [exec_bind, replayAll_eq_applyUpTo, MessageLog.length_setPosition] at h
  generalize hr : exec (applyUpTo _) now _ = r at h
  obtain ⟨res, s₂⟩ := r
  cases res with
  | error err => simp at h
  | ok k =>
  dsimp only at h
  rw [exec_bind, exec_modifyEngine, exec_bind] at h
  generalize hscan : exec scanCommands now _ = r at h
  obtain ⟨res, s₃⟩ := r
  cases res with
  | error err => simp at h
  | ok u =>
  simp only [exec_bind, exec_modifyEngine, exec_engine, exec_pure, Prod.mk.injEq,
    Except.ok.injEq] at h
  obtain ⟨rfl, rfl⟩ := h
  -- the replay's run stands generalized in the goal as well
  exact ⟨k, s₂, s₃, by simpa using hnot, hle, rfl, hscan, rfl, rfl⟩

/-- What a start that went through did: the applier replayed `evs`, the records of the event
log from the base state's last event to its end, the command log was scanned, and the engine
is started. -/
structure Starts (s : Engine W × W) (evs : List Event) (st : EngineStatus)
    (s' : Engine W × W) : Prop where
  fresh : s.1.status.started = false
  records : (s.1.events.messages.toList.drop s.1.base.lastEvent.toNat).map Event.decode =
    evs.map .ok
  messages : s'.1.events.messages = s.1.events.messages
  applierAt : s'.1.applierAt = s.1.events.length
  base : s'.1.base = s.1.base.recordAll evs
  mode : s'.1.application.mode = s.1.application.mode
  appliers : s'.1.application.appliers = s.1.application.appliers
  world : s'.2 = s.1.application.deliverAll evs s.2
  commands : s'.1.outbox.commands = s.1.outbox.commands
  config : s'.1.config = s.1.config
  started : Started s'
  status : st = s'.1.status
  replayed : st.replayedEvents = evs.length
  sequencers : s'.1.outbox.sequencers = s.1.outbox.sequencers
  /-- From nothing in flight and no command seen, the scan restored the pending commands of the
  whole log and saw every command. -/
  restored : s.1.outbox.inFlight.entries = [] → (∀ x, s.1.outbox.transient.maxSource x = 0) →
    s.1.outbox.commands.Readable →
    s'.1.outbox.inFlight.entries =
        InFlight.pending s'.1.base.lastCommand s.1.outbox.commands.readCommands 0 ∧
      ∀ x, s'.1.outbox.transient.maxSource x = Command.highest s.1.outbox.commands.readCommands x

theorem starts_of_exec {st : EngineStatus} (h : exec start now s = (.ok st, s')) :
    ∃ evs, Starts s evs st s' := by
  obtain ⟨k, s₂, s₃, hnot, hle, hr, hscan, rfl, rfl⟩ := start_eq_ok h
  obtain ⟨evs, rfl, hreplay, hend⟩ := replayed_applyUpTo _ hr
  have hkept := logsKept_scanCommands.of_exec hscan
  -- scanning and marking the engine started keep what the replay left
  have hE : s₃.1.events = s₂.1.events := hkept.events
  have hA : s₃.1.application = s₂.1.application := hkept.application
  have hC : s₃.1.outbox.commands = s₂.1.outbox.commands := hkept.commands
  have hcfg : s₃.1.config = s₂.1.config := hkept.config
  have hW : s₃.2 = s₂.2 := hkept.world
  have hR : s₃.1.status.replayedEvents = evs.length := hkept.replayed
  have hfits := hreplay.fits
  have hlen₂ : s₂.1.events.length = s.1.events.length := by
    simp [MessageLog.length, hreplay.messages]
  have hat₂ : s₂.1.applierAt = s.1.base.lastEvent.toNat + evs.length := by
    rw [hreplay.applierAt]
    simp [Engine.applierAt, MessageLog.position_setPosition]
  simp only [MessageLog.length_setPosition, Engine.applierAt,
    MessageLog.position_setPosition] at hfits hend
  -- the replay ran to the end of the log: the fuel is one more than the log's length
  have hall : s.1.events.length ≤ s.1.base.lastEvent.toNat + evs.length := by
    have := hend (by omega)
    rw [← Engine.applierAt, hlen₂, hat₂] at this
    exact this
  refine ⟨evs, ⟨hnot, ?_, ?_, ?_, ?_, ?_, ?_, ?_, ?_, ?_, rfl, rfl, hR, ?_, ?_⟩⟩
  · have hrec := hreplay.records
    simp only [Engine.applierAt, MessageLog.position_setPosition,
      MessageLog.messages_setPosition] at hrec
    rwa [List.take_of_length_le (by simp [MessageLog.length] at hall ⊢; omega)] at hrec
  · simp [hE, hreplay.messages]
  · show s₃.1.events.position s₃.1.config.applierPoller = _
    rw [hE, hcfg, ← Engine.applierAt, hat₂]
    omega
  · show s₃.1.application.base = _
    rw [hA]
    exact hreplay.base
  · show s₃.1.application.mode = _
    rw [hA, hreplay.mode]
  · show s₃.1.application.appliers = _
    rw [hA, hreplay.appliers]
  · show s₃.2 = _
    rw [hW, hreplay.world]
  · show s₃.1.outbox.commands = _
    rw [hC, hreplay.commands]
  · show s₃.1.config = _
    rw [hcfg, hreplay.fixed.config]
  · show s₃.1.outbox.sequencers = _
    rw [hkept.sequencers, hreplay.sequencers]
  · -- the replay acknowledged nothing and saw no command, and the scan restored the log
    intro hempty hseen hread
    have hinflight : s₂.1.outbox.inFlight = s.1.outbox.inFlight :=
      hreplay.inFlight_of_entries_nil hempty
    have hsources : s₂.1.outbox.transient.sources = s.1.outbox.transient.sources :=
      hreplay.sources
    obtain ⟨hentries, hmax, -⟩ := scanCommands_restores hscan
      (by rw [show s₂.1.outbox.commands = s.1.outbox.commands from hreplay.commands]; exact hread)
      (fun x => by rw [← hseen x]; simp only [Transient.maxSource, hsources])
    refine ⟨?_, fun x => ?_⟩
    · show s₃.1.outbox.inFlight.entries = InFlight.pending s₃.1.application.base.lastCommand _ 0
      rw [hentries, hA]
      simp only [hinflight, hempty, List.nil_append, hreplay.commands]
      rfl
    · show s₃.1.outbox.transient.maxSource x = _
      rw [hmax]
      simp only [hreplay.commands]

/-- A fresh engine with nothing in flight starts when its command log reads and its event log
reads, from the base state's last event on, as events numbered on from it. -/
theorem start_ok {evs : List Event} (hfresh : s.1.status.started = false)
    (hempty : s.1.outbox.inFlight.entries = [])
    (hread : ∀ b ∈ s.1.outbox.commands.messages.toList, ∃ c, Command.decode b = .ok c)
    (hle : s.1.base.lastEvent.toNat ≤ s.1.events.length)
    (hrec : (s.1.events.messages.toList.drop s.1.base.lastEvent.toNat).map Event.decode =
      evs.map .ok)
    (hnum : ∀ i (h : i < evs.length), evs[i].sequence.toNat = s.1.base.lastEvent.toNat + i + 1) :
    ∃ st s', exec start now s = (.ok st, s') := by
  unfold start
  rw [exec_engine_bind, if_neg (by simp [hfresh])]
  have hmove : s.1.events.moveTo s.1.config.applierPoller s.1.base.lastEvent.toNat =
      .ok (s.1.events.setPosition s.1.config.applierPoller s.1.base.lastEvent.toNat) :=
    if_neg (Nat.not_lt.2 hle)
  rw [exec_bind, hmove, exec_lift_ok]
  dsimp only
  rw [exec_bind, exec_modifyEngine]
  dsimp only
  rw [exec_bind, replayAll_eq_applyUpTo]
  generalize hr : exec (applyUpTo _) now _ = r
  obtain ⟨res, s₂⟩ := r
  -- the replay goes through every event from the base state's last one
  have hres := congrArg Prod.fst hr
  rw [applyUpTo_of_numbered evs _ _ ?_ ?_ ?_ ?_] at hres
  · subst hres
    obtain ⟨taken, -, hreplay, -⟩ := replayed_applyUpTo _ hr
    dsimp only
    rw [exec_bind, exec_modifyEngine, exec_bind]
    generalize hscan : exec scanCommands now _ = r
    obtain ⟨res, s₃⟩ := r
    -- the scan reads the command log that the replay left as it was
    have hscanned := congrArg Prod.fst hscan
    rw [scanCommands_ok ?_] at hscanned
    · subst hscanned
      exact ⟨_, _, rfl⟩
    · intro b hb
      have hcommands : s₂.1.outbox.commands = s.1.outbox.commands := hreplay.commands
      exact hread b (by simpa [hcommands] using hb)
  · exact hempty
  · simpa [Engine.applierAt, MessageLog.position_setPosition] using hrec
  · exact hnum
  · have hfit := congrArg List.length hrec
    simp [MessageLog.length] at hfit ⊢
    omega

/-- A start with nothing in flight never fails on the tracker: the replay acknowledges nothing,
and the scan only reads the command log. -/
theorem start_sparesTracker (hempty : s.1.outbox.inFlight.entries = []) (err : InFlightError) :
    (exec start now s).1 ≠ .error (.inFlight err) := by
  intro h
  unfold start at h
  rw [exec_engine_bind] at h
  split at h
  · simp [exec_throw] at h
  cases hmove : s.1.events.moveTo s.1.config.applierPoller s.1.base.lastEvent.toNat with
  | error e => simp [exec_bind, hmove] at h
  | ok events =>
  rw [exec_bind, hmove, exec_lift_ok] at h
  dsimp only at h
  rw [exec_bind, exec_modifyEngine] at h
  dsimp only at h
  rw [exec_bind, replayAll_eq_applyUpTo] at h
  generalize hr : exec (applyUpTo _) now _ = r at h
  obtain ⟨res, s₂⟩ := r
  cases res with
  | error e =>
    -- the replay failed on an event that the empty tracker took without a check failing
    cases h
    obtain ⟨evs, s₁, hrep, hfail⟩ := applyUpTo_eq_error _ (congrArg Prod.fst hr)
    obtain ⟨m, ev, -, -, hack⟩ := applyNext_eq_inFlight hfail
    rw [hrep.inFlight_of_entries_nil hempty, InFlight.acknowledge_of_check
      (InFlight.check_of_entries_nil hempty ..)] at hack
    cases hack
  | ok k =>
  dsimp only at h
  rw [exec_bind, exec_modifyEngine, exec_bind] at h
  generalize hscan : exec scanCommands now _ = r at h
  obtain ⟨res, s₃⟩ := r
  cases res with
  | error e =>
    cases h
    exact sparesTracker_scanCommands now _ _ (congrArg Prod.fst hscan) err rfl
  | ok u =>
    simp only [exec_bind, exec_modifyEngine, exec_engine, exec_pure] at h
    cases h

end Engine

end EventSourcing
