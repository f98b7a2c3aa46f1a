import Mathlib
import EventSourcing.Proofs.Restocking

/-!
# A workload run passes its replay check

A workload run sends its commands one a cycle on a fresh engine, settles, and then starts a second
engine over the same two logs. Between the calls of the live session the engine is `Resting`:
live, with the reorder output at the end of the event log and at most one refill pending. A send
and its cycle keep it resting (`Resting.sendEach`), and settling takes one cycle for the refill
and one that finds nothing to do (`Resting.settle`), after which every command has been
dispatched.

The replaying engine reads the same logs: it replays every event into the same base state and
the same warehouse, restores nothing in flight since the dispatcher passed every command, and
finds every poller at the end of its log, so that its own settling appends nothing. So every
summary of a run of commands the warehouse takes reports a matching state
(`runCommands_passes_replay_check`).
-/

namespace EventSourcing

namespace Inventory

open Engine Warehouse

/-! ### An engine with nothing to do -/

/-- A started warehouse engine with nothing left to do: the dispatcher, the applier and the reorder
output stand at the ends of their logs. -/
structure Idle (s : Engine Warehouse × Warehouse) : Prop extends Members s.1 where
  started : Started s
  dispatched : s.1.outbox.commands.length ≤ s.1.dispatcherAt
  applied : s.1.applierAt = s.1.events.length
  published : s.1.events.length ≤ reorderAt s.1

namespace Idle

variable {s : Engine Warehouse × Warehouse}

/-- The state after a cycle that found nothing to do: the cycle is counted, nothing else moves. -/
def cycled (s : Engine Warehouse × Warehouse) : Engine Warehouse × Warehouse :=
  ({ s.1 with counters := { s.1.counters with cycles := s.1.counters.cycles + 1 } }, s.2)

/-- A cycle of an idle engine does no work: the dispatcher finds no command, the applier no
event, the reorder output no event to offer, and there are no inputs. -/
theorem exec_runCycle (h : Idle s) : exec runCycle 0 s = (.ok 0, cycled s) := by
  have hstarted : s.1.status.started = true := h.started
  have hd : exec dispatch 0 s = (.ok 0, s) := by
    unfold dispatch
    rw [exec_bind, exec_ensureStarted, if_pos hstarted]
    dsimp only
    rw [exec_engine_bind, h.config]
    show exec (dispatchUpTo 64) 0 s = _
    rw [dispatchUpTo, exec_bind, exec_dispatchRound_idle (MessageLog.peek?_eq_none.2 h.dispatched)]
    rfl
  have ha : exec (apply s.1.config.applyBatchLimit) 0 s = (.ok 0, s) := by
    rw [exec_apply_of_started h.started, exec_applyUpTo_of_caughtUp h.applied]
  have hslots : s.1.publisher.slots.isEmpty = false := by rw [h.publisher]; rfl
  have hp : exec publish 0 s = (.ok 0, s) := by
    unfold publish
    rw [exec_bind, exec_ensureStarted, if_pos hstarted]
    dsimp only
    rw [exec_engine_bind, if_neg (by rw [hslots]; decide)]
    simp only [h.publisher, h.config]
    rw [show List.range [reorderSlot].length = [0] from rfl]
    simp only [List.foldlM_cons, List.foldlM_nil, bind_pure, exec_bind,
      exec_publishSlot_end h.toMembers h.published, exec_count, exec_pure]
    rfl
  have hsteps : exec runSteps 0 s = (.ok 0, s) := by
    unfold runSteps
    rw [exec_bind, h.exec_pollInputs false]
    dsimp only
    rw [exec_bind, hd]
    dsimp only
    rw [exec_engine_bind, exec_bind, ha]
    dsimp only
    rw [exec_bind, hp]
    dsimp only
    rw [exec_bind, h.exec_pollInputs true]
    rfl
  unfold runCycle
  rw [exec_bind, exec_ensureStarted, if_pos hstarted]
  dsimp only
  rw [exec_tryCatch, exec_bind, hsteps]
  simp only [exec_bind, exec_count, exec_pure]
  rfl

/-- Cycles of an idle engine stop after the first: it does no work. -/
theorem exec_runCycles (h : Idle s) (budget total : Nat) :
    exec (runCycles (budget + 1) total) 0 s = (.ok total, cycled s) := by
  rw [runCycles, exec_bind, h.exec_runCycle]
  rfl

end Idle

/-- A live engine at rest with no command pending is idle. -/
theorem Live.idle {s : Engine Warehouse × Warehouse} (h : Live s)
    (hrest : reorderAt s.1 = s.1.events.length) (hnil : pending s.1 = []) : Idle s :=
  { h.toMembers with
    started := h.started
    dispatched := by
      have hlen := h.length_pending
      rw [hnil, List.length_nil] at hlen
      omega
    applied := h.applierAt
    published := hrest.ge }

/-! ### The live session -/

/-- The warehouse's engine between the calls of a workload run: live, with the reorder output at
the end of the event log and at most one refill pending. -/
structure Resting (s : Engine Warehouse × Warehouse) : Prop extends Live s where
  rest : reorderAt s.1 = s.1.events.length
  refilling : Refilling s.1

namespace Resting

/-- A host's send of a command the warehouse takes, to a resting engine with room in its command
log, goes through: the command joins the log and the pending commands, which are then at most
the command and a refill. -/
theorem send {ss : Session} (h : Resting (ss.engine, ss.warehouse))
    {command : SourceId × PayloadType × String} (hreq : Request command)
    (hroom : ss.engine.outbox.commands.length + 1 < 2 ^ 59) :
    ∃ ss', ss.send command = .ok ss' ∧ Live (ss'.engine, ss'.warehouse) ∧
      reorderAt ss'.engine = ss'.engine.events.length ∧ (pending ss'.engine).length ≤ 2 ∧
      ss'.engine.outbox.commands.length = ss.engine.outbox.commands.length + 1 := by
  obtain ⟨x, pt, text⟩ := command
  obtain ⟨item, hitem, q, hq, hq', hkind, htext⟩ := hreq
  have htakes : ∀ n, Takes ⟨x, n, 0, pt, Bytes.ofString text⟩ := fun n =>
    ⟨item, hitem, q, hq, hq', hkind, by rw [show text = line item q from htext]⟩
  obtain ⟨n, hn, hlive, hpend, hlen⟩ := h.toLive.send htakes hroom
  have hexec : exec (Engine.send x pt (Bytes.ofString text)) 0 (ss.engine, ss.warehouse) =
      (.ok n, ({ ss.engine with
        outbox := (ss.engine.outbox.send ⟨ss.engine.base, 0⟩ x pt (Bytes.ofString text)).2 },
        ss.warehouse)) := by
    rw [exec_send_of_started h.started, hn]
  refine ⟨⟨_, ss.warehouse⟩, ?_, hlive, h.rest, ?_, hlen⟩
  · unfold Session.send
    dsimp only
    rw [Session.call_of_exec hexec]
    rfl
  · show (pending { ss.engine with outbox := _ }).length ≤ 2
    rw [hpend, List.length_append]
    rcases h.refilling with hnil | ⟨r, hr, -⟩
    · rw [hnil]
      simp
    · rw [hr]
      simp

/-- Sending commands the warehouse takes one a cycle keeps the engine resting: after each send
the cycle dispatches the command and any refill pending, and the reorder output sends at most
one refill for the new events. Each command adds at most itself and a refill to the log. -/
theorem sendEach : ∀ (commands : List (SourceId × PayloadType × String)) (ss : Session),
    Resting (ss.engine, ss.warehouse) → (∀ command ∈ commands, Request command) →
    ss.engine.outbox.commands.length + 2 * commands.length + 1 < 2 ^ 59 →
    ∃ ss', ss.sendEach commands = .ok ss' ∧ Resting (ss'.engine, ss'.warehouse) ∧
      ss'.engine.outbox.commands.length ≤
        ss.engine.outbox.commands.length + 2 * commands.length
  | [], ss, h, _, _ => ⟨ss, rfl, h, by simp⟩
  | command :: rest, ss, h, hreq, hroom => by
    rw [List.length_cons] at hroom
    obtain ⟨ss₁, hsend, h₁, hrest₁, hk₁, hlen₁⟩ :=
      h.send (hreq command List.mem_cons_self) (by omega)
    obtain ⟨s₂, hcycle, h₂, hrest₂, hrefilling₂, hlen₂, -⟩ :=
      h₁.exec_runCycle hrest₁ (by dsimp only; omega) (by dsimp only; omega)
    dsimp only at hlen₂
    obtain ⟨ss', hrun, h', hlen'⟩ := sendEach rest ⟨s₂.1, s₂.2⟩ ⟨h₂, hrest₂, hrefilling₂⟩
      (fun c hc => hreq c (List.mem_cons_of_mem _ hc)) (by dsimp only; omega)
    refine ⟨ss', ?_, h', ?_⟩
    · simp only [Session.sendEach, hsend, Session.call_of_exec hcycle, bind, Except.bind]
      exact hrun
    · dsimp only at hlen'
      rw [List.length_cons]
      omega

/-- Settling a resting engine takes one cycle for the pending refill, if any, and one that finds
nothing to do: the engine ends live and at rest with no command pending. -/
theorem settle (ss : Session) (h : Resting (ss.engine, ss.warehouse))
    (hroom : ss.engine.outbox.commands.length + 1 < 2 ^ 59) :
    ∃ ss', ss.settle = .ok ss' ∧ Live (ss'.engine, ss'.warehouse) ∧
      reorderAt ss'.engine = ss'.engine.events.length ∧ pending ss'.engine = [] := by
  have hcycled : ∀ {s : Engine Warehouse × Warehouse}, Live s → Live (Idle.cycled s) :=
    fun h => h.count (fun c => { c with cycles := c.cycles + 1 }) rfl
  obtain ⟨n, s', hexec, h', hrest', hnil'⟩ : ∃ n s',
      exec runUntilIdle 0 (ss.engine, ss.warehouse) = (.ok n, s') ∧ Live s' ∧
        reorderAt s'.1 = s'.1.events.length ∧ pending s'.1 = [] := by
    unfold runUntilIdle
    rw [exec_engine_bind, h.config]
    show ∃ n s', exec (runCycles 10000 0) 0 _ = _ ∧ _
    rcases h.refilling with hnil | ⟨r, hr, hrefill, -⟩
    · -- nothing is pending: the first cycle finds nothing to do
      exact ⟨0, _, (h.idle h.rest hnil).exec_runCycles 9999 0, hcycled h.toLive, h.rest, hnil⟩
    · -- the refill is dispatched, and its event leaves its item at the threshold or above
      obtain ⟨s₁, hcycle, h₁, hrest₁, -, -, hdone⟩ :=
        h.exec_runCycle h.rest (by simp [hr]) hroom
      have hnil₁ := (hdone (by rw [hr]; simpa using hrefill)).1
      refine ⟨3, _, ?_, hcycled h₁, hrest₁, hnil₁⟩
      rw [runCycles, exec_bind, hcycle]
      dsimp only
      rw [hr, if_neg (by simp)]
      exact (h₁.idle hrest₁ hnil₁).exec_runCycles 9998 _
  refine ⟨⟨s'.1, s'.2⟩, ?_, h', hrest', hnil'⟩
  unfold Session.settle
  rw [Session.call_of_exec hexec]
  rfl

end Resting

/-! ### The replaying engine -/

/-- Delivering events to the warehouse's one applier in the mode that admits every event applies
each in turn. -/
theorem deliverAll_warehouse {a : Application Warehouse} (hmode : a.mode = .all)
    (happliers : a.appliers.members = [applier Focus.whole]) :
    ∀ (evs : List Event) (w : Warehouse),
      a.deliverAll evs w = evs.foldl (fun w e => (applier Focus.whole).apply e w) w
  | [], _ => rfl
  | e :: evs, w => by
    rw [Application.deliverAll_cons, hmode, happliers,
      if_pos (show ReplayMode.all.admits e.kind = true from rfl), List.foldl_cons, List.foldl_nil,
      List.foldl_cons]
    exact deliverAll_warehouse hmode happliers evs _

/-- The engine a workload run starts over the logs of a live engine that dispatched every command
replays every event, restores nothing in flight, and comes to the live engine's base state and
warehouse. With every poller at the end of its log, it is idle. -/
theorem Live.replay {s : Engine Warehouse × Warehouse} (h : Live s)
    (hrest : reorderAt s.1 = s.1.events.length) (hnil : pending s.1 = []) :
    ∃ st ss, Session.start {} s.1.outbox.commands s.1.events = .ok (st, ss) ∧
      st.replayedEvents = s.1.events.length ∧ st.inFlightRestored = 0 ∧
      ss.engine.base = s.1.base ∧ ss.warehouse = s.2 ∧
      ss.engine.events.length = s.1.events.length ∧ Idle (ss.engine, ss.warehouse) := by
  obtain ⟨ls, hrun, -⟩ := h.run
  have hc := hrun.consistent h.bound
  obtain ⟨e, hb⟩ : ∃ e, (blueprint {} s.1.outbox.commands s.1.events).build = .ok e := ⟨_, rfl⟩
  obtain ⟨hconfig, hevents, hcommands, hempty, -, htransient, hbase, hmode, hstatus⟩ :=
    Blueprint.build_eq_ok hb
  replace hconfig : e.config = {} := hconfig
  replace hevents : e.events = s.1.events := hevents
  replace hcommands : e.outbox.commands = s.1.outbox.commands := hcommands
  replace hmode : e.application.mode = .all := hmode
  obtain ⟨-, st, s', hstart, hst⟩ :=
    starts_from_prefix hrun h.bound (Nat.zero_le _) hb rfl rfl rfl {} 0
  have hkept := membersKept_start.of_exec hstart
  have houtputs := outputsKept_start.of_exec hstart
  rw [List.drop_zero] at hst
  -- the replay records every event into a fresh base state: the live engine's
  have hbase' : s'.1.base = s.1.base := by
    rw [hst.base, hc.base h.started]
    simp only [Engine.base, hbase]
    rfl
  have hlen : s'.1.events.length = s.1.events.length := by
    simp only [MessageLog.length, hst.messages, hevents]
  -- the dispatcher passed every command, so every watermark covers its source's commands
  have hentries : s'.1.outbox.inFlight.entries = [] := by
    obtain ⟨hrestored, -⟩ := hst.restored hempty (fun x => by rw [htransient]; rfl)
      (by rw [hcommands]; exact hc.readable)
    rw [hrestored, hbase', hcommands, hc.pending_zero h.started]
    have hat : s.1.outbox.commands.readCommands.length ≤ s.1.dispatcherAt := by
      have := h.length_pending
      rw [hnil, List.length_nil, ← MessageLog.length_readCommands hc.readable] at this
      omega
    unfold InFlight.pending
    rw [List.drop_of_length_le hat]
    rfl
  have hworld : s'.2 = s.2 := by
    rw [hst.world, h.log.2.2, deliverAll_warehouse hmode (by cases hb; rfl)]
    congr 1
    exact (MessageLog.readEvents_of_decode
      (by rw [hc.events]; exact decode_map_encode hc.fits)).symm
  have hmembers : Members s'.1 := {
    config := hst.config.trans hconfig
    processors := by rw [hkept.processors]; cases hb; rfl
    appliers := by rw [hst.appliers]; cases hb; rfl
    mode := hst.mode.trans hmode
    publisher := by rw [hkept.publisher]; cases hb; rfl
    inputs := by rw [hkept.inputs]; cases hb; rfl
    extensionInputs := by rw [hkept.extensionInputs]; cases hb; rfl }
  refine ⟨st, ⟨s'.1, s'.2⟩, by unfold Session.start; rw [hb]; exact Session.call_of_exec hstart,
    ?_, ?_, hbase', hworld, hlen, { hmembers with
      started := hst.started
      dispatched := ?_
      applied := by rw [hst.applierAt, hlen]; exact congrArg MessageLog.length hevents
      published := ?_ }⟩
  · rw [hst.replayed, ← hc.length_batches]
  · rw [(start_status hstart).2 hempty, hentries, hstatus]
    rfl
  · -- the replaying engine reads the live command log with the same dispatcher
    show s'.1.outbox.commands.length ≤ s'.1.outbox.commands.position s'.1.config.dispatcherPoller
    rw [hst.commands, hst.config, hcommands, hconfig, ← h.config]
    have := h.length_pending
    rw [hnil, List.length_nil] at this
    show s.1.outbox.commands.length ≤ s.1.dispatcherAt
    omega
  · -- starting moves the applier's poller only, and the reorder output's stays at the end
    show s'.1.events.length ≤ s'.1.events.position reorderSlot.poller
    rw [houtputs.positions reorderSlot.poller (by cases hb; simp [Publisher.pollers]; rfl)
      (by rw [hconfig]; decide), hlen, hevents]
    exact hrest.ge

/-- Settling an idle engine runs one cycle, which finds nothing to do. -/
theorem Idle.settle {ss : Session} (h : Idle (ss.engine, ss.warehouse)) :
    ss.settle = .ok ⟨(Idle.cycled (ss.engine, ss.warehouse)).1, ss.warehouse⟩ := by
  have hexec : exec runUntilIdle 0 (ss.engine, ss.warehouse) =
      (.ok 0, Idle.cycled (ss.engine, ss.warehouse)) := by
    unfold runUntilIdle
    rw [exec_engine_bind, h.config]
    exact h.exec_runCycles 9999 0
  unfold Session.settle
  rw [Session.call_of_exec hexec]
  rfl

/-! ### The replay check -/

/-- Every level of a live engine's warehouse is at or above zero. -/
theorem Live.stock_nonneg {s : Engine Warehouse × Warehouse} (h : Live s) :
    ∀ entry ∈ s.2.stock, 0 ≤ entry.2 := fun entry hentry =>
  Int64.le_iff_toInt_le.2 (h.stocked entry hentry).1

/-- The commands of a live engine at rest with none pending were all dispatched and counted. -/
theorem Live.dispatched_eq_length {s : Engine Warehouse × Warehouse} (h : Live s)
    (hnil : pending s.1 = []) : s.1.counters.commandsDispatched = s.1.outbox.commands.length := by
  have hlen := h.length_pending
  rw [hnil, List.length_nil] at hlen
  have := h.passed
  rw [h.dispatched]
  omega

/-- What a workload run's summary has to say for its replay check to pass: the replaying engine
reached the live stock and last event, appended nothing, replayed every logged event and
restored nothing in flight; the live engine dispatched every logged command; and no level is
below zero. -/
def RunSummary.Passes (r : RunSummary) : Prop :=
  r.replay.stateMatches = true ∧ r.replay.eventsAppended = 0 ∧
    r.replay.status.replayedEvents = r.eventsLogged ∧ r.replay.status.inFlightRestored = 0 ∧
    r.counters.commandsDispatched = r.commandsLogged ∧ ∀ entry ∈ r.stock, 0 ≤ entry.2

instance (r : RunSummary) : Decidable r.Passes := by
  unfold RunSummary.Passes
  infer_instance

/-- A workload run of orders and restocks of 1 to 10 of the warehouse's items, with the default
settings, passes its replay check. The bound on the number of commands keeps every level and
sequence within its word: each command adds at most ten to a level, and itself and a refill to
the command log. -/
theorem runCommands_passes_replay_check {commands : List (SourceId × PayloadType × String)}
    (hrequests : ∀ command ∈ commands, Request command) (hlength : commands.length < 2 ^ 58) :
    ∃ summary, runCommands {} commands = .ok summary ∧ summary.Passes := by
  obtain ⟨st₀, live₀, hstart₀, hlive₀, hrest₀, hlen₀⟩ := start_live
  have hnil₀ : pending live₀.engine = [] := by
    have hk := hlive₀.length_pending
    dsimp only at hk
    rw [hlen₀, Nat.zero_sub] at hk
    exact List.eq_nil_of_length_eq_zero hk
  obtain ⟨live₁, hsend, hresting₁, hlen₁⟩ :=
    Resting.sendEach commands live₀ ⟨hlive₀, hrest₀, .inl hnil₀⟩ hrequests (by omega)
  obtain ⟨live₂, hsettle, hlive₂, hrest₂, hnil₂⟩ := Resting.settle live₁ hresting₁ (by omega)
  obtain ⟨st, replayed, hstart, hreplayed, hrestored, hbase, hworld, hlen, hidle⟩ :=
    hlive₂.replay hrest₂ hnil₂
  dsimp only at hstart hreplayed hbase hworld hlen
  -- the run's summary is computed from the sessions each step leaves
  refine ⟨?_, ?_, ?_⟩
  on_goal 2 =>
    simp only [runCommands, hstart₀, hsend, hsettle, hstart, hidle.settle, bind, Except.bind,
      pure, Except.pure]
    rfl
  unfold RunSummary.Passes
  refine ⟨?_, ?_, ?_, ?_, ?_, ?_⟩
  · -- the replaying engine's stock and base state are the live engine's
    show (replayed.warehouse.stock == live₂.warehouse.stock &&
      replayed.engine.base.lastEvent == live₂.engine.base.lastEvent) = true
    rw [hworld, hbase]
    simp
  · show (Idle.cycled (replayed.engine, replayed.warehouse)).1.events.length -
      live₂.engine.events.length = 0
    rw [show (Idle.cycled (replayed.engine, replayed.warehouse)).1.events = replayed.engine.events
      from rfl, hlen, Nat.sub_self]
  · exact hreplayed
  · exact hrestored
  · exact hlive₂.dispatched_eq_length hnil₂
  · exact hlive₂.stock_nonneg

/-- A run of one order of one bolt passes its replay check. -/
theorem runCommands_passes_replay_check_of_one_order :
    (∀ command ∈ [((1 : SourceId), order, "bolt:1")], Request command) ∧
      [((1 : SourceId), order, "bolt:1")].length < 2 ^ 58 ∧
      ∃ summary, runCommands {} [((1 : SourceId), order, "bolt:1")] = .ok summary ∧
        summary.Passes := by
  have hreq : ∀ command ∈ [((1 : SourceId), order, "bolt:1")], Request command := by
    intro command hcommand
    rw [List.mem_singleton.1 hcommand]
    exact ⟨"bolt", by decide, 1, by decide, by decide, .inl rfl, rfl⟩
  exact ⟨hreq, by decide, runCommands_passes_replay_check hreq (by decide)⟩

end Inventory

end EventSourcing
