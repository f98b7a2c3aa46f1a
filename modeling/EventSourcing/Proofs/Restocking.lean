import Mathlib
import EventSourcing.Proofs.Resume
import EventSourcing.Proofs.Stock

/-!
# The warehouse engine comes to rest

The live engine of a workload run, computed call by call. Between its calls the engine is
`Live`: it stays on a run over its two logs, its settings and members are the ones it was built
with, every logged command is an order or a restock of 1 to 10 of an item, one above the highest
earlier sequence of its source, every event is a stock event of an item at a level at or above
zero (or a rollback), the warehouse is what the events make of an empty one, and the dispatcher
has processed, and counted, every command it passed.

A round processes one command into one event (`Live.exec_round`, `Round.live`). Once the pending
commands are processed, publishing offers each new event to the reorder output, which sends at
most one refill: after the first, a command of the loopback source is in flight. So a cycle that
starts with no more than one refill and one command of the host pending ends with no more than one
refill pending, and the refill's own event leaves its item at ten or more, so that settling takes
two cycles at most.
-/

namespace EventSourcing

namespace MessageLog

variable (log : MessageLog) (p : String) (n : Nat)

/-- A poller at the end of a log reads the next message appended. -/
theorem peek?_push_of_end (h : log.position p = log.length) (b : Bytes) :
    { log with messages := log.messages.push b }.peek? p = some ⟨log.length, b⟩ := by
  rw [peek?_eq_some]
  refine ⟨h.symm, ?_⟩
  show (log.messages.push b).toList[log.position p]? = some b
  rw [h, Array.toList_push, List.getElem?_append_right (by simp [length])]
  simp [length]

/-- The commands of a log are read off its records alone. -/
theorem readCommands_congr {log log' : MessageLog} (h : log'.messages = log.messages) :
    log'.readCommands = log.readCommands := by
  unfold readCommands
  rw [h]

end MessageLog

namespace Warehouse

/-- A command the warehouse takes has a payload that a record holds whole. -/
theorem Takes.payload_length {c : Command} (h : Takes c) : c.payload.length < 4294967296 := by
  obtain ⟨item, hitem, q, -, hq, -, hpayload⟩ := h
  have hdigits : (toString q).length ≤ 19 := Nat.repr_length _ 19 (by decide) (by omega)
  have hchars : (line item q).length ≤ 26 := by
    simp only [line, String.length_append]
    have := length_item hitem
    have : (":" : String).length = 1 := rfl
    omega
  have := Bytes.length_ofString (line item q)
  rw [hpayload]
  omega

/-- The record of a command the warehouse takes reads back as the command. -/
theorem Takes.decode_encode {c : Command} (h : Takes c) : Command.decode c.encode = .ok c := by
  rw [Command.decode_encode, Nat.mod_eq_of_lt h.payload_length, List.take_length]


/-- The reorder output ignores a live event the warehouse wrote unless the event leaves its item
short while nothing of the loopback source is in flight. -/
theorem publish_posted_quiet {e : Event} (hposted : Posted e) {ctx : OutputContext}
    (hreplay : ctx.replay = false) (w : Warehouse) (o : Outbox)
    (hquiet : ¬(Short 3 e ∧ o.inFlight.holds ctx.loopbackSource = false)) :
    (reorder Inventory.reorderThreshold Inventory.reorderBatch).publish e ctx w o = (.ok .ignored, w, o) := by
  by_cases htype : e.payloadType = stockType
  · obtain ⟨item, hitem, l, hl, hpayload⟩ := hposted htype
    rw [publish_stock hitem hl htype hpayload hreplay, if_pos]
    by_contra hbelow
    rw [not_or, Bool.not_eq_true] at hbelow
    exact hquiet ⟨⟨htype, item, hitem, l, hl, Int64.not_le.1 hbelow.1, hpayload⟩, hbelow.2⟩
  · exact publish_other htype

/-- The reorder output sends a refill of the item of a live event that leaves it short, when
nothing of the loopback source is in flight. -/
theorem publish_posted_short {e : Event} (hshort : Short 3 e) {ctx : OutputContext}
    (hreplay : ctx.replay = false) (w : Warehouse) {o : Outbox}
    (hfree : o.inFlight.holds ctx.loopbackSource = false) :
    ∃ item ∈ items, (reorder Inventory.reorderThreshold Inventory.reorderBatch).publish e ctx w o =
      match ctx.loopback o restock (Bytes.ofString (line item (10 : Nat))) with
      | (.ok _, o') => (.ok .committed, w, o')
      | (.error err, o') => (.error err.failure, w, o') := by
  obtain ⟨htype, item, hitem, l, hl, hlow, hpayload⟩ := hshort
  refine ⟨item, hitem, ?_⟩
  rw [publish_stock hitem hl htype hpayload hreplay, if_neg]
  · rfl
  · rw [not_or, Bool.not_eq_true]
    exact ⟨Int64.not_le.2 hlow, hfree⟩

end Warehouse

namespace Outbox

/-- A send of a payload a record holds, into a command log that takes every append, goes
through. -/
theorem send_fst_of_open {o : Outbox} (hcapacity : o.commands.capacity = none)
    (hfault : o.commands.fault = none) (ctx : SendContext) (x : SourceId) (pt : PayloadType)
    {payload : Bytes} (hshort : payload.length < 4294967296) :
    ∃ q, (o.send ctx x pt payload).1 = .ok q := by
  unfold send
  simp [MessageLog.append, MessageLog.failing, MessageLog.fits, hcapacity, hfault,
    Nat.not_le.2 hshort]

end Outbox

namespace Engine

variable {W : Type} {now : Timestamp} {s : Engine W × W}

/-- Processing a command whose chain of processors goes through and whose batch the event log
takes appends the batch and notes its last event as seen, with the application's state the chain
left. -/
theorem exec_process_of_appended {c : Command} {w : W} {r : Router} {i : Nat}
    {events : MessageLog}
    (hchain : Processor.runAll c s.1.base s.1.processors.members s.2 (Router.begin c) =
      (.ok (), w, r))
    (happend : s.1.events.appendBatch
      ((r.finish (s.1.events.length + 1).toUInt64 now).2.map Event.encode) = (.ok i, events)) :
    exec (process c) now s =
      (.ok (r.finish (s.1.events.length + 1).toUInt64 now).1,
        ({ s.1 with
            events := events
            outbox := { s.1.outbox with
              transient := s.1.outbox.transient.noteEvent ((s.1.events.length + 1).toUInt64 +
                (r.finish (s.1.events.length + 1).toUInt64 now).1.eventCount.toUInt64 - 1) now } },
          w)) := by
  unfold process
  rw [exec_engine_bind, exec_bind, exec_world]
  dsimp only
  rw [hchain]
  simp only [exec_bind, exec_modifyWorld, reportHalt, exec_pure, exec_read, Router.close_ok]
  rw [happend]
  simp only [exec_lift_ok, exec_modifyEngine]

/-- What scanning the command log keeps of the start status: where the replay ended, and the
count of commands restored as in flight, which grows with the tracker. -/
def Scanned (s s' : Engine W × W) : Prop :=
  s'.1.status.replayEnd = s.1.status.replayEnd ∧
    s'.1.status.inFlightRestored + s.1.outbox.inFlight.entries.length =
      s.1.status.inFlightRestored + s'.1.outbox.inFlight.entries.length

namespace Scanned

theorem refl (s : Engine W × W) : Scanned s s := ⟨rfl, rfl⟩

theorem trans {s₁ s₂ s₃ : Engine W × W} (h : Scanned s₁ s₂) (h' : Scanned s₂ s₃) :
    Scanned s₁ s₃ :=
  ⟨h'.1.trans h.1, by have := h.2; have := h'.2; omega⟩

instance : Std.Refl (Scanned (W := W)) := ⟨refl⟩

instance : Trans (Scanned (W := W)) Scanned Scanned := ⟨trans⟩

end Scanned

/-- A restored command adds one entry to the tracker and counts one; noting it as seen keeps
the status. -/
theorem scanned_scanCommand (i : Nat) : Relates Scanned (scanCommand i : EngineM W Unit) :=
  .scanCommand
    (fun _ _ => ⟨rfl, by
      simp only [InFlight.entries_send, List.length_append, List.length_singleton]
      omega⟩)
    (fun _ _ => ⟨rfl, rfl⟩) i

theorem scanned_scanCommands : Relates Scanned (scanCommands : EngineM W Unit) :=
  .bind .engine fun _ => .bind (Relates.forM scanned_scanCommand _) fun _ =>
    .modifyEngine _ fun s => .refl s

/-- A start that went through ended the replay at the length of the event log, and, from nothing
in flight, counted as restored exactly the commands it put in flight. -/
theorem start_status {st : EngineStatus} {s' : Engine W × W}
    (h : exec start now s = (.ok st, s')) :
    st.replayEnd = s.1.events.length ∧ (s.1.outbox.inFlight.entries = [] →
      st.inFlightRestored = s.1.status.inFlightRestored + s'.1.outbox.inFlight.entries.length) := by
  obtain ⟨k, s₂, s₃, -, -, hr, hscan, rfl, rfl⟩ := start_eq_ok h
  obtain ⟨evs', -, hreplay, -⟩ := replayed_applyUpTo _ hr
  have hscanned := scanned_scanCommands.of_exec hscan
  -- the replay keeps the status, and acknowledges nothing when nothing is in flight
  have hstatus : s₂.1.status = s.1.status := hreplay.fixed.status
  have hlen : s₂.1.events.length = s.1.events.length := by
    simp [MessageLog.length, hreplay.messages]
  refine ⟨by simpa [hlen] using hscanned.1, fun hempty => ?_⟩
  have hinflight : s₂.1.outbox.inFlight = s.1.outbox.inFlight :=
    hreplay.inFlight_of_entries_nil hempty
  have hcount := hscanned.2
  simp only [hinflight, hempty, hstatus, List.length_nil, Nat.add_zero] at hcount
  simpa using hcount

/-- Moves keep a life free of commands appended from outside. -/
theorem Moves.latestLife {s s' : Engine W × W} {ls ls' : List Label} (h : Moves now s ls' s')
    (hlife : ∀ c, Label.appended c ∉ Label.latestLife ls) (c : Command) :
    Label.appended c ∉ Label.latestLife (ls ++ ls') := by
  rw [Label.latestLife_append h.not_isStart, List.mem_append, not_or]
  exact ⟨hlife c, h.not_appended c⟩

end Engine

namespace Inventory

open Engine Warehouse

/-- A call of a session that goes through, as a run of the engine's call. -/
theorem Session.call_of_exec {α : Type} {ss : Session} {m : EngineM Warehouse α} {a : α}
    {s' : Engine Warehouse × Warehouse} (h : exec m 0 (ss.engine, ss.warehouse) = (.ok a, s')) :
    ss.call m = .ok (a, ⟨s'.1, s'.2⟩) := by
  unfold Session.call
  rw [show ((m.run).run 0).run (ss.engine, ss.warehouse) = exec m 0 (ss.engine, ss.warehouse) from
    rfl, h]
  rfl

/-- The reorder output's slot, at rest. -/
def reorderSlot : OutputSlot Warehouse :=
  { output := reorder reorderThreshold reorderBatch, poller := "output:reorder" }

/-- The position of the reorder output's poller in the event log. -/
def reorderAt (e : Engine Warehouse) : Nat := e.events.position reorderSlot.poller

/-- The events `evs`, in log order, are ones the warehouse writes, each fitting a record and
numbered from one. -/
def Logged (evs : List Event) : Prop :=
  ∀ i e, evs[i]? = some e →
    Posted e ∧ e.payload.length ≤ Router.maxPayload ∧ e.sequence = (i + 1).toUInt64

theorem Logged.concat {evs : List Event} (h : Logged evs) {e : Event} (hposted : Posted e)
    (hfit : e.payload.length ≤ Router.maxPayload) (hseq : e.sequence = (evs.length + 1).toUInt64) :
    Logged (evs ++ [e]) := by
  intro i e' hi
  rcases Nat.lt_or_ge i evs.length with hlt | hge
  · rw [List.getElem?_append_left hlt] at hi
    exact h i e' hi
  · rw [List.getElem?_append_right hge, List.getElem?_singleton] at hi
    split at hi
    · cases hi
      rename_i hzero
      exact ⟨hposted, hfit, by rw [hseq]; congr 2; omega⟩
    · cases hi

/-- The members of the warehouse's engine as a session builds it: the default settings, the
warehouse's processor and applier, the reorder output, and no inputs. -/
structure Members (e : Engine Warehouse) : Prop where
  config : e.config = {}
  processors : e.processors.members = [processor Focus.whole]
  appliers : e.application.appliers.members = [applier Focus.whole]
  mode : e.application.mode = .all
  publisher : e.publisher = ⟨[reorderSlot], 3, 2147483647⟩
  inputs : e.inputs.members = []
  extensionInputs : e.extensionInputs.members = []

/-- The warehouse's engine as the calls of a live session leave it: built by the session over
logs that take every append, and started on empty logs, so that its replay ended at once. -/
structure Built (s : Engine Warehouse × Warehouse) : Prop extends Members s.1 where
  eventLog : s.1.events.capacity = none ∧ s.1.events.batching = .whole ∧ s.1.events.fault = none
  commandLog : s.1.outbox.commands.capacity = none ∧ s.1.outbox.commands.fault = none
  replayEnd : s.1.status.replayEnd = 0

/-- The warehouse's engine between the calls of a live session. It is started on a run over its
logs with nothing appended from outside; the event log holds events the warehouse writes, one
for each command the dispatcher passed, and the warehouse is what they make of an empty one, with
levels of ten for each event at most; every logged command is one the warehouse takes, one above
the highest earlier sequence of its source; every command passed was processed and counted; and
the command log has room to grow. -/
structure Live (s : Engine Warehouse × Warehouse) : Prop extends Built s where
  run : ∃ ls, Engine.Run "dispatcher" ls s ∧ ∀ c, Label.appended c ∉ Label.latestLife ls
  started : Started s
  log : s.1.events.messages.toList = s.1.events.readEvents.map Event.encode ∧
    Logged s.1.events.readEvents ∧
    s.2 = s.1.events.readEvents.foldl (fun w e => (applier Focus.whole).apply e w) {}
  stocked : Stocked (10 * s.1.events.length) s.2
  oneEach : s.1.events.length = s.1.dispatcherAt
  takes : ∀ c ∈ s.1.outbox.commands.readCommands, Takes c
  above : ∀ i c, s.1.outbox.commands.readCommands[i]? = some c →
    c.sequence.toNat =
      (Command.highest (s.1.outbox.commands.readCommands.take i) c.source).toNat + 1
  small : ∀ c ∈ s.1.outbox.commands.readCommands, c.sequence.toNat ≤ s.1.outbox.commands.length
  dispatched : s.1.counters.commandsDispatched = s.1.dispatcherAt
  passed : s.1.dispatcherAt ≤ s.1.outbox.commands.length
  room : s.1.outbox.commands.length < 2 ^ 59

/-- The warehouse's engine over two empty logs starts live, with an empty warehouse and the
reorder output at the end of the event log. -/
theorem start_live : ∃ st live, Session.start {} {} {} = .ok (st, live) ∧
    Live (live.engine, live.warehouse) ∧ reorderAt live.engine = live.engine.events.length ∧
    live.engine.outbox.commands.length = 0 := by
  obtain ⟨e, hb⟩ : ∃ e, (blueprint {} {} {}).build = .ok e := ⟨_, rfl⟩
  obtain ⟨hconfig, hevents, hcommands, hempty, -, -, hbase, hmode, hstatus⟩ :=
    Blueprint.build_eq_ok hb
  have hcounters := Blueprint.build_counters hb
  obtain ⟨st, hstart, hstarted⟩ := @exec_start_of_empty Warehouse 0 (e, {})
    (by simp [hstatus]) (by rw [hevents]; rfl) (by rw [hcommands]; rfl)
    (by simp [Engine.base, hbase]; rfl)
  refine ⟨st, _, by unfold Session.start; rw [hb]; exact Session.call_of_exec hstart, ?_⟩
  have hrun : Engine.Run "dispatcher" ([] ++ startLabels e.application.mode []) _ :=
    .start 0 (.build {} hb rfl rfl rfl rfl rfl rfl) hstart (by simp [hevents, blueprint])
  -- the logs are empty, and every member is the blueprint's
  have hmessages : e.events.messages = #[] := by rw [hevents]; rfl
  have hcommands' : e.outbox.commands = {} := hcommands
  have hreplayEnd := (start_status hstart).1
  refine ⟨{
    config := hconfig
    processors := by cases hb; rfl
    appliers := by cases hb; rfl
    mode := hmode
    publisher := by cases hb; rfl
    inputs := by cases hb; rfl
    extensionInputs := by cases hb; rfl
    replayEnd := by simp [hreplayEnd, MessageLog.length, hmessages]
    eventLog := by simp [hevents, blueprint]
    commandLog := by simp [hcommands']
    run := ⟨_, hrun, fun c hc => by simp [startLabels, Label.latestLife, Label.isStart] at hc⟩
    started := hstarted
    log := by
      have hread : (e.events.setPosition e.config.applierPoller 0).readEvents = [] := by
        simp [MessageLog.readEvents, MessageLog.messages_setPosition, hmessages]
      refine ⟨?_, ?_, ?_⟩ <;> dsimp only <;> rw [hread]
      · simp [MessageLog.messages_setPosition, hmessages]
      · exact fun i ev h => by simp at h
      · rfl
    stocked := stocked_empty _
    oneEach := by simp [MessageLog.length, hmessages, dispatcherAt, hcommands', MessageLog.position]
    takes := by simp [hcommands', MessageLog.readCommands]
    above := by simp [hcommands', MessageLog.readCommands]
    small := by simp [hcommands', MessageLog.readCommands]
    dispatched := by simp [hcounters, dispatcherAt, hcommands', MessageLog.position]
    passed := by simp [dispatcherAt, hcommands', MessageLog.position]
    room := by simp [hcommands', MessageLog.length] }, ?_, ?_⟩
  · simp [reorderAt, hevents, hconfig, blueprint, reorderSlot, MessageLog.setPosition,
      MessageLog.position, MessageLog.length]
  · simp [hcommands', MessageLog.length]

theorem order_of_toNat {last : UInt64} {n : Nat} (hlast : last.toNat = n)
    (hn : n + 1 < UInt64.size) : Application.order last (n + 1).toUInt64 = .ok () := by
  have hfits : last.toNat + 1 < UInt64.size := hlast ▸ hn
  have hnext : (n + 1).toUInt64 = last + 1 := by
    apply UInt64.toNat_inj.1
    rw [toNat_add_one_of_fits hfits, hlast, Nat.toUInt64, UInt64.toNat_ofNat', Nat.mod_eq_of_lt hn]
  rw [Application.order_eq_ok, hnext]
  exact ⟨lt_add_one_of_fits hfits, rfl⟩

namespace Live

variable {s : Engine Warehouse × Warehouse}

theorem bound (h : Live s) : s.1.events.length ≤ unbounded := by
  have hpassed := h.passed
  have hroom := h.room
  rw [h.oneEach]
  unfold unbounded
  omega

theorem consistent (h : Live s) : ∃ ls, Consistent "dispatcher" ls s := by
  obtain ⟨ls, hrun, -⟩ := h.run
  exact ⟨ls, hrun.consistent h.bound⟩

theorem tracks (h : Live s) : s.1.outbox.Tracks s.1.base.lastCommand s.1.dispatcherAt := by
  obtain ⟨ls, hrun, hlife⟩ := h.run
  refine hrun.tracks h.started h.bound hlife fun c hc => ?_
  have hsmall := h.small c hc
  have hroom := h.room
  simp only [UInt64.size]
  omega

/-- The base state of a live engine is at its last event. -/
theorem lastEvent (h : Live s) : s.1.base.lastEvent.toNat = s.1.events.length := by
  obtain ⟨ls, hc⟩ := h.consistent
  have htake := hc.lastEvent_recordAll_take h.bound (le_refl _)
  rwa [List.take_of_length_le (by rw [hc.length_batches]), ← hc.base h.started] at htake

theorem applierAt (h : Live s) : s.1.applierAt = s.1.events.length := by
  obtain ⟨ls, hc⟩ := h.consistent
  exact hc.applied h.started

/-- The dispatcher of a live engine short of the end of its log reads a logged command. -/
theorem peek (h : Live s) (hpending : s.1.dispatcherAt < s.1.outbox.commands.length) :
    ∃ m c, s.1.outbox.commands.peek? s.1.config.dispatcherPoller = some m ∧
      Command.decode m.bytes = .ok c ∧
      s.1.outbox.commands.readCommands[s.1.dispatcherAt]? = some c := by
  obtain ⟨ls, hc⟩ := h.consistent
  cases hm : s.1.outbox.commands.peek? s.1.config.dispatcherPoller with
  | none => exact absurd (MessageLog.peek?_eq_none.1 hm) (Nat.not_le.2 hpending)
  | some m =>
    have hbytes := (MessageLog.peek?_eq_some.1 hm).2
    obtain ⟨c, hdecode⟩ := hc.readable m.bytes (List.mem_of_getElem? hbytes)
    exact ⟨m, c, rfl, hdecode, MessageLog.getElem?_readCommands hc.readable hbytes hdecode⟩

section Pending

variable {c : Command} (h : Live s) (hc : s.1.outbox.commands.readCommands[s.1.dispatcherAt]? = some c)
include h hc

/-- The command at the dispatcher's poller is above every earlier one of its source. -/
theorem highest_lt : Command.highest (s.1.outbox.commands.readCommands.take s.1.dispatcherAt)
    c.source < c.sequence := by
  have habove := h.above _ _ hc
  rw [UInt64.lt_iff_toNat_lt]
  omega

/-- The command at the dispatcher's poller is above its source's watermark. -/
theorem lastCommand_lt : s.1.base.lastCommand c.source < c.sequence := by
  obtain ⟨ls, hcons⟩ := h.consistent
  rw [hcons.lastCommand_eq h.started]
  exact h.highest_lt hc

/-- The command at the dispatcher's poller is the oldest in flight. -/
theorem entries_eq : s.1.outbox.inFlight.entries = c.entry :: InFlight.pending
    s.1.base.lastCommand s.1.outbox.commands.readCommands (s.1.dispatcherAt + 1) := by
  rw [h.tracks.inFlight, InFlight.pending_eq_of_getElem? _ hc,
    if_pos ⟨h.lastCommand_lt hc, h.highest_lt hc⟩]
  rfl

end Pending

end Live


/-- The commands of the log that the dispatcher has still to take. -/
def pending (e : Engine Warehouse) : List Command :=
  e.outbox.commands.readCommands.drop e.dispatcherAt

/-- The pending commands of a live engine are those from the dispatcher's poller to the end of
the log. -/
theorem Live.length_pending {s : Engine Warehouse × Warehouse} (h : Live s) :
    (pending s.1).length = s.1.outbox.commands.length - s.1.dispatcherAt := by
  obtain ⟨ls, hc⟩ := h.consistent
  rw [pending, List.length_drop, MessageLog.length_readCommands hc.readable]

/-- What a round of the warehouse's engine that took the command `c` into the event `e` did:
the dispatcher's poller moved past the command, the event was appended and applied at once, the
dispatch was counted, and nothing else changed that the engine's life depends on. -/
structure Round (s : Engine Warehouse × Warehouse) (c : Command) (e : Event)
    (s' : Engine Warehouse × Warehouse) : Prop where
  peek : ∃ m, s.1.outbox.commands.peek? s.1.config.dispatcherPoller = some m ∧
    Command.decode m.bytes = .ok c
  command : s.1.outbox.commands.readCommands[s.1.dispatcherAt]? = some c
  fixed : Fixed s s'
  appliers : s'.1.application.appliers = s.1.application.appliers
  mode : s'.1.application.mode = s.1.application.mode
  publisher : s'.1.publisher = s.1.publisher
  events : s'.1.events = ({ s.1.events with messages := s.1.events.messages.push e.encode }).setPosition
    s.1.config.applierPoller (s.1.events.length + 1)
  commands : s'.1.outbox.commands =
    s.1.outbox.commands.setPosition s.1.config.dispatcherPoller (s.1.dispatcherAt + 1)
  counted : s'.1.counters.commandsDispatched = s.1.counters.commandsDispatched + 1
  world : s'.2 = (applier Focus.whole).apply e s.2
  sequence : e.sequence = (s.1.events.length + 1).toUInt64
  fits : e.payload.length ≤ Router.maxPayload
  posted : Posted e
  stocked : Stocked (10 * s.1.events.length + 10) s'.2
  refill : Refill c → ¬Short 3 e

namespace Live

variable {s : Engine Warehouse × Warehouse}

/-- A round of a live engine with a command pending takes the command, seals its transaction to
one event and applies the event at once. -/
theorem exec_round (h : Live s) (hpending : s.1.dispatcherAt < s.1.outbox.commands.length) :
    ∃ c e s', exec dispatchRound 0 s = (.ok (some 2), s') ∧ Round s c e s' := by
  obtain ⟨m, c, hpeek, hdecode, hcmd⟩ := h.peek hpending
  obtain ⟨r, e, hprocess, hbatch, hcount, hseq, hsrc, hsseq, hterm, hfit, hposted, hstocked,
    hrefill⟩ := transaction_takes (h.takes c (List.mem_of_getElem? hcmd)) h.stocked
      (by positivity) (by have := h.room; have := h.passed; have := h.oneEach; omega) s.1.base
      (s.1.events.length + 1).toUInt64 0
  -- the chain of the one processor goes through, and the log takes the one event
  have hchain : Processor.runAll c s.1.base s.1.processors.members s.2 (Router.begin c) =
      (.ok (), s.2, r) := by
    rw [h.processors, Processor.runAll, if_neg (by simp [Router.begin]), hprocess]
    rfl
  have happend : s.1.events.appendBatch
      ((r.finish (s.1.events.length + 1).toUInt64 0).2.map Event.encode) =
      (.ok s.1.events.length, { s.1.events with messages := s.1.events.messages.push e.encode }) := by
    rw [hbatch, MessageLog.appendBatch_of_fits h.eventLog.2.1
      (by simp [MessageLog.failing, h.eventLog.2.2]) (by simp [MessageLog.fits, h.eventLog.1])]
    simp
  have hproc := @exec_process_of_appended Warehouse 0
    ({ s.1 with outbox := { s.1.outbox with
      transient := s.1.outbox.transient.noteCommand c.source c.sequence } }, s.2) c s.2 r _ _
    hchain happend
  -- the applier finds the event at its poller, in order, and the command oldest in flight
  have hat : s.1.events.position s.1.config.applierPoller = s.1.events.length := h.applierAt
  have hpeek' := MessageLog.peek?_push_of_end _ _ hat e.encode
  have hdecode' : Event.decode e.encode = .ok e :=
    Event.decode_encode e (Nat.lt_of_le_of_lt hfit (by decide))
  have hcheck : s.1.outbox.inFlight.check e.source e.sourceSequence e.kind = .ok true := by
    simp [InFlight.check, InFlight.holds, h.entries_eq hcmd, hterm, hsrc, hsseq, Command.entry]
  have horder : Application.order s.1.base.lastEvent e.sequence = .ok () := by
    have hroom := h.room
    have hpassed := h.passed
    have hone := h.oneEach
    rw [hseq]
    exact order_of_toNat h.lastEvent (by simp only [UInt64.size]; omega)
  refine ⟨c, e, ?s', ?round, ?_⟩
  case round =>
    unfold dispatchRound
    rw [exec_bind, exec_dispatchNext_of_new hpeek hdecode (h.lastCommand_lt hcmd), hproc]
    dsimp only
    rw [MessageLog.advance_of_peek? hpeek]
    dsimp only
    rw [exec_bind, exec_count, exec_bind, exec_apply_of_started (by exact h.started)]
    dsimp only
    rw [show unbounded = 18446744073709551614 + 1 from rfl, applyUpTo.eq_2, exec_bind,
      exec_applyNext_of_accepted (by exact hpeek') (by exact hdecode') (by exact hcheck)
        (by exact horder)]
    dsimp only
    rw [if_pos rfl, exec_bind, exec_applyUpTo_of_caughtUp
      (by
        unfold Engine.applierAt
        simp only [MessageLog.position_setPosition, MessageLog.length_setPosition]
        simp [MessageLog.length])]
    rfl
  have hworld : (if s.1.application.mode.admits e.kind then
      s.1.application.appliers.members.foldl (fun w ap => ap.apply e w) s.2 else s.2) =
      (applier Focus.whole).apply e s.2 := by
    rw [h.mode, h.appliers]
    rfl
  exact {
    peek := ⟨m, hpeek, hdecode⟩
    command := hcmd
    fixed := ⟨rfl, rfl, rfl, rfl, rfl, rfl⟩
    appliers := rfl
    mode := rfl
    publisher := rfl
    events := rfl
    commands := rfl
    counted := rfl
    world := hworld
    sequence := hseq
    fits := hfit
    posted := hposted
    stocked := hworld ▸ hstocked
    refill := hrefill }

end Live

namespace Round

variable {s s' : Engine Warehouse × Warehouse} {c : Command} {e : Event}

theorem length (hr : Round s c e s') : s'.1.events.length = s.1.events.length + 1 := by
  rw [hr.events, MessageLog.length_setPosition]
  simp [MessageLog.length]

theorem dispatcherAt (hr : Round s c e s') : s'.1.dispatcherAt = s.1.dispatcherAt + 1 := by
  simp only [Engine.dispatcherAt, hr.commands, hr.fixed.config, MessageLog.position_setPosition]

theorem readCommands (hr : Round s c e s') :
    s'.1.outbox.commands.readCommands = s.1.outbox.commands.readCommands :=
  MessageLog.readCommands_congr (by rw [hr.commands, MessageLog.messages_setPosition])

theorem commands_length (hr : Round s c e s') :
    s'.1.outbox.commands.length = s.1.outbox.commands.length := by
  rw [hr.commands, MessageLog.length_setPosition]

/-- A round moves the applier's poller alone in the event log. -/
theorem reorderAt (hr : Round s c e s') (hconfig : s.1.config = {}) :
    reorderAt s'.1 = reorderAt s.1 := by
  unfold Inventory.reorderAt
  rw [hr.events, hconfig, MessageLog.position_setPosition_of_ne _ _ (by decide)]
  rfl

/-- The event log after a round holds the event after those before. -/
theorem messages (hr : Round s c e s') :
    s'.1.events.messages.toList = s.1.events.messages.toList ++ [e.encode] := by
  rw [hr.events, MessageLog.messages_setPosition]
  simp

/-- The events of the log after a round are those before and the round's event. -/
theorem readEvents (hr : Round s c e s') :
    s'.1.events.readEvents = s.1.events.readEvents ++ [e] :=
  MessageLog.readEvents_of_appended (by rw [hr.messages]; simp) (by simpa using hr.fits)

/-- A round keeps a live engine live. -/
theorem live (h : Live s) (hround : exec dispatchRound 0 s = (.ok (some 2), s'))
    (hr : Round s c e s') : Live s' := by
  obtain ⟨m, hpeek, hdecode⟩ := hr.peek
  obtain ⟨ls, hrun, hlife⟩ := h.run
  obtain ⟨hmessages, hlogged, hworld⟩ := h.log
  have hread := hr.readEvents
  have hmoves := Moves.single (Move.dispatched hpeek hdecode hround)
  have hlen := hr.length
  have hat := hr.dispatcherAt
  have hcs := hr.readCommands
  have hclen := hr.commands_length
  -- the command taken was in the log, so the dispatcher passes no more than the log
  have hpending : s.1.dispatcherAt < s.1.outbox.commands.length := by
    obtain ⟨ls, hc⟩ := h.consistent
    rw [← MessageLog.length_readCommands hc.readable]
    exact (List.getElem?_eq_some_iff.1 hr.command).1
  have hevlen : s.1.events.readEvents.length = s.1.events.length := by
    have := congrArg List.length hmessages
    simp only [List.length_map, Array.length_toList] at this
    rw [← this]
    rfl
  exact {
    config := hr.fixed.config.trans h.config
    processors := by rw [hr.fixed.processors]; exact h.processors
    appliers := by rw [hr.appliers]; exact h.appliers
    mode := hr.mode.trans h.mode
    publisher := hr.publisher.trans h.publisher
    inputs := by rw [hr.fixed.inputs]; exact h.inputs
    extensionInputs := by rw [hr.fixed.extensionInputs]; exact h.extensionInputs
    replayEnd := by rw [hr.fixed.status]; exact h.replayEnd
    eventLog := by rw [hr.events]; simpa using h.eventLog
    commandLog := by rw [hr.commands]; simpa using h.commandLog
    run := ⟨_, .moves 0 hrun h.started hmoves, hmoves.latestLife hlife⟩
    started := by unfold Started; rw [hr.fixed.status]; exact h.started
    log := by
      rw [hread]
      exact ⟨by rw [hr.messages, hmessages]; simp,
        hlogged.concat hr.posted hr.fits (by rw [hr.sequence, hevlen]),
        by rw [hr.world, hworld, List.foldl_concat]⟩
    stocked := by
      rw [hlen]
      push_cast
      rw [mul_add, mul_one]
      exact hr.stocked
    oneEach := by rw [hlen, hat, h.oneEach]
    takes := hcs ▸ h.takes
    above := hcs ▸ h.above
    small := by rw [hcs, hclen]; exact h.small
    dispatched := by rw [hr.counted, hat, h.dispatched]
    passed := by rw [hat, hclen]; exact hpending
    room := hclen ▸ h.room }


/-- The command a round takes is the first pending one. -/
theorem pending_eq (hr : Round s c e s') : pending s.1 = c :: pending s'.1 := by
  obtain ⟨hlt, hc⟩ := List.getElem?_eq_some_iff.1 hr.command
  unfold Inventory.pending
  rw [hr.readCommands, hr.dispatcherAt, List.drop_eq_getElem_cons hlt, hc]

end Round

namespace Live

variable {s : Engine Warehouse × Warehouse}

/-- A live engine with no more pending commands than the limit dispatches each of them in a round
of its own, two units of work each: the dispatcher ends at the end of the log, the log of commands
stays as it was, one event is appended for each command, and the reorder output's poller does not
move. The event of a refill never leaves its item short. -/
theorem exec_dispatchUpTo : ∀ (limit : Nat) {s : Engine Warehouse × Warehouse}, Live s →
    (pending s.1).length ≤ limit →
    ∃ (evs : List Event) (s' : Engine Warehouse × Warehouse),
      exec (dispatchUpTo limit) 0 s = (.ok (2 * (pending s.1).length), s') ∧ Live s' ∧
      pending s'.1 = [] ∧
      s'.1.outbox.commands.readCommands = s.1.outbox.commands.readCommands ∧
      s'.1.outbox.commands.length = s.1.outbox.commands.length ∧
      s'.1.events.readEvents = s.1.events.readEvents ++ evs ∧
      reorderAt s'.1 = reorderAt s.1 ∧
      ((∀ c ∈ pending s.1, Refill c) → ∀ e ∈ evs, ¬Short 3 e)
  | 0, s, h, hk => by
    have hnil : pending s.1 = [] := List.eq_nil_of_length_eq_zero (by omega)
    refine ⟨[], s, ?_, h, hnil, rfl, rfl, by simp, rfl, by simp⟩
    rw [hnil]
    rfl
  | limit + 1, s, h, hk => by
    by_cases hnil : pending s.1 = []
    · -- the dispatcher finds no command and the round does nothing
      have hat : s.1.outbox.commands.length ≤ s.1.dispatcherAt := by
        have := congrArg List.length hnil
        rw [h.length_pending] at this
        simp at this
        omega
      refine ⟨[], s, ?_, h, hnil, rfl, rfl, by simp, rfl, by simp⟩
      rw [dispatchUpTo, exec_bind, exec_dispatchRound_idle (MessageLog.peek?_eq_none.2 hat), hnil]
      rfl
    · have hpending : s.1.dispatcherAt < s.1.outbox.commands.length := by
        have := h.length_pending
        have hpos := List.length_pos_of_ne_nil hnil
        omega
      obtain ⟨c, e, s₁, hround, hr⟩ := h.exec_round hpending
      have hpend := hr.pending_eq
      obtain ⟨evs, s', hexec, h', hnil', hcs, hclen, hread, hreorder, hrefill⟩ :=
        exec_dispatchUpTo limit (hr.live h hround) (by rw [hpend] at hk; simpa using hk)
      refine ⟨e :: evs, s', ?_, h', hnil', hcs.trans hr.readCommands,
        hclen.trans hr.commands_length, by rw [hread, hr.readEvents]; simp,
        hreorder.trans (hr.reorderAt h.config), ?_⟩
      · rw [dispatchUpTo, exec_bind, hround]
        dsimp only
        rw [exec_bind, hexec, hpend]
        simp only [exec_pure, List.length_cons]
        congr 2
        omega
      · -- the first event is the first command's; the rest are the rest's
        intro hall e' he'
        rw [hpend] at hall
        rcases List.mem_cons.1 he' with rfl | he'
        · exact hr.refill (hall c List.mem_cons_self)
        · exact hrefill (fun c' hc' => hall c' (List.mem_cons_of_mem _ hc')) e' he'

end Live

namespace Live

variable {s : Engine Warehouse × Warehouse}

/-- A send of a command the warehouse takes, from a live engine with room in its command log, goes
through: the command takes the sequence one above the highest of its source, joins the log and the
pending commands, and the engine stays live. -/
theorem send (h : Live s) {x : SourceId} {pt : PayloadType} {payload : Bytes}
    (htakes : ∀ q, Takes ⟨x, q, 0, pt, payload⟩)
    (hroom : s.1.outbox.commands.length + 1 < 2 ^ 59) :
    ∃ q, (s.1.outbox.send ⟨s.1.base, 0⟩ x pt payload).1 = .ok q ∧
      Live ({ s.1 with outbox := (s.1.outbox.send ⟨s.1.base, 0⟩ x pt payload).2 }, s.2) ∧
      pending { s.1 with outbox := (s.1.outbox.send ⟨s.1.base, 0⟩ x pt payload).2 } =
        pending s.1 ++ [⟨x, q, 0, pt, payload⟩] ∧
      (s.1.outbox.send ⟨s.1.base, 0⟩ x pt payload).2.commands.length =
        s.1.outbox.commands.length + 1 := by
  obtain ⟨q, hq⟩ := Outbox.send_fst_of_open h.commandLog.1 h.commandLog.2 ⟨s.1.base, 0⟩ x pt
    (htakes 0).payload_length
  obtain ⟨ls, hrun, hlife⟩ := h.run
  generalize ho : s.1.outbox.send ⟨s.1.base, 0⟩ x pt payload = r at hq ⊢
  obtain ⟨res, o'⟩ := r
  obtain rfl : res = .ok q := hq
  set cs := s.1.outbox.commands.readCommands with hcs
  -- the highest sequence of the source is within the log's length, so one above it fits a word
  have hhighest : (Command.highest cs x).toNat < s.1.outbox.commands.length + 1 :=
    Command.highest_toNat_lt (Nat.succ_pos _) (fun c hc => Nat.lt_succ_of_le (h.small c hc)) x
  have hfree : (Command.highest cs x).toNat + 1 < UInt64.size := by
    have := h.room
    simp only [UInt64.size]
    omega
  obtain ⟨hseq, -⟩ := h.tracks.send_ok ho hfree
  obtain ⟨-, hcommands, -, -, -⟩ := Outbox.send_eq_ok ho
  have hread : o'.commands.readCommands = cs ++ [⟨x, q, 0, pt, payload⟩] := by
    rw [hcommands]
    exact MessageLog.readCommands_push _ (htakes q).decode_encode
  have hlen : o'.commands.length = s.1.outbox.commands.length + 1 := by
    rw [hcommands]
    simp [MessageLog.length]
  have hat : o'.commands.position s.1.config.dispatcherPoller = s.1.dispatcherAt := by
    rw [hcommands]
    rfl
  have hq' : q.toNat = (Command.highest cs x).toNat + 1 := by
    rw [hseq]
    exact toNat_add_one_of_fits hfree
  have hmoves : Moves 0 s [.sent ⟨0, x, pt, payload⟩] ({ s.1 with outbox := o' }, s.2) := by
    have hsent : Move 0 s _ _ := .hostSent s x pt payload
    rw [ho] at hsent
    exact .single hsent
  refine ⟨q, rfl, {
    config := h.config
    processors := h.processors
    appliers := h.appliers
    mode := h.mode
    publisher := h.publisher
    inputs := h.inputs
    extensionInputs := h.extensionInputs
    replayEnd := h.replayEnd
    eventLog := h.eventLog
    commandLog := by rw [hcommands]; exact h.commandLog
    run := ⟨_, .moves 0 hrun h.started hmoves, hmoves.latestLife hlife⟩
    started := h.started
    log := h.log
    stocked := h.stocked
    oneEach := by rw [h.oneEach]; exact hat.symm
    takes := by
      rw [hread]
      intro c hc
      rcases List.mem_append.1 hc with hc | hc
      · exact h.takes c hc
      · rw [List.mem_singleton.1 hc]
        exact htakes q
    above := by
      rw [hread]
      intro i c hi
      rcases Nat.lt_or_ge i cs.length with hlt | hge
      · rw [List.getElem?_append_left hlt] at hi
        rw [List.take_append_of_le_length hlt.le]
        exact h.above i c hi
      · rw [List.getElem?_append_right hge, List.getElem?_singleton] at hi
        split at hi
        · cases hi
          rw [show i = cs.length by omega, List.take_left]
          exact hq'
        · cases hi
    small := by
      rw [hread, hlen]
      intro c hc
      rcases List.mem_append.1 hc with hc | hc
      · exact Nat.le_succ_of_le (h.small c hc)
      · rw [List.mem_singleton.1 hc]
        show q.toNat ≤ _
        omega
    dispatched := by rw [h.dispatched]; exact hat.symm
    passed := by
      show o'.commands.position _ ≤ _
      rw [hat, hlen]
      exact Nat.le_succ_of_le h.passed
    room := by rw [hlen]; exact hroom }, ?_, hlen⟩
  · unfold pending
    show (o'.commands.readCommands).drop (o'.commands.position s.1.config.dispatcherPoller) = _
    rw [hread, hat, List.drop_append_of_le_length]
    obtain ⟨ls, hc⟩ := h.consistent
    exact hc.passed_readCommands

end Live

/-! ### Publishing to the reorder output -/

/-- One turn of the reorder output's loop at an applied event of the log it answers with `ack`,
taken or ignored: the output has one attempt, which changes what its answer changes, its poller
moves past the event and the loop goes on. -/
theorem exec_publishSlot_answered {s : Engine Warehouse × Warehouse} (h : Members s.1) {m : Stored}
    {ev : Event} {lastApplied : UInt64} {limit : Nat} {report : PublishReport} {ack : Ack}
    {w : Warehouse} {o : Outbox}
    (hpeek : s.1.events.peek? reorderSlot.poller = some m) (hdecode : Event.decode m.bytes = .ok ev)
    (happlied : ev.sequence ≤ lastApplied)
    (hanswer : (reorder reorderThreshold reorderBatch).publish ev
      ⟨false, 1, 2147483647, ⟨s.1.base, 0⟩⟩ s.2 s.1.outbox = (.ok ack, w, o))
    (hack : ack ≠ .retry) :
    exec (publishSlot 0 lastApplied 0 (limit + 1) report) 0 s =
      exec (publishSlot 0 lastApplied 0 limit (report.answer 1 (.ok ack)).1) 0
        ({ s.1 with
            outbox := o
            events := s.1.events.setPosition reorderSlot.poller (reorderAt s.1 + 1) }, w) := by
  rw [publishSlot, exec_engine_bind]
  simp only [h.publisher, List.getElem?_cons_zero, hpeek]
  rw [exec_bind, hdecode, exec_lift_ok]
  dsimp only
  rw [if_neg (UInt64.not_lt.2 happlied), exec_bind]
  unfold offer
  simp only [exec_bind, exec_engine, setSlot, exec_modifyEngine, exec_sendContext, exec_world,
    exec_modify]
  -- the offer is the first attempt, of an event that is not replayed
  have hreplay : decide (m.index < 0) = false := by simp
  simp only [Engine.base, h.publisher, hreplay] at hanswer ⊢
  rw [show reorderSlot.output = reorder reorderThreshold reorderBatch from rfl,
    show reorderSlot.attempts + 1 = 1 from rfl, hanswer]
  obtain ⟨r', hr'⟩ : ∃ r', report.answer 1 (.ok ack) = (r', none) := by
    cases ack <;> simp_all [PublishReport.answer]
  simp only [hr', exec_pure]
  simp only [exec_bind, exec_modifyEngine, exec_engine, MessageLog.advance_of_peek? hpeek,
    exec_lift_ok]
  rfl

/-- The reorder output's loop stops at the end of the log, changing nothing. -/
theorem exec_publishSlot_end {s : Engine Warehouse × Warehouse} (h : Members s.1)
    (hend : s.1.events.length ≤ reorderAt s.1) (lastApplied : UInt64) (replayEnd : Nat) :
    ∀ limit report, exec (publishSlot 0 lastApplied replayEnd limit report) 0 s = (.ok report, s)
  | 0, _ => rfl
  | limit + 1, report => by
    have hnone : s.1.events.peek? reorderSlot.poller = none := MessageLog.peek?_eq_none.2 hend
    rw [publishSlot, exec_engine_bind]
    simp only [h.publisher, List.getElem?_cons_zero, hnone]
    rfl

/-- The pending commands of a live engine before the reorder output publishes: none, or one
refill from the loopback source. -/
def Refilling (e : Engine Warehouse) : Prop :=
  pending e = [] ∨ ∃ r, pending e = [r] ∧ Refill r ∧ r.source = 2147483647

namespace Live

variable {s : Engine Warehouse × Warehouse}

/-- The first pending command of a live engine is in flight. -/
theorem holds_of_pending_cons (h : Live s) {c : Command} {rest : List Command}
    (hc : pending s.1 = c :: rest) : s.1.outbox.inFlight.holds c.source = true := by
  have hget : s.1.outbox.commands.readCommands[s.1.dispatcherAt]? = some c := by
    have := congrArg (·[0]?) hc
    simpa [pending, List.getElem?_drop] using this
  simp [InFlight.holds, h.entries_eq hget, Command.entry]

/-- The reorder output's poller of a live engine, short of the end of the log, reads the record of
an applied event the warehouse wrote. -/
theorem event_at (h : Live s) (hp : reorderAt s.1 < s.1.events.length) :
    ∃ m ev, s.1.events.peek? reorderSlot.poller = some m ∧ Event.decode m.bytes = .ok ev ∧
      ev.sequence ≤ s.1.base.lastEvent ∧ Posted ev ∧
      s.1.events.readEvents.drop (reorderAt s.1) =
        ev :: s.1.events.readEvents.drop (reorderAt s.1 + 1) := by
  obtain ⟨hmessages, hlogged, -⟩ := h.log
  have hlen : s.1.events.readEvents.length = s.1.events.length := by
    have := congrArg List.length hmessages
    simp only [List.length_map, Array.length_toList] at this
    rw [← this]
    rfl
  have hlt : reorderAt s.1 < s.1.events.readEvents.length := by omega
  set ev := s.1.events.readEvents[reorderAt s.1]
  obtain ⟨hposted, hfit, hseq⟩ := hlogged _ ev (List.getElem?_eq_getElem hlt)
  cases hm : s.1.events.peek? reorderSlot.poller with
  | none => exact absurd (MessageLog.peek?_eq_none.1 hm) (Nat.not_le.2 hp)
  | some m =>
    obtain ⟨-, hbytes⟩ := MessageLog.peek?_eq_some.1 hm
    have hbytes' : m.bytes = ev.encode := by
      rw [show s.1.events.position reorderSlot.poller = reorderAt s.1 from rfl, hmessages,
        List.getElem?_map, List.getElem?_eq_getElem hlt] at hbytes
      exact (Option.some.inj hbytes).symm
    refine ⟨m, ev, rfl, by
      rw [hbytes']
      exact Event.decode_encode ev (Nat.lt_of_le_of_lt hfit (by decide)), ?_, hposted,
      List.drop_eq_getElem_cons hlt⟩
    -- the event is numbered within the log, and the base state is at the log's last event
    rw [UInt64.le_iff_toNat_le, h.lastEvent, hseq]
    simp only [Nat.toUInt64, UInt64.toNat_ofNat']
    have := h.room
    have := h.passed
    have := h.oneEach
    rw [Nat.mod_eq_of_lt (by omega)]
    omega

/-- Moving the reorder output's poller past an applied event keeps an engine live. -/
theorem published (h : Live s) {m : Stored} {ev : Event}
    (hpeek : s.1.events.peek? reorderSlot.poller = some m) (hdecode : Event.decode m.bytes = .ok ev)
    (happlied : ev.sequence ≤ s.1.base.lastEvent) :
    Live ({ s.1 with events := s.1.events.setPosition reorderSlot.poller (reorderAt s.1 + 1) }, s.2) := by
  obtain ⟨ls, hrun, hlife⟩ := h.run
  have hmoves : Moves 0 s [] ({ s.1 with
      events := s.1.events.setPosition reorderSlot.poller (reorderAt s.1 + 1) }, s.2) :=
    .single (.published s hpeek hdecode happlied (MessageLog.advance_of_peek? hpeek))
  have hread : (s.1.events.setPosition reorderSlot.poller (reorderAt s.1 + 1)).readEvents =
      s.1.events.readEvents := by
    simp only [MessageLog.readEvents, MessageLog.messages_setPosition]
  have hlen : (s.1.events.setPosition reorderSlot.poller (reorderAt s.1 + 1)).length =
      s.1.events.length := MessageLog.length_setPosition _ _ _
  exact {
    config := h.config
    processors := h.processors
    appliers := h.appliers
    mode := h.mode
    publisher := h.publisher
    inputs := h.inputs
    extensionInputs := h.extensionInputs
    replayEnd := h.replayEnd
    eventLog := by simpa using h.eventLog
    commandLog := h.commandLog
    run := ⟨_, .moves 0 hrun h.started hmoves, hmoves.latestLife hlife⟩
    started := h.started
    log := by
      show _ = _ ∧ Logged _ ∧ _
      rw [hread, MessageLog.messages_setPosition]
      exact h.log
    stocked := by rw [show Engine.events _ = _ from rfl, hlen]; exact h.stocked
    oneEach := by rw [show Engine.events _ = _ from rfl, hlen]; exact h.oneEach
    takes := h.takes
    above := h.above
    small := h.small
    dispatched := h.dispatched
    passed := h.passed
    room := h.room }

/-- One turn of the reorder output's loop over a live engine, at the applied event `ev` at its
poller: the output answers the event, its poller moves on, and the engine stays live. Only an
event that leaves its item short, while nothing of the loopback source is in flight, makes the
output send a refill, which joins the pending commands. -/
theorem exec_publishSlot_turn (h : Live s) (hp : reorderAt s.1 < s.1.events.length)
    (hroom : s.1.outbox.inFlight.holds 2147483647 = false →
      s.1.outbox.commands.length + 1 < 2 ^ 59)
    (limit : Nat) (report : PublishReport) :
    ∃ ev, s.1.events.readEvents.drop (reorderAt s.1) =
        ev :: s.1.events.readEvents.drop (reorderAt s.1 + 1) ∧
      ∃ report' s₁, exec (publishSlot 0 s.1.base.lastEvent 0 (limit + 1) report) 0 s =
          exec (publishSlot 0 s.1.base.lastEvent 0 limit report') 0 s₁ ∧
        report'.work = report.work + 1 ∧ Live s₁ ∧ reorderAt s₁.1 = reorderAt s.1 + 1 ∧
        s₁.1.events.messages = s.1.events.messages ∧ s₁.1.base = s.1.base ∧ s₁.2 = s.2 ∧
        s₁.1.counters = s.1.counters ∧
        (Short 3 ev → s.1.outbox.inFlight.holds 2147483647 = false →
          ∃ r, Refill r ∧ r.source = 2147483647 ∧ pending s₁.1 = pending s.1 ++ [r] ∧
            s₁.1.outbox.commands.length = s.1.outbox.commands.length + 1) ∧
        (¬(Short 3 ev ∧ s.1.outbox.inFlight.holds 2147483647 = false) →
          pending s₁.1 = pending s.1 ∧
            s₁.1.outbox.commands.length = s.1.outbox.commands.length) := by
  obtain ⟨m, ev, hpeek, hdecode, happlied, hposted, hdrop⟩ := h.event_at hp
  refine ⟨ev, hdrop, ?_⟩
  have hreplay : (⟨false, 1, 2147483647, ⟨s.1.base, 0⟩⟩ : OutputContext).replay = false := rfl
  have hreorder : reorderAt { s.1 with
      events := s.1.events.setPosition reorderSlot.poller (reorderAt s.1 + 1) } =
      reorderAt s.1 + 1 := MessageLog.position_setPosition _ _ _
  by_cases hcase : Short 3 ev ∧ s.1.outbox.inFlight.holds 2147483647 = false
  · -- the output sends a refill of the item, a restock of ten from the loopback source
    obtain ⟨hshort, hfree⟩ := hcase
    obtain ⟨item, hitem, hanswer⟩ := publish_posted_short hshort hreplay s.2 hfree
    have htakes : ∀ q, Takes ⟨2147483647, q, 0, restock, Bytes.ofString (line item (10 : Nat))⟩ :=
      fun q => ⟨item, hitem, 10, by decide, le_refl _, .inr rfl, rfl⟩
    obtain ⟨q, hq, hlive, hpend, hlen⟩ := h.send htakes (hroom hfree)
    simp only [OutputContext.loopback] at hanswer
    generalize s.1.outbox.send ⟨s.1.base, 0⟩ 2147483647 restock
      (Bytes.ofString (line item (10 : Nat))) = r at hanswer hq hlive hpend hlen
    obtain ⟨res, o'⟩ := r
    obtain rfl : res = .ok q := hq
    dsimp only at hanswer
    have hexec : exec (publishSlot 0 s.1.base.lastEvent 0 (limit + 1) report) 0 s = _ :=
      exec_publishSlot_answered h.toMembers hpeek hdecode happlied hanswer (by decide)
    refine ⟨_, _, hexec, by simp [PublishReport.answer, PublishReport.work]; omega,
      hlive.published hpeek hdecode happlied, hreorder, MessageLog.messages_setPosition _ _ _,
      rfl, rfl, rfl, fun _ _ => ⟨_, ⟨rfl, item, hitem, rfl⟩, rfl, hpend, hlen⟩,
      fun hquiet => absurd ⟨hshort, hfree⟩ hquiet⟩
  · -- the output ignores the event
    have hanswer := publish_posted_quiet hposted hreplay s.2 s.1.outbox hcase
    have hexec : exec (publishSlot 0 s.1.base.lastEvent 0 (limit + 1) report) 0 s = _ :=
      exec_publishSlot_answered h.toMembers hpeek hdecode happlied hanswer (by decide)
    refine ⟨_, _, hexec, by simp [PublishReport.answer, PublishReport.work]; omega,
      h.published hpeek hdecode happlied, hreorder, MessageLog.messages_setPosition _ _ _,
      rfl, rfl, rfl, fun hshort hfree => absurd ⟨hshort, hfree⟩ hcase, fun _ => ⟨rfl, rfl⟩⟩

/-- The reorder output's loop over a live engine whose pending commands are at most one refill
offers every applied event from its poller to the end of the log, within the limit: each is one
unit of work, the poller ends at the end of the log, and the engine stays live. Either the pending
commands stay as they were, or none were pending and the output sent one refill, for an event
offered that leaves its item short. -/
theorem exec_publishSlot : ∀ (limit : Nat) (report : PublishReport)
    {s : Engine Warehouse × Warehouse}, Live s → Refilling s.1 →
    (pending s.1 = [] → s.1.outbox.commands.length + 1 < 2 ^ 59) →
    reorderAt s.1 ≤ s.1.events.length → s.1.events.length - reorderAt s.1 ≤ limit →
    ∃ report' s', exec (publishSlot 0 s.1.base.lastEvent 0 limit report) 0 s = (.ok report', s') ∧
      report'.work = report.work + (s.1.events.length - reorderAt s.1) ∧ Live s' ∧
      reorderAt s'.1 = s.1.events.length ∧ s'.1.events.messages = s.1.events.messages ∧
      s'.1.base = s.1.base ∧ s'.2 = s.2 ∧ s'.1.counters = s.1.counters ∧
      ((pending s'.1 = pending s.1 ∧
          s'.1.outbox.commands.length = s.1.outbox.commands.length) ∨
        (pending s.1 = [] ∧ (∃ r, pending s'.1 = [r] ∧ Refill r ∧ r.source = 2147483647) ∧
          s'.1.outbox.commands.length = s.1.outbox.commands.length + 1 ∧
          ∃ e ∈ s.1.events.readEvents.drop (reorderAt s.1), Short 3 e))
  | 0, report, s, h, _, _, hp, hk => by
    have hend : s.1.events.length ≤ reorderAt s.1 := by omega
    refine ⟨report, s, exec_publishSlot_end h.toMembers hend _ 0 0 report, by omega, h, by omega, rfl,
      rfl, rfl, rfl, .inl ⟨rfl, rfl⟩⟩
  | limit + 1, report, s, h, hrefilling, hroom, hp, hk => by
    by_cases hend : s.1.events.length ≤ reorderAt s.1
    · refine ⟨report, s, exec_publishSlot_end h.toMembers hend _ 0 _ report, by omega, h, by omega,
        rfl, rfl, rfl, rfl, .inl ⟨rfl, rfl⟩⟩
    have hlt : reorderAt s.1 < s.1.events.length := Nat.lt_of_not_le hend
    -- with a refill pending, its command is in flight and the output sends nothing
    have hfree : s.1.outbox.inFlight.holds 2147483647 = false → pending s.1 = [] := by
      intro hfree
      rcases hrefilling with hnil | ⟨r, hr, -, hsource⟩
      · exact hnil
      · have := h.holds_of_pending_cons hr
        rw [hsource, hfree] at this
        cases this
    obtain ⟨ev, hdrop, report₁, s₁, hexec, hwork, h₁, hreorder, hmessages, hbase, hworld, hcounters,
      hshort, hquiet⟩ := h.exec_publishSlot_turn hlt (fun hf => hroom (hfree hf)) limit report
    have hlen₁ : s₁.1.events.length = s.1.events.length := by
      simp only [MessageLog.length, hmessages]
    by_cases hcase : Short 3 ev ∧ s.1.outbox.inFlight.holds 2147483647 = false
    · -- the refill goes out now, and then nothing more
      have hnil := hfree hcase.2
      obtain ⟨r, hr, hsource, hpend₁, hclen₁⟩ := hshort hcase.1 hcase.2
      rw [hnil, List.nil_append] at hpend₁
      obtain ⟨report', s', hexec', hwork', h', hreorder', hmessages', hbase', hworld', hcounters',
        hout⟩ := exec_publishSlot limit report₁ h₁ (.inr ⟨r, hpend₁, hr, hsource⟩)
          (fun h0 => by rw [hpend₁] at h0; cases h0) (by omega) (by omega)
      have hsame : pending s'.1 = [r] ∧
          s'.1.outbox.commands.length = s.1.outbox.commands.length + 1 := by
        rcases hout with ⟨hp', hl'⟩ | ⟨h0, -⟩
        · exact ⟨hp'.trans hpend₁, hl'.trans hclen₁⟩
        · rw [hpend₁] at h0
          cases h0
      refine ⟨report', s', by rw [hexec, ← hbase, hexec'], by omega, h', by omega,
        hmessages'.trans hmessages, hbase'.trans hbase, hworld'.trans hworld,
        hcounters'.trans hcounters, .inr ⟨hnil, ⟨r, hsame.1, hr, hsource⟩, hsame.2, ev,
          by rw [hdrop]; exact List.mem_cons_self, hcase.1⟩⟩
    · -- the output lets the event pass, and the loop goes on from the same pending commands
      obtain ⟨hpend₁, hclen₁⟩ := hquiet hcase
      obtain ⟨report', s', hexec', hwork', h', hreorder', hmessages', hbase', hworld', hcounters',
        hout⟩ := exec_publishSlot limit report₁ h₁ (by rw [Refilling, hpend₁]; exact hrefilling)
          (fun h0 => by rw [hclen₁]; exact hroom (hpend₁ ▸ h0)) (by omega) (by omega)
      refine ⟨report', s', by rw [hexec, ← hbase, hexec'], by omega, h', by omega,
        hmessages'.trans hmessages, hbase'.trans hbase, hworld'.trans hworld,
        hcounters'.trans hcounters, ?_⟩
      rcases hout with ⟨hp', hl'⟩ | ⟨h0, hr', hl', e, he, hshort'⟩
      · exact .inl ⟨hp'.trans hpend₁, hl'.trans hclen₁⟩
      · refine .inr ⟨hpend₁ ▸ h0, hr', hl'.trans (by rw [hclen₁]), e, ?_, hshort'⟩
        have hread₁ : s₁.1.events.readEvents = s.1.events.readEvents := by
          simp only [MessageLog.readEvents, hmessages]
        rw [hdrop]
        rw [hreorder, hread₁] at he
        exact List.mem_cons_of_mem _ he

/-- Counting keeps an engine live, so long as the count of commands dispatched stays. -/
theorem count (h : Live s) (f : EngineCounters → EngineCounters)
    (hf : (f s.1.counters).commandsDispatched = s.1.counters.commandsDispatched) :
    Live ({ s.1 with counters := f s.1.counters }, s.2) := by
  obtain ⟨ls, hrun, hlife⟩ := h.run
  have hmoves : Moves 0 s [] ({ s.1 with counters := f s.1.counters }, s.2) := .single (.counted s f)
  exact { h.toBuilt with
    run := ⟨_, .moves 0 hrun h.started hmoves, hmoves.latestLife hlife⟩
    started := h.started
    log := h.log
    stocked := h.stocked
    oneEach := h.oneEach
    takes := h.takes
    above := h.above
    small := h.small
    dispatched := hf.trans h.dispatched
    passed := h.passed
    room := h.room }

/-- Publishing on a live engine whose pending commands are at most one refill offers the reorder
output every applied event from its poller on, when they are no more than the batch limit: each is
one unit of work, and the poller ends at the end of the log. Either the pending commands stay, or
none were pending and the output sent one refill, for an event that leaves its item short. -/
theorem exec_publish (h : Live s) (hrefilling : Refilling s.1)
    (hroom : pending s.1 = [] → s.1.outbox.commands.length + 1 < 2 ^ 59)
    (hp : reorderAt s.1 ≤ s.1.events.length) (hk : s.1.events.length - reorderAt s.1 ≤ 64) :
    ∃ s', exec publish 0 s = (.ok (s.1.events.length - reorderAt s.1), s') ∧ Live s' ∧
      reorderAt s'.1 = s.1.events.length ∧ s'.1.events.messages = s.1.events.messages ∧
      s'.2 = s.2 ∧
      ((pending s'.1 = pending s.1 ∧
          s'.1.outbox.commands.length = s.1.outbox.commands.length) ∨
        (pending s.1 = [] ∧ (∃ r, pending s'.1 = [r] ∧ Refill r ∧ r.source = 2147483647) ∧
          s'.1.outbox.commands.length = s.1.outbox.commands.length + 1 ∧
          ∃ e ∈ s.1.events.readEvents.drop (reorderAt s.1), Short 3 e)) := by
  obtain ⟨report, s₁, hexec, hwork, h₁, hreorder, hmessages, -, hworld, -, hout⟩ :=
    h.exec_publishSlot 64 {} hrefilling hroom hp hk
  have hstarted : s.1.status.started = true := h.started
  have hslots : s.1.publisher.slots.isEmpty = false := by rw [h.publisher]; rfl
  -- one output, offered up to the default batch of events
  have hfold : (List.range [reorderSlot].length).foldlM
      (fun report i => publishSlot i s.1.base.lastEvent 0 64 report) ({} : PublishReport) =
      (publishSlot 0 s.1.base.lastEvent 0 64 {} : EngineM Warehouse PublishReport) := by
    rw [show List.range [reorderSlot].length = [0] from rfl]
    simp only [List.foldlM_cons, List.foldlM_nil, bind_pure]
  refine ⟨_, ?_, h₁.count (fun c => { c with
      outputsPublished := c.outputsPublished + report.published
      outputsIgnored := c.outputsIgnored + report.ignored
      outputRetries := c.outputRetries + report.retries
      outputFailures := c.outputFailures + report.failures }) rfl,
    hreorder, hmessages, hworld, hout⟩
  unfold publish
  rw [exec_bind, exec_ensureStarted, if_pos hstarted]
  dsimp only
  rw [exec_engine_bind, if_neg (by rw [hslots]; decide)]
  simp only [h.publisher, h.replayEnd, h.config]
  rw [exec_bind, hfold, hexec]
  rw [show ({} : PublishReport).work = 0 from rfl, Nat.zero_add] at hwork
  simp only [exec_bind, exec_count, exec_pure, hwork]

end Live

/-! ### Cycles -/

/-- With no inputs, polling them is no work and changes nothing. -/
theorem Members.exec_pollInputs {s : Engine Warehouse × Warehouse} (h : Members s.1)
    (extensions : Bool) :
    exec (pollInputs extensions) 0 s = (.ok 0, s) := by
  unfold pollInputs
  rw [exec_engine_bind]
  cases extensions <;> simp [h.inputs, h.extensionInputs]

namespace Live

variable {s : Engine Warehouse × Warehouse}

theorem length_readEvents (h : Live s) : s.1.events.readEvents.length = s.1.events.length := by
  have hlen := congrArg List.length h.log.1
  simp only [List.length_map, Array.length_toList] at hlen
  exact hlen.symm

/-- The commands pending on a live engine are those its log holds past its events. -/
theorem length_pending_events (h : Live s) :
    (pending s.1).length = s.1.outbox.commands.length - s.1.events.length := by
  rw [h.length_pending, h.oneEach]

theorem events_le (h : Live s) : s.1.events.length ≤ s.1.outbox.commands.length := by
  rw [h.oneEach]
  exact h.passed

/-- A cycle of a live engine at rest, with no more pending commands than a batch: the dispatcher
processes each, two units of work, nothing is left to apply, the reorder output is offered each
new event, one unit each, and there are no inputs. The engine ends live and at rest, with at most
one refill pending, and none when only refills were pending. -/
theorem exec_runCycle (h : Live s) (hrest : reorderAt s.1 = s.1.events.length)
    (hk : (pending s.1).length ≤ 64) (hroom : s.1.outbox.commands.length + 1 < 2 ^ 59) :
    ∃ s', exec runCycle 0 s = (.ok (3 * (pending s.1).length), s') ∧ Live s' ∧
      reorderAt s'.1 = s'.1.events.length ∧ Refilling s'.1 ∧
      s'.1.outbox.commands.length ≤ s.1.outbox.commands.length + 1 ∧
      ((∀ c ∈ pending s.1, Refill c) →
        pending s'.1 = [] ∧ s'.1.outbox.commands.length = s.1.outbox.commands.length) := by
  obtain ⟨evs, s₁, hdispatch, h₁, hnil₁, -, hclen₁, hread₁, hreorder₁, hrefill⟩ :=
    h.exec_dispatchUpTo 64 hk
  -- the dispatcher catches up with the log of commands, one event for each pending command
  have hlen₁ : s₁.1.events.length = s.1.events.length + (pending s.1).length := by
    have hk₁ := h₁.length_pending_events
    rw [hnil₁, List.length_nil] at hk₁
    have := h.length_pending_events
    have := h.events_le
    have := h₁.events_le
    omega
  have hevs : s₁.1.events.readEvents.drop (reorderAt s₁.1) = evs := by
    rw [hread₁, hreorder₁, hrest, ← h.length_readEvents, List.drop_left]
  obtain ⟨s₂, hpublish, h₂, hreorder₂, hmessages₂, -, hout⟩ :=
    h₁.exec_publish (.inl hnil₁) (fun _ => by omega) (by omega) (by omega)
  have hlen₂ : s₂.1.events.length = s₁.1.events.length := by
    simp only [MessageLog.length, hmessages₂]
  have hstarted : s.1.status.started = true := h.started
  have hd : exec dispatch 0 s = (.ok (2 * (pending s.1).length), s₁) := by
    unfold dispatch
    rw [exec_bind, exec_ensureStarted, if_pos hstarted]
    dsimp only
    rw [exec_engine_bind, h.config]
    exact hdispatch
  have ha : exec (apply s₁.1.config.applyBatchLimit) 0 s₁ = (.ok 0, s₁) := by
    rw [exec_apply_of_started h₁.started, exec_applyUpTo_of_caughtUp h₁.applierAt]
  have hsteps : exec runSteps 0 s = (.ok (3 * (pending s.1).length), s₂) := by
    unfold runSteps
    rw [exec_bind, h.exec_pollInputs false]
    dsimp only
    rw [exec_bind, hd]
    dsimp only
    rw [exec_engine_bind, exec_bind, ha]
    dsimp only
    rw [exec_bind, hpublish]
    dsimp only
    rw [exec_bind, h₂.exec_pollInputs true]
    simp only [exec_pure]
    congr 2
    omega
  refine ⟨_, ?_, h₂.count (fun c => { c with cycles := c.cycles + 1 }) rfl, ?_, ?_, ?_, ?_⟩
  · unfold runCycle
    rw [exec_bind, exec_ensureStarted, if_pos hstarted]
    dsimp only
    rw [exec_tryCatch, exec_bind, hsteps]
    simp only [exec_bind, exec_count, exec_pure]
  · show reorderAt s₂.1 = s₂.1.events.length
    omega
  · rcases hout with ⟨hp₂, -⟩ | ⟨-, hr, -⟩
    · exact .inl (hp₂.trans hnil₁)
    · exact .inr hr
  · rcases hout with ⟨-, hl₂⟩ | ⟨-, -, hl₂, -⟩
    · show s₂.1.outbox.commands.length ≤ _
      omega
    · show s₂.1.outbox.commands.length ≤ _
      omega
  · -- a refill's event never leaves its item short, so the output sends nothing
    intro hall
    rcases hout with ⟨hp₂, hl₂⟩ | ⟨-, -, -, e, he, hshort⟩
    · exact ⟨hp₂.trans hnil₁, hl₂.trans hclen₁⟩
    · rw [hevs] at he
      exact absurd hshort (hrefill hall e he)

end Live

end Inventory

end EventSourcing
