import Mathlib
import EventSourcing.Proofs.Inventory

/-!
# One reorder in flight

The warehouse's reorder output restocks an item from the loopback source `L` when a live stock
event shows the item below the threshold, but only while no command of `L` is in flight
(`Warehouse.publish_reorder`). Over every run of warehouse engines over one pair of logs in
which no command of `L` reaches the command log but through that output, at most one command
of `L` is ever in flight, across restarts (`one_restock_in_flight`).

The guard alone does not give this: a start restores into the tracker every command of the log
that the dispatcher has yet to process. The run invariant `Guarded` says why that restores one
command of `L` at most: every command of `L` in the log but the last is at or below the
watermark of `L` that the event log gives, and while the last is above it, it is in flight.
The dispatcher raises the watermark only past a command it processes, which is then the last
of `L`; the output sends from `L` only when nothing of `L` is in flight, so when the last one
was processed.
-/

namespace EventSourcing

namespace Command

/-- The sequences of the commands of a source, in order. -/
def sequencesOf (cs : List Command) (x : SourceId) : List UInt64 :=
  (cs.filter fun c => c.source = x).map (·.sequence)

end Command

namespace MessageLog

/-- The events the records of a log hold, in log order; a record that does not read is
passed over. -/
def readEvents (log : MessageLog) : List Event :=
  log.messages.toList.filterMap fun b => (Event.decode b).toOption

/-- The watermark the events of a log give a source: the sequence of the command of the source
whose transaction ended last, 0 for none. -/
def watermark (log : MessageLog) (x : SourceId) : UInt64 :=
  (BaseState.recordAll {} log.readEvents).lastCommand x

/-- The sequences of the commands of a source in a log, in log order. -/
def sequencesOf (log : MessageLog) (x : SourceId) : List UInt64 :=
  Command.sequencesOf log.readCommands x

variable {log log' : MessageLog}

/-- Events appended to a log read back after those it held, when they fit a record. -/
theorem readEvents_of_appended {evs : List Event}
    (h : log'.messages.toList = log.messages.toList ++ evs.map Event.encode)
    (hfit : ∀ e ∈ evs, e.payload.length ≤ Router.maxPayload) :
    log'.readEvents = log.readEvents ++ evs := by
  rw [readEvents, readEvents, h, List.filterMap_append]
  congr 1
  rw [show (fun b => (Event.decode b).toOption) = Except.toOption ∘ Event.decode from rfl,
    ← List.filterMap_map, Engine.decode_map_encode hfit, List.filterMap_map]
  exact List.filterMap_some

theorem watermark_of_appended {evs : List Event}
    (h : log'.messages.toList = log.messages.toList ++ evs.map Event.encode)
    (hfit : ∀ e ∈ evs, e.payload.length ≤ Router.maxPayload) (x : SourceId) :
    log'.watermark x = ((BaseState.recordAll {} log.readEvents).recordAll evs).lastCommand x := by
  rw [watermark, readEvents_of_appended h hfit, BaseState.recordAll_append]

theorem watermark_congr (h : log'.messages = log.messages) (x : SourceId) :
    log'.watermark x = log.watermark x := by
  simp only [watermark, readEvents, h]

theorem sequencesOf_congr (h : log'.messages = log.messages) (x : SourceId) :
    log'.sequencesOf x = log.sequencesOf x := by
  simp only [sequencesOf, readCommands, h]

/-- A log whose records all read as the events `evs` reads back as them. -/
theorem readEvents_of_decode {evs : List Event}
    (h : log.messages.toList.map Event.decode = evs.map .ok) : log.readEvents = evs := by
  rw [readEvents, show (fun b => (Event.decode b).toOption) = Except.toOption ∘ Event.decode from
    rfl, ← List.filterMap_map, h, List.filterMap_map]
  exact List.filterMap_some

/-- A record of a command appended to a log adds its sequence to those of its source. -/
theorem sequencesOf_push {b : Bytes} {c : Command} (h : Command.decode b = .ok c) (x : SourceId) :
    { log with messages := log.messages.push b }.sequencesOf x =
      log.sequencesOf x ++ if c.source = x then [c.sequence] else [] := by
  rw [sequencesOf, readCommands_push log h, sequencesOf, Command.sequencesOf,
    Command.sequencesOf, List.filter_append, List.map_append]
  by_cases hx : c.source = x <;> simp [hx]

end MessageLog

namespace InFlight

/-- Acknowledging events only takes commands out of the tracker. -/
theorem countFor_acknowledgeAll_le {t t' : InFlight} {evs : List Event}
    (h : t.acknowledgeAll evs = .ok t') (x : SourceId) : t'.countFor x ≤ t.countFor x := by
  induction evs generalizing t with
  | nil => cases h; exact Nat.le_refl _
  | cons ev evs ih =>
    obtain ⟨b, t₁, hack, hrest⟩ := acknowledgeAll_cons_eq_ok h
    refine Nat.le_trans (ih hrest) ?_
    -- one acknowledgement leaves the tracker or takes its oldest command out
    unfold acknowledge at hack
    split at hack
    · cases hack
    · cases hack; exact Nat.le_refl _
    · cases hack
      unfold countFor
      cases t.entries with
      | nil => exact Nat.le_refl _
      | cons head rest => simp [List.countP_cons]

/-- An event acknowledges the oldest command in flight only when it is of its source and
sequence. -/
theorem head_of_check {t : InFlight} {source : SourceId} {sequence : UInt64} {kind : EventKind}
    (h : t.check source sequence kind = .ok true) :
    ∃ head rest, t.entries = head :: rest ∧ head.source = source ∧ head.sequence = sequence := by
  unfold check at h
  split at h
  · cases h
  split at h
  · cases h
  · rename_i head rest hentries
    split at h
    · cases h
    split at h
    · cases h
    · exact ⟨head, rest, hentries, not_not.1 ‹_›, not_not.1 ‹_›⟩

/-- Acknowledging events of other sources leaves the commands of a source in flight. -/
theorem countFor_acknowledgeAll_of_ne {t t' : InFlight} {evs : List Event} {x : SourceId}
    (h : t.acknowledgeAll evs = .ok t') (hx : ∀ ev ∈ evs, ev.source ≠ x) :
    t'.countFor x = t.countFor x := by
  induction evs generalizing t with
  | nil => cases h; rfl
  | cons ev evs ih =>
    obtain ⟨b, t₁, hack, hrest⟩ := acknowledgeAll_cons_eq_ok h
    rw [ih hrest fun ev' hev' => hx ev' (List.mem_cons_of_mem _ hev')]
    -- the oldest command leaves only for an event of its own source
    unfold acknowledge at hack
    split at hack
    · cases hack
    · cases hack; rfl
    · rename_i hcheck
      cases hack
      obtain ⟨head, rest, hentries, hsource, -⟩ := head_of_check hcheck
      have hne : head.source ≠ x := hsource ▸ hx ev (List.mem_cons_self ..)
      simp [countFor, hentries, hne]

end InFlight

namespace Command

/-- The highest sequence of a source in a list of commands is below any bound of its
sequences. -/
theorem highest_le {cs : List Command} {x : SourceId} {b : UInt64}
    (h : ∀ c ∈ cs, c.source = x → c.sequence ≤ b) : highest cs x ≤ b := by
  induction cs using List.reverseRecOn with
  | nil => exact UInt64.zero_le
  | append_singleton cs c ih =>
    rw [highest_append_singleton]
    split
    · rename_i hc
      exact h c (List.mem_append_right _ (List.mem_singleton_self c)) hc.1
    · exact ih fun c' hc' => h c' (List.mem_append_left _ hc')

end Command

namespace InFlight

/-- The commands of a source that a start restores from a log in which every command of the
source but the last is at or below its watermark: the last, when it is above. -/
theorem countP_pending {w : SourceId → UInt64} {x : SourceId} {cs : List Command}
    (h : ∀ q ∈ (Command.sequencesOf cs x).dropLast, q ≤ w x) :
    (pending w cs 0).countP (·.source == x) =
      if ∃ q ∈ (Command.sequencesOf cs x).getLast?, w x < q then 1 else 0 := by
  unfold Command.sequencesOf at h ⊢
  induction cs using List.reverseRecOn with
  | nil => simp [pending, pendingAfter]
  | append_singleton cs c ih =>
    rw [pending_append_singleton _ (Nat.zero_le _)]
    by_cases hc : c.source = x
    · -- the command is the last of its source: the ones before are at or below the watermark
      have hbefore : ∀ q ∈ (cs.filter fun c => c.source = x).map (·.sequence), q ≤ w x := by
        simpa [List.filter_append, hc] using h
      have hhighest : Command.highest cs c.source ≤ w x :=
        Command.highest_le fun c' hc' hsource => hbefore _
          (List.mem_map.2 ⟨c', List.mem_filter.2 ⟨hc', by simp [hsource, hc]⟩, rfl⟩)
      have hrest : (pending w cs 0).countP (·.source == x) = 0 := by
        rw [ih fun q hq => hbefore q (List.mem_of_mem_dropLast hq), if_neg]
        rintro ⟨q, hq, hlt⟩
        exact absurd (hbefore q (List.mem_of_getLast? hq)) (UInt64.not_le.2 hlt)
      subst hc
      by_cases habove : w c.source < c.sequence
      · have hnew : Command.highest cs c.source < c.sequence :=
          UInt64.lt_of_le_of_lt hhighest habove
        simp [List.countP_append, hrest, habove, hnew, List.filter_append, Command.entry]
      · simp [hrest, habove, List.filter_append]
    · -- a command of another source restores nothing of this one
      have hsame : (cs ++ [c]).filter (fun c => c.source = x) = cs.filter fun c => c.source = x := by
        simp [List.filter_append, hc]
      have hnone : (if w c.source < c.sequence ∧ Command.highest cs c.source < c.sequence then
          [c.entry] else []).countP (·.source == x) = 0 := by
        split <;> simp [Command.entry, hc]
      rw [hsame] at h ⊢
      rw [List.countP_append, ih h, hnone, Nat.add_zero]

end InFlight

namespace Engine

variable {W : Type}

section Round

variable {s s' : Engine W × W} {m : Stored} {c : Command} {now : Timestamp}

/-- A round raises the watermark the event log gives the command's source to the command's
sequence when the command was processed, and leaves every other watermark. -/
theorem Took.watermark (ht : Took s m c now s') (x : SourceId) :
    s'.1.events.watermark x =
      if x = c.source ∧ s.1.base.lastCommand c.source < c.sequence then c.sequence
      else s.1.events.watermark x := by
  rw [MessageLog.watermark_of_appended ht.events fun e he => (mem_batch_dispatchOf he).2.2.2,
    lastCommand_recordAll_batch]
  rfl

theorem Took.lastCommand (ht : Took s m c now s') (x : SourceId) :
    s'.1.base.lastCommand x =
      if x = c.source ∧ s.1.base.lastCommand c.source < c.sequence then c.sequence
      else s.1.base.lastCommand x := by
  rw [ht.base, lastCommand_recordAll_batch]

/-- A round takes no command of a source out of the tracker unless it processed a command of that
source. -/
theorem Took.countFor (ht : Took s m c now s') {x : SourceId}
    (hx : ¬(x = c.source ∧ s.1.base.lastCommand c.source < c.sequence)) :
    s'.1.outbox.inFlight.countFor x = s.1.outbox.inFlight.countFor x := by
  refine InFlight.countFor_acknowledgeAll_of_ne ht.acks fun ev hev hsource => hx ?_
  -- an event in the batch: the command was processed
  have hnew : s.1.base.lastCommand c.source < c.sequence := by
    refine UInt64.not_le.1 fun hdup => ?_
    rw [batch_dispatchOf, if_pos hdup] at hev
    cases hev
  exact ⟨hsource ▸ (mem_batch_dispatchOf hev).1, hnew⟩

end Round

end Engine

namespace Inventory

open Engine

variable {L : SourceId} {s t : Engine Warehouse × Warehouse}

/-- A value in a list of which every element but the last is at or below `b`, and which is above
`b`, is the last. -/
theorem getLast?_of_above {l : List UInt64} {a b : UInt64} (h : ∀ q ∈ l.dropLast, q ≤ b)
    (ha : a ∈ l) (hlt : b < a) : l.getLast? = some a := by
  have hne : l ≠ [] := List.ne_nil_of_mem ha
  rw [← List.dropLast_append_getLast hne] at ha
  rcases List.mem_append.1 ha with ha | ha
  · exact absurd (h a ha) (UInt64.not_le.2 hlt)
  · rw [List.mem_singleton.1 ha, List.getLast?_eq_some_getLast hne]

/-- What keeps one command at most of the loopback source `L` in flight in a warehouse engine.
Every command of `L` in the log but the last is at or below the watermark of `L` that the event
log gives. Before the start nothing is in flight or seen and the base state is fresh. Once
started, the applier is at the end of the event log, so that the base state's watermark of `L`
is the log's, and the last command of `L` is in flight while it is above it. -/
structure Guarded (L : SourceId) (s : Engine Warehouse × Warehouse) : Prop where
  shaped : Shaped L s.1
  readable : s.1.outbox.commands.Readable
  settled : ∀ q ∈ (s.1.outbox.commands.sequencesOf L).dropLast, q ≤ s.1.events.watermark L
  fresh : ¬Started s → s.1.outbox.inFlight.entries = [] ∧
    (∀ x, s.1.outbox.transient.maxSource x = 0) ∧ s.1.base = {}
  caughtUp : Started s → s.1.applierAt = s.1.events.length
  base : Started s → s.1.base.lastCommand L = s.1.events.watermark L
  single : s.1.outbox.inFlight.countFor L ≤ 1
  tracked : Started s → ∀ q ∈ (s.1.outbox.commands.sequencesOf L).getLast?,
    s.1.base.lastCommand L < q → 0 < s.1.outbox.inFlight.countFor L

namespace Guarded

/-- The guard reads the members, the records of both logs, the applier's place, the commands in
flight, the maxima seen, the base state and whether the engine started: nothing else. -/
theorem congr (h : Guarded L s) (hshape : Shaped L t.1)
    (hcommands : t.1.outbox.commands.messages = s.1.outbox.commands.messages)
    (hentries : t.1.outbox.inFlight.entries = s.1.outbox.inFlight.entries)
    (htransient : t.1.outbox.transient = s.1.outbox.transient)
    (hevents : t.1.events.messages = s.1.events.messages) (hat : t.1.applierAt = s.1.applierAt)
    (hbase : t.1.base = s.1.base) (hstatus : t.1.status = s.1.status) : Guarded L t := by
  have hstarted : Started t ↔ Started s := by simp only [Started, hstatus]
  have hseqs := MessageLog.sequencesOf_congr hcommands L
  have hwm := MessageLog.watermark_congr hevents L
  have hcount : t.1.outbox.inFlight.countFor L = s.1.outbox.inFlight.countFor L := by
    simp only [InFlight.countFor, hentries]
  have hlen : t.1.events.length = s.1.events.length := by simp only [MessageLog.length, hevents]
  exact
    { shaped := hshape
      readable := by simpa only [MessageLog.Readable, hcommands] using h.readable
      settled := by rw [hseqs, hwm]; exact h.settled
      fresh := fun hs => by
        rw [hentries, htransient, hbase]
        exact h.fresh (hs ∘ hstarted.2)
      caughtUp := fun hs => by rw [hat, hlen]; exact h.caughtUp (hstarted.1 hs)
      base := fun hs => by rw [hbase, hwm]; exact h.base (hstarted.1 hs)
      single := hcount ▸ h.single
      tracked := fun hs => by rw [hseqs, hbase, hcount]; exact h.tracked (hstarted.1 hs) }

/-- A send of a started engine keeps the guard, when it is from another source than `L` or
nothing of `L` is in flight: the last command of `L` was then at or below the watermark. -/
theorem send (h : Guarded L s) (hs : Started s) {ctx : SendContext} {x : SourceId}
    (hfree : x = L → s.1.outbox.inFlight.countFor L = 0) (payloadType : PayloadType)
    (payload : Bytes) :
    Guarded L ({ s.1 with outbox := (s.1.outbox.send ctx x payloadType payload).2 }, s.2) := by
  cases hsend : s.1.outbox.send ctx x payloadType payload with
  | mk r o' =>
  dsimp only
  cases r with
  | error e =>
    obtain ⟨-, hcommands, hentries, htransient, -⟩ := Outbox.send_eq_error hsend
    exact h.congr (h.shaped.of_members rfl rfl rfl rfl rfl rfl) (by rw [hcommands]) hentries htransient
      rfl rfl rfl rfl
  | ok q =>
    obtain ⟨-, hcommands, hinflight, -, -⟩ := Outbox.send_eq_ok hsend
    have hdecode := Command.decode_encode ⟨x, q, ctx.now, payloadType, payload⟩
    have hseqs : o'.commands.sequencesOf L =
        s.1.outbox.commands.sequencesOf L ++ if x = L then [q] else [] := by
      rw [hcommands, MessageLog.sequencesOf_push hdecode]
    have hcount : o'.inFlight.countFor L =
        s.1.outbox.inFlight.countFor L + if x = L then 1 else 0 := by
      simp only [hinflight, InFlight.countFor, InFlight.entries_send, List.countP_append]
      by_cases hx : x = L <;> simp [hx]
    exact
      { shaped := h.shaped.of_members rfl rfl rfl rfl rfl rfl
        readable := fun b hb => by
          rw [hcommands, Array.toList_push, List.mem_append, List.mem_singleton] at hb
          rcases hb with hb | rfl
          · exact h.readable b hb
          · exact ⟨_, hdecode⟩
        settled := by
          show ∀ q' ∈ (o'.commands.sequencesOf L).dropLast, q' ≤ s.1.events.watermark L
          rw [hseqs]
          by_cases hx : x = L
          · -- nothing of `L` in flight: the last command of `L` is at or below the watermark
            rw [if_pos hx, List.dropLast_concat]
            intro q' hq'
            rcases List.mem_iff_append.1 hq' with ⟨pre, post, hsplit⟩
            cases post with
            | nil =>
              have hlast : (s.1.outbox.commands.sequencesOf L).getLast? = some q' := by
                rw [hsplit, List.getLast?_append_of_ne_nil _ (List.cons_ne_nil _ _)]
                rfl
              have := h.tracked hs q' hlast
              rw [hfree hx] at this
              rw [← h.base hs]
              exact UInt64.not_lt.1 fun hlt => Nat.lt_irrefl 0 (this hlt)
            | cons r post =>
              apply h.settled
              rw [hsplit]
              simp
          · rw [if_neg hx, List.append_nil]
            exact h.settled
        fresh := fun hn => absurd hs hn
        caughtUp := h.caughtUp
        base := h.base
        single := by
          show o'.inFlight.countFor L ≤ 1
          rw [hcount]
          by_cases hx : x = L
          · rw [if_pos hx, hfree hx]
          · rw [if_neg hx, Nat.add_zero]
            exact h.single
        tracked := fun hs' q' hq' hlt => by
          show 0 < o'.inFlight.countFor L
          rw [hcount]
          by_cases hx : x = L
          · rw [if_pos hx]
            exact Nat.succ_pos _
          · rw [if_neg hx, Nat.add_zero]
            rw [hseqs, if_neg hx, List.append_nil] at hq'
            exact h.tracked hs q' hq' hlt }

/-- An engine built by the inventory's blueprint over logs that hold to the guard is guarded,
whatever the warehouse it starts from. -/
theorem build {config : EngineConfig} {commands events : MessageLog} {e : Engine Warehouse}
    (w : Warehouse) (hb : (blueprint config commands events).build = .ok e)
    (hread : commands.Readable)
    (hsettled : ∀ q ∈ (commands.sequencesOf config.loopbackSource).dropLast,
      q ≤ events.watermark config.loopbackSource) :
    Guarded config.loopbackSource (e, w) := by
  obtain ⟨-, hevents, hcommands, hentries, -, htransient, hbase, -, hstatus⟩ :=
    Blueprint.build_eq_ok hb
  have hfresh : ¬Started (e, w) := by simp [Started, hstatus]
  exact
    { shaped := shaped_build hb
      readable := hcommands ▸ hread
      settled := by rw [hcommands, hevents]; exact hsettled
      fresh := fun _ => ⟨hentries, fun x => by rw [htransient]; rfl, hbase⟩
      caughtUp := fun hs => absurd hs hfresh
      base := fun hs => absurd hs hfresh
      single := by simp [InFlight.countFor, hentries]
      tracked := fun hs => absurd hs hfresh }

/-- A producer appending a command of another source than `L` keeps the guard. -/
theorem append (h : Guarded L s) {bytes : Bytes} {c : Command} {i : Nat} {log : MessageLog}
    (hdecode : Command.decode bytes = .ok c) (hsource : c.source ≠ L)
    (happend : s.1.outbox.commands.append bytes = .ok (i, log)) :
    Guarded L ({ s.1 with outbox := { s.1.outbox with commands := log } }, s.2) := by
  obtain ⟨-, rfl⟩ := MessageLog.append_eq_ok happend
  have hseqs := @MessageLog.sequencesOf_push s.1.outbox.commands _ _ hdecode L
  rw [if_neg hsource, List.append_nil] at hseqs
  exact
    { shaped := h.shaped.of_members rfl rfl rfl rfl rfl rfl
      readable := fun b hb => by
        rw [Array.toList_push, List.mem_append, List.mem_singleton] at hb
        rcases hb with hb | rfl
        · exact h.readable b hb
        · exact ⟨c, hdecode⟩
      settled := by
        show ∀ q ∈ (MessageLog.sequencesOf _ L).dropLast, q ≤ s.1.events.watermark L
        rw [hseqs]
        exact h.settled
      fresh := h.fresh
      caughtUp := h.caughtUp
      base := h.base
      single := h.single
      tracked := fun hs q hq => h.tracked hs q (hseqs ▸ hq) }

/-- A start restores into the tracker the last command of `L` when it is above the watermark,
and no other command of `L`: the guard holds of the started engine. -/
theorem start (h : Guarded L s) (hs : ¬Started s) {now : Timestamp} {st : EngineStatus}
    {s' : Engine Warehouse × Warehouse} (hstart : exec Engine.start now s = (.ok st, s')) :
    Guarded L s' := by
  obtain ⟨evs, hst⟩ := starts_of_exec hstart
  obtain ⟨hempty, hseen, hbase⟩ := h.fresh hs
  obtain ⟨hentries, -⟩ := hst.restored hempty hseen h.readable
  -- the replay read the whole event log from a fresh base state
  have hevs : evs = s.1.events.readEvents := by
    have hrec := hst.records
    rw [hbase] at hrec
    exact (MessageLog.readEvents_of_decode hrec).symm
  have hB : s'.1.base.lastCommand L = s.1.events.watermark L := by
    rw [hst.base, hbase, hevs]
    rfl
  have hwm : s'.1.events.watermark L = s.1.events.watermark L :=
    MessageLog.watermark_congr hst.messages L
  have hseqs : s'.1.outbox.commands.sequencesOf L = s.1.outbox.commands.sequencesOf L := by
    rw [hst.commands]
  have hcount : s'.1.outbox.inFlight.countFor L =
      if ∃ q ∈ (s.1.outbox.commands.sequencesOf L).getLast?, s.1.events.watermark L < q then 1
      else 0 := by
    have hsettled : ∀ q ∈ (s.1.outbox.commands.sequencesOf L).dropLast,
        q ≤ s'.1.base.lastCommand L := by
      rw [hB]
      exact h.settled
    rw [InFlight.countFor, hentries, ← hB]
    unfold MessageLog.sequencesOf at hsettled ⊢
    exact InFlight.countP_pending hsettled
  exact
    { shaped := h.shaped.start hstart
      readable := hst.commands ▸ h.readable
      settled := by rw [hseqs, hwm]; exact h.settled
      fresh := fun hn => absurd hst.started hn
      caughtUp := fun _ => by
        rw [hst.applierAt]
        simp only [MessageLog.length, hst.messages]
      base := fun _ => hB.trans hwm.symm
      single := by rw [hcount]; split <;> omega
      tracked := fun _ q hq hlt => by
        rw [hcount, if_pos ⟨q, hseqs ▸ hq, hB ▸ hlt⟩]
        exact Nat.one_pos }

/-- A round keeps the guard. It raises the watermark of `L` only past the command of `L` it
processed, which, being above the watermark, is the last of `L`: the commands of `L` before it
stay at or below the new watermark, and nothing of `L` is above it. -/
theorem round (h : Guarded L s) (hs : Started s) {m : Stored} {c : Command} {now : Timestamp}
    (ht : Took s m c now t) (hshape : Shaped L t.1) : Guarded L t := by
  have hstarted : Started t := by
    unfold Started
    rw [ht.fixed.status]
    exact hs
  have hseqs := MessageLog.sequencesOf_congr ht.commands L
  have hwm := ht.watermark L
  have hB := ht.lastCommand L
  have hW := h.base hs
  refine
    { shaped := hshape
      readable := by simpa only [MessageLog.Readable, ht.commands] using h.readable
      settled := ?_
      fresh := fun hn => absurd hstarted hn
      caughtUp := fun _ => ht.applierAt
      base := fun _ => by rw [hB, hwm, hW]
      single := Nat.le_trans (InFlight.countFor_acknowledgeAll_le ht.acks L) h.single
      tracked := fun _ q hq hlt => ?_ }
  · rw [hseqs, hwm]
    intro q hq
    split
    · rename_i hnew
      obtain ⟨rfl, hlt⟩ := hnew
      exact UInt64.le_trans (h.settled q hq) (UInt64.le_of_lt (hW ▸ hlt))
    · exact h.settled q hq
  · rw [hseqs] at hq
    by_cases hnew : L = c.source ∧ s.1.base.lastCommand c.source < c.sequence
    · -- the command processed is the last of `L`, and the watermark is now its sequence
      obtain ⟨hL, hlt'⟩ := hnew
      have hmem : c.sequence ∈ s.1.outbox.commands.sequencesOf L :=
        List.mem_map.2 ⟨c, List.mem_filter.2 ⟨List.mem_of_getElem? ht.command, by simp [hL]⟩, rfl⟩
      have hlast := getLast?_of_above h.settled hmem (by rw [← hW, hL]; exact hlt')
      rw [hlast, Option.mem_def, Option.some.injEq] at hq
      rw [hB, if_pos ⟨hL, hlt'⟩, ← hq] at hlt
      exact absurd hlt (UInt64.lt_irrefl _)
    · rw [ht.countFor hnew]
      rw [hB, if_neg hnew] at hlt
      exact h.tracked hs q hq hlt

end Guarded

/-- The guard is an invariant of the warehouse's engines for hosts that send from other sources
than `L`. -/
theorem guarded_invariant : Invariant L (· ≠ L) (Guarded L) where
  shaped h := h.shaped
  readable h := h.readable
  caughtUp h := h.caughtUp
  congr h hshape _ hcommands hentries htransient hevents hat hbase hstatus _ :=
    h.congr hshape (by rw [hcommands]) hentries htransient hevents hat hbase hstatus
  round h hs _ _ hr ht := h.round hs ht (h.shaped.round hs hr)
  send h hs hx := h.send hs fun hxL => hx.elim (fun hne => absurd hxL hne) And.right

/-- Every state of a run in which nothing but the reorder output sends from the loopback source
is guarded. -/
theorem Run.guarded {config : EngineConfig} {w₀ : Warehouse}
    (hrun : Run config (· ≠ config.loopbackSource) w₀ s) : Guarded config.loopbackSource s := by
  induction hrun with
  | build hb =>
    exact Guarded.build w₀ hb (fun b hb => by simp at hb) (by simp [MessageLog.sequencesOf,
      MessageLog.readCommands, Command.sequencesOf])
  | rebuild _ hb ih => exact Guarded.build w₀ hb ih.readable ih.settled
  | start now _ hstart ih =>
    obtain ⟨_, hst⟩ := starts_of_exec hstart
    exact ih.start (by simp [Started, hst.fresh]) hstart
  | call now _ hs hm hnf ih => exact (hm.keeps guarded_invariant now _ ih hs hnf).1
  | append _ hdecode hsource happend ih => exact ih.append hdecode hsource happend

/-- Along every run of the inventory's engines in which nothing but the reorder output sends
from the loopback source, at most one command of that source is in flight; the engine's
outputs are all reorder outputs, whose loopback is that source, and such an output sends a
restock, from its loopback, only for a live stock event of a level below the threshold and
only while no command of its loopback is in flight. -/
theorem one_restock_in_flight {config : EngineConfig} {w₀ : Warehouse}
    (hrun : Run config (· ≠ config.loopbackSource) w₀ s) :
    s.1.outbox.inFlight.countFor config.loopbackSource ≤ 1 ∧
      s.1.publisher.loopbackSource = config.loopbackSource ∧
      ∀ slot ∈ s.1.publisher.slots, ∀ (e : Event) (ctx : OutputContext) (w : Warehouse)
        (o : Outbox),
        let r := slot.output.publish e ctx w o
        r.2.1 = w ∧ (r.2.2 = o ∨
          e.payloadType = Warehouse.stockType ∧ ctx.replay = false ∧
            o.inFlight.countFor ctx.loopbackSource = 0 ∧
            ∃ text item level, Bytes.utf8? e.payload = some text ∧
              Warehouse.parseLine text = .ok (item, level) ∧ level < reorderThreshold ∧
              r.2.2 = (o.send ctx.send ctx.loopbackSource Warehouse.restock
                (Bytes.ofString (Warehouse.line item reorderBatch))).2) := by
  have hg := hrun.guarded
  refine ⟨hg.single, hg.shaped.loopback, fun slot hslot e ctx w o => ?_⟩
  rw [hg.shaped.outputs slot hslot]
  exact Warehouse.publish_reorder reorderThreshold reorderBatch e ctx w o

/-- The law along the sample session, where the reorder output's restock is in flight. -/
theorem one_restock_in_flight_of_restock :
    ∃ s : Engine Warehouse × Warehouse, Run {} (· ≠ ({} : EngineConfig).loopbackSource) {} s ∧
      s.1.outbox.inFlight.countFor ({} : EngineConfig).loopbackSource = 1 ∧
      s.1.outbox.inFlight.countFor ({} : EngineConfig).loopbackSource ≤ 1 ∧
      s.1.publisher.loopbackSource = ({} : EngineConfig).loopbackSource ∧
      ∀ slot ∈ s.1.publisher.slots, ∀ (e : Event) (ctx : OutputContext) (w : Warehouse)
        (o : Outbox),
        let r := slot.output.publish e ctx w o
        r.2.1 = w ∧ (r.2.2 = o ∨
          e.payloadType = Warehouse.stockType ∧ ctx.replay = false ∧
            o.inFlight.countFor ctx.loopbackSource = 0 ∧
            ∃ text item level, Bytes.utf8? e.payload = some text ∧
              Warehouse.parseLine text = .ok (item, level) ∧ level < reorderThreshold ∧
              r.2.2 = (o.send ctx.send ctx.loopbackSource Warehouse.restock
                (Bytes.ofString (Warehouse.line item reorderBatch))).2) := by
  obtain ⟨s, hrun, -, -, -, hcount⟩ := Run.restock_sample
  exact ⟨s, hrun, hcount, one_restock_in_flight hrun⟩

end Inventory

end EventSourcing
