import EventSourcing.Proofs.Runs

/-!
# What every run keeps

Along a run over one pair of logs the logs and the engines stay consistent with what the labels
say happened. The event log is the batches of the dispatches so far, one after the other, and
the event at index `i` has sequence `i + 1`. The dispatcher has taken the commands before its
poller, one dispatch each and in log order, and each dispatch decided on the highest sequence
its source had before it in the log. A started engine has applied every event: its base state
is the one those batches give, and the events its applier took since it started are exactly
the batches, each seen by the appliers as the replay mode says (`Run.consistent`).

The event log must hold at most `unbounded` events, the most a machine word counts.
-/

namespace EventSourcing

namespace Label

/-- The events the dispatches appended, in order. -/
def batches (ls : List Label) : List Event := (dispatches ls).flatMap Dispatch.batch

@[simp]
theorem batches_append (ls ls' : List Label) :
    batches (ls ++ ls') = batches ls ++ batches ls' := by
  simp [batches]

theorem appliedEvents_map_applied (evs : List Event) (f : Event → Bool) :
    appliedEvents (evs.map fun ev => applied ev (f ev)) = evs.map fun ev => (ev, f ev) := by
  rw [appliedEvents, List.filterMap_map]
  exact congrFun List.filterMap_eq_map evs

end Label

namespace Engine

variable {W : Type}

/-- What holds at every point of a run whose dispatchers use the poller `D`, with the labels
`ls` of what happened so far. -/
structure Consistent (D : String) (ls : List Label) (s : Engine W × W) : Prop where
  dispatcher : s.1.config.dispatcherPoller = D
  readable : s.1.outbox.commands.Readable
  /-- The event log is the batches, one after the other. -/
  events : s.1.events.messages.toList = (Label.batches ls).map Event.encode
  fits : ∀ e ∈ Label.batches ls, e.payload.length ≤ Router.maxPayload
  numbered : ∀ i e, (Label.batches ls)[i]? = some e → e.sequence = (i + 1).toUInt64
  /-- The dispatcher took each command before its poller once, in log order. -/
  indexes : (Label.dispatches ls).map Dispatch.index = List.range s.1.dispatcherAt
  passed : s.1.dispatcherAt ≤ s.1.outbox.commands.length
  command : ∀ d ∈ Label.dispatches ls,
    s.1.outbox.commands.readCommands[d.index]? = some d.command
  /-- Each dispatch read the highest sequence of its source before it in the log. -/
  last : ∀ d ∈ Label.dispatches ls,
    d.last = Command.highest (s.1.outbox.commands.readCommands.take d.index) d.command.source
  /-- The batches set each source's watermark to its highest sequence the dispatcher passed. -/
  watermarks : ∀ x, (BaseState.recordAll {} (Label.batches ls)).lastCommand x =
    Command.highest (s.1.outbox.commands.readCommands.take s.1.dispatcherAt) x
  fresh : s.1.status.started = false → s.1.base = {}
  applied : Started s → s.1.applierAt = s.1.events.length
  base : Started s → s.1.base = BaseState.recordAll {} (Label.batches ls)
  /-- Since it started, the applier took the batches, seen as the replay mode says. -/
  life : Started s → Label.appliedEvents (Label.latestLife ls) =
    (Label.batches ls).map fun e => (e, s.1.application.mode.admits e.kind)

/-- Events that fit a record read back from their records. -/
theorem decode_map_encode {evs : List Event}
    (hfit : ∀ e ∈ evs, e.payload.length ≤ Router.maxPayload) :
    (evs.map Event.encode).map Event.decode = evs.map .ok := by
  rw [List.map_map]
  refine List.map_congr_left fun e he => ?_
  have hlt : e.payload.length < 4294967296 := Nat.lt_of_le_of_lt (hfit e he) (by decide)
  exact Event.decode_encode e hlt

theorem eq_of_map_encode {evs evs' : List Event}
    (hfit : ∀ e ∈ evs, e.payload.length ≤ Router.maxPayload)
    (h : (evs.map Event.encode).map Event.decode = evs'.map .ok) : evs' = evs := by
  rw [decode_map_encode hfit] at h
  exact (List.map_inj_right fun _ _ hxy => Except.ok.inj hxy).1 h.symm

/-- An applier that took events from the start of an appended batch, and stopped only at the
end of the log or after the most events a machine word counts, took the whole batch: the
batch holds no more events than that. -/
theorem Replayed.eq_of_appended {s₁ s' : Engine W × W} {evs batch : List Event}
    {pre : List Bytes} (hrep : Replayed s₁ evs s')
    (hend : evs.length < unbounded → s'.1.events.length ≤ s'.1.applierAt)
    (hmessages : s₁.1.events.messages.toList = pre ++ batch.map Event.encode)
    (hat : s₁.1.applierAt = pre.length)
    (hfit : ∀ e ∈ batch, e.payload.length ≤ Router.maxPayload)
    (hshort : batch.length ≤ unbounded) :
    evs = batch ∧ s'.1.applierAt = s'.1.events.length := by
  have hlen : s'.1.events.length = pre.length + batch.length := by
    have := congrArg List.length hmessages
    simp only [List.length_append, List.length_map, Array.length_toList] at this
    simp only [MessageLog.length, hrep.messages, this]
  have htake : evs = batch.take evs.length := by
    have hrec := hrep.records
    rw [hat, hmessages, List.drop_left, ← List.map_take] at hrec
    exact eq_of_map_encode (fun e he => hfit e (List.mem_of_mem_take he)) hrec
  have hle : evs.length ≤ batch.length := by
    rw [htake, List.length_take]
    exact Nat.min_le_right _ _
  -- the applier stopped at the end of the log: the machine word bounds the batch
  have hall : batch.length ≤ evs.length := by
    by_cases hlt : evs.length < unbounded
    · have := hend hlt
      rw [hrep.applierAt, hat] at this
      omega
    · unfold unbounded at hlt hshort
      omega
  refine ⟨?_, ?_⟩
  · rw [htake, List.take_of_length_le hall]
  · rw [hrep.applierAt, hat, hlen]
    omega

/-- The labels of the events the applier took between two states where it was at the end of
the log, the second log being the first with a batch appended: the batch. -/
theorem appliedBetween_of_appended {s s' : Engine W × W} {batch : List Event}
    (hevents : s'.1.events.messages.toList = s.1.events.messages.toList ++ batch.map Event.encode)
    (hat : s.1.applierAt = s.1.events.length) (hat' : s'.1.applierAt = s'.1.events.length)
    (hfit : ∀ e ∈ batch, e.payload.length ≤ Router.maxPayload) :
    appliedBetween s s' =
      batch.map fun ev => .applied ev (s.1.application.mode.admits ev.kind) := by
  have hlen : s'.1.events.length = s.1.events.length + batch.length := by
    have := congrArg List.length hevents
    simp only [List.length_append, List.length_map, Array.length_toList] at this
    simp only [MessageLog.length, this]
  have hdecode : (batch.map Event.encode).filterMap (fun b => (Event.decode b).toOption) = batch := by
    rw [show (fun b => (Event.decode b).toOption) = Except.toOption ∘ Event.decode from rfl,
      ← List.filterMap_map, decode_map_encode hfit, List.filterMap_map]
    exact List.filterMap_some
  unfold appliedBetween
  rw [hevents, hat, hat', hlen, List.drop_left' (by simp [MessageLog.length]),
    Nat.add_sub_cancel_left, List.take_of_length_le (by simp), hdecode]

/-- What a round of a consistent started engine that took the command `c` from the record `m`
did: the dispatcher moved one record on, the batch of the dispatch was appended, and the
applier took all of it. -/
structure Took (s : Engine W × W) (m : Stored) (c : Command) (now : Timestamp)
    (s' : Engine W × W) : Prop where
  index : m.index = s.1.dispatcherAt
  command : s.1.outbox.commands.readCommands[m.index]? = some c
  commands : s'.1.outbox.commands.messages = s.1.outbox.commands.messages
  dispatcherAt : s'.1.dispatcherAt = s.1.dispatcherAt + 1
  passed : s'.1.dispatcherAt ≤ s.1.outbox.commands.length
  events : s'.1.events.messages.toList =
    s.1.events.messages.toList ++ (dispatchOf s m.index c now).batch.map Event.encode
  applierAt : s'.1.applierAt = s'.1.events.length
  base : s'.1.base = s.1.base.recordAll (dispatchOf s m.index c now).batch
  mode : s'.1.application.mode = s.1.application.mode
  fixed : Fixed s s'
  /-- The tracker took the acknowledgements of the batch. -/
  acks : s.1.outbox.inFlight.acknowledgeAll (dispatchOf s m.index c now).batch =
    .ok s'.1.outbox.inFlight
  sequencers : s'.1.outbox.sequencers = s.1.outbox.sequencers
  sources : s'.1.outbox.transient.sources =
    (s.1.outbox.transient.noteCommand c.source c.sequence).sources

/-- The dispatcher's step appends the batch at the end of the event log, where an applier
that was at the end still stands: appending moves no poller. -/
theorem Dispatched.appended {s s₁ : Engine W × W} {now : Timestamp} {m : Stored} {c : Command}
    (hd : Dispatched s m c now s₁) (hat : s.1.applierAt = s.1.events.length) :
    s₁.1.applierAt = s.1.events.messages.toList.length ∧
      s₁.1.events.messages.toList =
        s.1.events.messages.toList ++ (dispatchOf s m.index c now).batch.map Event.encode := by
  refine ⟨?_, by simp [hd.events]⟩
  have hat₁ : s₁.1.applierAt = s.1.applierAt := by
    simp only [applierAt, hd.events, hd.fixed.config]
    rfl
  rw [hat₁, hat]
  rfl

/-- A round of a started engine with the applier at the end of the event log, that took the
command `c` from the record `m`: the dispatcher's step appended the batch of the dispatch, and the
applier took all of it, so long as it holds no more events than a machine word counts. -/
theorem dispatchRound_replayed {s s' : Engine W × W} (hs : Started s)
    (hat : s.1.applierAt = s.1.events.length) {now : Timestamp} {m : Stored} {c : Command}
    {n : Nat} (hpeek : s.1.outbox.commands.peek? s.1.config.dispatcherPoller = some m)
    (hdecode : Command.decode m.bytes = .ok c)
    (hround : exec dispatchRound now s = (.ok (some n), s'))
    (hshort : (dispatchOf s m.index c now).batch.length ≤ unbounded) :
    ∃ s₁, Dispatched s m c now s₁ ∧ Replayed s₁ (dispatchOf s m.index c now).batch s' ∧
      s'.1.applierAt = s'.1.events.length ∧ s₁.2 = (exec dispatchNext now s).2.2 := by
  obtain ⟨m', c', s₁, evs, hd, hrep, hend, hworld⟩ := dispatchRound_eq_some hs hround
  obtain rfl : m = m' := Option.some.inj (hpeek.symm.trans hd.peek)
  obtain rfl : c = c' := Except.ok.inj (hdecode.symm.trans hd.decode)
  obtain ⟨hat₁, hmessages₁⟩ := hd.appended hat
  obtain ⟨rfl, hat'⟩ := hrep.eq_of_appended hend hmessages₁ hat₁
    (fun e he => (mem_batch_dispatchOf he).2.2.2) hshort
  exact ⟨s₁, hd, hrep, hat', hworld⟩

/-- A round of a started engine, over a readable command log and with the applier at the end of
the event log, that took the command `c` from the record `m` did what `Took` says, so long as
the batch holds no more events than a machine word counts. -/
theorem took_of_caughtUp {s s' : Engine W × W} (hs : Started s)
    (hread : s.1.outbox.commands.Readable) (hat : s.1.applierAt = s.1.events.length)
    {now : Timestamp} {m : Stored} {c : Command} {n : Nat}
    (hpeek : s.1.outbox.commands.peek? s.1.config.dispatcherPoller = some m)
    (hdecode : Command.decode m.bytes = .ok c)
    (hround : exec dispatchRound now s = (.ok (some n), s'))
    (hshort : (dispatchOf s m.index c now).batch.length ≤ unbounded) : Took s m c now s' := by
  obtain ⟨s₁, hd, hrep, hat', -⟩ := dispatchRound_replayed hs hat hpeek hdecode hround hshort
  have hadvance := hd.commands
  have happ := hd.application
  have hfixed := hd.fixed
  obtain ⟨hindex, hbytes⟩ := MessageLog.peek?_eq_some.1 hpeek
  obtain ⟨hlt, hadvanced⟩ := MessageLog.advance_eq_ok hadvance
  have hcfg : s'.1.config = s.1.config := (hfixed.trans hrep.fixed).config
  have hcommands : s'.1.outbox.commands = s.1.outbox.commands.setPosition
      s.1.config.dispatcherPoller (s.1.dispatcherAt + 1) := by
    rw [hrep.commands, hadvanced]
    rfl
  have hmessages₁ := (hd.appended hat).2
  exact
    { index := hindex
      command := MessageLog.getElem?_readCommands hread (hindex ▸ hbytes) hdecode
      commands := by simp [hcommands]
      dispatcherAt := by
        simp only [dispatcherAt, hcommands, hcfg, MessageLog.position_setPosition]
      passed := by
        simp only [dispatcherAt, hcommands, hcfg, MessageLog.position_setPosition]
        exact hlt
      events := by rw [hrep.messages]; exact hmessages₁
      applierAt := hat'
      base := by rw [hrep.base]; simp only [Engine.base, happ]
      mode := hrep.mode.trans (congrArg Application.mode happ)
      fixed := hfixed.trans hrep.fixed
      acks := hd.inFlight ▸ hrep.acks
      sequencers := hrep.sequencers.trans hd.sequencers
      sources := hrep.sources.trans hd.sources }

/-- The same, so long as the event log the round leaves holds no more events than a machine
word counts: the batch lies in it. -/
theorem took_of_bound {s s' : Engine W × W} (hs : Started s)
    (hread : s.1.outbox.commands.Readable) (hat : s.1.applierAt = s.1.events.length)
    {now : Timestamp} {m : Stored} {c : Command} {n : Nat}
    (hpeek : s.1.outbox.commands.peek? s.1.config.dispatcherPoller = some m)
    (hdecode : Command.decode m.bytes = .ok c)
    (hround : exec dispatchRound now s = (.ok (some n), s'))
    (hbound : s'.1.events.length ≤ unbounded) : Took s m c now s' := by
  refine took_of_caughtUp hs hread hat hpeek hdecode hround ?_
  obtain ⟨m', c', s₁, evs, hd, hrep, -⟩ := dispatchRound_eq_some hs hround
  obtain rfl : m = m' := Option.some.inj (hpeek.symm.trans hd.peek)
  obtain rfl : c = c' := Except.ok.inj (hdecode.symm.trans hd.decode)
  have hlen := congrArg List.length (hd.appended hat).2
  simp only [List.length_append, List.length_map, Array.length_toList] at hlen
  have hlen' : s'.1.events.length = s₁.1.events.messages.size := by
    simp only [MessageLog.length, hrep.messages]
  omega

namespace Consistent

variable {D : String} {ls : List Label} {s s' : Engine W × W}

theorem index_lt (h : Consistent D ls s) {d : Dispatch} (hd : d ∈ Label.dispatches ls) :
    d.index < s.1.dispatcherAt := by
  have hmem : d.index ∈ (Label.dispatches ls).map Dispatch.index := List.mem_map_of_mem hd
  rw [h.indexes] at hmem
  exact List.mem_range.1 hmem

theorem passed_readCommands (h : Consistent D ls s) :
    s.1.dispatcherAt ≤ s.1.outbox.commands.readCommands.length := by
  rw [MessageLog.length_readCommands h.readable]
  exact h.passed

/-- The events of a consistent log are numbered from 1 on, as the applier checks them. -/
theorem sequence_toNat (h : Consistent D ls s) (hbound : s.1.events.length ≤ unbounded) {i : Nat}
    {e : Event} (hi : (Label.batches ls)[i]? = some e) : e.sequence.toNat = i + 1 := by
  have hlen : s.1.events.length = (Label.batches ls).length := by
    have := congrArg List.length h.events
    simpa [MessageLog.length] using this
  have hlt : i < (Label.batches ls).length := (List.getElem?_eq_some_iff.1 hi).1
  rw [h.numbered i e hi]
  simp only [Nat.toUInt64, UInt64.toNat_ofNat']
  unfold unbounded at hbound
  exact Nat.mod_eq_of_lt (by omega)

/-- A change that leaves the logs' records, the dispatcher's and the applier's positions, the
start status and the application alone keeps the invariant. -/
theorem congr (h : Consistent D ls s) (hcfg : s'.1.config = s.1.config)
    (hcommands : s'.1.outbox.commands = s.1.outbox.commands)
    (hevents : s'.1.events.messages = s.1.events.messages)
    (happlier : s'.1.applierAt = s.1.applierAt) (hstatus : s'.1.status = s.1.status)
    (happ : s'.1.application = s.1.application) : Consistent D ls s' := by
  have hat : s'.1.dispatcherAt = s.1.dispatcherAt := by simp only [dispatcherAt, hcommands, hcfg]
  have hlen : s'.1.events.length = s.1.events.length := by
    simp only [MessageLog.length, ← Array.length_toList, hevents]
  have hstarted : Started s' ↔ Started s := by simp only [Started, hstatus]
  have hbase : s'.1.base = s.1.base := by simp only [Engine.base, happ]
  exact
    { dispatcher := hcfg ▸ h.dispatcher
      readable := hcommands ▸ h.readable
      events := hevents ▸ h.events
      fits := h.fits
      numbered := h.numbered
      indexes := hat ▸ h.indexes
      passed := hat ▸ hcommands ▸ h.passed
      command := hcommands ▸ h.command
      last := hcommands ▸ h.last
      watermarks := hat ▸ hcommands ▸ h.watermarks
      fresh := fun hf => hbase ▸ h.fresh (hstatus ▸ hf)
      applied := fun hs => hlen ▸ happlier ▸ h.applied (hstarted.1 hs)
      base := fun hs => hbase ▸ h.base (hstarted.1 hs)
      life := fun hs => by rw [h.life (hstarted.1 hs), happ] }

/-- Appending records that read as commands, with the pollers where they were, keeps the
invariant: the dispatcher has not passed them. -/
theorem grow (h : Consistent D ls s) (more : List Bytes)
    (hmore : ∀ b ∈ more, ∃ c, Command.decode b = .ok c) (hcfg : s'.1.config = s.1.config)
    (hmessages : s'.1.outbox.commands.messages.toList = s.1.outbox.commands.messages.toList ++ more)
    (hpollers : s'.1.outbox.commands.pollers = s.1.outbox.commands.pollers)
    (hevents : s'.1.events = s.1.events) (hstatus : s'.1.status = s.1.status)
    (happ : s'.1.application = s.1.application) : Consistent D ls s' := by
  have hat : s'.1.dispatcherAt = s.1.dispatcherAt := by
    simp only [dispatcherAt, MessageLog.position, hpollers, hcfg]
  have hread : s'.1.outbox.commands.readCommands = s.1.outbox.commands.readCommands ++
      more.filterMap fun b => (Command.decode b).toOption := by
    simp only [MessageLog.readCommands, hmessages, List.filterMap_append]
  have hlen : s.1.outbox.commands.length ≤ s'.1.outbox.commands.length := by
    have := congrArg List.length hmessages
    simp only [List.length_append, Array.length_toList] at this
    simp only [MessageLog.length]
    omega
  -- the dispatcher's records come before the new ones
  have htake : ∀ k ≤ s.1.dispatcherAt, s'.1.outbox.commands.readCommands.take k =
      s.1.outbox.commands.readCommands.take k := fun k hk => by
    rw [hread, List.take_append_of_le_length (Nat.le_trans hk h.passed_readCommands)]
  have hstarted : Started s' ↔ Started s := by simp only [Started, hstatus]
  have hbase : s'.1.base = s.1.base := by simp only [Engine.base, happ]
  exact
    { dispatcher := hcfg ▸ h.dispatcher
      readable := fun b hb => by
        rw [hmessages] at hb
        rcases List.mem_append.1 hb with hb | hb
        · exact h.readable b hb
        · exact hmore b hb
      events := by rw [hevents]; exact h.events
      fits := h.fits
      numbered := h.numbered
      indexes := hat ▸ h.indexes
      passed := hat ▸ Nat.le_trans h.passed hlen
      command := fun d hd => by
        rw [hread, List.getElem?_append_left
          (Nat.lt_of_lt_of_le (h.index_lt hd) h.passed_readCommands)]
        exact h.command d hd
      last := fun d hd => by rw [htake d.index (Nat.le_of_lt (h.index_lt hd))]; exact h.last d hd
      watermarks := fun x => by rw [hat, htake _ (Nat.le_refl _)]; exact h.watermarks x
      fresh := fun hf => hbase ▸ h.fresh (hstatus ▸ hf)
      applied := fun hs => by
        simp only [applierAt, hevents, hcfg]
        exact h.applied (hstarted.1 hs)
      base := fun hs => hbase ▸ h.base (hstarted.1 hs)
      life := fun hs => by rw [h.life (hstarted.1 hs), happ] }

/-- The dispatcher's step of a consistent started engine appends the batch where the applier
stands, at the end of the event log: appending moves no poller. -/
theorem appended (h : Consistent D ls s) (hs : Started s) {now : Timestamp} {m : Stored}
    {c : Command} {s₁ : Engine W × W} (hd : Dispatched s m c now s₁) :
    s₁.1.applierAt = s.1.events.messages.toList.length ∧
      s₁.1.events.messages.toList =
        s.1.events.messages.toList ++ (dispatchOf s m.index c now).batch.map Event.encode :=
  hd.appended (h.applied hs)

/-- A round of a consistent started engine that took a command did what `Took` says. -/
theorem took (h : Consistent D ls s) (hs : Started s) {now : Timestamp} {m : Stored}
    {c : Command} {n : Nat}
    (hpeek : s.1.outbox.commands.peek? s.1.config.dispatcherPoller = some m)
    (hdecode : Command.decode m.bytes = .ok c)
    (hround : exec dispatchRound now s = (.ok (some n), s'))
    (hbound : s'.1.events.length ≤ unbounded) : Took s m c now s' :=
  took_of_bound hs h.readable (h.applied hs) hpeek hdecode hround hbound

/-- A round that took a command keeps the invariant, with the dispatch and the events the
applier took as its labels. -/
theorem dispatched (h : Consistent D ls s) (hs : Started s) {now : Timestamp} {m : Stored}
    {c : Command} (ht : Took s m c now s') :
    Consistent D (ls ++ .dispatched (dispatchOf s m.index c now) :: appliedBetween s s') s' := by
  have hfit : ∀ e ∈ (dispatchOf s m.index c now).batch, e.payload.length ≤ Router.maxPayload :=
    fun e he => (mem_batch_dispatchOf he).2.2.2
  have hbetween := appliedBetween_of_appended ht.events (h.applied hs) ht.applierAt hfit
  have hdispatches : Label.dispatches (ls ++ .dispatched (dispatchOf s m.index c now) ::
      appliedBetween s s') = Label.dispatches ls ++ [dispatchOf s m.index c now] := by
    rw [hbetween, Label.dispatches_append]
    simp [Label.dispatches, List.filterMap_map]
  have hbatches : Label.batches (ls ++ .dispatched (dispatchOf s m.index c now) ::
      appliedBetween s s') = Label.batches ls ++ (dispatchOf s m.index c now).batch := by
    simp [Label.batches, hdispatches]
  have hread : s'.1.outbox.commands.readCommands = s.1.outbox.commands.readCommands := by
    simp only [MessageLog.readCommands, ht.commands]
  have hlength : s.1.events.length = (Label.batches ls).length := by
    have := congrArg List.length h.events
    simpa [MessageLog.length] using this
  -- the watermark the dispatch read is the highest sequence before the command
  have hlast : s.1.base.lastCommand c.source =
      Command.highest (s.1.outbox.commands.readCommands.take s.1.dispatcherAt) c.source := by
    rw [h.base hs, h.watermarks]
  have htake : s.1.outbox.commands.readCommands.take (s.1.dispatcherAt + 1) =
      s.1.outbox.commands.readCommands.take s.1.dispatcherAt ++ [c] := by
    rw [List.take_add_one, ← ht.index, ht.command]
    rfl
  have hstarted' : Started s' := by
    unfold Started
    rw [ht.fixed.status]
    exact hs
  exact
    { dispatcher := ht.fixed.config ▸ h.dispatcher
      readable := fun b hb => h.readable b (by rwa [ht.commands] at hb)
      events := by rw [ht.events, h.events, hbatches, List.map_append]
      fits := by
        rw [hbatches]
        intro e he
        rcases List.mem_append.1 he with he | he
        · exact h.fits e he
        · exact hfit e he
      numbered := by
        rw [hbatches]
        intro i e hi
        by_cases hlt : i < (Label.batches ls).length
        · rw [List.getElem?_append_left hlt] at hi
          exact h.numbered i e hi
        · rw [List.getElem?_append_right (Nat.le_of_not_lt hlt)] at hi
          rw [sequence_batch_dispatchOf hi, hlength, ← UInt64.ofNat_add]
          congr 1
          omega
      indexes := by
        rw [hdispatches, List.map_append, h.indexes, ht.dispatcherAt, List.range_succ]
        simp [dispatchOf, ht.index]
      passed := by
        have : s'.1.outbox.commands.length = s.1.outbox.commands.length := by
          simp only [MessageLog.length, ht.commands]
        rw [this]
        exact ht.passed
      command := by
        rw [hdispatches, hread]
        intro d hd
        rcases List.mem_append.1 hd with hd | hd
        · exact h.command d hd
        · rw [List.mem_singleton.1 hd]
          exact ht.command
      last := by
        rw [hdispatches, hread]
        intro d hd
        rcases List.mem_append.1 hd with hd | hd
        · exact h.last d hd
        · rw [List.mem_singleton.1 hd]
          simp only [dispatchOf, ht.index]
          exact hlast
      watermarks := fun x => by
        rw [hbatches, BaseState.recordAll_append, lastCommand_recordAll_batch, h.watermarks,
          hread, ht.dispatcherAt, htake, Command.highest_append_singleton, hlast]
        by_cases hx : x = c.source
        · subst hx
          simp
        · simp [hx, Ne.symm hx]
      fresh := fun hf => absurd hstarted' (by simp [Started, hf])
      applied := fun _ => ht.applierAt
      base := fun _ => by
        rw [ht.base, h.base hs, hbatches, BaseState.recordAll_append]
      life := fun _ => by
        rw [Label.latestLife_append (by rw [hbetween]; simp [Label.isStart]),
          Label.appliedEvents_append, h.life hs, hbatches, hbetween, ht.mode, List.map_append]
        exact congrArg _ (Label.appliedEvents_map_applied _ _) }

/-- Labels that show the same dispatches and, since the last start, the same events taken
keep the invariant. -/
theorem relabel (h : Consistent D ls s) {ls' : List Label}
    (hdispatches : Label.dispatches ls' = Label.dispatches ls)
    (hlife : Label.appliedEvents (Label.latestLife ls') = Label.appliedEvents (Label.latestLife ls)) :
    Consistent D ls' s := by
  have hbatches : Label.batches ls' = Label.batches ls := by simp only [Label.batches, hdispatches]
  exact
    { dispatcher := h.dispatcher
      readable := h.readable
      events := hbatches ▸ h.events
      fits := hbatches ▸ h.fits
      numbered := hbatches ▸ h.numbered
      indexes := hdispatches ▸ h.indexes
      passed := h.passed
      command := hdispatches ▸ h.command
      last := hdispatches ▸ h.last
      watermarks := hbatches ▸ h.watermarks
      fresh := h.fresh
      applied := h.applied
      base := hbatches ▸ h.base
      life := hlife ▸ hbatches ▸ h.life }

/-- A move of a consistent started engine keeps the invariant, with the move's labels. -/
theorem move (h : Consistent D ls s) (hs : Started s) {now : Timestamp} {ls' : List Label}
    (hm : Move now s ls' s') (hbound : s'.1.events.length ≤ unbounded) :
    Consistent D (ls ++ ls') s' := by
  -- the applier is at the end of the log, where no poller points at a record
  have hend : ∀ {p : String}, s.1.events.position p = s.1.applierAt →
      s.1.events.peek? p = none := fun hp =>
    MessageLog.peek?_eq_none.2 (Nat.le_of_eq (by rw [hp, h.applied hs]))
  -- a sender only adds records of commands to the log
  have hsent : ∀ {o : Outbox} (w : W), Outbox.Sends ⟨s.1.base, now⟩ s.1.outbox o →
      Consistent D ls ({ s.1 with outbox := o }, w) := by
    intro o w hsends
    obtain ⟨hpollers, cs, hcs⟩ := hsends.commands
    refine h.grow (cs.map Command.encode) ?_ rfl hcs hpollers rfl rfl rfl
    intro b hb
    obtain ⟨c, -, rfl⟩ := List.mem_map.1 hb
    exact ⟨_, Command.decode_encode c⟩
  cases hm with
  | applied hpeek => rw [hend rfl] at hpeek; cases hpeek
  | dispatched hpeek hdecode hround => exact h.dispatched hs (h.took hs hpeek hdecode hround hbound)
  | counted | changed | attempted =>
    rw [List.append_nil]
    exact h.congr rfl rfl rfl rfl rfl rfl
  | hostSent source payloadType payload =>
    -- the host's send shows no dispatch and no event taken
    refine (hsent s.2 (.send source payloadType payload (.refl _))).relabel
      (by simp [Label.dispatches]) ?_
    rw [Label.latestLife_append (by simp [Label.isStart]), Label.appliedEvents_append]
    simp [Label.appliedEvents]
  | sent w hsends => exact (List.append_nil ls).symm ▸ hsent w hsends
  | @published poller m ev events hpeek hdecode happlied hadvance =>
    obtain ⟨-, rfl⟩ := MessageLog.advance_eq_ok hadvance
    -- the poller that moved is not the applier's, which points at no record
    have hne : s.1.config.applierPoller ≠ poller := by
      rintro rfl
      rw [hend rfl] at hpeek
      cases hpeek
    refine (List.append_nil ls).symm ▸ h.congr rfl rfl (by simp) ?_ rfl rfl
    exact MessageLog.position_setPosition_of_ne _ _ hne

/-- A command appended from outside keeps the invariant. -/
theorem append (h : Consistent D ls s) {bytes : Bytes} {c : Command} {i : Nat} {log : MessageLog}
    (hdecode : Command.decode bytes = .ok c)
    (happend : s.1.outbox.commands.append bytes = .ok (i, log)) :
    Consistent D (ls ++ [.appended c])
      ({ s.1 with outbox := { s.1.outbox with commands := log } }, s.2) := by
  obtain ⟨-, rfl⟩ := MessageLog.append_eq_ok happend
  refine (h.grow [bytes] ?_ ?_ ?_ ?_ ?_ ?_ ?_).relabel ?_ ?_
  · intro b hb
    rw [List.mem_singleton.1 hb]
    exact ⟨c, hdecode⟩
  -- the settings, pollers, event log, status and application are those of `s`
  all_goals try rfl
  · simp
  · simp [Label.dispatches]
  · rw [Label.latestLife_append (by simp [Label.isStart]), Label.appliedEvents_append]
    simp [Label.appliedEvents]

/-- An engine built over the logs of a consistent one, with a fresh base state and the same
dispatcher's poller, is consistent. -/
theorem rebuild (h : Consistent D ls s) {b : Blueprint W} {e : Engine W} (w : W)
    (hb : b.build = .ok e) (hcommands : b.commands = s.1.outbox.commands)
    (hevents : b.events = s.1.events) (hbase : b.chosenBase = {})
    (hD : b.config.dispatcherPoller = D) : Consistent D ls (e, w) := by
  obtain ⟨hcfg, hevents', hcommands', -, -, -, hbase', -, hstatus⟩ := Blueprint.build_eq_ok hb
  have hat : e.dispatcherAt = s.1.dispatcherAt := by
    simp only [dispatcherAt, hcfg, hcommands', hcommands, hD, h.dispatcher]
  have hfresh : ¬ Started (e, w) := by simp [Started, hstatus]
  exact
    { dispatcher := hcfg ▸ hD
      readable := hcommands' ▸ hcommands ▸ h.readable
      events := hevents' ▸ hevents ▸ h.events
      fits := h.fits
      numbered := h.numbered
      indexes := hat ▸ h.indexes
      passed := hat ▸ hcommands' ▸ hcommands ▸ h.passed
      command := hcommands' ▸ hcommands ▸ h.command
      last := hcommands' ▸ hcommands ▸ h.last
      watermarks := hat ▸ hcommands' ▸ hcommands ▸ h.watermarks
      fresh := fun _ => by simp only [Engine.base, hbase', hbase]
      applied := fun hs => absurd hs hfresh
      base := fun hs => absurd hs hfresh
      life := fun hs => absurd hs hfresh }

/-- An engine built over two empty logs with a fresh base state is consistent, with no
labels. -/
theorem build {b : Blueprint W} {e : Engine W} (w : W) (hb : b.build = .ok e)
    (hcommands : b.commands.messages = #[]) (hcpollers : b.commands.pollers = [])
    (hevents : b.events.messages = #[]) (hbase : b.chosenBase = {})
    (hD : b.config.dispatcherPoller = D) : Consistent D [] (e, w) := by
  obtain ⟨hcfg, hevents', hcommands', -, -, -, hbase', -, hstatus⟩ := Blueprint.build_eq_ok hb
  have hat : e.dispatcherAt = 0 := by
    simp [dispatcherAt, MessageLog.position, hcommands', hcpollers]
  have hfresh : ¬ Started (e, w) := by simp [Started, hstatus]
  exact
    { dispatcher := hcfg ▸ hD
      readable := by simp [MessageLog.Readable, hcommands', hcommands]
      events := by simp [hevents', hevents, Label.batches, Label.dispatches]
      fits := by simp [Label.batches, Label.dispatches]
      numbered := by simp [Label.batches, Label.dispatches]
      indexes := by simp [hat, Label.dispatches]
      passed := by simp [hat]
      command := by simp [Label.dispatches]
      last := by simp [Label.dispatches]
      watermarks := fun x => by
        simp [hat, Label.batches, Label.dispatches, BaseState.recordAll, BaseState.lastCommand,
          Keyed.findD, Keyed.find?]
      fresh := fun _ => by simp only [Engine.base, hbase', hbase]
      applied := fun hs => absurd hs hfresh
      base := fun hs => absurd hs hfresh
      life := fun hs => absurd hs hfresh }

/-- A start keeps the invariant, with the start and the events it replayed as its labels. -/
theorem start (h : Consistent D ls s) {evs : List Event} {st : EngineStatus}
    (hst : Starts s evs st s') : Consistent D (ls ++ startLabels s.1.application.mode evs) s' := by
  -- a fresh engine replays the whole log, which is the batches
  have hbatches : evs = Label.batches ls := by
    have hrec := hst.records
    rw [h.fresh hst.fresh, h.events] at hrec
    exact eq_of_map_encode h.fits hrec
  have hdispatches : Label.dispatches (ls ++ startLabels s.1.application.mode evs) =
      Label.dispatches ls := by
    simp [startLabels, Label.dispatches]
  have hat : s'.1.dispatcherAt = s.1.dispatcherAt := by
    simp only [dispatcherAt, hst.commands, hst.config]
  have hlen : s'.1.events.length = s.1.events.length := by
    simp only [MessageLog.length, hst.messages]
  have hb : Label.batches (ls ++ startLabels s.1.application.mode evs) = Label.batches ls := by
    simp only [Label.batches, hdispatches]
  exact
    { dispatcher := hst.config ▸ h.dispatcher
      readable := hst.commands ▸ h.readable
      events := hb ▸ hst.messages ▸ h.events
      fits := hb ▸ h.fits
      numbered := hb ▸ h.numbered
      indexes := hat ▸ hdispatches ▸ h.indexes
      passed := hat ▸ hst.commands ▸ h.passed
      command := hdispatches ▸ hst.commands ▸ h.command
      last := hdispatches ▸ hst.commands ▸ h.last
      watermarks := hb ▸ hat ▸ hst.commands ▸ h.watermarks
      fresh := fun hf => absurd hst.started (by simp [Started, hf])
      applied := fun _ => hlen ▸ hst.applierAt
      base := fun _ => by rw [hst.base, h.fresh hst.fresh, hb, hbatches]
      life := fun _ => by
        rw [hb, hst.mode, startLabels, Label.latestLife_start (by simp [Label.isStart]),
          Label.appliedEvents_map_applied, hbatches] }

end Consistent

/-- A move keeps the engine started and the event log at least as long. -/
theorem Move.keeps {now : Timestamp} {s s' : Engine W × W} {ls : List Label}
    (hm : Move now s ls s') (hs : Started s) :
    Started s' ∧ s.1.events.length ≤ s'.1.events.length := by
  cases hm with
  | applied _ _ hnext =>
    obtain ⟨_, hrep⟩ := Replayed.of_applyNext hnext
    refine ⟨by unfold Started; rw [hrep.fixed.status]; exact hs, ?_⟩
    simp only [MessageLog.length, hrep.messages, Nat.le_refl]
  | dispatched _ _ hround =>
    obtain ⟨_, _, s₁, _, hd, hrep, -⟩ := dispatchRound_eq_some hs hround
    refine ⟨by unfold Started; rw [(hd.fixed.trans hrep.fixed).status]; exact hs, ?_⟩
    simp [MessageLog.length, hrep.messages, hd.events]
  | counted | changed | hostSent | sent | attempted => exact ⟨hs, Nat.le_refl _⟩
  | published _ _ _ hadvance =>
    obtain ⟨-, rfl⟩ := MessageLog.advance_eq_ok hadvance
    exact ⟨hs, by simp⟩

theorem Moves.keeps {now : Timestamp} {s s' : Engine W × W} {ls : List Label}
    (hm : Moves now s ls s') (hs : Started s) :
    Started s' ∧ s.1.events.length ≤ s'.1.events.length := by
  induction hm with
  | refl => exact ⟨hs, Nat.le_refl _⟩
  | step hm _ ih =>
    obtain ⟨hs₁, hle₁⟩ := hm.keeps hs
    obtain ⟨hs₂, hle₂⟩ := ih hs₁
    exact ⟨hs₂, Nat.le_trans hle₁ hle₂⟩

namespace Consistent

variable {D : String} {ls : List Label} {s s' : Engine W × W}

/-- Moves of a consistent started engine keep the invariant, with their labels. -/
theorem moves (h : Consistent D ls s) (hs : Started s) {now : Timestamp} {ls' : List Label}
    (hm : Moves now s ls' s') (hbound : s'.1.events.length ≤ unbounded) :
    Consistent D (ls ++ ls') s' := by
  induction hm generalizing ls with
  | refl => simpa using h
  | step hm hms ih =>
    -- the log only grows, so the bound holds after the first move too
    obtain ⟨hs₁, -⟩ := hm.keeps hs
    have hbound₁ := Nat.le_trans (hms.keeps hs₁).2 hbound
    rw [← List.append_assoc]
    exact ih (h.move hs hm hbound₁) hs₁ hbound

end Consistent

namespace Run

variable {D : String} {ls : List Label} {s : Engine W × W}

/-- Every point of a run is consistent with its labels, while the event log holds no more
events than a machine word counts. -/
theorem consistent (hrun : Run D ls s) (hbound : s.1.events.length ≤ unbounded) :
    Consistent D ls s := by
  induction hrun with
  | build w hb hcommands hcpollers hevents _ hbase hD =>
    exact Consistent.build w hb hcommands hcpollers hevents hbase hD
  | rebuild w _ hb hcommands hevents hbase hD ih =>
    obtain ⟨-, hevents', -⟩ := Blueprint.build_eq_ok hb
    have hbound' := hbound
    simp only [hevents', hevents] at hbound'
    exact (ih hbound').rebuild w hb hcommands hevents hbase hD
  | start now _ hstart hreplay ih =>
    obtain ⟨evs, hst⟩ := starts_of_exec hstart
    -- the events the run records are those the start replayed
    obtain rfl : evs = _ := (List.map_inj_right fun _ _ hxy => Except.ok.inj hxy).1
      (hst.records.symm.trans hreplay)
    have hbound' := hbound
    simp only [MessageLog.length, hst.messages] at hbound'
    exact (ih hbound').start hst
  | moves now _ hs hmoves ih =>
    exact (ih (Nat.le_trans (hmoves.keeps hs).2 hbound)).moves hs hmoves hbound
  | append _ hdecode happend ih => exact (ih hbound).append hdecode happend

end Run

end Engine

end EventSourcing
