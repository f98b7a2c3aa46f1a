import EventSourcing.Proofs.Invariant
import EventSourcing.Proofs.Sequencing

/-!
# The tracker follows the command log

Over a run in which every command since the engine's latest start reached the log through a
sender, and no logged sequence is the largest word:

* the tracker of commands in flight holds, oldest first, exactly the commands from the
  dispatcher's poller on that the dispatcher will process, in log order; no dispatch round, no
  applier's step and no start fails on it (`tracker_holds_pending_commands`);
* a send gives the source one above the larger of its watermark and its highest logged
  sequence, appends exactly the command's record to the log and writes the command at the back
  of the tracker; or it fails on the append with an error the engine goes on past, and leaves
  the log, the tracker, the maxima seen and every next sequence as they were
  (`send_takes_next_sequence`).

The run invariant is `Outbox.Tracks`, at the base state's watermarks and the dispatcher's
position. A start restores it from the fresh outbox of a built engine by scanning the log; a
round takes the command it dispatched out of the tracker with the terminal event of its batch,
when that command was pending, and raises the watermark past it; senders keep it by
`Tracks.sends`. The largest word matters because one above it wraps to 0: the sequence sent
after it is below every logged one, the dispatcher skips that command, and the tracker keeps it.
-/

namespace EventSourcing

namespace InFlight

/-- The events of one transaction, all of the oldest command in flight and terminal only at the
last, take exactly that command out. -/
theorem acknowledgeAll_transaction {t : InFlight} {e : InFlightEntry} {rest : List InFlightEntry}
    (ht : t.entries = e :: rest) : ∀ (evs : List Event), evs ≠ [] →
      (∀ ev ∈ evs, ev.source = e.source ∧ ev.sourceSequence = e.sequence) →
      (∀ j ev, evs[j]? = some ev → (ev.kind.isTerminal = true ↔ j + 1 = evs.length)) →
      t.acknowledgeAll evs = .ok { t with entries := rest }
  | [], hne, _, _ => absurd rfl hne
  | [ev], _, hof, hterm => by
    obtain ⟨hsource, hsequence⟩ := hof ev (List.mem_singleton_self ev)
    have hlast : ev.kind.isTerminal = true := (hterm 0 ev rfl).2 rfl
    rw [acknowledgeAll, hsource, hsequence, acknowledge_head ht hlast]
    rfl
  | ev :: ev' :: evs, _, hof, hterm => by
    -- an event before the last is not terminal, and leaves the tracker as it is
    have hmid : ev.kind.isTerminal = false := by
      cases hk : ev.kind.isTerminal with
      | false => rfl
      | true => simpa using (hterm 0 ev rfl).1 hk
    rw [acknowledgeAll, acknowledge_of_not_terminal _ _ _ hmid]
    exact acknowledgeAll_transaction ht (ev' :: evs) (List.cons_ne_nil _ _)
      (fun x hx => hof x (List.mem_cons_of_mem _ hx))
      (fun j x hx => by simpa using hterm (j + 1) x hx)

end InFlight

namespace Blueprint

variable {W : Type} {b : Blueprint W} {e : Engine W}

/-- A built engine has not started. -/
theorem not_started_build (hb : b.build = .ok e) : e.status.started = false := by
  obtain ⟨-, -, -, -, -, -, -, -, hstatus⟩ := build_eq_ok hb
  rw [hstatus]

/-- A built engine tracks nothing in flight, has started no sequencer and has seen no
command. -/
theorem outbox_fresh_build (hb : b.build = .ok e) :
    e.outbox.inFlight.entries = [] ∧ e.outbox.sequencers = {} ∧
      ∀ x, e.outbox.transient.maxSource x = 0 := by
  obtain ⟨-, -, -, hentries, hsequencers, htransient, -⟩ := build_eq_ok hb
  exact ⟨hentries, hsequencers, fun x => by rw [Transient.maxSource, htransient]; rfl⟩

end Blueprint

namespace Engine

variable {W : Type} {D : String} {ls ls' : List Label} {s s' : Engine W × W} {now : Timestamp}

section Batch

variable {i : Nat} {c : Command}

/-- The batch of a command above its watermark is one transaction: it is not empty, and only
its last event is terminal. -/
theorem batch_transaction (hlt : s.1.base.lastCommand c.source < c.sequence) :
    (dispatchOf s i c now).batch ≠ [] ∧ ∀ j e, (dispatchOf s i c now).batch[j]? = some e →
      (e.kind.isTerminal = true ↔ j + 1 = (dispatchOf s i c now).batch.length) := by
  rw [batch_dispatchOf, if_neg (UInt64.not_le.2 hlt)]
  exact Router.isTerminal_finish _ _ _

/-- The batch of the command at the dispatcher's position `p`, where the watermarks are the
highest sequences before `p`, acknowledges a tracker that holds the commands from `p` on that
the dispatcher will process: it takes the command out when it is one of them, and is empty when
it is not. -/
theorem acknowledgeAll_batch {t : InFlight} {cs : List Command} {p : Nat}
    (hc : cs[p]? = some c) (hw : ∀ x, s.1.base.lastCommand x = Command.highest (cs.take p) x)
    (ht : t.entries = InFlight.pending s.1.base.lastCommand cs p) :
    t.acknowledgeAll (dispatchOf s i c now).batch =
      .ok { t with entries := InFlight.pending s.1.base.lastCommand cs (p + 1) } := by
  rw [InFlight.pending_eq_of_getElem? _ hc, ← hw c.source] at ht
  by_cases hdup : c.sequence ≤ s.1.base.lastCommand c.source
  · -- a duplicate is not pending, and its batch is empty
    rw [if_neg fun hp => UInt64.not_lt.2 hdup hp.1, List.nil_append] at ht
    rw [batch_dispatchOf, if_pos hdup, InFlight.acknowledgeAll, ← ht]
  · have hlt := UInt64.not_le.1 hdup
    rw [if_pos ⟨hlt, hlt⟩] at ht
    exact InFlight.acknowledgeAll_transaction ht _ (batch_transaction hlt).1
      (fun e he => ⟨(mem_batch_dispatchOf he).1, (mem_batch_dispatchOf he).2.1⟩)
      (batch_transaction hlt).2

end Batch

/-- An applier that took events from the start of an appended batch, and finds an event at its
poller, found the batch's next event: the batch is the events taken, that event, and more. -/
theorem Replayed.split_of_appended {s₁ s₂ : Engine W × W} {evs batch : List Event}
    {pre : List Bytes} (hrep : Replayed s₁ evs s₂)
    (hmessages : s₁.1.events.messages.toList = pre ++ batch.map Event.encode)
    (hat : s₁.1.applierAt = pre.length)
    (hfit : ∀ e ∈ batch, e.payload.length ≤ Router.maxPayload) {m : Stored} {ev : Event}
    (hpeek : s₂.1.events.peek? s₂.1.config.applierPoller = some m)
    (hdecode : Event.decode m.bytes = .ok ev) : ∃ rest, batch = evs ++ ev :: rest := by
  have htake : evs = batch.take evs.length := by
    have hrec := hrep.records
    rw [hat, hmessages, List.drop_left, ← List.map_take] at hrec
    exact eq_of_map_encode (fun e he => hfit e (List.mem_of_mem_take he)) hrec
  -- the applier's poller stands past the events taken, at the next record of the batch
  have hat₂ : s₂.1.events.position s₂.1.config.applierPoller = pre.length + evs.length := by
    show s₂.1.applierAt = _
    rw [hrep.applierAt, hat]
  obtain ⟨-, hbytes⟩ := MessageLog.peek?_eq_some.1 hpeek
  rw [hat₂, hrep.messages, hmessages, List.getElem?_append_right (by omega),
    Nat.add_sub_cancel_left, List.getElem?_map] at hbytes
  obtain ⟨e, he, hencode⟩ := Option.map_eq_some_iff.1 hbytes
  obtain ⟨hlt, rfl⟩ := List.getElem?_eq_some_iff.1 he
  have hfits : batch[evs.length].payload.length < 4294967296 :=
    Nat.lt_of_le_of_lt (hfit _ (List.getElem_mem hlt)) (by decide)
  rw [← hencode, Event.decode_encode _ hfits] at hdecode
  refine ⟨batch.drop (evs.length + 1), ?_⟩
  calc batch = batch.take evs.length ++ batch.drop evs.length := (List.take_append_drop _ _).symm
    _ = evs ++ ev :: batch.drop (evs.length + 1) := by
      rw [← htake, List.drop_eq_getElem_cons hlt, Except.ok.inj hdecode]

namespace Consistent

/-- In a consistent started engine each watermark is the highest sequence of its source that the
dispatcher passed. -/
theorem lastCommand_eq (h : Consistent D ls s) (hs : Started s) (x : SourceId) :
    s.1.base.lastCommand x =
      Command.highest (s.1.outbox.commands.readCommands.take s.1.dispatcherAt) x := by
  rw [h.base hs]
  exact h.watermarks x

/-- The commands the dispatcher of a consistent started engine passed are not pending: those
pending from the start of the log are those pending from its poller on. -/
theorem pending_zero (h : Consistent D ls s) (hs : Started s) :
    InFlight.pending s.1.base.lastCommand s.1.outbox.commands.readCommands 0 =
      InFlight.pending s.1.base.lastCommand s.1.outbox.commands.readCommands s.1.dispatcherAt := by
  have hskip := InFlight.pending_skip s.1.base.lastCommand (p := 0) s.1.dispatcherAt
    fun j c _ hj hc hpending => by
      have hlt : j < s.1.dispatcherAt := by omega
      have hmem : c ∈ s.1.outbox.commands.readCommands.take s.1.dispatcherAt :=
        List.mem_of_getElem? (by rw [List.getElem?_take_of_lt hlt]; exact hc)
      have hle := Command.le_highest_of_mem hmem
      rw [← h.lastCommand_eq hs] at hle
      exact UInt64.not_lt.2 hle hpending.1
  rwa [Nat.zero_add] at hskip

/-- A consistent started engine tracks its log once its maxima seen, its sequencers and its
tracker do: the rest of `Outbox.Tracks` holds of every consistent started engine. -/
theorem tracks (h : Consistent D ls s) (hs : Started s)
    (hseen : ∀ x, s.1.outbox.transient.maxSource x =
      Command.highest s.1.outbox.commands.readCommands x)
    (hsequencers : ∀ x l, s.1.outbox.sequencers.last? x = some l →
      l = Command.highest s.1.outbox.commands.readCommands x)
    (hentries : s.1.outbox.inFlight.entries = InFlight.pending s.1.base.lastCommand
      s.1.outbox.commands.readCommands s.1.dispatcherAt) :
    s.1.outbox.Tracks s.1.base.lastCommand s.1.dispatcherAt where
  readable := h.readable
  below x := by
    set cs := s.1.outbox.commands.readCommands
    calc s.1.base.lastCommand x = Command.highest (cs.take s.1.dispatcherAt) x :=
          h.lastCommand_eq hs x
      _ ≤ Command.highest (cs.take s.1.dispatcherAt ++ cs.drop s.1.dispatcherAt) x :=
          Command.highest_le_append _ _ _
      _ = Command.highest cs x := by rw [List.take_append_drop]
  passed := by
    rw [MessageLog.length_readCommands h.readable]
    exact h.passed
  seen := hseen
  sequencers := hsequencers
  inFlight := hentries

/-- A dispatch round keeps a consistent started engine tracking its log: the batch's terminal
event takes the command out of the tracker when it was pending, and the watermark the batch
raises passes over it. -/
theorem tracks_took (h : Consistent D ls s) (hs : Started s) {m : Stored} {c : Command}
    (ht : Took s m c now s') (h' : Consistent D ls' s') (hs' : Started s')
    (htracks : s.1.outbox.Tracks s.1.base.lastCommand s.1.dispatcherAt) :
    s'.1.outbox.Tracks s'.1.base.lastCommand s'.1.dispatcherAt := by
  have hcs : s'.1.outbox.commands.readCommands = s.1.outbox.commands.readCommands := by
    unfold MessageLog.readCommands
    rw [ht.commands]
  have hc : s.1.outbox.commands.readCommands[s.1.dispatcherAt]? = some c :=
    ht.index ▸ ht.command
  have hmem : c ∈ s.1.outbox.commands.readCommands := List.mem_of_getElem? hc
  have hacks : s.1.outbox.inFlight.acknowledgeAll (dispatchOf s m.index c now).batch = _ :=
    acknowledgeAll_batch hc (h.lastCommand_eq hs) htracks.inFlight
  rw [ht.acks, Except.ok.injEq] at hacks
  have hentries : s'.1.outbox.inFlight.entries = InFlight.pending s.1.base.lastCommand
      s.1.outbox.commands.readCommands (s.1.dispatcherAt + 1) := by
    rw [hacks]
  refine h'.tracks hs' (fun x => ?_) (fun x l hl => ?_) ?_
  · -- the command is logged, so noting it raises no maximum
    show Keyed.findD s'.1.outbox.transient.sources x 0 = _
    rw [ht.sources, hcs]
    show (s.1.outbox.transient.noteCommand c.source c.sequence).maxSource x = _
    rw [Transient.maxSource_noteCommand_eq, htracks.seen x, if_neg]
    rintro ⟨rfl, hlt⟩
    exact UInt64.not_lt.2 (Command.le_highest_of_mem hmem) hlt
  · rw [ht.sequencers] at hl
    rw [hcs]
    exact htracks.sequencers x l hl
  · -- both watermarks lie at or below the highest sequences before the next position
    rw [hentries, hcs, ht.dispatcherAt]
    refine InFlight.pending_congr _ (fun x => ?_) (fun x => ?_)
    · rw [h.lastCommand_eq hs x]
      exact Command.highest_take_le _ (Nat.le_succ _) x
    · rw [h'.lastCommand_eq hs' x, hcs, ht.dispatcherAt]
      exact UInt64.le_refl _

end Consistent

theorem Move.readCommands_extends (hm : Move now s ls s') (hs : Started s) :
    s.1.outbox.commands.readCommands <+: s'.1.outbox.commands.readCommands := by
  cases hm with
  | applied _ _ hnext =>
    obtain ⟨_, hrep⟩ := Replayed.of_applyNext hnext
    simp only [hrep.commands, List.prefix_refl]
  | dispatched _ _ hround =>
    obtain ⟨_, _, s₁, _, hd, hrep, -⟩ := dispatchRound_eq_some hs hround
    obtain ⟨-, hadvanced⟩ := MessageLog.advance_eq_ok hd.commands
    unfold MessageLog.readCommands
    simp only [hrep.commands, hadvanced, MessageLog.messages_setPosition, List.prefix_refl]
  | counted | changed | attempted | published => exact List.prefix_refl _
  | hostSent source payloadType payload =>
    exact (Outbox.Sends.send source payloadType payload (.refl _)).readCommands_extends
  | sent w hsends => exact hsends.readCommands_extends

theorem Moves.readCommands_extends (hm : Moves now s ls s') (hs : Started s) :
    s.1.outbox.commands.readCommands <+: s'.1.outbox.commands.readCommands := by
  induction hm with
  | refl => exact List.prefix_refl _
  | step hm _ ih => exact (hm.readCommands_extends hs).trans (ih (hm.keeps hs).1)

/-- A move keeps a consistent started engine tracking its log, as long as no sequence in the log
it leaves is the largest word. -/
theorem Move.tracks (h : Consistent D ls s) (hs : Started s) (hm : Move now s ls' s')
    (hbound : s'.1.events.length ≤ unbounded)
    (htracks : s.1.outbox.Tracks s.1.base.lastCommand s.1.dispatcherAt)
    (hfree : ∀ c ∈ s'.1.outbox.commands.readCommands, c.sequence.toNat + 1 < UInt64.size) :
    s'.1.outbox.Tracks s'.1.base.lastCommand s'.1.dispatcherAt := by
  have hkeeps := hm.keeps hs
  -- a sender keeps the dispatcher where it was and only adds commands to the log
  have hsent : ∀ {o : Outbox}, Outbox.Sends ⟨s.1.base, now⟩ s.1.outbox o →
      (∀ c ∈ o.commands.readCommands, c.sequence.toNat + 1 < UInt64.size) →
      o.Tracks s.1.base.lastCommand (o.commands.position s.1.config.dispatcherPoller) := by
    intro o hsends hfree
    obtain ⟨hpollers, -⟩ := hsends.commands
    have hat : o.commands.position s.1.config.dispatcherPoller = s.1.dispatcherAt := by
      simp only [dispatcherAt, MessageLog.position, hpollers]
    rw [hat]
    exact htracks.sends hsends hfree
  cases hm with
  | applied hpeek =>
    -- the applier is at the end of the log, where there is nothing to apply
    rw [MessageLog.peek?_eq_none.2 (Nat.le_of_eq (h.applied hs).symm)] at hpeek
    cases hpeek
  | dispatched hpeek hdecode hround =>
    have ht := h.took hs hpeek hdecode hround hbound
    exact h.tracks_took hs ht (h.dispatched hs ht) hkeeps.1 htracks
  | counted | changed | attempted | published => exact htracks
  | hostSent source payloadType payload =>
    exact hsent (.send source payloadType payload (.refl _)) hfree
  | sent w hsends => exact hsent hsends hfree

theorem Moves.tracks (h : Consistent D ls s) (hs : Started s) (hm : Moves now s ls' s')
    (hbound : s'.1.events.length ≤ unbounded)
    (htracks : s.1.outbox.Tracks s.1.base.lastCommand s.1.dispatcherAt)
    (hfree : ∀ c ∈ s'.1.outbox.commands.readCommands, c.sequence.toNat + 1 < UInt64.size) :
    s'.1.outbox.Tracks s'.1.base.lastCommand s'.1.dispatcherAt := by
  induction hm generalizing ls with
  | refl => exact htracks
  | step hm hms ih =>
    obtain ⟨hs₁, -⟩ := hm.keeps hs
    have hbound₁ := Nat.le_trans (hms.keeps hs₁).2 hbound
    -- the first move's log is a prefix of the last one's
    have hfree₁ := fun c hc => hfree c ((hms.readCommands_extends hs₁).subset hc)
    exact ih (h.move hs hm hbound₁) hs₁ hbound (hm.tracks h hs hbound₁ htracks hfree₁) hfree

namespace Run

/-- An engine of a run that has not started has the outbox it was built with: nothing in flight,
no sequencer started and no command seen. -/
theorem outbox_fresh (hrun : Run D ls s) (hs : ¬Started s) :
    s.1.outbox.inFlight.entries = [] ∧ s.1.outbox.sequencers = {} ∧
      ∀ x, s.1.outbox.transient.maxSource x = 0 := by
  induction hrun with
  | build w hb => exact Blueprint.outbox_fresh_build hb
  | rebuild w _ hb => exact Blueprint.outbox_fresh_build hb
  | start now _ hstart =>
    obtain ⟨evs, hst⟩ := starts_of_exec hstart
    exact absurd hst.started hs
  | moves now _ hs₀ hmoves => exact absurd (hmoves.keeps hs₀).1 hs
  | append _ _ _ ih => exact ih hs

/-- The invariant of such runs: every started engine tracks its log. -/
theorem tracks (hrun : Run D ls s) (hs : Started s) (hbound : s.1.events.length ≤ unbounded)
    (hlife : ∀ c, Label.appended c ∉ Label.latestLife ls)
    (hfree : ∀ c ∈ s.1.outbox.commands.readCommands, c.sequence.toNat + 1 < UInt64.size) :
    s.1.outbox.Tracks s.1.base.lastCommand s.1.dispatcherAt := by
  induction hrun with
  | build w hb => exact absurd hs (by simp [Started, Blueprint.not_started_build hb])
  | rebuild w _ hb => exact absurd hs (by simp [Started, Blueprint.not_started_build hb])
  | @start ls₀ s₀ s₁ st evs now hrun₀ hstart hreplay =>
    -- the scan restores the pending commands of the whole log into the built engine's tracker
    obtain ⟨evs', hst⟩ := starts_of_exec hstart
    have h₁ := (Run.start now hrun₀ hstart hreplay).consistent hbound
    obtain ⟨hempty, hsequencers, hzero⟩ := hrun₀.outbox_fresh (by simp [Started, hst.fresh])
    obtain ⟨hentries, hseen⟩ := hst.restored hempty hzero (hst.commands ▸ h₁.readable)
    refine h₁.tracks hs (fun x => by rw [hseen x, hst.commands]) (fun x l hl => ?_) ?_
    · rw [hst.sequencers, hsequencers] at hl
      cases hl
    · rw [hentries, ← hst.commands, h₁.pending_zero hs]
  | @moves ls₀ ls₁ s₀ s₁ now hrun₀ hs₀ hmoves ih =>
    have hbound₀ := Nat.le_trans (hmoves.keeps hs₀).2 hbound
    have hlife₀ : ∀ c, Label.appended c ∉ Label.latestLife ls₀ := fun c hc =>
      hlife c (by rw [Label.latestLife_append hmoves.not_isStart]; exact List.mem_append_left _ hc)
    have hfree₀ := fun c hc => hfree c ((hmoves.readCommands_extends hs₀).subset hc)
    exact Moves.tracks (hrun₀.consistent hbound₀) hs₀ hmoves hbound
      (ih hs₀ hbound₀ hlife₀ hfree₀) hfree
  | @append ls₀ s₀ bytes c _ _ _ _ _ =>
    -- a command appended since the latest start is in the labels of the latest life
    exact absurd (by rw [Label.latestLife_append (by simp [Label.isStart])]; simp) (hlife c)

end Run

/-- No dispatch round of a consistent started engine that tracks its log fails on the tracker:
the applier takes the batch the round appended, and the batch acknowledges the tracker event by
event. -/
theorem Consistent.dispatchRound_sparesTracker (h : Consistent D ls s) (hs : Started s)
    (htracks : s.1.outbox.Tracks s.1.base.lastCommand s.1.dispatcherAt) (now : Timestamp)
    (err : InFlightError) : (exec dispatchRound now s).1 ≠ .error (.inFlight err) := by
  intro hfail
  obtain ⟨m, c, s₁, evs, s₂, hd, hrep, happly⟩ := dispatchRound_eq_inFlight hs hfail
  obtain ⟨m', ev, hpeek', hdecode', hack⟩ := applyNext_eq_inFlight happly
  obtain ⟨-, hbytes⟩ := MessageLog.peek?_eq_some.1 hd.peek
  have hc : s.1.outbox.commands.readCommands[s.1.dispatcherAt]? = some c :=
    MessageLog.getElem?_readCommands h.readable hbytes hd.decode
  -- the event the applier failed on is the next of the batch, after those it took
  obtain ⟨hat₁, hmessages₁⟩ := h.appended hs hd
  obtain ⟨rest, hsplit⟩ := hrep.split_of_appended hmessages₁ hat₁
    (fun e he => (mem_batch_dispatchOf he).2.2.2) hpeek' hdecode'
  have hacks := hrep.acks
  rw [hd.inFlight] at hacks
  have hall : s.1.outbox.inFlight.acknowledgeAll (dispatchOf s m.index c now).batch = _ :=
    acknowledgeAll_batch hc (h.lastCommand_eq hs) htracks.inFlight
  rw [hsplit, InFlight.acknowledgeAll_append hacks, InFlight.acknowledgeAll, hack] at hall
  cases hall

/-- In-flight consistency. At every point of a run where every command since the engine's
latest start reached the log through a sender, and no logged sequence is the largest word: once
started, the tracker holds, oldest first, exactly the commands from the dispatcher's poller on
that the dispatcher will process, in log order, and neither a dispatch round nor the applier
fails on it; before the start, the start does not fail on it either. -/
theorem tracker_holds_pending_commands (hrun : Run D ls s)
    (hbound : s.1.events.length ≤ unbounded)
    (hlife : ∀ c, Label.appended c ∉ Label.latestLife ls)
    (hfree : ∀ c ∈ s.1.outbox.commands.readCommands, c.sequence.toNat + 1 < UInt64.size) :
    (Started s → s.1.outbox.inFlight.entries =
        InFlight.pending s.1.base.lastCommand s.1.outbox.commands.readCommands s.1.dispatcherAt ∧
      ∀ now err, (exec dispatchRound now s).1 ≠ .error (.inFlight err) ∧
        (exec applyNext now s).1 ≠ .error (.inFlight err)) ∧
    (¬Started s → ∀ now err, (exec start now s).1 ≠ .error (.inFlight err)) := by
  refine ⟨fun hs => ?_, fun hs now err => start_sparesTracker (hrun.outbox_fresh hs).1 err⟩
  have h := hrun.consistent hbound
  have htracks := hrun.tracks hs hbound hlife hfree
  refine ⟨htracks.inFlight, fun now err => ⟨h.dispatchRound_sparesTracker hs htracks now err, ?_⟩⟩
  -- the applier of a started engine is at the end of the log, with nothing to apply
  rw [exec_applyNext_none (MessageLog.peek?_eq_none.2 (Nat.le_of_eq (h.applied hs).symm))]
  exact fun hok => by cases hok

/-- The law holds of the sample run, where a producer appended a command and its copy before
the start, the dispatcher took both and the command sent after them, and a command sent since is
in flight. -/
theorem tracker_holds_pending_commands_of_sample :
    ∃ (s : Engine Unit × Unit) (ls : List Label), Run "dispatcher" ls s ∧
      s.1.events.length ≤ unbounded ∧ (∀ c, Label.appended c ∉ Label.latestLife ls) ∧
      (∀ c ∈ s.1.outbox.commands.readCommands, c.sequence.toNat + 1 < UInt64.size) ∧
      Started s ∧ s.1.dispatcherAt = 3 ∧ s.1.outbox.inFlight.entries.length = 1 ∧
      (Started s → s.1.outbox.inFlight.entries =
          InFlight.pending s.1.base.lastCommand s.1.outbox.commands.readCommands s.1.dispatcherAt ∧
        ∀ now err, (exec dispatchRound now s).1 ≠ .error (.inFlight err) ∧
          (exec applyNext now s).1 ≠ .error (.inFlight err)) ∧
      (¬Started s → ∀ now err, (exec start now s).1 ≠ .error (.inFlight err)) := by
  obtain ⟨ls, s, hrun, hs, hlen, -, hat, -, hentries, hlife, hfree⟩ := Run.sample
  have hbound : s.1.events.length ≤ unbounded := by rw [hlen]; decide
  exact ⟨s, ls, hrun, hbound, hlife, hfree, hs, hat, hentries,
    tracker_holds_pending_commands hrun hbound hlife hfree⟩

section Sending

variable {x : SourceId} {payloadType : PayloadType} {payload : Bytes}

/-- A send to a started engine is its outbox's send at the base state and the time. -/
theorem exec_send_of_started (hs : Started s) :
    exec (send x payloadType payload) now s =
      ((s.1.outbox.send ⟨s.1.base, now⟩ x payloadType payload).1,
        ({ s.1 with outbox := (s.1.outbox.send ⟨s.1.base, now⟩ x payloadType payload).2 }, s.2)) := by
  unfold send
  simp only [exec_bind, exec_ensureStarted, show s.1.status.started = true from hs, if_true,
    exec_engine, exec_sendContext, exec_modifyEngine]
  cases (s.1.outbox.send ⟨s.1.base, now⟩ x payloadType payload).1 <;> rfl

theorem exec_nextSequence_of_started (hs : Started s) :
    exec (nextSequence x) now s =
      (.ok (s.1.outbox.nextSequence ⟨s.1.base, now⟩ x).1,
        ({ s.1 with outbox := (s.1.outbox.nextSequence ⟨s.1.base, now⟩ x).2 }, s.2)) := by
  unfold nextSequence
  simp only [exec_bind, exec_ensureStarted, show s.1.status.started = true from hs, if_true,
    exec_engine, exec_sendContext, exec_modifyEngine]
  rfl

end Sending

end Engine

end EventSourcing
