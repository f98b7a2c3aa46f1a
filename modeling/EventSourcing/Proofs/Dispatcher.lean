import EventSourcing.Proofs.Applier

/-!
# The dispatcher

What the dispatcher's steps do, exactly. Processing a command runs the chain of processors
on a fresh transaction, seals it, aborted if the chain failed or panicked, and appends its
batch to the event log (`process_eq_ok`). The dispatcher's step that took a command moved its
poller past the record and appended the batch that `dispatchOf` describes: none for a
duplicate (`dispatchNext_eq_ok`). A round then lets the applier take events from where it was
(`dispatchRound_eq_some`).
-/

namespace EventSourcing

namespace Engine

variable {W : Type} {now : Timestamp} {s s' : Engine W × W}

/-- Processing a command that went through appended the batch of its transaction, sealed at
the next event sequence, and changed nothing else of the engine's logs, application, tracker,
sequencers or sources seen. -/
theorem process_eq_ok {c : Command} {o : Outcome} (h : exec (process c) now s = (.ok o, s')) :
    let chain := Processor.runAll c s.1.base s.1.processors.members s.2 (Router.begin c)
    (∃ i, s.1.events.appendBatch
        (((chain.2.2.close chain.1).finish (s.1.events.length + 1).toUInt64 now).2.map
          Event.encode) = (.ok i, s'.1.events)) ∧
      s'.1.application = s.1.application ∧ s'.1.outbox.commands = s.1.outbox.commands ∧
      s'.1.outbox.inFlight = s.1.outbox.inFlight ∧
      s'.1.outbox.sequencers = s.1.outbox.sequencers ∧
      s'.1.outbox.transient.sources = s.1.outbox.transient.sources ∧ Fixed s s' := by
  unfold process at h
  rw [exec_engine_bind, exec_bind, exec_world] at h
  dsimp only at h ⊢
  generalize Processor.runAll c s.1.base s.1.processors.members s.2 (Router.begin c) = r at h ⊢
  obtain ⟨result, w, router⟩ := r
  dsimp only at h ⊢
  rw [exec_bind, exec_modifyWorld, exec_bind] at h
  obtain ⟨f, hf⟩ := exec_reportHalt now (s.1, w) s.1.handlers c result
  rw [hf] at h
  dsimp only at h
  rw [exec_bind, exec_read] at h
  dsimp only at h
  generalize (router.close result).finish (s.1.events.length + 1).toUInt64 now = sealed at h ⊢
  cases happ : s.1.events.appendBatch (sealed.2.map Event.encode) with
  | mk appended events =>
  rw [happ] at h
  cases appended with
  | error err => simp [exec_bind] at h
  | ok i =>
    simp only [exec_bind, exec_modifyEngine, exec_lift_ok, exec_pure, Prod.mk.injEq] at h
    obtain ⟨-, rfl⟩ := h
    exact ⟨⟨i, rfl⟩, rfl, rfl, rfl, rfl, rfl, ⟨rfl, rfl, rfl, rfl, rfl, rfl⟩⟩

/-- The dispatcher's step took the command `c` from the record `m` at its poller of `s` and left
the engine at `s'`: the poller moved past the record, the batch of the command was appended to
the event log, the command was noted as seen, and the application, the tracker and the
sequencers were left as they were. -/
structure Dispatched (s : Engine W × W) (m : Stored) (c : Command) (now : Timestamp)
    (s' : Engine W × W) : Prop where
  peek : s.1.outbox.commands.peek? s.1.config.dispatcherPoller = some m
  decode : Command.decode m.bytes = .ok c
  commands : s.1.outbox.commands.advance s.1.config.dispatcherPoller = .ok s'.1.outbox.commands
  events : s'.1.events = { s.1.events with messages := s.1.events.messages ++
    ((dispatchOf s m.index c now).batch.map Event.encode).toArray }
  application : s'.1.application = s.1.application
  inFlight : s'.1.outbox.inFlight = s.1.outbox.inFlight
  sequencers : s'.1.outbox.sequencers = s.1.outbox.sequencers
  sources : s'.1.outbox.transient.sources =
    (s.1.outbox.transient.noteCommand c.source c.sequence).sources
  fixed : Fixed s s'

/-- Counting the dispatch keeps what the dispatcher's step did. -/
theorem Dispatched.count {m : Stored} {c : Command} {t : Engine W × W}
    (h : Dispatched s m c now t) (counters : EngineCounters) :
    Dispatched s m c now ({ t.1 with counters := counters }, t.2) :=
  ⟨h.peek, h.decode, h.commands, h.events, h.application, h.inFlight, h.sequencers, h.sources,
    ⟨h.fixed.config, h.fixed.processors, h.fixed.handlers, h.fixed.inputs,
      h.fixed.extensionInputs, h.fixed.status⟩⟩

/-- The dispatcher's step that took the command `c` from the record `m` at its poller did what
`Dispatched` says: none for a duplicate. -/
theorem dispatchNext_eq_ok {o : DispatchOutcome} {m : Stored} {c : Command}
    (hpeek : s.1.outbox.commands.peek? s.1.config.dispatcherPoller = some m)
    (hdecode : Command.decode m.bytes = .ok c) (h : exec dispatchNext now s = (.ok o, s')) :
    Dispatched s m c now s' := by
  unfold dispatchNext at h
  rw [exec_engine_bind] at h
  simp only [hpeek] at h
  rw [exec_bind, hdecode, exec_lift_ok] at h
  dsimp only at h
  rw [exec_bind, exec_modifyEngine] at h
  dsimp only at h
  split at h
  · -- a duplicate: only the application's state changes before the poller moves on
    rename_i hdup
    simp only [exec_bind, exec_modifyWorld, exec_pure, exec_engine] at h
    cases hadvance : s.1.outbox.commands.advance s.1.config.dispatcherPoller with
    | error err => simp [hadvance] at h
    | ok commands =>
      simp only [hadvance, exec_lift_ok, exec_modifyEngine, Prod.mk.injEq] at h
      obtain ⟨-, rfl⟩ := h
      refine ⟨hpeek, hdecode, hadvance, ?_, rfl, rfl, rfl, rfl, ⟨rfl, rfl, rfl, rfl, rfl, rfl⟩⟩
      simp [dispatchOf, Dispatch.batch, hdup]
  · rename_i hnew
    rw [exec_bind, exec_map] at h
    cases hp : exec (process c) now ({ s.1 with outbox := { s.1.outbox with
        transient := s.1.outbox.transient.noteCommand c.source c.sequence } }, s.2) with
    | mk r t₁ =>
    rw [hp] at h
    cases r with
    | error err => simp at h
    | ok outcome =>
      obtain ⟨⟨i, happ⟩, happ₁, hcommands, hinflight, hseq, hsources, hfixed⟩ := process_eq_ok hp
      dsimp only at h happ
      rw [exec_bind, exec_engine] at h
      dsimp only at h
      have hcfg : t₁.1.config = s.1.config := hfixed.config
      rw [hcommands, hcfg] at h
      cases hadvance : s.1.outbox.commands.advance s.1.config.dispatcherPoller with
      | error err => simp [hadvance, exec_bind] at h
      | ok commands =>
        simp only [hadvance, exec_bind, exec_lift_ok, exec_modifyEngine, exec_pure,
          Prod.mk.injEq] at h
        obtain ⟨-, rfl⟩ := h
        refine ⟨hpeek, hdecode, hadvance, ?_, happ₁, hinflight, hseq, hsources, ?_⟩
        · rw [(MessageLog.appendBatch_eq_ok happ).2]
          simp only [Engine.base] at hnew
          simp [dispatchOf, Dispatch.batch, hnew, Engine.base]
        · exact ⟨hfixed.config, hfixed.processors, hfixed.handlers, hfixed.inputs,
            hfixed.extensionInputs, hfixed.status⟩

/-- A round of a started engine that took a command: the dispatcher's step, counted, then the
applier taking events from where it was. Counting leaves the world where the step left it. -/
theorem dispatchRound_eq_some (hs : Started s) {n : Nat}
    (h : exec dispatchRound now s = (.ok (some n), s')) :
    ∃ m c s₁ evs, Dispatched s m c now s₁ ∧ Replayed s₁ evs s' ∧
      (evs.length < unbounded → s'.1.events.length ≤ s'.1.applierAt) ∧
      s₁.2 = (exec dispatchNext now s).2.2 := by
  obtain ⟨m, c, hpeek, hdecode⟩ := dispatchRound_taken (congrArg Prod.fst h)
  unfold dispatchRound at h
  rw [exec_bind] at h
  cases hnext : exec dispatchNext now s with
  | mk r t =>
  rw [hnext] at h
  cases r with
  | error err => simp at h
  | ok o =>
  have hd := dispatchNext_eq_ok hpeek hdecode hnext
  have hst : Started t := by
    unfold Started
    rw [hd.fixed.status]
    exact hs
  dsimp only at h
  -- the outcome decides only how the round is counted
  split at h
  · simp at h
  all_goals
    rw [exec_bind, exec_count, exec_bind, exec_apply_of_started (by exact hst)] at h
    dsimp only at h
    cases happly : exec (applyUpTo unbounded) now _ with
    | mk r' t' =>
    rw [happly] at h
    cases r' with
    | error err => simp at h
    | ok k =>
      simp only [exec_pure, Prod.mk.injEq] at h
      obtain ⟨-, rfl⟩ := h
      obtain ⟨evs, rfl, hreplay, hend⟩ := replayed_applyUpTo unbounded happly
      exact ⟨m, c, _, evs, hd.count _, hreplay, hend, rfl⟩

/-- A round of a started engine that failed on the tracker took a command, and failed on an
event after the applier took the ones before it. -/
theorem dispatchRound_eq_inFlight (hs : Started s) {err : InFlightError}
    (h : (exec dispatchRound now s).1 = .error (.inFlight err)) :
    ∃ m c s₁ evs s₂, Dispatched s m c now s₁ ∧ Replayed s₁ evs s₂ ∧
      (exec applyNext now s₂).1 = .error (.inFlight err) := by
  cases hpeek : s.1.outbox.commands.peek? s.1.config.dispatcherPoller with
  | none => rw [exec_dispatchRound_idle hpeek] at h; cases h
  | some m =>
  cases hdecode : Command.decode m.bytes with
  | error r => rw [exec_dispatchRound_undecodable hpeek hdecode] at h; cases h
  | ok c =>
  unfold dispatchRound at h
  rw [exec_bind] at h
  cases hnext : exec dispatchNext now s with
  | mk r t =>
  rw [hnext] at h
  cases r with
  | error e =>
    -- the dispatcher's step itself never fails on the tracker
    cases h
    exact absurd rfl (sparesTracker_dispatchNext now s _ (congrArg Prod.fst hnext) err)
  | ok o =>
  have hd := dispatchNext_eq_ok hpeek hdecode hnext
  have hst : Started t := by
    unfold Started
    rw [hd.fixed.status]
    exact hs
  dsimp only at h
  split at h
  · cases h
  all_goals
    rw [exec_bind, exec_count, exec_bind, exec_apply_of_started (by exact hst)] at h
    dsimp only at h
    cases happly : exec (applyUpTo unbounded) now _ with
    | mk r' t' =>
    rw [happly] at h
    cases r' with
    | error e =>
      cases h
      obtain ⟨evs, s₂, hreplay, hfail⟩ := applyUpTo_eq_error unbounded (congrArg Prod.fst happly)
      exact ⟨m, c, _, evs, s₂, hd.count _, hreplay, hfail⟩
    | ok k => cases h

section Batch

variable {i : Nat} {c : Command}

/-- The batch of a dispatch: nothing for a duplicate, else the transaction the chain left,
sealed at the next event sequence. -/
theorem batch_dispatchOf : (dispatchOf s i c now).batch =
    if c.sequence ≤ s.1.base.lastCommand c.source then []
    else
      let chain := Processor.runAll c s.1.base s.1.processors.members s.2 (Router.begin c)
      ((chain.2.2.close chain.1).finish (s.1.events.length + 1).toUInt64 now).2 := by
  by_cases hdup : c.sequence ≤ s.1.base.lastCommand c.source <;>
    simp [dispatchOf, Dispatch.batch, hdup]

/-- The dispatcher runs the chain on a command exactly when it is above its source's
watermark. -/
theorem chain_dispatchOf_isSome :
    (dispatchOf s i c now).chain.isSome = true ↔ (dispatchOf s i c now).last < c.sequence := by
  by_cases hdup : c.sequence ≤ s.1.base.lastCommand c.source
  · simp [dispatchOf, hdup, UInt64.not_lt.2 hdup]
  · simp [dispatchOf, hdup, UInt64.not_le.1 hdup]

/-- The chain the dispatcher runs starts from a fresh transaction for the command. -/
theorem extends_of_chain_dispatchOf {result : Except Halt Unit} {router : Router}
    (h : (dispatchOf s i c now).chain = some (result, router)) : (Router.begin c).Extends router := by
  by_cases hdup : c.sequence ≤ s.1.base.lastCommand c.source
  · simp [dispatchOf, hdup] at h
  · simp only [dispatchOf, hdup, if_false, Option.some.injEq, Prod.mk.injEq] at h
    obtain ⟨-, rfl⟩ := h
    exact Processor.runAll_extends c s.1.base s.1.processors.members s.2 (Router.begin c)

/-- Every event of a dispatch's batch belongs to its command, carries the dispatch's time and
fits a record. -/
theorem mem_batch_dispatchOf {e : Event} (h : e ∈ (dispatchOf s i c now).batch) :
    e.source = c.source ∧ e.sourceSequence = c.sequence ∧ e.time = now ∧
      e.payload.length ≤ Router.maxPayload := by
  rw [batch_dispatchOf] at h
  split at h
  · simp at h
  · have hext := Processor.runAll_extends c s.1.base s.1.processors.members s.2 (Router.begin c)
    obtain ⟨hsrc, hseq, htime⟩ := Router.mem_finish h
    simp only [Router.command_close, hext.command_eq] at hsrc hseq
    refine ⟨hsrc, hseq, htime, Router.payload_finish ?_ h⟩
    intro x hx
    rw [Router.routed_close] at hx
    exact hext.routed_fit x (by simpa [Router.begin] using hx)

/-- A batch is numbered on from the sequence after the event log's length. -/
theorem sequence_batch_dispatchOf {j : Nat} {e : Event}
    (h : (dispatchOf s i c now).batch[j]? = some e) :
    e.sequence = (s.1.events.length + 1).toUInt64 + j.toUInt64 := by
  rw [batch_dispatchOf] at h
  split at h
  · simp at h
  · exact Router.sequence_finish h

/-- Applying a batch moves the watermark of the command's source to the command's sequence
when the command was processed, and leaves every other watermark. -/
theorem lastCommand_recordAll_batch (b : BaseState) (x : SourceId) :
    (b.recordAll (dispatchOf s i c now).batch).lastCommand x =
      if x = c.source ∧ s.1.base.lastCommand c.source < c.sequence then c.sequence
      else b.lastCommand x := by
  by_cases hdup : c.sequence ≤ s.1.base.lastCommand c.source
  · rw [batch_dispatchOf, if_pos hdup]
    simp [BaseState.recordAll, UInt64.not_lt.2 hdup]
  · have hterm : ∃ e ∈ (dispatchOf s i c now).batch, e.kind.isTerminal = true := by
      rw [batch_dispatchOf, if_neg hdup]
      exact Router.exists_terminal_finish _ _ _
    rw [BaseState.lastCommand_recordAll_of_terminal
      (fun e he => ⟨(mem_batch_dispatchOf he).1, (mem_batch_dispatchOf he).2.1⟩) hterm x]
    simp [UInt64.not_le.1 hdup]

end Batch

end Engine

end EventSourcing
