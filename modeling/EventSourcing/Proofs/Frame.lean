import EventSourcing.Proofs.Exec

/-!
# What calls leave alone

`Relates R m` says that running `m` relates the state before it to the state after it by `R`,
whatever the clock and however it ends. For a reflexive and transitive `R` it is built up along
the call, and each step of the engine has one lemma that asks `R` of the changes it makes.
`FailsOnly P m` says that every error `m` ends with satisfies `P`.
-/

namespace EventSourcing

namespace Engine

variable {W : Type}

/-- Running `m` relates the state before it to the state after it by `R`. -/
def Relates {α : Type} (R : Engine W × W → Engine W × W → Prop) (m : EngineM W α) : Prop :=
  ∀ now s, R s (exec m now s).2

@[simp]
theorem exec_lift_snd {ε α : Type} (wrap : ε → EngineError) (x : Except ε α) (now : Timestamp)
    (s : Engine W × W) : (exec (lift wrap x : EngineM W α) now s).2 = s := by
  cases x <;> rfl

namespace Relates

variable {R : Engine W × W → Engine W × W → Prop}

theorem modify (f : Engine W × W → Engine W × W) (h : ∀ s, R s (f s)) :
    Relates R (modify f : EngineM W Unit) :=
  fun _ s => h s

theorem modifyEngine (f : Engine W → Engine W) (h : ∀ s : Engine W × W, R s (f s.1, s.2)) :
    Relates R (Engine.modifyEngine f : EngineM W Unit) :=
  fun _ s => h s

theorem modifyWorld (f : W → W) (h : ∀ s : Engine W × W, R s (s.1, f s.2)) :
    Relates R (Engine.modifyWorld f : EngineM W Unit) :=
  fun _ s => h s

theorem count (f : EngineCounters → EngineCounters)
    (h : ∀ s : Engine W × W, R s ({ s.1 with counters := f s.1.counters }, s.2)) :
    Relates R (Engine.count f : EngineM W Unit) :=
  fun _ s => h s

theorem bind [Trans R R R] {α β : Type} {x : EngineM W α} {f : α → EngineM W β}
    (hx : Relates R x) (hf : ∀ a, Relates R (f a)) : Relates R (x >>= f) := by
  intro now s
  rw [exec_bind]
  split
  · exact Trans.trans (hx now s) (hf _ now _)
  · exact hx now s

theorem map {α β : Type} (f : α → β) {x : EngineM W α} (hx : Relates R x) :
    Relates R (f <$> x) := by
  intro now s
  rw [exec_map]
  split
  · exact hx now s
  · exact hx now s

/-- A call that ran from `s` to `s'` relates them. -/
theorem of_exec {α : Type} {m : EngineM W α} (hm : Relates R m) {now : Timestamp}
    {s s' : Engine W × W} {r : Except EngineError α} (h : exec m now s = (r, s')) : R s s' := by
  have := hm now s
  rwa [h] at this

theorem mono {R' : Engine W × W → Engine W × W → Prop} {α : Type} {m : EngineM W α}
    (h : Relates R m) (hR : ∀ s s', R s s' → R' s s') : Relates R' m :=
  fun now s => hR _ _ (h now s)

/-- A call that reads the engine may rely on what it read. -/
theorem engine_bind {α : Type} {f : Engine W → EngineM W α}
    (h : ∀ now s, R s (exec (f s.1) now s).2) : Relates R (Engine.engine >>= f) := by
  intro now s
  rw [exec_engine_bind]
  exact h now s

theorem tryCatch [Trans R R R] {α : Type} {x : EngineM W α} {h : EngineError → EngineM W α}
    (hx : Relates R x) (hh : ∀ e, Relates R (h e)) : Relates R (tryCatch x h) := by
  intro now s
  rw [exec_tryCatch]
  split
  · exact hx now s
  · exact Trans.trans (hx now s) (hh _ now _)

section Reads

variable [Std.Refl R]

theorem of_unchanged {α : Type} {m : EngineM W α} (h : ∀ now s, (exec m now s).2 = s) :
    Relates R m := by
  intro now s
  rw [h]
  exact Std.Refl.refl s

theorem pure {α : Type} (a : α) : Relates R (Pure.pure a : EngineM W α) :=
  of_unchanged fun _ _ => rfl

theorem throw {α : Type} (e : EngineError) : Relates R (MonadExcept.throw e : EngineM W α) :=
  of_unchanged fun _ _ => rfl

theorem engine : Relates R (Engine.engine : EngineM W (Engine W)) :=
  of_unchanged fun _ _ => rfl

theorem world : Relates R (Engine.world : EngineM W W) :=
  of_unchanged fun _ _ => rfl

theorem read : Relates R (MonadReader.read : EngineM W Timestamp) :=
  of_unchanged fun _ _ => rfl

theorem sendContext : Relates R (Engine.sendContext : EngineM W SendContext) :=
  of_unchanged fun _ _ => rfl

theorem lift {ε α : Type} (wrap : ε → EngineError) (x : Except ε α) :
    Relates R (Engine.lift wrap x : EngineM W α) :=
  of_unchanged fun now s => exec_lift_snd wrap x now s

theorem ensureStarted : Relates R (Engine.ensureStarted : EngineM W Unit) :=
  of_unchanged fun now s => by rw [exec_ensureStarted]

/-- A loop of calls each related by `R` is related by `R`. -/
theorem forM [Trans R R R] {α : Type} {f : α → EngineM W PUnit} (hf : ∀ a, Relates R (f a)) :
    ∀ l : List α, Relates R (l.forM f)
  | [] => .pure _
  | a :: l => .bind (hf a) fun _ => forM hf l

theorem foldlM [Trans R R R] {α β : Type} {f : β → α → EngineM W β}
    (hf : ∀ b a, Relates R (f b a)) : ∀ (l : List α) (b : β), Relates R (l.foldlM f b)
  | [], b => .pure b
  | a :: l, b => .bind (hf b a) fun b' => foldlM hf l b'

end Reads

theorem reportHalt (handlers : Handlers W) (c : Command) (r : Except Halt Unit)
    (h : ∀ (s : Engine W × W) (f : W → W), R s (s.1, f s.2)) :
    Relates R (Engine.reportHalt handlers c r : EngineM W Unit) := by
  intro now s
  obtain ⟨f, hf⟩ := exec_reportHalt now s handlers c r
  rw [hf]
  exact h s f

/-! ### What each step asks of `R`

One lemma per step of the engine: it holds whenever `R` relates each change the step makes.
-/

/-- Processing a command changes the application's state, appends a batch and notes the last
event. -/
theorem process [Trans R R R]
    (hworld : ∀ (s : Engine W × W) (w : W), R s (s.1, w))
    (happend : ∀ (s : Engine W × W) (batch : List Bytes),
      R s ({ s.1 with events := (s.1.events.appendBatch batch).2 }, s.2))
    (hnote : ∀ (s : Engine W × W) (n : UInt64) (now : Timestamp), R s ({ s.1 with outbox :=
      { s.1.outbox with transient := s.1.outbox.transient.noteEvent n now } }, s.2))
    (c : Command) : Relates R (Engine.process c : EngineM W Outcome) := by
  intro now s
  unfold Engine.process
  simp only [exec_bind, exec_engine, exec_world, exec_modifyWorld]
  generalize Processor.runAll c s.1.base s.1.processors.members s.2 (Router.begin c) = r
  obtain ⟨result, w, router⟩ := r
  obtain ⟨f, hf⟩ := exec_reportHalt now (s.1, w) s.1.handlers c result
  simp only [hf, exec_read, exec_modifyEngine]
  generalize (router.close result).finish (s.1.events.length + 1).toUInt64 now = closed
  -- the batch is appended, whole or in part, before its result is read
  have happended : R s ({ s.1 with events := (s.1.events.appendBatch
      (closed.2.map Event.encode)).2 }, f w) :=
    Trans.trans (Trans.trans (hworld s w) (hworld (s.1, w) (f w))) (happend (s.1, f w) _)
  split <;> simp only [exec_lift_snd, exec_pure]
  · exact Trans.trans happended (show R _ _ from hnote _ _ _)
  · exact happended

section Steps

variable [Std.Refl R] [Trans R R R]

/-- Scanning a logged command may restore it as in flight, and then notes it as seen. -/
theorem scanCommand
    (hrestore : ∀ (s : Engine W × W) (c : Command), R s ({ s.1 with
      outbox := { s.1.outbox with inFlight := s.1.outbox.inFlight.send c.source c.sequence c.time }
      status := { s.1.status with inFlightRestored := s.1.status.inFlightRestored + 1 } }, s.2))
    (hnote : ∀ (s : Engine W × W) (c : Command), R s ({ s.1 with outbox := { s.1.outbox with
      transient := s.1.outbox.transient.noteCommand c.source c.sequence } }, s.2))
    (i : Nat) : Relates R (Engine.scanCommand i : EngineM W Unit) := by
  unfold Engine.scanCommand
  refine .bind .engine fun e => ?_
  split
  · exact .pure ()
  refine .bind (.lift _ _) fun c => .bind .engine fun e => ?_
  dsimp only
  split
  · refine .bind ?_ fun _ => ?_
    · exact .modifyEngine _ fun s => hrestore s c
    · exact .modifyEngine _ fun s => hnote s c
  · exact .modifyEngine _ fun s => hnote s c

theorem scanCommands
    (hrestore : ∀ (s : Engine W × W) (c : Command), R s ({ s.1 with
      outbox := { s.1.outbox with inFlight := s.1.outbox.inFlight.send c.source c.sequence c.time }
      status := { s.1.status with inFlightRestored := s.1.status.inFlightRestored + 1 } }, s.2))
    (hnote : ∀ (s : Engine W × W) (c : Command), R s ({ s.1 with outbox := { s.1.outbox with
      transient := s.1.outbox.transient.noteCommand c.source c.sequence } }, s.2))
    (hscanned : ∀ (s : Engine W × W) (n : Nat),
      R s ({ s.1 with status := { s.1.status with commandsScanned := n } }, s.2)) :
    Relates R (Engine.scanCommands : EngineM W Unit) := by
  unfold Engine.scanCommands
  refine .bind .engine fun _ => .bind (.forM (scanCommand hrestore hnote) _) fun _ => ?_
  exact .modifyEngine _ fun s => hscanned s _

/-- Dispatching notes the command, hands a duplicate to its handler or processes the command,
and moves the dispatcher's poller. -/
theorem dispatchNext
    (hprocess : ∀ c, Relates R (Engine.process c : EngineM W Outcome))
    (hworld : ∀ (s : Engine W × W) (w : W), R s (s.1, w))
    (hnote : ∀ (s : Engine W × W) (c : Command), R s ({ s.1 with outbox := { s.1.outbox with
      transient := s.1.outbox.transient.noteCommand c.source c.sequence } }, s.2))
    (hcommands : ∀ (s : Engine W × W) (log : MessageLog),
      R s ({ s.1 with outbox := { s.1.outbox with commands := log } }, s.2)) :
    Relates R (Engine.dispatchNext : EngineM W DispatchOutcome) := by
  unfold Engine.dispatchNext
  refine .bind .engine fun e => ?_
  split
  · exact .pure _
  refine .bind (.lift _ _) fun c => .bind ?_ fun _ => ?_
  · exact .modifyEngine _ fun s => hnote s c
  dsimp only
  -- the step after the duplicate check is copied into both branches
  split
  · refine .bind ?_ fun _ => .bind (.pure _) fun _ => .bind .engine fun e =>
      .bind (.lift _ _) fun log => .bind ?_ fun _ => .pure _
    · exact .modifyWorld _ fun s => hworld s _
    · exact .modifyEngine _ fun s => hcommands s log
  · refine .bind (.map _ (hprocess c)) fun _ => .bind .engine fun e =>
      .bind (.lift _ _) fun log => .bind ?_ fun _ => .pure _
    exact .modifyEngine _ fun s => hcommands s log

theorem dispatchRound
    (hnext : Relates R (Engine.dispatchNext : EngineM W DispatchOutcome))
    (happly : Relates R (Engine.apply unbounded : EngineM W Nat))
    (hcount : ∀ (s : Engine W × W) (counters : EngineCounters),
      R s ({ s.1 with counters := counters }, s.2)) :
    Relates R (Engine.dispatchRound : EngineM W (Option Nat)) := by
  unfold Engine.dispatchRound
  refine .bind hnext fun o => ?_
  split
  · exact .pure _
  all_goals
    refine .bind ?_ fun _ => .bind happly fun _ => .pure _
    exact .count _ fun s => hcount s _

/-- Applying an event changes the application and its state, then acknowledges the event,
moves the applier's poller and counts. -/
theorem applyNext
    (happly : ∀ (s : Engine W × W) (a : Application W) (w : W),
      R s ({ s.1 with application := a }, w))
    (hadvance : ∀ (s : Engine W × W) (t : InFlight) (n : UInt64) (now : Timestamp)
      (events : MessageLog), s.1.events.advance s.1.config.applierPoller = .ok events →
      R s ({ s.1 with
        outbox := { s.1.outbox with
          inFlight := t, transient := s.1.outbox.transient.noteEvent n now }
        events := events }, s.2))
    (hcount : ∀ (s : Engine W × W) (counters : EngineCounters),
      R s ({ s.1 with counters := counters }, s.2)) :
    Relates R (Engine.applyNext : EngineM W Bool) := by
  unfold Engine.applyNext
  refine .bind .engine fun e => ?_
  split
  · exact .pure _
  refine .bind (.lift _ _) fun ev => .bind (.lift _ _) fun _ => .bind .world fun w => ?_
  refine .bind (.lift _ _) fun r => ?_
  obtain ⟨_, a, w'⟩ := r
  refine .bind (.modify _ fun s => happly s a w') fun _ => .engine_bind fun now s => ?_
  -- the tracker and the log are read from the state the change above left
  cases hack : s.1.outbox.inFlight.acknowledge ev.source ev.sourceSequence ev.kind with
  | error err =>
    simp only [exec_bind, exec_lift_error]
    exact Std.Refl.refl s
  | ok r =>
    cases hadv : s.1.events.advance s.1.config.applierPoller with
    | error err =>
      simp only [exec_bind, exec_lift_ok, exec_lift_error]
      exact Std.Refl.refl s
    | ok events =>
      simp only [exec_bind, exec_lift_ok, exec_modifyEngine, exec_count, exec_pure]
      exact Trans.trans (hadvance s r.2 _ _ events hadv) (show R _ _ from hcount _ _)

/-- The start moves the applier's poller, replays, records the replay, scans the command log
and marks the engine started. -/
theorem start
    (hmove : ∀ (s : Engine W × W) (events : MessageLog),
      s.1.events.moveTo s.1.config.applierPoller s.1.base.lastEvent.toNat = .ok events →
      R s ({ s.1 with events := events }, s.2))
    (hreplay : ∀ fuel, Relates R (Engine.replayAll fuel : EngineM W Nat))
    (hstatus : ∀ (s : Engine W × W) (counters : EngineCounters) (status : EngineStatus),
      R s ({ s.1 with counters := counters, status := status }, s.2))
    (hscan : Relates R (Engine.scanCommands : EngineM W Unit)) :
    Relates R (Engine.start : EngineM W EngineStatus) := by
  unfold Engine.start
  refine .engine_bind fun now s => ?_
  split
  · simp only [exec_bind, exec_throw]
    exact Std.Refl.refl s
  cases hmoved : s.1.events.moveTo s.1.config.applierPoller s.1.base.lastEvent.toNat with
  | error err =>
    simp only [exec_bind, exec_lift_error]
    exact Std.Refl.refl s
  | ok events =>
    -- the replay starts from the log the move left
    rw [exec_bind, exec_lift_ok]
    dsimp only
    rw [exec_bind, exec_modifyEngine]
    dsimp only
    refine Trans.trans (hmove s events hmoved) (Relates.bind (hreplay _) (fun _ => ?_) now _)
    refine .bind ?_ fun _ => .bind hscan fun _ => .bind ?_ fun _ => .bind .engine fun _ => .pure _
    · exact .modifyEngine _ fun s => hstatus s _ _
    · exact .modifyEngine _ fun s => hstatus s _ _

end Steps

end Relates

/-- Two states that agree on what only the start changes: the settings, the processors,
the handlers, the inputs and the start status. -/
structure Fixed (s s' : Engine W × W) : Prop where
  config : s'.1.config = s.1.config
  processors : s'.1.processors = s.1.processors
  handlers : s'.1.handlers = s.1.handlers
  inputs : s'.1.inputs = s.1.inputs
  extensionInputs : s'.1.extensionInputs = s.1.extensionInputs
  status : s'.1.status = s.1.status

namespace Fixed

@[refl]
theorem refl (s : Engine W × W) : Fixed s s := ⟨rfl, rfl, rfl, rfl, rfl, rfl⟩

theorem trans {s₁ s₂ s₃ : Engine W × W} (h : Fixed s₁ s₂) (h' : Fixed s₂ s₃) : Fixed s₁ s₃ :=
  ⟨h'.config.trans h.config, h'.processors.trans h.processors, h'.handlers.trans h.handlers,
    h'.inputs.trans h.inputs, h'.extensionInputs.trans h.extensionInputs,
    h'.status.trans h.status⟩

instance : Std.Refl (Fixed (W := W)) := ⟨refl⟩

instance : Trans (Fixed (W := W)) Fixed Fixed := ⟨trans⟩

end Fixed

/-- The applier's step keeps the fixed part. -/
theorem fixed_applyNext : Relates Fixed (applyNext : EngineM W Bool) :=
  .applyNext (fun _ _ _ => ⟨rfl, rfl, rfl, rfl, rfl, rfl⟩)
    (fun _ _ _ _ _ _ => ⟨rfl, rfl, rfl, rfl, rfl, rfl⟩) (fun _ _ => ⟨rfl, rfl, rfl, rfl, rfl, rfl⟩)

theorem fixed_applyUpTo : ∀ limit, Relates Fixed (applyUpTo limit : EngineM W Nat)
  | 0 => .pure 0
  | limit + 1 => by
    rw [applyUpTo]
    refine .bind fixed_applyNext fun b => ?_
    split
    · exact .bind (fixed_applyUpTo limit) fun n => .pure (n + 1)
    · exact .pure 0

/-- The dispatcher's step keeps the fixed part. -/
theorem fixed_dispatchNext : Relates Fixed (dispatchNext : EngineM W DispatchOutcome) :=
  .dispatchNext
    (.process (fun _ _ => ⟨rfl, rfl, rfl, rfl, rfl, rfl⟩)
      (fun _ _ => ⟨rfl, rfl, rfl, rfl, rfl, rfl⟩) (fun _ _ _ => ⟨rfl, rfl, rfl, rfl, rfl, rfl⟩))
    (fun _ _ => ⟨rfl, rfl, rfl, rfl, rfl, rfl⟩) (fun _ _ => ⟨rfl, rfl, rfl, rfl, rfl, rfl⟩)
    (fun _ _ => ⟨rfl, rfl, rfl, rfl, rfl, rfl⟩)

/-- The dispatcher's round keeps the fixed part. -/
theorem fixed_dispatchRound : Relates Fixed (dispatchRound : EngineM W (Option Nat)) :=
  .dispatchRound fixed_dispatchNext (.bind .ensureStarted fun _ => fixed_applyUpTo _)
    (fun _ _ => ⟨rfl, rfl, rfl, rfl, rfl, rfl⟩)

/-- Every error `m` ends with satisfies `P`. -/
def FailsOnly {α : Type} (P : EngineError → Prop) (m : EngineM W α) : Prop :=
  ∀ now s e, (exec m now s).1 = .error e → P e

/-- Every error `m` ends with is fatal. -/
abbrev FailsFatally {α : Type} (m : EngineM W α) : Prop := FailsOnly (fun e => e.isFatal = true) m

/-- No error `m` ends with comes from the tracker of commands in flight. -/
abbrev SparesTracker {α : Type} (m : EngineM W α) : Prop :=
  FailsOnly (fun e => ∀ err, e ≠ .inFlight err) m

namespace FailsOnly

variable {P : EngineError → Prop}

theorem of_ok {α : Type} {m : EngineM W α} (h : ∀ now s, ∃ a, (exec m now s).1 = .ok a) :
    FailsOnly P m := by
  intro now s e he
  obtain ⟨a, ha⟩ := h now s
  rw [ha] at he
  cases he

theorem lift {ε α : Type} {wrap : ε → EngineError} (hwrap : ∀ e, P (wrap e))
    (x : Except ε α) : FailsOnly P (Engine.lift wrap x : EngineM W α) := by
  intro now s e he
  cases x with
  | error r =>
    cases he
    exact hwrap r
  | ok a => cases he

theorem bind {α β : Type} {x : EngineM W α} {f : α → EngineM W β} (hx : FailsOnly P x)
    (hf : ∀ a, FailsOnly P (f a)) : FailsOnly P (x >>= f) := by
  intro now s e he
  rw [exec_bind] at he
  split at he
  · exact hf _ now _ e he
  · rename_i hr
    cases he
    exact hx now s _ hr

theorem reportHalt (handlers : Handlers W) (c : Command) (r : Except Halt Unit) :
    FailsOnly P (Engine.reportHalt handlers c r : EngineM W Unit) :=
  of_ok fun now s => by
    obtain ⟨f, hf⟩ := exec_reportHalt now s handlers c r
    exact ⟨(), by rw [hf]⟩

theorem map {α β : Type} (f : α → β) {x : EngineM W α} (hx : FailsOnly P x) :
    FailsOnly P (f <$> x) := by
  intro now s e he
  rw [exec_map] at he
  split at he
  · cases he
  · rename_i hr
    cases he
    exact hx now s _ hr

theorem forM {α : Type} {f : α → EngineM W PUnit} (hf : ∀ a, FailsOnly P (f a)) :
    ∀ l : List α, FailsOnly P (l.forM f)
  | [] => of_ok fun _ _ => ⟨(), rfl⟩
  | a :: l => bind (hf a) fun _ => forM hf l

/-- Processing fails only on the event log. -/
theorem process (hstore : ∀ e, P (.store e)) (c : Command) :
    FailsOnly P (Engine.process c : EngineM W Outcome) := by
  unfold Engine.process
  refine .bind (.of_ok fun _ _ => ⟨_, rfl⟩) fun e => .bind (.of_ok fun _ _ => ⟨_, rfl⟩) fun w => ?_
  refine .bind (.of_ok fun _ _ => ⟨_, rfl⟩) fun _ => .bind (.reportHalt _ _ _) fun _ => ?_
  refine .bind (.of_ok fun _ _ => ⟨_, rfl⟩) fun now => .bind (.of_ok fun _ _ => ⟨_, rfl⟩) fun _ => ?_
  exact .bind (.lift hstore _) fun _ => .bind (.of_ok fun _ _ => ⟨_, rfl⟩) fun _ =>
    .of_ok fun _ _ => ⟨_, rfl⟩

/-- Dispatching fails only on a record that does not read or on a log. -/
theorem dispatchNext (hrecord : ∀ e, P (.record e)) (hstore : ∀ e, P (.store e)) :
    FailsOnly P (Engine.dispatchNext : EngineM W DispatchOutcome) := by
  unfold Engine.dispatchNext
  refine .bind (.of_ok fun _ _ => ⟨_, rfl⟩) fun e => ?_
  split
  · exact .of_ok fun _ _ => ⟨_, rfl⟩
  refine .bind (.lift hrecord _) fun c => .bind (.of_ok fun _ _ => ⟨_, rfl⟩) fun _ => ?_
  dsimp only
  split
  · refine .bind (.of_ok fun _ _ => ⟨_, rfl⟩) fun _ => .bind (.of_ok fun _ _ => ⟨_, rfl⟩) fun _ => ?_
    exact .bind (.of_ok fun _ _ => ⟨_, rfl⟩) fun _ => .bind (.lift hstore _) fun _ =>
      .of_ok fun _ _ => ⟨_, rfl⟩
  · refine .bind (.map _ (process hstore c)) fun _ => .bind (.of_ok fun _ _ => ⟨_, rfl⟩) fun _ => ?_
    exact .bind (.lift hstore _) fun _ => .of_ok fun _ _ => ⟨_, rfl⟩

end FailsOnly

theorem SparesTracker.lift {ε α : Type} {wrap : ε → EngineError}
    (hwrap : ∀ e err, wrap e ≠ .inFlight err) (x : Except ε α) :
    SparesTracker (Engine.lift wrap x : EngineM W α) :=
  FailsOnly.lift hwrap x

/-- The applier's step fails only fatally. -/
theorem failsFatally_applyNext : FailsFatally (applyNext : EngineM W Bool) := by
  have hfatal : ∀ {ε : Type} (wrap : ε → EngineError), (∀ e, (wrap e).isFatal = true) →
      ∀ {α : Type} (x : Except ε α), FailsFatally (lift wrap x : EngineM W α) :=
    fun _ hwrap _ x => FailsOnly.lift hwrap x
  unfold applyNext
  refine .bind (.of_ok fun _ _ => ⟨_, rfl⟩) fun e => ?_
  split
  · exact .of_ok fun _ _ => ⟨_, rfl⟩
  refine .bind (hfatal _ (fun _ => rfl) _) fun ev => .bind (hfatal _ (fun _ => rfl) _) fun _ => ?_
  refine .bind (.of_ok fun _ _ => ⟨_, rfl⟩) fun w => .bind (hfatal _ (fun _ => rfl) _) fun r => ?_
  refine .bind (.of_ok fun _ _ => ⟨_, rfl⟩) fun _ => .bind (.of_ok fun _ _ => ⟨_, rfl⟩) fun e => ?_
  refine .bind (hfatal _ (fun _ => rfl) _) fun r => .bind (hfatal _ (fun _ => rfl) _) fun _ => ?_
  exact .bind (.of_ok fun _ _ => ⟨_, rfl⟩) fun _ => .bind (.of_ok fun _ _ => ⟨_, rfl⟩) fun _ =>
    .of_ok fun _ _ => ⟨_, rfl⟩

theorem failsFatally_applyUpTo : ∀ limit, FailsFatally (applyUpTo limit : EngineM W Nat)
  | 0 => FailsOnly.of_ok fun _ _ => ⟨0, rfl⟩
  | limit + 1 => by
    rw [applyUpTo]
    refine FailsOnly.bind failsFatally_applyNext fun b => ?_
    split
    · exact FailsOnly.bind (failsFatally_applyUpTo limit) fun n =>
        FailsOnly.of_ok fun _ _ => ⟨n + 1, rfl⟩
    · exact FailsOnly.of_ok fun _ _ => ⟨0, rfl⟩

/-- The dispatcher's step fails only fatally. -/
theorem failsFatally_dispatchNext : FailsFatally (dispatchNext : EngineM W DispatchOutcome) :=
  FailsOnly.dispatchNext (fun _ => rfl) (fun _ => rfl)

/-- The dispatcher's step acknowledges no command in flight, and so never fails on the
tracker. -/
theorem sparesTracker_dispatchNext : SparesTracker (dispatchNext : EngineM W DispatchOutcome) :=
  FailsOnly.dispatchNext (fun _ _ h => by cases h) (fun _ _ h => by cases h)

/-- Scanning the command log only reads records, and so never fails on the tracker. -/
theorem sparesTracker_scanCommands : SparesTracker (scanCommands : EngineM W Unit) := by
  have hscan : ∀ i, SparesTracker (scanCommand i : EngineM W Unit) := fun i => by
    unfold scanCommand
    refine .bind (.of_ok fun _ _ => ⟨_, rfl⟩) fun e => ?_
    split
    · exact .of_ok fun _ _ => ⟨_, rfl⟩
    refine .bind (SparesTracker.lift (fun _ _ h => by cases h) _) fun c => ?_
    refine .bind (.of_ok fun _ _ => ⟨_, rfl⟩) fun e => ?_
    dsimp only
    split
    · exact .bind (.of_ok fun _ _ => ⟨_, rfl⟩) fun _ => .of_ok fun _ _ => ⟨_, rfl⟩
    · exact .of_ok fun _ _ => ⟨_, rfl⟩
  unfold scanCommands
  exact FailsOnly.bind (FailsOnly.of_ok fun _ _ => ⟨_, rfl⟩) fun _ =>
    FailsOnly.bind (FailsOnly.forM hscan _) fun _ => FailsOnly.of_ok fun _ _ => ⟨_, rfl⟩

end Engine

end EventSourcing
