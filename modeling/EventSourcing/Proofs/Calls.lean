import EventSourcing.Proofs.Moves

/-!
# Engine calls are sequences of moves

Every call of an engine's life is a sequence of moves (`Proofs/Moves`), ending with a value
or with an error the engine can go on past, or failing in one of its pieces.

The applier's and the dispatcher's steps are run symbolically first: with nothing at the
poller they change nothing, and with a record there they either take it, which is a move, or
fail. The calls are then put together from their pieces with the lemmas of
`DecomposesFrom`. Publishing needs more than the pieces: an output moves past an event only
when the event has been applied, which holds because publishing never changes the base
state.
-/

namespace EventSourcing

namespace Engine

variable {W : Type}

section Applier

variable {now : Timestamp} {s : Engine W × W}

theorem exec_applyNext_none (hpeek : s.1.events.peek? s.1.config.applierPoller = none) :
    exec applyNext now s = (.ok false, s) := by
  unfold applyNext
  simp [exec_bind, hpeek]

theorem exec_applyNext_undecodable {m : Stored} {r : RecordError}
    (hpeek : s.1.events.peek? s.1.config.applierPoller = some m)
    (hdecode : Event.decode m.bytes = .error r) :
    exec applyNext now s = (.error (.record r), s) := by
  unfold applyNext
  simp [exec_bind, hpeek, hdecode]

theorem applyNext_ne_false {m : Stored}
    (hpeek : s.1.events.peek? s.1.config.applierPoller = some m) :
    (exec applyNext now s).1 ≠ .ok false := by
  unfold applyNext
  simp only [exec_bind, exec_engine, hpeek]
  repeat' split
  all_goals simp_all

theorem applyNext_unchanged (h : (exec applyNext now s).1 = .ok false) :
    exec applyNext now s = (.ok false, s) := by
  cases hpeek : s.1.events.peek? s.1.config.applierPoller with
  | none => exact exec_applyNext_none hpeek
  | some m => exact absurd h (applyNext_ne_false hpeek)

theorem applyNext_taken (h : (exec applyNext now s).1 = .ok true) :
    ∃ m ev, s.1.events.peek? s.1.config.applierPoller = some m ∧ Event.decode m.bytes = .ok ev := by
  cases hpeek : s.1.events.peek? s.1.config.applierPoller with
  | none => simp [exec_applyNext_none hpeek] at h
  | some m =>
    cases hdecode : Event.decode m.bytes with
    | error r => simp [exec_applyNext_undecodable hpeek hdecode] at h
    | ok ev => exact ⟨m, ev, rfl, hdecode⟩

end Applier

theorem decomposes_applyNext : Decomposes (applyNext : EngineM W Bool) := by
  intro now s _
  cases hr : (exec applyNext now s).1 with
  | error e => exact ⟨[], s, .refl s, .inr (.apply hr)⟩
  | ok b =>
    cases b with
    | false => exact ⟨[], s, .refl s, by rw [applyNext_unchanged hr]; exact ⟨rfl, trivial⟩⟩
    | true =>
      obtain ⟨m, ev, hpeek, hdecode⟩ := applyNext_taken hr
      exact ⟨_, _, .single (.applied hpeek hdecode (Prod.ext hr rfl)), rfl, trivial⟩

theorem decomposes_applyUpTo : ∀ limit, Decomposes (applyUpTo limit : EngineM W Nat)
  | 0 => .of_pure fun _ _ => ⟨0, rfl⟩
  | limit + 1 => by
    rw [applyUpTo]
    refine .bind decomposes_applyNext fun _ => .ite ?_ (.of_pure fun _ _ => ⟨0, rfl⟩)
    exact .bind (decomposes_applyUpTo limit) fun n => .of_pure fun _ _ => ⟨n + 1, rfl⟩

theorem decomposes_apply (limit : Nat) : Decomposes (apply limit : EngineM W Nat) :=
  .bind .ensureStarted fun _ => .of_decomposes (decomposes_applyUpTo limit)

section Dispatcher

variable {now : Timestamp} {s : Engine W × W}

theorem exec_dispatchRound_idle
    (hpeek : s.1.outbox.commands.peek? s.1.config.dispatcherPoller = none) :
    exec dispatchRound now s = (.ok none, s) := by
  unfold dispatchRound dispatchNext
  simp [exec_bind, hpeek]

theorem exec_dispatchRound_undecodable {m : Stored} {r : RecordError}
    (hpeek : s.1.outbox.commands.peek? s.1.config.dispatcherPoller = some m)
    (hdecode : Command.decode m.bytes = .error r) :
    exec dispatchRound now s = (.error (.record r), s) := by
  unfold dispatchRound dispatchNext
  simp [exec_bind, hpeek, hdecode]

theorem dispatchNext_ne_idle {m : Stored}
    (hpeek : s.1.outbox.commands.peek? s.1.config.dispatcherPoller = some m) :
    (exec dispatchNext now s).1 ≠ .ok .idle := by
  unfold dispatchNext
  cases hdecode : Command.decode m.bytes with
  | error r => simp [exec_bind, hpeek, hdecode]
  | ok c =>
    simp only [exec_bind, exec_engine, hpeek, hdecode, exec_lift_ok, exec_modifyEngine]
    split
    · simp only [exec_bind, exec_modifyWorld, exec_engine, exec_pure]
      split <;> simp
    · simp only [exec_bind, exec_engine, exec_map]
      generalize exec (process c) now _ = p
      obtain ⟨r, s'⟩ := p
      cases r with
      | error e => simp
      | ok o =>
        dsimp only
        split <;> simp

theorem dispatchRound_ne_none {m : Stored}
    (hpeek : s.1.outbox.commands.peek? s.1.config.dispatcherPoller = some m) :
    (exec dispatchRound now s).1 ≠ .ok none := by
  unfold dispatchRound
  rw [exec_bind]
  split
  · rename_i hnext
    split
    · exact absurd hnext (dispatchNext_ne_idle hpeek)
    all_goals simp only [exec_bind, exec_count]; split <;> simp
  · simp

theorem dispatchRound_unchanged (h : (exec dispatchRound now s).1 = .ok none) :
    exec dispatchRound now s = (.ok none, s) := by
  cases hpeek : s.1.outbox.commands.peek? s.1.config.dispatcherPoller with
  | none => exact exec_dispatchRound_idle hpeek
  | some m => exact absurd h (dispatchRound_ne_none hpeek)

theorem dispatchRound_taken {n : Nat} (h : (exec dispatchRound now s).1 = .ok (some n)) :
    ∃ m c, s.1.outbox.commands.peek? s.1.config.dispatcherPoller = some m ∧
      Command.decode m.bytes = .ok c := by
  cases hpeek : s.1.outbox.commands.peek? s.1.config.dispatcherPoller with
  | none => simp [exec_dispatchRound_idle hpeek] at h
  | some m =>
    cases hdecode : Command.decode m.bytes with
    | error r => simp [exec_dispatchRound_undecodable hpeek hdecode] at h
    | ok c => exact ⟨m, c, rfl, hdecode⟩

theorem exec_apply_of_started {limit : Nat} (hs : Started s) :
    exec (apply limit) now s = exec (applyUpTo limit) now s := by
  unfold apply
  rw [exec_bind, exec_ensureStarted, if_pos (show s.1.status.started = true from hs)]

/-- A round of a started engine fails only fatally. -/
theorem dispatchRound_error_isFatal (hs : Started s) {e : EngineError}
    (h : (exec dispatchRound now s).1 = .error e) : e.isFatal = true := by
  unfold dispatchRound at h
  rw [exec_bind] at h
  have hs' : Started (exec dispatchNext now s).2 := by
    unfold Started
    rw [(fixed_dispatchNext now s).status]
    exact hs
  split at h
  · split at h
    · cases h
    all_goals
      rw [exec_bind, exec_count, exec_bind, exec_apply_of_started] at h
      · dsimp only at h
        split at h
        · cases h
        · rename_i hr
          cases h
          exact failsFatally_applyUpTo _ now _ _ hr
      · exact hs'
  · rename_i hr
    cases h
    exact failsFatally_dispatchNext now s _ hr

/-- A piece of a started engine's call fails only fatally. -/
theorem Fails.isFatal {e : EngineError} (h : Fails now s e) : e.isFatal = true := by
  cases h with
  | apply h => exact failsFatally_applyNext now s e h
  | dispatch hs h => exact dispatchRound_error_isFatal hs h
  | record r => rfl
  | store r => rfl

end Dispatcher

/-- A call that decomposes and ends without a fatal error is a sequence of moves to where it
ends. -/
theorem DecomposesFrom.moves {α : Type} {P Q : Engine W × W → Prop} {m : EngineM W α}
    {now : Timestamp} {s : Engine W × W} (h : DecomposesFrom P Q m) (hs : P s)
    (hnf : ∀ e, (exec m now s).1 = .error e → e.isFatal = false) :
    ∃ ls, Moves now s ls (exec m now s).2 := by
  obtain ⟨ls, s₁, hmoves, hend⟩ := h now s hs
  revert hend
  cases hr : (exec m now s).1 with
  | ok a =>
    rintro ⟨rfl, -⟩
    exact ⟨ls, hmoves⟩
  | error e =>
    rintro (⟨-, rfl⟩ | hfails)
    · exact ⟨ls, hmoves⟩
    · have hfatal := hfails.isFatal
      rw [hnf e hr] at hfatal
      cases hfatal


/-- A round of a started engine is a move, or nothing, or fails in the dispatcher; the engine
stays started. -/
theorem decomposes_dispatchRound :
    DecomposesFrom Started Started (dispatchRound : EngineM W (Option Nat)) := by
  intro now s hs
  have hstarted : Started (exec dispatchRound now s).2 := by
    unfold Started
    rw [(fixed_dispatchRound now s).status]
    exact hs
  cases hr : (exec dispatchRound now s).1 with
  | error e => exact ⟨[], s, .refl s, .inr (.dispatch hs hr)⟩
  | ok r =>
    cases r with
    | none => exact ⟨[], s, .refl s, by rw [dispatchRound_unchanged hr]; exact ⟨rfl, hs⟩⟩
    | some n =>
      obtain ⟨m, c, hpeek, hdecode⟩ := dispatchRound_taken hr
      exact ⟨_, _, .single (.dispatched hpeek hdecode (Prod.ext hr rfl)), rfl, hstarted⟩

theorem decomposes_dispatchUpTo :
    ∀ limit, DecomposesFrom Started Started (dispatchUpTo limit : EngineM W Nat)
  | 0 => .of_pure fun _ _ => ⟨0, rfl⟩
  | limit + 1 => by
    rw [dispatchUpTo]
    refine .bind decomposes_dispatchRound fun r => ?_
    cases r with
    | none => exact .of_pure fun _ _ => ⟨0, rfl⟩
    | some work =>
      exact .bind (decomposes_dispatchUpTo limit) fun n => .of_pure fun _ _ => ⟨work + n, rfl⟩

theorem decomposes_dispatch : Decomposes (dispatch : EngineM W Nat) :=
  .bind .ensureStarted fun _ => .bind .engine fun _ =>
    (decomposes_dispatchUpTo _).mono (fun _ h => h.2) fun _ _ => trivial


theorem decomposes_offer {i : Nat} {slot : OutputSlot W} {m : Stored} {ev : Event}
    {replayEnd : Nat} {report : PublishReport} {b : BaseState} {E : MessageLog} :
    DecomposesFrom
      (fun s => s.1.base = b ∧ s.1.events = E ∧ s.1.publisher.slots[i]? = some slot)
      (fun s => s.1.base = b ∧ s.1.events = E ∧
        s.1.publisher.slots[i]? = some { slot with attempts := slot.attempts + 1 })
      (offer i slot m ev replayEnd report) := by
  rintro now s ⟨rfl, rfl, hslot⟩
  have hslot' : (s.1.publisher.slots.set i { slot with attempts := slot.attempts + 1 })[i]? =
      some { slot with attempts := slot.attempts + 1 } := by
    rw [List.getElem?_set_self', hslot]
    rfl
  unfold offer
  simp only [exec_bind, exec_engine, setSlot, exec_modifyEngine, exec_sendContext, exec_world,
    exec_modify]
  generalize hctx : (OutputContext.mk _ _ _ _) = ctx
  have hsend : ctx.send = ⟨s.1.base, now⟩ := by
    subst hctx
    rfl
  have hsends := slot.output.publish_sends ev ctx s.2 s.1.outbox
  rw [hsend] at hsends
  -- the attempt is counted, then the output sends what it sends
  have hmoves := (Moves.single (.attempted s (slot.attempts + 1) hslot)).trans
    (Moves.single (.sent _ (slot.output.publish ev ctx s.2 s.1.outbox).2.1 hsends
      (.inr (.inl ⟨_, List.mem_of_getElem? hslot', ev, ctx, rfl, rfl⟩))))
  generalize slot.output.publish ev ctx s.2 s.1.outbox = a at hmoves ⊢
  rcases hanswer : report.answer (slot.attempts + 1) a.1 with ⟨r, _ | f⟩
  · exact ⟨_, _, hmoves, rfl, rfl, rfl, hslot'⟩
  · by_cases hretry : slot.attempts + 1 < s.1.publisher.retryBudget
    · simp only [hretry, if_true]
      exact ⟨_, _, hmoves, rfl, rfl, rfl, hslot'⟩
    · simp only [hretry, if_false, exec_bind, exec_modifyWorld, exec_pure]
      exact ⟨_, _, hmoves.trans (.single (.changed _ _ (.inl ⟨_, _, _, _, rfl⟩))), rfl, rfl, rfl,
        hslot'⟩


/-- Publishing to one output keeps the base state, so every event it publishes has been
applied. -/
theorem decomposes_publishSlot (i : Nat) (lastApplied : UInt64) (replayEnd : Nat) :
    ∀ limit report, DecomposesFrom (fun s : Engine W × W => s.1.base.lastEvent = lastApplied)
      (fun s => s.1.base.lastEvent = lastApplied)
      (publishSlot i lastApplied replayEnd limit report)
  | 0, report => .pure report
  | limit + 1, report => by
    intro now s hs
    rw [publishSlot, exec_engine_bind]
    cases hslot : s.1.publisher.slots[i]? with
    | none => exact ⟨[], s, .refl s, rfl, hs⟩
    | some slot =>
    dsimp only
    cases hpeek : s.1.events.peek? slot.poller with
    | none => exact ⟨[], s, .refl s, rfl, hs⟩
    | some m =>
    dsimp only
    cases hdecode : Event.decode m.bytes with
    | error r =>
      simp only [exec_bind, exec_lift_error]
      exact ⟨[], s, .refl s, .inr (.record r)⟩
    | ok ev =>
    simp only [exec_bind, exec_lift_ok]
    by_cases hlate : lastApplied < ev.sequence
    · simp only [hlate, if_true, exec_pure]
      exact ⟨[], s, .refl s, rfl, hs⟩
    simp only [hlate, if_false]
    refine (DecomposesFrom.bind (P := (· = s))
      (decomposes_offer.mono (fun _ h => by subst h; exact ⟨rfl, rfl, hslot⟩) fun _ h => h)
      fun r => ?_) now s rfl
    cases r with
    | none => exact (DecomposesFrom.pure _).mono (fun _ h => h) fun _ h => h.1 ▸ hs
    | some report' =>
      rintro now' s₁ ⟨hbase, hevents, hslot₁⟩
      -- the output is done with the event: its attempts are reset and its poller moves on
      have hattempt : Move now' s₁ [] _ := .attempted s₁ 0 hslot₁
      simp only [exec_bind, setSlot, exec_modifyEngine, exec_engine]
      cases hadvance : s₁.1.events.advance slot.poller with
      | error r =>
        simp only [exec_lift_error]
        exact ⟨[], _, .single hattempt, .inr (.store r)⟩
      | ok events =>
        simp only [exec_lift_ok]
        let s₂ : Engine W × W := ({ s₁.1 with publisher := { s₁.1.publisher with
          slots := s₁.1.publisher.slots.set i { slot with attempts := 0 } } }, s₁.2)
        have hpeek₂ : s₂.1.events.peek? slot.poller = some m := by
          rw [show s₂.1.events = s.1.events from hevents]
          exact hpeek
        have happlied : ev.sequence ≤ s₂.1.base.lastEvent := by
          rw [show s₂.1.base = s.1.base from hbase, hs]
          exact UInt64.not_lt.1 hlate
        have hpublished : Move now' s₂ [] _ := .published s₂ hpeek₂ hdecode happlied hadvance
        obtain ⟨ls, sₙ, hmoves, hend⟩ := decomposes_publishSlot i lastApplied replayEnd limit
          report' now' ({ s₂.1 with events := events }, s₂.2) (by
            show s₁.1.base.lastEvent = lastApplied
            rw [hbase, hs])
        exact ⟨_, sₙ, (Moves.single hattempt).trans ((Moves.single hpublished).trans hmoves), hend⟩


theorem decomposes_publish : Decomposes (publish : EngineM W Nat) := by
  unfold publish
  refine .bind .ensureStarted fun _ =>
    .engine_bind (A := fun e s => s.1.base.lastEvent = e.base.lastEvent) (fun _ _ => rfl)
      fun e => .ite ((DecomposesFrom.pure 0).mono (fun _ h => h) fun _ _ => trivial) ?_
  exact .bind (.foldlM (fun report i _ => decomposes_publishSlot i _ _ _ report) _) fun _ =>
    .bind (.count _ fun _ _ => trivial) fun _ => .pure _

theorem decomposes_send (source : SourceId) (payloadType : PayloadType) (payload : Bytes) :
    Decomposes (send source payloadType payload : EngineM W UInt64) := by
  unfold send
  refine .bind .ensureStarted fun _ => ?_
  intro now s _
  simp only [exec_bind, exec_engine, exec_sendContext]
  refine ⟨_, _, .single (.hostSent s source payloadType payload), ?_⟩
  generalize hsend : s.1.outbox.send ⟨s.1.base, now⟩ source payloadType payload = r
  obtain ⟨result, o⟩ := r
  cases result with
  | ok n => exact ⟨rfl, trivial⟩
  | error e => exact .inl ⟨Outbox.send_error_not_fatal hsend, rfl⟩

theorem decomposes_nextSequence (source : SourceId) :
    Decomposes (nextSequence source : EngineM W UInt64) := by
  unfold nextSequence
  refine .bind .ensureStarted fun _ => ?_
  intro now s _
  simp only [exec_bind, exec_engine, exec_sendContext]
  exact ⟨[], _, .single (.sent s s.2 (.next source (.refl _)) (.inl ⟨rfl, source, rfl⟩)), rfl,
    trivial⟩

/-- A poll of one of the engine's inputs is the input's sends; a failed poll is reported and
counted. -/
theorem decomposes_pollInput (work : Nat) {input : Input W} {e : Engine W}
    (hinput : input ∈ e.inputs.members ++ e.extensionInputs.members) :
    DecomposesFrom (fun s => s.1.inputs = e.inputs ∧ s.1.extensionInputs = e.extensionInputs)
      (fun s => s.1.inputs = e.inputs ∧ s.1.extensionInputs = e.extensionInputs)
      (pollInput work input : EngineM W Nat) := by
  rintro now s ⟨hinputs, hextensions⟩
  unfold pollInput
  simp only [exec_bind, exec_sendContext, exec_world, exec_engine, exec_modify]
  have hsent : Move now s [] _ := .sent s (input.poll ⟨s.1.base, now⟩ s.2 s.1.outbox).2.1
    (input.poll_sends ⟨s.1.base, now⟩ s.2 s.1.outbox)
    (.inr (.inr ⟨input, by rw [hinputs, hextensions]; exact hinput, rfl, rfl⟩))
  cases (input.poll ⟨s.1.base, now⟩ s.2 s.1.outbox).1 with
  | ok n => exact ⟨_, _, .single hsent, rfl, hinputs, hextensions⟩
  | error f =>
    simp only [exec_bind, exec_engine, exec_modifyWorld, exec_count, exec_pure]
    exact ⟨_, _, (Moves.single hsent).trans
      ((Moves.single (.changed _ (s.1.handlers.inputError input.name f)
        (by exact .inr ⟨_, _, rfl⟩))).trans
        (.single (.counted _ fun c => { c with inputFailures := c.inputFailures + 1 }))),
      rfl, hinputs, hextensions⟩

theorem decomposes_pollInputs (extensions : Bool) :
    Decomposes (pollInputs extensions : EngineM W Nat) := by
  -- the inputs polled are the engine's, which polling leaves in place
  have hpoll : ∀ e : Engine W, DecomposesFrom
      (fun s => s.1.inputs = e.inputs ∧ s.1.extensionInputs = e.extensionInputs) (fun _ => True)
      ((if extensions then e.extensionInputs else e.inputs).members.foldlM pollInput 0) := by
    intro e
    refine (DecomposesFrom.foldlM (fun work input hinput => decomposes_pollInput work ?_) 0).mono
      (fun _ h => h) fun _ _ => trivial
    cases extensions
    · exact List.mem_append_left _ hinput
    · exact List.mem_append_right _ hinput
  unfold pollInputs
  exact .engine_bind (fun _ _ => ⟨rfl, rfl⟩) hpoll

theorem decomposes_runSteps : Decomposes (runSteps : EngineM W Nat) := by
  unfold runSteps
  exact .bind (decomposes_pollInputs false) fun _ => .bind decomposes_dispatch fun _ =>
    .bind .engine fun _ => .bind (decomposes_apply _) fun _ => .bind decomposes_publish fun _ =>
    .bind (decomposes_pollInputs true) fun _ => .pure _

theorem decomposes_runCycle : Decomposes (runCycle : EngineM W Nat) := by
  unfold runCycle
  exact .bind .ensureStarted fun _ => .tryCatch_count
    (.bind (.of_decomposes decomposes_runSteps) fun _ =>
      .bind (.count _ fun _ _ => trivial) fun _ => .pure _) _

theorem decomposes_runCycles : ∀ budget total, Decomposes (runCycles budget total : EngineM W Nat)
  | 0, total => .pure total
  | budget + 1, total => by
    rw [runCycles]
    exact .bind decomposes_runCycle fun _ => .ite (.pure total) (decomposes_runCycles budget _)

theorem decomposes_runUntilIdle : Decomposes (runUntilIdle : EngineM W Nat) := by
  unfold runUntilIdle
  exact .bind .engine fun _ => decomposes_runCycles _ 0

end Engine

end EventSourcing
