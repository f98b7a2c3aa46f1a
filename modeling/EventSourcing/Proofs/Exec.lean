import EventSourcing.Engine.Run

/-!
# Running engine calls

`Engine.exec` runs a call at a reading of the clock from an engine and an application
state, and gives the result with the state after it. The lemmas here say what each
primitive of the call language does, so that a call can be run symbolically by rewriting.
-/

namespace EventSourcing

namespace Engine

variable {W : Type}

/-- Runs a call at the clock reading `now` from the state `s`. -/
def exec {α : Type} (m : EngineM W α) (now : Timestamp) (s : Engine W × W) :
    Except EngineError α × (Engine W × W) :=
  ((m.run).run now).run s

section Primitives

variable (now : Timestamp) (s : Engine W × W)

theorem exec_bind {α β : Type} (x : EngineM W α) (f : α → EngineM W β) :
    exec (x >>= f) now s =
      match (exec x now s).1 with
      | .ok a => exec (f a) now (exec x now s).2
      | .error e => (.error e, (exec x now s).2) := by
  unfold exec
  simp only [ExceptT.run, bind, ExceptT.bind, ExceptT.mk, ReaderT.run, ReaderT.bind, StateT.run,
    StateT.bind]
  generalize x now s = p
  obtain ⟨a, s'⟩ := p
  cases a <;> rfl

theorem exec_map {α β : Type} (f : α → β) (x : EngineM W α) :
    exec (f <$> x) now s =
      match (exec x now s).1 with
      | .ok a => (.ok (f a), (exec x now s).2)
      | .error e => (.error e, (exec x now s).2) := by
  unfold exec
  simp only [ExceptT.run, Functor.map, ExceptT.map, ExceptT.mk, ReaderT.run, StateT.run,
    bind, ReaderT.bind, StateT.bind]
  generalize x now s = p
  obtain ⟨a, s'⟩ := p
  cases a <;> rfl

theorem exec_tryCatch {α : Type} (x : EngineM W α) (h : EngineError → EngineM W α) :
    exec (tryCatch x h) now s =
      match (exec x now s).1 with
      | .ok a => (.ok a, (exec x now s).2)
      | .error e => exec (h e) now (exec x now s).2 := by
  unfold exec
  simp only [tryCatch, tryCatchThe, MonadExceptOf.tryCatch, ExceptT.tryCatch, ExceptT.run,
    ExceptT.mk, ReaderT.run, StateT.run, bind, ReaderT.bind, StateT.bind]
  generalize x now s = p
  obtain ⟨a, s'⟩ := p
  cases a <;> rfl

@[simp]
theorem exec_pure {α : Type} (a : α) : exec (pure a : EngineM W α) now s = (.ok a, s) := rfl

@[simp]
theorem exec_throw {α : Type} (e : EngineError) :
    exec (throw e : EngineM W α) now s = (.error e, s) := rfl

@[simp]
theorem exec_engine : exec (engine : EngineM W (Engine W)) now s = (.ok s.1, s) := rfl

theorem exec_engine_bind {α : Type} (f : Engine W → EngineM W α) :
    exec (engine >>= f) now s = exec (f s.1) now s := by
  simp only [exec_bind, exec_engine]

@[simp]
theorem exec_world : exec (world : EngineM W W) now s = (.ok s.2, s) := rfl

@[simp]
theorem exec_read : exec (read : EngineM W Timestamp) now s = (.ok now, s) := rfl

@[simp]
theorem exec_modify (f : Engine W × W → Engine W × W) :
    exec (modify f : EngineM W Unit) now s = (.ok (), f s) := rfl

@[simp]
theorem exec_modifyEngine (f : Engine W → Engine W) :
    exec (modifyEngine f) now s = (.ok (), (f s.1, s.2)) := rfl

@[simp]
theorem exec_modifyWorld (f : W → W) :
    exec (modifyWorld f : EngineM W Unit) now s = (.ok (), (s.1, f s.2)) := rfl

@[simp]
theorem exec_count (f : EngineCounters → EngineCounters) :
    exec (count f : EngineM W Unit) now s = (.ok (), ({ s.1 with counters := f s.1.counters }, s.2)) :=
  rfl

@[simp]
theorem exec_sendContext :
    exec (sendContext : EngineM W SendContext) now s = (.ok ⟨s.1.base, now⟩, s) := rfl

@[simp]
theorem exec_lift_ok {ε α : Type} (wrap : ε → EngineError) (a : α) :
    exec (lift wrap (.ok a : Except ε α) : EngineM W α) now s = (.ok a, s) := rfl

@[simp]
theorem exec_lift_error {ε α : Type} (wrap : ε → EngineError) (e : ε) :
    exec (lift wrap (.error e : Except ε α) : EngineM W α) now s = (.error (wrap e), s) := rfl

theorem exec_ensureStarted :
    exec (ensureStarted : EngineM W Unit) now s =
      (if s.1.status.started then .ok () else .error .notStarted, s) := by
  unfold ensureStarted
  simp only [exec_bind, exec_engine]
  cases s.1.status.started <;> rfl

/-- Reporting a halt changes the application's state only. -/
theorem exec_reportHalt (handlers : Handlers W) (c : Command) (r : Except Halt Unit) :
    ∃ f : W → W, exec (reportHalt handlers c r) now s = (.ok (), (s.1, f s.2)) := by
  cases r with
  | ok u => exact ⟨id, rfl⟩
  | error h =>
    cases h with
    | failed f => exact ⟨_, rfl⟩
    | panicked m => exact ⟨_, rfl⟩

end Primitives

end Engine

end EventSourcing
