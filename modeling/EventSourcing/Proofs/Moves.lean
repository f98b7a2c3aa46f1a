import EventSourcing.Proofs.Frame

/-!
# Calls as sequences of moves

An engine call is a sequence of moves: the applier applies one event, the dispatcher takes
one command and the events of its transaction are applied, counters change, the
application's state changes, the host or members send commands, an output records an
attempt or moves past an applied event. Each move says what it makes visible: the events the
applier took, with whether its appliers saw them, what the dispatcher did with the command it
took, and the commands the host sent.
A call that fails does so in one of its pieces, after a sequence of moves.

Invariants of the engine are then proved once per move, and hold at every call boundary.
-/

namespace EventSourcing

/-- What the dispatcher did with the command it took. -/
structure Dispatch where
  /-- The command's place in the command log. -/
  index : Nat
  command : Command
  /-- The watermark of the command's source when the command was taken. -/
  last : UInt64
  /-- For a processed command, how the processor chain ended and the transaction it left. -/
  chain : Option (Except Halt Unit × Router)
  /-- The sequence of the first event of the transaction. -/
  first : UInt64
  /-- The clock reading the events of the transaction carry. -/
  time : Timestamp

namespace Dispatch

/-- The events the dispatch appended: the batch of a processed command, none for a skipped
one. -/
def batch (d : Dispatch) : List Event :=
  match d.chain with
  | none => []
  | some (result, router) => ((router.close result).finish d.first d.time).2

theorem batch_of_chain_none {d : Dispatch} (h : d.chain = none) : d.batch = [] := by
  simp [batch, h]

theorem batch_of_chain_some {d : Dispatch} {result : Except Halt Unit} {router : Router}
    (h : d.chain = some (result, router)) :
    d.batch = ((router.close result).finish d.first d.time).2 := by
  simp [batch, h]

end Dispatch

/-- A command the host sent: the clock reading at the send, the source, the payload type and
the payload. -/
structure HostSend where
  now : Timestamp
  source : SourceId
  payloadType : PayloadType
  payload : Bytes
  deriving DecidableEq, Repr

/-- What a move makes visible. -/
inductive Label where
  /-- An engine was built over the logs and started. -/
  | started
  /-- A producer outside the engine appended a command to the command log. -/
  | appended (command : Command)
  /-- The applier took an event; `delivered` says whether the appliers saw it. -/
  | applied (event : Event) (delivered : Bool)
  /-- The dispatcher took a command. -/
  | dispatched (d : Dispatch)
  /-- The host sent a command, whether or not the log took it. -/
  | sent (send : HostSend)

namespace Engine

variable {W : Type}

/-- The position of the applier's poller. -/
def applierAt (e : Engine W) : Nat := e.events.position e.config.applierPoller

/-- The position of the dispatcher's poller. -/
def dispatcherAt (e : Engine W) : Nat := e.outbox.commands.position e.config.dispatcherPoller

/-- The labels of the events the applier took from `s` to `s'`: those between its
positions. -/
def appliedBetween (s s' : Engine W × W) : List Label :=
  (((s'.1.events.messages.toList.drop s.1.applierAt).take
      (s'.1.applierAt - s.1.applierAt)).filterMap fun b => (Event.decode b).toOption).map
    fun ev => .applied ev (s.1.application.mode.admits ev.kind)

/-- What the dispatcher does with the command `c` at `index`, taken at `now` from `s`. -/
def dispatchOf (s : Engine W × W) (index : Nat) (c : Command) (now : Timestamp) : Dispatch :=
  let last := s.1.base.lastCommand c.source
  { index := index
    command := c
    last := last
    chain :=
      if c.sequence ≤ last then none
      else
        let (result, _, router) :=
          Processor.runAll c s.1.base s.1.processors.members s.2 (Router.begin c)
        some (result, router)
    first := (s.1.events.length + 1).toUInt64
    time := now }

/-- A change an error handler makes to the application's state: the output-error handler told
of an output's failure, or the input-error handler told of an input's. -/
def Handled (h : Handlers W) (f : W → W) : Prop :=
  (∃ name ev attempt failure, f = h.outputError name ev attempt failure) ∨
    ∃ name failure, f = h.inputError name failure

/-- Where the outbox `o` and the application's state `w` after a sender come from: the host
asks a source's next sequence, which leaves the application's state alone; an output answers
an event, or an input is polled, and gives both. -/
def Answered (now : Timestamp) (s : Engine W × W) (o : Outbox) (w : W) : Prop :=
  (w = s.2 ∧ ∃ source, o = (s.1.outbox.nextSequence ⟨s.1.base, now⟩ source).2) ∨
    (∃ slot ∈ s.1.publisher.slots, ∃ ev ctx,
      w = (slot.output.publish ev ctx s.2 s.1.outbox).2.1 ∧
        o = (slot.output.publish ev ctx s.2 s.1.outbox).2.2) ∨
    ∃ input ∈ s.1.inputs.members ++ s.1.extensionInputs.members,
      w = (input.poll ⟨s.1.base, now⟩ s.2 s.1.outbox).2.1 ∧
        o = (input.poll ⟨s.1.base, now⟩ s.2 s.1.outbox).2.2

/-- One move of a call at the clock reading `now`, with what it makes visible. -/
inductive Move (now : Timestamp) : Engine W × W → List Label → Engine W × W → Prop where
  /-- The applier applies the event at its poller. -/
  | applied {s s' : Engine W × W} {m : Stored} {ev : Event}
      (hpeek : s.1.events.peek? s.1.config.applierPoller = some m)
      (hdecode : Event.decode m.bytes = .ok ev)
      (hnext : exec applyNext now s = (.ok true, s')) :
      Move now s [.applied ev (s.1.application.mode.admits ev.kind)] s'
  /-- The dispatcher takes the command at its poller, and the events are applied. -/
  | dispatched {s s' : Engine W × W} {m : Stored} {c : Command} {n : Nat}
      (hpeek : s.1.outbox.commands.peek? s.1.config.dispatcherPoller = some m)
      (hdecode : Command.decode m.bytes = .ok c)
      (hround : exec dispatchRound now s = (.ok (some n), s')) :
      Move now s (.dispatched (dispatchOf s m.index c now) :: appliedBetween s s') s'
  /-- Counters change. -/
  | counted (s : Engine W × W) (f : EngineCounters → EngineCounters) :
      Move now s [] ({ s.1 with counters := f s.1.counters }, s.2)
  /-- An error handler changes the application's state. -/
  | changed (s : Engine W × W) (f : W → W) (hf : Handled s.1.handlers f) : Move now s [] (s.1, f s.2)
  /-- The host sends a command through a sender reading the base state now. -/
  | hostSent (s : Engine W × W) (source : SourceId) (payloadType : PayloadType)
      (payload : Bytes) :
      Move now s [.sent ⟨now, source, payloadType, payload⟩]
        ({ s.1 with outbox := (s.1.outbox.send ⟨s.1.base, now⟩ source payloadType payload).2 },
          s.2)
  /-- The host asks a source's next sequence, or members send commands, through a sender
  reading the base state now; the application's state may change as members do. -/
  | sent (s : Engine W × W) {o : Outbox} (w : W)
      (hsends : Outbox.Sends ⟨s.1.base, now⟩ s.1.outbox o) (hw : Answered now s o w) :
      Move now s [] ({ s.1 with outbox := o }, w)
  /-- An output's count of attempts at its current event changes. -/
  | attempted (s : Engine W × W) {i : Nat} {slot : OutputSlot W} (attempts : Nat)
      (hslot : s.1.publisher.slots[i]? = some slot) :
      Move now s [] ({ s.1 with publisher := { s.1.publisher with
        slots := s.1.publisher.slots.set i { slot with attempts := attempts } } }, s.2)
  /-- A poller of the event log moves past an event that has been applied. -/
  | published (s : Engine W × W) {poller : String} {m : Stored} {ev : Event}
      {events : MessageLog}
      (hpeek : s.1.events.peek? poller = some m) (hdecode : Event.decode m.bytes = .ok ev)
      (happlied : ev.sequence ≤ s.1.base.lastEvent)
      (hadvance : s.1.events.advance poller = .ok events) :
      Move now s [] ({ s.1 with events := events }, s.2)

/-- Moves one after the other. -/
inductive Moves (now : Timestamp) : Engine W × W → List Label → Engine W × W → Prop where
  | refl (s : Engine W × W) : Moves now s [] s
  | step {s s₁ s₂ : Engine W × W} {ls ls' : List Label} :
      Move now s ls s₁ → Moves now s₁ ls' s₂ → Moves now s (ls ++ ls') s₂

namespace Moves

variable {now : Timestamp}

theorem single {s s' : Engine W × W} {ls : List Label} (h : Move now s ls s') :
    Moves now s ls s' := by
  simpa using Moves.step h (.refl s')

theorem trans {s₁ s₂ s₃ : Engine W × W} {ls ls' : List Label} (h : Moves now s₁ ls s₂)
    (h' : Moves now s₂ ls' s₃) : Moves now s₁ (ls ++ ls') s₃ := by
  induction h with
  | refl => exact h'
  | step hm _ ih => simpa using Moves.step hm (ih h')

end Moves

/-- The engine has started. -/
def Started (s : Engine W × W) : Prop := s.1.status.started = true

/-- How a piece of a call fails. -/
inductive Fails (now : Timestamp) (s : Engine W × W) : EngineError → Prop where
  /-- Applying the event at the applier's poller fails. -/
  | apply {e : EngineError} : (exec applyNext now s).1 = .error e → Fails now s e
  /-- Dispatching the command at the dispatcher's poller of a started engine fails. -/
  | dispatch {e : EngineError} : Started s → (exec dispatchRound now s).1 = .error e →
      Fails now s e
  /-- Publishing meets a record that does not read. -/
  | record (r : RecordError) : Fails now s (.record r)
  /-- Publishing cannot move an output's poller. -/
  | store (r : StoreError) : Fails now s (.store r)

/-- From a state where `P` holds, running `m` is a sequence of moves, after which it either
ends there, with a value and in a state where `Q` holds or with an error the engine can go
on past, or fails in one of its pieces. -/
def DecomposesFrom {α : Type} (P Q : Engine W × W → Prop) (m : EngineM W α) : Prop :=
  ∀ now s, P s → ∃ ls s₁, Moves now s ls s₁ ∧
    match (exec m now s).1 with
    | .ok _ => s₁ = (exec m now s).2 ∧ Q s₁
    | .error e => (e.isFatal = false ∧ s₁ = (exec m now s).2) ∨ Fails now s₁ e

/-- Running `m` from any state is a sequence of moves. -/
abbrev Decomposes {α : Type} (m : EngineM W α) : Prop :=
  DecomposesFrom (fun _ => True) (fun _ => True) m

namespace DecomposesFrom

variable {P Q R : Engine W × W → Prop}

theorem of_pure {α : Type} {m : EngineM W α}
    (h : ∀ now s, ∃ a, exec m now s = (.ok a, s)) : DecomposesFrom P P m := by
  intro now s hs
  obtain ⟨a, ha⟩ := h now s
  exact ⟨[], s, .refl s, by simp [ha, hs]⟩

theorem pure {α : Type} (a : α) : DecomposesFrom P P (Pure.pure a : EngineM W α) :=
  of_pure fun _ _ => ⟨a, rfl⟩

theorem engine : DecomposesFrom P P (Engine.engine : EngineM W (Engine W)) :=
  of_pure fun _ s => ⟨s.1, rfl⟩

theorem mono {α : Type} {m : EngineM W α} {P' Q' : Engine W × W → Prop}
    (h : DecomposesFrom P Q m) (hP : ∀ s, P' s → P s) (hQ : ∀ s, Q s → Q' s) :
    DecomposesFrom P' Q' m := by
  intro now s hs
  obtain ⟨ls, s₁, hmoves, hend⟩ := h now s (hP s hs)
  refine ⟨ls, s₁, hmoves, ?_⟩
  revert hend
  split
  · exact fun h => ⟨h.1, hQ _ h.2⟩
  · exact id

/-- A call that decomposes from every state decomposes from those where `P` holds. -/
theorem of_decomposes {α : Type} {m : EngineM W α} (h : Decomposes m) :
    DecomposesFrom P (fun _ => True) m :=
  h.mono (fun _ _ => trivial) fun _ h => h

theorem bind {α β : Type} {x : EngineM W α} {f : α → EngineM W β}
    (hx : DecomposesFrom P Q x) (hf : ∀ a, DecomposesFrom Q R (f a)) :
    DecomposesFrom P R (x >>= f) := by
  intro now s hs
  obtain ⟨ls, s₁, hmoves, hend⟩ := hx now s hs
  rw [exec_bind]
  revert hend
  cases hr : (exec x now s).1 with
  | ok a =>
    rintro ⟨rfl, hs₁⟩
    obtain ⟨ls', s₂, hmoves', hend'⟩ := hf a now _ hs₁
    exact ⟨ls ++ ls', s₂, hmoves.trans hmoves', hend'⟩
  | error e =>
    intro hend
    exact ⟨ls, s₁, hmoves, hend⟩

theorem ite {α : Type} {c : Prop} [Decidable c] {x y : EngineM W α}
    (hx : DecomposesFrom P Q x) (hy : DecomposesFrom P Q y) :
    DecomposesFrom P Q (if c then x else y) := by
  split
  · exact hx
  · exact hy

/-- A fold of calls, each over a member of the list, that each keep `P` keeps it. -/
theorem foldlM {α β : Type} {f : β → α → EngineM W β} :
    ∀ {l : List α}, (∀ b, ∀ a ∈ l, DecomposesFrom P P (f b a)) →
      ∀ (b : β), DecomposesFrom P P (l.foldlM f b)
  | [], _, b => pure b
  | a :: _, hf, b => bind (hf b a List.mem_cons_self) fun b' =>
    foldlM (fun b a' ha' => hf b a' (List.mem_cons_of_mem _ ha')) b'

/-- Counting keeps what does not read the counters. -/
theorem count (f : EngineCounters → EngineCounters)
    (hP : ∀ s, P s → Q ({ s.1 with counters := f s.1.counters }, s.2)) :
    DecomposesFrom P Q (Engine.count f : EngineM W Unit) := by
  intro now s hs
  exact ⟨[], _, .single (.counted s f), rfl, hP s hs⟩

/-- A cycle is counted when it fails as when it does not. -/
theorem tryCatch_count {α : Type} {x : EngineM W α} (hx : DecomposesFrom P Q x)
    (f : EngineCounters → EngineCounters) :
    DecomposesFrom P Q (tryCatch x fun err => do Engine.count f; throw err) := by
  intro now s hs
  obtain ⟨ls, s₁, hmoves, hend⟩ := hx now s hs
  rw [exec_tryCatch]
  revert hend
  cases hr : (exec x now s).1 with
  | ok a =>
    intro hend
    exact ⟨ls, s₁, hmoves, hend⟩
  | error e =>
    rintro (⟨hfatal, rfl⟩ | hfails)
    · exact ⟨ls ++ [], _, hmoves.trans (.single (.counted _ f)), by simp [exec_bind, hfatal]⟩
    · refine ⟨ls, s₁, hmoves, ?_⟩
      simp only [exec_bind, exec_count, exec_throw]
      exact .inr hfails

/-- Past the check, the engine is started. -/
theorem ensureStarted :
    DecomposesFrom P (fun s => P s ∧ Started s) (Engine.ensureStarted : EngineM W Unit) := by
  intro now s hs
  refine ⟨[], s, .refl s, ?_⟩
  rw [exec_ensureStarted]
  cases hstarted : s.1.status.started
  · exact .inl ⟨rfl, rfl⟩
  · exact ⟨rfl, hs, hstarted⟩

/-- A call that reads the engine first may rely, after the read, on what it read. -/
theorem engine_bind {α : Type} {f : Engine W → EngineM W α}
    {A : Engine W → Engine W × W → Prop} (hP : ∀ s, P s → A s.1 s)
    (hf : ∀ e, DecomposesFrom (A e) Q (f e)) : DecomposesFrom P Q (Engine.engine >>= f) := by
  intro now s hs
  rw [exec_engine_bind]
  exact hf s.1 now s (hP s hs)

end DecomposesFrom

end Engine

end EventSourcing
