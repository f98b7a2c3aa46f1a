import EventSourcing.Proofs.Dispatcher

/-!
# Runs of engines over one pair of logs

A run starts from an engine built over two empty logs with a fresh base state. After that,
any number of times and in any order: the engine is dropped and another built over the same
logs, again with a fresh base state; the engine starts; a started engine moves, in the calls
the host makes; a producer outside the engines appends a record of a command to the command
log. Every engine of the run dispatches with the same poller.

The labels of a run say what happened: the starts with the events each replayed, the events
the applier took and the commands the dispatcher took, the commands the host sent, and those
appended from outside.
Every call the host makes on a started engine that ends without a fatal error extends a run
(`Run.call`), and so does every start that goes through (`Run.started`).
-/

namespace EventSourcing

namespace Label

/-- Whether the label marks a start. -/
def isStart : Label → Bool
  | started => true
  | _ => false

/-- The labels since the last start. -/
def latestLife (ls : List Label) : List Label :=
  (ls.reverse.takeWhile fun l => !l.isStart).reverse

/-- What the dispatcher did, in order. -/
def dispatches (ls : List Label) : List Dispatch :=
  ls.filterMap fun
    | dispatched d => some d
    | _ => none

/-- The events the applier took, in order, each with whether the appliers saw it. -/
def appliedEvents (ls : List Label) : List (Event × Bool) :=
  ls.filterMap fun
    | .applied ev delivered => some (ev, delivered)
    | _ => none

@[simp]
theorem dispatches_append (ls ls' : List Label) :
    dispatches (ls ++ ls') = dispatches ls ++ dispatches ls' :=
  List.filterMap_append

@[simp]
theorem appliedEvents_append (ls ls' : List Label) :
    appliedEvents (ls ++ ls') = appliedEvents ls ++ appliedEvents ls' :=
  List.filterMap_append

theorem latestLife_append {ls ls' : List Label} (h : ∀ l ∈ ls', l.isStart = false) :
    latestLife (ls ++ ls') = latestLife ls ++ ls' := by
  unfold latestLife
  rw [List.reverse_append, List.takeWhile_append_of_pos (by simpa using h), List.reverse_append,
    List.reverse_reverse]

theorem latestLife_start {ls ls' : List Label} (h : ∀ l ∈ ls', l.isStart = false) :
    latestLife (ls ++ started :: ls') = ls' := by
  unfold latestLife
  rw [List.reverse_append, List.reverse_cons, List.append_assoc, List.singleton_append,
    List.takeWhile_append_of_pos (by simpa using h), List.takeWhile_cons_of_neg (by simp [isStart]),
    List.append_nil, List.reverse_reverse]

/-- The labels since the last start end the labels. -/
theorem latestLife_suffix (ls : List Label) : (latestLife ls).IsSuffix ls := by
  have h := (List.takeWhile_prefix (fun l => !l.isStart) (l := ls.reverse)).reverse
  rwa [List.reverse_reverse] at h

/-- Labels that hold a start hide what came before them. -/
theorem latestLife_append_of_started {ls ls' : List Label} (h : started ∈ ls') :
    latestLife (ls ++ ls') = latestLife ls' := by
  unfold latestLife
  rw [List.reverse_append, List.takeWhile_append, if_neg]
  -- the start stops the labels taken short of the end
  intro hlen
  have hself := (List.takeWhile_prefix (fun l : Label => !l.isStart)).eq_of_length hlen
  have hall := List.all_takeWhile (p := fun l => !l.isStart) (l := ls'.reverse)
  rw [hself, List.all_eq_true] at hall
  simpa [isStart] using hall started (List.mem_reverse.2 h)

end Label

namespace Blueprint

variable {W : Type}

/-- A built engine reads the blueprint's logs and settings, has not started, starts from the
blueprint's base state, tracks no command in flight and replays as the settings say. -/
theorem build_eq_ok {b : Blueprint W} {e : Engine W} (h : b.build = .ok e) :
    e.config = b.config ∧ e.events = b.events ∧ e.outbox.commands = b.commands ∧
      e.outbox.inFlight.entries = [] ∧ e.outbox.sequencers = {} ∧ e.outbox.transient = {} ∧
      e.application.base = b.chosenBase ∧ e.application.mode = b.config.replayMode ∧
      e.status = {} := by
  unfold build at h
  cases hp : Publisher.build b.outputs b.installed.outputs b.config.outputRetryBudget
      b.config.loopbackSource with
  | error err => simp only [hp] at h; cases h
  | ok p =>
    simp only [hp] at h
    cases h
    exact ⟨rfl, rfl, rfl, rfl, rfl, rfl, rfl, rfl, rfl⟩

end Blueprint

namespace Engine

variable {W : Type}

/-- A move shows no start. -/
theorem Move.not_isStart {now : Timestamp} {s s' : Engine W × W} {ls : List Label}
    (h : Move now s ls s') : ∀ l ∈ ls, l.isStart = false := by
  cases h with
  | applied => simp [Label.isStart]
  | dispatched =>
    simp only [List.mem_cons, appliedBetween, List.mem_map]
    rintro l (rfl | ⟨_, _, rfl⟩) <;> rfl
  | counted | changed | hostSent | sent | attempted | published => simp [Label.isStart]

theorem Moves.not_isStart {now : Timestamp} {s s' : Engine W × W} {ls : List Label}
    (h : Moves now s ls s') : ∀ l ∈ ls, l.isStart = false := by
  induction h with
  | refl => simp
  | step hm _ ih =>
    intro l hl
    rcases List.mem_append.1 hl with hl | hl
    · exact hm.not_isStart l hl
    · exact ih l hl

/-- A move shows no record appended from outside. -/
theorem Move.not_appended {now : Timestamp} {s s' : Engine W × W} {ls : List Label}
    (h : Move now s ls s') (c : Command) : Label.appended c ∉ ls := by
  cases h with
  | applied => simp
  | dispatched => simp [appliedBetween]
  | counted | changed | hostSent | sent | attempted | published => simp

theorem Moves.not_appended {now : Timestamp} {s s' : Engine W × W} {ls : List Label}
    (h : Moves now s ls s') (c : Command) : Label.appended c ∉ ls := by
  induction h with
  | refl => simp
  | step hm _ ih => exact List.not_mem_append (hm.not_appended c) ih

/-- What a move shows the dispatcher doing is what `dispatchOf` says it does. -/
theorem Move.dispatchOf_of_mem {now : Timestamp} {s s' : Engine W × W} {ls : List Label}
    (h : Move now s ls s') {d : Dispatch} (hd : d ∈ Label.dispatches ls) :
    ∃ (t : Engine W × W) (i : Nat) (c : Command) (at_ : Timestamp), d = dispatchOf t i c at_ := by
  cases h with
  | dispatched =>
    simp [Label.dispatches, appliedBetween, List.filterMap_map] at hd
    exact ⟨_, _, _, _, hd⟩
  | applied | counted | changed | hostSent | sent | attempted | published =>
    simp [Label.dispatches] at hd

theorem Moves.dispatchOf_of_mem {now : Timestamp} {s s' : Engine W × W} {ls : List Label}
    (h : Moves now s ls s') {d : Dispatch} (hd : d ∈ Label.dispatches ls) :
    ∃ (t : Engine W × W) (i : Nat) (c : Command) (at_ : Timestamp), d = dispatchOf t i c at_ := by
  induction h with
  | refl => simp [Label.dispatches] at hd
  | step hm _ ih =>
    rcases List.mem_append.1 ((Label.dispatches_append _ _) ▸ hd) with hd | hd
    · exact hm.dispatchOf_of_mem hd
    · exact ih hd

/-- The calls a host makes on a started engine. -/
inductive Call : {α : Type} → EngineM W α → Prop where
  | send (source : SourceId) (payloadType : PayloadType) (payload : Bytes) :
      Call (Engine.send source payloadType payload)
  | nextSequence (source : SourceId) : Call (Engine.nextSequence source)
  | runCycle : Call Engine.runCycle
  | runUntilIdle : Call Engine.runUntilIdle
  | dispatch : Call Engine.dispatch
  | apply (limit : Nat) : Call (Engine.apply limit)
  | publish : Call Engine.publish

theorem Call.decomposes {α : Type} {m : EngineM W α} (h : Call m) : Decomposes m := by
  cases h with
  | send source payloadType payload => exact decomposes_send source payloadType payload
  | nextSequence source => exact decomposes_nextSequence source
  | runCycle => exact decomposes_runCycle
  | runUntilIdle => exact decomposes_runUntilIdle
  | dispatch => exact decomposes_dispatch
  | apply limit => exact decomposes_apply limit
  | publish => exact decomposes_publish

/-- The labels of a start that replayed `evs` under the mode of the engine started. -/
def startLabels (mode : ReplayMode) (evs : List Event) : List Label :=
  .started :: evs.map fun ev => .applied ev (mode.admits ev.kind)

/-- A run of engines over one pair of logs whose dispatchers use the poller `D`, with the
labels of what happened, ending at an engine and the application's state. -/
inductive Run (D : String) : List Label → Engine W × W → Prop where
  /-- An engine is built over two empty logs, with a fresh base state. -/
  | build {b : Blueprint W} {e : Engine W} (w : W) (hb : b.build = .ok e)
      (hcommands : b.commands.messages = #[]) (hcpollers : b.commands.pollers = [])
      (hevents : b.events.messages = #[]) (hepollers : b.events.pollers = [])
      (hbase : b.chosenBase = {}) (hD : b.config.dispatcherPoller = D) : Run D [] (e, w)
  /-- The engine is dropped and another is built over its logs, with a fresh base state. -/
  | rebuild {ls : List Label} {s : Engine W × W} {b : Blueprint W} {e : Engine W} (w : W)
      (hrun : Run D ls s) (hb : b.build = .ok e) (hcommands : b.commands = s.1.outbox.commands)
      (hevents : b.events = s.1.events) (hbase : b.chosenBase = {})
      (hD : b.config.dispatcherPoller = D) : Run D ls (e, w)
  /-- The engine starts, replaying `evs`. -/
  | start {ls : List Label} {s s' : Engine W × W} {st : EngineStatus} {evs : List Event}
      (now : Timestamp) (hrun : Run D ls s) (hstart : exec start now s = (.ok st, s'))
      (hreplay : (s.1.events.messages.toList.drop s.1.base.lastEvent.toNat).map Event.decode =
        evs.map .ok) :
      Run D (ls ++ startLabels s.1.application.mode evs) s'
  /-- A started engine moves. -/
  | moves {ls ls' : List Label} {s s' : Engine W × W} (now : Timestamp) (hrun : Run D ls s)
      (hs : Started s) (hmoves : Moves now s ls' s') : Run D (ls ++ ls') s'
  /-- A producer outside the engine appends a record of a command to the command log. -/
  | append {ls : List Label} {s : Engine W × W} {bytes : Bytes} {c : Command} {i : Nat}
      {log : MessageLog} (hrun : Run D ls s) (hdecode : Command.decode bytes = .ok c)
      (happend : s.1.outbox.commands.append bytes = .ok (i, log)) :
      Run D (ls ++ [.appended c]) ({ s.1 with outbox := { s.1.outbox with commands := log } }, s.2)

namespace Run

variable {D : String} {ls : List Label} {s : Engine W × W}

/-- Every call on a started engine that ends without a fatal error extends the run. -/
theorem call {α : Type} {m : EngineM W α} (hrun : Run D ls s) (hs : Started s) (hm : Call m)
    (now : Timestamp) (hnf : ∀ e, (exec m now s).1 = .error e → e.isFatal = false) :
    ∃ ls', Run D (ls ++ ls') (exec m now s).2 := by
  obtain ⟨ls', hmoves⟩ := hm.decomposes.moves trivial hnf
  exact ⟨ls', .moves now hrun hs hmoves⟩

/-- What a run shows the dispatcher doing is what `dispatchOf` says it does. -/
theorem dispatchOf_of_mem (hrun : Run D ls s) {d : Dispatch} (hd : d ∈ Label.dispatches ls) :
    ∃ (t : Engine W × W) (i : Nat) (c : Command) (at_ : Timestamp), d = dispatchOf t i c at_ := by
  induction hrun with
  | build => simp [Label.dispatches] at hd
  | rebuild _ _ _ _ _ _ _ ih => exact ih hd
  | start _ _ _ _ ih =>
    rcases List.mem_append.1 ((Label.dispatches_append _ _) ▸ hd) with hd | hd
    · exact ih hd
    · simp [startLabels, Label.dispatches, List.filterMap_map] at hd
  | moves _ _ _ hmoves ih =>
    rcases List.mem_append.1 ((Label.dispatches_append _ _) ▸ hd) with hd | hd
    · exact ih hd
    · exact hmoves.dispatchOf_of_mem hd
  | append _ _ _ ih =>
    rcases List.mem_append.1 ((Label.dispatches_append _ _) ▸ hd) with hd | hd
    · exact ih hd
    · simp [Label.dispatches] at hd

/-- Every start that goes through extends the run. -/
theorem started {st : EngineStatus} {s' : Engine W × W} (hrun : Run D ls s) (now : Timestamp)
    (hstart : exec Engine.start now s = (.ok st, s')) : ∃ ls', Run D (ls ++ ls') s' := by
  obtain ⟨evs, hstarts⟩ := starts_of_exec hstart
  exact ⟨_, .start now hrun hstart hstarts.records⟩

end Run

/-! ## Runs a host drives -/

/-- A step a host takes on the engines of a run, as data: a producer appends a record to the
command log, the engine starts, or the host makes one of its calls. -/
inductive HostStep where
  | append (bytes : Bytes)
  | start
  | send (source : SourceId) (payloadType : PayloadType) (payload : Bytes)
  | nextSequence (source : SourceId)
  | runCycle
  | runUntilIdle
  | dispatch
  | apply (limit : Nat)
  | publish
  deriving DecidableEq, Repr

namespace HostStep

/-- The state after a call on a started engine that ends without a fatal error. -/
def afterCall {α : Type} (m : EngineM W α) (now : Timestamp) (s : Engine W × W) :
    Option (Engine W × W) :=
  if s.1.status.started then
    match (exec m now s).1 with
    | .ok _ => some (exec m now s).2
    | .error e => if e.isFatal then none else some (exec m now s).2
  else none

/-- The state after a step, when the step goes through. -/
def take (now : Timestamp) (s : Engine W × W) : HostStep → Option (Engine W × W)
  | append bytes =>
    match Command.decode bytes, s.1.outbox.commands.append bytes with
    | .ok _, .ok (_, log) => some ({ s.1 with outbox := { s.1.outbox with commands := log } }, s.2)
    | _, _ => none
  | start =>
    match (exec Engine.start now s).1 with
    | .ok _ => some (exec Engine.start now s).2
    | .error _ => none
  | send source payloadType payload => afterCall (Engine.send source payloadType payload) now s
  | nextSequence source => afterCall (Engine.nextSequence source) now s
  | runCycle => afterCall Engine.runCycle now s
  | runUntilIdle => afterCall Engine.runUntilIdle now s
  | dispatch => afterCall Engine.dispatch now s
  | apply limit => afterCall (Engine.apply limit) now s
  | publish => afterCall Engine.publish now s

/-- The state after steps one after the other, when they all go through. -/
def takeAll (now : Timestamp) : List HostStep → Engine W × W → Option (Engine W × W)
  | [], s => some s
  | step :: steps, s => (step.take now s).bind (takeAll now steps)

/-- Whether the step is a record appended from outside. -/
def isAppend : HostStep → Bool
  | append _ => true
  | _ => false

variable {s s' : Engine W × W} {now : Timestamp}

/-- A call that goes through was made on a started engine, ended without a fatal error, and
left the state it gives. -/
theorem afterCall_eq_some {α : Type} {m : EngineM W α} (h : afterCall m now s = some s') :
    Started s ∧ (∀ e, (exec m now s).1 = .error e → e.isFatal = false) ∧
      (exec m now s).2 = s' := by
  unfold afterCall at h
  split at h
  case isFalse => cases h
  rename_i hs
  refine ⟨hs, fun e he => ?_, ?_⟩
  · rw [he] at h
    dsimp only at h
    split at h
    · cases h
    · rename_i hfatal
      simpa using hfatal
  · split at h
    · exact Option.some.inj h
    · split at h
      · cases h
      · exact Option.some.inj h

/-- A start that goes through. -/
theorem take_start_eq_some (h : take now s start = some s') :
    ∃ st, exec Engine.start now s = (.ok st, s') := by
  simp only [take] at h
  split at h
  · rename_i st hst
    exact ⟨st, Prod.ext hst (Option.some.inj h)⟩
  · cases h

end HostStep

namespace Run

variable {D : String} {ls : List Label} {s s' : Engine W × W} {now : Timestamp}

/-- A call that goes through extends the run with moves: no start, nothing appended. -/
theorem afterCall {α : Type} {m : EngineM W α} (hrun : Run D ls s) (hm : Call m)
    (h : HostStep.afterCall m now s = some s') :
    ∃ ls', Run D (ls ++ ls') s' ∧ (∀ c, Label.appended c ∉ ls') ∧ Label.started ∉ ls' := by
  obtain ⟨hs, hnf, rfl⟩ := HostStep.afterCall_eq_some h
  obtain ⟨ls', hmoves⟩ := hm.decomposes.moves trivial hnf
  refine ⟨ls', .moves now hrun hs hmoves, hmoves.not_appended, fun hmem => ?_⟩
  simpa [Label.isStart] using hmoves.not_isStart _ hmem

/-- A step that goes through extends the run. A step other than an append shows nothing
appended, and a start shows a start. -/
theorem take {step : HostStep} (hrun : Run D ls s) (h : step.take now s = some s') :
    ∃ ls', Run D (ls ++ ls') s' ∧ (step.isAppend = false → ∀ c, Label.appended c ∉ ls') ∧
      (step = .start → Label.started ∈ ls') := by
  cases step with
  | append bytes =>
    simp only [HostStep.take] at h
    split at h
    · rename_i c i log hdecode happend
      cases h
      exact ⟨_, .append hrun hdecode happend, by simp [HostStep.isAppend], by simp⟩
    · cases h
  | start =>
    obtain ⟨st, hstart⟩ := HostStep.take_start_eq_some h
    obtain ⟨evs, hstarts⟩ := starts_of_exec hstart
    refine ⟨_, .start now hrun hstart hstarts.records, fun _ c => ?_, fun _ => by
      simp [startLabels]⟩
    simp [startLabels]
  | send source payloadType payload =>
    obtain ⟨ls', hrun', hno, hns⟩ := hrun.afterCall (.send source payloadType payload) h
    exact ⟨ls', hrun', fun _ => hno, fun h => by cases h⟩
  | nextSequence source =>
    obtain ⟨ls', hrun', hno, hns⟩ := hrun.afterCall (.nextSequence source) h
    exact ⟨ls', hrun', fun _ => hno, fun h => by cases h⟩
  | runCycle =>
    obtain ⟨ls', hrun', hno, hns⟩ := hrun.afterCall .runCycle h
    exact ⟨ls', hrun', fun _ => hno, fun h => by cases h⟩
  | runUntilIdle =>
    obtain ⟨ls', hrun', hno, hns⟩ := hrun.afterCall .runUntilIdle h
    exact ⟨ls', hrun', fun _ => hno, fun h => by cases h⟩
  | dispatch =>
    obtain ⟨ls', hrun', hno, hns⟩ := hrun.afterCall .dispatch h
    exact ⟨ls', hrun', fun _ => hno, fun h => by cases h⟩
  | apply limit =>
    obtain ⟨ls', hrun', hno, hns⟩ := hrun.afterCall (.apply limit) h
    exact ⟨ls', hrun', fun _ => hno, fun h => by cases h⟩
  | publish =>
    obtain ⟨ls', hrun', hno, hns⟩ := hrun.afterCall .publish h
    exact ⟨ls', hrun', fun _ => hno, fun h => by cases h⟩

/-- Steps that go through extend the run. Steps without an append show nothing appended, and
steps with a start show one. -/
theorem takeAll {steps : List HostStep} (hrun : Run D ls s)
    (h : HostStep.takeAll now steps s = some s') :
    ∃ ls', Run D (ls ++ ls') s' ∧
      ((∀ step ∈ steps, step.isAppend = false) → ∀ c, Label.appended c ∉ ls') ∧
      (.start ∈ steps → Label.started ∈ ls') := by
  induction steps generalizing ls s with
  | nil =>
    cases h
    exact ⟨[], by simpa using hrun, fun _ _ => by simp, by simp⟩
  | cons step steps ih =>
    obtain ⟨s₁, h₁, h₂⟩ := Option.bind_eq_some_iff.1 h
    obtain ⟨ls₁, hrun₁, hno₁, hstart₁⟩ := hrun.take h₁
    obtain ⟨ls₂, hrun₂, hno₂, hstart₂⟩ := ih hrun₁ h₂
    refine ⟨ls₁ ++ ls₂, by simpa using hrun₂, fun hall c => ?_, fun hmem => ?_⟩
    · exact List.not_mem_append (hno₁ (hall step (List.mem_cons_self ..)) c)
        (hno₂ (fun st hst => hall st (List.mem_cons_of_mem _ hst)) c)
    · rcases List.mem_cons.1 hmem with rfl | hmem
      · exact List.mem_append_left _ (hstart₁ rfl)
      · exact List.mem_append_right _ (hstart₂ hmem)

/-! ## A sample run -/

/-- A command of source 1 at sequence 1, with an empty payload. -/
def sampleCommand : Command := ⟨1, 1, 0, 1, []⟩

/-- A producer appends the sample command twice. -/
def sampleAppends : List HostStep := [.append sampleCommand.encode, .append sampleCommand.encode]

/-- The engine starts, the host sends a command of source 1, dispatches, and sends a command of
source 2. -/
def sampleCalls : List HostStep := [.start, .send 1 1 [], .dispatch, .send 2 1 []]

/-- An engine with the default settings over two empty logs. -/
def sampleBlueprint : Blueprint Unit := { commands := {}, events := {} }

/-- Where the sample run ends. -/
def sampleEnd : Option (Engine Unit × Unit) :=
  sampleBlueprint.build.toOption.bind fun e =>
    (HostStep.takeAll 0 sampleAppends (e, ())).bind (HostStep.takeAll 0 sampleCalls)

/-- A run with work in it. The dispatcher took three commands, the copy of a command among them,
and appended two events, which the applier took; a command sent since is in flight, and nothing
was appended from outside since the start. -/
theorem sample : ∃ (ls : List Label) (s : Engine Unit × Unit), Run "dispatcher" ls s ∧ Started s ∧ s.1.events.length = 2 ∧
    s.1.base.lastEvent.toNat = 2 ∧ s.1.dispatcherAt = 3 ∧ s.1.outbox.commands.length = 4 ∧
    s.1.outbox.inFlight.entries.length = 1 ∧ (∀ c, Label.appended c ∉ Label.latestLife ls) ∧
    ∀ c ∈ s.1.outbox.commands.readCommands, c.sequence.toNat + 1 < UInt64.size := by
  have hcheck : sampleEnd.any (fun s => s.1.status.started && s.1.events.length == 2 &&
      s.1.base.lastEvent.toNat == 2 && s.1.dispatcherAt == 3 &&
      s.1.outbox.commands.length == 4 && s.1.outbox.inFlight.entries.length == 1 &&
      s.1.outbox.commands.readCommands.all fun c => c.sequence.toNat + 1 < UInt64.size) = true := by
    decide +kernel
  obtain ⟨s, hend, hfacts⟩ := (Option.any_eq_true _ _).1 hcheck
  obtain ⟨e, hb⟩ : ∃ e, sampleBlueprint.build = .ok e := ⟨_, rfl⟩
  rw [sampleEnd, hb] at hend
  change (HostStep.takeAll 0 sampleAppends (e, ())).bind (HostStep.takeAll 0 sampleCalls) =
    some s at hend
  obtain ⟨s₁, happends, hcalls⟩ := Option.bind_eq_some_iff.1 hend
  obtain ⟨ls₁, hrun₁, -⟩ := (Run.build () hb rfl rfl rfl rfl rfl rfl).takeAll happends
  obtain ⟨ls₂, hrun₂, hno, hstart⟩ := hrun₁.takeAll hcalls
  -- the start hides the appends before it
  have hlife : ∀ c, Label.appended c ∉ Label.latestLife (([] ++ ls₁) ++ ls₂) := by
    intro c hc
    rw [Label.latestLife_append_of_started (hstart (by decide))] at hc
    exact hno (by decide) c ((Label.latestLife_suffix ls₂).subset hc)
  simp only [Bool.and_eq_true, beq_iff_eq, List.all_eq_true, decide_eq_true_eq] at hfacts
  obtain ⟨⟨⟨⟨⟨⟨hs, hlen⟩, hlast⟩, hat⟩, hcommands⟩, hentries⟩, hseq⟩ := hfacts
  exact ⟨_, s, hrun₂, hs, hlen, hlast, hat, hcommands, hentries, hlife, hseq⟩

end Run

end Engine

end EventSourcing
