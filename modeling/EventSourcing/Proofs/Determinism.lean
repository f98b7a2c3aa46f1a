import Mathlib
import EventSourcing.Proofs.Stock
import EventSourcing.Proofs.Seeding
import EventSourcing.Proofs.Scheduling

/-!
# The same sends give the same logs

Processing does not depend on scheduling (`Proofs/Scheduling`), so what an engine holds once
idle depends on nothing but what the host sent. This holds of engines whose application's state
belongs to the appliers: processors, outputs, inputs and handlers leave it as they find it, and
outputs and inputs send no commands (`Engine.Quiet`); and the appliers read no clock
(`Application.TimeBlind`).

A session (`Blueprint.Session`) runs the engines one blueprint builds over one pair of logs, each
started from the same application's state. Along a session the command log is the host's sends,
logged one after the other, each one above the highest sequence of its source
(`Session.logged`). The batches, without their clock readings, are those a replay of the commands
the dispatcher passed appends, and the application's state is their fold (`Session.replays`).
Once the dispatcher has passed every command, the event log up to the events' clock readings,
the base state and the application's state are the replay's of the command log
(`idle_replays_commands`), and two sessions with the same sends end alike.
-/

namespace EventSourcing

namespace Event

/-- The event with its clock reading cleared. -/
def untimed (e : Event) : Event := { e with time := 0 }

end Event

namespace BaseState

@[simp]
theorem record_untimed (b : BaseState) (e : Event) : b.record e.untimed = b.record e := rfl

theorem recordAll_map_untimed (b : BaseState) (evs : List Event) :
    b.recordAll (evs.map Event.untimed) = b.recordAll evs := by
  induction evs generalizing b with
  | nil => rfl
  | cons e evs ih => exact ih (b.record e)

end BaseState

namespace Application

variable {W : Type}

/-- Appliers that read no event's clock reading. -/
def TimeBlind (a : Application W) : Prop :=
  ∀ ap ∈ a.appliers.members, ∀ ev w, ap.apply ev.untimed w = ap.apply ev w

theorem deliverAll_append (a : Application W) (evs evs' : List Event) (w : W) :
    a.deliverAll (evs ++ evs') w = a.deliverAll evs' (a.deliverAll evs w) := by
  simp [deliverAll, List.filter_append, List.foldl_append]

/-- Delivering reads the appliers and the replay mode alone. -/
theorem deliverAll_congr {a a' : Application W} (happliers : a.appliers = a'.appliers)
    (hmode : a.mode = a'.mode) : a.deliverAll = a'.deliverAll := by
  funext evs w
  simp only [deliverAll, happliers, hmode]

theorem deliverAll_map_untimed {a : Application W} (h : a.TimeBlind) (evs : List Event)
    (w : W) : a.deliverAll (evs.map Event.untimed) w = a.deliverAll evs w := by
  induction evs generalizing w with
  | nil => rfl
  | cons e evs ih =>
    have hfold : a.appliers.members.foldl (fun w ap => ap.apply e.untimed w) w =
        a.appliers.members.foldl (fun w ap => ap.apply e w) w :=
      List.foldl_ext _ _ w fun w ap hap => h ap hap e w
    rw [List.map_cons, deliverAll_cons, deliverAll_cons, ih]
    exact congrArg _ (by rw [hfold]; rfl)

end Application

namespace Blueprint

variable {W : Type}

/-- A blueprint over two empty logs, from a fresh base state. -/
structure Fresh (b : Blueprint W) : Prop where
  commands : b.commands.messages = #[]
  commandPollers : b.commands.pollers = []
  events : b.events.messages = #[]
  eventPollers : b.events.pollers = []
  base : b.chosenBase = {}

/-- A blueprint builds over other logs the engine it builds, with those logs. -/
theorem build_logs {b : Blueprint W} {e : Engine W} (hb : b.build = .ok e)
    (commands events : MessageLog) :
    { b with commands := commands, events := events }.build =
      .ok { e with events := events, outbox := { e.outbox with commands := commands } } := by
  -- the members and the base state come from the blueprint's parts other than its logs
  have hinstalled : ({ b with commands := commands, events := events } : Blueprint W).installed =
      b.installed := rfl
  have hbase : ({ b with commands := commands, events := events } : Blueprint W).chosenBase =
      b.chosenBase := rfl
  unfold build at hb ⊢
  rw [hinstalled, hbase]
  cases hp : Publisher.build b.outputs b.installed.outputs b.config.outputRetryBudget
      b.config.loopbackSource with
  | error err => simp only [hp] at hb; cases hb
  | ok p =>
    simp only [hp] at hb ⊢
    cases hb
    rfl

end Blueprint

section Replay

variable {W : Type}

/-- The batch a replay of the command `c` appends after the events `evs`: none for a command at
or below its source's watermark; else the transaction the processors `ps` leave, run on the
base state and the application's state the events give, sealed after them at clock reading
zero. -/
def replayBatch (ps : List (Processor W)) (a : Application W) (w₀ : W) (evs : List Event)
    (c : Command) : List Event :=
  let base := BaseState.recordAll {} evs
  if c.sequence ≤ base.lastCommand c.source then []
  else
    let chain := Processor.runAll c base ps (a.deliverAll evs w₀) (Router.begin c)
    ((chain.2.2.close chain.1).finish (evs.length + 1).toUInt64 0).2

/-- The events a replay of the commands `cs` appends to an empty log. -/
def replayEvents (ps : List (Processor W)) (a : Application W) (w₀ : W) (cs : List Command) :
    List Event :=
  cs.foldl (fun evs c => evs ++ replayBatch ps a w₀ evs c) []

theorem replayEvents_append_singleton (ps : List (Processor W)) (a : Application W) (w₀ : W)
    (cs : List Command) (c : Command) :
    replayEvents ps a w₀ (cs ++ [c]) =
      replayEvents ps a w₀ cs ++ replayBatch ps a w₀ (replayEvents ps a w₀ cs) c := by
  simp [replayEvents, List.foldl_append]

end Replay

namespace Label

/-- The host's sends, in order. -/
def sends (ls : List Label) : List HostSend :=
  ls.filterMap fun
    | sent x => some x
    | _ => none

@[simp]
theorem sends_append (ls ls' : List Label) : sends (ls ++ ls') = sends ls ++ sends ls' :=
  List.filterMap_append

@[simp]
theorem sends_nil : sends [] = [] := rfl

@[simp]
theorem sends_sent (x : HostSend) : sends [sent x] = [x] := rfl

end Label

namespace MessageLog

/-- The command log after one send of the host, as the engine logs it: a payload a record can
hold goes in the command of its source one above the highest sequence the log holds for it,
when the log takes the record. -/
def logSend (log : MessageLog) (x : HostSend) : MessageLog :=
  if 4294967296 ≤ x.payload.length then log
  else
    match log.append (Command.encode ⟨x.source, Command.highest log.readCommands x.source + 1,
        x.now, x.payloadType, x.payload⟩) with
    | .ok (_, log') => log'
    | .error _ => log

/-- The command log after the host's sends, one after the other. -/
def logSends (log : MessageLog) (sends : List HostSend) : MessageLog := sends.foldl logSend log

@[simp]
theorem logSends_cons (log : MessageLog) (y : HostSend) (σ : List HostSend) :
    log.logSends (y :: σ) = (log.logSend y).logSends σ := rfl

theorem logSends_append (log : MessageLog) (σ τ : List HostSend) :
    log.logSends (σ ++ τ) = (log.logSends σ).logSends τ :=
  List.foldl_append

/-- The records of a log read as events without their clock readings. -/
def untimedEvents (log : MessageLog) : List (Except RecordError Event) :=
  log.messages.toList.map fun r => Event.untimed <$> Event.decode r

/-- Appending reads no poller. -/
theorem append_withPollers (log : MessageLog) (ps : List (String × Nat)) (m : Bytes) :
    ({ log with pollers := ps } : MessageLog).append m =
      (log.append m).map fun r => (r.1, { r.2 with pollers := ps }) := by
  rcases log with ⟨messages, pollers, capacity, batching, fault⟩
  simp only [append, failing, fits, length]
  by_cases hfailing : (fault == some true) = true
  · simp [hfailing, Except.map]
  · simp only [hfailing]
    cases capacity with
    | none => rfl
    | some capacity => by_cases hfull : capacity < messages.size + 1 <;> simp [hfull, Except.map]

/-- Moving a poller changes the pollers alone. -/
theorem setPosition_eq_withPollers (log : MessageLog) (p : String) (n : Nat) :
    log.setPosition p n = { log with pollers := (log.setPosition p n).pollers } := by
  unfold setPosition
  split <;> rfl

/-- From a log whose highest sequences lie within its length, a send logs one record at most
and keeps them so, while one more record fits a word. -/
theorem logSend_highest_le {log : MessageLog}
    (h : ∀ x, (Command.highest log.readCommands x).toNat ≤ log.length)
    (hfits : log.length + 1 < UInt64.size) (y : HostSend) :
    (∀ x, (Command.highest (log.logSend y).readCommands x).toNat ≤ (log.logSend y).length) ∧
      (log.logSend y).length ≤ log.length + 1 := by
  unfold logSend
  split
  · exact ⟨h, Nat.le_succ _⟩
  split
  · rename_i i log' happend
    obtain ⟨-, rfl⟩ := append_eq_ok happend
    -- the record reads back as a command of the source, one above its highest sequence
    have hfits' : (Command.highest log.readCommands y.source).toNat + 1 < UInt64.size := by
      have := h y.source
      omega
    set c : Command := ⟨y.source, Command.highest log.readCommands y.source + 1, y.now,
      y.payloadType, y.payload⟩
    have hread := readCommands_push log (Command.decode_encode c)
    have hlength : ({ log with messages := log.messages.push c.encode } : MessageLog).length =
        log.length + 1 := by
      simp [length]
    refine ⟨fun x => ?_, by rw [hlength]⟩
    rw [hread, hlength, Command.highest_append_of_lt (lt_add_one_of_fits hfits')]
    split
    · rw [toNat_add_one_of_fits hfits']
      have := h y.source
      omega
    · exact Nat.le_succ_of_le (h x)
  · exact ⟨h, Nat.le_succ _⟩

theorem logSends_highest_le {log : MessageLog}
    (h : ∀ x, (Command.highest log.readCommands x).toNat ≤ log.length) (σ : List HostSend)
    (hfew : log.length + σ.length < UInt64.size) :
    (∀ x, (Command.highest (log.logSends σ).readCommands x).toNat ≤ (log.logSends σ).length) ∧
      (log.logSends σ).length ≤ log.length + σ.length := by
  induction σ generalizing log with
  | nil => exact ⟨h, Nat.le_refl _⟩
  | cons y σ ih =>
    obtain ⟨h₁, hlen₁⟩ := logSend_highest_le h (by simp only [List.length_cons] at hfew; omega) y
    obtain ⟨h₂, hlen₂⟩ := ih h₁ (by simp only [List.length_cons] at hfew; omega)
    rw [logSends_cons]
    exact ⟨h₂, by simp only [List.length_cons]; omega⟩

/-- From an empty log, fewer sends than the largest word leave one above every highest sequence
within a word. -/
theorem highest_logSends_fits {log : MessageLog} (hlog : log.messages = #[]) {σ : List HostSend}
    (hfew : σ.length + 1 < UInt64.size) (x : SourceId) :
    (Command.highest (log.logSends σ).readCommands x).toNat + 1 < UInt64.size := by
  have hempty : log.length = 0 := by simp [length, hlog]
  have h₀ : ∀ x, (Command.highest log.readCommands x).toNat ≤ log.length := by
    intro x
    simp [readCommands, hlog]
  obtain ⟨h, hlen⟩ := logSends_highest_le h₀ σ (by omega)
  have := h x
  omega

end MessageLog

namespace Outbox

/-- A send whose source's next sequence is one above its highest sequence in the log `L` logs
its command as the host's send into `L` does, wherever the pollers stand. -/
theorem commands_send_of_next {o : Outbox} {ctx : SendContext} {x : SourceId} {L : MessageLog}
    {P : List (String × Nat)} (hlog : o.commands = { L with pollers := P })
    (hnext : (o.nextSequence ctx x).1 = Command.highest L.readCommands x + 1)
    (payloadType : PayloadType) (payload : Bytes) :
    (o.send ctx x payloadType payload).2.commands =
      { L.logSend ⟨ctx.now, x, payloadType, payload⟩ with pollers := P } := by
  have hcommands := commands_nextSequence o ctx x
  rcases hn : o.nextSequence ctx x with ⟨n, o₁⟩
  rw [hn] at hnext hcommands
  dsimp only at hnext hcommands
  subst hnext
  unfold send MessageLog.logSend
  rw [hn]
  dsimp only
  by_cases hlarge : 4294967296 ≤ payload.length
  · simp only [hlarge, ↓reduceIte, hcommands, hlog]
  · simp only [hlarge, ↓reduceIte, hcommands, hlog, MessageLog.append_withPollers]
    cases L.append (Command.encode
      ⟨x, Command.highest L.readCommands x + 1, ctx.now, payloadType, payload⟩) with
    | error e => rfl
    | ok r => rfl

end Outbox

namespace Engine

variable {W : Type}

/-- An engine whose members leave the application's state to the appliers and send nothing:
its handlers are the defaults, which change nothing; its processors keep the application's
state; and its outputs and inputs keep both the application's state and the outbox. -/
structure Quiet (e : Engine W) : Prop where
  handlers : e.handlers = {}
  processors : ∀ p ∈ e.processors.members, ∀ c b w r, (p.process c b w r).2.1 = w
  outputs : ∀ slot ∈ e.publisher.slots, ∀ ev ctx w o, (slot.output.publish ev ctx w o).2 = (w, o)
  inputs : ∀ input ∈ e.inputs.members ++ e.extensionInputs.members, ∀ ctx w o,
    (input.poll ctx w o).2 = (w, o)

/-- A chain of processors that each keep the application's state keeps it. -/
theorem runAll_world {ps : List (Processor W)}
    (hps : ∀ p ∈ ps, ∀ c b w r, (p.process c b w r).2.1 = w) (c : Command) (base : BaseState)
    (w : W) (r : Router) : (Processor.runAll c base ps w r).2.1 = w := by
  induction ps generalizing w r with
  | nil => rfl
  | cons p rest ih =>
    have hp := hps p List.mem_cons_self c base w r
    unfold Processor.runAll
    split
    · rfl
    · rcases hpr : p.process c base w r with ⟨result, w', r'⟩
      rw [hpr] at hp
      dsimp only at hp
      subst hp
      cases result with
      | ok u => exact ih (fun p' hp' => hps p' (List.mem_cons_of_mem _ hp')) _ r'
      | error halt => cases halt <;> rfl

namespace Quiet

variable {s : Engine W × W}

/-- A quiet engine's error handlers change nothing. -/
theorem handled (h : Quiet s.1) {f : W → W} (hf : Handled s.1.handlers f) : f s.2 = s.2 := by
  rcases hf with ⟨name, ev, attempt, failure, rfl⟩ | ⟨name, failure, rfl⟩ <;> rw [h.handlers]

/-- A quiet engine's senders other than the host keep the command log and the application's
state. -/
theorem answered (h : Quiet s.1) {now : Timestamp} {o : Outbox} {w : W}
    (ho : Answered now s o w) : w = s.2 ∧ o.commands = s.1.outbox.commands := by
  rcases ho with ⟨hw, source, rfl⟩ | ⟨slot, hslot, ev, ctx, hw, ho⟩ | ⟨input, hinput, hw, ho⟩
  · exact ⟨hw, rfl⟩
  · rw [h.outputs slot hslot ev ctx s.2 s.1.outbox] at hw ho
    exact ⟨hw, by rw [ho]⟩
  · rw [h.inputs input hinput _ s.2 s.1.outbox] at hw ho
    exact ⟨hw, by rw [ho]⟩

/-- Counting an attempt keeps an engine quiet: the output stays. -/
theorem setAttempts (h : Quiet s.1) {i : Nat} {slot : OutputSlot W} (n : Nat)
    (hslot : s.1.publisher.slots[i]? = some slot) :
    Quiet { s.1 with publisher := s.1.publisher.setAttempts i slot n } := by
  refine ⟨h.handlers, h.processors, fun x hx => ?_, h.inputs⟩
  rcases Publisher.mem_slots_setAttempts _ hx with hx | rfl
  · exact h.outputs x hx
  · exact h.outputs slot (List.mem_of_getElem? hslot)

end Quiet

/-- Without its clock reading, the batch of a dispatch from a state whose base state,
application's state and event log are those the batches `B` give is the batch a replay appends
after `B`. -/
theorem untimed_batch_dispatchOf {a : Application W} {w₀ : W} {B : List Event}
    {s : Engine W × W} (hblind : a.TimeBlind) (hbase : s.1.base = BaseState.recordAll {} B)
    (hworld : s.2 = a.deliverAll B w₀) (hlength : s.1.events.length = B.length) (i : Nat)
    (c : Command) (now : Timestamp) :
    (dispatchOf s i c now).batch.map Event.untimed =
      replayBatch s.1.processors.members a w₀ (B.map Event.untimed) c := by
  unfold dispatchOf replayBatch
  rw [BaseState.recordAll_map_untimed, Application.deliverAll_map_untimed hblind,
    List.length_map, ← hbase, ← hworld, ← hlength]
  dsimp only
  split
  · rfl
  · -- the replay seals the same transaction, at clock reading zero
    rcases Processor.runAll c s.1.base s.1.processors.members s.2 (Router.begin c) with
      ⟨result, w, router⟩
    simp only [Dispatch.batch]
    rw [Router.finish_at _ _ now 0]
    rfl

namespace Quiet

variable {s s' : Engine W × W}

/-- Keeping the processors, handlers, inputs and publisher keeps an engine quiet. -/
theorem of_fixed (h : Quiet s.1) (hfixed : Fixed s s') (hpublisher : s'.1.publisher = s.1.publisher) :
    Quiet s'.1 := by
  refine ⟨hfixed.handlers ▸ h.handlers, hfixed.processors ▸ h.processors,
    hpublisher ▸ h.outputs, ?_⟩
  rw [hfixed.inputs, hfixed.extensionInputs]
  exact h.inputs

/-- Keeping the members keeps an engine quiet. -/
theorem of_membersKept (h : Quiet s.1) (hkept : MembersKept s s') : Quiet s'.1 := by
  refine ⟨hkept.handlers ▸ h.handlers, hkept.processors ▸ h.processors,
    hkept.publisher ▸ h.outputs, ?_⟩
  rw [hkept.inputs, hkept.extensionInputs]
  exact h.inputs

/-- A move keeps an engine quiet. -/
theorem move (h : Quiet s.1) {now : Timestamp} {ls : List Label} (hm : Move now s ls s')
    (hs : Started s) : Quiet s'.1 := by
  cases hm with
  | applied _ _ hnext =>
    obtain ⟨_, hrep⟩ := Replayed.of_applyNext hnext
    exact h.of_fixed hrep.fixed (outputsKept_applyNext.of_exec hnext).publisher
  | dispatched _ _ hround =>
    obtain ⟨_, _, s₁, _, hd, hrep, -⟩ := dispatchRound_eq_some hs hround
    exact h.of_fixed (hd.fixed.trans hrep.fixed) (outputsKept_dispatchRound.of_exec hround).publisher
  | attempted n hslot => exact h.setAttempts n hslot
  | counted | changed | hostSent | sent | published =>
    exact ⟨h.handlers, h.processors, h.outputs, h.inputs⟩

theorem moves (h : Quiet s.1) {now : Timestamp} {ls : List Label} (hm : Moves now s ls s')
    (hs : Started s) : Quiet s'.1 := by
  induction hm with
  | refl => exact h
  | step hm _ ih => exact ih (h.move hm hs) (hm.keeps hs).1

end Quiet


/-- The batches of a dispatch's labels are the dispatch's: the events the applier took then
show no dispatch. -/
@[simp]
theorem batches_dispatched (d : Dispatch) (s s' : Engine W × W) :
    Label.batches (.dispatched d :: appliedBetween s s') = d.batch := by
  simp [Label.batches, Label.dispatches, appliedBetween, List.filterMap_map]

@[simp]
theorem batches_sent (x : HostSend) : Label.batches [.sent x] = [] := rfl

@[simp]
theorem batches_startLabels (mode : ReplayMode) (evs : List Event) :
    Label.batches (startLabels mode evs) = [] := by
  simp [Label.batches, Label.dispatches, startLabels, List.filterMap_map]

/-- A sender keeps the commands the dispatcher passed: it appends records and moves no poller. -/
theorem take_dispatcherAt_of_sends {D : String} {ls : List Label} {s : Engine W × W}
    (hc : Consistent D ls s) {ctx : SendContext} {o : Outbox} (hsends : Outbox.Sends ctx s.1.outbox o) :
    o.commands.readCommands.take (o.commands.position s.1.config.dispatcherPoller) =
      s.1.outbox.commands.readCommands.take s.1.dispatcherAt := by
  obtain ⟨hpollers, -⟩ := hsends.commands
  obtain ⟨rest, hrest⟩ := hsends.readCommands_extends
  have hat : o.commands.position s.1.config.dispatcherPoller = s.1.dispatcherAt := by
    simp only [dispatcherAt, MessageLog.position, hpollers]
  rw [hat, ← hrest, List.take_append_of_le_length hc.passed_readCommands]

/-- What holds at every point of a session whose first engine is `e`, from the application's
state `w₀`, with labels `ls`: the engine has `e`'s processors, appliers and replay mode; its
application's state is the fold of the batches by `e`'s appliers; and the batches, without their
clock readings, are what a replay of the commands the dispatcher passed appends. -/
structure Replays (e : Engine W) (w₀ : W) (ls : List Label) (s : Engine W × W) : Prop where
  processors : s.1.processors = e.processors
  appliers : s.1.application.appliers = e.application.appliers
  mode : s.1.application.mode = e.application.mode
  world : s.2 = e.application.deliverAll (Label.batches ls) w₀
  batches : (Label.batches ls).map Event.untimed =
    replayEvents e.processors.members e.application w₀
      (s.1.outbox.commands.readCommands.take s.1.dispatcherAt)

namespace Replays

variable {e : Engine W} {w₀ : W} {D : String} {ls : List Label} {s s' : Engine W × W}

theorem relabel (h : Replays e w₀ ls s) {ls' : List Label}
    (hb : Label.batches ls' = Label.batches ls) : Replays e w₀ ls' s :=
  ⟨h.processors, h.appliers, h.mode, hb ▸ h.world, hb ▸ h.batches⟩

/-- A change that keeps the processors, the appliers and the replay mode, the application's
state and the commands the dispatcher passed keeps the invariant. -/
theorem congr (h : Replays e w₀ ls s) (hprocessors : s'.1.processors = s.1.processors)
    (happliers : s'.1.application.appliers = s.1.application.appliers)
    (hmode : s'.1.application.mode = s.1.application.mode) (hworld : s'.2 = s.2)
    (hpassed : s'.1.outbox.commands.readCommands.take s'.1.dispatcherAt =
      s.1.outbox.commands.readCommands.take s.1.dispatcherAt) : Replays e w₀ ls s' :=
  ⟨hprocessors ▸ h.processors, happliers ▸ h.appliers, hmode ▸ h.mode, hworld ▸ h.world,
    hpassed ▸ h.batches⟩

/-- A round of a quiet engine keeps the invariant: the processors leave the application's
state alone, the appliers fold the batch into it, and without its clock reading the batch is
the one a replay appends for the command. -/
theorem dispatched (h : Replays e w₀ ls s) (hc : Consistent D ls s) (hs : Started s)
    (hq : Quiet s.1) (hblind : e.application.TimeBlind) {now : Timestamp} {m : Stored}
    {c : Command} {n : Nat} (hpeek : s.1.outbox.commands.peek? s.1.config.dispatcherPoller = some m)
    (hdecode : Command.decode m.bytes = .ok c)
    (hround : exec dispatchRound now s = (.ok (some n), s'))
    (hbound : s'.1.events.length ≤ unbounded) :
    Replays e w₀ (ls ++ .dispatched (dispatchOf s m.index c now) :: appliedBetween s s') s' := by
  have ht := hc.took hs hpeek hdecode hround hbound
  have hlength : s.1.events.length = (Label.batches ls).length := by
    simpa [MessageLog.length] using congrArg List.length hc.events
  have hshort : (dispatchOf s m.index c now).batch.length ≤ unbounded := by
    have hlen := congrArg List.length ht.events
    simp only [List.length_append, List.length_map, Array.length_toList] at hlen
    simp only [MessageLog.length] at hbound
    omega
  obtain ⟨s₁, hd, hrep, -, hworld₁⟩ :=
    dispatchRound_replayed hs (hc.applied hs) hpeek hdecode hround hshort
  -- the processors keep the application's state, so the dispatcher's step does
  have hquiet : (exec dispatchNext now s).2.2 = s.2 :=
    world_dispatchNext_of_chain hq.handlers hpeek hdecode (runAll_world hq.processors c _ _ _)
  have hdeliver : s.1.application.deliverAll = e.application.deliverAll :=
    Application.deliverAll_congr h.appliers h.mode
  have hread : s'.1.outbox.commands.readCommands = s.1.outbox.commands.readCommands := by
    simp only [MessageLog.readCommands, ht.commands]
  have htake : s'.1.outbox.commands.readCommands.take s'.1.dispatcherAt =
      s.1.outbox.commands.readCommands.take s.1.dispatcherAt ++ [c] := by
    rw [hread, ht.dispatcherAt, List.take_add_one, ← ht.index, ht.command]
    rfl
  refine ⟨ht.fixed.processors ▸ h.processors, ?_, ht.mode ▸ h.mode, ?_, ?_⟩
  · rw [hrep.appliers, hd.application]
    exact h.appliers
  · rw [Label.batches_append, batches_dispatched, Application.deliverAll_append, hrep.world,
      hd.application, hworld₁, hquiet, hdeliver, ← h.world]
  · rw [Label.batches_append, batches_dispatched, List.map_append, h.batches, htake,
      replayEvents_append_singleton,
      untimed_batch_dispatchOf hblind (hc.base hs) h.world hlength, h.processors, h.batches]

/-- A move of a quiet engine keeps the invariant. -/
theorem move (h : Replays e w₀ ls s) (hc : Consistent D ls s) (hs : Started s) (hq : Quiet s.1)
    (hblind : e.application.TimeBlind) {now : Timestamp} {ls' : List Label}
    (hm : Move now s ls' s') (hbound : s'.1.events.length ≤ unbounded) :
    Replays e w₀ (ls ++ ls') s' := by
  cases hm with
  | applied hpeek =>
    -- the applier is at the end of the log, where there is nothing to apply
    rw [MessageLog.peek?_eq_none.2 (Nat.le_of_eq (hc.applied hs).symm)] at hpeek
    cases hpeek
  | dispatched hpeek hdecode hround => exact h.dispatched hc hs hq hblind hpeek hdecode hround hbound
  | counted | attempted | published =>
    rw [List.append_nil]
    exact h.congr rfl rfl rfl rfl rfl
  | changed f hf =>
    rw [List.append_nil]
    exact h.congr rfl rfl rfl (hq.handled hf) rfl
  | hostSent source payloadType payload =>
    have hbatches : Label.batches (ls ++ [.sent ⟨now, source, payloadType, payload⟩]) =
        Label.batches ls := by simp
    refine Replays.relabel ?_ hbatches
    exact h.congr rfl rfl rfl rfl
      (take_dispatcherAt_of_sends hc (.send source payloadType payload (.refl _)))
  | sent w hsends hw =>
    rw [List.append_nil]
    exact h.congr rfl rfl rfl (hq.answered hw).1 (take_dispatcherAt_of_sends hc hsends)

theorem moves (h : Replays e w₀ ls s) (hc : Consistent D ls s) (hs : Started s) (hq : Quiet s.1)
    (hblind : e.application.TimeBlind) {now : Timestamp} {ls' : List Label}
    (hm : Moves now s ls' s') (hbound : s'.1.events.length ≤ unbounded) :
    Replays e w₀ (ls ++ ls') s' := by
  induction hm generalizing ls with
  | refl => simpa using h
  | step hm hms ih =>
    obtain ⟨hs₁, -⟩ := hm.keeps hs
    have hbound₁ := Nat.le_trans (hms.keeps hs₁).2 hbound
    rw [← List.append_assoc]
    exact ih (h.move hc hs hq hblind hm hbound₁) (hc.move hs hm hbound₁) hs₁ (hq.move hm hs) hbound

/-- A start from `w₀` of an engine with `e`'s processors and application, over logs the batches
of `ls` fill, begins the invariant: the replay hands the appliers the whole log, which is the
batches. -/
theorem start {e' : Engine W} (hc : Consistent D ls (e', w₀))
    (hprocessors : e'.processors = e.processors) (happ : e'.application = e.application)
    (hbatches : (Label.batches ls).map Event.untimed =
      replayEvents e.processors.members e.application w₀
        (e'.outbox.commands.readCommands.take e'.dispatcherAt))
    {now : Timestamp} {st : EngineStatus} (hstart : exec Engine.start now (e', w₀) = (.ok st, s'))
    (evs : List Event) : Replays e w₀ (ls ++ startLabels e'.application.mode evs) s' := by
  obtain ⟨evs', hst⟩ := starts_of_exec hstart
  have hevs : evs' = Label.batches ls := by
    have hrec := hst.records
    rw [hc.fresh hst.fresh, hc.events] at hrec
    exact eq_of_map_encode hc.fits hrec
  have hkept := membersKept_start.of_exec hstart
  have hat : s'.1.dispatcherAt = e'.dispatcherAt := by
    simp only [dispatcherAt, hst.commands, hst.config]
  refine ⟨hkept.processors.trans hprocessors, ?_, ?_, ?_, ?_⟩
  · rw [hst.appliers, happ]
  · rw [hst.mode, happ]
  · rw [Label.batches_append, batches_startLabels, List.append_nil, hst.world, hevs, happ]
  · rw [Label.batches_append, batches_startLabels, List.append_nil, hbatches, hat, hst.commands]

end Replays

/-- The command log of `s` is the log `L` after the host's sends `σ`, wherever its pollers
stand. -/
def Logged (L : MessageLog) (σ : List HostSend) (s : Engine W × W) : Prop :=
  ∃ P, s.1.outbox.commands = { L.logSends σ with pollers := P }

@[simp]
theorem sends_dispatched (d : Dispatch) (s s' : Engine W × W) :
    Label.sends (.dispatched d :: appliedBetween s s') = [] := by
  simp [Label.sends, appliedBetween, List.filterMap_map]

@[simp]
theorem sends_startLabels (mode : ReplayMode) (evs : List Event) :
    Label.sends (startLabels mode evs) = [] := by
  simp [Label.sends, startLabels, List.filterMap_map]

namespace Logged

variable {L : MessageLog} {σ : List HostSend} {D : String} {ls : List Label}
  {s s' : Engine W × W}

theorem of_withPollers (h : Logged L σ s) {P' : List (String × Nat)}
    (hcommands : s'.1.outbox.commands = { s.1.outbox.commands with pollers := P' }) :
    Logged L σ s' := by
  obtain ⟨P, hlog⟩ := h
  exact ⟨P', by rw [hcommands, hlog]⟩

theorem of_commands (h : Logged L σ s) (hcommands : s'.1.outbox.commands = s.1.outbox.commands) :
    Logged L σ s' := by
  obtain ⟨P, hlog⟩ := h
  exact ⟨P, hcommands.trans hlog⟩

/-- A host send of a consistent, sequenced engine logs its command as the host's send into `L`
does: the sequencer of its source starts from the highest sequence in the log, since the
watermark is the highest among the commands the dispatcher passed. -/
theorem hostSent (h : Logged L σ s) (hc : Consistent D ls s) (hseq : Sequenced s)
    (hfits : ∀ x, (Command.highest (L.logSends σ).readCommands x).toNat + 1 < UInt64.size)
    (now : Timestamp) (x : SourceId) (payloadType : PayloadType) (payload : Bytes) :
    Logged L (σ ++ [⟨now, x, payloadType, payload⟩])
      ({ s.1 with outbox := (s.1.outbox.send ⟨s.1.base, now⟩ x payloadType payload).2 }, s.2) := by
  obtain ⟨P, hlog⟩ := h
  have hread : s.1.outbox.commands.readCommands = (L.logSends σ).readCommands := by
    rw [hlog]
    rfl
  have hwatermark : s.1.base.lastCommand x ≤ Command.highest s.1.outbox.commands.readCommands x :=
    calc s.1.base.lastCommand x
        = Command.highest (s.1.outbox.commands.readCommands.take s.1.dispatcherAt) x := by
          rw [hc.base hseq.started, hc.watermarks]
      _ ≤ Command.highest (s.1.outbox.commands.readCommands.take s.1.dispatcherAt ++
            s.1.outbox.commands.readCommands.drop s.1.dispatcherAt) x :=
          Command.highest_le_append _ _ x
      _ = Command.highest s.1.outbox.commands.readCommands x := by rw [List.take_append_drop]
  have hseed : s.1.outbox.seed s.1.base.lastCommand x =
      Command.highest (L.logSends σ).readCommands x := by
    rw [← hread]
    apply UInt64.toNat_inj.1
    rw [UInt64.le_iff_toNat_le] at hwatermark
    simp only [Outbox.seed, UInt64.toNat_max]
    omega
  have hseeded : s.1.outbox.Seeded (SendContext.base ⟨s.1.base, now⟩).lastCommand := hseq.seeded
  have hnext := (hseeded.nextSequence x).1 (hseed ▸ hfits x)
  rw [hseed] at hnext
  refine ⟨P, ?_⟩
  rw [MessageLog.logSends_append, MessageLog.logSends_cons, MessageLog.logSends]
  exact Outbox.commands_send_of_next hlog hnext payloadType payload

/-- A move of a consistent, sequenced, quiet engine logs the host's sends as they are sent into
`L`: the dispatcher and the applier only move pollers, and the members send nothing. -/
theorem move (h : Logged L σ s) (hc : Consistent D ls s) (hseq : Sequenced s) (hq : Quiet s.1)
    (hfits : ∀ x, (Command.highest (L.logSends σ).readCommands x).toNat + 1 < UInt64.size)
    {now : Timestamp} {ls' : List Label} (hm : Move now s ls' s') :
    Logged L (σ ++ Label.sends ls') s' := by
  cases hm with
  | applied hpeek =>
    -- the applier is at the end of the log, where there is nothing to apply
    rw [MessageLog.peek?_eq_none.2 (Nat.le_of_eq hseq.caughtUp.symm)] at hpeek
    cases hpeek
  | dispatched hpeek hdecode hround =>
    obtain ⟨_, _, s₁, _, hd, hrep, -⟩ := dispatchRound_eq_some hseq.started hround
    obtain ⟨-, hadvance⟩ := MessageLog.advance_eq_ok hd.commands
    have hcommands : s'.1.outbox.commands =
        { s.1.outbox.commands with pollers := s'.1.outbox.commands.pollers } := by
      rw [hrep.commands, hadvance]
      exact MessageLog.setPosition_eq_withPollers _ _ _
    rw [sends_dispatched, List.append_nil]
    exact h.of_withPollers hcommands
  | counted | attempted | published | changed =>
    rw [Label.sends_nil, List.append_nil]
    exact h
  | hostSent source payloadType payload =>
    rw [Label.sends_sent]
    exact h.hostSent hc hseq hfits now source payloadType payload
  | sent w hsends hw =>
    rw [Label.sends_nil, List.append_nil]
    exact h.of_commands (hq.answered hw).2

theorem moves (h : Logged L σ s) (hc : Consistent D ls s) (hseq : Sequenced s) (hq : Quiet s.1)
    (hL : L.messages = #[]) {now : Timestamp} {ls' : List Label} (hm : Moves now s ls' s')
    (hfew : (σ ++ Label.sends ls').length + 1 < UInt64.size)
    (hbound : s'.1.events.length ≤ unbounded) : Logged L (σ ++ Label.sends ls') s' := by
  induction hm generalizing σ ls with
  | refl => simpa using h
  | step hm hms ih =>
    obtain ⟨hs₁, -⟩ := hm.keeps hseq.started
    have hbound₁ := Nat.le_trans (hms.keeps hs₁).2 hbound
    have hfits := MessageLog.highest_logSends_fits hL
      (show σ.length + 1 < UInt64.size by simp only [Label.sends_append, List.length_append] at hfew; omega)
    rw [Label.sends_append, ← List.append_assoc] at hfew ⊢
    exact ih (h.move hc hseq hq hfits hm) (hc.move hseq.started hm hbound₁) (hseq.move hm hbound₁)
      (hq.move hm hseq.started) hfew hbound

end Logged

/-- The dispatcher has passed every command of the log. -/
def Drained (s : Engine W × W) : Prop :=
  s.1.outbox.commands.peek? s.1.config.dispatcherPoller = none

/-- A drained consistent engine has passed the whole command log. -/
theorem Consistent.take_dispatcherAt_of_drained {D : String} {ls : List Label}
    {s : Engine W × W} (hc : Consistent D ls s) (hdrained : Drained s) :
    s.1.outbox.commands.readCommands.take s.1.dispatcherAt = s.1.outbox.commands.readCommands := by
  apply List.take_of_length_le
  rw [MessageLog.length_readCommands hc.readable]
  exact MessageLog.peek?_eq_none.1 hdrained

/-- The records of a consistent event log read back as the batches. -/
theorem Consistent.untimedEvents {D : String} {ls : List Label} {s : Engine W × W}
    (hc : Consistent D ls s) :
    s.1.events.untimedEvents = ((Label.batches ls).map Event.untimed).map .ok := by
  have hdecode := congrArg (List.map (Event.untimed <$> ·)) (decode_map_encode hc.fits)
  simp only [List.map_map] at hdecode
  rw [MessageLog.untimedEvents, hc.events, List.map_map, List.map_map]
  exact hdecode

end Engine

namespace Blueprint

open Engine

variable {W : Type}

/-- A session of the blueprint `b` from the application's state `w₀`: the engine `b` builds
starts from `w₀`; then, any number of times and in any order, the started engine moves, or it is
dropped and the engine `b` builds over the same logs starts from `w₀`. -/
inductive Session (b : Blueprint W) (w₀ : W) : List Label → Engine W × W → Prop where
  | start {e : Engine W} {s : Engine W × W} {st : EngineStatus} {evs : List Event}
      (now : Timestamp) (hb : b.build = .ok e)
      (hstart : exec Engine.start now (e, w₀) = (.ok st, s))
      (hreplay : (e.events.messages.toList.drop e.base.lastEvent.toNat).map Event.decode =
        evs.map .ok) :
      Session b w₀ (startLabels e.application.mode evs) s
  | restart {ls : List Label} {s s' : Engine W × W} {e : Engine W} {st : EngineStatus}
      {evs : List Event} (now : Timestamp) (h : Session b w₀ ls s)
      (hb : { b with commands := s.1.outbox.commands, events := s.1.events }.build = .ok e)
      (hstart : exec Engine.start now (e, w₀) = (.ok st, s'))
      (hreplay : (e.events.messages.toList.drop e.base.lastEvent.toNat).map Event.decode =
        evs.map .ok) :
      Session b w₀ (ls ++ startLabels e.application.mode evs) s'
  | moves {ls ls' : List Label} {s s' : Engine W × W} (now : Timestamp) (h : Session b w₀ ls s)
      (hmoves : Moves now s ls' s') : Session b w₀ (ls ++ ls') s'

namespace Session

variable {b : Blueprint W} {w₀ : W} {ls : List Label} {s : Engine W × W}

theorem started (h : Session b w₀ ls s) : Started s := by
  induction h with
  | start now hb hstart => exact (starts_of_exec hstart).choose_spec.started
  | restart now _ hb hstart => exact (starts_of_exec hstart).choose_spec.started
  | moves now _ hmoves ih => exact (hmoves.keeps ih).1

/-- A session of a blueprint over two empty logs is a run. -/
theorem run (hfresh : b.Fresh) (h : Session b w₀ ls s) : Run b.config.dispatcherPoller ls s := by
  induction h with
  | start now hb hstart hreplay =>
    simpa using Run.start now (Run.build w₀ hb hfresh.commands hfresh.commandPollers
      hfresh.events hfresh.eventPollers hfresh.base rfl) hstart hreplay
  | restart now _ hb hstart hreplay ih =>
    exact .start now (.rebuild w₀ ih hb rfl rfl hfresh.base rfl) hstart hreplay
  | moves now h hmoves ih => exact .moves now ih h.started hmoves

/-- A start keeps the event log's records. -/
theorem length_events_start {s s' : Engine W × W} {now : Timestamp} {st : EngineStatus}
    (hstart : exec Engine.start now s = (.ok st, s')) : s'.1.events.length = s.1.events.length := by
  obtain ⟨evs, hst⟩ := starts_of_exec hstart
  simp only [MessageLog.length, hst.messages]

/-- Every engine of a session is in the life its latest start began, while the event log holds
no more events than a machine word counts. -/
theorem life (hfresh : b.Fresh) (h : Session b w₀ ls s) (hbound : s.1.events.length ≤ unbounded) :
    Life s := by
  induction h with
  | start now hb hstart =>
    refine .start w₀ now hb ?_ hstart
    intro r hr
    simp [hfresh.commands] at hr
  | @restart ls s s' e st evs now h hb hstart hreplay ih =>
    -- the engine dropped is consistent, so its command log reads
    have hbound' : s.1.events.length ≤ unbounded := by
      rw [length_events_start hstart] at hbound
      obtain ⟨-, hevents, -⟩ := Blueprint.build_eq_ok hb
      rwa [hevents] at hbound
    exact .start w₀ now hb ((h.run hfresh).consistent hbound').readable hstart
  | moves now h hmoves ih =>
    exact .moves now (ih (Nat.le_trans (hmoves.keeps h.started).2 hbound)) hmoves

/-- The engines of a session of a quiet engine's blueprint are quiet. -/
theorem quiet {e : Engine W} (hb : b.build = .ok e) (hquiet : Quiet e) (h : Session b w₀ ls s) :
    Quiet s.1 := by
  induction h with
  | @start e' _ _ _ now hb' hstart =>
    obtain rfl : e' = e := Except.ok.inj (hb'.symm.trans hb)
    have hq : Quiet (e', w₀).1 := hquiet
    exact hq.of_membersKept (membersKept_start.of_exec hstart)
  | @restart _ s _ e' _ _ now h hb' hstart =>
    -- the engine built over the logs has the members of the first
    have he' := Except.ok.inj (hb'.symm.trans (Blueprint.build_logs hb _ _))
    have hq : Quiet (e', w₀).1 := by
      rw [he']
      exact ⟨hquiet.handlers, hquiet.processors, hquiet.outputs, hquiet.inputs⟩
    exact hq.of_membersKept (membersKept_start.of_exec hstart)
  | moves now h hmoves ih => exact ih.moves hmoves h.started

/-- Along a session of a quiet engine's blueprint over two empty logs, with time-blind
appliers, the engine keeps the first engine's processors, appliers and replay mode; its
application's state is the fold of the batches; and the batches, without their clock readings,
are what a replay of the commands the dispatcher passed appends. -/
theorem replays {e : Engine W} (hfresh : b.Fresh) (hb : b.build = .ok e) (hquiet : Quiet e)
    (hblind : e.application.TimeBlind) (h : Session b w₀ ls s)
    (hbound : s.1.events.length ≤ unbounded) : Replays e w₀ ls s := by
  induction h with
  | @start e' _ _ evs now hb' hstart hreplay =>
    obtain rfl : e' = e := Except.ok.inj (hb'.symm.trans hb)
    have hc : Consistent b.config.dispatcherPoller [] (e', w₀) :=
      .build w₀ hb' hfresh.commands hfresh.commandPollers hfresh.events hfresh.base rfl
    -- nothing was dispatched from the empty log
    have hat : e'.dispatcherAt = 0 := by
      obtain ⟨-, -, hcommands, -⟩ := Blueprint.build_eq_ok hb'
      simp [dispatcherAt, MessageLog.position, hcommands, hfresh.commandPollers]
    simpa using Replays.start hc rfl rfl (by simp [hat, replayEvents, Label.batches,
      Label.dispatches]) hstart evs
  | @restart ls s _ e' _ evs now h hb' hstart hreplay ih =>
    have he' := Except.ok.inj (hb'.symm.trans (Blueprint.build_logs hb _ _))
    have hbound' : s.1.events.length ≤ unbounded := by
      rw [length_events_start hstart] at hbound
      obtain ⟨-, hevents, -⟩ := Blueprint.build_eq_ok hb'
      rwa [hevents] at hbound
    have hc := ((h.run hfresh).consistent hbound').rebuild w₀ hb' rfl rfl hfresh.base rfl
    -- the engine built over the logs has the first engine's members and the dropped one's
    -- dispatcher
    have hat : e'.dispatcherAt = s.1.dispatcherAt := by
      simp only [dispatcherAt, he', (h.run hfresh |>.consistent hbound').dispatcher,
        (Blueprint.build_eq_ok hb).1]
    refine Replays.start hc (by rw [he']) (by rw [he']) ?_ hstart evs
    rw [hat, he']
    exact (ih hbound').batches
  | moves now h hmoves ih =>
    have hbound' := Nat.le_trans (hmoves.keeps h.started).2 hbound
    exact (ih hbound').moves ((h.run hfresh).consistent hbound') h.started (h.quiet hb hquiet)
      hblind hmoves hbound

/-- Along a session of a quiet engine's blueprint over two empty logs, the command log is the
blueprint's after the host's sends, each logged one above the highest sequence of its source,
while there are fewer sends than the largest word. -/
theorem logged {e : Engine W} (hfresh : b.Fresh) (hb : b.build = .ok e) (hquiet : Quiet e)
    (h : Session b w₀ ls s) (hbound : s.1.events.length ≤ unbounded)
    (hfew : (Label.sends ls).length + 1 < UInt64.size) : Logged b.commands (Label.sends ls) s := by
  induction h with
  | start now hb' hstart =>
    obtain ⟨_, hst⟩ := starts_of_exec hstart
    obtain ⟨-, -, hcommands, -⟩ := Blueprint.build_eq_ok hb'
    rw [sends_startLabels]
    exact ⟨b.commands.pollers, hst.commands.trans hcommands⟩
  | @restart _ s _ _ _ _ now h hb' hstart hreplay ih =>
    obtain ⟨_, hst⟩ := starts_of_exec hstart
    obtain ⟨-, hevents, hcommands, -⟩ := Blueprint.build_eq_ok hb'
    have hbound' : s.1.events.length ≤ unbounded := by
      rw [length_events_start hstart, hevents] at hbound
      exact hbound
    rw [Label.sends_append, sends_startLabels, List.append_nil] at hfew ⊢
    exact (ih hbound' hfew).of_commands (hst.commands.trans hcommands)
  | @moves ls _ _ _ now h hmoves ih =>
    have hbound' := Nat.le_trans (hmoves.keeps h.started).2 hbound
    rw [Label.sends_append] at hfew ⊢
    have hfew' : (Label.sends ls).length + 1 < UInt64.size := by
      simp only [List.length_append] at hfew
      omega
    exact (ih hbound' hfew').moves ((h.run hfresh).consistent hbound')
      ((h.life hfresh hbound').sequenced hbound') (h.quiet hb hquiet) hfresh.commands hmoves hfew
      hbound

/-- A host send extends a session by its label. -/
theorem hostSent (h : Session b w₀ ls s) (now : Timestamp) (x : SourceId)
    (payloadType : PayloadType) (payload : Bytes) :
    Session b w₀ (ls ++ [.sent ⟨now, x, payloadType, payload⟩])
      ({ s.1 with outbox := (s.1.outbox.send ⟨s.1.base, now⟩ x payloadType payload).2 }, s.2) :=
  .moves now h (.single (.hostSent s x payloadType payload))

/-- A round of the dispatcher that took a command extends a session by labels that show no send
and no start. -/
theorem dispatched (h : Session b w₀ ls s) {now : Timestamp} {n : Nat}
    (hround : (exec dispatchRound now s).1 = .ok (some n)) :
    ∃ ls', Session b w₀ (ls ++ ls') (exec dispatchRound now s).2 ∧ Label.sends ls' = [] ∧
      ∀ l ∈ ls', l.isStart = false := by
  obtain ⟨m, c, hpeek, hdecode⟩ := dispatchRound_taken hround
  have hm : Move now s _ (exec dispatchRound now s).2 :=
    .dispatched hpeek hdecode (Prod.ext hround rfl)
  refine ⟨_, .moves now h (.single hm), sends_dispatched _ _ _, fun l hl => ?_⟩
  simpa using hm.not_isStart l hl

/-- Once the dispatcher has passed every command, along a session of a quiet engine's blueprint
over two empty logs with time-blind appliers, the event log up to the events' clock readings is
what a replay of the command log appends, and the base state and the application's state are
its fold. -/
theorem drained_replays_commands {e : Engine W} (hfresh : b.Fresh) (hb : b.build = .ok e)
    (hquiet : Quiet e) (hblind : e.application.TimeBlind) (h : Session b w₀ ls s)
    (hbound : s.1.events.length ≤ unbounded) (hdrained : Drained s) :
    s.1.events.untimedEvents =
        (replayEvents e.processors.members e.application w₀
          s.1.outbox.commands.readCommands).map .ok ∧
      s.1.base = BaseState.recordAll {}
        (replayEvents e.processors.members e.application w₀ s.1.outbox.commands.readCommands) ∧
      s.2 = e.application.deliverAll
        (replayEvents e.processors.members e.application w₀ s.1.outbox.commands.readCommands)
        w₀ := by
  have hc := (h.run hfresh).consistent hbound
  have hr := h.replays hfresh hb hquiet hblind hbound
  have hbatches := hr.batches
  rw [hc.take_dispatcherAt_of_drained hdrained] at hbatches
  refine ⟨?_, ?_, ?_⟩
  · rw [hc.untimedEvents, hbatches]
  · rw [hc.base h.started, ← hbatches, BaseState.recordAll_map_untimed]
  · rw [hr.world, ← hbatches, Application.deliverAll_map_untimed hblind]

/-- Two sessions of a quiet engine's blueprint over two empty logs, with time-blind appliers,
whose host made the same sends, at the same clock readings, hold the same event log up to the
events' clock readings, the same base state and the same application's state once their
dispatchers have passed every command, however their calls, moves and restarts interleaved. -/
theorem drained_agree {e : Engine W} (hfresh : b.Fresh) (hb : b.build = .ok e)
    (hquiet : Quiet e) (hblind : e.application.TimeBlind) {ls₁ ls₂ : List Label}
    {s₁ s₂ : Engine W × W} (h₁ : Session b w₀ ls₁ s₁) (h₂ : Session b w₀ ls₂ s₂)
    (hsends : Label.sends ls₂ = Label.sends ls₁)
    (hfew : (Label.sends ls₁).length + 1 < UInt64.size)
    (hbound₁ : s₁.1.events.length ≤ unbounded) (hbound₂ : s₂.1.events.length ≤ unbounded)
    (hdrained₁ : Drained s₁) (hdrained₂ : Drained s₂) :
    s₂.1.events.untimedEvents = s₁.1.events.untimedEvents ∧ s₂.1.base = s₁.1.base ∧
      s₂.2 = s₁.2 := by
  obtain ⟨P₁, hlog₁⟩ := h₁.logged hfresh hb hquiet hbound₁ hfew
  obtain ⟨P₂, hlog₂⟩ := h₂.logged hfresh hb hquiet hbound₂ (hsends ▸ hfew)
  -- the two command logs hold the same records: those of the same sends
  have hread : s₂.1.outbox.commands.readCommands = s₁.1.outbox.commands.readCommands := by
    rw [hlog₁, hlog₂, hsends]
    rfl
  obtain ⟨hevents₁, hbase₁, hworld₁⟩ :=
    h₁.drained_replays_commands hfresh hb hquiet hblind hbound₁ hdrained₁
  obtain ⟨hevents₂, hbase₂, hworld₂⟩ :=
    h₂.drained_replays_commands hfresh hb hquiet hblind hbound₂ hdrained₂
  rw [hread] at hevents₂ hbase₂ hworld₂
  exact ⟨hevents₂.trans hevents₁.symm, hbase₂.trans hbase₁.symm, hworld₂.trans hworld₁.symm⟩

end Session

end Blueprint

namespace Engine

/-- Processing does not depend on scheduling. In every run, each dispatch took the command after
those the earlier dispatches took, from a base state that is the fold of their batches, with
the appliers handed exactly those batches since the latest start. So two sessions of a quiet
engine's blueprint with time-blind appliers, whose host made the same sends, hold the same event
log up to the events' clock readings, the same base state and the same application's state once
their dispatchers have passed every command. -/
theorem processing_is_independent_of_scheduling :
    (∀ {W : Type} {D : String} {ls : List Label} {s : Engine W × W}, Run D ls s →
      s.1.events.length ≤ unbounded → ∀ ls₁ d ls₂, ls = ls₁ ++ .dispatched d :: ls₂ →
        (Label.dispatches ls₁).map Dispatch.index = List.range d.index ∧
        ∃ (t : Engine W × W) (c : Command) (now : Timestamp), d = dispatchOf t d.index c now ∧
          t.1.base = BaseState.recordAll {} (Label.batches ls₁) ∧
          Label.appliedEvents (Label.latestLife ls₁) =
            (Label.batches ls₁).map fun e => (e, t.1.application.mode.admits e.kind)) ∧
    (∀ {W : Type} {b : Blueprint W} {e : Engine W} {w₀ : W} {ls₁ ls₂ : List Label}
      {s₁ s₂ : Engine W × W}, b.Fresh → b.build = .ok e → Quiet e →
      e.application.TimeBlind → Blueprint.Session b w₀ ls₁ s₁ →
      Blueprint.Session b w₀ ls₂ s₂ → Label.sends ls₂ = Label.sends ls₁ →
      (Label.sends ls₁).length + 1 < UInt64.size → s₁.1.events.length ≤ unbounded →
      s₂.1.events.length ≤ unbounded → Drained s₁ → Drained s₂ →
      s₂.1.events.untimedEvents = s₁.1.events.untimedEvents ∧ s₂.1.base = s₁.1.base ∧
        s₂.2 = s₁.2) :=
  ⟨fun hrun hbound _ _ _ hsplit => hrun.sawBatches hbound hsplit,
    fun hfresh hb hquiet hblind h₁ h₂ hsends hfew hbound₁ hbound₂ hdrained₁ hdrained₂ =>
      Blueprint.Session.drained_agree hfresh hb hquiet hblind h₁ h₂ hsends hfew hbound₁ hbound₂
        hdrained₁ hdrained₂⟩

/-- An applier that counts the events it is handed. -/
def eventCounter : Applier Nat := { name := "count", apply := fun _ n => n + 1 }

/-- A blueprint over two empty logs with the counter for its applier and no other member. -/
def countingBlueprint : Blueprint Nat :=
  { commands := {}, events := {}, applier := some eventCounter }

/-- The host's send of an empty command of payload type 1 from the source `x`, at clock
reading 0. -/
def sampleSend (s : Engine Nat × Nat) (x : SourceId) : Engine Nat × Nat :=
  ({ s.1 with outbox := (s.1.outbox.send ⟨s.1.base, 0⟩ x 1 []).2 }, s.2)

/-- The counting engine is quiet, and its counter reads no clock. -/
theorem countingBlueprint_quiet {e : Engine Nat} (hb : countingBlueprint.build = .ok e) :
    Quiet e ∧ e.application.TimeBlind := by
  unfold Blueprint.build at hb
  cases hb
  refine ⟨⟨rfl, fun p hp => ?_, fun slot hslot => ?_, fun input hinput => ?_⟩, fun ap hap => ?_⟩
  · simp [countingBlueprint, Blueprint.installed, Chain.compose] at hp
  · simp at hslot
  · simp [countingBlueprint, Blueprint.installed, Chain.compose] at hinput
  · simp [countingBlueprint, Blueprint.installed, Chain.compose, Application.compose] at hap
    obtain ⟨rfl, -⟩ := hap
    intro ev w
    rfl

/-- Two sessions of the counting blueprint in which the host sends a command of source 1 and
one of source 2. The first sends both, then the dispatcher takes them; the second dispatches
the first, restarts, then sends and dispatches the second. Once drained, both hold the same two
events, base state and count. -/
theorem processing_is_independent_of_scheduling_of_samples :
    ∃ (ls₁ ls₂ : List Label) (s₁ s₂ : Engine Nat × Nat),
      Blueprint.Session countingBlueprint 0 ls₁ s₁ ∧
      Blueprint.Session countingBlueprint 0 ls₂ s₂ ∧
      (ls₁.filter Label.isStart).length = 1 ∧ (ls₂.filter Label.isStart).length = 2 ∧
      Label.sends ls₂ = Label.sends ls₁ ∧ Drained s₁ ∧ Drained s₂ ∧
      s₁.1.events.length = 2 ∧ s₁.2 = 2 ∧
      (∀ ls₀ d ls', ls₂ = ls₀ ++ .dispatched d :: ls' →
        (Label.dispatches ls₀).map Dispatch.index = List.range d.index ∧
        ∃ (t : Engine Nat × Nat) (c : Command) (now : Timestamp), d = dispatchOf t d.index c now ∧
          t.1.base = BaseState.recordAll {} (Label.batches ls₀) ∧
          Label.appliedEvents (Label.latestLife ls₀) =
            (Label.batches ls₀).map fun e => (e, t.1.application.mode.admits e.kind)) ∧
      s₂.1.events.untimedEvents = s₁.1.events.untimedEvents ∧ s₂.1.base = s₁.1.base ∧
        s₂.2 = s₁.2 := by
  obtain ⟨e, hb⟩ : ∃ e, countingBlueprint.build = .ok e := ⟨_, rfl⟩
  obtain ⟨hquiet, hblind⟩ := countingBlueprint_quiet hb
  have hfresh : countingBlueprint.Fresh := ⟨rfl, rfl, rfl, rfl, rfl⟩
  -- the calls of both schedules go through, computed once
  have hcheck : countingBlueprint.build.toOption.any (fun e =>
      let a₀ := (exec Engine.start 0 (e, 0)).2
      let a₃ := (exec dispatchRound 0 (sampleSend (sampleSend a₀ 1) 2)).2
      let a₄ := (exec dispatchRound 0 a₃).2
      let b₂ := (exec dispatchRound 0 (sampleSend a₀ 1)).2
      let e' : Engine Nat :=
        { e with
          events := b₂.1.events
          outbox := { e.outbox with commands := b₂.1.outbox.commands } }
      let b₃ := (exec Engine.start 0 (e', 0)).2
      let b₅ := (exec dispatchRound 0 (sampleSend b₃ 2)).2
      (exec Engine.start 0 (e, 0)).1 == .ok { started := true } &&
      (exec dispatchRound 0 (sampleSend (sampleSend a₀ 1) 2)).1 == .ok (some 2) &&
      (exec dispatchRound 0 a₃).1 == .ok (some 2) &&
      (a₄.1.outbox.commands.peek? a₄.1.config.dispatcherPoller).isNone &&
      a₄.1.events.length == 2 && a₄.2 == 2 &&
      (exec dispatchRound 0 (sampleSend a₀ 1)).1 == .ok (some 2) &&
      (exec Engine.start 0 (e', 0)).1 ==
        .ok { started := true, replayedEvents := 1, replayEnd := 1, commandsScanned := 1 } &&
      (exec dispatchRound 0 (sampleSend b₃ 2)).1 == .ok (some 2) &&
      (b₅.1.outbox.commands.peek? b₅.1.config.dispatcherPoller).isNone &&
      b₅.1.events.length == 2) = true := by
    decide +kernel
  rw [hb] at hcheck
  simp only [Except.toOption, Option.any_some, Bool.and_eq_true, beq_iff_eq,
    Option.isNone_iff_eq_none] at hcheck
  obtain ⟨⟨⟨⟨⟨⟨⟨⟨⟨⟨hstart₀, hround₁⟩, hround₂⟩, hdrained₁⟩, hlen₁⟩, hcount₁⟩, hround₃⟩, hrestart⟩,
    hround₄⟩, hdrained₂⟩, hlen₂⟩ := hcheck
  -- both schedules start alike and send the command of source 1
  obtain ⟨evs₀, hst₀⟩ := starts_of_exec (Prod.ext hstart₀ rfl)
  have h₀ := Blueprint.Session.start 0 hb (Prod.ext hstart₀ rfl) hst₀.records
  have h₁ : Blueprint.Session countingBlueprint 0 _ (sampleSend (exec Engine.start 0 (e, 0)).2 1) :=
    h₀.hostSent 0 1 1 []
  -- the first sends the second command, then dispatches both
  have h₂ : Blueprint.Session countingBlueprint 0 _
      (sampleSend (sampleSend (exec Engine.start 0 (e, 0)).2 1) 2) := h₁.hostSent 0 2 1 []
  obtain ⟨ls₃, h₃, hsends₃, hstarts₃⟩ := h₂.dispatched hround₁
  obtain ⟨ls₄, h₄, hsends₄, hstarts₄⟩ := h₃.dispatched hround₂
  -- the second dispatches the first command, restarts, then sends and dispatches the second
  obtain ⟨ls₅, h₅, hsends₅, hstarts₅⟩ := h₁.dispatched hround₃
  obtain ⟨evs₆, hst₆⟩ := starts_of_exec (Prod.ext hrestart rfl)
  have h₆ := Blueprint.Session.restart 0 h₅ (Blueprint.build_logs hb _ _) (Prod.ext hrestart rfl)
    hst₆.records
  have h₇ : Blueprint.Session countingBlueprint 0 _ (sampleSend _ 2) := h₆.hostSent 0 2 1 []
  obtain ⟨ls₈, h₈, hsends₈, hstarts₈⟩ := h₇.dispatched hround₄
  have hnone : ∀ {ls : List Label}, (∀ l ∈ ls, l.isStart = false) → ls.filter Label.isStart = [] :=
    fun hls => List.filter_eq_nil_iff.2 fun l hl => by simp [hls l hl]
  have hsends : Label.sends (startLabels e.application.mode evs₀ ++ [.sent ⟨0, 1, 1, []⟩] ++
      [.sent ⟨0, 2, 1, []⟩] ++ ls₃ ++ ls₄) = [⟨0, 1, 1, []⟩, ⟨0, 2, 1, []⟩] := by
    simp only [Label.sends_append, sends_startLabels, Label.sends_sent, hsends₃, hsends₄,
      List.append_nil, List.nil_append]
    rfl
  have hsends₂ : ∀ mode, Label.sends (startLabels e.application.mode evs₀ ++
      [.sent ⟨0, 1, 1, []⟩] ++ ls₅ ++ startLabels mode evs₆ ++ [.sent ⟨0, 2, 1, []⟩] ++ ls₈) =
        [⟨0, 1, 1, []⟩, ⟨0, 2, 1, []⟩] := by
    intro mode
    simp only [Label.sends_append, sends_startLabels, Label.sends_sent, hsends₅, hsends₈,
      List.append_nil, List.nil_append]
    rfl
  refine ⟨_, _, _, _, h₄, h₈, ?_, ?_, (hsends₂ _).trans hsends.symm, hdrained₁, hdrained₂, hlen₁,
    hcount₁, processing_is_independent_of_scheduling.1 (h₈.run hfresh) (by rw [hlen₂]; decide),
    processing_is_independent_of_scheduling.2 hfresh hb hquiet hblind h₄ h₈
      ((hsends₂ _).trans hsends.symm) (by rw [hsends]; decide) (by rw [hlen₁]; decide)
      (by rw [hlen₂]; decide) hdrained₁ hdrained₂⟩
  · simp [startLabels, Label.isStart, Function.comp_def, List.filter_cons, List.filter_append,
      List.filter_map, hnone hstarts₃, hnone hstarts₄]
  · simp [startLabels, Label.isStart, Function.comp_def, List.filter_cons, List.filter_append,
      List.filter_map, hnone hstarts₅, hnone hstarts₈]

end Engine

end EventSourcing
