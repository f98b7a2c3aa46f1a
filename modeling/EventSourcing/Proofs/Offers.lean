import Mathlib
import EventSourcing.Proofs.Runs

/-!
# What outputs are offered

An engine's calls as its outputs see them. A step leaves the outputs alone, or is the round of
one publishing call: it gives every output a turn, then offers outputs the events at their
pollers, one offer after another; the turns and the offers are the labels. An
output that takes or ignores its event has its count of attempts start again and moves on; one
that fails with attempts left has the attempt counted; one that fails at the last attempt of
its budget is reported to the output-error handler and moves on.

A step that leaves the outputs alone (`OutputsKept`) keeps the settings and the publisher, only
appends to the event log, and moves no output's poller, save one the applier shares. The start
and every call of the host but those that publish are such steps: `outputsKept_start`,
`outputsKept_send`, `outputsKept_dispatch` and their kind.
-/

namespace EventSourcing

/-- The failure an answer given at attempt `attempt` stands for: the output's error, or its
request to retry. Taking or ignoring the event is no failure. -/
def failureOf (attempt : Nat) (answer : Except Failure Ack) : Option Failure :=
  (({} : PublishReport).answer attempt answer).2

/-- Whatever the report so far, an answer stands for the same failure. -/
theorem PublishReport.answer_snd (r : PublishReport) (attempt : Nat)
    (answer : Except Failure Ack) : (r.answer attempt answer).2 = failureOf attempt answer := by
  rcases answer with f | ack
  · rfl
  · cases ack <;> rfl

/-- An offer of an event to an output, with what came of it. -/
structure Offer where
  /-- The output's place among the publisher's slots. -/
  slot : Nat
  /-- The event's place in the event log. -/
  index : Nat
  event : Event
  /-- What the output was told with the event, the attempt among it. -/
  context : OutputContext
  answer : Except Failure Ack
  /-- The attempts and the failure the output-error handler was told of, when the output gave
  the event up. -/
  report : Option (Nat × Failure)

namespace Offer

/-- The output is done with the event: it took or ignored it, or gave it up. -/
def finishes (o : Offer) : Bool :=
  (failureOf o.context.attempt o.answer).isNone || o.report.isSome

/-- The offered event is the one a log of records holds at the offer's index. -/
def ReadIn (o : Offer) (records : List Bytes) : Prop :=
  records[o.index]?.map Event.decode = some (.ok o.event)

theorem ReadIn.mono {o : Offer} {records records' : List Bytes} (h : o.ReadIn records)
    (hp : records <+: records') : o.ReadIn records' := by
  obtain ⟨b, hb, hread⟩ := Option.map_eq_some_iff.1 h
  obtain ⟨rest, rfl⟩ := hp
  unfold ReadIn
  rw [List.getElem?_append_left (List.getElem?_eq_some_iff.1 hb).1, hb]
  exact congrArg some hread

end Offer

/-- What a step of an engine shows its outputs. -/
inductive Delivery where
  /-- A publishing call begins: every output has a turn. -/
  | turn
  | offered (o : Offer)

namespace Delivery

/-- The offers among the labels, in order. -/
def offers (ds : List Delivery) : List Offer :=
  ds.filterMap fun
    | offered o => some o
    | turn => none

@[simp]
theorem offers_nil : offers [] = [] := rfl

@[simp]
theorem offers_cons_turn (ds : List Delivery) : offers (turn :: ds) = offers ds := rfl

@[simp]
theorem offers_cons_offered (o : Offer) (ds : List Delivery) :
    offers (offered o :: ds) = o :: offers ds := rfl

@[simp]
theorem offers_append (ds ds' : List Delivery) : offers (ds ++ ds') = offers ds ++ offers ds' :=
  List.filterMap_append

@[simp]
theorem offers_map_offered (os : List Offer) : offers (os.map offered) = os := by
  induction os with
  | nil => rfl
  | cons o os ih => rw [List.map_cons, offers_cons_offered, ih]

end Delivery

namespace MessageLog

variable {log log' : MessageLog} {p q : String}

theorem messages_advance (h : log.advance p = .ok log') : log'.messages = log.messages := by
  rw [(advance_eq_ok h).2, messages_setPosition]

theorem position_advance_of_ne (h : log.advance p = .ok log') (hq : q ≠ p) :
    log'.position q = log.position q := by
  rw [(advance_eq_ok h).2, position_setPosition_of_ne _ _ hq]

theorem position_advance (h : log.advance p = .ok log') :
    log'.position p = log.position p + 1 := by
  rw [(advance_eq_ok h).2, position_setPosition]

/-- A poller that points at a message can move on. -/
theorem advance_of_peek? {m : Stored} (h : log.peek? p = some m) :
    log.advance p = .ok (log.setPosition p (log.position p + 1)) := by
  have hlt : log.position p < log.length := by
    by_contra hle
    rw [peek?_eq_none.2 (Nat.le_of_not_lt hle)] at h
    cases h
  unfold advance
  simp [Nat.not_le.2 hlt]

/-- Appending a batch, whole or in part, adds messages at the end and moves no poller. -/
theorem appendEach_snd (log : MessageLog) :
    ∀ ms, ∃ more : Array Bytes,
      (log.appendEach ms).2 = { log with messages := log.messages ++ more }
  | [] => ⟨#[], by simp [appendEach]⟩
  | m :: rest => by
    unfold appendEach
    split
    · exact ⟨#[], by simp⟩
    · rename_i i log₁ hm
      obtain ⟨more, hmore⟩ := appendEach_snd log₁ rest
      rw [hmore, (append_eq_ok hm).2]
      exact ⟨#[m] ++ more, by simp⟩

theorem appendBatch_snd (log : MessageLog) (ms : List Bytes) :
    ∃ more : Array Bytes, (log.appendBatch ms).2 = { log with messages := log.messages ++ more } := by
  unfold appendBatch
  split
  · split
    · rename_i log₁ _ heach
      have hok := appendEach_eq_ok heach
      exact ⟨ms.toArray, by rw [hok]⟩
    · rename_i e log₁ heach
      obtain ⟨more, hmore⟩ := appendEach_snd log ms
      rw [heach] at hmore
      exact ⟨more, hmore⟩
  · split
    · exact ⟨#[], by simp⟩
    · split
      · exact ⟨#[], by simp⟩
      · exact ⟨ms.toArray, rfl⟩

end MessageLog

namespace Publisher

variable {W : Type} (p : Publisher W) (i : Nat) (slot : OutputSlot W) (n : Nat)

/-- The publisher with the output of `slot` at slot `i`, at `n` attempts. -/
def setAttempts : Publisher W :=
  { p with slots := p.slots.set i { slot with attempts := n } }

@[simp]
theorem retryBudget_setAttempts : (p.setAttempts i slot n).retryBudget = p.retryBudget := rfl

theorem getElem?_setAttempts_of_ne {j : Nat} (hj : j ≠ i) :
    (p.setAttempts i slot n).slots[j]? = p.slots[j]? :=
  List.getElem?_set_ne (Ne.symm hj)

variable {p i slot}

theorem getElem?_setAttempts_self (h : p.slots[i]? = some slot) :
    (p.setAttempts i slot n).slots[i]? = some { slot with attempts := n } := by
  have hi : i < p.slots.length := (List.getElem?_eq_some_iff.1 h).1
  exact List.getElem?_set_self hi

/-- Counting attempts keeps the pollers. -/
theorem pollers_setAttempts (h : p.slots[i]? = some slot) :
    (p.setAttempts i slot n).pollers = p.pollers := by
  obtain ⟨hi, hslot⟩ := List.getElem?_eq_some_iff.1 h
  have hi' : i < (p.slots.map (·.poller)).length := by simpa using hi
  have hpoller : ({ slot with attempts := n } : OutputSlot W).poller =
      (p.slots.map (·.poller))[i] := by
    simp [hslot]
  unfold pollers setAttempts
  rw [List.map_set, hpoller, List.set_getElem_self]

theorem mem_slots_setAttempts {x : OutputSlot W} (hx : x ∈ (p.setAttempts i slot n).slots) :
    x ∈ p.slots ∨ x = { slot with attempts := n } :=
  List.mem_or_eq_of_mem_set hx

end Publisher

namespace Engine

variable {W : Type}

/-- Two states between which the outputs were left alone: the settings and the publisher are
the same, the event log was only appended to, and no output's poller moved, save one that the
applier shares. -/
structure OutputsKept (s s' : Engine W × W) : Prop where
  config : s'.1.config = s.1.config
  publisher : s'.1.publisher = s.1.publisher
  grows : s.1.events.messages.toList <+: s'.1.events.messages.toList
  positions : ∀ q ∈ s.1.publisher.pollers, q ≠ s.1.config.applierPoller →
    s'.1.events.position q = s.1.events.position q

namespace OutputsKept

theorem refl (s : Engine W × W) : OutputsKept s s :=
  ⟨rfl, rfl, List.prefix_refl _, fun _ _ _ => rfl⟩

theorem trans {s₁ s₂ s₃ : Engine W × W} (h : OutputsKept s₁ s₂) (h' : OutputsKept s₂ s₃) :
    OutputsKept s₁ s₃ where
  config := h'.config.trans h.config
  publisher := h'.publisher.trans h.publisher
  grows := h.grows.trans h'.grows
  positions q hq ha := by
    rw [h'.positions q (h.publisher ▸ hq) (h.config ▸ ha), h.positions q hq ha]

instance : Std.Refl (OutputsKept (W := W)) := ⟨refl⟩

instance : Trans (OutputsKept (W := W)) OutputsKept OutputsKept := ⟨trans⟩

variable {s s' : Engine W × W}

/-- A step that leaves the settings, the publisher and the event log alone. -/
theorem of_events (hc : s'.1.config = s.1.config) (hp : s'.1.publisher = s.1.publisher)
    (he : s'.1.events = s.1.events) : OutputsKept s s' :=
  ⟨hc, hp, he ▸ List.prefix_refl _, fun _ _ _ => by rw [he]⟩

/-- The applier's poller moving on leaves the outputs alone. -/
theorem of_advance (hc : s'.1.config = s.1.config) (hp : s'.1.publisher = s.1.publisher)
    (he : s.1.events.advance s.1.config.applierPoller = .ok s'.1.events) : OutputsKept s s' :=
  ⟨hc, hp, by rw [MessageLog.messages_advance he],
    fun _ _ hq => MessageLog.position_advance_of_ne he hq⟩

/-- The applier's poller moved to a place leaves the outputs alone. -/
theorem of_moveTo {n : Nat} (hc : s'.1.config = s.1.config) (hp : s'.1.publisher = s.1.publisher)
    (he : s.1.events.moveTo s.1.config.applierPoller n = .ok s'.1.events) : OutputsKept s s' := by
  obtain ⟨-, hmove⟩ := MessageLog.moveTo_eq_ok he
  refine ⟨hc, hp, ?_, fun _ _ hq => ?_⟩
  · rw [hmove, MessageLog.messages_setPosition]
  · rw [hmove, MessageLog.position_setPosition_of_ne _ _ hq]

/-- Messages appended at the end leave the outputs alone. -/
theorem of_append (hc : s'.1.config = s.1.config) (hp : s'.1.publisher = s.1.publisher)
    (he : ∃ more : Array Bytes,
      s'.1.events = { s.1.events with messages := s.1.events.messages ++ more }) :
    OutputsKept s s' := by
  obtain ⟨more, he⟩ := he
  exact ⟨hc, hp, by rw [he]; simp, fun _ _ _ => by rw [he]; rfl⟩

end OutputsKept


theorem outputsKept_applyNext : Relates OutputsKept (applyNext : EngineM W Bool) :=
  .applyNext (fun _ _ _ => .of_events rfl rfl rfl) (fun _ _ _ _ _ h => .of_advance rfl rfl h)
    (fun _ _ => .of_events rfl rfl rfl)

/-- Processing appends the batch, whole or in part, and leaves the outputs alone. -/
theorem outputsKept_process (c : Command) : Relates OutputsKept (process c : EngineM W Outcome) :=
  .process (fun _ _ => .of_events rfl rfl rfl)
    (fun _ _ => .of_append rfl rfl (MessageLog.appendBatch_snd _ _))
    (fun _ _ _ => .of_events rfl rfl rfl) c

theorem outputsKept_applyUpTo : ∀ limit, Relates OutputsKept (applyUpTo limit : EngineM W Nat)
  | 0 => .pure 0
  | limit + 1 => by
    rw [applyUpTo]
    refine .bind outputsKept_applyNext fun b => ?_
    split
    · exact .bind (outputsKept_applyUpTo limit) fun n => .pure (n + 1)
    · exact .pure 0

theorem outputsKept_apply (limit : Nat) : Relates OutputsKept (apply limit : EngineM W Nat) :=
  .bind .ensureStarted fun _ => outputsKept_applyUpTo limit

theorem outputsKept_dispatchNext : Relates OutputsKept (dispatchNext : EngineM W DispatchOutcome) :=
  .dispatchNext outputsKept_process (fun _ _ => .of_events rfl rfl rfl)
    (fun _ _ => .of_events rfl rfl rfl) (fun _ _ => .of_events rfl rfl rfl)

theorem outputsKept_dispatchRound : Relates OutputsKept (dispatchRound : EngineM W (Option Nat)) :=
  .dispatchRound outputsKept_dispatchNext (outputsKept_apply _) (fun _ _ => .of_events rfl rfl rfl)

theorem outputsKept_dispatchUpTo : ∀ limit, Relates OutputsKept (dispatchUpTo limit : EngineM W Nat)
  | 0 => .pure 0
  | limit + 1 => by
    rw [dispatchUpTo]
    refine .bind outputsKept_dispatchRound fun r => ?_
    cases r with
    | none => exact .pure 0
    | some work => exact .bind (outputsKept_dispatchUpTo limit) fun n => .pure (work + n)

theorem outputsKept_dispatch : Relates OutputsKept (dispatch : EngineM W Nat) :=
  .bind .ensureStarted fun _ => .bind .engine fun _ => outputsKept_dispatchUpTo _

theorem outputsKept_send (source : SourceId) (payloadType : PayloadType) (payload : Bytes) :
    Relates OutputsKept (send source payloadType payload : EngineM W UInt64) := by
  unfold send
  refine .bind .ensureStarted fun _ => .bind .engine fun _ => .bind .sendContext fun _ => ?_
  exact .bind (.modifyEngine _ fun _ => .of_events rfl rfl rfl) fun _ => .lift _ _

theorem outputsKept_nextSequence (source : SourceId) :
    Relates OutputsKept (nextSequence source : EngineM W UInt64) := by
  unfold nextSequence
  refine .bind .ensureStarted fun _ => .bind .engine fun _ => .bind .sendContext fun _ => ?_
  exact .bind (.modifyEngine _ fun _ => .of_events rfl rfl rfl) fun _ => .pure _

theorem outputsKept_pollInputs (extensions : Bool) :
    Relates OutputsKept (pollInputs extensions : EngineM W Nat) := by
  -- a poll changes the outbox and the application's state, and counts a failure
  have hpoll : ∀ work input, Relates OutputsKept (pollInput work input : EngineM W Nat) := by
    intro work input
    unfold pollInput
    refine .bind .sendContext fun ctx => .bind .world fun w => .bind .engine fun e => ?_
    refine .bind (.modify _ fun _ => .of_events rfl rfl rfl) fun _ => ?_
    split
    · exact .pure _
    refine .bind .engine fun e => .bind (.modifyWorld _ fun _ => .of_events rfl rfl rfl) fun _ => ?_
    exact .bind (.count _ fun _ => .of_events rfl rfl rfl) fun _ => .pure _
  unfold pollInputs
  exact .bind .engine fun _ => .foldlM hpoll _ 0

theorem outputsKept_scanCommands : Relates OutputsKept (scanCommands : EngineM W Unit) :=
  .scanCommands (fun _ _ => .of_events rfl rfl rfl) (fun _ _ => .of_events rfl rfl rfl)
    (fun _ _ => .of_events rfl rfl rfl)

/-- The start moves the applier's poller and replays; the outputs are left alone. -/
theorem outputsKept_start : Relates OutputsKept (start : EngineM W EngineStatus) :=
  .start (fun _ _ h => .of_moveTo rfl rfl h)
    (fun fuel => by rw [replayAll_eq_applyUpTo]; exact outputsKept_applyUpTo _)
    (fun _ _ _ => .of_events rfl rfl rfl) outputsKept_scanCommands

/-- The output held by `slot` at slot `i` of `s` is offered the event `ev` of the record `m` at
its poller, at the attempt after the last, with the context `ctx`; it answers `answer` and
leaves the application's state `w` and the outbox `o`. -/
structure Offering (s : Engine W × W) (i : Nat) (slot : OutputSlot W) (m : Stored) (ev : Event)
    (ctx : OutputContext) (answer : Except Failure Ack) (w : W) (o : Outbox) : Prop where
  held : s.1.publisher.slots[i]? = some slot
  peeked : s.1.events.peek? slot.poller = some m
  decoded : Event.decode m.bytes = .ok ev
  attempted : ctx.attempt = slot.attempts + 1
  answered : slot.output.publish ev ctx s.2 s.1.outbox = (answer, w, o)

/-- The event offered is the one the log holds at the index of the record peeked. -/
theorem Offering.readIn {s : Engine W × W} {i : Nat} {slot : OutputSlot W} {m : Stored}
    {ev : Event} {ctx : OutputContext} {answer : Except Failure Ack} {w : W} {o : Outbox}
    {E : MessageLog} (h : Offering s i slot m ev ctx answer w o)
    (hE : E.messages = s.1.events.messages) (r : Option (Nat × Failure)) :
    Offer.ReadIn ⟨i, m.index, ev, ctx, answer, r⟩ E.messages.toList := by
  obtain ⟨hindex, hbytes⟩ := MessageLog.peek?_eq_some.1 h.peeked
  show (E.messages.toList[m.index]?).map Event.decode = some (.ok ev)
  rw [hE, hindex, hbytes]
  exact congrArg some h.decoded

/-- One offer of an event to an output, and what came of it. -/
inductive Offered : Engine W × W → Offer → Engine W × W → Prop where
  /-- The output takes or ignores the event: its count of attempts starts again and its poller
  moves on. -/
  | taken {s i slot m ev ctx answer w o} {events : MessageLog}
      (h : Offering s i slot m ev ctx answer w o) (htaken : failureOf ctx.attempt answer = none)
      (hadvance : s.1.events.advance slot.poller = .ok events) :
      Offered s ⟨i, m.index, ev, ctx, answer, none⟩
        ({ s.1 with
            publisher := s.1.publisher.setAttempts i slot 0, outbox := o, events := events }, w)
  /-- The output fails the event with attempts left: the attempt is counted. -/
  | retried {s i slot m ev ctx answer w o} {f : Failure}
      (h : Offering s i slot m ev ctx answer w o) (hfailed : failureOf ctx.attempt answer = some f)
      (hleft : ctx.attempt < s.1.publisher.retryBudget) :
      Offered s ⟨i, m.index, ev, ctx, answer, none⟩
        ({ s.1 with publisher := s.1.publisher.setAttempts i slot ctx.attempt, outbox := o }, w)
  /-- The output fails the event at the last attempt of its budget: the output-error handler
  is told, the count of attempts starts again and the poller moves on. -/
  | gaveUp {s i slot m ev ctx answer w o} {f : Failure} {events : MessageLog}
      (h : Offering s i slot m ev ctx answer w o) (hfailed : failureOf ctx.attempt answer = some f)
      (hspent : s.1.publisher.retryBudget ≤ ctx.attempt)
      (hadvance : s.1.events.advance slot.poller = .ok events) :
      Offered s ⟨i, m.index, ev, ctx, answer, some (ctx.attempt, f)⟩
        ({ s.1 with
            publisher := s.1.publisher.setAttempts i slot 0, outbox := o, events := events },
          s.1.handlers.outputError slot.output.name ev ctx.attempt f w)

/-- Offers one after the other. -/
inductive Offers : Engine W × W → List Offer → Engine W × W → Prop where
  | refl (s : Engine W × W) : Offers s [] s
  | step {s s₁ s₂ : Engine W × W} {o : Offer} {os : List Offer} :
      Offered s o s₁ → Offers s₁ os s₂ → Offers s (o :: os) s₂

/-- The round of a publishing call: the outputs in turn, each offered events up to the
publishing limit, none past the last event applied. -/
def publishRound (e : Engine W) : EngineM W PublishReport :=
  (List.range e.publisher.slots.length).foldlM
    (fun report i => publishSlot i e.base.lastEvent e.status.replayEnd e.config.publishBatchLimit
      report) {}

/-- One step of an engine as its outputs see it, with what it shows them: a step that leaves
the outputs alone, or the whole round of one publishing call, which gives every output a turn
and then makes its offers. -/
inductive Deliver : Engine W × W → List Delivery → Engine W × W → Prop where
  | kept {s s' : Engine W × W} (h : OutputsKept s s') : Deliver s [] s'
  | round {s s' : Engine W × W} {os : List Offer} (now : Timestamp)
      (hround : (exec (publishRound s.1) now s).2 = s') (hoffers : Offers s os s') :
      Deliver s (.turn :: os.map .offered) s'

/-- Steps one after the other. -/
inductive Delivers : Engine W × W → List Delivery → Engine W × W → Prop where
  | refl (s : Engine W × W) : Delivers s [] s
  | step {s s₁ s₂ : Engine W × W} {ds ds' : List Delivery} :
      Deliver s ds s₁ → Delivers s₁ ds' s₂ → Delivers s (ds ++ ds') s₂

namespace Offers

theorem single {s s' : Engine W × W} {o : Offer} (h : Offered s o s') : Offers s [o] s' :=
  .step h (.refl s')

theorem trans {s₁ s₂ s₃ : Engine W × W} {os os' : List Offer} (h : Offers s₁ os s₂)
    (h' : Offers s₂ os' s₃) : Offers s₁ (os ++ os') s₃ := by
  induction h with
  | refl => exact h'
  | step ho _ ih => exact .step ho (ih h')

end Offers

namespace Delivers

theorem single {s s' : Engine W × W} {ds : List Delivery} (h : Deliver s ds s') :
    Delivers s ds s' := by
  simpa using Delivers.step h (.refl s')

theorem trans {s₁ s₂ s₃ : Engine W × W} {ds ds' : List Delivery} (h : Delivers s₁ ds s₂)
    (h' : Delivers s₂ ds' s₃) : Delivers s₁ (ds ++ ds') s₃ := by
  induction h with
  | refl => exact h'
  | step hd _ ih => simpa using Delivers.step hd (ih h')

end Delivers

namespace Offered

variable {s s' : Engine W × W} {o : Offer}

/-- An offer keeps the settings. -/
theorem config (h : Offered s o s') : s'.1.config = s.1.config := by
  cases h <;> rfl

/-- An offer keeps the budget. -/
theorem retryBudget (h : Offered s o s') :
    s'.1.publisher.retryBudget = s.1.publisher.retryBudget := by
  cases h <;> rfl

/-- An offer keeps the outputs' pollers. -/
theorem pollers (h : Offered s o s') : s'.1.publisher.pollers = s.1.publisher.pollers := by
  cases h with
  | taken h | retried h | gaveUp h => exact Publisher.pollers_setAttempts _ h.held

/-- An offer leaves the event log's records as they were. -/
theorem messages (h : Offered s o s') : s'.1.events.messages = s.1.events.messages := by
  cases h with
  | retried => rfl
  | taken _ _ hadvance | gaveUp _ _ _ hadvance => exact MessageLog.messages_advance hadvance

/-- The event offered is the one the log holds at its index. -/
theorem read (h : Offered s o s') : o.ReadIn s'.1.events.messages.toList := by
  have hmessages := h.messages
  cases h with
  | taken h | retried h | gaveUp h => exact h.readIn hmessages _

end Offered

namespace Offers

variable {s s' : Engine W × W} {os : List Offer}

theorem config (h : Offers s os s') : s'.1.config = s.1.config := by
  induction h with
  | refl => rfl
  | step ho _ ih => rw [ih, ho.config]

theorem retryBudget (h : Offers s os s') :
    s'.1.publisher.retryBudget = s.1.publisher.retryBudget := by
  induction h with
  | refl => rfl
  | step ho _ ih => rw [ih, ho.retryBudget]

theorem pollers (h : Offers s os s') : s'.1.publisher.pollers = s.1.publisher.pollers := by
  induction h with
  | refl => rfl
  | step ho _ ih => rw [ih, ho.pollers]

theorem messages (h : Offers s os s') : s'.1.events.messages = s.1.events.messages := by
  induction h with
  | refl => rfl
  | step ho _ ih => rw [ih, ho.messages]

/-- Every event offered is the one the log holds at its index. -/
theorem read (h : Offers s os s') : ∀ o ∈ os, o.ReadIn s'.1.events.messages.toList := by
  induction h with
  | refl => simp
  | step ho hrest ih =>
    rintro o (_ | ⟨_, ho'⟩)
    · rw [hrest.messages]
      exact ho.read
    · exact ih o ho'

end Offers

namespace Deliver

variable {s s' : Engine W × W} {ds : List Delivery}

/-- A step keeps the settings. -/
theorem config (h : Deliver s ds s') : s'.1.config = s.1.config := by
  cases h with
  | kept h => exact h.config
  | round _ _ hoffers => exact hoffers.config

/-- A step keeps the budget. -/
theorem retryBudget (h : Deliver s ds s') :
    s'.1.publisher.retryBudget = s.1.publisher.retryBudget := by
  cases h with
  | kept h => rw [h.publisher]
  | round _ _ hoffers => exact hoffers.retryBudget

/-- A step keeps the outputs' pollers. -/
theorem pollers (h : Deliver s ds s') : s'.1.publisher.pollers = s.1.publisher.pollers := by
  cases h with
  | kept h => rw [h.publisher]
  | round _ _ hoffers => exact hoffers.pollers

/-- A step only appends to the event log. -/
theorem grows (h : Deliver s ds s') :
    s.1.events.messages.toList <+: s'.1.events.messages.toList := by
  cases h with
  | kept h => exact h.grows
  | round _ _ hoffers => rw [hoffers.messages]

/-- Every event offered is the one the log holds at its index. -/
theorem read (h : Deliver s ds s') :
    ∀ o ∈ Delivery.offers ds, o.ReadIn s'.1.events.messages.toList := by
  cases h with
  | kept => simp
  | round _ _ hoffers =>
    rw [Delivery.offers_cons_turn, Delivery.offers_map_offered]
    exact hoffers.read

end Deliver

end Engine

end EventSourcing
