import Mathlib
import EventSourcing.Proofs.Counters
import EventSourcing.Proofs.Warehouse
import EventSourcing.Demo.Session

/-!
# The warehouse's engines under a host's calls

The inventory's blueprint builds engines of one shape (`Inventory.Shaped`): the warehouse's
processor and applier alone, the default handlers, reorder outputs that send from the loopback
source, and no inputs. The runs of such engines over one pair of logs (`Inventory.Run`) build
and rebuild them over the same logs, start them, make the host's calls on them and let producers
append commands.

A call is made of rounds of the dispatcher, sends, offers to the outputs, moves of their pollers
and counts. What such pieces need of an invariant of the engines to keep it is said once
(`Inventory.Invariant`): it reads what a round or a send changes only through its own round and
send lemmas, and holds of every engine that agrees with one where it holds on the rest. Every
call of a host is then shown to keep every such invariant (`HostCall.keeps`).

Two facts of the warehouse's members carry this: its processor seals a command to two events at
most, so a round of an engine whose applier is at the end of the log applies the whole batch
(`Warehouse.length_batch`), and the reorder output leaves the warehouse alone and sends only from
its loopback, only while none of the loopback's commands is in flight
(`Warehouse.publish_reorder`).
-/

namespace EventSourcing

namespace Router

/-- Routing adds the event after those routed so far. -/
theorem routed_route {r r' : Router} {pt : PayloadType} {p : Bytes} {i : Nat}
    (h : r.route pt p = .ok (i, r')) : r'.routed = r.routed ++ [⟨pt, p⟩] := by
  unfold route push at h
  repeat' split at h
  all_goals cases h
  rfl

/-- A sealed transaction has one event more than it routed at most. -/
theorem length_finish_le (r : Router) (first : UInt64) (time : Timestamp) :
    (r.finish first time).2.length ≤ r.routed.length + 1 := by
  unfold finish
  split
  · simp
  split
  · simp
  · simp

end Router

namespace InFlight

/-- Nothing of a source is in flight when the tracker holds none of its commands. -/
theorem countFor_eq_zero {t : InFlight} {x : SourceId} (h : t.holds x = false) :
    t.countFor x = 0 := by
  unfold holds at h
  unfold countFor
  rw [List.countP_eq_zero]
  simpa using h

end InFlight

namespace Warehouse

/-- Handling a command routes one event at most. -/
theorem handle_routed {h : Warehouse} {c : Command} {text : String} {r r' : Router}
    (hr : h.handle c text r = .ok r') : r'.routed.length ≤ r.routed.length + 1 := by
  obtain rfl | ⟨_, _, hroute⟩ := handle_ok hr
  · simp [Router.abort]
  · simp [Router.routed_route hroute]

/-- The warehouse's processor routes one event at most and leaves the warehouse alone. -/
theorem process_routed (c : Command) (base : BaseState) (w : Warehouse) (r : Router) :
    ((processor Focus.whole).process c base w r).2.1 = w ∧
      ((processor Focus.whole).process c base w r).2.2.routed.length ≤ r.routed.length + 1 := by
  simp only [processor]
  split
  · simp
  · split
    · exact ⟨rfl, handle_routed ‹_›⟩
    · simp

/-- A transaction that the warehouse's processor alone worked on seals to two events at most. -/
theorem length_batch (c : Command) (base : BaseState) (w : Warehouse) (first : UInt64)
    (time : Timestamp) :
    let chain := Processor.runAll c base [processor Focus.whole] w (Router.begin c)
    ((chain.2.2.close chain.1).finish first time).2.length ≤ 2 := by
  dsimp only
  refine Nat.le_trans (Router.length_finish_le _ _ _) ?_
  rw [Router.routed_close]
  have hroute := (process_routed c base w (Router.begin c)).2
  have haborted : (Router.begin c).aborted = false := rfl
  rw [Processor.runAll, if_neg (by simp [haborted])]
  generalize (processor Focus.whole).process c base w (Router.begin c) = a at hroute ⊢
  obtain ⟨result, w', r'⟩ := a
  -- the chain ends where the processor left the transaction
  have hle : r'.routed.length ≤ 1 := hroute
  rcases result with (_ | _) | _ <;> simp [Processor.runAll] <;> omega

/-- The reorder output leaves the warehouse alone, and sends nothing but a restock of the batch
of an item, from the loopback source, for a live stock event that shows the item below the
threshold, and only when no command of the loopback source is in flight. -/
theorem publish_reorder (threshold batch : Int64) (e : Event) (ctx : OutputContext)
    (w : Warehouse) (o : Outbox) :
    let r := (reorder threshold batch).publish e ctx w o
    r.2.1 = w ∧ (r.2.2 = o ∨
      e.payloadType = stockType ∧ ctx.replay = false ∧
        o.inFlight.countFor ctx.loopbackSource = 0 ∧
        ∃ text item level, Bytes.utf8? e.payload = some text ∧
          parseLine text = .ok (item, level) ∧ level < threshold ∧
          r.2.2 = (o.send ctx.send ctx.loopbackSource restock
            (Bytes.ofString (line item batch))).2) := by
  dsimp only
  simp only [reorder]
  split
  · exact ⟨rfl, .inl rfl⟩
  rename_i hlive
  simp only [Bool.or_eq_true, bne_iff_ne, ne_eq, not_or, Bool.not_eq_true] at hlive
  split
  · exact ⟨rfl, .inl rfl⟩
  rename_i text htext
  split
  · exact ⟨rfl, .inl rfl⟩
  rename_i item level hparse
  split
  · exact ⟨rfl, .inl rfl⟩
  rename_i hbelow
  split
  · exact ⟨rfl, .inl rfl⟩
  rename_i hfree
  have hcount := InFlight.countFor_eq_zero (Bool.not_eq_true _ ▸ hfree)
  -- the restock goes out through the loopback sender, whatever its answer
  split <;> rename_i hsend <;>
    exact ⟨rfl, .inr ⟨not_not.1 hlive.1, hlive.2, hcount, text, item, level, htext, hparse,
      Int64.not_le.1 hbelow, (congrArg Prod.snd hsend).symm⟩⟩

end Warehouse

namespace Engine

variable {W : Type}

/-- Two states with the same processors, handlers, outputs and inputs. -/
structure MembersKept (s t : Engine W × W) : Prop where
  processors : t.1.processors = s.1.processors
  handlers : t.1.handlers = s.1.handlers
  publisher : t.1.publisher = s.1.publisher
  inputs : t.1.inputs = s.1.inputs
  extensionInputs : t.1.extensionInputs = s.1.extensionInputs

instance : Std.Refl (MembersKept (W := W)) := ⟨fun _ => ⟨rfl, rfl, rfl, rfl, rfl⟩⟩

instance : Trans (MembersKept (W := W)) MembersKept MembersKept :=
  ⟨fun h h' => ⟨h'.processors.trans h.processors, h'.handlers.trans h.handlers,
    h'.publisher.trans h.publisher, h'.inputs.trans h.inputs,
    h'.extensionInputs.trans h.extensionInputs⟩⟩

/-- A start replays and scans; it changes no member of the engine. -/
theorem membersKept_start : Relates MembersKept (start : EngineM W EngineStatus) := by
  have hreplay : ∀ fuel, Relates MembersKept (replayAll fuel : EngineM W Nat) := fun fuel now s =>
    by
      rw [replayAll_eq_applyUpTo]
      have hfixed := fixed_applyUpTo fuel now s
      exact ⟨hfixed.processors, hfixed.handlers, (outputsKept_applyUpTo fuel now s).publisher,
        hfixed.inputs, hfixed.extensionInputs⟩
  exact .start (fun _ _ _ => ⟨rfl, rfl, rfl, rfl, rfl⟩) hreplay (fun _ _ _ => ⟨rfl, rfl, rfl, rfl, rfl⟩)
    (.scanCommands (fun _ _ => ⟨rfl, rfl, rfl, rfl, rfl⟩) (fun _ _ => ⟨rfl, rfl, rfl, rfl, rfl⟩)
      (fun _ _ => ⟨rfl, rfl, rfl, rfl, rfl⟩))

end Engine
namespace Inventory

open Engine

variable {L : SourceId} {s t : Engine Warehouse × Warehouse}

/-- What the inventory's blueprint builds, whatever the logs: the warehouse's processor and
applier alone, the default handlers, reorder outputs that send from the loopback source `L`, and
no inputs. -/
structure Shaped (L : SourceId) (e : Engine Warehouse) : Prop where
  processors : e.processors.members = [Warehouse.processor Focus.whole]
  handlers : e.handlers = {}
  appliers : e.application.appliers.members = [Warehouse.applier Focus.whole]
  outputs : ∀ slot ∈ e.publisher.slots,
    slot.output = Warehouse.reorder reorderThreshold reorderBatch
  loopback : e.publisher.loopbackSource = L
  inputs : e.inputs.members = []
  extensionInputs : e.extensionInputs.members = []

theorem shaped_build {config : EngineConfig} {commands events : MessageLog} {e : Engine Warehouse}
    (hb : (blueprint config commands events).build = .ok e) : Shaped config.loopbackSource e := by
  unfold Blueprint.build at hb
  cases hb
  refine ⟨rfl, rfl, rfl, fun slot hslot => ?_, rfl, rfl, rfl⟩
  simp at hslot
  rw [hslot]

/-- The shape is one of the members alone. -/
theorem Shaped.of_members {e e' : Engine Warehouse} (h : Shaped L e)
    (hprocessors : e'.processors = e.processors) (hhandlers : e'.handlers = e.handlers)
    (happliers : e'.application.appliers = e.application.appliers)
    (hpublisher : e'.publisher = e.publisher) (hinputs : e'.inputs = e.inputs)
    (hextensions : e'.extensionInputs = e.extensionInputs) : Shaped L e' where
  processors := by rw [hprocessors]; exact h.processors
  handlers := by rw [hhandlers]; exact h.handlers
  appliers := by rw [happliers]; exact h.appliers
  outputs := by rw [hpublisher]; exact h.outputs
  loopback := by rw [hpublisher]; exact h.loopback
  inputs := by rw [hinputs]; exact h.inputs
  extensionInputs := by rw [hextensions]; exact h.extensionInputs

/-- Setting the attempts of a reorder output keeps the shape. -/
theorem Shaped.setSlot {e : Engine Warehouse} (h : Shaped L e) {i n : Nat}
    {slot : OutputSlot Warehouse} (hslot : slot.output = Warehouse.reorder reorderThreshold reorderBatch) :
    Shaped L { e with publisher := e.publisher.setAttempts i slot n } where
  processors := h.processors
  handlers := h.handlers
  appliers := h.appliers
  outputs x hx := by
    rcases Publisher.mem_slots_setAttempts _ hx with hx | rfl
    · exact h.outputs x hx
    · exact hslot
  loopback := h.loopback
  inputs := h.inputs
  extensionInputs := h.extensionInputs

/-- A start keeps the shape. -/
theorem Shaped.start (h : Shaped L s.1) {now : Timestamp} {st : EngineStatus}
    (hstart : exec Engine.start now s = (.ok st, t)) : Shaped L t.1 := by
  obtain ⟨_, hst⟩ := starts_of_exec hstart
  have hmembers := membersKept_start.of_exec hstart
  exact h.of_members hmembers.processors hmembers.handlers hst.appliers hmembers.publisher
    hmembers.inputs hmembers.extensionInputs

/-- A round keeps the shape. -/
theorem Shaped.round (h : Shaped L s.1) (hs : Started s) {now : Timestamp} {n : Nat}
    (hr : exec dispatchRound now s = (.ok (some n), t)) : Shaped L t.1 := by
  obtain ⟨_, _, _, _, hd, hrep, -⟩ := dispatchRound_eq_some hs hr
  have hfixed := hd.fixed.trans hrep.fixed
  exact h.of_members hfixed.processors hfixed.handlers
    (hrep.appliers.trans (congrArg Application.appliers hd.application))
    (Relates.of_exec outputsKept_dispatchRound hr).publisher hfixed.inputs hfixed.extensionInputs

/-- The warehouse's processor seals a command to a batch short enough for the applier to take
whole. -/
theorem Shaped.batch_short (h : Shaped L s.1) (i : Nat) (c : Command) (now : Timestamp) :
    (dispatchOf s i c now).batch.length ≤ unbounded := by
  rw [batch_dispatchOf]
  split
  · exact Nat.zero_le _
  · dsimp only
    rw [h.processors]
    exact Nat.le_trans (Warehouse.length_batch c _ _ _ _) (by unfold unbounded; omega)

/-- What an invariant `I` of the warehouse's engines must be for every call of a host that sends
from the sources `allowed` to keep it. It gives the shape, a readable command log and, once
started, an applier at the end of the event log. A round keeps it; so does a send from an
allowed source, or from the loopback source while none of its commands is in flight; and it
holds of every engine that agrees with one where it holds on the configuration, the command
log, the tracker's entries, the maxima seen, the event log's records and the applier's place,
the base state, the status and the warehouse. -/
structure Invariant (L : SourceId) (allowed : SourceId → Prop)
    (I : Engine Warehouse × Warehouse → Prop) : Prop where
  shaped {s : Engine Warehouse × Warehouse} : I s → Shaped L s.1
  readable {s : Engine Warehouse × Warehouse} : I s → s.1.outbox.commands.Readable
  caughtUp {s : Engine Warehouse × Warehouse} : I s → Started s →
    s.1.applierAt = s.1.events.length
  congr {s t : Engine Warehouse × Warehouse} : I s → Shaped L t.1 → t.1.config = s.1.config →
    t.1.outbox.commands = s.1.outbox.commands →
    t.1.outbox.inFlight.entries = s.1.outbox.inFlight.entries →
    t.1.outbox.transient = s.1.outbox.transient → t.1.events.messages = s.1.events.messages →
    t.1.applierAt = s.1.applierAt → t.1.base = s.1.base → t.1.status = s.1.status → t.2 = s.2 →
    I t
  round {s t : Engine Warehouse × Warehouse} {m : Stored} {c : Command} {now : Timestamp} {n : Nat} :
    I s → Started s → s.1.outbox.commands.peek? s.1.config.dispatcherPoller = some m →
    Command.decode m.bytes = .ok c → exec dispatchRound now s = (.ok (some n), t) →
    Took s m c now t → I t
  send {s : Engine Warehouse × Warehouse} {ctx : SendContext} {x : SourceId} : I s → Started s →
    (allowed x ∨ x = L ∧ s.1.outbox.inFlight.countFor L = 0) →
    ∀ payloadType payload,
      I ({ s.1 with outbox := (s.1.outbox.send ctx x payloadType payload).2 }, s.2)

/-- `I` holds of a started `t` when it held of a started `s`. -/
def Kept (I : Engine Warehouse × Warehouse → Prop) (s t : Engine Warehouse × Warehouse) : Prop :=
  I s → Started s → I t ∧ Started t

section Keeping

variable {I : Engine Warehouse × Warehouse → Prop}

instance : Std.Refl (Kept I) := ⟨fun _ h hs => ⟨h, hs⟩⟩

instance : Trans (Kept I) (Kept I) (Kept I) :=
  ⟨fun h h' hg hs => h' (h hg hs).1 (h hg hs).2⟩

end Keeping

/-- Running `m` on a started engine where `I` holds leaves it started with `I`, when it ends
without a fatal error. -/
def Keeps (I : Engine Warehouse × Warehouse → Prop) {α : Type} (m : EngineM Warehouse α) : Prop :=
  ∀ now s, I s → Started s → (∀ e, (exec m now s).1 = .error e → e.isFatal = false) →
    I (exec m now s).2 ∧ Started (exec m now s).2

namespace Invariant

variable {allowed : SourceId → Prop} {I : Engine Warehouse × Warehouse → Prop}

/-- Counting keeps an invariant. -/
theorem count (hI : Invariant L allowed I) (h : I s) (f : EngineCounters → EngineCounters) :
    I ({ s.1 with counters := f s.1.counters }, s.2) :=
  hI.congr h ((hI.shaped h).of_members rfl rfl rfl rfl rfl rfl) rfl rfl rfl rfl rfl rfl rfl rfl
    rfl

end Invariant

namespace Keeps

variable {allowed : SourceId → Prop} {I : Engine Warehouse × Warehouse → Prop} {α β : Type}
  {x : EngineM Warehouse α}

theorem of_relates (h : Relates (Kept I) x) : Keeps I x :=
  fun now s hg hs _ => h now s hg hs

/-- The pieces of a call keep `I`; a piece that fails fails the call with its error. -/
theorem bind {f : α → EngineM Warehouse β} (hx : Keeps I x) (hf : ∀ a, Keeps I (f a)) :
    Keeps I (x >>= f) := by
  intro now s hg hs hfatal
  rw [exec_bind] at hfatal ⊢
  cases hr : (exec x now s).1 with
  | error e =>
    simp only [hr] at hfatal ⊢
    exact hx now s hg hs fun e' he' => by
      rw [hr] at he'
      cases he'
      exact hfatal e rfl
  | ok a =>
    simp only [hr] at hfatal ⊢
    obtain ⟨hg₁, hs₁⟩ := hx now s hg hs fun e he => by rw [hr] at he; cases he
    exact hf a now _ hg₁ hs₁ hfatal

/-- A cycle counted whether it fails or not keeps `I` as its steps do. -/
theorem tryCatch_count (hI : Invariant L allowed I) (hx : Keeps I x)
    (g : EngineCounters → EngineCounters) :
    Keeps I (tryCatch x fun err => do Engine.count g; throw err) := by
  intro now s hg hs hfatal
  rw [exec_tryCatch] at hfatal ⊢
  cases hr : (exec x now s).1 with
  | ok a =>
    simp only [hr] at hfatal ⊢
    exact hx now s hg hs fun e he => by rw [hr] at he; cases he
  | error e =>
    simp only [hr, exec_bind, exec_count, exec_throw] at hfatal ⊢
    obtain ⟨hg₁, hs₁⟩ := hx now s hg hs fun e' he' => by
      rw [hr] at he'
      cases he'
      exact hfatal e rfl
    exact ⟨hI.count hg₁ g, hs₁⟩

end Keeps

namespace Invariant

variable {allowed : SourceId → Prop} {I : Engine Warehouse × Warehouse → Prop}

/-- A round keeps an invariant: on a started engine it fails only fatally, and the warehouse's
processor seals batches short enough for the applier to take whole. -/
theorem keeps_dispatchRound (hI : Invariant L allowed I) :
    Keeps I (dispatchRound : EngineM Warehouse (Option Nat)) := by
  intro now s hg hs hfatal
  cases hr : exec dispatchRound now s with
  | mk r s' =>
  rw [hr] at hfatal
  dsimp only
  cases r with
  | error e =>
    have hf := dispatchRound_error_isFatal hs (congrArg Prod.fst hr)
    rw [hfatal e rfl] at hf
    cases hf
  | ok o =>
    cases o with
    | none =>
      obtain ⟨-, rfl⟩ := Prod.mk.inj ((dispatchRound_unchanged (congrArg Prod.fst hr)).symm.trans hr)
      exact ⟨hg, hs⟩
    | some n =>
      obtain ⟨m, c, hpeek, hdecode⟩ := dispatchRound_taken (congrArg Prod.fst hr)
      have hshort := (hI.shaped hg).batch_short m.index c now
      have ht := took_of_caughtUp hs (hI.readable hg) (hI.caughtUp hg hs) hpeek hdecode hr hshort
      refine ⟨hI.round hg hs hpeek hdecode hr ht, ?_⟩
      unfold Started
      rw [ht.fixed.status]
      exact hs

theorem keeps_dispatchUpTo (hI : Invariant L allowed I) :
    ∀ limit, Keeps I (dispatchUpTo limit : EngineM Warehouse Nat)
  | 0 => .of_relates (.pure 0)
  | limit + 1 => by
    rw [dispatchUpTo]
    refine .bind hI.keeps_dispatchRound fun r => ?_
    cases r with
    | none => exact .of_relates (.pure 0)
    | some work => exact .bind (hI.keeps_dispatchUpTo limit) fun n => .of_relates (.pure _)

theorem keeps_dispatch (hI : Invariant L allowed I) : Keeps I (dispatch : EngineM Warehouse Nat) :=
  .bind (.of_relates .ensureStarted) fun _ => .bind (.of_relates .engine) fun _ =>
    hI.keeps_dispatchUpTo _

/-- With the applier at the end of the event log, applying changes nothing. -/
theorem kept_apply (hI : Invariant L allowed I) (limit : Nat) :
    Relates (Kept I) (apply limit : EngineM Warehouse Nat) :=
  fun now s hg hs => by
    rw [exec_apply_of_started hs, exec_applyUpTo_of_caughtUp (hI.caughtUp hg hs) limit]
    exact ⟨hg, hs⟩

/-- The host sends from the allowed sources. -/
theorem kept_send (hI : Invariant L allowed I) {x : SourceId} (hx : allowed x)
    (payloadType : PayloadType) (payload : Bytes) :
    Relates (Kept I) (Engine.send x payloadType payload : EngineM Warehouse UInt64) :=
  fun now s hg hs => by
    rw [exec_send_of_started hs]
    exact ⟨hI.send hg hs (.inl hx) payloadType payload, hs⟩

theorem kept_nextSequence (hI : Invariant L allowed I) (x : SourceId) :
    Relates (Kept I) (nextSequence x : EngineM Warehouse UInt64) :=
  fun now s hg hs => by
    rw [exec_nextSequence_of_started hs]
    exact ⟨hI.congr hg ((hI.shaped hg).of_members rfl rfl rfl rfl rfl rfl) rfl rfl rfl rfl rfl rfl
      rfl rfl rfl, hs⟩

/-- The warehouse's engine has no inputs to poll. -/
theorem kept_pollInputs (hI : Invariant L allowed I) (extensions : Bool) :
    Relates (Kept I) (pollInputs extensions : EngineM Warehouse Nat) := by
  unfold pollInputs
  refine .engine_bind fun now s hg hs => ?_
  have hnone : (if extensions then s.1.extensionInputs else s.1.inputs).members = [] := by
    cases extensions
    · exact (hI.shaped hg).inputs
    · exact (hI.shaped hg).extensionInputs
  dsimp only
  rw [hnone]
  exact ⟨hg, hs⟩

/-- Counting an attempt at a reorder output keeps an invariant. -/
theorem kept_setSlot (hI : Invariant L allowed I) {i n : Nat} {slot : OutputSlot Warehouse}
    (hslot : slot.output = Warehouse.reorder reorderThreshold reorderBatch) :
    Relates (Kept I) (setSlot i { slot with attempts := n } : EngineM Warehouse Unit) := by
  unfold setSlot
  exact .modifyEngine _ fun t hg hs =>
    ⟨hI.congr hg ((hI.shaped hg).setSlot hslot) rfl rfl rfl rfl rfl rfl rfl rfl rfl, hs⟩

/-- Offering an event to a reorder output keeps an invariant: the output leaves the warehouse
alone and sends from `L` only when nothing of `L` is in flight. -/
theorem kept_offer (hI : Invariant L allowed I) {i : Nat} {slot : OutputSlot Warehouse}
    {m : Stored} {ev : Event} {replayEnd : Nat} {report : PublishReport}
    (hslot : slot.output = Warehouse.reorder reorderThreshold reorderBatch) :
    Relates (Kept I) (offer i slot m ev replayEnd report : EngineM Warehouse _) := by
  intro now s hg hs
  unfold offer
  simp only [exec_bind, exec_engine, setSlot, exec_modifyEngine, exec_sendContext, exec_world,
    exec_modify]
  generalize hctx : (OutputContext.mk _ _ _ _) = ctx
  have hsend : ctx.send = ⟨s.1.base, now⟩ := by
    rw [← hctx]
    rfl
  have hloop : ctx.loopbackSource = L := by
    rw [← hctx]
    exact (hI.shaped hg).loopback
  obtain ⟨hworld, hsent⟩ :=
    Warehouse.publish_reorder reorderThreshold reorderBatch ev ctx s.2 s.1.outbox
  rw [← hslot] at hworld hsent
  generalize slot.output.publish ev ctx s.2 s.1.outbox = a at hworld hsent ⊢
  obtain ⟨answer, w, o⟩ := a
  cases hworld
  have hshape := (hI.shaped hg).setSlot hslot (i := i) (n := slot.attempts + 1)
  -- the outbox the output leaves keeps the invariant
  have hg₁ : I ({ s.1 with
      publisher := s.1.publisher.setAttempts i slot (slot.attempts + 1), outbox := o }, s.2) := by
    rcases hsent with ho | ⟨_, _, hfree, _, _, _, _, _, _, ho⟩
    · cases ho
      exact hI.congr hg hshape rfl rfl rfl rfl rfl rfl rfl rfl rfl
    · cases ho
      rw [hsend]
      exact hI.congr (hI.send hg hs (.inr ⟨hloop, hloop ▸ hfree⟩) _ _)
        (hshape.of_members rfl rfl rfl rfl rfl rfl) rfl rfl rfl rfl rfl rfl rfl rfl rfl
  rcases report.answer (slot.attempts + 1) answer with ⟨r', _ | f⟩
  · exact ⟨hg₁, hs⟩
  · dsimp only
    split
    · exact ⟨hg₁, hs⟩
    · -- the default handlers leave the warehouse alone when an output fails
      simp only [exec_bind, exec_modifyWorld, exec_pure]
      exact ⟨hI.congr hg₁ ((hI.shaped hg₁).of_members rfl rfl rfl rfl rfl rfl) rfl rfl rfl rfl rfl
        rfl rfl rfl (by rw [(hI.shaped hg).handlers]), hs⟩

/-- Publishing to a reorder output keeps an invariant: it offers events, counts attempts and
moves the output's poller, which is not the applier's, standing at the end of the log. -/
theorem kept_publishSlot (hI : Invariant L allowed I) (i : Nat) (lastApplied : UInt64)
    (replayEnd : Nat) :
    ∀ limit report, Relates (Kept I)
      (publishSlot i lastApplied replayEnd limit report : EngineM Warehouse PublishReport)
  | 0, report => .pure report
  | limit + 1, report => by
    rw [publishSlot]
    refine .engine_bind fun now s hg hs => ?_
    split
    · exact ⟨hg, hs⟩
    rename_i slot hslot
    have hout := (hI.shaped hg).outputs slot (List.mem_of_getElem? hslot)
    split
    · exact ⟨hg, hs⟩
    refine Relates.bind (R := Kept I) (.lift _ _) (fun ev => ?_) now s hg hs
    split
    · exact .pure _
    refine .bind (hI.kept_offer hout) fun r => ?_
    split
    · exact .pure _
    refine .bind (hI.kept_setSlot hout) fun _ => .engine_bind fun now t hg hs => ?_
    cases hadvance : t.1.events.advance slot.poller with
    | error err =>
      simp only [exec_bind, exec_lift_error]
      exact ⟨hg, hs⟩
    | ok events =>
      simp only [exec_bind, exec_lift_ok, exec_modifyEngine]
      have hne : t.1.config.applierPoller ≠ slot.poller := by
        intro heq
        have hlt := (MessageLog.advance_eq_ok hadvance).1
        rw [← heq] at hlt
        have hat := hI.caughtUp hg hs
        unfold applierAt at hat
        omega
      exact hI.kept_publishSlot i lastApplied replayEnd limit _ now _
        (hI.congr hg ((hI.shaped hg).of_members rfl rfl rfl rfl rfl rfl) rfl rfl rfl rfl
          (MessageLog.messages_advance hadvance) (MessageLog.position_advance_of_ne hadvance hne)
          rfl rfl rfl) hs

theorem kept_publish (hI : Invariant L allowed I) :
    Relates (Kept I) (publish : EngineM Warehouse Nat) := by
  unfold publish
  refine .bind .ensureStarted fun _ => .engine_bind fun now s => ?_
  split
  · exact Relates.pure _ now s
  · exact (Relates.bind
      (Relates.foldlM (fun report i => hI.kept_publishSlot i _ _ _ report) _ _)
      fun _ => .bind (.count _ fun t hg hs => ⟨hI.count hg _, hs⟩) fun _ => .pure _) now s

theorem keeps_runSteps (hI : Invariant L allowed I) : Keeps I (runSteps : EngineM Warehouse Nat) := by
  unfold runSteps
  exact .bind (.of_relates (hI.kept_pollInputs false)) fun _ => .bind hI.keeps_dispatch fun _ =>
    .bind (.of_relates .engine) fun _ => .bind (.of_relates (hI.kept_apply _)) fun _ =>
    .bind (.of_relates hI.kept_publish) fun _ =>
    .bind (.of_relates (hI.kept_pollInputs true)) fun _ => .of_relates (.pure _)

theorem keeps_runCycle (hI : Invariant L allowed I) : Keeps I (runCycle : EngineM Warehouse Nat) := by
  unfold runCycle
  exact .bind (.of_relates .ensureStarted) fun _ =>
    .tryCatch_count hI (.bind hI.keeps_runSteps fun _ =>
      .bind (.of_relates (.count _ fun t hg hs => ⟨hI.count hg _, hs⟩)) fun _ =>
        .of_relates (.pure _)) _

theorem keeps_runCycles (hI : Invariant L allowed I) :
    ∀ budget total, Keeps I (runCycles budget total : EngineM Warehouse Nat)
  | 0, total => .of_relates (.pure total)
  | budget + 1, total => by
    rw [runCycles]
    refine .bind hI.keeps_runCycle fun work => ?_
    split
    · exact .of_relates (.pure _)
    · exact hI.keeps_runCycles budget _

end Invariant

/-- The calls a host makes on a started warehouse engine, sending only from the sources
`allowed`. -/
inductive HostCall (allowed : SourceId → Prop) : {α : Type} → EngineM Warehouse α → Prop where
  | send (source : SourceId) (hsource : allowed source) (payloadType : PayloadType)
      (payload : Bytes) : HostCall allowed (Engine.send source payloadType payload)
  | nextSequence (source : SourceId) : HostCall allowed (Engine.nextSequence source)
  | runCycle : HostCall allowed Engine.runCycle
  | runUntilIdle : HostCall allowed Engine.runUntilIdle
  | dispatch : HostCall allowed Engine.dispatch
  | apply (limit : Nat) : HostCall allowed (Engine.apply limit)
  | publish : HostCall allowed Engine.publish

/-- Every call of a host sending from the sources `allowed` keeps every invariant of the
warehouse's engines for those sources. -/
theorem HostCall.keeps {allowed : SourceId → Prop} {I : Engine Warehouse × Warehouse → Prop}
    (hI : Invariant L allowed I) {α : Type} {m : EngineM Warehouse α} (hm : HostCall allowed m) :
    Keeps I m := by
  cases hm with
  | send source hsource payloadType payload =>
    exact .of_relates (hI.kept_send hsource payloadType payload)
  | nextSequence source => exact .of_relates (hI.kept_nextSequence source)
  | runCycle => exact hI.keeps_runCycle
  | runUntilIdle => exact .bind (.of_relates .engine) fun _ => hI.keeps_runCycles _ 0
  | dispatch => exact hI.keeps_dispatch
  | apply limit => exact .of_relates (hI.kept_apply limit)
  | publish => exact .of_relates hI.kept_publish

/-- The states the inventory's engines reach over one pair of logs, from two empty ones: the
host builds an engine with the warehouse `w₀`, drops it for another over the same logs with
`w₀` again, starts it and makes calls on it that end without a fatal error, sending only from
the sources `allowed`, and producers outside append commands of those sources only. -/
inductive Run (config : EngineConfig) (allowed : SourceId → Prop) (w₀ : Warehouse) :
    Engine Warehouse × Warehouse → Prop where
  | build {e : Engine Warehouse} (hb : (blueprint config {} {}).build = .ok e) :
      Run config allowed w₀ (e, w₀)
  | rebuild {s : Engine Warehouse × Warehouse} {e : Engine Warehouse}
      (hrun : Run config allowed w₀ s)
      (hb : (blueprint config s.1.outbox.commands s.1.events).build = .ok e) :
      Run config allowed w₀ (e, w₀)
  | start {s s' : Engine Warehouse × Warehouse} {st : EngineStatus} (now : Timestamp)
      (hrun : Run config allowed w₀ s) (hstart : exec Engine.start now s = (.ok st, s')) :
      Run config allowed w₀ s'
  | call {α : Type} {m : EngineM Warehouse α} {s : Engine Warehouse × Warehouse}
      (now : Timestamp) (hrun : Run config allowed w₀ s) (hs : Started s)
      (hm : HostCall allowed m) (hnf : ∀ e, (exec m now s).1 = .error e → e.isFatal = false) :
      Run config allowed w₀ (exec m now s).2
  | append {s : Engine Warehouse × Warehouse} {bytes : Bytes} {c : Command} {i : Nat}
      {log : MessageLog} (hrun : Run config allowed w₀ s) (hdecode : Command.decode bytes = .ok c)
      (hsource : allowed c.source) (happend : s.1.outbox.commands.append bytes = .ok (i, log)) :
      Run config allowed w₀ ({ s.1 with outbox := { s.1.outbox with commands := log } }, s.2)

/-- A host step the runs admit without a producer: a start, or a call that sends only from the
sources `allowed`. -/
def Hosted (allowed : SourceId → Prop) : Engine.HostStep → Prop
  | .append _ => False
  | .send source _ _ => allowed source
  | _ => True

namespace Run

variable {config : EngineConfig} {allowed : SourceId → Prop} {w₀ : Warehouse}
  {s s' : Engine Warehouse × Warehouse} {now : Timestamp}

theorem afterCall {α : Type} {m : EngineM Warehouse α} (hrun : Run config allowed w₀ s)
    (hm : HostCall allowed m) (h : Engine.HostStep.afterCall m now s = some s') :
    Run config allowed w₀ s' := by
  obtain ⟨hs, hnf, rfl⟩ := Engine.HostStep.afterCall_eq_some h
  exact .call now hrun hs hm hnf

/-- A hosted step that goes through extends the run. -/
theorem take {step : Engine.HostStep} (hrun : Run config allowed w₀ s)
    (hstep : Hosted allowed step) (h : step.take now s = some s') : Run config allowed w₀ s' := by
  cases step with
  | append => exact hstep.elim
  | start =>
    obtain ⟨st, hstart⟩ := Engine.HostStep.take_start_eq_some h
    exact .start now hrun hstart
  | send source payloadType payload =>
    exact hrun.afterCall (.send source hstep payloadType payload) h
  | nextSequence source => exact hrun.afterCall (.nextSequence source) h
  | runCycle => exact hrun.afterCall .runCycle h
  | runUntilIdle => exact hrun.afterCall .runUntilIdle h
  | dispatch => exact hrun.afterCall .dispatch h
  | apply limit => exact hrun.afterCall (.apply limit) h
  | publish => exact hrun.afterCall .publish h

theorem takeAll {steps : List Engine.HostStep} (hrun : Run config allowed w₀ s)
    (hsteps : ∀ step ∈ steps, Hosted allowed step)
    (h : Engine.HostStep.takeAll now steps s = some s') : Run config allowed w₀ s' := by
  induction steps generalizing s with
  | nil => cases h; exact hrun
  | cons step steps ih =>
    obtain ⟨s₁, h₁, h₂⟩ := Option.bind_eq_some_iff.1 h
    exact ih (hrun.take (hsteps step (List.mem_cons_self ..)) h₁)
      (fun st hst => hsteps st (List.mem_cons_of_mem _ hst)) h₂

end Run

/-! ## A sample session -/

/-- The host starts the engine, restocks 3 bolts and orders 2 from source 1, dispatches both,
and publishes: the reorder output sees the stock fall to 1, below its threshold, and sends a
restock of its own. -/
def restockSteps : List Engine.HostStep :=
  [.start, .send 1 Warehouse.restock (Bytes.ofString "bolt:3"),
    .send 1 Warehouse.order (Bytes.ofString "bolt:2"), .dispatch, .publish]

/-- Where the sample session ends, on the engine built with the default settings over two
empty logs. -/
def restockEnd : Option (Engine Warehouse × Warehouse) :=
  (blueprint {} {} {}).build.toOption.bind fun e =>
    Engine.HostStep.takeAll 0 restockSteps (e, {})

/-- The sample session is a run from two empty logs, hosted from every source but the
loopback: the dispatcher took both commands, one bolt is left, and the reorder output's restock
is in flight. -/
theorem Run.restock_sample :
    ∃ s, Run {} (· ≠ ({} : EngineConfig).loopbackSource) {} s ∧ Started s ∧
      s.1.dispatcherAt = 2 ∧ s.2.level "bolt" = 1 ∧
      s.1.outbox.inFlight.countFor ({} : EngineConfig).loopbackSource = 1 := by
  have hcheck : restockEnd.any (fun s => s.1.status.started && s.1.dispatcherAt == 2 &&
      s.2.level "bolt" == 1 &&
      s.1.outbox.inFlight.countFor ({} : EngineConfig).loopbackSource == 1) = true := by
    decide +kernel
  obtain ⟨s, hend, hfacts⟩ := (Option.any_eq_true _ _).1 hcheck
  obtain ⟨e, hb⟩ : ∃ e, (blueprint {} {} {}).build = .ok e := ⟨_, rfl⟩
  rw [restockEnd, hb] at hend
  change Engine.HostStep.takeAll 0 restockSteps (e, {}) = some s at hend
  have hsteps : ∀ step ∈ restockSteps, Hosted (· ≠ ({} : EngineConfig).loopbackSource) step := by
    intro step hstep
    simp only [restockSteps, List.mem_cons, List.not_mem_nil, or_false] at hstep
    rcases hstep with rfl | rfl | rfl | rfl | rfl <;> simp [Hosted]
  simp only [Bool.and_eq_true, beq_iff_eq] at hfacts
  obtain ⟨⟨⟨hs, hat⟩, hlevel⟩, hcount⟩ := hfacts
  exact ⟨s, (Run.build hb).takeAll hsteps hend, hs, hat, hlevel, hcount⟩

end Inventory

end EventSourcing
