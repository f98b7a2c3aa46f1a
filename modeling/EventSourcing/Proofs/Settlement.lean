import Mathlib
import EventSourcing.Proofs.Balances

/-!
# A ledger engine settles every command it dispatches

A ledger engine holds the ledger's processor and applier alone, with the default handlers
(`Ledger.Shaped`). A round of such an engine, started and with its applier at the end of the
event log, takes the next command and decides it against the balance the applier last stored for
the command's source. A command above its source's watermark appends the events its transaction
seals to under the ledger's verdict, and the applier takes them at once: the source's balance is
then the last balance routed, or stays, and no other balance changes. A duplicate appends nothing
and changes nothing (`Ledger.dispatch_settles_balance`).

Two facts carry it: the ledger's processor and the default handlers leave the ledger alone while
the command is processed (`Ledger.world_dispatchNext`), and a transaction seals to no more events
than its command has payload bytes and two, so the applier, which takes a word's count of events
after each dispatch, takes the whole batch (`Ledger.Shaped.batch_short`).
-/

namespace EventSourcing

namespace Ledger

open Engine

/-- What a ledger engine holds: the ledger's processor and applier alone, and the default
handlers. -/
structure Shaped (e : Engine Ledger) : Prop where
  processors : e.processors.members = [processor Focus.whole]
  handlers : e.handlers = {}
  appliers : e.application.appliers.members = [applier Focus.whole]

variable {s t : Engine Ledger × Ledger} {now : Timestamp} {m : Stored} {c : Command}

/-- The dispatcher's step leaves the ledger alone: so do the ledger's processor and the default
handlers of a duplicate and of a halt. -/
theorem world_dispatchNext (hshape : Shaped s.1)
    (hpeek : s.1.outbox.commands.peek? s.1.config.dispatcherPoller = some m)
    (hdecode : Command.decode m.bytes = .ok c) : (exec dispatchNext now s).2.2 = s.2 := by
  have hchain := (seal_runAll c s.1.base s.2 0 0).1
  rw [← hshape.processors] at hchain
  exact world_dispatchNext_of_chain hshape.handlers hpeek hdecode hchain

/-- The batch of a command above its source's watermark is what its transaction seals to under
the ledger's verdict against its source's balance. -/
theorem batch_of_new (hshape : Shaped s.1) (hnew : ¬c.sequence ≤ s.1.base.lastCommand c.source)
    (i : Nat) (now : Timestamp) :
    Seals c (dispatchOf s i c now).batch (verdict c (s.2.balance c.source)) := by
  have hseal := (seal_runAll c s.1.base s.2 (s.1.events.length + 1).toUInt64 now).2
  rw [batch_dispatchOf, if_neg hnew, hshape.processors]
  exact hseal

/-- The batch of a command whose payload a record's 32-bit size field declares is short enough
for the applier to take whole. -/
theorem Shaped.batch_short (hshape : Shaped s.1) (hlen : c.payload.length < 2 ^ 32) (i : Nat)
    (now : Timestamp) : (dispatchOf s i c now).batch.length ≤ unbounded := by
  by_cases hdup : c.sequence ≤ s.1.base.lastCommand c.source
  · rw [batch_dispatchOf, if_pos hdup]
    exact Nat.zero_le _
  have hcount : (dispatchOf s i c now).batch.length =
      (sealed (verdict c (s.2.balance c.source))).length := by
    rw [← (batch_of_new hshape hdup i now).2, List.length_map]
  have hsealed := length_sealed (verdict c (s.2.balance c.source))
  -- a committed verdict routes at most a balance per payload byte, and one
  have hrouted : ((verdict c (s.2.balance c.source)).map List.length).getD 0 ≤
      c.payload.length + 1 := by
    cases hv : verdict c (s.2.balance c.source) with
    | none => exact Nat.zero_le _
    | some bs => exact length_of_verdict hv
  unfold unbounded
  omega

/-- A round of a started ledger engine with the applier at the end of the log appends the batch
of the command it took, and the applier delivers that batch to the ledger as it was. -/
theorem round_delivers (hshape : Shaped s.1) (hs : Started s)
    (hat : s.1.applierAt = s.1.events.length)
    (hpeek : s.1.outbox.commands.peek? s.1.config.dispatcherPoller = some m)
    (hdecode : Command.decode m.bytes = .ok c) {n : Nat}
    (hround : exec dispatchRound now s = (.ok (some n), t)) :
    t.1.events.readEvents = s.1.events.readEvents ++ (dispatchOf s m.index c now).batch ∧
      t.2 = s.1.application.deliverAll (dispatchOf s m.index c now).batch s.2 := by
  obtain ⟨s₁, hd, hrep, -, hworld⟩ := dispatchRound_replayed hs hat hpeek hdecode hround
    (hshape.batch_short (Command.length_payload_of_decode hdecode) m.index now)
  refine ⟨MessageLog.readEvents_of_appended ?_ fun e he => (mem_batch_dispatchOf he).2.2.2, ?_⟩
  · rw [hrep.messages]
    exact (hd.appended hat).2
  · rw [hrep.world, hd.application, hworld, world_dispatchNext hshape hpeek hdecode]

/-- Every command a ledger engine dispatches settles its source's balance as the ledger decides
it. Take a round of a started ledger engine whose applier stands at the end of the event log, and
let `b` be the balance of the command's source. A command above its source's watermark appends the
events its transaction seals to under the ledger's verdict against `b`: one rollback when the
ledger rolls the command back (a payload that is not UTF-8, `panic` or `fail`, an amount that does
not read, a withdrawal `b` does not cover, a batch whose running balance drops below zero, an
unknown payload type), one auto-commit for a note, and otherwise a balance event per balance
routed, in order, all intermediary but the last. The applier takes them at once: the source's
balance is then the last balance routed, or stays `b`, and no other balance changes. A command at
or below its source's watermark appends nothing and changes no balance. -/
theorem dispatch_settles_balance (hshape : Shaped s.1) (hs : Started s)
    (hat : s.1.applierAt = s.1.events.length)
    (hpeek : s.1.outbox.commands.peek? s.1.config.dispatcherPoller = some m)
    (hdecode : Command.decode m.bytes = .ok c) {n : Nat}
    (hround : exec dispatchRound now s = (.ok (some n), t)) :
    (s.1.base.lastCommand c.source < c.sequence →
      ∃ evs, t.1.events.readEvents = s.1.events.readEvents ++ evs ∧
        Seals c evs (verdict c (s.2.balance c.source)) ∧
        ∀ x, t.2.balance x = if x = c.source then
          ((verdict c (s.2.balance c.source)).bind List.getLast?).getD (s.2.balance c.source)
          else s.2.balance x) ∧
    (c.sequence ≤ s.1.base.lastCommand c.source →
      t.1.events.readEvents = s.1.events.readEvents ∧ t.2 = s.2) := by
  obtain ⟨hevents, hworld⟩ := round_delivers hshape hs hat hpeek hdecode hround
  refine ⟨fun hnew => ?_, fun hdup => ?_⟩
  · have hseal := batch_of_new hshape (UInt64.not_le.2 hnew) m.index now
    refine ⟨_, hevents, hseal, fun x => ?_⟩
    rw [hworld, deliverAll_seal hshape.appliers hseal, balance_settle]
  · -- a duplicate is skipped: its batch is empty
    rw [batch_dispatchOf, if_pos hdup, List.append_nil] at hevents
    rw [batch_dispatchOf, if_pos hdup, Application.deliverAll_nil] at hworld
    exact ⟨hevents, hworld⟩

/-- A deposit of 5, dispatched by a started ledger engine over an empty event log while source
1 holds 7, commits and takes the balance of source 1 to 12. -/
theorem dispatch_settles_balance_of_deposit :
    ∃ (s t : Engine Ledger × Ledger) (m : Stored) (c : Command) (n : Nat),
      Shaped s.1 ∧ Started s ∧ s.1.applierAt = s.1.events.length ∧
      s.1.outbox.commands.peek? s.1.config.dispatcherPoller = some m ∧
      Command.decode m.bytes = .ok c ∧ exec dispatchRound 0 s = (.ok (some n), t) ∧
      c.payloadType = deposit ∧ s.2.balance c.source = 7 ∧ t.2.balance c.source = 12 ∧
      (s.1.base.lastCommand c.source < c.sequence →
        ∃ evs, t.1.events.readEvents = s.1.events.readEvents ++ evs ∧
          Seals c evs (verdict c (s.2.balance c.source)) ∧
          ∀ x, t.2.balance x = if x = c.source then
            ((verdict c (s.2.balance c.source)).bind List.getLast?).getD (s.2.balance c.source)
            else s.2.balance x) ∧
      (c.sequence ≤ s.1.base.lastCommand c.source →
        t.1.events.readEvents = s.1.events.readEvents ∧ t.2 = s.2) := by
  let c : Command :=
    { source := 1, sequence := 1, time := 0, payloadType := deposit
      payload := Bytes.ofString "deposit:5" }
  let e : Engine Ledger :=
    { config := {}
      events := {}
      outbox := { commands := { messages := #[c.encode] }, inFlight := .withCapacity 64 }
      processors := ⟨[processor Focus.whole], []⟩
      handlers := {}
      application := ⟨{}, ⟨[applier Focus.whole], []⟩, .all⟩
      publisher := ⟨[], 3, 2147483647⟩
      inputs := {}
      extensionInputs := {}
      status := { started := true } }
  let l : Ledger := ({} : Ledger).setBalance 1 7
  have hpeek : e.outbox.commands.peek? e.config.dispatcherPoller = some ⟨0, c.encode⟩ := rfl
  have hdecode : Command.decode c.encode = .ok c := by decide +kernel
  have hround : (exec dispatchRound 0 (e, l)).1 = .ok (some 2) := by decide +kernel
  have hrun : exec dispatchRound 0 (e, l) = (.ok (some 2), (exec dispatchRound 0 (e, l)).2) :=
    Prod.ext hround rfl
  have hafter : (exec dispatchRound 0 (e, l)).2.2.balance 1 = 12 := by decide +kernel
  exact ⟨(e, l), _, _, c, 2, ⟨rfl, rfl, rfl⟩, rfl, rfl, hpeek, hdecode, hrun, rfl, by decide,
    hafter, dispatch_settles_balance ⟨rfl, rfl, rfl⟩ rfl rfl hpeek hdecode hrun⟩

end Ledger

end EventSourcing
