import EventSourcing.Proofs.Replay

/-!
# Each command is processed at most once

Over a run, restarts included, the dispatcher takes each command before its poller exactly
once, in log order. It runs the processor chain on a command exactly when the command's
sequence is above the highest sequence its source had earlier in the log (0 for none), and
otherwise skips it, appending nothing, with that highest sequence as the watermark it read.
A started engine's watermarks are then those highest sequences over the commands the
dispatcher passed (`dispatches_once_above_highest`).

The command log may hold any records that read as commands, whether senders or producers
outside the engine appended them.
-/

namespace EventSourcing

namespace Engine

variable {W : Type} {D : String} {ls : List Label} {s : Engine W × W}

/-- The dispatches of a run take the commands before the dispatcher's poller once each, in
log order, and process exactly those above their source's highest earlier sequence. -/
theorem dispatches_once_above_highest (hrun : Run D ls s)
    (hbound : s.1.events.length ≤ unbounded) :
    s.1.outbox.commands.messages.toList.map Command.decode =
        s.1.outbox.commands.readCommands.map .ok ∧
      (Label.dispatches ls).map Dispatch.index = List.range s.1.dispatcherAt ∧
      s.1.dispatcherAt ≤ s.1.outbox.commands.readCommands.length ∧
      (∀ d ∈ Label.dispatches ls,
        s.1.outbox.commands.readCommands[d.index]? = some d.command ∧
        d.last = Command.highest (s.1.outbox.commands.readCommands.take d.index)
          d.command.source ∧
        (d.chain.isSome = true ↔ d.last < d.command.sequence) ∧
        (d.chain = none → d.batch = [])) ∧
      (Started s → ∀ x, s.1.base.lastCommand x =
        Command.highest (s.1.outbox.commands.readCommands.take s.1.dispatcherAt) x) := by
  have h := hrun.consistent hbound
  refine ⟨MessageLog.map_decode_of_readable h.readable, h.indexes, h.passed_readCommands,
    fun d hd => ⟨h.command d hd, h.last d hd, ?_, Dispatch.batch_of_chain_none⟩, fun hs x => ?_⟩
  · -- every dispatch of the run is the dispatcher's decision on some state
    obtain ⟨t, i, c, at_, rfl⟩ := hrun.dispatchOf_of_mem hd
    exact chain_dispatchOf_isSome
  · rw [h.base hs]
    exact h.watermarks x

/-- The law holds of the sample run, whose dispatcher took three commands, the second a copy of
the first, and appended two events. -/
theorem dispatches_once_above_highest_of_sample :
    ∃ (ls : List Label) (s : Engine Unit × Unit), Run "dispatcher" ls s ∧
      s.1.events.length ≤ unbounded ∧ s.1.dispatcherAt = 3 ∧ s.1.events.length = 2 ∧
      (s.1.outbox.commands.messages.toList.map Command.decode =
          s.1.outbox.commands.readCommands.map .ok ∧
        (Label.dispatches ls).map Dispatch.index = List.range s.1.dispatcherAt ∧
        s.1.dispatcherAt ≤ s.1.outbox.commands.readCommands.length ∧
        (∀ d ∈ Label.dispatches ls,
          s.1.outbox.commands.readCommands[d.index]? = some d.command ∧
          d.last = Command.highest (s.1.outbox.commands.readCommands.take d.index)
            d.command.source ∧
          (d.chain.isSome = true ↔ d.last < d.command.sequence) ∧
          (d.chain = none → d.batch = [])) ∧
        (Started s → ∀ x, s.1.base.lastCommand x =
          Command.highest (s.1.outbox.commands.readCommands.take s.1.dispatcherAt) x)) := by
  obtain ⟨ls, s, hrun, -, hlen, -, hat, -⟩ := Run.sample
  have hbound : s.1.events.length ≤ unbounded := by rw [hlen]; decide
  exact ⟨ls, s, hrun, hbound, hat, hlen, dispatches_once_above_highest hrun hbound⟩

end Engine

end EventSourcing
