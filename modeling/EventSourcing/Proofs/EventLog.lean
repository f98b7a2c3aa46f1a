import EventSourcing.Proofs.Replay

/-!
# The shape of the event log

Over a run, restarts included, the event log is the batches of the commands the dispatcher
processed, one batch per command and in command-log order, and the event at index `i` has
sequence `i + 1`. The batch of a command is sealed from the transaction its processor chain
left, which started empty (`event_log_concatenates_batches`):

* when a processor aborted, failed or panicked, one rollback event, whatever was routed;
* otherwise, when nothing was routed, one auto-commit event;
* otherwise the routed events in routing order, each with the payload type and payload it was
  routed with, indexed from zero, all intermediary but the last, which commits.

Every event of a batch carries its command's source and sequence and the dispatch's time.
-/

namespace EventSourcing

namespace Dispatch

variable {d : Dispatch} {result : Except Halt Unit} {router : Router}

/-- The events of a batch belong to the transaction's command and carry the dispatch's
time. -/
theorem mem_batch (h : d.chain = some (result, router)) {e : Event} (he : e ∈ d.batch) :
    e.source = router.command.source ∧ e.sourceSequence = router.command.sequence ∧
      e.time = d.time := by
  rw [batch_of_chain_some h] at he
  simpa using Router.mem_finish he

/-- A transaction that a processor aborted, or whose chain failed or panicked, appends one
rollback event. -/
theorem batch_of_rollback (h : d.chain = some (result, router))
    (habort : result ≠ .ok () ∨ router.aborted = true) :
    d.batch =
      [{ source := router.command.source, sourceSequence := router.command.sequence,
         sequence := d.first, index := 0, kind := .rollback, time := d.time, payloadType := 0,
         payload := [] }] := by
  rw [batch_of_chain_some h]
  exact Router.finish_close_of_aborted (fun hok => habort.resolve_left fun hne => hne hok) d.first
    d.time

/-- A transaction that went through and routed nothing appends one auto-commit event. -/
theorem batch_of_autoCommit (h : d.chain = some (.ok (), router)) (hopen : router.aborted = false)
    (hnil : router.routed = []) :
    d.batch =
      [{ source := router.command.source, sourceSequence := router.command.sequence,
         sequence := d.first, index := 0, kind := .autoCommit, time := d.time, payloadType := 0,
         payload := [] }] := by
  rw [batch_of_chain_some h, Router.close_ok, Router.finish_of_routed_nil hopen hnil]

/-- A transaction that went through and routed events appends them in routing order. -/
theorem batch_of_routed (h : d.chain = some (.ok (), router)) (hopen : router.aborted = false)
    (hne : router.routed ≠ []) :
    d.batch.map (fun e => Routed.mk e.payloadType e.payload) = router.routed ∧
      ∀ j e, d.batch[j]? = some e → e.index = j.toUInt32 ∧
        e.kind = if j + 1 = router.routed.length then .commit else .intermediary := by
  rw [batch_of_chain_some h, Router.close_ok]
  exact Router.finish_of_routed hopen hne d.first d.time

end Dispatch

namespace Engine

variable {W : Type} {D : String} {ls : List Label} {s : Engine W × W}

/-- The event log of a run is the batches of the processed commands the dispatcher passed, in
command-log order and numbered from 1, each sealed from the transaction its chain left. -/
theorem event_log_concatenates_batches (hrun : Run D ls s)
    (hbound : s.1.events.length ≤ unbounded) :
    s.1.events.messages.toList = ((Label.dispatches ls).flatMap Dispatch.batch).map Event.encode ∧
      (∀ i e, ((Label.dispatches ls).flatMap Dispatch.batch)[i]? = some e →
        e.sequence.toNat = i + 1) ∧
      (Label.dispatches ls).map Dispatch.index = List.range s.1.dispatcherAt ∧
      ∀ d ∈ Label.dispatches ls,
        (d.chain.isSome = true ↔ d.last < d.command.sequence) ∧
        (d.chain = none → d.batch = []) ∧
        ∀ result router, d.chain = some (result, router) →
          (Router.begin d.command).Extends router ∧
          (∀ e ∈ d.batch, e.source = d.command.source ∧
            e.sourceSequence = d.command.sequence ∧ e.time = d.time) ∧
          ((result ≠ .ok () ∨ router.aborted = true) →
            d.batch =
              [{ source := d.command.source, sourceSequence := d.command.sequence,
                 sequence := d.first, index := 0, kind := .rollback, time := d.time,
                 payloadType := 0, payload := [] }]) ∧
          (result = .ok () → router.aborted = false → router.routed = [] →
            d.batch =
              [{ source := d.command.source, sourceSequence := d.command.sequence,
                 sequence := d.first, index := 0, kind := .autoCommit, time := d.time,
                 payloadType := 0, payload := [] }]) ∧
          (result = .ok () → router.aborted = false → router.routed ≠ [] →
            d.batch.map (fun e => Routed.mk e.payloadType e.payload) = router.routed ∧
            ∀ j e, d.batch[j]? = some e → e.index = j.toUInt32 ∧
              e.kind = if j + 1 = router.routed.length then .commit else .intermediary) := by
  have h := hrun.consistent hbound
  refine ⟨h.events, fun i e hi => h.sequence_toNat hbound hi, h.indexes, fun d hd => ?_⟩
  -- every dispatch of the run is the dispatcher's decision on some state
  obtain ⟨t, i, c, at_, rfl⟩ := hrun.dispatchOf_of_mem hd
  refine ⟨chain_dispatchOf_isSome, Dispatch.batch_of_chain_none, fun result router hchain => ?_⟩
  have hext := extends_of_chain_dispatchOf hchain
  have hcommand : router.command = c := hext.command_eq
  refine ⟨hext, fun e he => hcommand ▸ Dispatch.mem_batch hchain he,
    fun habort => by rw [Dispatch.batch_of_rollback hchain habort, hcommand]; rfl, ?_, ?_⟩
  · rintro rfl hopen hnil
    rw [Dispatch.batch_of_autoCommit hchain hopen hnil, hcommand]
    rfl
  · rintro rfl hopen hne
    exact Dispatch.batch_of_routed hchain hopen hne

/-- The event log of the sample run, whose dispatcher took three commands and appended two
events, has that shape. -/
theorem event_log_concatenates_batches_of_sample :
    ∃ (ls : List Label) (s : Engine Unit × Unit), Run "dispatcher" ls s ∧
      s.1.events.length ≤ unbounded ∧ s.1.dispatcherAt = 3 ∧ s.1.events.length = 2 ∧
      (s.1.events.messages.toList =
          ((Label.dispatches ls).flatMap Dispatch.batch).map Event.encode ∧
        (∀ i e, ((Label.dispatches ls).flatMap Dispatch.batch)[i]? = some e →
          e.sequence.toNat = i + 1) ∧
        (Label.dispatches ls).map Dispatch.index = List.range s.1.dispatcherAt ∧
        ∀ d ∈ Label.dispatches ls,
          (d.chain.isSome = true ↔ d.last < d.command.sequence) ∧
          (d.chain = none → d.batch = []) ∧
          ∀ result router, d.chain = some (result, router) →
            (Router.begin d.command).Extends router ∧
            (∀ e ∈ d.batch, e.source = d.command.source ∧
              e.sourceSequence = d.command.sequence ∧ e.time = d.time) ∧
            ((result ≠ .ok () ∨ router.aborted = true) →
              d.batch =
                [{ source := d.command.source, sourceSequence := d.command.sequence,
                   sequence := d.first, index := 0, kind := .rollback, time := d.time,
                   payloadType := 0, payload := [] }]) ∧
            (result = .ok () → router.aborted = false → router.routed = [] →
              d.batch =
                [{ source := d.command.source, sourceSequence := d.command.sequence,
                   sequence := d.first, index := 0, kind := .autoCommit, time := d.time,
                   payloadType := 0, payload := [] }]) ∧
            (result = .ok () → router.aborted = false → router.routed ≠ [] →
              d.batch.map (fun e => Routed.mk e.payloadType e.payload) = router.routed ∧
              ∀ j e, d.batch[j]? = some e → e.index = j.toUInt32 ∧
                e.kind = if j + 1 = router.routed.length then .commit else .intermediary)) := by
  obtain ⟨ls, s, hrun, -, hlen, -, hat, -⟩ := Run.sample
  have hbound : s.1.events.length ≤ unbounded := by rw [hlen]; decide
  exact ⟨ls, s, hrun, hbound, hat, hlen, event_log_concatenates_batches hrun hbound⟩

end Engine

end EventSourcing
