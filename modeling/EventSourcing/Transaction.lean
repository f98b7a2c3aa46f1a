import EventSourcing.Record.Basic
import EventSourcing.Failure

/-!
# Transactions

Processing a command routes events into a transaction. Once processing is over the
transaction is sealed into the batch of events that the event log receives:

* an aborted transaction becomes one rollback event, whatever was routed;
* a transaction that routed nothing becomes one auto-commit event;
* otherwise the routed events, in routing order, all intermediary but the last, which
  commits.

The events of a batch are numbered on from the first sequence given, indexed from zero
within the transaction, and stamped with one time. Rollback and auto-commit events carry
payload type 0 and no payload. A payload longer than a record's 32-bit size field can
declare is refused when it is routed.

Processing only ever routes and aborts: `Router.Extends` says what a transaction can become.
-/

namespace EventSourcing

/-- An event routed into a transaction: its payload type and payload. -/
structure Routed where
  payloadType : PayloadType
  payload : Bytes
  deriving DecidableEq, Repr

/-- Why routing is refused. -/
inductive RouteError where
  /-- The transaction is aborted. -/
  | aborted (source : SourceId) (sequence : UInt64)
  /-- The payload does not fit the 32-bit size field of a record. -/
  | payloadTooLarge (size : Nat)
  /-- The payload's encoder failed. -/
  | encode (cause : Failure)
  deriving DecidableEq, Repr

namespace RouteError

/-- The error as a failure chain. -/
def failure : RouteError → Failure
  | aborted source sequence => .plain s!"transaction for command {source}:{sequence} is aborted"
  | payloadTooLarge size => .plain s!"event payload of {size} bytes is too large"
  | encode cause => cause.within "failed to encode event payload"

end RouteError

/-- The open transaction of a command. -/
structure Router where
  command : Command
  /-- The events routed so far, in routing order. -/
  routed : List Routed := []
  aborted : Bool := false
  deriving Repr

/-- How a transaction ended. -/
inductive Outcome where
  | committed (events : Nat)
  | autoCommitted
  | rolledBack
  deriving DecidableEq, Repr

namespace Outcome

/-- The number of events the transaction appends. -/
def eventCount : Outcome → Nat
  | committed n => n
  | autoCommitted => 1
  | rolledBack => 1

end Outcome

namespace Router

/-- A fresh transaction for a command. -/
def begin (c : Command) : Router := { command := c }

/-- The number of events routed so far. -/
def eventCount (r : Router) : Nat := r.routed.length

/-- Refuses to route once the transaction is aborted. -/
def ensureOpen (r : Router) : Except RouteError Unit :=
  if r.aborted then .error (.aborted r.command.source r.command.sequence) else .ok ()

/-- The largest payload a record's 32-bit size field can declare. -/
def maxPayload : Nat := 4294967295

/-- Adds an event to the routed ones, refusing a payload too large for a record. -/
def push (r : Router) (payloadType : PayloadType) (payload : Bytes) :
    Except RouteError (Nat × Router) :=
  if maxPayload < payload.length then .error (.payloadTooLarge payload.length)
  else .ok (r.routed.length, { r with routed := r.routed ++ [⟨payloadType, payload⟩] })

/-- Routes an event and gives its index within the transaction. -/
def route (r : Router) (payloadType : PayloadType) (payload : Bytes) :
    Except RouteError (Nat × Router) :=
  match r.ensureOpen with
  | .error e => .error e
  | .ok () => r.push payloadType payload

/-- Routes an event whose payload an encoder writes; when the encoder fails nothing is
routed. -/
def routeWith (r : Router) (payloadType : PayloadType) (encoded : Except Failure Bytes) :
    Except RouteError (Nat × Router) :=
  match r.ensureOpen with
  | .error e => .error e
  | .ok () =>
    match encoded with
    | .error f => .error (.encode f)
    | .ok payload => r.push payloadType payload

/-- Aborts the transaction. -/
def abort (r : Router) : Router := { r with aborted := true }

/-- The transaction once processing is over: a chain of processors that failed or panicked
aborts it. -/
def close (r : Router) : Except Halt Unit → Router
  | .ok () => r
  | .error _ => r.abort

/-- What processing can do to an open transaction: route events after those routed so far,
each with a payload a record can declare, and abort it. The command stays, and an aborted
transaction stays aborted. -/
structure Extends (r r' : Router) : Prop where
  command_eq : r'.command = r.command
  routed_prefix : r.routed <+: r'.routed
  routed_fit : ∀ e ∈ r'.routed.drop r.routed.length, e.payload.length ≤ maxPayload
  aborted_imp : r.aborted = true → r'.aborted = true

namespace Extends

@[refl]
theorem refl (r : Router) : r.Extends r := ⟨rfl, List.prefix_refl _, by simp, id⟩

theorem trans {r r' r'' : Router} (h : r.Extends r') (h' : r'.Extends r'') : r.Extends r'' := by
  refine ⟨h'.command_eq.trans h.command_eq, h.routed_prefix.trans h'.routed_prefix, ?_,
    fun ha => h'.aborted_imp (h.aborted_imp ha)⟩
  obtain ⟨t, ht⟩ := h.routed_prefix
  obtain ⟨t', ht'⟩ := h'.routed_prefix
  have hfit := h.routed_fit
  have hfit' := h'.routed_fit
  -- the events routed since `r` are those routed up to `r'`, then those routed since
  rw [← ht, List.drop_left] at hfit
  rw [← ht', List.drop_left] at hfit'
  rw [← ht', ← ht, List.append_assoc, List.drop_left]
  intro e he
  rcases List.mem_append.1 he with he | he
  · exact hfit e he
  · exact hfit' e he

end Extends

theorem extends_abort (r : Router) : r.Extends r.abort :=
  ⟨rfl, List.prefix_refl _, by simp [abort], fun _ => rfl⟩

theorem extends_of_push {r r' : Router} {pt : PayloadType} {p : Bytes} {i : Nat}
    (h : r.push pt p = .ok (i, r')) : r.Extends r' := by
  unfold push at h
  split at h
  · cases h
  · rename_i hfits
    cases h
    refine ⟨rfl, List.prefix_append _ _, ?_, id⟩
    simp only [List.drop_left, List.mem_singleton, forall_eq]
    omega

theorem extends_of_route {r r' : Router} {pt : PayloadType} {p : Bytes} {i : Nat}
    (h : r.route pt p = .ok (i, r')) : r.Extends r' := by
  unfold route at h
  split at h
  · cases h
  · exact extends_of_push h

theorem extends_of_routeWith {r r' : Router} {pt : PayloadType} {p : Except Failure Bytes}
    {i : Nat} (h : r.routeWith pt p = .ok (i, r')) : r.Extends r' := by
  unfold routeWith at h
  split at h
  · cases h
  · split at h
    · cases h
    · exact extends_of_push h

/-- The events of the transaction when sealed at the given first sequence and time. -/
def finish (r : Router) (first : UInt64) (time : Timestamp) : Outcome × List Event :=
  let c := r.command
  let single (kind : EventKind) : Event :=
    { source := c.source, sourceSequence := c.sequence, sequence := first, index := 0,
      kind := kind, time := time, payloadType := 0, payload := [] }
  if r.aborted then (.rolledBack, [single .rollback])
  else if r.routed.isEmpty then (.autoCommitted, [single .autoCommit])
  else
    let last := r.routed.length - 1
    (.committed r.routed.length, (r.routed.zipIdx).map fun (e, i) =>
      { source := c.source, sourceSequence := c.sequence, sequence := first + i.toUInt64,
        index := i.toUInt32, kind := if i = last then .commit else .intermediary, time := time,
        payloadType := e.payloadType, payload := e.payload })

@[simp]
theorem command_close (r : Router) (result : Except Halt Unit) : (r.close result).command = r.command := by
  cases result <;> rfl

@[simp]
theorem routed_close (r : Router) (result : Except Halt Unit) : (r.close result).routed = r.routed := by
  cases result <;> rfl

/-- Every event of a sealed transaction belongs to its command and carries its time. -/
theorem mem_finish {r : Router} {first : UInt64} {time : Timestamp} {e : Event}
    (h : e ∈ (r.finish first time).2) :
    e.source = r.command.source ∧ e.sourceSequence = r.command.sequence ∧ e.time = time := by
  unfold finish at h
  split at h
  · simp at h; subst h; simp
  split at h
  · simp at h; subst h; simp
  · simp only [List.mem_map] at h
    obtain ⟨⟨x, i⟩, -, rfl⟩ := h
    simp

/-- A sealed transaction ends with a terminal event. -/
theorem exists_terminal_finish (r : Router) (first : UInt64) (time : Timestamp) :
    ∃ e ∈ (r.finish first time).2, e.kind.isTerminal = true := by
  unfold finish
  split
  · exact ⟨_, List.mem_singleton_self _, rfl⟩
  split
  · exact ⟨_, List.mem_singleton_self _, rfl⟩
  · rename_i _ hne
    -- the last routed event commits
    have hpos : 0 < r.routed.length := by
      cases h : r.routed with
      | nil => simp [h] at hne
      | cons x rest => simp
    refine ⟨_, List.mem_map.2 ⟨(r.routed[r.routed.length - 1], r.routed.length - 1),
      List.mem_zipIdx_iff_getElem?.2 (by simp), rfl⟩, ?_⟩
    simp [EventKind.isTerminal]

/-- The events of a sealed transaction are numbered on from the first sequence given. -/
theorem sequence_finish {r : Router} {first : UInt64} {time : Timestamp} {j : Nat} {e : Event}
    (h : (r.finish first time).2[j]? = some e) : e.sequence = first + j.toUInt64 := by
  unfold finish at h
  split at h
  · rw [List.getElem?_singleton] at h
    split at h
    · rename_i hj
      cases h
      simp [hj]
    · cases h
  split at h
  · rw [List.getElem?_singleton] at h
    split at h
    · rename_i hj
      cases h
      simp [hj]
    · cases h
  · simp only [List.getElem?_map, List.getElem?_zipIdx, Option.map_map] at h
    obtain ⟨x, -, rfl⟩ := Option.map_eq_some_iff.1 h
    simp

/-- A sealed transaction's payloads fit a record when those routed do. -/
theorem payload_finish {r : Router} (hfit : ∀ x ∈ r.routed, x.payload.length ≤ maxPayload)
    {first : UInt64} {time : Timestamp} {e : Event} (h : e ∈ (r.finish first time).2) :
    e.payload.length ≤ maxPayload := by
  unfold finish at h
  split at h
  · simp at h; subst h; simp
  split at h
  · simp at h; subst h; simp
  · simp only [List.mem_map] at h
    obtain ⟨⟨x, i⟩, hx, rfl⟩ := h
    exact hfit x (List.mem_of_getElem? (List.mem_zipIdx_iff_getElem?.1 hx))

@[simp]
theorem close_ok (r : Router) : r.close (.ok ()) = r := rfl

@[simp]
theorem aborted_close_error (r : Router) (h : Halt) : (r.close (.error h)).aborted = true := rfl

/-- An aborted transaction seals to one rollback event. -/
theorem finish_of_aborted {r : Router} (h : r.aborted = true) (first : UInt64)
    (time : Timestamp) :
    (r.finish first time).2 =
      [{ source := r.command.source, sourceSequence := r.command.sequence, sequence := first,
         index := 0, kind := .rollback, time := time, payloadType := 0, payload := [] }] := by
  simp [finish, h]

/-- A transaction closed on a halt, or aborted, seals to one rollback of its command. -/
theorem finish_close_of_aborted {r : Router} {result : Except Halt Unit}
    (h : result = .ok () → r.aborted = true) (first : UInt64) (time : Timestamp) :
    ((r.close result).finish first time).2 =
      [{ source := r.command.source, sourceSequence := r.command.sequence, sequence := first,
         index := 0, kind := .rollback, time := time, payloadType := 0, payload := [] }] := by
  have haborted : (r.close result).aborted = true := by
    cases result with
    | error halt => rfl
    | ok u => exact h rfl
  rw [finish_of_aborted haborted, command_close]

/-- A transaction that routed nothing seals to one auto-commit event. -/
theorem finish_of_routed_nil {r : Router} (h : r.aborted = false) (hnil : r.routed = [])
    (first : UInt64) (time : Timestamp) :
    (r.finish first time).2 =
      [{ source := r.command.source, sourceSequence := r.command.sequence, sequence := first,
         index := 0, kind := .autoCommit, time := time, payloadType := 0, payload := [] }] := by
  simp [finish, h, hnil]

/-- A transaction that routed events seals to them, in routing order, indexed from zero, all
intermediary but the last, which commits. -/
theorem finish_of_routed {r : Router} (h : r.aborted = false) (hne : r.routed ≠ [])
    (first : UInt64) (time : Timestamp) :
    (r.finish first time).2.map (fun e => Routed.mk e.payloadType e.payload) = r.routed ∧
      ∀ j e, (r.finish first time).2[j]? = some e →
        e.index = j.toUInt32 ∧ e.kind = if j + 1 = r.routed.length then .commit else .intermediary := by
  have hempty : r.routed.isEmpty = false := List.isEmpty_eq_false_iff.2 hne
  simp only [finish, h, hempty, Bool.false_eq_true, if_false]
  refine ⟨?_, fun j e hj => ?_⟩
  · rw [List.map_map]
    conv => rhs; rw [← List.zipIdx_map_fst 0 r.routed]
    rfl
  · simp only [List.getElem?_map, List.getElem?_zipIdx, Option.map_map] at hj
    obtain ⟨x, hx, rfl⟩ := Option.map_eq_some_iff.1 hj
    have hlt : j < r.routed.length := (List.getElem?_eq_some_iff.1 hx).1
    refine ⟨by simp, ?_⟩
    simp only [Function.comp_apply, Nat.zero_add]
    by_cases hlast : j + 1 = r.routed.length
    · simp only [show j = r.routed.length - 1 by omega, if_true]
      rw [if_pos (by omega)]
    · simp [hlast, show j ≠ r.routed.length - 1 by omega]

/-- A sealed transaction has events, and only its last is terminal. -/
theorem isTerminal_finish (r : Router) (first : UInt64) (time : Timestamp) :
    (r.finish first time).2 ≠ [] ∧ ∀ j e, (r.finish first time).2[j]? = some e →
      (e.kind.isTerminal = true ↔ j + 1 = (r.finish first time).2.length) := by
  -- a transaction sealed to one event seals to a terminal one
  have single : ∀ x : Event, x.kind.isTerminal = true →
      [x] ≠ [] ∧ ∀ j e, [x][j]? = some e → (e.kind.isTerminal = true ↔ j + 1 = [x].length) := by
    refine fun x hx => ⟨List.cons_ne_nil _ _, fun j e hj => ?_⟩
    cases j with
    | zero =>
      cases hj
      simpa using hx
    | succ j => simp at hj
  cases haborted : r.aborted with
  | true =>
    rw [finish_of_aborted haborted]
    exact single _ rfl
  | false =>
    by_cases hnil : r.routed = []
    · rw [finish_of_routed_nil haborted hnil]
      exact single _ rfl
    · obtain ⟨hmap, hkind⟩ := finish_of_routed haborted hnil first time
      have hlen : (r.finish first time).2.length = r.routed.length := by
        rw [← hmap, List.length_map]
      refine ⟨fun h => hnil (by rw [← hmap, h, List.map_nil]), fun j e hj => ?_⟩
      rw [hlen, (hkind j e hj).2]
      by_cases hlast : j + 1 = r.routed.length <;> simp [hlast, EventKind.isTerminal]

end Router

end EventSourcing
