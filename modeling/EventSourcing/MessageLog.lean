import EventSourcing.Bytes

/-!
# Message logs

An append-only log of messages with named pollers. A poller is a cursor: it points at the
next message its reader will take, and reads as position 0 until it is first moved. A log may
have a capacity; a batch that would pass it is refused whole, unless the log appends batches
one message at a time, in which case the messages before the one that does not fit stay.
A log may also carry a fault switch: while it is on, appends fail.

The main statements say what each operation does to the messages and to the positions.
-/

namespace EventSourcing

/-- Why a log refuses an operation. -/
inductive StoreError where
  /-- An append would pass the capacity. -/
  | full (capacity : Nat)
  /-- A poller cannot move past the end of the log. -/
  | invalidPosition (poller : String) (position length : Nat)
  /-- A poller at the end of the log cannot advance. -/
  | endOfLog (poller : String)
  /-- The medium under the log failed. -/
  | backend (message : String)
  deriving DecidableEq, Repr

namespace StoreError

/-- The sentence that reports the error. -/
def message : StoreError → String
  | full capacity => s!"message store is full: capacity {capacity} messages"
  | invalidPosition poller position length =>
    s!"poller '{poller}' cannot move to position {position}: store holds {length} messages"
  | endOfLog poller => s!"poller '{poller}' is already at the end of the log"
  | backend message => s!"message store backend error: {message}"

/-- The messages of the error and of its causes, outermost first: a failure of the medium
has the medium's message as its cause. -/
def chain : StoreError → List String
  | backend message => [s!"message store backend error: {message}", message]
  | e => [e.message]

end StoreError

/-- How a log appends a batch. -/
inductive BatchMode where
  /-- The whole batch or nothing. -/
  | whole
  /-- One message after the other, stopping at the first that fails. -/
  | oneByOne
  deriving DecidableEq, Repr

/-- A message of a log with its index. -/
structure Stored where
  index : Nat
  bytes : Bytes
  deriving DecidableEq, Repr

/-- An append-only log of messages with named pollers. -/
structure MessageLog where
  messages : Array Bytes := #[]
  /-- The pollers moved so far with their positions, in the order they were first moved. -/
  pollers : List (String × Nat) := []
  capacity : Option Nat := none
  batching : BatchMode := .whole
  /-- The fault switch, for logs that have one: `some true` while appends fail. -/
  fault : Option Bool := none
  deriving Repr, Inhabited

namespace MessageLog

/-- The error of an append while the fault switch is on. -/
def injectedFailure : StoreError := .backend "injected append failure"

/-- The number of messages. -/
def length (log : MessageLog) : Nat := log.messages.size

/-- The message at an index. -/
def read? (log : MessageLog) (index : Nat) : Option Bytes := log.messages[index]?

/-- The position of a poller; 0 for one never moved. -/
def position (log : MessageLog) (poller : String) : Nat :=
  ((log.pollers.find? (·.1 == poller)).map (·.2)).getD 0

/-- Sets the position of a poller. -/
def setPosition (log : MessageLog) (poller : String) (position : Nat) : MessageLog :=
  if log.pollers.any (·.1 == poller) then
    { log with pollers := log.pollers.map fun e => if e.1 == poller then (poller, position) else e }
  else { log with pollers := log.pollers ++ [(poller, position)] }

/-- The message a poller points at. -/
def peek? (log : MessageLog) (poller : String) : Option Stored :=
  let index := log.position poller
  (log.read? index).map (⟨index, ·⟩)

/-- Whether the fault switch is on. -/
def failing (log : MessageLog) : Bool := log.fault == some true

/-- Whether `count` more messages fit. -/
def fits (log : MessageLog) (count : Nat) : Except StoreError Unit :=
  match log.capacity with
  | some capacity => if capacity < log.length + count then .error (.full capacity) else .ok ()
  | none => .ok ()

/-- Appends a message and gives its index. -/
def append (log : MessageLog) (message : Bytes) : Except StoreError (Nat × MessageLog) :=
  if log.failing then .error injectedFailure
  else
    match log.fits 1 with
    | .error e => .error e
    | .ok () => .ok (log.length, { log with messages := log.messages.push message })

/-- Appends messages one after the other; on a failure the messages before it stay. -/
def appendEach (log : MessageLog) : List Bytes → Except StoreError MessageLog × MessageLog
  | [] => (.ok log, log)
  | m :: rest =>
    match log.append m with
    | .error e => (.error e, log)
    | .ok (_, log') => appendEach log' rest

/-- Appends a batch and gives the index of its first message. The result is the error or
the index, together with the log after the attempt. -/
def appendBatch (log : MessageLog) (batch : List Bytes) : Except StoreError Nat × MessageLog :=
  match log.batching with
  | .oneByOne =>
    match appendEach log batch with
    | (.ok log', _) => (.ok log.length, log')
    | (.error e, log') => (.error e, log')
  | .whole =>
    if log.failing then (.error injectedFailure, log)
    else
      match log.fits batch.length with
      | .error e => (.error e, log)
      | .ok () => (.ok log.length, { log with messages := log.messages ++ batch.toArray })

/-- Moves a poller one message on. -/
def advance (log : MessageLog) (poller : String) : Except StoreError MessageLog :=
  let position := log.position poller
  if log.length ≤ position then .error (.endOfLog poller)
  else .ok (log.setPosition poller (position + 1))

/-- Moves a poller to a position, which may be the end of the log but not past it. -/
def moveTo (log : MessageLog) (poller : String) (position : Nat) :
    Except StoreError MessageLog :=
  if log.length < position then .error (.invalidPosition poller position log.length)
  else .ok (log.setPosition poller position)

/-- Takes the message a poller points at and moves the poller on. -/
def poll (log : MessageLog) (poller : String) : Except StoreError (Option Stored × MessageLog) :=
  match log.peek? poller with
  | none => .ok (none, log)
  | some m =>
    match log.advance poller with
    | .ok log' => .ok (some m, log')
    | .error e => .error e

/-- All messages with their indexes. -/
def toStored (log : MessageLog) : List Stored :=
  (List.range log.length).filterMap fun i => (log.read? i).map (⟨i, ·⟩)

theorem position_setPosition (log : MessageLog) (p : String) (n : Nat) :
    (log.setPosition p n).position p = n := by
  unfold setPosition position
  split
  · rename_i h
    obtain ⟨e, he, hp⟩ := List.any_eq_true.1 h
    simp only [List.find?_map]
    have : (List.find? ((fun x => x.1 == p) ∘ fun e => if e.1 == p then (p, n) else e) log.pollers).isSome := by
      rw [List.find?_isSome]
      exact ⟨e, he, by simp_all⟩
    obtain ⟨x, hx⟩ := Option.isSome_iff_exists.1 this
    have := List.find?_some hx
    simp only [hx, Option.map_some, Option.getD_some]
    by_cases h1 : x.1 = p <;> simp_all
  · rename_i h
    simp only [List.find?_append]
    have hn : ∀ x ∈ log.pollers, ¬ (x.1 == p) = true := by
      intro x hx heq
      exact h (List.any_eq_true.2 ⟨x, hx, heq⟩)
    rw [List.find?_eq_none.2 hn]
    simp

theorem position_setPosition_of_ne (log : MessageLog) {p q : String} (n : Nat) (h : q ≠ p) :
    (log.setPosition p n).position q = log.position q := by
  unfold setPosition position
  split
  · simp only [List.find?_map]
    -- renaming `p` leaves every entry's test for `q` as it was
    have htest : ((fun e : String × Nat => e.1 == q) ∘
        fun e => if e.1 == p then (p, n) else e) = fun e => e.1 == q := by
      funext e
      by_cases he : e.1 = p <;> simp [he]
    rw [htest]
    cases hf : log.pollers.find? (fun e => e.1 == q) with
    | none => rfl
    | some e =>
      have hq : e.1 = q := by simpa using List.find?_some hf
      simp [hq, h]
  · simp only [List.find?_append]
    cases log.pollers.find? (fun e => e.1 == q) with
    | none => simp [Ne.symm h]
    | some e => rfl

@[simp]
theorem messages_setPosition (log : MessageLog) (p : String) (n : Nat) :
    (log.setPosition p n).messages = log.messages := by
  unfold setPosition
  split <;> rfl

@[simp]
theorem length_setPosition (log : MessageLog) (p : String) (n : Nat) :
    (log.setPosition p n).length = log.length := by
  simp [length]

@[simp]
theorem capacity_setPosition (log : MessageLog) (p : String) (n : Nat) :
    (log.setPosition p n).capacity = log.capacity := by
  unfold setPosition
  split <;> rfl

@[simp]
theorem batching_setPosition (log : MessageLog) (p : String) (n : Nat) :
    (log.setPosition p n).batching = log.batching := by
  unfold setPosition
  split <;> rfl

@[simp]
theorem fault_setPosition (log : MessageLog) (p : String) (n : Nat) :
    (log.setPosition p n).fault = log.fault := by
  unfold setPosition
  split <;> rfl

/-- A poller points at a message exactly when it is short of the end. -/
theorem peek?_eq_none {log : MessageLog} {p : String} :
    log.peek? p = none ↔ log.length ≤ log.position p := by
  simp [peek?, read?, length]

theorem peek?_eq_some {log : MessageLog} {p : String} {m : Stored} :
    log.peek? p = some m ↔
      m.index = log.position p ∧ log.messages.toList[log.position p]? = some m.bytes := by
  unfold peek? read?
  cases hm : log.messages[log.position p]? with
  | none => simp [hm]
  | some b =>
    simp only [Option.map_some, Option.some.injEq, Array.getElem?_toList, hm]
    constructor
    · rintro rfl
      exact ⟨rfl, rfl⟩
    · rintro ⟨hi, rfl⟩
      rw [← hi]

/-- A successful advance moves the poller one message on. -/
theorem advance_eq_ok {log log' : MessageLog} {p : String} (h : log.advance p = .ok log') :
    log.position p < log.length ∧ log' = log.setPosition p (log.position p + 1) := by
  unfold advance at h
  dsimp only at h
  split at h
  · cases h
  · cases h
    exact ⟨by omega, rfl⟩

theorem moveTo_eq_ok {log log' : MessageLog} {p : String} {n : Nat}
    (h : log.moveTo p n = .ok log') : n ≤ log.length ∧ log' = log.setPosition p n := by
  unfold moveTo at h
  split at h
  · cases h
  · cases h
    exact ⟨by omega, rfl⟩

/-- A successful append adds the message at the end and moves no poller. -/
theorem append_eq_ok {log log' : MessageLog} {m : Bytes} {i : Nat}
    (h : log.append m = .ok (i, log')) :
    i = log.length ∧ log' = { log with messages := log.messages.push m } := by
  unfold append at h
  split at h
  · cases h
  · split at h
    · cases h
    · cases h
      exact ⟨rfl, rfl⟩

theorem appendEach_eq_ok {log log' log'' : MessageLog} {ms : List Bytes}
    (h : log.appendEach ms = (.ok log', log'')) :
    log' = { log with messages := log.messages ++ ms.toArray } := by
  induction ms generalizing log with
  | nil =>
    simp only [appendEach, Prod.mk.injEq, Except.ok.injEq] at h
    rw [← h.1]
    simp
  | cons m rest ih =>
    unfold appendEach at h
    split at h
    · simp at h
    · rename_i i log₁ hm
      rw [ih h, (append_eq_ok hm).2]
      simp

/-- A successful batch append adds the batch at the end and moves no poller, appended whole
or one message at a time. -/
theorem appendBatch_eq_ok {log log' : MessageLog} {ms : List Bytes} {i : Nat}
    (h : log.appendBatch ms = (.ok i, log')) :
    i = log.length ∧ log' = { log with messages := log.messages ++ ms.toArray } := by
  unfold appendBatch at h
  split at h
  · split at h
    · rename_i log₁ _ heach
      simp only [Prod.mk.injEq, Except.ok.injEq] at h
      rw [← h.2]
      exact ⟨h.1.symm, appendEach_eq_ok heach⟩
    · simp at h
  · split at h
    · simp at h
    · split at h
      · simp at h
      · simp only [Prod.mk.injEq, Except.ok.injEq] at h
        exact ⟨h.1.symm, h.2.symm⟩

end MessageLog

end EventSourcing
