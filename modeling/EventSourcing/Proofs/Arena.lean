import Mathlib
import EventSourcing.MessageLog.Arena

/-!
# The arena refines the log

A message log, as its users see it, is a list of messages, a position for every poller, 0 for
one never moved, and an optional capacity (`LogModel`): appends add at the end and give the
old length, refused whole past the capacity; a poller reads the message at its position and
moves within the log; a refused operation changes nothing. The in-memory store lays the log
out in one byte arena with a table of offsets and a hash map of positions
(`EventSourcing.ArenaLog`).

`ArenaLog.Holds a L` says that the arena `a` lays out the log `L`: its bytes are the messages
back to back, its table holds the offsets where each message starts and ends, and its
positions and capacity are the log's. Every operation keeps the relation and answers as the
log does (`ArenaLog.Holds.step`), and so does every run (`ArenaLog.Holds.run`), from a new
store or one with a capacity limit (`arena_log_refines_model`).

The log the engine keeps stands for a `LogModel` as well (`MessageLog.view`), and answers every
operation as it does while appends do not fail and batches go in whole
(`MessageLog.step_view`); so the engine's log and the arena answer alike
(`engine_log_laid_out_in_arena`).
-/

namespace EventSourcing

/-! ## The log a store stands for -/

/-- A message log as its users see it. -/
structure LogModel where
  messages : List Bytes
  /-- The position of every poller; 0 for one never moved. -/
  position : String → Nat
  capacity : Option Nat

/-- The poller an operation may move. -/
def MessageLog.Op.poller? : MessageLog.Op → Option String
  | .advance p | .moveTo p _ | .poll p => some p
  | _ => none

namespace LogModel

/-- An empty log: every poller at position 0. -/
def empty (capacity : Option Nat) : LogModel := ⟨[], fun _ => 0, capacity⟩

/-- The refusal of `count` more messages, when they would pass the capacity. -/
def full? (L : LogModel) (count : Nat) : Option StoreError :=
  match L.capacity with
  | some c => if c < L.messages.length + count then some (.full c) else none
  | none => none

/-- Sets the position of a poller. -/
def setPosition (L : LogModel) (p : String) (n : Nat) : LogModel :=
  { L with position := Function.update L.position p n }

/-- The message a poller points at, with its index. -/
def peek? (L : LogModel) (p : String) : Option Stored :=
  L.messages[L.position p]?.map (⟨L.position p, ·⟩)

/-- What an operation answers and leaves. Appends give the old length and add at the end,
or are refused whole; a poller advances when it is short of the end and moves anywhere up to
the end; polling is peeking and advancing. -/
def step (L : LogModel) : MessageLog.Op → MessageLog.Reply × LogModel
  | .append m =>
    match L.full? 1 with
    | some e => (.refused e, L)
    | none => (.index L.messages.length, { L with messages := L.messages ++ [m] })
  | .appendBatch ms =>
    match L.full? ms.length with
    | some e => (.refused e, L)
    | none => (.index L.messages.length, { L with messages := L.messages ++ ms })
  | .read i => (.read L.messages[i]?, L)
  | .peek p => (.peeked (L.peek? p), L)
  | .position p => (.position (L.position p), L)
  | .advance p =>
    if L.position p < L.messages.length then (.moved, L.setPosition p (L.position p + 1))
    else (.refused (.endOfLog p), L)
  | .moveTo p n =>
    if n ≤ L.messages.length then (.moved, L.setPosition p n)
    else (.refused (.invalidPosition p n L.messages.length), L)
  | .poll p =>
    match L.peek? p with
    | none => (.polled none, L)
    | some m => (.polled (some m), L.setPosition p (L.position p + 1))
  | .iter => (.listed (L.messages.zipIdx.map fun (m, i) => ⟨i, m⟩), L)

/-- Runs operations one after the other; gives the replies in order. -/
def run (L : LogModel) : List MessageLog.Op → List MessageLog.Reply × LogModel
  | [] => ([], L)
  | op :: ops =>
    let (reply, L₁) := L.step op
    let (replies, L₂) := L₁.run ops
    (reply :: replies, L₂)

end LogModel

/-! ## Offsets of messages laid back to back -/

/-- The start and end offsets of messages laid back to back from `start`. -/
def spans (start : Nat) : List Bytes → List (Nat × Nat)
  | [] => []
  | m :: ms => (start, start + m.length) :: spans (start + m.length) ms

@[simp]
theorem length_spans (start : Nat) (ms : List Bytes) : (spans start ms).length = ms.length := by
  induction ms generalizing start with
  | nil => rfl
  | cons m ms ih => simp [spans, ih]

/-- A message laid after the others starts where they end. -/
theorem spans_append_singleton (start : Nat) (ms : List Bytes) (m : Bytes) :
    spans start (ms ++ [m]) =
      spans start ms ++ [(start + ms.flatten.length, start + ms.flatten.length + m.length)] := by
  induction ms generalizing start with
  | nil => simp [spans]
  | cons m' ms ih =>
    simp only [List.cons_append, spans, ih, List.flatten_cons, List.length_append]
    simp only [Nat.add_assoc]

/-- The message at index `i` starts where the messages before it end. -/
theorem getElem?_spans (start : Nat) (ms : List Bytes) (i : Nat) :
    (spans start ms)[i]? = ms[i]?.map fun m =>
      (start + (ms.take i).flatten.length, start + (ms.take i).flatten.length + m.length) := by
  induction ms generalizing start i with
  | nil => simp [spans]
  | cons m ms ih =>
    cases i with
    | zero => simp [spans]
    | succ i =>
      simp only [spans, List.getElem?_cons_succ, ih, List.take_succ_cons, List.flatten_cons,
        List.length_append, Nat.add_assoc]

/-- The bytes between the offsets of message `i` are that message. -/
theorem slice_flatten {ms : List Bytes} {i : Nat} {m : Bytes} (h : ms[i]? = some m) :
    (ms.flatten.drop (ms.take i).flatten.length).take m.length = m := by
  obtain ⟨hi, rfl⟩ := List.getElem?_eq_some_iff.1 h
  -- the messages before `i`, message `i`, and the messages after it
  have hsplit : ms.flatten = (ms.take i).flatten ++ (ms[i] ++ (ms.drop (i + 1)).flatten) := by
    conv_lhs => rw [← List.take_append_drop i ms, List.drop_eq_getElem_cons hi]
    rw [List.flatten_append, List.flatten_cons]
  rw [hsplit, List.drop_left, List.take_left]

/-! ## The arena holds the log -/

namespace ArenaLog

/-- The arena `a` lays out the log `L`. -/
structure Holds (a : ArenaLog) (L : LogModel) : Prop where
  /-- The arena holds the messages back to back. -/
  data : a.data.toList = L.messages.flatten
  /-- The table holds where each message starts and ends. -/
  bounds : a.bounds.toList = spans 0 L.messages
  position : ∀ p, a.position p = L.position p
  capacity : a.capacity = L.capacity

variable {a : ArenaLog} {L : LogModel}

theorem holds_new : Holds new (LogModel.empty none) :=
  ⟨rfl, rfl, fun _ => Std.HashMap.getD_empty, rfl⟩

theorem holds_withCapacityLimit (c : Nat) : Holds (withCapacityLimit c) (LogModel.empty (some c)) :=
  ⟨rfl, rfl, fun _ => Std.HashMap.getD_empty, rfl⟩

theorem Holds.length (h : Holds a L) : a.length = L.messages.length := by
  rw [ArenaLog.length, ← Array.length_toList, h.bounds, length_spans]

/-- A message is read by slicing the arena between its offsets. -/
theorem Holds.read? (h : Holds a L) (i : Nat) : a.read? i = L.messages[i]? := by
  rw [ArenaLog.read?, ← Array.getElem?_toList, h.bounds, getElem?_spans]
  cases hm : L.messages[i]? with
  | none => rfl
  | some m =>
    simp only [Option.map_some, slice, Array.toList_extract, List.extract_eq_take_drop, h.data,
      Nat.zero_add, Nat.add_sub_cancel_left, slice_flatten hm]

theorem Holds.peek? (h : Holds a L) (p : String) : a.peek? p = L.peek? p := by
  rw [ArenaLog.peek?, LogModel.peek?, h.read?, h.position]

theorem Holds.iter (h : Holds a L) : a.iter = L.messages.zipIdx.map fun (m, i) => ⟨i, m⟩ := by
  apply List.ext_getElem
  · simp [ArenaLog.iter, ← h.length, ArenaLog.length]
  · intro i hi hi'
    have hlt : i < L.messages.length := by simpa using hi'
    have hread := h.read? i
    rw [ArenaLog.read?, ← Array.getElem?_toList, List.getElem?_eq_getElem (by simpa [h.bounds])]
      at hread
    simp only [ArenaLog.iter, List.getElem_map, List.getElem_zipIdx, Nat.zero_add]
    simpa [List.getElem?_eq_getElem hlt] using hread

theorem Holds.checkCapacity (h : Holds a L) (count : Nat) :
    a.checkCapacity count = match L.full? count with
      | some e => .error e
      | none => .ok () := by
  rw [ArenaLog.checkCapacity, LogModel.full?, h.capacity, h.length]
  cases L.capacity with
  | none => rfl
  | some c => by_cases hc : c < L.messages.length + count <;> simp [hc]

/-- Pushing a message copies it to the end of the arena and records its offsets, at the
index of the old length. -/
theorem Holds.push (h : Holds a L) (m : Bytes) :
    (a.push m).1 = L.messages.length ∧
      Holds (a.push m).2 { L with messages := L.messages ++ [m] } := by
  have hsize : a.data.size = L.messages.flatten.length := by
    rw [← Array.length_toList, h.data]
  refine ⟨?_, ⟨?_, ?_, h.position, h.capacity⟩⟩
  · simp [ArenaLog.push, ← h.length, ArenaLog.length]
  · simp [ArenaLog.push, h.data]
  · simp [ArenaLog.push, h.bounds, spans_append_singleton, hsize]

theorem Holds.pushAll (h : Holds a L) (ms : List Bytes) :
    Holds (ms.foldl (fun a m => (a.push m).2) a) { L with messages := L.messages ++ ms } := by
  induction ms generalizing a L with
  | nil => simpa using h
  | cons m ms ih =>
    simpa using ih (h.push m).2

/-- Moving a poller inserts its position into the map. -/
theorem Holds.insert (h : Holds a L) (p : String) (n : Nat) :
    Holds { a with pollers := a.pollers.insert p n } (L.setPosition p n) := by
  refine ⟨h.data, h.bounds, fun q => ?_, h.capacity⟩
  show (a.pollers.insert p n).getD q 0 = Function.update L.position p n q
  rw [Std.HashMap.getD_insert, Function.update_apply]
  by_cases hq : q = p
  · simp [hq]
  · have hpq : (p == q) = false := by simpa using Ne.symm hq
    simp only [hpq, Bool.false_eq_true, if_false, hq]
    exact h.position q

theorem Holds.append (h : Holds a L) (m : Bytes) :
    a.append m = match L.full? 1 with
      | some e => .error e
      | none => .ok (L.messages.length, (a.push m).2) := by
  rw [ArenaLog.append, h.checkCapacity, ← (h.push m).1]
  cases L.full? 1 <;> rfl

theorem Holds.appendBatch (h : Holds a L) (ms : List Bytes) :
    a.appendBatch ms = match L.full? ms.length with
      | some e => .error e
      | none => .ok (L.messages.length, ms.foldl (fun a m => (a.push m).2) a) := by
  rw [ArenaLog.appendBatch, h.checkCapacity, ← h.length]
  cases L.full? ms.length <;> rfl

/-- Every operation answers as the log does, and the arena goes on laying out the log. -/
theorem Holds.step (h : Holds a L) (op : MessageLog.Op) :
    (a.step op).1 = (L.step op).1 ∧ Holds (a.step op).2 (L.step op).2 := by
  cases op with
  | append m =>
    rw [ArenaLog.step, LogModel.step, h.append]
    cases L.full? 1 with
    | some e => exact ⟨rfl, h⟩
    | none => exact ⟨rfl, (h.push m).2⟩
  | appendBatch ms =>
    rw [ArenaLog.step, LogModel.step, h.appendBatch]
    cases L.full? ms.length with
    | some e => exact ⟨rfl, h⟩
    | none => exact ⟨rfl, h.pushAll ms⟩
  | read i => exact ⟨by simp [ArenaLog.step, LogModel.step, h.read?], h⟩
  | peek p => exact ⟨by simp [ArenaLog.step, LogModel.step, h.peek?], h⟩
  | position p => exact ⟨by simp [ArenaLog.step, LogModel.step, h.position], h⟩
  | advance p =>
    simp only [ArenaLog.step, LogModel.step, ArenaLog.advance, h.length, h.position]
    by_cases hp : L.position p < L.messages.length
    · simp only [if_neg (Nat.not_le.2 hp), if_pos hp]
      exact ⟨trivial, h.insert p _⟩
    · simp only [if_pos (Nat.not_lt.1 hp), if_neg hp]
      exact ⟨trivial, h⟩
  | moveTo p n =>
    simp only [ArenaLog.step, LogModel.step, ArenaLog.moveTo, h.length]
    by_cases hn : n ≤ L.messages.length
    · simp only [if_neg (Nat.not_lt.2 hn), if_pos hn]
      exact ⟨trivial, h.insert p n⟩
    · simp only [if_pos (Nat.not_le.1 hn), if_neg hn]
      exact ⟨trivial, h⟩
  | poll p =>
    simp only [ArenaLog.step, LogModel.step, ArenaLog.poll, h.peek?]
    cases hm : L.peek? p with
    | none => exact ⟨rfl, h⟩
    | some m =>
      -- a poller that points at a message is short of the end, so it advances
      have hp : L.position p < L.messages.length := by
        obtain ⟨b, hb, -⟩ := Option.map_eq_some_iff.1 hm
        exact (List.getElem?_eq_some_iff.1 hb).1
      have hadvance : a.advance p = .ok { a with pollers := a.pollers.insert p (L.position p + 1) } := by
        rw [ArenaLog.advance, h.length, h.position, if_neg (Nat.not_le.2 hp)]
      rw [hadvance]
      exact ⟨rfl, h.insert p _⟩
  | iter => exact ⟨by simp [ArenaLog.step, LogModel.step, h.iter], h⟩

/-- Every run of operations answers as the log does. -/
theorem Holds.run (h : Holds a L) (ops : List MessageLog.Op) :
    (a.run ops).1 = (L.run ops).1 ∧ Holds (a.run ops).2 (L.run ops).2 := by
  induction ops generalizing a L with
  | nil => exact ⟨rfl, h⟩
  | cons op ops ih =>
    obtain ⟨hreply, hstep⟩ := h.step op
    obtain ⟨hreplies, hrun⟩ := ih hstep
    exact ⟨by simp [ArenaLog.run, LogModel.run, hreply, hreplies], hrun⟩

/-! ## What an operation may change -/

theorem pushAll_frame (a : ArenaLog) (ms : List Bytes) :
    (ms.foldl (fun a m => (a.push m).2) a).pollers = a.pollers ∧
      (ms.foldl (fun a m => (a.push m).2) a).capacity = a.capacity := by
  induction ms generalizing a with
  | nil => exact ⟨rfl, rfl⟩
  | cons m ms ih => exact ih (a.push m).2

/-- An operation keeps the pollers and the capacity, or moves the poller it names. -/
theorem step_cases (a : ArenaLog) (op : MessageLog.Op) :
    ((a.step op).2.pollers = a.pollers ∧ (a.step op).2.capacity = a.capacity) ∨
      ∃ p n, op.poller? = some p ∧ (a.step op).2 = { a with pollers := a.pollers.insert p n } := by
  cases op with
  | append m =>
    left
    cases h : a.append m with
    | error e => simp [step, h]
    | ok r =>
      obtain ⟨i, a'⟩ := r
      have ha' : a' = (a.push m).2 := by
        simp only [ArenaLog.append, bind, Except.bind] at h
        split at h
        · cases h
        · cases h
          rfl
      simp [step, h, ha', ArenaLog.push]
  | appendBatch ms =>
    left
    cases h : a.appendBatch ms with
    | error e => simp [step, h]
    | ok r =>
      obtain ⟨i, a'⟩ := r
      have ha' : a' = ms.foldl (fun a m => (a.push m).2) a := by
        simp only [ArenaLog.appendBatch, bind, Except.bind] at h
        split at h
        · cases h
        · cases h
          rfl
      simpa [step, h, ha'] using pushAll_frame a ms
  | read i => exact .inl ⟨rfl, rfl⟩
  | peek p => exact .inl ⟨rfl, rfl⟩
  | position p => exact .inl ⟨rfl, rfl⟩
  | advance p =>
    by_cases hend : a.length ≤ a.position p
    · exact .inl (by simp [step, ArenaLog.advance, hend])
    · exact .inr ⟨p, a.position p + 1, rfl, by simp [step, ArenaLog.advance, hend]⟩
  | moveTo p n =>
    by_cases hpast : a.length < n
    · exact .inl (by simp [step, ArenaLog.moveTo, hpast])
    · exact .inr ⟨p, n, rfl, by simp [step, ArenaLog.moveTo, hpast]⟩
  | poll p =>
    cases hm : a.peek? p with
    | none => exact .inl (by simp [step, ArenaLog.poll, hm])
    | some m =>
      by_cases hend : a.length ≤ a.position p
      · exact .inl (by simp [step, ArenaLog.poll, hm, ArenaLog.advance, hend])
      · exact .inr ⟨p, a.position p + 1, rfl,
          by simp [step, ArenaLog.poll, hm, ArenaLog.advance, hend]⟩
  | iter => exact .inl ⟨rfl, rfl⟩

/-- An operation the log refuses leaves it as it was. -/
theorem step_of_refused {a : ArenaLog} {op : MessageLog.Op} {e : StoreError}
    (h : (a.step op).1 = .refused e) : (a.step op).2 = a := by
  cases op with
  | append m => cases hx : a.append m <;> simp_all [step]
  | appendBatch ms => cases hx : a.appendBatch ms <;> simp_all [step]
  | advance p => cases hx : a.advance p <;> simp_all [step]
  | moveTo p n => cases hx : a.moveTo p n <;> simp_all [step]
  | poll p => cases hx : a.poll p <;> simp_all [step]
  | read i | peek p | position p | iter => rfl

/-- An operation moves no poller but the one it names. -/
theorem position_step_of_ne {a : ArenaLog} {op : MessageLog.Op} {q : String}
    (h : op.poller? ≠ some q) : (a.step op).2.position q = a.position q := by
  rcases step_cases a op with ⟨hpollers, -⟩ | ⟨p, n, hp, heq⟩
  · rw [ArenaLog.position, hpollers, ArenaLog.position]
  · have hpq : (p == q) = false := by
      simp only [beq_eq_false_iff_ne]
      rintro rfl
      exact h hp
    rw [heq, ArenaLog.position, Std.HashMap.getD_insert, hpq, if_neg Bool.false_ne_true,
      ArenaLog.position]

theorem capacity_step (a : ArenaLog) (op : MessageLog.Op) : (a.step op).2.capacity = a.capacity := by
  rcases step_cases a op with ⟨-, hcapacity⟩ | ⟨p, n, -, heq⟩
  · exact hcapacity
  · rw [heq]

end ArenaLog

/-- A new store, and a store with a capacity limit, answer every run of operations as the log
of that capacity does, and at the end lay that log out and hold as many messages. An operation
the store refuses leaves it as it was; an operation moves no poller but the one it names, and
keeps the capacity. -/
theorem arena_log_refines_model :
    (∀ ops, (ArenaLog.new.run ops).1 = ((LogModel.empty none).run ops).1 ∧
      (ArenaLog.new.run ops).2.Holds ((LogModel.empty none).run ops).2 ∧
      (ArenaLog.new.run ops).2.length = ((LogModel.empty none).run ops).2.messages.length) ∧
    (∀ c ops, ((ArenaLog.withCapacityLimit c).run ops).1 =
        ((LogModel.empty (some c)).run ops).1 ∧
      ((ArenaLog.withCapacityLimit c).run ops).2.Holds ((LogModel.empty (some c)).run ops).2 ∧
      ((ArenaLog.withCapacityLimit c).run ops).2.length =
        ((LogModel.empty (some c)).run ops).2.messages.length) ∧
    (∀ (a : ArenaLog) op e, (a.step op).1 = .refused e → (a.step op).2 = a) ∧
    (∀ (a : ArenaLog) op q, op.poller? ≠ some q → (a.step op).2.position q = a.position q) ∧
    (∀ (a : ArenaLog) op, (a.step op).2.capacity = a.capacity) := by
  refine ⟨fun ops => ?_, fun c ops => ?_, fun _ _ _ => ArenaLog.step_of_refused,
    fun _ _ _ => ArenaLog.position_step_of_ne, ArenaLog.capacity_step⟩
  · obtain ⟨hreplies, hholds⟩ := ArenaLog.holds_new.run ops
    exact ⟨hreplies, hholds, hholds.length⟩
  · obtain ⟨hreplies, hholds⟩ := (ArenaLog.holds_withCapacityLimit c).run ops
    exact ⟨hreplies, hholds, hholds.length⟩

/-- A store of capacity one refuses a second message and is left as it was; polling moves no
other poller. -/
theorem arena_log_refines_model_of_full_store :
    (((ArenaLog.withCapacityLimit 1).step (.append [1])).2.step (.append [2])).1 =
        .refused (.full 1) ∧
      (((ArenaLog.withCapacityLimit 1).step (.append [1])).2.step (.append [2])).2 =
        ((ArenaLog.withCapacityLimit 1).step (.append [1])).2 ∧
      (MessageLog.Op.poll "a").poller? ≠ some "b" ∧
      (((ArenaLog.withCapacityLimit 1).step (.append [1])).2.step (.poll "a")).2.position "b" =
        ((ArenaLog.withCapacityLimit 1).step (.append [1])).2.position "b" := by
  have hfull : (((ArenaLog.withCapacityLimit 1).step (.append [1])).2.step (.append [2])).1 =
      .refused (.full 1) := by decide
  have hne : (MessageLog.Op.poll "a").poller? ≠ some "b" := by decide
  exact ⟨hfull, arena_log_refines_model.2.2.1 _ _ _ hfull, hne,
    arena_log_refines_model.2.2.2.1 _ _ _ hne⟩

/-! ## The engine's log answers as the log it stands for -/

namespace MessageLog

/-- The log a message log stands for: its messages, the positions of its pollers and its
capacity. -/
def view (log : MessageLog) : LogModel := ⟨log.messages.toList, log.position, log.capacity⟩

variable (log : MessageLog)

@[simp]
theorem messages_view : log.view.messages = log.messages.toList := rfl

@[simp]
theorem position_view : log.view.position = log.position := rfl

@[simp]
theorem capacity_view : log.view.capacity = log.capacity := rfl

/-- Appending reads no poller, so the log after it stands for the longer list. -/
theorem view_withMessages (ms : Array Bytes) :
    ({ log with messages := ms } : MessageLog).view = ⟨ms.toList, log.position, log.capacity⟩ :=
  rfl

theorem view_setPosition (p : String) (n : Nat) :
    (log.setPosition p n).view = log.view.setPosition p n := by
  have hposition : (log.setPosition p n).position = Function.update log.position p n := by
    funext q
    by_cases hq : q = p
    · subst hq
      rw [position_setPosition, Function.update_self]
    · rw [position_setPosition_of_ne _ _ hq, Function.update_of_ne hq]
  simp only [view, LogModel.setPosition, messages_setPosition, capacity_setPosition, hposition]

theorem fits_eq_full? (count : Nat) :
    log.fits count = match log.view.full? count with
      | some e => .error e
      | none => .ok () := by
  unfold fits LogModel.full? view
  cases log.capacity with
  | none => rfl
  | some c =>
    by_cases hfull : c < log.messages.size + count <;> simp [hfull, length]

theorem peek?_view (p : String) : log.view.peek? p = log.peek? p := by
  simp [LogModel.peek?, peek?, read?]

theorem toStored_eq_zipIdx :
    log.toStored = log.messages.toList.zipIdx.map fun (m, i) => ⟨i, m⟩ := by
  -- every index below the length reads a message, so the filter keeps them all
  have hmap : log.toStored = (List.range log.length).map fun i =>
      (⟨i, log.messages.toList.getD i []⟩ : Stored) := by
    refine List.filterMap_eq_map_iff_forall_eq_some.2 fun i hi => ?_
    rw [List.mem_range, length] at hi
    simp [read?, hi]
  rw [hmap]
  apply List.ext_getElem
  · simp [length]
  · intro i h₁ h₂
    have hi : i < log.messages.size := by simpa [length] using h₁
    simp [List.getElem_zipIdx, Array.getElem?_eq_getElem hi]

variable {log}

/-- While its fault switch is off and it appends batches whole, the engine's log answers an
operation as the log it stands for, and the log after it stands for the log after the
operation. -/
theorem step_view (hfault : log.failing = false) (hbatching : log.batching = .whole) (op : Op) :
    (log.step op).1 = (log.view.step op).1 ∧ (log.step op).2.view = (log.view.step op).2 ∧
      (log.step op).2.failing = false ∧ (log.step op).2.batching = .whole := by
  have hoff : ¬ log.fault = some true := by simpa [failing] using hfault
  cases op with
  | append m =>
    simp only [step, append, hfault, fits_eq_full?, LogModel.step, Bool.false_eq_true,
      ↓reduceIte]
    cases log.view.full? 1 with
    | some e => exact ⟨rfl, rfl, hfault, hbatching⟩
    | none =>
      refine ⟨by simp [length], ?_, hfault, hbatching⟩
      rw [view_withMessages, Array.toList_push]
      rfl
  | appendBatch ms =>
    simp only [step, appendBatch, hbatching, hfault, fits_eq_full?, LogModel.step,
      Bool.false_eq_true, ↓reduceIte]
    cases log.view.full? ms.length with
    | some e => exact ⟨rfl, rfl, hfault, hbatching⟩
    | none =>
      refine ⟨by simp [length], ?_, hfault, rfl⟩
      simp only [view, Array.toList_append]
      rfl
  | read i => exact ⟨by simp [step, LogModel.step, read?], rfl, hfault, hbatching⟩
  | peek p => exact ⟨by simp [step, LogModel.step, peek?_view], rfl, hfault, hbatching⟩
  | position p => exact ⟨rfl, rfl, hfault, hbatching⟩
  | advance p =>
    by_cases hend : log.messages.size ≤ log.position p
    · have hend' : ¬ log.position p < log.messages.size := by omega
      simp [step, advance, length, hend, LogModel.step, hend', hfault, hbatching]
    · have hend' : log.position p < log.messages.size := by omega
      simp [step, advance, length, hend, LogModel.step, hend', view_setPosition, hbatching, failing, hoff]
  | moveTo p n =>
    by_cases hpast : log.messages.size < n
    · have hpast' : ¬ n ≤ log.messages.size := by omega
      simp [step, moveTo, length, hpast, LogModel.step, hpast', hfault, hbatching]
    · have hpast' : n ≤ log.messages.size := by omega
      simp [step, moveTo, length, hpast, LogModel.step, hpast', view_setPosition, hbatching, failing, hoff]
  | poll p =>
    cases hm : log.peek? p with
    | none => simp [step, poll, hm, LogModel.step, peek?_view, hfault, hbatching]
    | some m =>
      -- a poller that points at a message is short of the end, so it advances
      have hshort : ¬ log.length ≤ log.position p := by
        obtain ⟨-, hbytes⟩ := peek?_eq_some.1 hm
        have := (List.getElem?_eq_some_iff.1 hbytes).1
        simp only [Array.length_toList] at this
        simp only [length]
        omega
      simp [step, poll, hm, advance, hshort, LogModel.step, peek?_view, view_setPosition,
        hbatching, failing, hoff]
  | iter =>
    exact ⟨by simp [step, LogModel.step, toStored_eq_zipIdx], rfl, hfault, hbatching⟩

theorem run_view (hfault : log.failing = false) (hbatching : log.batching = .whole)
    (ops : List Op) :
    (log.run ops).1 = (log.view.run ops).1 ∧ (log.run ops).2.view = (log.view.run ops).2 := by
  induction ops generalizing log with
  | nil => exact ⟨rfl, rfl⟩
  | cons op ops ih =>
    obtain ⟨hreply, hview, hfault₁, hbatching₁⟩ := step_view hfault hbatching op
    obtain ⟨hreplies, hrun⟩ := ih hfault₁ hbatching₁
    rw [hview] at hreplies hrun
    exact ⟨by simp [run, LogModel.run, hreply, hreplies], by simpa [run, LogModel.run] using hrun⟩

end MessageLog

/-- The engine's log, new or with a capacity, and the in-memory store started alike answer
every run of operations alike, and the store then lays out the log the engine's log stands
for. -/
theorem engine_log_laid_out_in_arena (ops : List MessageLog.Op) :
    ((({} : MessageLog).run ops).1 = (ArenaLog.new.run ops).1 ∧
      (ArenaLog.new.run ops).2.Holds (({} : MessageLog).run ops).2.view) ∧
    ∀ c, (({ capacity := some c } : MessageLog).run ops).1 =
        ((ArenaLog.withCapacityLimit c).run ops).1 ∧
      ((ArenaLog.withCapacityLimit c).run ops).2.Holds
        (({ capacity := some c } : MessageLog).run ops).2.view := by
  have hnew : ({} : MessageLog).view = LogModel.empty none := rfl
  obtain ⟨hreplies, hview⟩ :=
    MessageLog.run_view (show ({} : MessageLog).failing = false from rfl) rfl ops
  obtain ⟨hreplies', hholds⟩ := ArenaLog.holds_new.run ops
  refine ⟨⟨by rw [hreplies, hnew, hreplies'], by rw [hview, hnew]; exact hholds⟩, fun c => ?_⟩
  have hlimit : ({ capacity := some c } : MessageLog).view = LogModel.empty (some c) := rfl
  obtain ⟨hreplies, hview⟩ :=
    MessageLog.run_view (show ({ capacity := some c } : MessageLog).failing = false from rfl) rfl
      ops
  obtain ⟨hreplies', hholds⟩ := (ArenaLog.holds_withCapacityLimit c).run ops
  exact ⟨by rw [hreplies, hlimit, hreplies'], by rw [hview, hlimit]; exact hholds⟩

end EventSourcing
