/-!
# Event kinds

A transaction writes its events with one of four kinds: intermediary events, then one
terminal event that commits it, commits it with nothing routed, or rolls it back. The kind
travels in records as a one-byte code.

The main statements say that codes and names read back: `ofCode?_code` and `ofName?_name`.
-/

namespace EventSourcing

/-- The kind of an event within the transaction of its command. -/
inductive EventKind where
  /-- An event of a transaction that more events follow. -/
  | intermediary
  /-- The last event of a transaction that routed events. -/
  | commit
  /-- The only event of a transaction that routed nothing. -/
  | autoCommit
  /-- The only event of a transaction that was aborted. -/
  | rollback
  deriving DecidableEq, Repr, Inhabited

namespace EventKind

/-- All kinds, in the order of their codes. -/
def all : List EventKind := [intermediary, commit, autoCommit, rollback]

/-- The byte that stands for the kind in a record. -/
def code : EventKind → UInt8
  | intermediary => 0
  | commit => 1
  | autoCommit => 2
  | rollback => 3

/-- The kind a record byte stands for; bytes above three stand for none. -/
def ofCode? : UInt8 → Option EventKind
  | 0 => some intermediary
  | 1 => some commit
  | 2 => some autoCommit
  | 3 => some rollback
  | _ => none

/-- Every kind but the intermediary one ends a transaction. -/
def isTerminal : EventKind → Bool
  | intermediary => false
  | _ => true

/-- A commit, with or without routed events. -/
def isCommitted : EventKind → Bool
  | commit | autoCommit => true
  | _ => false

/-- A rollback. -/
def isRollback : EventKind → Bool
  | rollback => true
  | _ => false

/-- The name of the kind in reports and displays. -/
def name : EventKind → String
  | intermediary => "INTERMEDIARY"
  | commit => "COMMIT"
  | autoCommit => "AUTO_COMMIT"
  | rollback => "ROLLBACK"

/-- The name of the kind in field-by-field dumps. -/
def dumpName : EventKind → String
  | intermediary => "Intermediary"
  | commit => "Commit"
  | autoCommit => "AutoCommit"
  | rollback => "Rollback"

/-- The kind a report name stands for. -/
def ofName? (text : String) : Option EventKind :=
  all.find? (·.name == text)

@[simp]
theorem ofCode?_code (k : EventKind) : ofCode? k.code = some k := by
  cases k <;> rfl

theorem code_lt_four (k : EventKind) : k.code < 4 := by
  cases k <;> decide

/-- A byte that names a kind is that kind's code. -/
theorem code_of_ofCode? {c : UInt8} {k : EventKind} (h : ofCode? c = some k) : k.code = c := by
  unfold ofCode? at h
  split at h <;> cases h <;> rfl

/-- The bytes that name no kind are those above three. -/
theorem ofCode?_eq_none_iff (c : UInt8) : ofCode? c = none ↔ 3 < c := by
  unfold ofCode?
  split
  case h_5 h0 h1 h2 h3 =>
    simp only [← UInt8.toNat_inj] at h0 h1 h2 h3
    rw [UInt8.lt_iff_toNat_lt]
    simp at h0 h1 h2 h3 ⊢
    omega
  all_goals decide

@[simp]
theorem ofName?_name (k : EventKind) : ofName? k.name = some k := by
  cases k <;> rfl

end EventKind

end EventSourcing
