import EventSourcing.Record.Kind
import EventSourcing.Text.Blank

/-!
# Replay modes

Whether appliers see every event, or every event but rollbacks. A mode is named
`replay_all` or `replay_non_aborted`; when read from text, letters may be of either case,
dashes stand for underscores, and the `replay_` prefix may be left out.
-/

namespace EventSourcing

/-- Which events reach the appliers. -/
inductive ReplayMode where
  /-- Every event. -/
  | all
  /-- Every event but rollbacks. -/
  | nonAborted
  deriving DecidableEq, Repr, Inhabited

namespace ReplayMode

/-- Whether appliers see an event of the kind. -/
def admits : ReplayMode → EventKind → Bool
  | all, _ => true
  | nonAborted, k => !k.isRollback

/-- The name of the mode. -/
def name : ReplayMode → String
  | all => "replay_all"
  | nonAborted => "replay_non_aborted"

/-- The name of the mode in field-by-field dumps. -/
def dumpName : ReplayMode → String
  | all => "ReplayAll"
  | nonAborted => "ReplayNonAborted"

/-- The mode a name stands for, exactly as written. -/
def ofName? (text : String) : Option ReplayMode :=
  if text == "replay_all" then some all
  else if text == "replay_non_aborted" then some nonAborted
  else none

/-- The text a mode is read from: ASCII letters lowercased, dashes made underscores. -/
def normalize (text : String) : String :=
  (Text.asciiLower text).map fun c => if c == '-' then '_' else c

/-- Reads a mode from text, or says which normalized text names no mode. -/
def parse (text : String) : Except String ReplayMode :=
  let t := normalize text
  if t == "all" || t == "replay_all" then .ok all
  else if t == "non_aborted" || t == "replay_non_aborted" then .ok nonAborted
  else .error s!"unknown replay mode '{t}'"

/-- A mode's name is already in normal form. -/
theorem normalize_name (m : ReplayMode) : normalize m.name = m.name := by
  cases m <;> decide +kernel

/-- Reading a mode's name gives the mode back. -/
theorem parse_name (m : ReplayMode) : parse m.name = .ok m := by
  unfold parse
  rw [normalize_name]
  cases m <;> rfl

end ReplayMode

end EventSourcing
