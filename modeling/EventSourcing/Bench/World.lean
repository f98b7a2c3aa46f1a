import EventSourcing.Engine.Basic
import EventSourcing.Demo.Ledger
import EventSourcing.Demo.Warehouse
import EventSourcing.Keyed

/-!
# The bench's world

A bench runs an engine over a world that holds the two demo applications and everything the
bench's members record: the appliers' and outputs' logs, the commands its inputs sent, the
reports of the engine's handlers, and the fixtures, which record what each recording member
saw. Scripted outputs count their calls and loopbacks and scripted inputs keep their cursors;
those counts outlive a rebuild of the engine, while the applications and the fixtures start
afresh.
-/

namespace EventSourcing.Bench

/-- One call of a scripted output: the event, the attempt, the loopback it made and how it
answered (an acknowledgement or the text of its failure). -/
structure OutputCall where
  output : String
  eventSequence : UInt64
  attempt : Nat
  replay : Bool
  loopback : Option (Except EngineError UInt64) := none
  outcome : Except String Ack
  deriving Repr

/-- One publication seen by a recording output. -/
structure Published where
  event : Event
  replay : Bool
  attempt : Nat
  deriving Repr

/-- The counts a scripted output keeps across rebuilds. -/
structure ScriptCounts where
  calls : Nat := 0
  loopbacks : Nat := 0
  deriving Repr, Inhabited

/-- The state of a bench. -/
structure World where
  ledger : Ledger := {}
  warehouse : Warehouse := {}
  /-- `[applier, event, kind]` per event a recording applier saw. -/
  applied : List (String × UInt64 × EventKind) := []
  calls : List OutputCall := []
  /-- `[input, sequence]` per command an input sent. -/
  sent : List (String × UInt64) := []
  /-- `[source, sequence, watermark]` per duplicate skipped. -/
  duplicates : List (SourceId × UInt64 × UInt64) := []
  processingErrors : List (SourceId × UInt64 × String) := []
  outputErrors : List (String × UInt64 × Nat) := []
  inputErrors : List (String × String) := []
  /-- The events each recording applier saw, by instance number. -/
  seenBy : List (Nat × List Event) := []
  /-- The publications each recording output saw, by name. -/
  publishedBy : List (String × List Published) := []
  /-- The `(event, attempt)` pairs each flaky output was offered, by name. -/
  attemptsBy : List (String × List (UInt64 × Nat)) := []
  scripted : List (String × ScriptCounts) := []
  /-- The progress of each input, by instance number: steps taken, or commands sent. -/
  cursors : List (Nat × Nat) := []
  /-- Whether a member panicked where the engine does not catch it, which ends the run. -/
  panicked : Bool := false
  deriving Repr, Inhabited

namespace World

/-- The ledger within the world. -/
def ledgerFocus : Focus World Ledger := ⟨(·.ledger), fun f w => { w with ledger := f w.ledger }⟩

/-- The warehouse within the world. -/
def warehouseFocus : Focus World Warehouse :=
  ⟨(·.warehouse), fun f w => { w with warehouse := f w.warehouse }⟩

/-- The counts of a scripted output. -/
def countsOf (w : World) (name : String) : ScriptCounts := Keyed.findD w.scripted name {}

/-- Changes the counts of a scripted output. -/
def updateCounts (w : World) (name : String) (f : ScriptCounts → ScriptCounts) : World :=
  { w with scripted := Keyed.insert w.scripted name (f (w.countsOf name)) }

/-- The cursor of an input. -/
def cursorOf (w : World) (key : Nat) : Nat := Keyed.findD w.cursors key 0

/-- Sets the cursor of an input. -/
def setCursor (w : World) (key : Nat) (n : Nat) : World :=
  { w with cursors := Keyed.insert w.cursors key n }

/-- Appends to a log kept by key. -/
def note {κ α : Type} [LT κ] [DecidableRel (α := κ) (· < ·)] [DecidableEq κ]
    (logs : List (κ × List α)) (key : κ) (a : α) : List (κ × List α) :=
  Keyed.insert logs key (Keyed.findD logs key [] ++ [a])

/-- The world of a rebuilt engine: fresh applications and fixtures, the counts kept. -/
def rebuilt (w : World) : World :=
  { w with ledger := {}, warehouse := {},
           seenBy := w.seenBy.map (fun (k, _) => (k, [])),
           publishedBy := w.publishedBy.map (fun (k, _) => (k, [])),
           attemptsBy := w.attemptsBy.map (fun (k, _) => (k, [])) }

end World

/-- The handlers that record every report into the world. -/
def recordingHandlers : Handlers World where
  processingError c f w :=
    { w with processingErrors := w.processingErrors ++ [(c.source, c.sequence, f.render)] }
  outputError name e attempts _ w :=
    { w with outputErrors := w.outputErrors ++ [(name, e.sequence, attempts)] }
  inputError name f w := { w with inputErrors := w.inputErrors ++ [(name, f.render)] }
  duplicate c last w := { w with duplicates := w.duplicates ++ [(c.source, c.sequence, last)] }

end EventSourcing.Bench
