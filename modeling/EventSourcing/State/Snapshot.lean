import EventSourcing.State.Base
import EventSourcing.Json.Skip

/-!
# Reading a snapshot

A snapshot is read back as an object with the fields `last_event_sequence` (an unsigned
64-bit integer) and `command_sequences` (an object from source ids, written as decimal
numbers inside the key's quotes, to unsigned 64-bit sequences), in any order, other fields
passed over unread; or as an array of those two values in that order.

Reading goes left to right and stops at the first fault. A fault of the text itself is a
flaw of the JSON reader (the text ending too early is one kind of flaw); a well-formed value
of the wrong kind or range, a field given twice, and a field missing are faults of the data.
A value of the wrong kind is read to its end first, so that a flaw inside it comes first.
-/

namespace EventSourcing

/-- Why a text is no snapshot. -/
inductive SnapshotFailure where
  /-- The text is not JSON at some point, or ends too early. -/
  | flawed (flaw : Json.Flaw)
  /-- The text is JSON, but not a snapshot. -/
  | data
  deriving DecidableEq, Repr

namespace SnapshotFailure

/-- The name of the failure's category. -/
def category : SnapshotFailure → String
  | flawed f => if f.isEof then "Eof" else "Syntax"
  | data => "Data"

end SnapshotFailure

namespace Snapshot

open Json

/-- A result of reading part of a snapshot, with the cursor after it. -/
abbrev Step (α : Type) := Except SnapshotFailure (α × Cursor)

/-- A flaw of the JSON reader as a failure. -/
def ofError (e : ReadError) : SnapshotFailure := .flawed e.flaw

/-- The failure of a value of the wrong kind at the cursor: a scalar is read to its end, so
that its own flaw comes first; an array or object is refused at once. -/
def wrongKind (c : Cursor) : SnapshotFailure :=
  let scalar (r : Except ReadError Cursor) : SnapshotFailure :=
    match r with
    | .ok _ => .data
    | .error e => ofError e
  match c.peek? with
  | some 110 => scalar (readWord [117, 108, 108] c.advance)
  | some 116 => scalar (readWord [114, 117, 101] c.advance)
  | some 102 => scalar (readWord [97, 108, 115, 101] c.advance)
  | some 45 => scalar (Except.map (·.2) (readNumber false c.advance))
  | some 34 => scalar (Except.map (·.2) (readQuoted c.advance))
  | some 91 | some 123 => .data
  | some b => if isDigitByte b then scalar (Except.map (·.2) (readNumber true c))
    else ofError (c.failAhead .expectedSomeValue)
  | none => ofError (c.failAhead .expectedSomeValue)

/-- An unsigned 64-bit integer. -/
def readSequence (c : Cursor) : Step UInt64 :=
  let c := c.skipBlanks
  let number (r : Read Number) : Step UInt64 :=
    match r with
    | .ok (.unsigned n, c) => .ok (n.toUInt64, c)
    | .ok _ => .error .data
    | .error e => .error (ofError e)
  match c.peek? with
  | none => .error (ofError (c.failAhead .eofWhileParsingValue))
  | some 45 => number (readNumber false c.advance)
  | some b => if isDigitByte b then number (readNumber true c) else .error (wrongKind c)

/-- A source id written inside a key's quotes, at the opening quote. -/
def readSourceKey (c : Cursor) : Step SourceId :=
  let c := c.advance
  match c.peek? with
  | some b =>
    if !(isDigitByte b || b == 45) then .error (ofError (c.fail .expectedNumericKey))
    else
      let value := if b == 45 then readNumber false c.advance else readNumber true c
      match value with
      | .error e => .error (ofError e)
      | .ok (n, c) =>
        let checked : Except SnapshotFailure SourceId := match n with
          | .unsigned k => if k ≤ 2147483647 then .ok (Int32.ofNat k) else .error .data
          | .negative i => if -2147483648 ≤ i then .ok (Int32.ofInt i) else .error .data
          | .float _ => .error .data
        match checked with
        | .error f => .error f
        | .ok source =>
          match c.peek? with
          | some 34 => .ok (source, c.advance)
          | _ => .error (ofError (c.failAhead .expectedNumericKey))
  | none => .error (ofError (c.fail .expectedNumericKey))

/-- The `:` between a key and its value. -/
def readColon (c : Cursor) : Except SnapshotFailure Cursor :=
  (Json.readColon c).mapError ofError

/-- The entries of the watermark object after its opening brace. -/
def readEntries : Nat → Bool → List (SourceId × UInt64) → Cursor →
    Step (List (SourceId × UInt64))
  | 0, _, _, c => .error (ofError (c.fail .eofWhileParsingObject))
  | fuel + 1, first, acc, c =>
    let c := c.skipBlanks
    let entry (c : Cursor) : Except SnapshotFailure (List (SourceId × UInt64) × Cursor) :=
      match c.peek? with
      | some 34 => do
        let (source, c) ← readSourceKey c
        let c ← readColon c
        let (sequence, c) ← readSequence c
        readEntries fuel false (Keyed.insert acc source sequence) c
      | some 125 => .error (ofError (c.failAhead .trailingComma))
      | some _ => .error (ofError (c.failAhead .keyMustBeAString))
      | none => .error (ofError (c.failAhead .eofWhileParsingValue))
    match c.peek? with
    | some 125 => .ok (acc, c.advance)
    | some 44 => if first then entry c else entry c.advance.skipBlanks
    | some _ => if first then entry c else .error (ofError (c.failAhead .expectedObjectCommaOrEnd))
    | none => .error (ofError (c.failAhead .eofWhileParsingObject))

/-- The watermark object. -/
def readSources (c : Cursor) : Step (List (SourceId × UInt64)) :=
  let c := c.skipBlanks
  match c.peek? with
  | none => .error (ofError (c.failAhead .eofWhileParsingValue))
  | some 123 => readEntries (c.rest.length + 1) true [] c.advance
  | some _ => .error (wrongKind c)

/-- The fields read so far of a snapshot object. -/
structure Fields where
  lastEvent : Option UInt64 := none
  sources : Option (List (SourceId × UInt64)) := none

/-- The fields of a snapshot object after its opening brace. A field given twice is refused
before its value is read. -/
def readFields : Nat → Bool → Fields → Cursor → Step Fields
  | 0, _, _, c => .error (ofError (c.fail .eofWhileParsingObject))
  | fuel + 1, first, acc, c =>
    let c := c.skipBlanks
    let field (c : Cursor) : Except SnapshotFailure (Fields × Cursor) :=
      match c.peek? with
      | some 34 => do
        let (key, c) ← (readQuoted c.advance).mapError ofError
        if key == "last_event_sequence" then
          if acc.lastEvent.isSome then throw .data
          let c ← readColon c
          let (n, c) ← readSequence c
          readFields fuel false { acc with lastEvent := some n } c
        else if key == "command_sequences" then
          if acc.sources.isSome then throw .data
          let c ← readColon c
          let (m, c) ← readSources c
          readFields fuel false { acc with sources := some m } c
        else
          let c ← readColon c
          let c ← (skipValue c).mapError ofError
          readFields fuel false acc c
      | some 125 => .error (ofError (c.failAhead .trailingComma))
      | some _ => .error (ofError (c.failAhead .keyMustBeAString))
      | none => .error (ofError (c.failAhead .eofWhileParsingValue))
    match c.peek? with
    | some 125 => .ok (acc, c.advance)
    | some 44 => if first then field c else field c.advance.skipBlanks
    | some _ => if first then field c else .error (ofError (c.failAhead .expectedObjectCommaOrEnd))
    | none => .error (ofError (c.failAhead .eofWhileParsingObject))

/-- The end of a snapshot written as an array, after its two elements. -/
def readArrayEnd (c : Cursor) : Except SnapshotFailure Cursor :=
  let c := c.skipBlanks
  match c.peek? with
  | some 93 => .ok c.advance
  | some 44 =>
    let c := c.advance.skipBlanks
    match c.peek? with
    | some 93 => .error (ofError (c.failAhead .trailingComma))
    | _ => .error (ofError (c.failAhead .trailingCharacters))
  | some _ => .error (ofError (c.failAhead .trailingCharacters))
  | none => .error (ofError (c.failAhead .eofWhileParsingList))

/-- A snapshot written as an array, after its opening bracket. -/
def readArray (c : Cursor) : Except SnapshotFailure (BaseState × Cursor) := do
  let c := c.skipBlanks
  let (last, c) ← match c.peek? with
    | none => throw (ofError (c.failAhead .eofWhileParsingList))
    | some 93 => throw .data
    | some _ => readSequence c
  let c := c.skipBlanks
  let (sources, c) ← match c.peek? with
    | none => throw (ofError (c.failAhead .eofWhileParsingList))
    | some 93 => throw .data
    | some 44 =>
      let c := c.advance.skipBlanks
      match c.peek? with
      | some 93 => throw (ofError (c.failAhead .trailingComma))
      | none => throw (ofError (c.failAhead .eofWhileParsingValue))
      | some _ => readSources c
    | some _ => throw (ofError (c.failAhead .expectedListCommaOrEnd))
  let c ← readArrayEnd c
  pure ({ lastEvent := last, sources := sources }, c)

/-- A snapshot at the start of a text, and the rest. -/
def readState (c : Cursor) : Step BaseState :=
  let c := c.skipBlanks
  match c.peek? with
  | none => .error (ofError (c.failAhead .eofWhileParsingValue))
  | some 123 =>
    match readFields (c.rest.length + 1) true {} c.advance with
    | .error e => .error e
    | .ok (fields, c) =>
      match fields.lastEvent, fields.sources with
      | some last, some sources => .ok ({ lastEvent := last, sources := sources }, c)
      | _, _ => .error .data
  | some 91 => readArray c.advance
  | some _ => .error (wrongKind c)

end Snapshot

namespace BaseState

/-- The base state a snapshot text holds; only blanks may follow it. -/
def restore (text : String) : Except SnapshotFailure BaseState :=
  match Snapshot.readState (Json.Cursor.start (Bytes.ofString text)) with
  | .error e => .error e
  | .ok (state, c) =>
    let c := c.skipBlanks
    if c.rest.isEmpty then .ok state
    else .error (Snapshot.ofError (c.failAhead .trailingCharacters))

end BaseState

end EventSourcing
