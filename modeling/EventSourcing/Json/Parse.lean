import EventSourcing.Json.Number
import EventSourcing.Json.Quoted

/-!
# Reading JSON

A reader for JSON text, as UTF-8 bytes. Arrays and objects may nest 127 deep: the reader
refuses the 128th opening bracket or brace where it stands. An object keeps each key once,
the last value written for it, and holds its keys in ascending order. Only blanks may follow
the value.

A refused text is reported as the flaw and its line and column, such as
`recursion limit exceeded at line 1 column 159`.
-/

namespace EventSourcing.Json

/-- The bytes of a word after its first letter, each of which must follow. -/
def readWord (word : List UInt8) (c : Cursor) : Except ReadError Cursor :=
  match word with
  | [] => .ok c
  | w :: rest =>
    match c.next? with
    | none => .error (c.fail .eofWhileParsingValue)
    | some (b, c) => if b == w then readWord rest c else .error (c.fail .expectedSomeIdent)

/-- Puts a field among fields held in ascending key order, a later value for a key replacing
the earlier one. -/
def insertField (key : String) (value : Json) : List (String × Json) → List (String × Json)
  | [] => [(key, value)]
  | (k, v) :: rest =>
    if key == k then (key, value) :: rest
    else if key < k then (key, value) :: (k, v) :: rest
    else (k, v) :: insertField key value rest

/-- How many arrays and objects may be open at once, plus one. -/
def nestingLimit : Nat := 128

/-- The `:` after a key. -/
def readColon (c : Cursor) : Except ReadError Cursor :=
  let c := c.skipBlanks
  match c.peek? with
  | some 58 => .ok c.advance
  | some _ => .error (c.failAhead .expectedColon)
  | none => .error (c.failAhead .eofWhileParsingObject)

mutual

/-- A value, after any blanks. `depth` counts the arrays and objects that may still open,
plus one, and `fuel` bounds the number of steps. -/
def readValue (fuel depth : Nat) (c : Cursor) : Read Json :=
  match fuel with
  | 0 => .error (c.fail .eofWhileParsingValue)
  | fuel + 1 =>
    let c := c.skipBlanks
    match c.peek? with
    | none => .error (c.failAhead .eofWhileParsingValue)
    | some 110 => Except.map (fun c => (Json.null, c)) (readWord [117, 108, 108] c.advance)
    | some 116 => Except.map (fun c => (Json.bool true, c)) (readWord [114, 117, 101] c.advance)
    | some 102 => Except.map (fun c => (Json.bool false, c)) (readWord [97, 108, 115, 101] c.advance)
    | some 45 => Except.map (fun (n, c) => (n.toJson, c)) (readNumber false c.advance)
    | some 34 => Except.map (fun (s, c) => (Json.str s, c)) (readQuoted c.advance)
    | some 91 =>
      if depth ≤ 1 then .error (c.failAhead .recursionLimitExceeded)
      else readItems fuel (depth - 1) true [] c.advance
    | some 123 =>
      if depth ≤ 1 then .error (c.failAhead .recursionLimitExceeded)
      else readFields fuel (depth - 1) true [] c.advance
    | some b =>
      if isDigitByte b then Except.map (fun (n, c) => (n.toJson, c)) (readNumber true c)
      else .error (c.failAhead .expectedSomeValue)

/-- Array items after the opening bracket; `acc` holds the items read, last first. -/
def readItems (fuel depth : Nat) (first : Bool) (acc : List Json) (c : Cursor) : Read Json :=
  match fuel with
  | 0 => .error (c.fail .eofWhileParsingList)
  | fuel + 1 =>
    let c := c.skipBlanks
    let item (c : Cursor) : Read Json :=
      match readValue fuel depth c with
      | .error e => .error e
      | .ok (v, c) => readItems fuel depth false (v :: acc) c
    match c.peek? with
    | none => .error (c.failAhead .eofWhileParsingList)
    | some 93 => .ok (.arr acc.reverse, c.advance)
    | some 44 =>
      if first then item c
      else
        let c := c.advance.skipBlanks
        match c.peek? with
        | some 93 => .error (c.failAhead .trailingComma)
        | none => .error (c.failAhead .eofWhileParsingValue)
        | some _ => item c
    | some _ => if first then item c else .error (c.failAhead .expectedListCommaOrEnd)

/-- Object fields after the opening brace; `acc` holds the fields read. -/
def readFields (fuel depth : Nat) (first : Bool) (acc : List (String × Json)) (c : Cursor) :
    Read Json :=
  match fuel with
  | 0 => .error (c.fail .eofWhileParsingObject)
  | fuel + 1 =>
    let c := c.skipBlanks
    let field (c : Cursor) : Read Json :=
      match c.peek? with
      | some 34 =>
        match readQuoted c.advance with
        | .error e => .error e
        | .ok (key, c) =>
          match readColon c with
          | .error e => .error e
          | .ok c =>
            match readValue fuel depth c with
            | .error e => .error e
            | .ok (v, c) => readFields fuel depth false (insertField key v acc) c
      | some 125 => .error (c.failAhead .trailingComma)
      | some _ => .error (c.failAhead .keyMustBeAString)
      | none => .error (c.failAhead .eofWhileParsingValue)
    match c.peek? with
    | some 125 => .ok (.obj acc, c.advance)
    | some 44 => if first then field c else field c.advance.skipBlanks
    | some _ => if first then field c else .error (c.failAhead .expectedObjectCommaOrEnd)
    | none => .error (c.failAhead .eofWhileParsingObject)

end

/-- The value a whole text holds, or the report of its first fault. -/
def parse (text : String) : Except String Json :=
  let bytes := Bytes.ofString text
  match readValue (2 * bytes.length + 2) nestingLimit (Cursor.start bytes) with
  | .error e => .error (e.describe bytes)
  | .ok (v, c) =>
    let c := c.skipBlanks
    if c.rest.isEmpty then .ok v else .error ((c.failAhead .trailingCharacters).describe bytes)

end EventSourcing.Json
