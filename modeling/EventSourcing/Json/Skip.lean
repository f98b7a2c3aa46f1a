import EventSourcing.Json.Parse

/-!
# Passing over a value

A value that a typed reader does not keep is passed over without being built. Its words,
numbers and strings are only checked for their shape: a number is never formed, so it cannot
be out of range, and a string may hold any `\u` escape. Arrays and objects are tracked by a
stack of the brackets still open, so they may nest to any depth.

A fault in a passed-over array is reported a little differently from the reader that keeps
values: a comma before the closing bracket is a missing value rather than a trailing comma.
-/

namespace EventSourcing.Json

/-- Where the passing-over stands: before a value, or after a value or an opening bracket,
where a comma is allowed only after a value. -/
inductive SkipPoint where
  | value
  | after (commaAllowed : Bool)
  deriving DecidableEq, Repr

/-- The key and colon of an object member, then the point before its value. -/
def skipKey (c : Cursor) : Except ReadError Cursor :=
  let c := c.skipBlanks
  match c.peek? with
  | some 34 =>
    match skipQuoted c.advance with
    | .error e => .error e
    | .ok c =>
      let c := c.skipBlanks
      match c.peek? with
      | some 58 => .ok c.advance
      | some _ => .error (c.failAhead .expectedColon)
      | none => .error (c.failAhead .eofWhileParsingObject)
  | some _ => .error (c.failAhead .keyMustBeAString)
  | none => .error (c.failAhead .eofWhileParsingObject)

/-- Passes over a scalar at the cursor, its first byte not yet taken. -/
def skipScalar (b : UInt8) (c : Cursor) : Except ReadError Cursor :=
  match b with
  | 110 => readWord [117, 108, 108] c.advance
  | 116 => readWord [114, 117, 101] c.advance
  | 102 => readWord [97, 108, 115, 101] c.advance
  | 45 => skipNumber c.advance
  | 34 => skipQuoted c.advance
  | _ => if isDigitByte b then skipNumber c else .error (c.failAhead .expectedSomeValue)

/-- Passes over values; `brackets` holds the brackets still open, innermost first. -/
def skipFrom : Nat → SkipPoint → List UInt8 → Cursor → Except ReadError Cursor
  | 0, _, _, c => .error (c.fail .eofWhileParsingValue)
  | fuel + 1, .value, brackets, c =>
    let c := c.skipBlanks
    match c.peek? with
    | none => .error (c.failAhead .eofWhileParsingValue)
    | some 91 => skipFrom fuel (.after false) (91 :: brackets) c.advance
    | some 123 => skipFrom fuel (.after false) (123 :: brackets) c.advance
    | some b =>
      match skipScalar b c with
      | .error e => .error e
      | .ok c => skipFrom fuel (.after true) brackets c
  | _ + 1, .after _, [], c => .ok c
  | fuel + 1, .after commaAllowed, bracket :: outer, c =>
    let c := c.skipBlanks
    let closer : UInt8 := if bracket == 91 then 93 else 125
    let member (c : Cursor) : Except ReadError Cursor :=
      if bracket == 123 then
        match skipKey c with
        | .error e => .error e
        | .ok c => skipFrom fuel .value (bracket :: outer) c
      else skipFrom fuel .value (bracket :: outer) c
    match c.peek? with
    | none =>
      .error (c.failAhead (if bracket == 91 then .eofWhileParsingList else .eofWhileParsingObject))
    | some b =>
      if b == 44 && commaAllowed then member c.advance
      else if b == closer then skipFrom fuel (.after true) outer c.advance
      else if commaAllowed then
        .error (c.failAhead
          (if bracket == 91 then .expectedListCommaOrEnd else .expectedObjectCommaOrEnd))
      else member c

/-- Passes over one value. -/
def skipValue (c : Cursor) : Except ReadError Cursor :=
  skipFrom (3 * c.rest.length + 3) .value [] c

end EventSourcing.Json
