/-!
# Reading positions

JSON text is read as UTF-8 bytes, left to right, by a cursor that knows how many bytes lie
behind it. A fault found while reading is a `Flaw` reported at a byte offset: either the
offset of the cursor itself, which points just past the last byte read, or one further,
which points past the byte the reader was looking at without taking it. The offset becomes a
line and a column when the fault is reported: lines count from 1, and the column counts the
bytes before the offset on its line.
-/

namespace EventSourcing.Json

/-- What a reader finds wrong with JSON text. -/
inductive Flaw where
  | eofWhileParsingList
  | eofWhileParsingObject
  | eofWhileParsingString
  | eofWhileParsingValue
  | expectedColon
  | expectedListCommaOrEnd
  | expectedObjectCommaOrEnd
  | expectedSomeIdent
  | expectedSomeValue
  | invalidEscape
  | invalidNumber
  | numberOutOfRange
  | controlCharacterWhileParsingString
  | keyMustBeAString
  | expectedNumericKey
  | loneLeadingSurrogateInHexEscape
  | unexpectedEndOfHexEscape
  | trailingComma
  | trailingCharacters
  | recursionLimitExceeded
  deriving DecidableEq, Repr

namespace Flaw

/-- The sentence that names the flaw. -/
def message : Flaw → String
  | eofWhileParsingList => "EOF while parsing a list"
  | eofWhileParsingObject => "EOF while parsing an object"
  | eofWhileParsingString => "EOF while parsing a string"
  | eofWhileParsingValue => "EOF while parsing a value"
  | expectedColon => "expected `:`"
  | expectedListCommaOrEnd => "expected `,` or `]`"
  | expectedObjectCommaOrEnd => "expected `,` or `\x7d`"
  | expectedSomeIdent => "expected ident"
  | expectedSomeValue => "expected value"
  | invalidEscape => "invalid escape"
  | invalidNumber => "invalid number"
  | numberOutOfRange => "number out of range"
  | controlCharacterWhileParsingString =>
    "control character (\\u0000-\\u001F) found while parsing a string"
  | keyMustBeAString => "key must be a string"
  | expectedNumericKey => "invalid value: expected key to be a number in quotes"
  | loneLeadingSurrogateInHexEscape => "lone leading surrogate in hex escape"
  | unexpectedEndOfHexEscape => "unexpected end of hex escape"
  | trailingComma => "trailing comma"
  | trailingCharacters => "trailing characters"
  | recursionLimitExceeded => "recursion limit exceeded"

/-- Whether the flaw is that the text ended too early. -/
def isEof : Flaw → Bool
  | eofWhileParsingList | eofWhileParsingObject | eofWhileParsingString
  | eofWhileParsingValue => true
  | _ => false

end Flaw

/-- A flaw and the byte offset at which it is reported. -/
structure ReadError where
  flaw : Flaw
  offset : Nat
  deriving DecidableEq, Repr

/-- The line and column of a byte offset in a text: lines count from 1, and the column is the
number of bytes before the offset on its line. -/
def lineColumn (text : List UInt8) (offset : Nat) : Nat × Nat :=
  let before := text.take offset
  let lineStart := before.length - (before.reverse.takeWhile (· != 10)).length
  (1 + (before.filter (· == 10)).length, offset - lineStart)

/-- The report of a fault in a text: the flaw, then where it is. -/
def ReadError.describe (e : ReadError) (text : List UInt8) : String :=
  let (line, column) := lineColumn text e.offset
  s!"{e.flaw.message} at line {line} column {column}"

/-- A place in a text: the bytes still to read, and how many bytes were read before them. -/
structure Cursor where
  rest : List UInt8
  offset : Nat
  deriving DecidableEq, Repr

/-- A result of reading that leaves a cursor after what was read. -/
abbrev Read (α : Type) := Except ReadError (α × Cursor)

namespace Cursor

/-- The start of a text. -/
def start (text : List UInt8) : Cursor := ⟨text, 0⟩

/-- The next byte, not taken. -/
def peek? (c : Cursor) : Option UInt8 := c.rest.head?

/-- The cursor after the next byte. -/
def advance (c : Cursor) : Cursor :=
  match c.rest with
  | [] => c
  | _ :: rest => ⟨rest, c.offset + 1⟩

/-- The next byte, taken. -/
def next? (c : Cursor) : Option (UInt8 × Cursor) :=
  match c.rest with
  | [] => none
  | b :: rest => some (b, ⟨rest, c.offset + 1⟩)

/-- Whether a byte is a JSON blank: space, tab, newline or carriage return. -/
def isBlank (b : UInt8) : Bool := b == 32 || b == 9 || b == 10 || b == 13

/-- The cursor after the blanks ahead of it. -/
def skipBlanks (c : Cursor) : Cursor :=
  let blanks := (c.rest.takeWhile isBlank).length
  ⟨c.rest.drop blanks, c.offset + blanks⟩

/-- A flaw reported at the cursor. -/
def fail (c : Cursor) (flaw : Flaw) : ReadError := ⟨flaw, c.offset⟩

/-- A flaw reported past the byte ahead of the cursor, or at the cursor at the end. -/
def failAhead (c : Cursor) (flaw : Flaw) : ReadError :=
  ⟨flaw, if c.rest.isEmpty then c.offset else c.offset + 1⟩

end Cursor

/-- Whether a byte is a decimal digit. -/
def isDigitByte (b : UInt8) : Bool := 48 ≤ b && b ≤ 57

end EventSourcing.Json
