import EventSourcing.Text.Blank

/-!
# Decimal integers of a bounded width

Integers are read as an optional sign and ASCII digits, within the bounds of their width.
The digits are read from the left; the first character that is no digit, or the first
digit that carries the value past its bound, decides the error. A minus sign is a sign
only for signed widths; for unsigned ones it is a character that is no digit.
-/

namespace EventSourcing.Text

/-- Why a text is no integer of the wanted width. -/
inductive IntegerError where
  | empty
  | invalidDigit
  | tooLarge
  | tooSmall
  deriving DecidableEq, Repr

namespace IntegerError

/-- The sentence that reports the error. -/
def message : IntegerError → String
  | empty => "cannot parse integer from empty string"
  | invalidDigit => "invalid digit found in string"
  | tooLarge => "number too large to fit in target type"
  | tooSmall => "number too small to fit in target type"

end IntegerError

/-- The bounds of an integer width. -/
structure Width where
  signed : Bool
  /-- The largest magnitude of a positive value. -/
  maxPositive : Nat
  /-- The largest magnitude of a negative value. -/
  maxNegative : Nat

namespace Width

/-- Signed 32-bit integers. -/
def int32 : Width := ⟨true, 2147483647, 2147483648⟩
/-- Signed 64-bit integers. -/
def int64 : Width := ⟨true, 9223372036854775807, 9223372036854775808⟩
/-- Unsigned 32-bit integers. -/
def uint32 : Width := ⟨false, 4294967295, 0⟩
/-- Unsigned 64-bit integers. -/
def uint64 : Width := ⟨false, 18446744073709551615, 0⟩

end Width

/-- Reads digits onto `acc`, failing at the first non-digit or once the value passes
`bound`; `overflow` is the error for passing it. -/
def readDigits (bound : Nat) (overflow : IntegerError) : Nat → List Char → Except IntegerError Nat
  | acc, [] => .ok acc
  | acc, c :: rest =>
    if c.isDigit then
      let next := acc * 10 + (c.toNat - 48)
      if bound < next then .error overflow else readDigits bound overflow next rest
    else .error .invalidDigit

/-- The integer a text stands for in the given width. -/
def parseInteger (w : Width) (s : String) : Except IntegerError Int :=
  match s.toList with
  | [] => .error .empty
  | ['+'] => .error .invalidDigit
  | ['-'] => .error .invalidDigit
  | '+' :: digits => Int.ofNat <$> readDigits w.maxPositive .tooLarge 0 digits
  | '-' :: digits =>
    if w.signed then (fun n : Nat => -(n : Int)) <$> readDigits w.maxNegative .tooSmall 0 digits
    else .error .invalidDigit
  | digits => Int.ofNat <$> readDigits w.maxPositive .tooLarge 0 digits

/-- A signed 32-bit integer. -/
def parseInt32 (s : String) : Except IntegerError Int32 :=
  Int32.ofInt <$> parseInteger .int32 s

/-- A signed 64-bit integer. -/
def parseInt64 (s : String) : Except IntegerError Int64 :=
  Int64.ofInt <$> parseInteger .int64 s

/-- An unsigned 32-bit integer. -/
def parseUInt32 (s : String) : Except IntegerError UInt32 :=
  (fun i : Int => i.toNat.toUInt32) <$> parseInteger .uint32 s

/-- An unsigned 64-bit integer. -/
def parseUInt64 (s : String) : Except IntegerError UInt64 :=
  (fun i : Int => i.toNat.toUInt64) <$> parseInteger .uint64 s

/-- An unsigned integer of the machine's word width, which is 64 bits. -/
def parseSize (s : String) : Except IntegerError Nat :=
  Int.toNat <$> parseInteger .uint64 s

end EventSourcing.Text
