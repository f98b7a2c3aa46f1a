import EventSourcing.Json.Basic
import EventSourcing.Json.Cursor

/-!
# Number literals

A number literal is an optional `-`, an integer part without leading zeros, an optional
fraction and an optional exponent. An integer literal is an unsigned integer when it fits a
64-bit word, a negative integer when its negation fits a signed 64-bit word, and otherwise,
like every literal with a fraction or an exponent, a double.

The double is not the one nearest to the literal. The digits are gathered into a significand
while it stays below `2^64`: once a digit of the integer part would pass that bound, that
digit and the integer digits after it only raise the decimal exponent, and once a digit of
the fraction would pass it, the rest of the fraction is dropped. The significand is then
rounded to a double and multiplied, or divided, by the double nearest to `10^k`, rounding
once more; an exponent past 308 first divides by `10^308` as often as it takes. So `7.4e47`
reads as `7.399999999999999e+47`. A product past the largest double is out of range, while
an exponent too large to count gives zero when it is negative or the significand is zero.
-/

namespace EventSourcing.Json

open Text

/-- A number as read from its literal. -/
inductive Number where
  /-- An integer below `2^64`. -/
  | unsigned (n : Nat)
  /-- A negative integer of at least `-2^63`. -/
  | negative (i : Int)
  /-- A double. -/
  | float (d : Double)
  deriving DecidableEq, Repr

/-- The JSON value of a number. -/
def Number.toJson : Number → Json
  | .unsigned n => .int n
  | .negative i => .int i
  | .float d => .float d

/-- The largest unsigned 64-bit word. -/
def wordLimit : Nat := 18446744073709551615

/-- The largest signed 32-bit integer, the bound of a decimal exponent. -/
def exponentLimit : Nat := 2147483647

/-- An integer clamped to the signed 32-bit range. -/
def clampExponent (x : Int) : Int := max (-2147483648) (min 2147483647 x)

/-- The value of a digit byte. -/
def digitOf (b : UInt8) : Nat := b.toNat - 48

/-- Scales a double by `10^exponent`: one product or quotient by the double nearest to the
power, each rounded, after dividing by `10^308` while the exponent is below -308. `none` when
the product passes the largest double. -/
def scaleByPowerOfTen (fuel : Nat) (f : Double) (exponent : Int) : Option Double :=
  match fuel with
  | 0 => some Double.zero
  | fuel + 1 =>
    if exponent.natAbs ≤ 308 then
      if 0 ≤ exponent then
        let g := f.mulAbs (Double.pow10 exponent.natAbs)
        if g.isFinite then some g else none
      else some (f.divAbs (Double.pow10 exponent.natAbs))
    else if f.isZero then some f
    else if 0 ≤ exponent then none
    else scaleByPowerOfTen fuel (f.divAbs (Double.pow10 308)) (exponent + 308)

/-- The double of a sign, a significand and a decimal exponent. Four divisions by `10^308`
take any significand below `2^64` to zero, so eight rounds are enough. -/
def doubleOfParts (positive : Bool) (significand : Nat) (exponent : Int) : Option Double :=
  (scaleByPowerOfTen 8 (Double.ofNat significand) exponent).map fun d =>
    if positive then d else d.neg

/-- The cursor after the digits ahead of it. -/
def skipDigits (c : Cursor) : Cursor :=
  let n := (c.rest.takeWhile isDigitByte).length
  ⟨c.rest.drop n, c.offset + n⟩

/-- A double made of parts, or out of range at the cursor. -/
def floatOfParts (positive : Bool) (significand : Nat) (exponent : Int) (c : Cursor) :
    Read Number :=
  match doubleOfParts positive significand exponent with
  | some d => .ok (.float d, c)
  | none => .error (c.fail .numberOutOfRange)

/-- Gathers exponent digits into `acc`; `none` with the cursor past the digit that would take
the exponent past the 32-bit bound. -/
def exponentDigits : Nat → Nat → Cursor → Option Nat × Cursor
  | 0, acc, c => (some acc, c)
  | fuel + 1, acc, c =>
    match c.next? with
    | some (b, c') =>
      if isDigitByte b then
        if acc * 10 + digitOf b > exponentLimit then (none, c')
        else exponentDigits fuel (acc * 10 + digitOf b) c'
      else (some acc, c)
    | none => (some acc, c)

/-- The exponent part, at its `e`, of a literal whose significand and decimal exponent so far
are known. -/
def readExponent (positive : Bool) (significand : Nat) (start : Int) (c : Cursor) :
    Read Number :=
  let c := c.advance
  let (up, c) := match c.peek? with
    | some 43 => (true, c.advance)
    | some 45 => (false, c.advance)
    | _ => (true, c)
  match c.next? with
  | none => .error (c.fail .eofWhileParsingValue)
  | some (b, c) =>
    if !isDigitByte b then .error (c.fail .invalidNumber)
    else
      match exponentDigits c.rest.length (digitOf b) c with
      | (none, c) =>
        if significand != 0 && up then .error (c.fail .numberOutOfRange)
        else .ok (.float (if positive then Double.zero else Double.zero.neg), skipDigits c)
      | (some e, c) =>
        floatOfParts positive significand (clampExponent (if up then start + e else start - e)) c

/-- The rest of a literal after its fraction digits, or after fraction digits that were
dropped. -/
def readAfterFraction (positive : Bool) (significand : Nat) (exponent : Int) (c : Cursor) :
    Read Number :=
  match c.peek? with
  | some 101 | some 69 => readExponent positive significand exponent c
  | _ => floatOfParts positive significand exponent c

/-- Gathers fraction digits into the significand while it stays within a word; the count of
digits taken lowers the exponent. -/
def fractionDigits : Nat → Nat → Int → Bool → Cursor → Nat × Int × Bool × Bool × Cursor
  | 0, acc, e, any, c => (acc, e, any, false, c)
  | fuel + 1, acc, e, any, c =>
    match c.peek? with
    | some b =>
      if isDigitByte b then
        if acc * 10 + digitOf b > wordLimit then (acc, e, any, true, c)
        else fractionDigits fuel (acc * 10 + digitOf b) (e - 1) true c.advance
      else (acc, e, any, false, c)
    | none => (acc, e, any, false, c)

/-- A fraction, at its `.`, of a literal whose significand and decimal exponent so far are
known. -/
def readFraction (positive : Bool) (significand : Nat) (exponent : Int) (c : Cursor) :
    Read Number :=
  let c := c.advance
  match fractionDigits c.rest.length significand exponent false c with
  | (acc, e, _, true, c) => readAfterFraction positive acc e (skipDigits c)
  | (acc, e, any, false, c) =>
    if !any then
      match c.peek? with
      | some _ => .error (c.failAhead .invalidNumber)
      | none => .error (c.failAhead .eofWhileParsingValue)
    else readAfterFraction positive acc e c

/-- The rest of a literal after an integer part that fits a word. -/
def readAfterInteger (positive : Bool) (significand : Nat) (c : Cursor) : Read Number :=
  match c.peek? with
  | some 46 => readFraction positive significand 0 c
  | some 101 | some 69 => readExponent positive significand 0 c
  | _ =>
    if positive then .ok (.unsigned significand, c)
    else if 0 < significand && significand ≤ 9223372036854775808 then
      .ok (.negative (-(significand : Int)), c)
    else .ok (.float (Double.ofNat significand).neg, c)

/-- The rest of an integer part that passed a word: its remaining digits raise the exponent. -/
def readLongInteger (positive : Bool) (significand : Nat) (c : Cursor) : Read Number :=
  let extra := (c.rest.takeWhile isDigitByte).length
  let c := skipDigits c
  match c.peek? with
  | some 46 => readFraction positive significand extra c
  | some 101 | some 69 => readExponent positive significand extra c
  | _ => floatOfParts positive significand extra c

/-- Gathers integer digits after a nonzero first digit. -/
def integerDigits : Nat → Bool → Nat → Cursor → Read Number
  | 0, positive, acc, c => readAfterInteger positive acc c
  | fuel + 1, positive, acc, c =>
    match c.peek? with
    | some b =>
      if isDigitByte b then
        if acc * 10 + digitOf b > wordLimit then readLongInteger positive acc c
        else integerDigits fuel positive (acc * 10 + digitOf b) c.advance
      else readAfterInteger positive acc c
    | none => readAfterInteger positive acc c

/-- A number literal whose sign, if any, is read: `positive` is false after a `-`. -/
def readNumber (positive : Bool) (c : Cursor) : Read Number :=
  match c.next? with
  | none => .error (c.fail .eofWhileParsingValue)
  | some (b, c) =>
    if b == 48 then
      match c.peek? with
      | some d => if isDigitByte d then .error (c.failAhead .invalidNumber)
        else readAfterInteger positive 0 c
      | none => readAfterInteger positive 0 c
    else if isDigitByte b then integerDigits c.rest.length positive (digitOf b) c
    else .error (c.fail .invalidNumber)

/-- Passes over the exponent of a literal that is not kept, at its `e`. -/
def skipExponent (c : Cursor) : Except ReadError Cursor :=
  let c := c.advance
  let c := match c.peek? with
    | some 43 | some 45 => c.advance
    | _ => c
  match c.next? with
  | some (b, c) => if isDigitByte b then .ok (skipDigits c) else .error (c.fail .invalidNumber)
  | none => .error (c.fail .invalidNumber)

/-- Passes over a number literal that is not kept, its sign read. Its value is never formed,
so no literal is out of range here. -/
def skipNumber (c : Cursor) : Except ReadError Cursor :=
  let afterInteger (c : Cursor) : Except ReadError Cursor :=
    match c.peek? with
    | some 46 =>
      let c := c.advance
      let digits := (c.rest.takeWhile isDigitByte).length
      if digits == 0 then .error (c.failAhead .invalidNumber)
      else
        let c := skipDigits c
        match c.peek? with
        | some 101 | some 69 => skipExponent c
        | _ => .ok c
    | some 101 | some 69 => skipExponent c
    | _ => .ok c
  match c.next? with
  | some (48, c) =>
    match c.peek? with
    | some d => if isDigitByte d then .error (c.failAhead .invalidNumber) else afterInteger c
    | none => afterInteger c
  | some (b, c) => if isDigitByte b then afterInteger (skipDigits c) else .error (c.fail .invalidNumber)
  | none => .error (c.fail .invalidNumber)

end EventSourcing.Json
