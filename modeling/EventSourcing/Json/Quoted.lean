import EventSourcing.Json.Cursor
import EventSourcing.Bytes

/-!
# String literals

A string literal runs to the next unescaped quote. Control characters may not stand in it
raw. A backslash starts an escape: one of `"` `\` `/` `b` `f` `n` `r` `t`, or `u` and four
hex digits. When fewer than four bytes are left for those digits, the text counts as ended.

A string that is kept must be valid text: a `\u` escape of a trailing surrogate, or of a
leading surrogate not followed by a `\u` escape of a trailing one, is refused. A string that
is passed over unread is only checked for the shape of its escapes.
-/

namespace EventSourcing.Json

/-- Whether a byte may stand raw in a string literal without ending it or starting an
escape. -/
def isPlainByte (b : UInt8) : Bool := b != 34 && b != 92 && 32 ≤ b

/-- The cursor after the plain bytes ahead of it, and those bytes. -/
def takePlain (c : Cursor) : List UInt8 × Cursor :=
  let plain := c.rest.takeWhile isPlainByte
  (plain, ⟨c.rest.drop plain.length, c.offset + plain.length⟩)

/-- The value of a hex digit byte. -/
def hexDigitOf? (b : UInt8) : Option Nat :=
  if 48 ≤ b && b ≤ 57 then some (b.toNat - 48)
  else if 97 ≤ b && b ≤ 102 then some (b.toNat - 87)
  else if 65 ≤ b && b ≤ 70 then some (b.toNat - 55)
  else none

/-- Four hex digits after `\u`. With fewer than four bytes left the text counts as ended. -/
def readHex4 (c : Cursor) : Read Nat :=
  match c.rest with
  | a :: b :: d :: e :: rest =>
    let c' : Cursor := ⟨rest, c.offset + 4⟩
    match hexDigitOf? a, hexDigitOf? b, hexDigitOf? d, hexDigitOf? e with
    | some w, some x, some y, some z => .ok (((w * 16 + x) * 16 + y) * 16 + z, c')
    | _, _, _, _ => .error (c'.fail .invalidEscape)
  | rest => .error (Cursor.fail ⟨[], c.offset + rest.length⟩ .eofWhileParsingString)

/-- The byte a one-letter escape stands for. -/
def shortEscape? (b : UInt8) : Option UInt8 :=
  match b with
  | 34 => some 34
  | 92 => some 92
  | 47 => some 47
  | 98 => some 8
  | 102 => some 12
  | 110 => some 10
  | 114 => some 13
  | 116 => some 9
  | _ => none

/-- The UTF-8 bytes of a code point. -/
def utf8Of (n : Nat) : List UInt8 := Bytes.ofString (Char.ofNat n).toString

/-- The text of a `\u` escape, after the `u`: a code point outside the surrogates, or a
leading surrogate and the escaped trailing one that must follow it. -/
def readUnicodeEscape (c : Cursor) : Except ReadError (List UInt8 × Cursor) := do
  let (n, c) ← readHex4 c
  if 0xDC00 ≤ n && n ≤ 0xDFFF then throw (c.fail .loneLeadingSurrogateInHexEscape)
  if n < 0xD800 || 0xDBFF < n then return (utf8Of n, c)
  let c ← match c.peek? with
    | none => throw (c.fail .eofWhileParsingString)
    | some 92 => pure c.advance
    | some _ => throw (c.advance.fail .unexpectedEndOfHexEscape)
  let c ← match c.peek? with
    | none => throw (c.fail .eofWhileParsingString)
    | some 117 => pure c.advance
    | some _ => throw (c.advance.fail .unexpectedEndOfHexEscape)
  let (n2, c) ← readHex4 c
  if n2 < 0xDC00 || 0xDFFF < n2 then throw (c.fail .loneLeadingSurrogateInHexEscape)
  return (utf8Of (0x10000 + (n - 0xD800) * 1024 + (n2 - 0xDC00)), c)

/-- The text of an escape, after its backslash. -/
def readEscape (c : Cursor) : Read (List UInt8) :=
  match c.next? with
  | none => .error (c.fail .eofWhileParsingString)
  | some (117, c) => readUnicodeEscape c
  | some (b, c) =>
    match shortEscape? b with
    | some e => .ok ([e], c)
    | none => .error (c.fail .invalidEscape)

/-- The bytes of a string literal after its opening quote, gathered in `acc`. -/
def readQuotedBytes : Nat → Array UInt8 → Cursor → Read (Array UInt8)
  | 0, _, c => .error (c.fail .eofWhileParsingString)
  | fuel + 1, acc, c =>
    let (plain, c) := takePlain c
    let acc := acc ++ plain.toArray
    match c.peek? with
    | none => .error (c.fail .eofWhileParsingString)
    | some 34 => .ok (acc, c.advance)
    | some 92 =>
      match readEscape c.advance with
      | .error e => .error e
      | .ok (bytes, c) => readQuotedBytes fuel (acc ++ bytes.toArray) c
    | some _ => .error (c.advance.fail .controlCharacterWhileParsingString)

/-- A string literal after its opening quote. -/
def readQuoted (c : Cursor) : Read String :=
  match readQuotedBytes (c.rest.length + 1) #[] c with
  | .error e => .error e
  | .ok (bytes, c) => .ok ((Bytes.utf8? bytes.toList).getD "", c)

/-- Passes over an escape, after its backslash, checking only its shape. -/
def skipEscape (c : Cursor) : Except ReadError Cursor :=
  match c.next? with
  | none => .error (c.fail .eofWhileParsingString)
  | some (117, c) => Except.map (fun (_, c) => c) (readHex4 c)
  | some (b, c) =>
    match shortEscape? b with
    | some _ => .ok c
    | none => .error (c.fail .invalidEscape)

/-- Passes over a string literal after its opening quote. -/
def skipQuotedFrom : Nat → Cursor → Except ReadError Cursor
  | 0, c => .error (c.fail .eofWhileParsingString)
  | fuel + 1, c =>
    let c := (takePlain c).2
    match c.peek? with
    | none => .error (c.fail .eofWhileParsingString)
    | some 34 => .ok c.advance
    | some 92 =>
      match skipEscape c.advance with
      | .error e => .error e
      | .ok c => skipQuotedFrom fuel c
    | some _ => .error (c.fail .controlCharacterWhileParsingString)

/-- Passes over a string literal after its opening quote. -/
def skipQuoted (c : Cursor) : Except ReadError Cursor := skipQuotedFrom (c.rest.length + 1) c

end EventSourcing.Json
