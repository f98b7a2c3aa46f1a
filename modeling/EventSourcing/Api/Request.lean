import EventSourcing.Json.Basic
import EventSourcing.Record.Codec

/-!
# Reading requests

A request is a JSON object. Its fields are read here with the rules every operation shares: a
missing field and `null` both count as absent, numbers must be integers within the range of
their field, and bytes are given either as text (its UTF-8 bytes) or as `{"hex": ...}`.

A request that cannot be read is refused with a sentence; the reader `Reader` carries it, or
the news that serving the request panicked.
-/

namespace EventSourcing.Api

/-- Why a request gets no answer of its own. -/
inductive Refusal where
  /-- The request cannot be read; the sentence says why. -/
  | badRequest (message : String)
  /-- Serving the request panicked. -/
  | panicked
  deriving DecidableEq, Repr

instance : Coe String Refusal := ⟨Refusal.badRequest⟩

/-- A value read from a request, or why the request gets no answer of its own. -/
abbrev Reader (α : Type) := Except Refusal α

/-- The width of an integer field, with its range and its name in refusals. -/
structure IntWidth where
  lo : Int
  hi : Int
  article : String
  deriving Repr

namespace IntWidth

/-- Signed 32-bit. -/
def i32 : IntWidth := ⟨-2147483648, 2147483647, "an i32"⟩
/-- Signed 64-bit. -/
def i64 : IntWidth := ⟨-9223372036854775808, 9223372036854775807, "an i64"⟩
/-- Unsigned 8-bit. -/
def u8 : IntWidth := ⟨0, 255, "a u8"⟩
/-- Unsigned 32-bit. -/
def u32 : IntWidth := ⟨0, 4294967295, "a u32"⟩
/-- Unsigned 64-bit. -/
def u64 : IntWidth := ⟨0, 18446744073709551615, "a u64"⟩

end IntWidth

/-- Reads an integer of a width, refusing anything else with the field's name. -/
def intOf (key : String) (w : IntWidth) : Json → Reader Int
  | .int i => if w.lo ≤ i ∧ i ≤ w.hi then .ok i else .error s!"'{key}' must be {w.article}"
  | _ => .error s!"'{key}' must be {w.article}"

/-- An integer field, with a default when it is absent. -/
def intField (j : Json) (key : String) (w : IntWidth) (default : Int := 0) : Reader Int :=
  match j.present? key with
  | none => .ok default
  | some v => intOf key w v

/-- An optional integer field. -/
def intField? (j : Json) (key : String) (w : IntWidth) : Reader (Option Int) :=
  match j.present? key with
  | none => .ok none
  | some v => some <$> intOf key w v

/-- A source id field. -/
def sourceField (j : Json) (key : String := "source_id") : Reader SourceId :=
  Int32.ofInt <$> intField j key .i32

/-- A signed 32-bit field. -/
def int32Field (j : Json) (key : String) (default : Int := 0) : Reader Int32 :=
  Int32.ofInt <$> intField j key .i32 default

/-- A signed 64-bit field. -/
def int64Field (j : Json) (key : String) (default : Int := 0) : Reader Int64 :=
  Int64.ofInt <$> intField j key .i64 default

/-- An unsigned 64-bit field. -/
def uint64Field (j : Json) (key : String) (default : Int := 0) : Reader UInt64 :=
  (fun i => i.toNat.toUInt64) <$> intField j key .u64 default

/-- An unsigned 32-bit field. -/
def uint32Field (j : Json) (key : String) (default : Int := 0) : Reader UInt32 :=
  (fun i => i.toNat.toUInt32) <$> intField j key .u32 default

/-- A count or size field (unsigned 64-bit), as a natural number. -/
def natField (j : Json) (key : String) (default : Nat := 0) : Reader Nat :=
  Int.toNat <$> intField j key .u64 default

/-- An optional count or size field. -/
def natField? (j : Json) (key : String) : Reader (Option Nat) :=
  (·.map Int.toNat) <$> intField? j key .u64

/-- A text field, with a default when it is absent. -/
def stringField (j : Json) (key : String) (default : String := "") : Reader String :=
  match j.present? key with
  | none => .ok default
  | some (.str s) => .ok s
  | some _ => .error s!"'{key}' must be a string"

/-- An optional text field. -/
def stringField? (j : Json) (key : String) : Reader (Option String) :=
  match j.present? key with
  | none => .ok none
  | some (.str s) => .ok (some s)
  | some _ => .error s!"'{key}' must be a string"

/-- A text field that must be present. -/
def requiredString (j : Json) (key : String) : Reader String :=
  match j.present? key with
  | some (.str s) => .ok s
  | _ => .error s!"'{key}' must be a string"

/-- A truth-value field, with a default when it is absent. -/
def boolField (j : Json) (key : String) (default : Bool := false) : Reader Bool :=
  match j.present? key with
  | none => .ok default
  | some (.bool b) => .ok b
  | some _ => .error s!"'{key}' must be a bool"

/-- A list field; an absent field is the empty list. -/
def listField (j : Json) (key : String) : Reader (List Json) :=
  match j.present? key with
  | none => .ok []
  | some (.arr items) => .ok items
  | some _ => .error s!"'{key}' must be an array"

/-- Reads every item of a list, stopping at the first refusal. -/
def eachOf {α : Type} (read : Json → Reader α) (items : List Json) : Reader (List α) :=
  items.mapM read

/-- The value of a hex digit given as a byte. -/
def hexNibble? (b : UInt8) : Option Nat := Bytes.hexValue? (Char.ofNat b.toNat)

/-- The byte written by two hex digits; a leading plus sign stands for a zero digit. -/
def hexPair? (hi lo : UInt8) : Option UInt8 :=
  match hexNibble? hi, hexNibble? lo with
  | some h, some l => some (UInt8.ofNat (16 * h + l))
  | none, some l => if hi == 43 then some (UInt8.ofNat l) else none
  | _, _ => none

/-- Whether a byte continues a multi-byte character of UTF-8 text. -/
def isContinuation (b : UInt8) : Bool := 0x80 ≤ b && b < 0xC0

/-- The bytes written by pairs of hex digits. The text is cut into pairs of bytes, and a cut
inside a multi-byte character panics when that pair's turn comes. -/
def hexPairs : List UInt8 → Reader Bytes
  | [] => .ok []
  | hi :: lo :: rest =>
    if isContinuation hi || (rest.head?.map isContinuation).getD false then .error .panicked
    else
      match hexPair? hi lo with
      | some b => (b :: ·) <$> hexPairs rest
      | none => .error "bad hex: invalid digit found in string"
  | [_] => .error "bad hex: invalid digit found in string"

/-- Reads hex text: an even number of bytes, two hex digits each. -/
def hexBytes (text : String) : Reader Bytes :=
  let raw := Bytes.ofString text
  if raw.length % 2 == 1 then .error s!"odd hex length {raw.length}"
  else hexPairs raw

/-- Reads bytes: text means its UTF-8 bytes, `{"hex": ...}` raw bytes and `null` none. -/
def bytesOf : Json → Reader Bytes
  | .null => .ok []
  | .str s => .ok (Bytes.ofString s)
  | v@(.obj _) =>
    match v.present? "hex" with
    | some (.str h) => hexBytes h
    | _ => .error "bytes object needs a 'hex' string"
  | _ => .error "bytes must be a string or \x7bhex\x7d"

/-- A bytes field; an absent field means no bytes. -/
def bytesField (j : Json) (key : String) : Reader Bytes :=
  bytesOf ((j.field? key).getD .null)

/-- A signed 32-bit value read leniently: the low 32 bits of an integer that fits 64 bits,
and zero for anything else. -/
def lenientInt32 (j : Json) : Int32 := Int32.ofInt (j.int64?.getD 0)

/-- A truth-value field read leniently: a value that is no truth value counts as absent. -/
def flagField (j : Json) (key : String) (default : Bool) : Bool :=
  ((j.field? key).bind Json.bool?).getD default

/-- Reads an event kind by name. -/
def kindOf (name : String) : Reader EventKind :=
  match EventKind.ofName? name with
  | some k => .ok k
  | none => .error s!"unknown event type name '{name}'"

/-- An event kind field, with a default when it is absent. -/
def kindField (j : Json) (key : String) (default : EventKind) : Reader EventKind :=
  match j.present? key with
  | none => .ok default
  | some (.str s) => kindOf s
  | some _ => .error s!"'{key}' must be a string"

/-- The bytes of a command given by its fields, or raw bytes given as `{"hex": ...}`. -/
def commandBytes (j : Json) : Reader Bytes :=
  match j.present? "hex" with
  | some (.str h) => hexBytes h
  | some _ => .error "'hex' must be a string"
  | none => do
    let c : Command := ⟨← sourceField j, ← uint64Field j "source_sequence",
      ← int64Field j "command_time", ← int32Field j "payload_type", ← bytesField j "payload"⟩
    pure c.encode

/-- The event given by its fields. -/
def eventOf (j : Json) (defaultKind : Option EventKind := some .commit) : Reader Event := do
  let kind ← match defaultKind with
    | some k => kindField j "event_type" k
    | none => kindOf (← requiredString j "event_type")
  pure ⟨← sourceField j, ← uint64Field j "source_sequence", ← uint64Field j "event_sequence",
    ← uint32Field j "event_index", kind, ← int64Field j "event_time", ← int32Field j "payload_type",
    ← bytesField j "payload"⟩

/-- The bytes of an event given by its fields, or raw bytes given as `{"hex": ...}`. -/
def eventBytes (j : Json) : Reader Bytes :=
  match j.present? "hex" with
  | some (.str h) => hexBytes h
  | some _ => .error "'hex' must be a string"
  | none => Event.encode <$> eventOf j

end EventSourcing.Api
