import EventSourcing.Text.Double

/-!
# JSON values

Values of the JSON data format. An integer literal that fits an unsigned 64-bit word, or a
negative one that fits a signed 64-bit word, is an integer; every other number (one with a
fraction or an exponent, an integer too large for a word, and `-0`) is a double.

Objects hold each key once, in ascending order of keys.
-/

namespace EventSourcing

/-- A JSON value. -/
inductive Json where
  | null
  | bool (b : Bool)
  /-- An integer within the range of a 64-bit word. -/
  | int (i : Int)
  /-- Any other number. -/
  | float (d : Text.Double)
  | str (s : String)
  | arr (items : List Json)
  | obj (fields : List (String × Json))
  deriving Inhabited, Repr

namespace Json

/-- The value of a field of an object; `none` for a missing field or a non-object. -/
def field? (j : Json) (key : String) : Option Json :=
  match j with
  | obj fields => (fields.find? (·.1 == key)).map (·.2)
  | _ => none

/-- The item of an array at a position; `null` past its end, and for a value that is no
array. -/
def item (j : Json) (i : Nat) : Json :=
  match j with
  | arr items => items.getD i null
  | _ => null

/-- The integer a value holds when it fits a signed 64-bit word. -/
def int64? : Json → Option Int
  | int i => if -9223372036854775808 ≤ i ∧ i ≤ 9223372036854775807 then some i else none
  | _ => none

/-- The integer a value holds when it fits an unsigned 64-bit word. -/
def uint64? : Json → Option Nat
  | int i => if 0 ≤ i ∧ i ≤ 18446744073709551615 then some i.toNat else none
  | _ => none

/-- The truth value a value holds. -/
def bool? : Json → Option Bool
  | bool b => some b
  | _ => none

/-- The text a value holds. -/
def str? : Json → Option String
  | str s => some s
  | _ => none

/-- The value of a field, where a missing field and `null` both count as absent. -/
def present? (j : Json) (key : String) : Option Json :=
  match j.field? key with
  | some null => none
  | other => other

/-- An object from its fields. -/
def ofFields (fields : List (String × Json)) : Json := obj fields

/-- A natural number. -/
def nat (n : Nat) : Json := int n

/-- A list of values. -/
def list {α : Type} (f : α → Json) (xs : List α) : Json := arr (xs.map f)

/-- A value or `null`. -/
def option {α : Type} (f : α → Json) : Option α → Json
  | some a => f a
  | none => null

end Json

end EventSourcing
