import EventSourcing.Json.Basic
import EventSourcing.Text.Shortest

/-!
# Writing JSON

Compact text (no blanks between tokens) and indented text (two spaces a level, a blank after
each colon). Strings escape the quote, the backslash and the control characters; every other
character is written as itself.
-/

namespace EventSourcing.Json

/-- The digit of a nibble in lowercase hexadecimal. -/
def nibble (n : Nat) : Char :=
  if n < 10 then Char.ofNat (48 + n) else Char.ofNat (87 + n)

/-- The characters that stand for `c` inside a JSON string. -/
def escapeChar (c : Char) : List Char :=
  match c with
  | '"' => ['\\', '"']
  | '\\' => ['\\', '\\']
  | '\n' => ['\\', 'n']
  | '\r' => ['\\', 'r']
  | '\t' => ['\\', 't']
  | '\x08' => ['\\', 'b']
  | '\x0c' => ['\\', 'f']
  | c =>
    if c.toNat < 0x20 then
      ['\\', 'u', '0', '0', nibble (c.toNat / 16), nibble (c.toNat % 16)]
    else [c]

/-- A string literal. -/
def quote (s : String) : String :=
  String.ofList ('"' :: (s.toList.flatMap escapeChar ++ ['"']))

/-- Spaces for an indentation depth. -/
def indent (depth : Nat) : String := String.ofList (List.replicate (2 * depth) ' ')

mutual

/-- Compact text of a value. -/
def compress : Json → String
  | null => "null"
  | bool true => "true"
  | bool false => "false"
  | int i => toString i
  | float d => d.text
  | str s => quote s
  | arr items => "[" ++ compressItems items ++ "]"
  | obj fields => "\x7b" ++ compressFields fields ++ "\x7d"

/-- Compact text of array items, comma separated. -/
def compressItems : List Json → String
  | [] => ""
  | [x] => compress x
  | x :: rest => compress x ++ "," ++ compressItems rest

/-- Compact text of object fields, comma separated. -/
def compressFields : List (String × Json) → String
  | [] => ""
  | [(k, v)] => quote k ++ ":" ++ compress v
  | (k, v) :: rest => quote k ++ ":" ++ compress v ++ "," ++ compressFields rest

end

mutual

/-- Indented text of a value whose first line is at indentation `depth`. -/
def pretty (depth : Nat) : Json → String
  | arr [] => "[]"
  | obj [] => "\x7b\x7d"
  | arr items => "[\n" ++ prettyItems (depth + 1) items ++ "\n" ++ indent depth ++ "]"
  | obj fields => "\x7b\n" ++ prettyFields (depth + 1) fields ++ "\n" ++ indent depth ++ "\x7d"
  | null => "null"
  | bool true => "true"
  | bool false => "false"
  | int i => toString i
  | float d => d.text
  | str s => quote s

/-- Indented array items, one a line. -/
def prettyItems (depth : Nat) : List Json → String
  | [] => ""
  | [x] => indent depth ++ pretty depth x
  | x :: rest => indent depth ++ pretty depth x ++ ",\n" ++ prettyItems depth rest

/-- Indented object fields, one a line. -/
def prettyFields (depth : Nat) : List (String × Json) → String
  | [] => ""
  | [(k, v)] => indent depth ++ quote k ++ ": " ++ pretty depth v
  | (k, v) :: rest => indent depth ++ quote k ++ ": " ++ pretty depth v ++ ",\n" ++
    prettyFields depth rest

end

end EventSourcing.Json
