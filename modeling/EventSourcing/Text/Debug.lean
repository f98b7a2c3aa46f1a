import EventSourcing.Text.Printable

/-!
# Quoted names in dumps

Field-by-field dumps quote names: the quote and the backslash are escaped, tabs, returns,
newlines and NUL by their letters, and the other characters that would not show as
themselves by their code in braces.
-/

namespace EventSourcing.Text

/-- Lowercase hexadecimal digits of a number, without leading zeros. -/
def hexDigits (n : Nat) : String :=
  String.ofList (Nat.toDigits 16 n)

/-- The characters that stand for `c` inside a quoted name. -/
def escapeInDump (c : Char) : String :=
  match c with
  | '"' => "\\\""
  | '\\' => "\\\\"
  | '\n' => "\\n"
  | '\r' => "\\r"
  | '\t' => "\\t"
  | '\x00' => "\\0"
  | c =>
    if spelledOut c then "\\u" ++ "\x7b" ++ hexDigits c.toNat ++ "\x7d"
    else c.toString

/-- A name in quotes. -/
def quoteInDump (s : String) : String :=
  "\"" ++ String.join (s.toList.map escapeInDump) ++ "\""

/-- A list of names in brackets, as dumps write it. -/
def nameList (names : List String) : String :=
  "[" ++ ", ".intercalate (names.map quoteInDump) ++ "]"

end EventSourcing.Text
