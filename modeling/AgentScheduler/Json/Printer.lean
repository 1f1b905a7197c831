/-
Writing JSON, compact and indented. In a string only the quote, the backslash
and the control characters below U+0020 are escaped. An infinity or a NaN has
no JSON form and is written `null`.
-/
import AgentScheduler.Binary64.Text
import AgentScheduler.Json

namespace AgentScheduler.Json

/-- A hexadecimal digit, in lower case. -/
def hexDigit (n : Nat) : Char := if n < 10 then Char.ofNat (48 + n) else Char.ofNat (87 + n)

/-- A character inside a string. -/
def escape (c : Char) : List Char :=
  match c with
  | '"' => ['\\', '"']
  | '\\' => ['\\', '\\']
  | '\n' => ['\\', 'n']
  | '\r' => ['\\', 'r']
  | '\t' => ['\\', 't']
  | '\x08' => ['\\', 'b']
  | '\x0c' => ['\\', 'f']
  | c =>
    if c.toNat < 32 then ['\\', 'u', '0', '0', hexDigit (c.toNat / 16), hexDigit (c.toNat % 16)]
    else [c]

/-- A string between quotes. -/
def quote (s : String) : List Char := '"' :: s.toList.flatMap escape ++ ['"']

/-- A number. -/
def writeNumber : Number → List Char
  | .int i => (toString i).toList
  | .float x => (if x.isFinite then x.layOut Binary64.inJson else "null").toList

mutual

/-- A value without blanks. -/
def write : Json → List Char
  | null => "null".toList
  | bool b => (if b then "true" else "false").toList
  | num n => writeNumber n
  | str s => quote s
  | arr items => '[' :: writeItems items ++ [']']
  | obj members => '\x7b' :: writeMembers members ++ ['\x7d']

/-- The items of an array, with commas between them. -/
def writeItems : List Json → List Char
  | [] => []
  | [item] => write item
  | item :: items => write item ++ ',' :: writeItems items

/-- The members of an object, with commas between them. -/
def writeMembers : List (String × Json) → List Char
  | [] => []
  | [(key, value)] => quote key ++ ':' :: write value
  | (key, value) :: members => quote key ++ ':' :: write value ++ ',' :: writeMembers members

end

/-- A new line, indented by `depth` levels of two blanks. -/
def newLine (depth : Nat) : List Char := '\n' :: List.replicate (2 * depth) ' '

mutual

/-- A value with every item and member on a line of its own, `depth` levels in. -/
def writeIndented (depth : Nat) : Json → List Char
  | null => "null".toList
  | bool b => (if b then "true" else "false").toList
  | num n => writeNumber n
  | str s => quote s
  | arr [] => ['[', ']']
  | arr (item :: items) =>
    '[' :: newLine (depth + 1) ++ writeIndented (depth + 1) item
      ++ writeIndentedItems (depth + 1) items ++ newLine depth ++ [']']
  | obj [] => ['\x7b', '\x7d']
  | obj ((key, value) :: members) =>
    '\x7b' :: newLine (depth + 1) ++ quote key ++ ':' :: ' ' :: writeIndented (depth + 1) value
      ++ writeIndentedMembers (depth + 1) members ++ newLine depth ++ ['\x7d']

/-- The items after the first, each behind a comma on its own line. -/
def writeIndentedItems (depth : Nat) : List Json → List Char
  | [] => []
  | item :: items =>
    ',' :: newLine depth ++ writeIndented depth item ++ writeIndentedItems depth items

/-- The members after the first, each behind a comma on its own line. -/
def writeIndentedMembers (depth : Nat) : List (String × Json) → List Char
  | [] => []
  | (key, value) :: members =>
    ',' :: newLine depth ++ quote key ++ ':' :: ' ' :: writeIndented depth value
      ++ writeIndentedMembers depth members

end

/-- The text of a value without blanks. -/
def compact (j : Json) : String := String.ofList j.write

/-- The text of a value, indented by two blanks a level. -/
def pretty (j : Json) : String := String.ofList (j.writeIndented 0)

end AgentScheduler.Json
