/-
Values of variables: truth values, integers, doubles and text. Doubles are
compared by their bits, so every value equals itself.
-/
import AgentScheduler.Binary64.Text
import AgentScheduler.Json.Decode

namespace AgentScheduler

/-- The value of a variable. -/
inductive Value
  | bool (b : Bool)
  | int (i : Int64)
  | float (x : Binary64)
  | str (s : String)
  deriving DecidableEq

namespace Value

/-- False for an infinity and a NaN, which JSON cannot hold. -/
def isFinite : Value → Bool
  | float x => x.isFinite
  | _ => true

/-- The displayed text without the quotes around text. -/
def plain : Value → String
  | bool b => if b then "true" else "false"
  | int i => toString i.toInt
  | float x => x.display
  | str s => s

/-- The displayed text; text stands between quotes, with nothing escaped. -/
def display : Value → String
  | str s => "\"" ++ s ++ "\""
  | v => v.plain

/-! ## JSON -/

/-- The tag of a value's kind. -/
def kind : Value → String
  | bool _ => "bool"
  | int _ => "int"
  | float _ => "float"
  | str _ => "str"

/-- The value without its tag. -/
def content : Value → Json
  | bool b => .bool b
  | int i => .int i.toInt
  | float x => .num (.float x)
  | str s => .str s

/-- The JSON object of a value: its kind and its content. -/
def toJson (v : Value) : Json := .obj [("type", .str v.kind), ("value", v.content)]

/-- A value from its kind and its content. -/
def ofContent? (kind : String) (content : Json.Source) : Option Value :=
  match kind with
  | "bool" => content.bool?.map bool
  | "int" => content.int64?.map int
  | "float" => content.float?.map float
  | "str" => content.string?.map str
  | _ => none

/-- The name of a kind in an object: a string, or an object that maps it to null. -/
def kindName? : Json.Source → Option String
  | .str s => s
  | .obj [(key, .null)] => key
  | _ => none

/-- The value that a record of kind and content stands for. In an array the kind is a
string. -/
def ofSource? (s : Json.Source) : Option Value :=
  match s with
  | .arr [.str kind, content] => kind.bind (ofContent? · content)
  | .obj _ =>
    match s.fields? ["type", "value"] with
    | some [some kind, some content] => (kindName? kind).bind (ofContent? · content)
    | _ => none
  | _ => none

end Value

end AgentScheduler
