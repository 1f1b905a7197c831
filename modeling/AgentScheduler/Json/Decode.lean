/-
Taking typed values out of a JSON tree.

A record is an object, or an array of its fields in order; members that it does
not have are ignored, and a field given twice is refused. A map is an object;
of a key given twice the last value counts.
-/
import AgentScheduler.Json.Numeral

namespace AgentScheduler.Json.Source

/-- A string. -/
def string? : Source → Option String
  | str s => s
  | _ => none

/-- A truth value. -/
def bool? : Source → Option Bool
  | bool b => some b
  | _ => none

/-- An integer between two bounds, written without point and exponent. -/
def intWithin? (low high : Int) : Source → Option Int
  | num n =>
    match n.number? with
    | some (.int i) => if low ≤ i ∧ i ≤ high then some i else none
    | _ => none
  | _ => none

/-- An unsigned integer of 32 bits. -/
def uint32? (s : Source) : Option UInt32 :=
  (s.intWithin? 0 0xffffffff).map fun i => .ofNat i.toNat

/-- An unsigned integer of 64 bits. -/
def uint64? (s : Source) : Option UInt64 :=
  (s.intWithin? 0 0xffffffffffffffff).map fun i => .ofNat i.toNat

/-- A signed integer of 32 bits. -/
def int32? (s : Source) : Option Int32 :=
  (s.intWithin? (-0x80000000) 0x7fffffff).map .ofInt

/-- A signed integer of 64 bits. -/
def int64? (s : Source) : Option Int64 :=
  (s.intWithin? (-0x8000000000000000) 0x7fffffffffffffff).map .ofInt

/-- A double; an integer is one too. -/
def float? : Source → Option Binary64
  | num n => n.number?.map fun
    | .int i => .ofInt i
    | .float x => x
  | _ => none

/-- A list, each item read by `read`. -/
def list? {α : Type} (read : Source → Option α) : Source → Option (List α)
  | arr items => items.mapM read
  | _ => none

/-- The keys of an object, all of them proper strings, with the values. -/
def members? : Source → Option (List (String × Source))
  | obj members => members.mapM fun (key, value) => key.map (·, value)
  | _ => none

/-- A map, each value read by `read`. -/
def map? {α : Type} (read : Source → Option α) (s : Source) : Option (SortedMap String α) := do
  let entries ← (← s.members?).mapM fun (key, value) => (read value).map (key, ·)
  some (SortedMap.ofList entries)

/-- The value of the only member under a key; `none` where there are several. -/
def only? (members : List (String × Source)) (key : String) : Option (Option Source) :=
  match members.filter (·.1 == key) with
  | [] => some none
  | [(_, value)] => some (some value)
  | _ => none

/-- The fields of a record, in order; a missing one is `none`. -/
def fields? (names : List String) : Source → Option (List (Option Source))
  | arr items =>
    if items.length ≤ names.length then
      some (items.map some ++ List.replicate (names.length - items.length) none)
    else none
  | obj members => do
    let members ← (obj members).members?
    names.mapM (only? members)
  | _ => none

mutual

/-- Any value, arrays and objects nested at most `levels` deep. -/
def json? (levels : Nat) : Source → Option Json
  | null => some .null
  | bool b => some (.bool b)
  | num n => n.number?.map .num
  | str s => s.map .str
  | arr items =>
    match levels with
    | 0 => none
    | levels + 1 => (jsonItems? levels items).map .arr
  | obj members =>
    match levels with
    | 0 => none
    | levels + 1 => (jsonMembers? levels members).map Json.ofMembers

/-- The items of an array. -/
def jsonItems? (levels : Nat) : List Source → Option (List Json)
  | [] => some []
  | item :: items => do
    let item ← json? levels item
    let items ← jsonItems? levels items
    some (item :: items)

/-- The members of an object. -/
def jsonMembers? (levels : Nat) : List (Option String × Source) → Option (List (String × Json))
  | [] => some []
  | (key, value) :: members => do
    let key ← key
    let value ← json? levels value
    let members ← jsonMembers? levels members
    some ((key, value) :: members)

end

end AgentScheduler.Json.Source
