/-
JSON values. The members of an object read from a text ascend by key, so two
objects with the same members are the same value; an object that is only
written keeps the order it was built with.
-/
import AgentScheduler.Binary64
import AgentScheduler.SortedMap

namespace AgentScheduler

/-- A JSON number: an integer of 64 bits, signed or unsigned, or a finite double. -/
inductive Number
  | int (i : Int)
  | float (x : Binary64)
  deriving DecidableEq

/-- Equal as numbers of one kind; an integer never equals a double. -/
def Number.same : Number → Number → Bool
  | .int i, .int j => i == j
  | .float x, .float y => x.sameNumber y
  | _, _ => false

/-- A JSON value. -/
inductive Json
  | null
  | bool (b : Bool)
  | num (n : Number)
  | str (s : String)
  | arr (items : List Json)
  | obj (members : List (String × Json))

namespace Json

instance : Inhabited Json := ⟨null⟩

mutual

/-- Equal values, doubles compared as numbers. -/
def same : Json → Json → Bool
  | null, null => true
  | bool a, bool b => a == b
  | num a, num b => a.same b
  | str a, str b => a == b
  | arr as, arr bs => sameItems as bs
  | obj as, obj bs => sameMembers as bs
  | _, _ => false

/-- Item by item equal. -/
def sameItems : List Json → List Json → Bool
  | [], [] => true
  | a :: as, b :: bs => same a b && sameItems as bs
  | _, _ => false

/-- Member by member equal, keys and values. -/
def sameMembers : List (String × Json) → List (String × Json) → Bool
  | [], [] => true
  | (k, a) :: as, (l, b) :: bs => k == l && same a b && sameMembers as bs
  | _, _ => false

end

/-- An integer. -/
def int (i : Int) : Json := num (.int i)

/-- An object whose members ascend by key; of several members under one key the last
counts. -/
def ofMembers (members : List (String × Json)) : Json :=
  obj (SortedMap.ofList members).toList

/-- The member of an object under a key. -/
def member? (key : String) : Json → Option Json
  | obj members => SortedMap.lookup key members
  | _ => none

/-- The value of an integer that is not negative. -/
def unsigned? : Json → Option UInt64
  | num (.int i) => if 0 ≤ i ∧ i ≤ 0xffffffffffffffff then some (.ofNat i.toNat) else none
  | _ => none

/-- The value of an integer of 64 bits with a sign. -/
def signed? : Json → Option Int64
  | num (.int i) => if -0x8000000000000000 ≤ i ∧ i ≤ 0x7fffffffffffffff then some (.ofInt i) else none
  | _ => none

end Json

end AgentScheduler
