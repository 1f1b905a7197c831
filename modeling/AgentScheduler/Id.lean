/-
Identifiers of agents and contexts. The largest number of each is no
identifier: it marks what is not registered anywhere.
-/
namespace AgentScheduler

/-- The number of an agent within one context. Contexts hand numbers out from 1 on. -/
structure AgentId where
  number : UInt32
  deriving DecidableEq, Inhabited

/-- The number of a context. Contexts of a workspace have numbers from 0 on. -/
structure ContextId where
  number : Int64
  deriving DecidableEq, Inhabited

namespace AgentId

instance : Ord AgentId := ⟨fun a b => compare a.number b.number⟩

instance : Std.TransOrd AgentId where
  eq_swap {a b} := @Std.OrientedOrd.eq_swap UInt32 _ _ a.number b.number
  isLE_trans {a b c} := @Std.TransOrd.isLE_trans UInt32 _ _ a.number b.number c.number

instance : Std.LawfulEqOrd AgentId where
  eq_of_compare {a b} h := by
    cases a; cases b
    exact congrArg _ (Std.LawfulEqOrd.eq_of_compare h)

/-- No agent. -/
def invalid : AgentId := ⟨4294967295⟩

/-- Names an agent. -/
def isValid (a : AgentId) : Bool := a != invalid

/-- The displayed text. -/
def display (a : AgentId) : String := "AgentId(" ++ toString a.number.toNat ++ ")"

end AgentId

namespace ContextId

instance : Ord ContextId := ⟨fun a b => compare a.number b.number⟩

instance : Std.TransOrd ContextId where
  eq_swap {a b} := @Std.OrientedOrd.eq_swap Int64 _ _ a.number b.number
  isLE_trans {a b c} := @Std.TransOrd.isLE_trans Int64 _ _ a.number b.number c.number

instance : Std.LawfulEqOrd ContextId where
  eq_of_compare {a b} h := by
    cases a; cases b
    exact congrArg _ (Std.LawfulEqOrd.eq_of_compare h)

/-- No context. -/
def invalid : ContextId := ⟨9223372036854775807⟩

/-- Every context of a workspace. -/
def all : ContextId := ⟨-1⟩

/-- Not the mark of what is registered nowhere. -/
def isValid (c : ContextId) : Bool := c != invalid

/-- Stands for every context. -/
def isAll (c : ContextId) : Bool := c == all

/-- May name a single context of a workspace. -/
def isConcrete (c : ContextId) : Bool := 0 ≤ c.number && c.isValid

/-- The displayed text. -/
def display (c : ContextId) : String := "ContextId(" ++ toString c.number.toInt ++ ")"

end ContextId

end AgentScheduler
