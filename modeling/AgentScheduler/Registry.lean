/-
Which agents a context observes: buckets by priority, an index from ids to
priorities, names bound to agents, and the requests of a tick that wait for its
end.

A registry refers to agents and never keeps them alive. Ids ascend from 1 and
are never used again, so within a bucket the order of ids is the order of
registration.
-/
import AgentScheduler.Task

namespace AgentScheduler

/-- The agents and names of a context. -/
structure Registry where
  /-- The id given out last; 0 before the first. -/
  lastId : UInt32 := 0
  /-- The agents by priority, and within one priority by id. -/
  buckets : SortedMap Int32 (SortedMap AgentId AgentRef) := .empty
  /-- The priority of every registered id. -/
  index : SortedMap AgentId Int32 := .empty
  /-- The agents that names are bound to. -/
  named : SortedMap String AgentRef := .empty
  /-- Additions requested during a tick, oldest first. -/
  pendingAdd : List AgentRef := []
  /-- Removals requested during a tick, oldest first. -/
  pendingRemove : List AgentRef := []
  deriving DecidableEq

namespace Registry

/-- The next unused id, unless all are used up. -/
def nextId? (r : Registry) : Option AgentId :=
  let next : Nat := r.lastId.toNat + 1
  if next < AgentId.invalid.number.toNat then some ⟨.ofNat next⟩ else none

/-- The agents of the bucket of a priority. -/
def bucket (r : Registry) (priority : Int32) : SortedMap AgentId AgentRef :=
  (r.buckets.get? priority).getD .empty

/-- The agent registered under an id. -/
def agent? (r : Registry) (id : AgentId) : Option AgentRef :=
  (r.index.get? id).bind fun priority => (r.bucket priority).get? id

/-- All registrations in the order in which a tick visits them: by priority, then by id. -/
def entries (r : Registry) : List (Int32 × AgentId × AgentRef) :=
  r.buckets.toList.flatMap fun (priority, agents) =>
    agents.toList.map fun (id, a) => (priority, id, a)

/-- The registered agents in the order in which a tick visits them. -/
def walkOrder (r : Registry) : List AgentRef := r.entries.map (·.2.2)

/-- Registers an agent under a fresh id. -/
def register (r : Registry) (a : AgentRef) (priority : Int32) (id : AgentId) : Registry :=
  { r with
    lastId := id.number
    buckets := r.buckets.insert priority ((r.bucket priority).insert id a)
    index := r.index.insert id priority }

/-- The buckets without an id; a bucket that gets empty goes with it. -/
def dropFromBucket (buckets : SortedMap Int32 (SortedMap AgentId AgentRef)) (priority : Int32)
    (id : AgentId) : SortedMap Int32 (SortedMap AgentId AgentRef) :=
  match buckets.get? priority with
  | none => buckets
  | some agents =>
    let rest := agents.erase id
    if rest.isEmpty then buckets.erase priority else buckets.insert priority rest

/-- Removes an id from the index and its bucket. -/
def unregister (r : Registry) (priority : Int32) (id : AgentId) : Registry :=
  { r with index := r.index.erase id, buckets := dropFromBucket r.buckets priority id }

/-- The names bound to an agent. -/
def namesOf (r : Registry) (a : AgentRef) : List String :=
  (r.named.filter fun _ b => b == a).keys

/-- Drops every name bound to an agent. -/
def unbindAgent (r : Registry) (a : AgentRef) : Registry :=
  { r with named := r.named.filter fun _ b => b != a }

/-- Binds a name to an agent. -/
def setBinding (r : Registry) (name : String) (a : AgentRef) : Registry :=
  { r with named := r.named.insert name a }

/-- Drops a name. -/
def dropBinding (r : Registry) (name : String) : Registry :=
  { r with named := r.named.erase name }

/-- The registrations whose agents are gone. -/
def stale (r : Registry) (alive : AgentRef → Bool) : List (Int32 × AgentId) :=
  (r.entries.filter fun e => !alive e.2.2).map fun e => (e.1, e.2.1)

/-- Drops every registration and every name whose agent is gone. -/
def prune (r : Registry) (alive : AgentRef → Bool) : Registry :=
  let r := (r.stale alive).foldl (fun r e => r.unregister e.1 e.2) r
  { r with named := r.named.filter fun _ a => alive a }

/-- Nothing is registered, bound or requested; used ids stay used. -/
def clear (r : Registry) : Registry := { lastId := r.lastId }

/-- The index and the buckets hold the same number of ids, every indexed id is in the
bucket of its priority, and no bucket is empty. -/
def isConsistent (r : Registry) : Bool :=
  r.entries.length == r.index.size
    && !r.buckets.values.any (·.isEmpty)
    && r.index.toList.all fun (id, priority) =>
      (r.buckets.get? priority).any fun agents => agents.contains id

end Registry

end AgentScheduler
