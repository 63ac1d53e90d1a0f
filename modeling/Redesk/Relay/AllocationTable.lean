import Redesk.Server.Net
import Redesk.Machine.Runs
import Redesk.Machine.Expiry
import Redesk.Machine.Seats

/-! The allocation table of the relay: it pairs two endpoints by token. -/
namespace Redesk.Relay
open Server

abbrev SessionToken := Bytes

/-- One side of a relayed session; `bound` once a datagram has come from it. -/
structure Leg where
  endpoint : Endpoint := {}
  bound : Bool := false
  bytesForwarded : UInt64 := 0
  deriving DecidableEq, Repr

structure Allocation where
  token : SessionToken := []
  a : Leg := {}
  b : Leg := {}
  createdUnixS : ℤ := 0
  lastActivityUnixS : ℤ := 0
  deriving DecidableEq, Repr

inductive LegName where
  | a | b
  deriving DecidableEq, Repr

namespace Allocation

/-- `al` as `allocate` leaves it: stamped when it has no creation time yet. -/
def created (al : Allocation) (token : SessionToken) (now : ℤ) : Allocation :=
  if al.createdUnixS = 0 then
    { al with token := token, createdUnixS := now, lastActivityUnixS := now }
  else al

/-- The leg that `src` is matched to, else the free leg that it claims. -/
def legOf (al : Allocation) (src : Endpoint) : Option (LegName × Allocation) :=
  if al.a.bound ∧ al.a.endpoint = src then some (.a, al)
  else if al.b.bound ∧ al.b.endpoint = src then some (.b, al)
  else if !al.a.bound then some (.a, { al with a := { al.a with endpoint := src, bound := true } })
  else if !al.b.bound then some (.b, { al with b := { al.b with endpoint := src, bound := true } })
  else none

@[simp] theorem created_a (al : Allocation) (token : SessionToken) (now : ℤ) :
    (al.created token now).a = al.a := by
  unfold created
  split <;> rfl

@[simp] theorem created_b (al : Allocation) (token : SessionToken) (now : ℤ) :
    (al.created token now).b = al.b := by
  unfold created
  split <;> rfl

def peer (al : Allocation) : LegName → Leg
  | .a => al.b
  | .b => al.a

def count (al : Allocation) (bytes : UInt64) : LegName → Allocation
  | .a => { al with a := { al.a with bytesForwarded := al.a.bytesForwarded + bytes } }
  | .b => { al with b := { al.b with bytesForwarded := al.b.bytesForwarded + bytes } }

/-- A datagram from `src`: the endpoint to forward it to, and what becomes of the allocation. -/
def route (al : Allocation) (src : Endpoint) (bytes : UInt64) (now : ℤ) :
    Result Endpoint × Allocation :=
  let al := { al with lastActivityUnixS := now }
  match al.legOf src with
  | none => (.fail .permissionDenied "session legs already bound to other peers", al)
  | some (self, al) =>
    let al := al.count bytes self
    if !(al.peer self).bound then (.fail .again "peer leg not yet bound", al)
    else (.good (al.peer self).endpoint, al)

end Allocation

abbrev AllocationTable := Std.ExtTreeMap SessionToken Allocation compare

namespace AllocationTable

def allocate (table : AllocationTable) (token : SessionToken) (now : ℤ) :
    Status × AllocationTable :=
  if token.isEmpty then (.error .invalidArgument "empty session token", table)
  else
    let alloc := table.getD token {}
    (.success, table.insert token (alloc.created token now))

def route (table : AllocationTable) (token : SessionToken) (src : Endpoint) (bytes : UInt64)
    (now : ℤ) : Result Endpoint × AllocationTable :=
  match table[token]? with
  | none => (.fail .invalidArgument "unknown session token", table)
  | some al =>
    let (dst, al) := al.route src bytes now
    (dst, table.insert token al)

/-- Drops the allocations that have been idle for more than `ttl` seconds, and counts them. -/
def expire (table : AllocationTable) (now ttl : ℤ) : ℕ × AllocationTable :=
  let kept := table.filter fun _ al => !decide (now - al.lastActivityUnixS > ttl)
  (table.size - kept.size, kept)

inductive Op where
  | allocate (token : SessionToken) (now : ℤ)
  | route (token : SessionToken) (src : Endpoint) (bytes : UInt64) (now : ℤ)
  | expire (now ttl : ℤ)
  deriving DecidableEq, Repr

inductive Reply where
  | status (s : Status)
  | endpoint (dst : Result Endpoint)
  | removed (n : ℕ)
  deriving DecidableEq, Repr

def step (table : AllocationTable) : Op → Reply × AllocationTable
  | .allocate token now => (.status (table.allocate token now).1, (table.allocate token now).2)
  | .route token src bytes now =>
    (.endpoint (table.route token src bytes now).1, (table.route token src bytes now).2)
  | .expire now ttl => (.removed (table.expire now ttl).1, (table.expire now ttl).2)

variable {table : AllocationTable} {token t : SessionToken} {src : Endpoint} {bytes : UInt64}
  {now ttl : ℤ}

theorem getElem?_allocate (hne : token ≠ []) : (table.allocate token now).2[t]? =
    if token = t then some ((table[token]?.getD {}).created token now) else table[t]? := by
  simp [allocate, hne, Std.ExtTreeMap.getElem?_insert, Std.ExtTreeMap.getD_eq_getD_getElem?]

theorem route_fst : (table.route token src bytes now).1 = match table[token]? with
    | none => .fail .invalidArgument "unknown session token"
    | some al => (al.route src bytes now).1 := by
  rw [route]
  cases table[token]? <;> rfl

theorem getElem?_route : (table.route token src bytes now).2[t]? =
    if token = t then table[t]?.map fun al => (al.route src bytes now).2 else table[t]? := by
  rw [route]
  by_cases ht : token = t
  · subst ht
    cases h : table[token]? with
    | none => simp [h]
    | some al => simp
  · cases h : table[token]? with
    | none => simp [ht]
    | some al => simp [Std.ExtTreeMap.getElem?_insert, ht]

theorem expire_eq_sweep : (table.expire now ttl).2 =
    Expiry.sweep (fun al => !decide (now - al.lastActivityUnixS > ttl)) table := rfl

end AllocationTable

end Redesk.Relay
