import Deon.Library.Wrapping

/-! `TimerNode`: a deadline for a connection. `nodeUpdate` and `isValid` read the clock, reduce
it, and the timeout is added behind the reduction. -/
namespace Deon.Net
open Library

/-- `struct timeval`, as `gettimeofday` fills it. -/
structure Timeval where
  sec : Nat
  usec : Nat
  fits : usec < 1000000

def Timeval.ms (tv : Timeval) : Nat := tv.sec * 1000 + tv.usec / 1000

/-- `((tv.tv_sec % 10000) * 1000) + (tv.tv_usec / 1000)`. -/
def reduced (tv : Timeval) : Nat := (tv.sec % 10000) * 1000 + tv.usec / 1000

/-- 10000 seconds. -/
def period : Nat := 10000000

theorem reduced_ms (tv : Timeval) : reduced tv = tv.ms % period := by
  have fits := tv.fits
  unfold reduced Timeval.ms period
  omega

/-- A node, with the pointer that keeps its connection alive; `resetHttp` clears it. The
timeout is a positive `int`, so that the sum stays inside a `size_t`. As history it has when it
was made, and for how long. -/
structure TimerNode where
  id : Nat
  expiredTime : Nat
  http : Option Nat
  created : Timeval
  timeout : Nat
  stamped : expiredTime = reduced created + timeout

namespace TimerNode

/-- `TimerNode::TimerNode` with its `nodeUpdate`. -/
def make (id http timeout : Nat) (now : Timeval) : TimerNode :=
  ⟨id,reduced now + timeout,some http,now,timeout,rfl⟩

def isValid (node : TimerNode) (now : Timeval) : Bool := reduced now < node.expiredTime

def resetHttp (node : TimerNode) : TimerNode := {node with http := none}

/-- The time from which on the connection is due. -/
def deadline (node : TimerNode) : Nat := node.created.ms + node.timeout

end TimerNode

/-- When a node is found expired: the time that has passed makes up for every wrap point that
was crossed since it was made. -/
theorem expired_iff (node : TimerNode) {now : Timeval} (later : node.created.ms ≤ now.ms) :
    node.isValid now = false ↔
      node.deadline + wraps period node.created.ms now.ms * period ≤ now.ms := by
  rw [TimerNode.isValid,decide_eq_false_iff_not,Nat.not_lt,node.stamped,reduced_ms,reduced_ms,
    mod_add_le_mod_iff later]
  rfl

/-- A node is not found expired too early, whatever wrap points lie in between. -/
theorem expired_due {node : TimerNode} {now : Timeval} (later : node.created.ms ≤ now.ms)
    (expired : node.isValid now = false) : node.deadline ≤ now.ms :=
  Nat.le_trans (Nat.le_add_right ..) ((expired_iff node later).mp expired)

end Deon.Net
