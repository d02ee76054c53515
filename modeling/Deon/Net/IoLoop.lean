import Deon.Http.Connection
import Deon.Library.Run
import Deon.Net.EpollPoller
import Deon.Net.Timer

/-! The connections of one loop: the `Http` objects with their channels, the maps of
`EpollPoller`, its `TimerManager`, and the descriptors behind them. An `Http` lives as long as
a shared pointer to it is left, in `https_`, in a timer node or in a functor that is still to
register it, and closes its descriptor when it is destroyed. -/
namespace Deon.Net
open Library Http

/-- What ends the program: an assertion of `deleteChannel`, a null pointer in `channels_`, a
callback of an `Http` that is destroyed, an exception or a bad address in a handler, two threads
in a table that nothing locks. -/
inductive Trap
  | assertion
  | nullPointer
  | dangling
  | fault (fault : Fault)
  | race
  deriving DecidableEq, Repr

/-- An `Http` with its channel, which is known by the same number: the members that the
handlers use (not the entries of the poller among them), the weak pointer `timer_`, and as
history when it was registered or registered again last, and for how long. -/
structure HttpObject where
  fd : Nat
  members : Connection
  timer : Option Nat
  registered : Option (Nat × Nat)

/-- The loop is between two batches of events, handles one, or is in `handleExpiredEvent`. -/
inductive Phase
  | between
  | handling
  | sweeping
  deriving DecidableEq, Repr

/-- `activeChannels` are those that are still to be handled, `pendingFunctors` the objects whose
`registerHttp` is held by a functor; new objects and nodes get the next numbers. -/
structure IoLoop where
  clock : Timeval
  phase : Phase
  poller : EpollPoller Nat
  https : Nat → Option (Option Nat)
  timerNodeQueue : List TimerNode
  activeChannels : List Nat
  pendingFunctors : List Nat
  objects : Nat → Option HttpObject
  nextObject : Nat
  nextNode : Nat

namespace IoLoop

def start (clock : Timeval) : IoLoop where
  clock := clock
  phase := .between
  poller := EpollPoller.empty
  https := fun _ => none
  timerNodeQueue := []
  activeChannels := []
  pendingFunctors := []
  objects := fun _ => none
  nextObject := 0
  nextNode := 0

def find (i : Nat) (s : IoLoop) : Except Trap HttpObject :=
  match s.objects i with
  | some h => .ok h
  | none => .error .dangling

def set (i : Nat) (h : HttpObject) (s : IoLoop) : IoLoop :=
  {s with objects := Function.update s.objects i (some h)}

theorem set_found {i j : Nat} {h other : HttpObject} {s : IoLoop}
    (found : (s.set i h).objects j = some other) :
    j = i ∧ other = h ∨ j ≠ i ∧ s.objects j = some other := by
  unfold set at found
  by_cases same : j = i
  · simp only [same,Function.update_self,Option.some.injEq] at found
    exact .inl ⟨same,found.symm⟩
  · exact .inr ⟨same,(Function.update_of_ne same ..).symm.trans found⟩

theorem set_self (i : Nat) (h : HttpObject) (s : IoLoop) : (s.set i h).objects i = some h :=
  Function.update_self ..

theorem set_other {i j : Nat} (h : HttpObject) (s : IoLoop) (apart : j ≠ i) :
    (s.set i h).objects j = s.objects j := Function.update_of_ne apart ..

/-- Some shared pointer to the object is left. -/
def Shared (i fd : Nat) (s : IoLoop) : Prop :=
  i ∈ s.pendingFunctors ∨ s.https fd = some (some i) ∨ ∃ node ∈ s.timerNodeQueue, node.http = some i

instance (i fd : Nat) (s : IoLoop) : Decidable (Shared i fd s) :=
  inferInstanceAs (Decidable (_ ∨ _ ∨ _))

/-- `Http::~Http`: a descriptor that is closed leaves the interest list. -/
def destroy (i fd : Nat) (s : IoLoop) : IoLoop :=
  {s with
    objects := Function.update s.objects i none
    poller := {s.poller with interest := Function.update s.poller.interest fd false}}

theorem destroy_other {i j : Nat} (fd : Nat) (s : IoLoop) (apart : j ≠ i) :
    (s.destroy i fd).objects j = s.objects j := Function.update_of_ne apart ..

theorem destroy_self (i fd : Nat) (s : IoLoop) : (s.destroy i fd).objects i = none :=
  Function.update_self ..

/-- A shared pointer goes, and the object with the last one. -/
def release (i : Nat) (s : IoLoop) : IoLoop :=
  match s.objects i with
  | none => s
  | some h => if Shared i h.fd s then s else s.destroy i h.fd

/-- An assignment to `https_[fd]`, and what it does to the pointer that was there. -/
def assignHttps (fd : Nat) (pointer : Option Nat) (s : IoLoop) : IoLoop :=
  let after := {s with https := Function.update s.https fd (some pointer)}
  match s.https fd with
  | some (some old) => after.release old
  | _ => after

/-- `resetHttp` on the node with this number; there is none if it was popped. -/
def disarm (timer : Nat) (s : IoLoop) : IoLoop :=
  {s with timerNodeQueue := s.timerNodeQueue.map fun node =>
    if node.id = timer then node.resetHttp else node}

def deleteTimer (i : Nat) (s : IoLoop) : IoLoop :=
  match (s.objects i).bind HttpObject.timer with
  | some timer => (s.disarm timer).release i
  | none => s

/-- `EpollPoller::addTimer` and `TimerManager::addTimer`; without an object `getTie` is null. -/
def addTimer (i timeout : Nat) (s : IoLoop) : IoLoop :=
  match s.objects i with
  | none => s
  | some h =>
    {s with
      timerNodeQueue := s.timerNodeQueue ++ [TimerNode.make s.nextNode i timeout s.clock]
      objects := Function.update s.objects i (some {h with timer := some s.nextNode})
      nextNode := s.nextNode + 1}

theorem addTimer_found {s : IoLoop} {i : Nat} {h : HttpObject} (found : s.objects i = some h)
    (timeout : Nat) : s.addTimer i timeout = {s.set i {h with timer := some s.nextNode} with
      timerNodeQueue := s.timerNodeQueue ++ [TimerNode.make s.nextNode i timeout s.clock]
      nextNode := s.nextNode + 1} := by
  unfold addTimer
  rw [found]
  rfl

/-- What `addChannel` does in front of `update`. -/
def enter (i fd timeout : Nat) (s : IoLoop) : IoLoop :=
  let s := {s with poller := {s.poller with
    channels := Function.update s.poller.channels fd (some (some i))}}
  if 0 < timeout then
    let s := s.addTimer i timeout
    s.assignHttps fd (if (s.objects i).isSome then some i else none)
  else s

theorem enter_found {s : IoLoop} {i : Nat} {h : HttpObject} (found : s.objects i = some h)
    (fd : Nat) {timeout : Nat} (positive : 0 < timeout) : s.enter i fd timeout =
      ({s.addTimer i timeout with poller := {s.poller with
        channels := Function.update s.poller.channels fd (some (some i))}} : IoLoop).assignHttps
          fd (some i) := by
  unfold enter
  rw [if_pos positive,addTimer_found found,addTimer_found (by exact found)]
  dsimp only
  rw [set_self]
  rfl

def addChannel (i fd timeout : Nat) (granted : Bool) (s : IoLoop) : IoLoop :=
  let s := s.enter i fd timeout
  {s with poller := s.poller.update .add fd false granted}

def updateChannel (i fd timeout : Nat) (granted : Bool) (s : IoLoop) : IoLoop :=
  let s := if 0 < timeout then s.addTimer i timeout else s
  {s with poller := s.poller.update .mod fd false granted}

def deleteChannel (i fd : Nat) (s : IoLoop) : Except Trap IoLoop :=
  if s.poller.channels fd = some (some i) then
    let s := {s with poller := {s.poller with
      channels := Function.update s.poller.channels fd (some none)}}
    let s := s.assignHttps fd none
    .ok {s with poller := s.poller.update .del fd true true}
  else .error .assertion

def registerHttp (i : Nat) (granted : Bool) (s : IoLoop) : Except Trap IoLoop := do
  let h ← s.find i
  let members := {h.members with events := epollIn ||| epollEt ||| epollOneshot}
  let registered := some (s.clock.ms,defaultExpiredTime)
  return (s.set i {h with members := members,registered := registered}).addChannel i h.fd
    defaultExpiredTime granted

def handleRegister (i : Nat) (granted : Bool) (s : IoLoop) : Except Trap IoLoop := do
  let s := s.deleteTimer i
  let h ← s.find i
  let c := h.members
  if !c.err && c.isConnecting then
    let timeout := if c.keepAlive then defaultKeepAliveTime else defaultExpiredTime
    let events := if c.events &&& epollOut ≠ 0 then epollEt ||| epollOut else epollEt ||| epollIn
    let registered := some (s.clock.ms,timeout)
    return (s.set i {h with members := {c with events := events},registered := registered}).updateChannel
      i h.fd timeout granted
  else s.deleteChannel i h.fd

/-- What `Channel::handleEvents` runs in front of `registerCallback_`. -/
def callbacks (event : Event) (c : Connection) : Except Fault Connection := do
  let c := {c with writes := event.writes}
  let c ← (if readable event.revents then handleRead event.env event.drains c else pure c)
  return if writable event.revents then handleWrite c else c

def handleEvents (i : Nat) (event : Event) (s : IoLoop) : Except Trap IoLoop := do
  let h ← s.find i
  match callbacks event h.members with
  | .error fault => .error (.fault fault)
  | .ok members => (s.set i {h with members := members}).handleRegister i event.env.ctl

def pop (node : TimerNode) (s : IoLoop) : IoLoop :=
  {s with timerNodeQueue := s.timerNodeQueue.filter fun other => other.id ≠ node.id}

/-- The node is popped, and `TimerNode::~TimerNode` runs; its pointer goes behind the body. -/
def destroyNode (node : TimerNode) (s : IoLoop) : Except Trap IoLoop :=
  match node.http with
  | none => .ok (s.pop node)
  | some i => do
    let h ← s.find i
    let s ← s.deleteChannel i h.fd
    return (s.pop node).release i

/-- `timerNodeQueue.top()`: a node with the smallest `expiredTime_`, any one of several. -/
def Top (node : TimerNode) (s : IoLoop) : Prop :=
  ∀ other ∈ s.timerNodeQueue, node.expiredTime ≤ other.expiredTime

instance (node : TimerNode) (s : IoLoop) : Decidable (Top node s) :=
  inferInstanceAs (Decidable (∀ other ∈ s.timerNodeQueue, _))

/-- Time passes; a connection is accepted, and a functor is to register it; the functor is run;
`epoll_wait` returns events for these descriptors; the next active channel handles its event;
all have; `handleExpiredEvent` begins, pops this node, and ends. -/
inductive Action
  | tick (now : Timeval)
  | accept (fd : Nat) (root : Bytes) (mime : MimeType)
  | register (i : Nat) (granted : Bool)
  | poll (events : List Nat)
  | dispatch (event : Event)
  | handled
  | sweep
  | expire (node : Nat)
  | swept

def step (s : IoLoop) : Action → Option (Except Trap IoLoop)
  | .tick now => if s.clock.ms ≤ now.ms then some (.ok {s with clock := now}) else none
  | .accept fd root mime =>
    if ∀ i < s.nextObject, ∀ h ∈ s.objects i, h.fd ≠ fd then
      some (.ok {s.set s.nextObject ⟨fd,Connection.fresh root mime,none,none⟩ with
        pendingFunctors := s.pendingFunctors ++ [s.nextObject]
        nextObject := s.nextObject + 1})
    else none
  | .register i granted =>
    if i ∈ s.pendingFunctors ∧ s.phase ≠ .sweeping then
      some ((s.registerHttp i granted).map fun s =>
        ({s with pendingFunctors := s.pendingFunctors.erase i} : IoLoop).release i)
    else none
  | .poll events =>
    if s.phase = .between ∧ events.Nodup ∧ ∀ fd ∈ events, s.poller.interest fd = true then
      match s.poller.fillActiveChannels events with
      | some channels => some (.ok {s with activeChannels := channels,phase := .handling})
      | none => some (.error .nullPointer)
    else none
  | .dispatch event =>
    match s.phase, s.activeChannels with
    | .handling, i :: rest => some ({s with activeChannels := rest}.handleEvents i event)
    | _, _ => none
  | .handled =>
    if s.phase = .handling ∧ s.activeChannels = [] then some (.ok {s with phase := .between})
    else none
  | .sweep => if s.phase = .between then some (.ok {s with phase := .sweeping}) else none
  | .expire id =>
    if s.phase = .sweeping then
      match s.timerNodeQueue.find? (fun node => node.id = id) with
      | some node =>
        if Top node s ∧ node.isValid s.clock = false then some (s.destroyNode node) else none
      | none => none
    else none
  | .swept =>
    if s.phase = .sweeping ∧ (s.timerNodeQueue = [] ∨
        ∃ node ∈ s.timerNodeQueue, Top node s ∧ node.isValid s.clock = true) then
      some (.ok {s with phase := .between})
    else none

def Steps (s : IoLoop) (action : Action) (s' : IoLoop) : Prop := step s action = some (.ok s')

end IoLoop

end Deon.Net
