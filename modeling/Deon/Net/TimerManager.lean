import Deon.Library.Heap
import Deon.Net.Sweep

/-! `TimerManager` by itself, under any sequence of calls. Its queue is ordered by `TimerCmp`,
and which of several nodes with the same deadline comes out first is left open. -/
namespace Deon.Net
open Library

deriving instance DecidableEq for Timeval
deriving instance DecidableEq for TimerNode

/-- The queue, the weak pointer `timer_` of every connection, the connections whose
`handleClose` was called, and the number of the next node. -/
structure TimerManager where
  timerNodeQueue : List TimerNode
  timer : Nat → Option Nat
  closed : List Nat
  nextNode : Nat

def TimerCmp (a b : TimerNode) : Bool := b.expiredTime < a.expiredTime

/-- `TimerNode::~TimerNode`. -/
def TimerNode.destroy (closed : List Nat) (node : TimerNode) : List Nat :=
  match node.http with
  | some http => closed ++ [http]
  | none => closed

theorem TimerNode.destroy_all (popped : List TimerNode) (closed : List Nat) :
    popped.foldl destroy closed = closed ++ popped.filterMap TimerNode.http := by
  induction popped generalizing closed with
  | nil => rw [List.filterMap_nil,List.append_nil,List.foldl_nil]
  | cons node popped ih =>
    rw [List.foldl_cons,ih]
    unfold destroy
    cases held : node.http with
    | none => rw [List.filterMap_cons_none held]
    | some http => rw [List.filterMap_cons_some held,List.append_assoc,List.singleton_append]

namespace TimerManager

def empty : TimerManager := ⟨[],fun _ => none,[],0⟩

def addTimer (http timeout : Nat) (now : Timeval) (s : TimerManager) : TimerManager :=
  {s with
    timerNodeQueue := s.timerNodeQueue ++ [TimerNode.make s.nextNode http timeout now]
    timer := Function.update s.timer http (some s.nextNode)
    nextNode := s.nextNode + 1}

/-- `Http::deleteTimer`. -/
def deleteTimer (http : Nat) (s : TimerManager) : TimerManager :=
  match s.timer http with
  | none => s
  | some timer =>
    {s with timerNodeQueue := s.timerNodeQueue.map fun node =>
      if node.id = timer then node.resetHttp else node}

def handleExpiredEvent (heap : Heap TimerCmp) (now : Timeval) (s : TimerManager) : TimerManager :=
  let after := heap.popWhile (fun node => !node.isValid now) TimerNode.destroy s.timerNodeQueue
    s.closed
  {s with timerNodeQueue := after.1,closed := after.2}

inductive Call
  | addTimer (http timeout : Nat) (now : Timeval)
  | deleteTimer (http : Nat)
  | handleExpiredEvent (heap : Heap TimerCmp) (now : Timeval)

def call (s : TimerManager) : Call → TimerManager
  | .addTimer http timeout now => s.addTimer http timeout now
  | .deleteTimer http => s.deleteTimer http
  | .handleExpiredEvent heap now => s.handleExpiredEvent heap now

def calls (s : TimerManager) (labels : List Call) : TimerManager := labels.foldl call s

/-- What the callers of `addTimer` keep to: `registerHttp` calls it for a new connection, and
`handleRegister` behind `deleteTimer`. `armed` are the connections it was called for since. -/
def Rearms (armed : Nat → Bool) : List Call → Prop
  | [] => True
  | .addTimer http _ _ :: rest => armed http = false ∧ Rearms (Function.update armed http true) rest
  | .deleteTimer http :: rest => Rearms (Function.update armed http false) rest
  | .handleExpiredEvent _ _ :: rest => Rearms armed rest

structure Numbered (s : TimerManager) : Prop where
  distinct : (s.timerNodeQueue.map TimerNode.id).Nodup
  next : ∀ node ∈ s.timerNodeQueue, node.id < s.nextNode
  timer : ∀ http id, s.timer http = some id → id < s.nextNode

/-- The node that holds a connection is the one that its `timer_` points to. -/
def Holds (armed : Nat → Bool) (s : TimerManager) : Prop :=
  ∀ node ∈ s.timerNodeQueue, ∀ http, node.http = some http →
    s.timer http = some node.id ∧ armed http = true

/-- What a sweep pops are the nodes that are not valid, and it closes what they hold. -/
theorem handleExpiredEvent_pops (heap : Heap TimerCmp) (now : Timeval) (s : TimerManager) :
    ∃ popped : List TimerNode,
      popped.Perm (s.timerNodeQueue.filter fun node => !node.isValid now) ∧
      (s.handleExpiredEvent heap now).timerNodeQueue.Perm
        (s.timerNodeQueue.filter fun node => node.isValid now) ∧
      (s.handleExpiredEvent heap now).closed = s.closed ++ popped.filterMap TimerNode.http := by
  have closed : ∀ x y, TimerCmp x y = false → (!y.isValid now) = true → (!x.isValid now) = true := by
    intro x y order expired
    have order := of_decide_eq_false order
    have expired := of_decide_eq_false (Bool.not_eq_true' _ ▸ expired)
    exact Bool.not_eq_true' _ ▸ decide_eq_false (by omega)
  obtain ⟨popped,pops,leaves,done⟩ := @Heap.popWhile_pops _ _ _ _ heap _ TimerNode.destroy
    closed s.timerNodeQueue s.closed
  simp only [Bool.not_not] at leaves
  exact ⟨popped,pops,leaves,done.trans (TimerNode.destroy_all popped s.closed)⟩

theorem handleExpiredEvent_less {heap : Heap TimerCmp} {now : Timeval} {s : TimerManager}
    {node : TimerNode} (left : node ∈ (s.handleExpiredEvent heap now).timerNodeQueue) :
    node ∈ s.timerNodeQueue ∧ node.isValid now = true := by
  obtain ⟨_,_,leaves,_⟩ := handleExpiredEvent_pops heap now s
  exact List.mem_filter.mp (leaves.mem_iff.mp left)

theorem deleteTimer_node {http : Nat} {s : TimerManager} {node : TimerNode}
    (left : node ∈ (s.deleteTimer http).timerNodeQueue) : ∃ before ∈ s.timerNodeQueue,
      node = before ∨ s.timer http = some before.id ∧ node = before.resetHttp := by
  unfold deleteTimer at left
  cases points : s.timer http with
  | none =>
    rw [points] at left
    exact ⟨node,left,.inl rfl⟩
  | some timer =>
    rw [points] at left
    obtain ⟨before,member,rfl⟩ := List.mem_map.mp left
    refine ⟨before,member,?_⟩
    split_ifs with same
    · exact .inr ⟨congrArg some same.symm,rfl⟩
    · exact .inl rfl

theorem deleteTimer_timer (http : Nat) (s : TimerManager) : (s.deleteTimer http).timer = s.timer := by
  unfold deleteTimer
  split
  all_goals rfl

theorem deleteTimer_ids (http : Nat) (s : TimerManager) :
    (s.deleteTimer http).timerNodeQueue.map TimerNode.id = s.timerNodeQueue.map TimerNode.id := by
  unfold deleteTimer
  split
  · rfl
  · rw [List.map_map]
    apply List.map_congr_left
    intro node _
    rw [Function.comp_apply]
    split_ifs
    all_goals rfl

theorem deleteTimer_nextNode (http : Nat) (s : TimerManager) :
    (s.deleteTimer http).nextNode = s.nextNode := by
  unfold deleteTimer
  split
  all_goals rfl

theorem Numbered.addTimer {s : TimerManager} (numbered : Numbered s) (http timeout : Nat)
    (now : Timeval) : Numbered (s.addTimer http timeout now) := by
  have old : ∀ {id}, id < s.nextNode → id < s.nextNode + 1 := Nat.lt_succ_of_lt
  refine ⟨?_,?_,?_⟩
  · unfold TimerManager.addTimer
    rw [List.map_append,List.nodup_append]
    refine ⟨numbered.distinct,List.nodup_singleton _,?_⟩
    intro id before other new same
    obtain ⟨node,member,rfl⟩ := List.mem_map.mp before
    obtain rfl := List.mem_singleton.mp new
    exact Nat.ne_of_lt (numbered.next node member) same
  · intro node member
    obtain before | new := List.mem_append.mp member
    · exact old (numbered.next node before)
    · obtain rfl := List.mem_singleton.mp new
      exact Nat.lt_succ_self _
  · intro other id points
    unfold TimerManager.addTimer at points
    dsimp only at points
    by_cases same : other = http
    · rw [same,Function.update_self] at points
      obtain rfl := Option.some.inj points
      exact Nat.lt_succ_self _
    · rw [Function.update_of_ne same] at points
      exact old (numbered.timer other id points)

theorem Numbered.deleteTimer {s : TimerManager} (numbered : Numbered s) (http : Nat) :
    Numbered (s.deleteTimer http) := by
  refine ⟨?_,?_,?_⟩
  · rw [deleteTimer_ids]
    exact numbered.distinct
  · intro node member
    rw [deleteTimer_nextNode]
    obtain ⟨before,inside,rfl | ⟨_,rfl⟩⟩ := deleteTimer_node member
    · exact numbered.next _ inside
    · exact numbered.next before inside
  · rw [deleteTimer_nextNode,deleteTimer_timer]
    exact numbered.timer

theorem Numbered.handleExpiredEvent {s : TimerManager} (numbered : Numbered s)
    (heap : Heap TimerCmp) (now : Timeval) : Numbered (s.handleExpiredEvent heap now) := by
  obtain ⟨_,_,leaves,_⟩ := handleExpiredEvent_pops heap now s
  refine ⟨?_,fun node left => numbered.next node (handleExpiredEvent_less left).1,numbered.timer⟩
  rw [(leaves.map TimerNode.id).nodup_iff]
  exact numbered.distinct.sublist ((List.filter_sublist ..).map _)

theorem Numbered.calls {s : TimerManager} (numbered : Numbered s) (labels : List Call) :
    Numbered (s.calls labels) := by
  induction labels generalizing s with
  | nil => exact numbered
  | cons label rest ih =>
    apply ih
    cases label with
    | addTimer http timeout now => exact numbered.addTimer http timeout now
    | deleteTimer http => exact numbered.deleteTimer http
    | handleExpiredEvent heap now => exact numbered.handleExpiredEvent heap now

theorem Holds.addTimer {armed : Nat → Bool} {s : TimerManager} (holds : Holds armed s)
    {http : Nat} (free : armed http = false) (timeout : Nat) (now : Timeval) :
    Holds (Function.update armed http true) (s.addTimer http timeout now) := by
  intro node member other held
  unfold TimerManager.addTimer at member ⊢
  dsimp only
  obtain before | new := List.mem_append.mp member
  · obtain ⟨points,set⟩ := holds node before other held
    have apart : other ≠ http := by
      rintro rfl
      rw [free] at set
      cases set
    rw [Function.update_of_ne apart,Function.update_of_ne apart]
    exact ⟨points,set⟩
  · obtain rfl := List.mem_singleton.mp new
    obtain rfl := Option.some.inj held
    rw [Function.update_self,Function.update_self]
    exact ⟨rfl,rfl⟩

theorem Holds.deleteTimer {armed : Nat → Bool} {s : TimerManager} (holds : Holds armed s)
    (http : Nat) : Holds (Function.update armed http false) (s.deleteTimer http) := by
  intro node member other held
  rw [deleteTimer_timer]
  obtain ⟨before,inside,rfl | ⟨_,rfl⟩⟩ := deleteTimer_node member
  · obtain ⟨points,set⟩ := holds node inside other held
    have apart : other ≠ http := by
      rintro rfl
      unfold TimerManager.deleteTimer at member
      rw [points] at member
      obtain ⟨first,_,reset⟩ := List.mem_map.mp member
      split_ifs at reset with same
      · rw [← reset] at held
        cases held
      · exact same (congrArg TimerNode.id reset)
    rw [Function.update_of_ne apart]
    exact ⟨points,set⟩
  · cases held

theorem Holds.handleExpiredEvent {armed : Nat → Bool} {s : TimerManager} (holds : Holds armed s)
    (heap : Heap TimerCmp) (now : Timeval) : Holds armed (s.handleExpiredEvent heap now) :=
  fun node left => holds node (handleExpiredEvent_less left).1

theorem Holds.calls {armed : Nat → Bool} {s : TimerManager} (holds : Holds armed s)
    {labels : List Call} (rearms : Rearms armed labels) :
    ∃ armed', Holds armed' (s.calls labels) := by
  induction labels generalizing s armed with
  | nil => exact ⟨armed,holds⟩
  | cons label rest ih =>
    cases label with
    | addTimer http timeout now => exact ih (holds.addTimer rearms.1 timeout now) rearms.2
    | deleteTimer http => exact ih (holds.deleteTimer http) rearms
    | handleExpiredEvent heap now => exact ih (holds.handleExpiredEvent heap now) rearms

theorem Holds.same {armed : Nat → Bool} {s : TimerManager} (holds : Holds armed s)
    (numbered : Numbered s) {node other : TimerNode} (member : node ∈ s.timerNodeQueue)
    (inside : other ∈ s.timerNodeQueue) {http : Nat} (held : node.http = some http)
    (held' : other.http = some http) : node = other := by
  have points := (holds node member http held).1
  have points' := (holds other inside http held').1
  exact List.inj_on_of_nodup_map numbered.distinct member inside
    (Option.some.inj (points.symm.trans points'))

end TimerManager

namespace IoLoop

def timerManager (s : IoLoop) : TimerManager where
  timerNodeQueue := s.timerNodeQueue
  timer := fun i => (s.objects i).bind HttpObject.timer
  closed := []
  nextNode := s.nextNode

theorem addTimer_timerManager {i : Nat} {h : HttpObject} {s : IoLoop}
    (found : s.objects i = some h) (timeout : Nat) :
    (s.addTimer i timeout).timerManager = s.timerManager.addTimer i timeout s.clock := by
  rw [addTimer_found found]
  unfold timerManager TimerManager.addTimer
  dsimp only
  rw [TimerManager.mk.injEq]
  refine ⟨rfl,?_,rfl,rfl⟩
  ext1 j
  by_cases same : j = i
  · rw [same,set_self,Function.update_self]
    rfl
  · rw [set_other _ _ same,Function.update_of_ne same]

theorem deleteTimer_timerManager (i : Nat) (s : IoLoop) :
    (s.deleteTimer i).timerNodeQueue = (s.timerManager.deleteTimer i).timerNodeQueue := by
  unfold deleteTimer TimerManager.deleteTimer timerManager
  dsimp only
  cases (s.objects i).bind HttpObject.timer with
  | none => rfl
  | some timer => exact (release_retains i (s.disarm timer)).timerNodeQueue

theorem top_maximal (node : TimerNode) (s : IoLoop) :
    Top node s ↔ ∀ other ∈ s.timerNodeQueue, TimerCmp node other = false := by
  unfold Top TimerCmp
  simp only [decide_eq_false_iff_not,Nat.not_lt]

/-- The loop's sweep, which pops node by node, is the manager's. -/
theorem swept_timerManager {s s' s'' : IoLoop} (sound : Sound s) {expired : List Action}
    (run : Run Steps s expired s') (sweep : ∀ action ∈ expired, Expires action)
    (ended : Steps s' .swept s'') (heap : Heap TimerCmp) : s''.timerNodeQueue.Perm
      (s.timerManager.handleExpiredEvent heap s.clock).timerNodeQueue := by
  have after : Sound s'' :=
    (run.invariant Sound (fun _ _ _ before stepped => before.step stepped) sound).step ended
  obtain ⟨_,_,leaves,_⟩ := TimerManager.handleExpiredEvent_pops heap s.clock s.timerManager
  refine List.Perm.trans ?_ leaves.symm
  have first : s''.timerNodeQueue.Nodup := after.timers.distinct.of_map
  have second : s.timerNodeQueue.Nodup := sound.timers.distinct.of_map
  apply (List.perm_ext_iff_of_nodup first (second.filter _)).mpr
  intro node
  rw [swept_queue sound run sweep ended node,List.mem_filter]

end IoLoop

end Deon.Net
