import Deon.Net.Timeouts

/-! What a sweep leaves. It pops the nodes in the order of `expiredTime_` until it finds a valid
one, and both sides of the comparison are reduced: a node that is due stays valid when the
clock's reduction wrapped around behind its creation. -/
namespace Deon.Net
open Library

namespace IoLoop

/-- The loop of `handleExpiredEvent` at one time. -/
def Expires : Action → Prop
  | .expire _ => True
  | _ => False

theorem destroyNode_queue {node : TimerNode} {s s' : IoLoop} (done : s.destroyNode node = .ok s') :
    s'.timerNodeQueue = (s.pop node).timerNodeQueue ∧ s'.clock = s.clock := by
  obtain ⟨_,rfl⟩ | ⟨i,h,middle,_,_,closed,rfl⟩ := destroyNode_ok done
  · exact ⟨rfl,rfl⟩
  · have retains := deleteChannel_retains closed
    have released := release_retains i (middle.pop node)
    refine ⟨released.timerNodeQueue.trans ?_,released.clock.trans retains.clock⟩
    unfold pop
    rw [retains.timerNodeQueue]

theorem expire_valid {s s' : IoLoop} (timers : Timers s) {id : Nat}
    (stepped : Steps s (.expire id) s') : s'.clock = s.clock ∧
      (∀ node ∈ s'.timerNodeQueue, node ∈ s.timerNodeQueue) ∧
      ∀ node ∈ s.timerNodeQueue, node.isValid s.clock = true → node ∈ s'.timerNodeQueue := by
  obtain ⟨popped,member,_,_,_,expired,done⟩ := expire_cases stepped
  obtain ⟨queue,clock⟩ := destroyNode_queue done
  refine ⟨clock,fun node inside => ?_,fun node inside valid => ?_⟩
  · rw [queue] at inside
    exact List.mem_of_mem_filter inside
  · rw [queue]
    refine List.mem_filter.mpr ⟨inside,decide_eq_true fun same => ?_⟩
    obtain rfl := List.inj_on_of_nodup_map timers.distinct inside member same
    rw [valid] at expired
    cases expired

theorem sweep_valid {s s' : IoLoop} {expired : List Action} (run : Run Steps s expired s')
    (sweep : ∀ action ∈ expired, Expires action) (sound : Sound s) : s'.clock = s.clock ∧
      (∀ node ∈ s'.timerNodeQueue, node ∈ s.timerNodeQueue) ∧
      ∀ node ∈ s.timerNodeQueue, node.isValid s.clock = true → node ∈ s'.timerNodeQueue := by
  induction run with
  | nil => exact ⟨rfl,fun _ => id,fun _ member _ => member⟩
  | @cons s middle s' action labels first rest ih =>
    have one := sweep action (by simp)
    cases action with
    | expire id =>
      obtain ⟨clock,less,kept⟩ := expire_valid sound.timers first
      obtain ⟨clock',less',kept'⟩ := ih (fun other member => sweep other (by simp [member]))
        (sound.step first)
      refine ⟨clock'.trans clock,fun node member => less node (less' node member),?_⟩
      intro node member valid
      exact kept' node (kept node member valid) (clock ▸ valid)
    | _ => cases one

theorem swept_valid {s s' : IoLoop} (stepped : Steps s .swept s') :
    s'.timerNodeQueue = s.timerNodeQueue ∧ ∀ node ∈ s.timerNodeQueue, node.isValid s.clock = true := by
  obtain ⟨⟨_,ended⟩,done⟩ := Option.ite_none_right_eq_some.mp stepped
  cases done
  refine ⟨rfl,fun node member => ?_⟩
  rcases ended with empty | ⟨first,_,top,valid⟩
  · rw [empty] at member
    cases member
  · have valid := of_decide_eq_true valid
    exact decide_eq_true (Nat.lt_of_lt_of_le valid (top node member))

theorem swept_queue {s s' s'' : IoLoop} (sound : Sound s) {expired : List Action}
    (run : Run Steps s expired s') (sweep : ∀ action ∈ expired, Expires action)
    (ended : Steps s' .swept s'') (node : TimerNode) :
    node ∈ s''.timerNodeQueue ↔ node ∈ s.timerNodeQueue ∧ node.isValid s.clock = true := by
  obtain ⟨clock,less,kept⟩ := sweep_valid run sweep sound
  obtain ⟨same,valid⟩ := swept_valid ended
  rw [same]
  constructor
  · exact fun member => ⟨less node member,clock ▸ valid node member⟩
  · rintro ⟨member,valid⟩
    exact kept node member valid

/-- The elapsed time makes up for every wrap point that was crossed. -/
def CaughtUp (node : TimerNode) (now : Timeval) : Prop :=
  node.deadline + wraps period node.created.ms now.ms * period ≤ now.ms

instance (node : TimerNode) (now : Timeval) : Decidable (CaughtUp node now) :=
  inferInstanceAs (Decidable (_ ≤ _))

/-- A node is found expired exactly when it is due, if it is not yet due or the elapsed time
makes up for the wrap points that were crossed; and a sweep leaves no connection that is due
exactly when the elapsed time does so for every connection that is due. -/
theorem swept_iff {clock : Timeval} {labels expired : List Action} {s s' s'' : IoLoop}
    (run : Run Steps (start clock) labels s) (swept : Run Steps s expired s')
    (sweep : ∀ action ∈ expired, Expires action) (ended : Steps s' .swept s'') :
    (∀ (node : TimerNode) (now : Timeval), node.created.ms ≤ now.ms →
      ((node.isValid now = false ↔ node.deadline ≤ now.ms) ↔
        now.ms < node.deadline ∨ CaughtUp node now)) ∧
    ((∀ node ∈ s''.timerNodeQueue, node.http ≠ none → s.clock.ms < node.deadline) ↔
      ∀ node ∈ s.timerNodeQueue, node.http ≠ none → node.deadline ≤ s.clock.ms →
        CaughtUp node s.clock) := by
  have sound := run_sound run
  have queue := swept_queue sound swept sweep ended
  refine ⟨?_,?_,?_⟩
  · intro node now later
    have early := fun expired => expired_due later expired
    rw [expired_iff node later] at early ⊢
    unfold CaughtUp
    constructor
    · intro exactly
      by_cases due : node.deadline ≤ now.ms
      · exact .inr (exactly.mpr due)
      · exact .inl (Nat.lt_of_not_le due)
    · rintro (before | caught)
      · exact ⟨early,fun due => absurd due (Nat.not_le_of_lt before)⟩
      · exact ⟨early,fun _ => caught⟩
  · intro none node member armed due
    have later := (sound.timers.made node member).2
    refine (expired_iff node later).mp ?_
    by_contra valid
    have left := (queue node).mpr ⟨member,by simpa using valid⟩
    exact Nat.not_le_of_lt (none node left armed) due
  · intro caught node member armed
    obtain ⟨before,valid⟩ := (queue node).mp member
    by_contra due
    have later := (sound.timers.made node before).2
    have expired := (expired_iff node later).mpr (caught node before armed (Nat.le_of_not_lt due))
    rw [valid] at expired
    cases expired

/-- Nothing wraps around: the connection is swept. -/
theorem swept_iff_sample : ∃ s s' s'', Run Steps (start ⟨5,0,by decide⟩)
    [.accept 7 [] ∅,.register 0 true,.tick ⟨7,0,by decide⟩,.sweep] s ∧
    Run Steps s [.expire 0] s' ∧ Steps s' .swept s'' ∧
    ((TimerNode.make 0 0 2000 ⟨5,0,by decide⟩).isValid ⟨7,0,by decide⟩ = false ↔
      (TimerNode.make 0 0 2000 ⟨5,0,by decide⟩).deadline ≤ Timeval.ms ⟨7,0,by decide⟩) ∧
    ∀ node ∈ s''.timerNodeQueue, node.http ≠ none → s.clock.ms < node.deadline := by
  have run : Run Steps (start ⟨5,0,by decide⟩)
      [.accept 7 [] ∅,.register 0 true,.tick ⟨7,0,by decide⟩,.sweep] _ :=
    perform_get next_steps (by decide)
  refine ⟨_,_,_,run,.cons (next_get (by decide)) (.nil _),next_get (by decide),?_⟩
  have both := @swept_iff _ _ [.expire 0] _ _ _ run (.cons (next_get (by decide)) (.nil _))
    (by simp [Expires]) (next_get (by decide))
  refine ⟨?_,both.2.mpr (by decide)⟩
  exact (both.1 _ ⟨7,0,by decide⟩ (by decide)).mpr (.inr (by decide))

/-- The clock's reduction wraps around half a second behind the registration: the connection is
due after two seconds, and a sweep leaves it. -/
theorem due_node_kept :
    (∃ (node : TimerNode) (now : Timeval), node.created.ms ≤ now.ms ∧ node.deadline ≤ now.ms ∧
      node.isValid now = true) ∧
    ∃ s s', Run Steps (start ⟨9999,500000,by decide⟩)
      [.accept 7 [] ∅,.register 0 true,.tick ⟨10002,0,by decide⟩,.sweep] s ∧ Steps s .swept s' ∧
      ∃ node ∈ s'.timerNodeQueue, node.http = some 0 ∧ node.deadline ≤ s.clock.ms := by
  refine ⟨⟨TimerNode.make 0 0 2000 ⟨9999,500000,by decide⟩,⟨10002,0,by decide⟩,?_⟩,?_⟩
  · decide
  · exact ⟨_,_,perform_get next_steps (by decide),next_get (by decide),by decide⟩

end IoLoop

end Deon.Net
