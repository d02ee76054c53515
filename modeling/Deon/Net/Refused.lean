import Deon.Net.Timeouts

/-! What is left of a registration that the kernel refuses. The node is queued and `https_` is
set in front of `update`, whose error branch takes out the entry of `channels_` and nothing
else. -/
namespace Deon.Net
open Library

namespace IoLoop

/-- `channels_`, `https_` and the timers tell the same about the connection. -/
def HeldAlike (i fd : Nat) (s : IoLoop) : Prop :=
  (s.poller.channels fd ≠ none ↔ s.https fd = some (some i)) ∧
    (s.https fd = some (some i) ↔ Armed i s)

/-- Neither a close of the connection nor the end of a node that holds it trips an assertion of
`deleteChannel`. -/
def Closable (i fd : Nat) (s : IoLoop) : Prop :=
  s.deleteChannel i fd ≠ .error .assertion ∧
    ∀ node ∈ s.timerNodeQueue, node.http = some i → s.destroyNode node ≠ .error .assertion

/-- The poller does not hold the connection alike, and closing it trips an assertion; so does
a node of the queue, when it comes to its end. -/
def Stranded (i fd : Nat) (s : IoLoop) : Prop :=
  ¬ HeldAlike i fd s ∧ ¬ Closable i fd s ∧
    ∃ node ∈ s.timerNodeQueue, node.http = some i ∧ s.destroyNode node = .error .assertion

theorem stranded {i fd : Nat} {s : IoLoop} (erased : s.poller.channels fd = none)
    (alive : descriptor i s = some fd) (armed : Armed i s) : Stranded i fd s := by
  have refused : s.deleteChannel i fd = .error .assertion := by
    unfold deleteChannel
    rw [erased,if_neg nofun]
  refine ⟨fun alike => ?_,fun closable => closable.1 refused,?_⟩
  · exact alike.1.mpr (alike.2.mpr armed) erased
  · obtain ⟨node,member,held⟩ := armed
    obtain ⟨h,found,rfl⟩ := found_descriptor alive
    refine ⟨node,member,held,?_⟩
    rw [destroyNode_found held found,refused]
    rfl

theorem addTimer_armed {s : IoLoop} {i : Nat} {h : HttpObject} (found : s.objects i = some h)
    (timeout : Nat) : Armed i (s.addTimer i timeout) ∧
      descriptor i (s.addTimer i timeout) = some h.fd := by
  rw [addTimer_found found]
  refine ⟨⟨_,List.mem_append_right _ (List.mem_singleton_self _),rfl⟩,?_⟩
  have same := set_descriptor found {h with timer := some s.nextNode} rfl i
  exact same.trans (descriptor_found found)

theorem enter_armed {s : IoLoop} {i timeout : Nat} {h : HttpObject} (found : s.objects i = some h)
    (positive : 0 < timeout) : Armed i (s.enter i h.fd timeout) ∧
      descriptor i (s.enter i h.fd timeout) = some h.fd := by
  obtain ⟨armed,alive⟩ := addTimer_armed found timeout
  rw [enter_found found h.fd positive]
  have assigned := assignHttps_retains h.fd (some i) {s.addTimer i timeout with
    poller := {s.poller with channels := Function.update s.poller.channels h.fd (some (some i))}}
  refine ⟨assigned.armed.mpr armed,?_⟩
  rw [descriptor,assigned.kept i (.inl armed)]
  exact alive

theorem update_refused {operation : Operation} {fd : Nat} {granted : Bool} {p : EpollPoller Nat}
    (failed : epollCtl operation fd granted p.interest = none) :
    (p.update operation fd false granted).channels fd = none := by
  unfold EpollPoller.update
  rw [failed]
  exact Function.update_self ..

/-- Whenever `epoll_ctl` fails, in any state and for any connection, `addChannel` and
`updateChannel` strand it. -/
theorem refused_stranded {s : IoLoop} {i timeout : Nat} {h : HttpObject} {granted : Bool}
    (found : s.objects i = some h) (positive : 0 < timeout) :
    (epollCtl .add h.fd granted (s.enter i h.fd timeout).poller.interest = none →
      Stranded i h.fd (s.addChannel i h.fd timeout granted)) ∧
    (epollCtl .mod h.fd granted s.poller.interest = none →
      Stranded i h.fd (s.updateChannel i h.fd timeout granted)) := by
  refine ⟨fun failed => ?_,fun failed => ?_⟩
  · obtain ⟨armed,alive⟩ := enter_armed found positive
    exact stranded (update_refused failed) alive armed
  · obtain ⟨armed,alive⟩ := addTimer_armed found timeout
    have poller : (s.addTimer i timeout).poller = s.poller := by rw [addTimer_found found]; rfl
    unfold updateChannel
    rw [if_pos positive]
    rw [← poller] at failed
    exact stranded (update_refused failed) alive armed

theorem refused_stranded_sample : ∃ s, Run Steps (start ⟨0,0,by decide⟩) [.accept 7 [] ∅] s ∧
    Stranded 0 7 (s.addChannel 0 7 2000 false) ∧ Stranded 0 7 (s.updateChannel 0 7 2000 false) := by
  have run : Run Steps (start ⟨0,0,by decide⟩) [.accept 7 [] ∅] _ := .cons rfl (.nil _)
  refine ⟨_,run,?_⟩
  exact ⟨(refused_stranded (h := ⟨7,Http.Connection.fresh [] ∅,none,none⟩) rfl (by decide)).1 rfl,
    (refused_stranded (h := ⟨7,Http.Connection.fresh [] ∅,none,none⟩) rfl (by decide)).2 rfl⟩

/-- A registration is refused; two seconds later the sweep trips the assertion. -/
theorem refused_aborts : ∃ s, Run Steps (start ⟨0,0,by decide⟩)
    [.accept 7 [] ∅,.register 0 false] s ∧
    s.poller.channels 7 = none ∧ s.https 7 = some (some 0) ∧
    (∃ node ∈ s.timerNodeQueue, node.http = some 0) ∧
    ∃ s', Run Steps s [.tick ⟨2,0,by decide⟩,.sweep] s' ∧
      step s' (.expire 0) = some (.error .assertion) :=
  ⟨_,perform_get next_steps (by decide),by decide,by decide,by decide,_,
    perform_get next_steps (by decide),trapped_step (by decide)⟩

end IoLoop

end Deon.Net
