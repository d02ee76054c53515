import Deon.Net.Armed

/-! The pointers to the connections. An object that `https_` names is alive and has the
descriptor of the entry, and a channel in `channels_` belongs to the object in `https_`: so a
descriptor that is used again finds no pointer of the object that had it before. -/
namespace Deon.Net
open Library

namespace IoLoop

/-- The descriptor of an object that is alive. -/
def descriptor (i : Nat) (s : IoLoop) : Option Nat := (s.objects i).map HttpObject.fd

structure Owned (s : IoLoop) : Prop where
  number : ∀ i fd, descriptor i s = some fd → i < s.nextObject
  fds : ∀ i j fd, descriptor i s = some fd → descriptor j s = some fd → i = j
  https : ∀ fd i, s.https fd = some (some i) → descriptor i s = some fd
  channels : ∀ fd i, s.poller.channels fd = some (some i) → s.https fd = some (some i)
  pending : ∀ i ∈ s.pendingFunctors, ∃ fd, descriptor i s = some fd

theorem descriptor_found {i : Nat} {s : IoLoop} {h : HttpObject} (found : s.objects i = some h) :
    descriptor i s = some h.fd := by
  rw [descriptor,found,Option.map_some]

theorem found_descriptor {i fd : Nat} {s : IoLoop} (alive : descriptor i s = some fd) :
    ∃ h, s.objects i = some h ∧ h.fd = fd := Option.map_eq_some_iff.mp alive

theorem Owned.same {s s' : IoLoop} (owned : Owned s)
    (descriptors : ∀ i, descriptor i s' = descriptor i s) (https : s'.https = s.https)
    (channels : ∀ fd i, s'.poller.channels fd = some (some i) →
      s.poller.channels fd = some (some i))
    (pending : ∀ i ∈ s'.pendingFunctors, i ∈ s.pendingFunctors)
    (nextObject : s'.nextObject = s.nextObject) : Owned s' where
  number := by
    intro i fd alive
    rw [descriptors] at alive
    exact nextObject ▸ owned.number i fd alive
  fds := by
    intro i j fd one two
    rw [descriptors] at one two
    exact owned.fds i j fd one two
  https := by
    intro fd i held
    rw [descriptors]
    exact owned.https fd i (https ▸ held)
  channels := by
    intro fd i held
    rw [https]
    exact owned.channels fd i (channels fd i held)
  pending := by
    intro i member
    rw [descriptors]
    exact owned.pending i (pending i member)

theorem set_descriptor {i : Nat} {s : IoLoop} {h : HttpObject} (found : s.objects i = some h)
    (h' : HttpObject) (fd : h'.fd = h.fd) (j : Nat) : descriptor j (s.set i h') = descriptor j s := by
  by_cases same : j = i
  · rw [same,descriptor_found (set_self i h' s),fd,descriptor_found found]
  · rw [descriptor,set_other _ _ same,descriptor]

theorem Owned.set {s : IoLoop} (owned : Owned s) {i : Nat} {h : HttpObject}
    (found : s.objects i = some h) (h' : HttpObject) (fd : h'.fd = h.fd) : Owned (s.set i h') :=
  owned.same (set_descriptor found h' fd) rfl (fun _ _ => id) (fun _ => id) rfl

theorem Owned.release {s : IoLoop} (owned : Owned s) (i : Nat) : Owned (s.release i) := by
  rcases release_cases i s with same | ⟨h,found,unshared,same⟩
  · rw [same]
    exact owned
  · rw [same]
    have less : ∀ {j fd}, descriptor j (s.destroy i h.fd) = some fd → descriptor j s = some fd := by
      intro j fd alive
      by_cases gone : j = i
      · rw [gone,descriptor,destroy_self] at alive
        cases alive
      · rwa [descriptor,destroy_other _ _ gone] at alive
    have more : ∀ {j fd}, descriptor j s = some fd → j ≠ i →
        descriptor j (s.destroy i h.fd) = some fd := by
      intro j fd alive apart
      rwa [descriptor,destroy_other _ _ apart]
    refine ⟨?_,?_,?_,owned.channels,?_⟩
    · exact fun j fd alive => owned.number j fd (less alive)
    · exact fun j k fd one two => owned.fds j k fd (less one) (less two)
    · intro fd j held
      have alive := owned.https fd j held
      refine more alive ?_
      -- an object in `https_` is shared
      rintro rfl
      rw [descriptor_found found] at alive
      obtain rfl := Option.some.inj alive
      exact unshared (.inr (.inl held))
    · intro j member
      obtain ⟨fd,alive⟩ := owned.pending j member
      refine ⟨fd,more alive ?_⟩
      rintro rfl
      exact unshared (.inl member)

theorem Owned.update {s : IoLoop} (owned : Owned s) (operation : Operation) (fd : Nat)
    (isDelete granted : Bool) :
    Owned {s with poller := s.poller.update operation fd isDelete granted} :=
  owned.same (fun _ => rfl) rfl (fun _ _ => EpollPoller.update_channels) (fun _ => id) rfl

theorem Owned.deleteTimer {s : IoLoop} (owned : Owned s) (i : Nat) : Owned (s.deleteTimer i) := by
  rcases deleteTimer_cases i s with ⟨same,_⟩ | ⟨_,timer,_,_,same⟩
  · rw [same]
    exact owned
  · rw [same]
    apply Owned.release
    exact owned.same (fun _ => rfl) rfl (fun _ _ => id) (fun _ => id) rfl

/-- Both entries of a descriptor are set, to its object or to null pointers. -/
theorem Owned.assign {s : IoLoop} (owned : Owned s) {fd : Nat} (pointer : Option Nat)
    (own : ∀ i, pointer = some i → descriptor i s = some fd) :
    Owned {s with
      poller := {s.poller with channels := Function.update s.poller.channels fd (some pointer)}
      https := Function.update s.https fd (some pointer)} where
  number := owned.number
  fds := owned.fds
  https := by
    intro other i held
    by_cases same : other = fd
    · simp only [same,Function.update_self,Option.some.injEq] at held
      rw [same]
      exact own i held
    · exact owned.https other i ((Function.update_of_ne same ..).symm.trans held)
  channels := by
    intro other i held
    by_cases same : other = fd
    · simp only [same,Function.update_self] at held ⊢
      exact held
    · have before := (Function.update_of_ne same ..).symm.trans held
      exact (Function.update_of_ne same ..).trans (owned.channels other i before)
  pending := owned.pending

theorem Owned.assignHttps {s : IoLoop} (owned : Owned s) {fd : Nat} (pointer : Option Nat)
    (own : ∀ i, pointer = some i → descriptor i s = some fd) :
    Owned (({s with poller := {s.poller with
      channels := Function.update s.poller.channels fd (some pointer)}} : IoLoop).assignHttps
        fd pointer) := by
  unfold IoLoop.assignHttps
  split
  · exact (owned.assign pointer own).release _
  · exact owned.assign pointer own

theorem Owned.deleteChannel {s s' : IoLoop} (owned : Owned s) {i fd : Nat}
    (done : s.deleteChannel i fd = .ok s') : Owned s' := by
  unfold IoLoop.deleteChannel at done
  split at done <;> cases done
  exact (owned.assignHttps none nofun).update ..

theorem Owned.addTimer {s : IoLoop} (owned : Owned s) {i : Nat} {h : HttpObject}
    (found : s.objects i = some h) (timeout : Nat) : Owned (s.addTimer i timeout) := by
  rw [addTimer_found found]
  exact owned.same (set_descriptor found _ rfl) rfl (fun _ _ => id) (fun _ => id) rfl

theorem Owned.addChannel {s : IoLoop} (owned : Owned s) {i timeout : Nat} {h : HttpObject}
    (found : s.objects i = some h) (positive : 0 < timeout) (granted : Bool) :
    Owned (s.addChannel i h.fd timeout granted) := by
  unfold IoLoop.addChannel
  apply Owned.update
  rw [enter_found found h.fd positive]
  have timed := @Owned.assignHttps _ (owned.addTimer found timeout) h.fd (some i)
  rw [addTimer_found found] at timed ⊢
  apply timed
  intro j same
  obtain rfl := Option.some.inj same
  exact (set_descriptor found {h with timer := some s.nextNode} rfl i).trans (descriptor_found found)

theorem Owned.updateChannel {s : IoLoop} (owned : Owned s) {i : Nat} {h : HttpObject}
    (found : s.objects i = some h) (fd timeout : Nat) (granted : Bool) :
    Owned (s.updateChannel i fd timeout granted) := by
  unfold IoLoop.updateChannel
  dsimp only
  apply Owned.update
  split
  · exact owned.addTimer found timeout
  · exact owned

/-- The entries of a descriptor that `deleteChannel` takes away. -/
def cleared (fd : Nat) (s : IoLoop) : IoLoop :=
  {s with
    poller := ⟨Function.update s.poller.channels fd (some none),
      Function.update s.poller.interest fd false⟩
    https := Function.update s.https fd (some none)}

theorem Owned.cleared {s : IoLoop} (owned : Owned s) (fd : Nat) : Owned (s.cleared fd) := by
  have assigned := @Owned.assign s owned fd none nofun
  exact assigned.same (fun _ => rfl) rfl (fun _ _ => id) (fun _ => id) rfl

/-- When the assertions of `deleteChannel` hold the object in `https_` is its own as well. -/
theorem Owned.deleteChannel_eq {s : IoLoop} (owned : Owned s) {i fd : Nat}
    (held : s.poller.channels fd = some (some i)) :
    s.deleteChannel i fd = .ok ((s.cleared fd).release i) := by
  unfold IoLoop.deleteChannel IoLoop.assignHttps
  rw [if_pos held]
  dsimp only
  rw [owned.channels fd i held]
  dsimp only
  obtain ⟨h,found,rfl⟩ := found_descriptor (owned.https fd i (owned.channels fd i held))
  unfold IoLoop.release
  rw [show (s.cleared h.fd).objects i = some h from found]
  dsimp only
  rw [found]
  dsimp only
  by_cases shared : Shared i h.fd (s.cleared h.fd)
  · rw [if_pos shared,if_pos (by exact shared),EpollPoller.update_del]
    rfl
  · rw [if_neg shared,if_neg (by exact shared),EpollPoller.update_del]
    rfl

theorem release_other {i j : Nat} (s : IoLoop) (apart : j ≠ i) :
    descriptor j (s.release i) = descriptor j s := by
  rcases release_cases i s with same | ⟨h,_,_,same⟩ <;> rw [same]
  rw [descriptor,destroy_other _ _ apart,descriptor]

theorem release_armed {i : Nat} {s : IoLoop} (armed : Armed i s) : s.release i = s := by
  rcases release_cases i s with same | ⟨h,_,unshared,_⟩
  · exact same
  · exact absurd (.inr (.inr armed)) unshared

theorem release_held {i fd : Nat} {s : IoLoop} (alive : descriptor i s = some fd)
    (held : s.https fd = some (some i)) : s.release i = s := by
  rcases release_cases i s with same | ⟨h,found,unshared,_⟩
  · exact same
  · obtain rfl := Option.some.inj ((descriptor_found found).symm.trans alive)
    exact absurd (.inr (.inl held)) unshared

theorem Owned.destroyNode_eq {s : IoLoop} (owned : Owned s) {node : TimerNode} {i : Nat}
    {h : HttpObject} (member : node ∈ s.timerNodeQueue) (held : node.http = some i)
    (found : s.objects i = some h) (entry : s.poller.channels h.fd = some (some i)) :
    s.destroyNode node = .ok (((s.pop node).cleared h.fd).release i) := by
  rw [destroyNode_found held found,owned.deleteChannel_eq entry]
  have armed : Armed i (s.cleared h.fd) := ⟨node,member,held⟩
  rw [release_armed armed]
  rfl

end IoLoop

end Deon.Net
