import Mathlib.Logic.Function.Basic

/-! `EpollPoller` and the kernel's interest list behind it: what decides which channels an
event reaches. `channels_` holds pointers, and `deleteChannel` leaves a null pointer. -/
namespace Deon.Net

inductive Operation
  | add
  | mod
  | del
  deriving DecidableEq, Repr

structure EpollPoller (Channel : Type) where
  channels : Nat → Option (Option Channel)
  interest : Nat → Bool

/-- `epoll_ctl`; `none` stands for -1. The kernel may refuse what it could do. -/
def epollCtl (operation : Operation) (fd : Nat) (granted : Bool) (interest : Nat → Bool) :
    Option (Nat → Bool) :=
  match operation with
  | .add => if granted && !interest fd then some (Function.update interest fd true) else none
  | .mod => if granted && interest fd then some interest else none
  | .del => if interest fd then some (Function.update interest fd false) else none

theorem epollCtl_other {operation : Operation} {fd other : Nat} {granted : Bool}
    {before after : Nat → Bool} (done : epollCtl operation fd granted before = some after)
    (apart : other ≠ fd) : after other = before other := by
  unfold epollCtl at done
  cases operation with
  | add =>
    obtain ⟨_,same⟩ := Option.ite_none_right_eq_some.mp done
    rw [← Option.some.inj same,Function.update_of_ne apart]
  | mod =>
    obtain ⟨_,same⟩ := Option.ite_none_right_eq_some.mp done
    rw [← Option.some.inj same]
  | del =>
    obtain ⟨_,same⟩ := Option.ite_none_right_eq_some.mp done
    rw [← Option.some.inj same,Function.update_of_ne apart]

namespace EpollPoller

variable {Channel : Type}

/-- `EpollPoller::EpollPoller`. -/
def empty : EpollPoller Channel := ⟨fun _ => none,fun _ => false⟩

def update (operation : Operation) (fd : Nat) (isDelete granted : Bool) (p : EpollPoller Channel) :
    EpollPoller Channel :=
  match epollCtl operation fd granted p.interest with
  | some interest => {p with interest := interest}
  | none => if isDelete then p else {p with channels := Function.update p.channels fd none}

def addChannel (channel : Channel) (fd : Nat) (granted : Bool) (p : EpollPoller Channel) :
    EpollPoller Channel :=
  update .add fd false granted {p with channels := Function.update p.channels fd (some (some channel))}

def updateChannel (fd : Nat) (granted : Bool) (p : EpollPoller Channel) : EpollPoller Channel :=
  update .mod fd false granted p

/-- `deleteChannel`; `none` where an assertion fails. -/
def deleteChannel [DecidableEq Channel] (channel : Channel) (fd : Nat) (p : EpollPoller Channel) :
    Option (EpollPoller Channel) :=
  if p.channels fd = some (some channel) then
    some (update .del fd true true {p with channels := Function.update p.channels fd (some none)})
  else none

/-- `fillActiveChannels`; `none` where a null pointer is dereferenced. -/
def fillActiveChannels (events : List Nat) (p : EpollPoller Channel) : Option (List Channel) :=
  (events.filterMap p.channels).mapM id

private theorem mapM_id {Pointer : Type} {pointers : List (Option Pointer)} {targets : List Pointer} :
    pointers.mapM id = some targets ↔ pointers = targets.map some := by
  induction pointers generalizing targets with
  | nil => cases targets <;> simp
  | cons pointer pointers ih =>
    rw [List.mapM_cons]
    cases pointer with
    | none => cases targets <;> simp
    | some target =>
      cases targets with
      | nil => cases pointers.mapM id <;> simp
      | cons first targets =>
        cases others : pointers.mapM id with
        | none =>
          have apart : pointers ≠ targets.map some := fun same => by
            rw [ih.mpr same] at others
            cases others
          simp [apart]
        | some found =>
          have same := ih.mp others
          simp [same,List.map_inj_right]

theorem fillActiveChannels_mem {p : EpollPoller Channel} {events : List Nat} {active : List Channel}
    (filled : p.fillActiveChannels events = some active) (channel : Channel) :
    channel ∈ active ↔ ∃ fd ∈ events, p.channels fd = some (some channel) := by
  have pointers := mapM_id.mp filled
  have member : channel ∈ active ↔ some channel ∈ events.filterMap p.channels := by
    rw [pointers]
    simp
  rw [member,List.mem_filterMap]

theorem fillActiveChannels_eq {p : EpollPoller Channel} {events : List Nat} {active : List Channel}
    (filled : p.fillActiveChannels events = some active) :
    active = events.filterMap fun fd => (p.channels fd).join := by
  calc active = (active.map some).filterMap id := by
        rw [List.filterMap_map]
        exact List.filterMap_some.symm
    _ = (events.filterMap p.channels).filterMap id := by rw [mapM_id.mp filled]
    _ = events.filterMap fun fd => (p.channels fd).join := List.filterMap_filterMap ..

/-- Without a null pointer among the entries nothing is dereferenced that should not be. -/
theorem fillActiveChannels_whole {p : EpollPoller Channel} {events : List Nat}
    (whole : ∀ fd ∈ events, p.channels fd ≠ some none) :
    ∃ active, p.fillActiveChannels events = some active := by
  refine ⟨events.filterMap fun fd => (p.channels fd).join,mapM_id.mpr ?_⟩
  induction events with
  | nil => rfl
  | cons fd events ih =>
    have rest := ih fun other member => whole other (by simp [member])
    have here := whole fd (by simp)
    rw [List.filterMap_cons,List.filterMap_cons,rest]
    cases entry : p.channels fd with
    | none => rfl
    | some pointer =>
      cases pointer with
      | none => exact absurd entry here
      | some channel => rfl

theorem update_other {operation : Operation} {fd other : Nat} {isDelete granted : Bool}
    {p : EpollPoller Channel} (apart : other ≠ fd) :
    (update operation fd isDelete granted p).interest other = p.interest other ∧
      (update operation fd isDelete granted p).channels other = p.channels other := by
  unfold update
  cases done : epollCtl operation fd granted p.interest with
  | some interest => exact ⟨epollCtl_other done apart,rfl⟩
  | none =>
    cases isDelete with
    | true => exact ⟨rfl,rfl⟩
    | false => exact ⟨rfl,Function.update_of_ne apart ..⟩

theorem update_del (fd : Nat) (granted : Bool) (p : EpollPoller Channel) :
    update .del fd true granted p = {p with interest := Function.update p.interest fd false} := by
  unfold update epollCtl
  cases inside : p.interest fd with
  | true => rfl
  | false =>
    have same : Function.update p.interest fd false = p.interest := by
      rw [← inside,Function.update_eq_self]
    rw [same]
    rfl

theorem update_channels {operation : Operation} {fd other : Nat} {isDelete granted : Bool}
    {p : EpollPoller Channel} {pointer : Option Channel}
    (held : (update operation fd isDelete granted p).channels other = some pointer) :
    p.channels other = some pointer := by
  unfold update at held
  cases done : epollCtl operation fd granted p.interest with
  | some interest => simpa only [done] using held
  | none =>
    cases isDelete with
    | true => simpa only [done,if_true] using held
    | false =>
      simp only [done,Bool.false_eq_true,if_false] at held
      by_cases same : other = fd
      · simp [same] at held
      · rwa [Function.update_of_ne same] at held

/-- An operation that first enters a pointer for its descriptor keeps what is there for the
others, and enters no channel but its own. -/
theorem update_entered {operation : Operation} {fd kept : Nat} {isDelete granted : Bool}
    {pointer : Option Channel} {p p' : EpollPoller Channel} {channel : Channel}
    (updated : update operation fd isDelete granted
      {p with channels := Function.update p.channels fd (some pointer)} = p')
    (apart : kept ≠ fd) (foreign : pointer ≠ some channel) :
    p'.interest kept = p.interest kept ∧ p'.channels kept = p.channels kept ∧
      ∀ other, p'.channels other = some (some channel) → p.channels other = some (some channel) := by
  subst updated
  refine ⟨(update_other apart).1,?_,fun other held => ?_⟩
  · exact (update_other apart).2.trans (Function.update_of_ne apart ..)
  · have base := update_channels held
    dsimp only at base
    by_cases same : other = fd
    · rw [same,Function.update_self] at base
      exact absurd (Option.some.inj base) foreign
    · rwa [Function.update_of_ne same] at base

end EpollPoller

end Deon.Net
