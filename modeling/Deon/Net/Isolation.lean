import Deon.Http.Terminal
import Deon.Http.Twins
import Deon.Net.Removal

/-! Each connection of a loop takes the course that it would take alone. What the connections
share is the poller, the timers and the table of content types: a lookup enters its key for the
lookups of all others, those of the other loops among them. Nothing locks the table, so that the
program is at its end where two threads look up at a time. -/
namespace Deon.Net
open Library Http

/-- The loop with the table `mime_type`, in which the thread of another loop may be looking up, and
as history the events that each object was handed and its members as they were last, which outlive
it. -/
structure Tabled where
  loop : IoLoop
  mimeType : MimeType
  looking : Bool
  handed : Nat → List Event
  members : Nat → Option Connection

/-- A step of the loop; the thread of another loop begins to look up in the table, and has looked
up these keys. -/
inductive TabledAction
  | loop (action : IoLoop.Action)
  | enter
  | leave (keys : List Bytes)

namespace Tabled

def start (clock : Timeval) (table : MimeType) : Tabled :=
  ⟨IoLoop.start clock,table,false,fun _ => [],fun _ => none⟩

def goOn (t : Tabled) (action : IoLoop.Action) : Option (Except Trap Tabled) :=
  (IoLoop.step t.loop action).map fun result => result.map fun s =>
    {t with
      loop := s
      members := fun i => ((s.objects i).map HttpObject.members).or (t.members i)}

/-- The next active channel is handed its event, and its object looks up in the table. -/
def hand (event : Event) (t : Tabled) : Tabled :=
  match t.loop.activeChannels.head?.bind fun i => (t.loop.objects i).map fun h => (i,h) with
  | none => t
  | some (i,h) =>
    let members := {h.members with mime := t.mimeType}
    let called := (IoLoop.callbacks event members).toOption.getD members
    { loop := t.loop.set i {h with members := members}
      mimeType := called.mime
      looking := t.looking
      handed := Function.update t.handed i (t.handed i ++ [event])
      members := Function.update t.members i (some called)}

/-- Whether the object looks up when the next active channel is handed this event. -/
def looksUp (event : Event) (t : Tabled) : Bool :=
  match t.loop.activeChannels.head?.bind t.loop.objects with
  | none => false
  | some h =>
    match IoLoop.callbacks event {h.members with mime := t.mimeType} with
    | .ok called => (called.analysed.drop h.members.analysed.length).any asksType
    | .error _ => false

/-- What is looked up in one event is looked up at once, behind what the others have looked up. -/
def step (t : Tabled) : TabledAction → Option (Except Trap Tabled)
  | .enter => some (if t.looking then .error .race else .ok {t with looking := true})
  | .leave keys =>
    if t.looking then
      some (.ok {t with mimeType := lookedUp t.mimeType keys,looking := false})
    else none
  | .loop (.accept fd root _) => t.goOn (.accept fd root t.mimeType)
  | .loop (.dispatch event) =>
    if t.looking && t.looksUp event then some (.error .race)
    else (t.hand event).goOn (.dispatch event)
  | .loop action => t.goOn action

def Steps (t : Tabled) (action : TabledAction) (t' : Tabled) : Prop := step t action = some (.ok t')

end Tabled

namespace IoLoop

/-- An event of the channel may come: it is active, or mapped. -/
def Open (i : Nat) (s : IoLoop) : Prop :=
  i ∈ s.activeChannels ∨ ∃ fd, s.poller.channels fd = some (some i)

theorem deleteTimer_less {i j : Nat} {s : IoLoop} {h : HttpObject}
    (found : (s.deleteTimer i).objects j = some h) : s.objects j = some h := by
  rcases deleteTimer_cases i s with ⟨same,_⟩ | ⟨_,timer,_,_,same⟩
  · rwa [same] at found
  · rw [same] at found
    exact (release_retains i (s.disarm timer)).less j h found

theorem updateChannel_objects {i fd timeout : Nat} {granted : Bool} {s : IoLoop} {h : HttpObject}
    (found : s.objects i = some h) (positive : 0 < timeout) :
    (s.updateChannel i fd timeout granted).objects =
      Function.update s.objects i (some {h with timer := some s.nextNode}) := by
  unfold updateChannel
  rw [if_pos positive,addTimer_found found]
  rfl

/-- What `handleRegister` sets the events of the channel to, and the timeout that it chooses. -/
def rearmed (c : Connection) : EventMask :=
  if c.events &&& epollOut ≠ 0 then epollEt ||| epollOut else epollEt ||| epollIn

def timeoutOf (c : Connection) : Nat :=
  if c.keepAlive then defaultKeepAliveTime else defaultExpiredTime

theorem timeoutOf_positive (c : Connection) : 0 < timeoutOf c := by
  unfold timeoutOf
  split <;> decide

theorem handleRegister_goes {i : Nat} {s : IoLoop} {h : HttpObject}
    (found : (s.deleteTimer i).objects i = some h) (granted : Bool) :
    s.handleRegister i granted =
      if !h.members.err && h.members.isConnecting then
        .ok (((s.deleteTimer i).set i {h with
          members := {h.members with events := rearmed h.members}
          registered := some ((s.deleteTimer i).clock.ms,timeoutOf h.members)}).updateChannel
            i h.fd (timeoutOf h.members) granted)
      else (s.deleteTimer i).deleteChannel i h.fd := by
  unfold handleRegister
  dsimp only
  rw [find_ok.mpr found]
  rfl

theorem handleRegister_alone (env : Env) (c : Connection) : Http.handleRegister env c =
    if !c.err && c.isConnecting then
      update env {c with timer := some (timeoutOf c),events := rearmed c}
    else Http.deleteChannel env {c with timer := none} := rfl

theorem handleRegister_kept (env : Env) (c : Connection) :
    (Http.handleRegister env c).mime = c.mime ∧ (Http.handleRegister env c).root = c.root := by
  rw [handleRegister_alone]
  split
  · unfold update
    split <;> exact ⟨rfl,rfl⟩
  · exact ⟨rfl,rfl⟩

/-- What is left of the object and of its channel behind `handleRegister`, as the connection that
is alone decides it. -/
structure Rearms (env : Env) (i : Nat) (members c : Connection) (s' : IoLoop) : Prop where
  twin : Twin (Http.handleRegister env c) (((s'.objects i).map HttpObject.members).getD members)
  channel : (∃ fd, s'.poller.channels fd = some (some i)) →
    (Http.handleRegister env c).channels = c.channels

theorem assignHttps_channels (fd : Nat) (pointer : Option Nat) (s : IoLoop) :
    (s.assignHttps fd pointer).poller.channels = s.poller.channels := by
  unfold assignHttps
  split
  · exact release_channels ..
  · rfl

theorem deleteChannel_closes {i fd : Nat} {s s' : IoLoop} (done : s.deleteChannel i fd = .ok s') :
    s'.poller.channels fd = some none := by
  unfold deleteChannel at done
  split at done <;> cases done
  rw [EpollPoller.update_del,assignHttps_channels]
  exact Function.update_self ..

/-- A channel that `epoll_ctl` refuses to modify is mapped no longer. -/
theorem updateChannel_refused (i fd timeout : Nat) (s : IoLoop) :
    (s.updateChannel i fd timeout false).poller.channels fd = none := by
  unfold updateChannel EpollPoller.update epollCtl
  exact Function.update_self ..

theorem Rearms.again {i : Nat} {env : Env} {s : IoLoop} {h : HttpObject} {c : Connection}
    (twin : Twin c h.members) (fine : (!c.err && c.isConnecting) = true) (registered : Option (Nat × Nat))
    (owned : Owned ((s.set i {h with
      members := {h.members with events := rearmed h.members}
      registered := registered}).updateChannel i h.fd (timeoutOf h.members) env.ctl)) :
    Rearms env i h.members c ((s.set i {h with
      members := {h.members with events := rearmed h.members}
      registered := registered}).updateChannel i h.fd (timeoutOf h.members) env.ctl) := by
  have again := twin.map (fun e => {e with events := rearmed e}) (fun _ => rfl) rfl
  generalize kept : ({h with
    members := {h.members with events := rearmed h.members}
    registered := registered} : HttpObject) = h' at owned ⊢
  have objects := @updateChannel_objects i h.fd _ env.ctl _ _ (set_self i h' s)
    (timeoutOf_positive h.members)
  generalize after : (s.set i h').updateChannel i h.fd (timeoutOf h.members) env.ctl = s'
    at objects owned ⊢
  have here : s'.objects i = some {h' with timer := some (s.set i h').nextNode} := by
    rw [objects,Function.update_self]
  have registers : Http.handleRegister env c = update env {c with
      timer := some (timeoutOf c)
      events := rearmed c} := if_pos fine
  refine ⟨?_,?_⟩
  · rw [here,registers]
    subst kept
    unfold update
    split
    · exact again.moves ⟨c.channels,c.https,some (rearmed c),some (timeoutOf c),c.mime⟩ rfl
    · exact again.moves ⟨.absent,c.https,c.interest,some (timeoutOf c),c.mime⟩ rfl
  · rintro ⟨fd,entry⟩
    rw [registers]
    unfold update
    split
    · rfl
    · rename_i refused
      obtain ⟨other,found',rfl⟩ := found_descriptor (owned.entry entry)
      rw [here] at found'
      cases found'
      have closed := updateChannel_refused i h.fd (timeoutOf h.members) (s.set i h')
      rw [← Bool.eq_false_iff.mpr refused,after] at closed
      subst kept
      rw [closed] at entry
      cases entry

theorem Sound.rearms {i : Nat} {env : Env} {s s' : IoLoop} {h : HttpObject} {c : Connection}
    (found : s.objects i = some h) (twin : Twin c h.members) (owned : Owned s')
    (done : s.handleRegister i env.ctl = .ok s') : Rearms env i h.members c s' := by
  have flags : (!h.members.err && h.members.isConnecting) = (!c.err && c.isConnecting) :=
    twin.apply (fun e => !e.err && e.isConnecting) fun _ => rfl
  obtain ⟨alive,left,_⟩ := handleRegister_ok done
  obtain rfl := Option.some.inj ((deleteTimer_less left).symm.trans found)
  rw [handleRegister_goes left,flags] at done
  by_cases fine : (!c.err && c.isConnecting) = true
  · rw [if_pos fine] at done
    obtain rfl := Except.ok.inj done
    exact .again twin fine _ owned
  · rw [if_neg fine] at done
    have same := deleteChannel_retains done
    have removed : Http.handleRegister env c = Http.deleteChannel env {c with timer := none} :=
      if_neg fine
    have members : ∀ h', s'.objects i = some h' → h' = alive := fun h' found' =>
      Option.some.inj ((same.less i h' found').symm.trans left)
    refine ⟨?_,?_⟩
    · have kept : ((s'.objects i).map HttpObject.members).getD alive.members = alive.members := by
        cases found' : s'.objects i with
        | none => rfl
        | some h' => rw [members h' found']; rfl
      rw [kept,removed]
      exact twin.moves ⟨.null,.null,if env.ctl then none else c.interest,none,c.mime⟩ rfl
    · rintro ⟨fd,entry⟩
      obtain ⟨h',found',rfl⟩ := found_descriptor (owned.entry entry)
      rw [members h' found',deleteChannel_closes done] at entry
      cases entry

/-- The same for the callbacks in front of it. -/
theorem callbacks_twin {event : Event} {c d : Connection} (twin : Twin c d) :
    Related Twin (callbacks event c) (callbacks event d) := by
  have given := twin.map (fun e => {e with writes := event.writes}) (fun _ => rfl) rfl
  have read : Related Twin
      (if readable event.revents then
        handleRead event.env event.drains {c with writes := event.writes}
      else .ok {c with writes := event.writes})
      (if readable event.revents then
        handleRead event.env event.drains {d with writes := event.writes}
      else .ok {d with writes := event.writes}) :=
    .ite .rfl (fun _ => handleRead_twin event.env event.drains given) fun _ => .returned given
  refine read.bind fun e f both => ?_
  by_cases writes : writable event.revents = true
  · rw [if_pos writes,if_pos writes]
    exact .returned both.handleWrite
  · rw [if_neg writes,if_neg writes]
    exact .returned both

theorem handleEvents_parts (event : Event) (c : Connection) :
    Http.handleEvents event c = (callbacks event c).map (Http.handleRegister event.env) := by
  unfold Http.handleEvents callbacks
  dsimp only
  split
  · cases handleRead event.env event.drains {c with writes := event.writes} <;> rfl
  · rfl

theorem callbacks_types {event : Event} {c called : Connection} {P : MimeType → Prop}
    (looks : Looks P) (same : Types P c) (done : callbacks event c = .ok called) :
    Types P called := by
  unfold callbacks at done
  obtain ⟨read,first,last⟩ := bind_success done
  have types : Types P read := by
    split at first
    · exact @handleRead_types event.env {c with writes := event.writes} P _ read looks same first
    · cases first
      exact same
  cases last
  split
  · exact handleWrite_types types
  · exact types

theorem callbacks_untyped {event : Event} {c called : Connection}
    (done : callbacks event c = .ok called) : Untyped c called := by
  unfold callbacks at done
  obtain ⟨read,first,last⟩ := bind_success done
  have untyped : Untyped c read := by
    split at first
    · obtain ⟨added,same,typed⟩ := handleRead_untyped first
      exact ⟨added,same,typed⟩
    · cases first
      exact ⟨[],(List.append_nil _).symm,.inr rfl⟩
  cases last
  split
  · exact untyped.handleWrite
  · exact untyped

theorem callbacks_entered {event : Event} {c called : Connection}
    (done : callbacks event c = .ok called) : called.channels = c.channels ∧ called.root = c.root := by
  unfold callbacks at done
  obtain ⟨read,first,last⟩ := bind_success done
  have entered : read.channels = c.channels ∧ read.root = c.root := by
    split at first
    · exact @handleRead_entered _ _ {c with writes := event.writes} _ first
    · cases first
      exact ⟨rfl,rfl⟩
  have written := handleWrite_entered read
  cases last
  split
  · exact ⟨written.1.trans entered.1,written.2.trans entered.2⟩
  · exact entered

/-- The object as `registerHttp` makes it, before its channel is added. -/
def registers (clock : Timeval) (h : HttpObject) : HttpObject :=
  {h with
    members := {h.members with events := epollIn ||| epollEt ||| epollOneshot}
    registered := some (clock.ms,defaultExpiredTime)}

theorem registerHttp_goes {i : Nat} {s : IoLoop} {h : HttpObject} (found : s.objects i = some h)
    (granted : Bool) : s.registerHttp i granted =
      .ok ((s.set i (registers s.clock h)).addChannel i h.fd defaultExpiredTime granted) := by
  unfold registerHttp
  rw [find_ok.mpr found]
  rfl

theorem handleRegister_others {i j : Nat} {granted : Bool} {s s' : IoLoop} {other : HttpObject}
    (done : s.handleRegister i granted = .ok s') (apart : j ≠ i)
    (found : s'.objects j = some other) : s.objects j = some other := by
  apply deleteTimer_less (i := i)
  obtain ⟨h,_,⟨h',timeout,_,_,_,positive,rfl⟩ | closed⟩ := handleRegister_ok done
  · rw [updateChannel_objects (set_self ..) positive,Function.update_of_ne apart] at found
    exact (set_other h' _ apart).symm.trans found
  · exact (deleteChannel_retains closed).less j other found

theorem set_twice (i : Nat) (h h' : HttpObject) (s : IoLoop) : (s.set i h).set i h' = s.set i h' := by
  unfold set
  rw [Function.update_idem]

theorem set_handed {i : Nat} {s : IoLoop} {h : HttpObject} {event : Event} {s' : IoLoop}
    (found : s.objects i = some h) (done : s.handleEvents i event = .ok s') :
    ∃ called, callbacks event h.members = .ok called ∧
      (s.set i {h with members := called}).handleRegister i event.env.ctl = .ok s' := by
  unfold handleEvents at done
  rw [find_ok.mpr found,ok_bind] at done
  cases called : callbacks event h.members with
  | error fault =>
    rw [called] at done
    cases done
  | ok members =>
    rw [called] at done
    exact ⟨members,rfl,done⟩

/-- The registration of a connection enters its channel and arms a timer for it. -/
theorem addChannel_objects {i timeout : Nat} {granted : Bool} {s : IoLoop} {h : HttpObject}
    (found : s.objects i = some h) (positive : 0 < timeout) :
    Armed i (s.addChannel i h.fd timeout granted) ∧
      (s.addChannel i h.fd timeout granted).objects i = some {h with timer := some s.nextNode} ∧
      ∀ j other, j ≠ i → (s.addChannel i h.fd timeout granted).objects j = some other →
        s.objects j = some other := by
  have armed : Armed i (s.addTimer i timeout) := by
    rw [addTimer_found found]
    exact ⟨TimerNode.make s.nextNode i timeout s.clock,by simp,rfl⟩
  have here : (s.addTimer i timeout).objects = Function.update s.objects i
      (some {h with timer := some s.nextNode}) := by
    rw [addTimer_found found]
    rfl
  unfold addChannel
  dsimp only
  rw [enter_found found h.fd positive]
  have same := assignHttps_retains h.fd (some i) {s.addTimer i timeout with poller :=
    {s.poller with channels := Function.update s.poller.channels h.fd (some (some i))}}
  refine ⟨?_,?_,?_⟩
  · exact same.armed.mpr armed
  · have kept := same.kept i (.inl armed)
    rw [kept]
    exact (congrFun here i).trans (Function.update_self ..)
  · intro j other apart found'
    have before := same.less j other found'
    exact ((Function.update_of_ne apart ..).symm.trans (congrFun here j).symm).trans before

theorem addChannel_refused {i timeout : Nat} {s : IoLoop} (fd : Nat) :
    (s.addChannel i fd timeout false).poller.channels fd = none := by
  unfold addChannel EpollPoller.update epollCtl
  exact Function.update_self ..

end IoLoop

/-- The course of an object up to its latest event: it waits for its registration, or it has taken
the run of a connection that was registered alone and handed the same events. -/
structure Course (table : MimeType) (s : IoLoop) (i : Nat) (events : List Event) (m : Connection) :
    Prop where
  types : SameTypes table m.mime
  runs : (i ∈ s.pendingFunctors ∧ events = [] ∧ Twin (Connection.fresh m.root table) m) ∨
    i ∉ s.pendingFunctors ∧ ∃ env c,
      Run Dispatched (Http.registerHttp env (Connection.fresh m.root table)) events c ∧
        Twin c m ∧ (IoLoop.Open i s → c.channels = .held)

structure Alone (table : MimeType) (t : Tabled) : Prop where
  sound : IoLoop.Sound t.loop
  nodup : t.loop.activeChannels.Nodup
  types : SameTypes table t.mimeType
  kept : ∀ i h, t.loop.objects i = some h → t.members i = some h.members
  unused : ∀ i, t.loop.nextObject ≤ i → t.handed i = [] ∧ t.members i = none
  course : ∀ i m, t.members i = some m → Course table t.loop i (t.handed i) m

theorem start_alone (clock : Timeval) (table : MimeType) : Alone table (Tabled.start clock table) where
  sound := IoLoop.start_sound clock
  nodup := List.nodup_nil
  types := .refl table
  kept := by
    intro i h found
    cases found
  unused := fun _ _ => ⟨rfl,rfl⟩
  course := by
    intro i m last
    cases last

theorem Course.idle {table : MimeType} {s s' : IoLoop} {i : Nat} {events : List Event}
    {m : Connection} (course : Course table s i events m)
    (pending : i ∈ s'.pendingFunctors ↔ i ∈ s.pendingFunctors)
    (opens : IoLoop.Open i s' → IoLoop.Open i s) : Course table s' i events m where
  types := course.types
  runs := by
    rcases course.runs with ⟨waits,rest⟩ | ⟨registered,env,c,run,twin,held⟩
    · exact .inl ⟨pending.mpr waits,rest⟩
    · exact .inr ⟨mt pending.mp registered,env,c,run,twin,fun opened => held (opens opened)⟩

namespace Tabled

theorem goOn_steps {t t' : Tabled} {action : IoLoop.Action} (done : t.goOn action = some (.ok t')) :
    ∃ s, IoLoop.Steps t.loop action s ∧ t' = {t with
      loop := s
      members := fun i => ((s.objects i).map HttpObject.members).or (t.members i)} := by
  obtain ⟨result,stepped,mapped⟩ := Option.map_eq_some_iff.mp done
  obtain ⟨s,rfl,rfl⟩ := map_success mapped
  exact ⟨s,stepped,rfl⟩

theorem dispatch_goes {t t' : Tabled} {event : Event} (stepped : Steps t (.loop (.dispatch event)) t') :
    (t.hand event).goOn (.dispatch event) = some (.ok t') := by
  unfold Steps step at stepped
  dsimp only at stepped
  split at stepped
  · cases stepped
  · exact stepped

theorem enter_goes {t t' : Tabled} (stepped : Steps t .enter t') :
    t.looking = false ∧ t' = {t with looking := true} := by
  unfold Steps step at stepped
  dsimp only at stepped
  split at stepped
  · cases stepped
  · rename_i free
    cases stepped
    exact ⟨Bool.eq_false_iff.mpr free,rfl⟩

theorem leave_goes {t t' : Tabled} {keys : List Bytes} (stepped : Steps t (.leave keys) t') :
    t.looking = true ∧ t' = {t with mimeType := lookedUp t.mimeType keys,looking := false} := by
  obtain ⟨inside,done⟩ := Option.ite_none_right_eq_some.mp stepped
  cases done
  exact ⟨inside,rfl⟩

end Tabled

/-- A step that changes no object but leaves some out, and opens no channel. -/
theorem Alone.idle {table : MimeType} {t : Tabled} (alone : Alone table t) {s' : IoLoop}
    (sound : IoLoop.Sound s') (nodup : s'.activeChannels.Nodup)
    (less : ∀ i h, s'.objects i = some h → t.loop.objects i = some h)
    (pending : s'.pendingFunctors = t.loop.pendingFunctors)
    (opens : ∀ i, IoLoop.Open i s' → IoLoop.Open i t.loop)
    (number : s'.nextObject = t.loop.nextObject) :
    Alone table {t with
      loop := s'
      members := fun i => ((s'.objects i).map HttpObject.members).or (t.members i)} := by
  have same : ∀ i, ((s'.objects i).map HttpObject.members).or (t.members i) = t.members i := by
    intro i
    cases found : s'.objects i with
    | none => rfl
    | some h => exact (alone.kept i h (less i h found)).symm
  refine ⟨sound,nodup,alone.types,?_,?_,?_⟩
  · intro i h found
    dsimp only
    rw [found]
    rfl
  · intro i unused
    dsimp only
    rw [same]
    exact alone.unused i (number ▸ unused)
  · intro i m last
    dsimp only at last ⊢
    rw [same] at last
    exact (alone.course i m last).idle (by rw [pending]) (opens i)

/-- A step that acts on one object, whose own course goes on. -/
theorem Alone.acts {table : MimeType} {t t' : Tabled} (alone : Alone table t) {i : Nat}
    (sound : IoLoop.Sound t'.loop) (nodup : t'.loop.activeChannels.Nodup)
    (types : SameTypes table t'.mimeType) {called : Nat → Option Connection}
    (members : ∀ j, t'.members j = ((t'.loop.objects j).map HttpObject.members).or (called j))
    (outlives : ∀ j, j ≠ i → called j = t.members j)
    (handed : ∀ j, j ≠ i → t'.handed j = t.handed j)
    (others : ∀ j h, j ≠ i → t'.loop.objects j = some h → t.loop.objects j = some h)
    (pending : ∀ j, j ≠ i → (j ∈ t'.loop.pendingFunctors ↔ j ∈ t.loop.pendingFunctors))
    (opens : ∀ j, j ≠ i → IoLoop.Open j t'.loop → IoLoop.Open j t.loop)
    (later : t.loop.nextObject ≤ t'.loop.nextObject) (number : i < t'.loop.nextObject)
    (own : ∀ m, t'.members i = some m → Course table t'.loop i (t'.handed i) m) :
    Alone table t' := by
  have same : ∀ j, j ≠ i → t'.members j = t.members j := by
    intro j apart
    rw [members,outlives j apart]
    cases found : t'.loop.objects j with
    | none => rfl
    | some h => exact (alone.kept j h (others j h apart found)).symm
  refine ⟨sound,nodup,types,?_,?_,?_⟩
  · intro j h found
    rw [members,found]
    rfl
  · intro j unused
    have apart : j ≠ i := by omega
    rw [handed j apart,same j apart]
    exact alone.unused j (Nat.le_trans later unused)
  · intro j m last
    by_cases here : j = i
    · subst here
      exact own m last
    · rw [handed j here]
      rw [same j here] at last
      exact (alone.course j m last).idle (pending j here) (opens j here)

theorem registerHttp_twin (env : Env) {root : Bytes} {table : MimeType} {m : Connection}
    (twin : Twin (Connection.fresh root table) m) :
    Twin (Http.registerHttp env (Connection.fresh root table))
      {m with events := epollIn ||| epollEt ||| epollOneshot} := by
  have listens := twin.map (fun e => {e with events := epollIn ||| epollEt ||| epollOneshot})
    (fun _ => rfl) rfl
  unfold Http.registerHttp Http.addChannel update
  split
  · exact listens.moves ⟨.held,.held,some (epollIn ||| epollEt ||| epollOneshot),
      some defaultExpiredTime,table⟩ rfl
  · exact listens.moves ⟨.absent,.held,none,some defaultExpiredTime,table⟩ rfl

/-- Nothing is known of what stands around a connection when it is registered, but whether
`epoll_ctl` succeeds. -/
def registering (granted : Bool) : Env := ⟨fun _ => none,fun _ => false,fun _ _ => none,fun _ => 0,granted⟩

theorem Alone.register {table : MimeType} {t : Tabled} (alone : Alone table t) {i : Nat}
    {granted : Bool} {s' : IoLoop} (stepped : IoLoop.Steps t.loop (.register i granted) s') :
    Alone table {t with
      loop := s'
      members := fun i => ((s'.objects i).map HttpObject.members).or (t.members i)} := by
  have sound := alone.sound.step stepped
  obtain ⟨waits,middle,added,left⟩ := IoLoop.register_ok stepped
  obtain ⟨number,unknown⟩ := alone.sound.waiting.fresh i waits
  have acts := IoLoop.registerHttp_acts added
  obtain ⟨fd,alive⟩ := alone.sound.owned.pending i waits
  obtain ⟨h,found,_⟩ := IoLoop.found_descriptor alive
  have course := alone.course i h.members (alone.kept i h found)
  rw [IoLoop.registerHttp_goes found] at added
  obtain ⟨armed,here,others⟩ := @IoLoop.addChannel_objects i defaultExpiredTime granted _ _
    (IoLoop.set_self i (IoLoop.registers t.loop.clock h) t.loop) (by decide)
  obtain rfl := Except.ok.inj added
  have refused : granted = false → ((t.loop.set i (IoLoop.registers t.loop.clock h)).addChannel i h.fd
      defaultExpiredTime granted).poller.channels h.fd = none := by
    rintro rfl
    exact IoLoop.addChannel_refused h.fd
  change IoLoop.Armed i ((t.loop.set i _).addChannel i h.fd _ _) at armed
  change ((t.loop.set i _).addChannel i h.fd _ _).objects i = _ at here
  change ∀ j other, j ≠ i → ((t.loop.set i _).addChannel i h.fd _ _).objects j = _ → _ at others
  generalize (t.loop.set i (IoLoop.registers t.loop.clock h)).addChannel i h.fd
    defaultExpiredTime granted = middle at *
  have stays : s' = {middle with pendingFunctors := middle.pendingFunctors.erase i} :=
    left.trans (IoLoop.release_armed armed)
  have distinct := alone.sound.waiting.nodup
  rw [← acts.pendingFunctors] at distinct
  refine alone.acts (i := i) sound ?_ alone.types (fun _ => rfl) (fun _ _ => rfl) (fun _ _ => rfl)
    ?_ ?_ ?_ ?_ ?_ ?_
  · rw [stays]
    exact acts.activeChannels ▸ alone.nodup
  · intro j other apart found'
    rw [stays] at found'
    exact (IoLoop.set_other _ t.loop apart).symm.trans (others j other apart found')
  · intro j apart
    rw [stays]
    dsimp only
    rw [List.mem_erase_of_ne apart,acts.pendingFunctors]
  · intro j apart opened
    rw [stays] at opened
    rcases opened with active | ⟨fd,entry⟩
    · exact .inl (acts.activeChannels ▸ active)
    · exact .inr ⟨fd,(acts.channels fd j entry).resolve_left apart⟩
  · rw [stays]
    exact Nat.le_of_eq acts.nextObject.symm
  · rw [stays]
    exact acts.nextObject ▸ number
  · intro m last
    rw [stays] at last ⊢
    dsimp only at last
    rw [here] at last
    obtain rfl := Option.some.inj last
    obtain ⟨_,idle,twin⟩ := course.runs.resolve_right fun other => other.1 waits
    refine ⟨course.types,.inr ⟨?_,registering granted,_,?_,
      registerHttp_twin (registering granted) twin,?_⟩⟩
    · exact fun member => ((distinct.mem_erase_iff).mp member).1 rfl
    · show Run Dispatched _ (t.handed i) _
      rw [idle]
      exact .nil _
    · intro opened
      cases granted with
      | true => rfl
      | false =>
        -- a channel that is refused is not entered
        rcases opened with active | ⟨other,entry⟩
        · exact absurd (.inr (.inl (acts.activeChannels ▸ active))) unknown
        · have entered : s'.poller.channels other = some (some i) := stays ▸ entry
          have alive' : IoLoop.descriptor i s' = some h.fd := by
            have there := IoLoop.descriptor_found here
            rw [stays]
            exact there
          obtain rfl := Option.some.inj ((sound.owned.entry entered).symm.trans alive')
          have closed : s'.poller.channels h.fd = none := by
            rw [stays]
            exact refused rfl
          cases entered.symm.trans closed

theorem Alone.accept {table : MimeType} {t : Tabled} (alone : Alone table t) {fd : Nat}
    {root : Bytes} {s' : IoLoop} (stepped : IoLoop.Steps t.loop (.accept fd root t.mimeType) s') :
    Alone table {t with
      loop := s'
      members := fun i => ((s'.objects i).map HttpObject.members).or (t.members i)} := by
  have sound := alone.sound.step stepped
  obtain ⟨_,done⟩ := Option.ite_none_right_eq_some.mp stepped
  cases done
  have older : ∀ j, j ≠ t.loop.nextObject → ∀ h : HttpObject,
      (t.loop.set t.loop.nextObject h).objects j = t.loop.objects j :=
    fun j apart h => IoLoop.set_other h t.loop apart
  refine alone.acts (i := t.loop.nextObject) sound alone.nodup alone.types (fun _ => rfl)
    (fun _ _ => rfl) (fun _ _ => rfl) ?_ ?_ (fun _ _ => id) (Nat.le_succ _) (Nat.lt_succ_self _) ?_
  · intro j other apart found
    exact (older j apart _).symm.trans found
  · intro j apart
    simp [apart]
  · intro m last
    dsimp only at last ⊢
    rw [IoLoop.set_self] at last
    obtain rfl := Option.some.inj last
    refine ⟨alone.types,.inl ⟨by simp,(alone.unused _ (Nat.le_refl _)).1,?_⟩⟩
    exact @Twin.placed (Connection.fresh root table) ⟨.absent,.absent,none,none,t.mimeType⟩ alone.types

namespace Tabled

theorem hand_missing {t : Tabled} {i : Nat} {rest : List Nat} (event : Event)
    (first : t.loop.activeChannels = i :: rest) (missing : t.loop.objects i = none) :
    t.hand event = t := by
  unfold hand
  rw [first,List.head?_cons,Option.bind_some,missing]
  rfl

theorem hand_found {t : Tabled} {i : Nat} {rest : List Nat} {h : HttpObject} (event : Event)
    (first : t.loop.activeChannels = i :: rest) (found : t.loop.objects i = some h) :
    t.hand event =
      let members := {h.members with mime := t.mimeType}
      let called := (IoLoop.callbacks event members).toOption.getD members
      { loop := t.loop.set i {h with members := members}
        mimeType := called.mime
        looking := t.looking
        handed := Function.update t.handed i (t.handed i ++ [event])
        members := Function.update t.members i (some called)} := by
  unfold hand
  rw [first,List.head?_cons,Option.bind_some,found]
  rfl

theorem hand_active (t : Tabled) (event : Event) :
    (t.hand event).loop.activeChannels = t.loop.activeChannels := by
  unfold hand
  split <;> rfl

/-- An event that is handed over: the object that is next, and what its callbacks made of it. -/
theorem hand_steps {t : Tabled} {event : Event} {s' : IoLoop}
    (stepped : IoLoop.Steps (t.hand event).loop (.dispatch event) s') :
    ∃ i rest h called, t.loop.activeChannels = i :: rest ∧ t.loop.objects i = some h ∧
      IoLoop.callbacks event {h.members with mime := t.mimeType} = .ok called ∧
      t.hand event = {
        loop := t.loop.set i {h with members := {h.members with mime := t.mimeType}}
        mimeType := called.mime
        looking := t.looking
        handed := Function.update t.handed i (t.handed i ++ [event])
        members := Function.update t.members i (some called)} ∧
      ({t.loop with activeChannels := rest}.set i {h with members := called}).handleRegister i
        event.env.ctl = .ok s' := by
  obtain ⟨i,rest,_,first,done⟩ := IoLoop.dispatch_cases stepped
  rw [hand_active] at first
  cases found : t.loop.objects i with
  | none =>
    rw [hand_missing event first found] at done
    obtain ⟨h,_,found',_⟩ := IoLoop.handleEvents_ok done
    cases found'.symm.trans found
  | some h =>
    have handed := hand_found event first found
    dsimp only at handed
    rw [handed] at done
    obtain ⟨called,ran,registered⟩ := @IoLoop.set_handed i _ {h with
      members := {h.members with mime := t.mimeType}} event s' (Function.update_self ..) done
    refine ⟨i,rest,h,called,first,found,ran,?_,?_⟩
    · rw [handed,ran]
      rfl
    · rw [← registered]
      have twice := IoLoop.set_twice i {h with members := {h.members with mime := t.mimeType}}
        {h with members := called} {t.loop with activeChannels := rest}
      exact congrArg (fun s => s.handleRegister i event.env.ctl) twice.symm

end Tabled

theorem Alone.dispatch {table : MimeType} {t : Tabled} (alone : Alone table t) {event : Event}
    {s' : IoLoop} (stepped : IoLoop.Steps (t.hand event).loop (.dispatch event) s') :
    Alone table {t.hand event with
      loop := s'
      members := fun i => ((s'.objects i).map HttpObject.members).or ((t.hand event).members i)} := by
  obtain ⟨i,rest,h,called,first,found,ran,handed,registered⟩ := Tabled.hand_steps stepped
  have known : IoLoop.Known i t.loop := .inr (.inl (by simp [first]))
  have apart : i ∉ t.loop.pendingFunctors := fun waits => (alone.sound.waiting.fresh i waits).2 known
  obtain ⟨absent,nodup⟩ := List.nodup_cons.mp (first ▸ alone.nodup)
  have course := alone.course i h.members (alone.kept i h found)
  obtain ⟨_,env,c,run,twin,held⟩ := course.runs.resolve_left fun waits => apart waits.1
  have sound : IoLoop.Sound s' := by
    refine IoLoop.Sound.step ?_ stepped
    rw [handed]
    exact alone.sound.set found _ rfl rfl rfl
  rw [handed]
  have lent : Twin c {h.members with mime := t.mimeType} := by
    have types : SameTypes h.members.mime t.mimeType := course.types.symm.trans alone.types
    exact twin.trans (@Twin.placed h.members ⟨h.members.channels,h.members.https,h.members.interest,
      h.members.timer,t.mimeType⟩ types)
  obtain ⟨c',alone',twin'⟩ := (IoLoop.callbacks_twin lent.symm).ok ran
  have rearms := IoLoop.Sound.rearms (IoLoop.set_self i _ _) twin'.symm sound.owned registered
  have acts := IoLoop.handleRegister_acts registered
  have types : SameTypes table called.mime :=
    @IoLoop.callbacks_types event {h.members with mime := t.mimeType} called (SameTypes table)
      (SameTypes.looks table) alone.types ran
  refine alone.acts (i := i) sound ?_ types (fun _ => rfl) ?_ ?_ ?_ ?_ ?_ ?_ ?_ ?_
  · exact acts.activeChannels ▸ nodup
  · exact fun j apart => Function.update_of_ne apart ..
  · exact fun j apart => Function.update_of_ne apart ..
  · intro j other apart found'
    have before := IoLoop.handleRegister_others registered apart found'
    rwa [IoLoop.set_other _ _ apart] at before
  · intro j _
    exact iff_of_eq (congrArg (j ∈ ·) acts.pendingFunctors)
  · intro j apart opened
    rcases opened with active | ⟨fd,entry⟩
    · rw [show s'.activeChannels = rest from acts.activeChannels] at active
      exact .inl (by simp [first,active])
    · exact .inr ⟨fd,(acts.channels fd j entry).resolve_left apart⟩
  · exact Nat.le_of_eq acts.nextObject.symm
  · exact Nat.lt_of_lt_of_eq (alone.sound.waiting.known i known) acts.nextObject.symm
  · intro m last
    dsimp only at last ⊢
    rw [Function.update_self,Option.or_some,Option.some.injEq] at last
    rw [Function.update_self]
    have after : Twin (Http.handleRegister event.env c') m := last ▸ rearms.twin
    have ⟨mime,root⟩ := IoLoop.handleRegister_kept event.env c'
    have sameRoot : m.root = h.members.root := by
      calc m.root = (Http.handleRegister event.env c').root := after.apply (fun e => e.root) fun _ => rfl
        _ = called.root := root.trans (twin'.apply (fun e => e.root) fun _ => rfl)
        _ = h.members.root := (IoLoop.callbacks_entered ran).2
    have dispatched : Dispatched c event (Http.handleRegister event.env c') :=
      ⟨held (.inl (by simp [first])),by rw [IoLoop.handleEvents_parts,alone']; rfl⟩
    refine ⟨?_,.inr ⟨?_,env,_,?_,after,?_⟩⟩
    · exact (types.trans twin'.1).trans (mime ▸ after.1)
    · exact fun waits => apart (acts.pendingFunctors ▸ waits)
    · rw [sameRoot]
      exact run.append (.cons dispatched (.nil _))
    · rintro (active | entry)
      · exact absurd ((show s'.activeChannels = rest from acts.activeChannels) ▸ active) absent
      · rw [rearms.channel entry,(IoLoop.callbacks_entered alone').1]
        exact held (.inl (by simp [first]))

theorem Alone.poll {table : MimeType} {t : Tabled} (alone : Alone table t) {events : List Nat}
    {s' : IoLoop} (stepped : IoLoop.Steps t.loop (.poll events) s') :
    Alone table {t with
      loop := s'
      members := fun i => ((s'.objects i).map HttpObject.members).or (t.members i)} := by
  have sound := alone.sound.step stepped
  obtain ⟨⟨_,distinct,_⟩,_⟩ := Option.ite_none_right_eq_some.mp stepped
  obtain ⟨channels,filled,rfl⟩ := IoLoop.poll_ok stepped
  refine alone.idle sound ?_ (fun _ _ => id) rfl ?_ rfl
  · rw [EpollPoller.fillActiveChannels_eq filled]
    refine distinct.filterMap fun fd other i one two => ?_
    have one := alone.sound.owned.entry (Option.join_eq_some_iff.mp one)
    have two := alone.sound.owned.entry (Option.join_eq_some_iff.mp two)
    exact Option.some.inj (one.symm.trans two)
  · rintro i (active | entry)
    · obtain ⟨fd,_,entry⟩ := (EpollPoller.fillActiveChannels_mem filled i).mp active
      exact .inr ⟨fd,entry⟩
    · exact .inr entry

theorem Alone.expire {table : MimeType} {t : Tabled} (alone : Alone table t) {id : Nat}
    {s' : IoLoop} (stepped : IoLoop.Steps t.loop (.expire id) s') :
    Alone table {t with
      loop := s'
      members := fun i => ((s'.objects i).map HttpObject.members).or (t.members i)} := by
  have sound := alone.sound.step stepped
  obtain ⟨node,_,_,_,_,_,done⟩ := IoLoop.expire_cases stepped
  obtain ⟨_,rfl⟩ | ⟨i,h,middle,_,_,closed,rfl⟩ := IoLoop.destroyNode_ok done
  · exact alone.idle sound alone.nodup (fun _ _ found => found) rfl (fun _ opened => opened) rfl
  · have removed := IoLoop.deleteChannel_retains closed
    have released := IoLoop.release_retains i (middle.pop node)
    have acts : IoLoop.Acts i t.loop ((middle.pop node).release i) :=
      (IoLoop.deleteChannel_acts closed).trans
        ((IoLoop.pop_acts i node middle).trans (IoLoop.release_acts i i _))
    refine alone.idle sound ?_ ?_ acts.pendingFunctors ?_ acts.nextObject
    · rw [acts.activeChannels]
      exact alone.nodup
    · exact fun j other found => removed.less j other (released.less j other found)
    · rintro j (active | ⟨fd,entry⟩)
      · exact .inl (acts.activeChannels ▸ active)
      · rcases acts.channels fd j entry with rfl | before
        · exact .inr ⟨h.fd,IoLoop.deleteChannel_ok closed⟩
        · exact .inr ⟨fd,before⟩

theorem Alone.step {table : MimeType} {t t' : Tabled} (alone : Alone table t)
    {action : TabledAction} (stepped : Tabled.Steps t action t') : Alone table t' := by
  cases action with
  | enter =>
    obtain ⟨_,rfl⟩ := Tabled.enter_goes stepped
    exact ⟨alone.sound,alone.nodup,alone.types,alone.kept,alone.unused,alone.course⟩
  | leave keys =>
    obtain ⟨_,rfl⟩ := Tabled.leave_goes stepped
    have types := alone.types.trans (SameTypes.lookedUp t.mimeType keys)
    exact ⟨alone.sound,alone.nodup,types,alone.kept,alone.unused,alone.course⟩
  | loop action =>
    cases action with
    | accept fd root mime =>
      obtain ⟨s',moved,rfl⟩ := Tabled.goOn_steps stepped
      exact alone.accept moved
    | register i granted =>
      obtain ⟨s',moved,rfl⟩ := Tabled.goOn_steps stepped
      exact alone.register moved
    | dispatch event =>
      obtain ⟨s',moved,rfl⟩ := Tabled.goOn_steps (Tabled.dispatch_goes stepped)
      exact alone.dispatch moved
    | poll events =>
      obtain ⟨s',moved,rfl⟩ := Tabled.goOn_steps stepped
      exact alone.poll moved
    | expire id =>
      obtain ⟨s',moved,rfl⟩ := Tabled.goOn_steps stepped
      exact alone.expire moved
    | tick | handled | sweep | swept =>
      obtain ⟨s',moved,rfl⟩ := Tabled.goOn_steps stepped
      have sound := alone.sound.step moved
      obtain ⟨_,done⟩ := Option.ite_none_right_eq_some.mp moved
      cases done
      exact alone.idle sound alone.nodup (fun _ _ => id) rfl (fun _ => id) rfl

theorem run_alone {clock : Timeval} {table : MimeType} {actions : List TabledAction} {t : Tabled}
    (run : Run Tabled.Steps (Tabled.start clock table) actions t) : Alone table t :=
  run.invariant (Alone table) (fun _ _ _ alone stepped => alone.step stepped)
    (start_alone clock table)

theorem Alone.registered {table : MimeType} {t : Tabled} (alone : Alone table t) {i : Nat}
    {m : Connection} (last : t.members i = some m) (registered : i ∉ t.loop.pendingFunctors) :
    ∃ env c, Run Dispatched (Http.registerHttp env (Connection.fresh m.root table)) (t.handed i) c ∧
      Twin c m := by
  obtain ⟨_,env,c,course,twin,_⟩ :=
    (alone.course i m last).runs.resolve_left fun waits => registered waits.1
  exact ⟨env,c,course,twin⟩

/-- In every run of a loop, whatever its other connections and those of the other loops do, as long
as no two threads look up in the table at a time, an object has taken the run of a connection that
is registered alone and handed the events that it was handed itself: the two differ in the entries
of the poller, and in keys of the table that answer alike. An object that waits for its
registration is as it was made. -/
theorem connection_alone {clock : Timeval} {table : MimeType} {actions : List TabledAction}
    {t : Tabled} (run : Run Tabled.Steps (Tabled.start clock table) actions t) (i : Nat) :
    (∀ h, t.loop.objects i = some h → t.members i = some h.members) ∧
    ∀ m, t.members i = some m →
      (i ∈ t.loop.pendingFunctors → t.handed i = [] ∧ Twin (Connection.fresh m.root table) m) ∧
      (i ∉ t.loop.pendingFunctors → ∃ env c,
        Run Dispatched (Http.registerHttp env (Connection.fresh m.root table)) (t.handed i) c ∧
          Twin c m) := by
  have alone := run_alone run
  refine ⟨alone.kept i,fun m last => ⟨fun waits => ?_,alone.registered last⟩⟩
  exact ((alone.course i m last).runs.resolve_right fun other => other.1 waits).2

namespace Tabled

/-- A step that does not end the program. -/
def next (t : Tabled) (action : TabledAction) : Option Tabled := (step t action).bind Except.toOption

theorem next_steps (t : Tabled) (action : TabledAction) (t' : Tabled) (done : next t action = some t') :
    Steps t action t' := by
  obtain ⟨result,stepped,same⟩ := Option.bind_eq_some_iff.mp done
  rw [toOption_success] at same
  exact stepped.trans (congrArg some same)

end Tabled

/-- A request whose response is cut short, of a connection that is alone. -/
def aloneActions : List TabledAction :=
  [.loop (.accept 7 [] ∅),.loop (.register 0 true),.loop (.poll [7]),.loop (.dispatch shortWrite)]

/-- The same request, behind a bad one of another connection, which is removed while another loop
looks up. -/
def crowdedActions : List TabledAction :=
  [.loop (.accept 7 [] ∅),.loop (.register 0 true),.loop (.accept 8 [] ∅),.loop (.register 1 true),
    .loop (.poll [7,8]),.enter,.loop (.dispatch badLine),.leave [[46]],.loop (.dispatch shortWrite)]

def sampleLoop (clock : Timeval) : Tabled := .start clock mimeType

set_option maxRecDepth 4096 in
theorem crowded_run : ∃ t m, Run Tabled.Steps (sampleLoop ⟨0,0,by decide⟩) crowdedActions t ∧
    t.handed 1 = [shortWrite] ∧ t.members 1 = some m ∧ m.root = [] ∧
      1 ∉ t.loop.pendingFunctors := by
  have events : (perform Tabled.next (sampleLoop ⟨0,0,by decide⟩) crowdedActions).map
      (fun t => t.handed 1) = some [shortWrite] := by rfl
  have state : (perform Tabled.next (sampleLoop ⟨0,0,by decide⟩) crowdedActions).map (fun t =>
      ((t.members 1).map Connection.root,t.loop.pendingFunctors)) = some (some [],[]) := by decide
  obtain ⟨t,played,handed⟩ := Option.map_eq_some_iff.mp events
  rw [played,Option.map_some,Option.some.injEq,Prod.mk.injEq] at state
  obtain ⟨rooted,pending⟩ := state
  obtain ⟨m,last,root⟩ := Option.map_eq_some_iff.mp rooted
  exact ⟨t,m,perform_run Tabled.next_steps played,handed,last,root,by simp [pending]⟩

theorem connection_alone_crowded : ∃ t m env c,
    Run Tabled.Steps (sampleLoop ⟨0,0,by decide⟩) crowdedActions t ∧ t.members 1 = some m ∧
      Run Dispatched (Http.registerHttp env (Connection.fresh m.root mimeType)) [shortWrite] c ∧
        Twin c m := by
  obtain ⟨t,m,run,handed,last,_,registered⟩ := crowded_run
  obtain ⟨env,c,course,twin⟩ := ((connection_alone run 1).2 m last).2 registered
  exact ⟨t,m,env,c,run,last,handed ▸ course,twin⟩

theorem handleRegister_placed (env : Env) (c : Connection) : ∃ place : Place, place.mime = c.mime ∧
    Http.handleRegister env c =
      (if !c.err && c.isConnecting then {c with events := IoLoop.rearmed c} else c).placed place := by
  rw [IoLoop.handleRegister_alone]
  split
  · unfold update
    split
    · exact ⟨⟨c.channels,c.https,some (IoLoop.rearmed c),some (IoLoop.timeoutOf c),c.mime⟩,rfl,rfl⟩
    · exact ⟨⟨.absent,c.https,c.interest,some (IoLoop.timeoutOf c),c.mime⟩,rfl,rfl⟩
  · exact ⟨⟨.null,.null,if env.ctl then none else c.interest,none,c.mime⟩,rfl,rfl⟩

theorem handleEvents_twin {event : Event} {c d c' : Connection} (twin : Twin c d)
    (handled : Http.handleEvents event c = .ok c') :
    ∃ d', Http.handleEvents event d = .ok d' ∧ Twin c' d' := by
  rw [IoLoop.handleEvents_parts] at handled
  obtain ⟨read,first,rfl⟩ := map_success handled
  obtain ⟨read',second,both⟩ := (IoLoop.callbacks_twin twin).ok first
  have flags := both.apply (fun e => !e.err && e.isConnecting) fun _ => rfl
  obtain ⟨place,mime,left⟩ := handleRegister_placed event.env read
  obtain ⟨place',mime',right⟩ := handleRegister_placed event.env read'
  refine ⟨_,by rw [IoLoop.handleEvents_parts,second]; rfl,?_⟩
  rw [left,right,flags]
  split
  · have again := both.map (fun e => {e with events := IoLoop.rearmed e}) (fun _ => rfl) rfl
    exact ((again.moves place mime).symm.moves place' mime').symm
  · exact ((both.moves place mime).symm.moves place' mime').symm

/-- Twins that are handed the same events stay twins. -/
theorem run_twin {c d c' d' : Connection} {events : List Event} (twin : Twin c d)
    (run : Run Dispatched c events c') (run' : Run Dispatched d events d') : Twin c' d' := by
  induction run generalizing d with
  | nil => cases run'; exact twin
  | cons first rest ih =>
    obtain _ | ⟨first',rest'⟩ := run'
    obtain ⟨middle,handled,next⟩ := handleEvents_twin twin first.2
    obtain rfl := Except.ok.inj (handled.symm.trans first'.2)
    exact ih next rest'

/-- What a connection receives is all that its answers depend on, as long as no two threads look up
in the table at a time: two connections of any two loops with the same root that were handed the
same events have sent the same bytes, decided the same responses to the same requests and hold the
same buffers and states. -/
theorem connections_apart {clock clock' : Timeval} {table : MimeType}
    {actions actions' : List TabledAction} {t t' : Tabled}
    (run : Run Tabled.Steps (Tabled.start clock table) actions t)
    (run' : Run Tabled.Steps (Tabled.start clock' table) actions' t') {i j : Nat} {m m' : Connection}
    (last : t.members i = some m) (last' : t'.members j = some m') (root : m'.root = m.root)
    (registered : i ∉ t.loop.pendingFunctors) (registered' : j ∉ t'.loop.pendingFunctors)
    (same : t'.handed j = t.handed i) :
    m'.sent = m.sent ∧ m'.responses = m.responses ∧ m'.analysed = m.analysed ∧
      m'.inputBuffer = m.inputBuffer ∧ m'.outputBuffer = m.outputBuffer ∧ m'.request = m.request ∧
      (m'.state,m'.hState,m'.err,m'.isConnecting,m'.keepAlive,m'.events) =
        (m.state,m.hState,m.err,m.isConnecting,m.keepAlive,m.events) := by
  obtain ⟨env,c,course,twin⟩ := (run_alone run).registered last registered
  obtain ⟨env',c',course',twin'⟩ := (run_alone run').registered last' registered'
  rw [root,same] at course'
  have starts : Twin (Http.registerHttp env (Connection.fresh m.root table))
      (Http.registerHttp env' (Connection.fresh m.root table)) :=
    (registerHttp_twin env (.refl _)).trans (registerHttp_twin env' (.refl _)).symm
  have both : Twin m m' := twin.symm.trans ((run_twin starts course course').trans twin')
  obtain ⟨place,rfl⟩ := both.moved
  exact ⟨rfl,rfl,rfl,rfl,rfl,rfl,rfl⟩

theorem connections_apart_crowded : ∃ t t' m m',
    Run Tabled.Steps (sampleLoop ⟨0,0,by decide⟩) aloneActions t ∧
    Run Tabled.Steps (sampleLoop ⟨0,0,by decide⟩) crowdedActions t' ∧
      t.members 0 = some m ∧ t'.members 1 = some m' ∧
        m'.sent = m.sent ∧ m'.responses = m.responses := by
  obtain ⟨t',m',run',handed',last',root',registered'⟩ := crowded_run
  have events : (perform Tabled.next (sampleLoop ⟨0,0,by decide⟩) aloneActions).map
      (fun t => t.handed 0) = some [shortWrite] := by rfl
  have state : (perform Tabled.next (sampleLoop ⟨0,0,by decide⟩) aloneActions).map (fun t =>
      ((t.members 0).map Connection.root,t.loop.pendingFunctors)) = some (some [],[]) := by decide
  obtain ⟨t,played,handed⟩ := Option.map_eq_some_iff.mp events
  rw [played,Option.map_some,Option.some.injEq,Prod.mk.injEq] at state
  obtain ⟨rooted,pending⟩ := state
  obtain ⟨m,last,root⟩ := Option.map_eq_some_iff.mp rooted
  have run := perform_run Tabled.next_steps played
  obtain ⟨sent,responses,_⟩ := connections_apart run run' last last' (root'.trans root.symm)
    (by simp [pending]) registered' (handed'.trans handed.symm)
  exact ⟨t,t',m,m',run,run',last,last',sent,responses⟩

end Deon.Net
