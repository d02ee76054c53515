import Deon.Http.Exchange
import Deon.Net.Isolation

/-! A client of the whole server: what it reads on its connection, whatever the loop of the
connection does for the others. -/
namespace Deon.Net
open Library Http

/-- The requests of a client, each with the event that delivers it. -/
abbrev Served := List (Event × Ask)

def Served.deliveries (served : Served) : List Delivery := served.map fun one => ⟨one.1,[],one.2⟩

section

variable {c c' : Connection}

theorem dispatched_fold {events : List Event} (run : Run Dispatched c events c') :
    events.foldlM (fun c event => Http.handleEvents event c) c = .ok c' := by
  induction run with
  | nil => rfl
  | cons first rest ih =>
    rw [List.foldlM_cons,first.2]
    exact ih

theorem deliveries_fold (served : Served) (c : Connection) :
    served.deliveries.foldlM delivered c =
      (served.map Prod.fst).foldlM (fun c event => Http.handleEvents event c) c := by
  induction served generalizing c with
  | nil => rfl
  | cons one served ih =>
    have first : delivered c ⟨one.1,[],one.2⟩ = Http.handleEvents one.1 c := rfl
    simp only [Served.deliveries,List.map_cons,List.foldlM_cons,first]
    cases Http.handleEvents one.1 c with
    | error fault => rfl
    | ok middle => exact ih middle

end

/-- Whatever the loop does for its other connections, and the other loops for theirs: a client that
writes each request when it has the reply to the one before, and reads its connection with an
ordinary reader of responses, gets one reply for each request, as the files say, up to the first
that is refused; and the connection is closed exactly by that one. -/
theorem client_served {clock : Timeval} {actions : List TabledAction} {t : Tabled}
    (run : Run Tabled.Steps (Tabled.start clock mimeType) actions t) {i : Nat} {m : Connection}
    (now : t.members i = some m) (registered : i ∉ t.loop.pendingFunctors) {env : Env}
    {earlier : Served} {last : Event × Ask}
    (handed : t.handed i = (earlier ++ [last]).map Prod.fst)
    (fits : ∀ delivery ∈ Served.deliveries (earlier ++ [last]), delivery.Fits env m.root)
    (kept : ∀ one ∈ earlier, one.2.refusal env m.root = none) :
    readEach readReply ((earlier ++ [last]).map fun one => one.2.head) m.sent =
        some ((earlier ++ [last]).map fun one => one.2.seen env m.root,last.2.unread env m.root) ∧
      (m.err = true ↔ last.2.refusal env m.root ≠ none) := by
  obtain ⟨started,c,course,twin⟩ := (run_alone run).registered now registered
  rw [handed] at course
  have parts : Served.deliveries (earlier ++ [last]) =
      Served.deliveries earlier ++ [⟨last.1,[],last.2⟩] := List.map_append
  obtain ⟨c',folded,read,closed⟩ := @exchange_read env started m.root mimeType (Served.deliveries earlier)
    ⟨last.1,[],last.2⟩ .same (parts ▸ fits) (List.forall_mem_map.mpr kept)
  rw [← parts,deliveries_fold,dispatched_fold course] at folded
  obtain rfl := Except.ok.inj folded
  obtain ⟨place,rfl⟩ := twin.moved
  refine ⟨?_,closed⟩
  rw [← parts] at read
  simp only [Served.deliveries,List.map_map,Function.comp_def] at read
  exact read

end Deon.Net
