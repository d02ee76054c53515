import Mathlib.Data.List.Infix

/-! Path names, normalised segment by segment, and the paths that stay below a place. The
segments are lists over any alphabet; `dot` is the element that the two special names are
written with. -/
namespace Deon.Library

variable {α : Type*} [DecidableEq α] {separator dot : α}

/-- Where a path leads: from the top, or from where one is, so many steps up and then down
along the names. -/
structure Place (α : Type*) where
  absolute : Bool
  ups : Nat
  names : List (List α)

namespace Place

/-- A segment that leads nowhere. -/
def Stays (dot : α) (segment : List α) : Prop := segment = [] ∨ segment = [dot]

instance (dot : α) : DecidablePred (Stays dot) := fun _ => inferInstanceAs (Decidable (_ ∨ _))

def step (dot : α) (place : Place α) (segment : List α) : Place α :=
  if Stays dot segment then place
  else if segment = [dot,dot] then
    if place.names ≠ [] then {place with names := place.names.dropLast}
    else if place.absolute then place
    else {place with ups := place.ups + 1}
  else {place with names := place.names ++ [segment]}

def walk (dot : α) (place : Place α) (segments : List (List α)) : Place α :=
  segments.foldl (step dot) place

/-- The place is the base or stands below it. -/
structure Within (base place : Place α) : Prop where
  absolute : place.absolute = base.absolute
  ups : place.ups = base.ups
  names : base.names <+: place.names

/-- There is nothing above. -/
def Top (place : Place α) : Prop := place.absolute = true ∧ place.names = []

instance (place : Place α) : Decidable place.Top := inferInstanceAs (Decidable (_ ∧ _))

/-- How often the segments lead up, and how often down. -/
def ascents (dot : α) (segments : List (List α)) : Nat := segments.count [dot,dot]

def descents (dot : α) (segments : List (List α)) : Nat :=
  segments.countP fun segment => ¬ Stays dot segment ∧ segment ≠ [dot,dot]

/-- No beginning of the segments leads up more often than down. -/
def NeverAbove (dot : α) (segments : List (List α)) : Prop :=
  ∀ steps, steps <+: segments → ascents dot steps ≤ descents dot steps

omit [DecidableEq α] in
theorem up_leads (dot : α) : ¬ Stays dot [dot,dot] := by simp [Stays]

instance (dot : α) : DecidablePred (NeverAbove dot) := fun segments =>
  decidable_of_iff (∀ steps ∈ segments.inits, ascents dot steps ≤ descents dot steps)
    (by simp only [List.mem_inits,NeverAbove])

section Walk

variable (place : Place α) {segment : List α} (segments steps : List (List α))

@[simp] theorem walk_nil : place.walk dot [] = place := rfl

@[simp] theorem walk_cons : place.walk dot (segment :: segments) =
    (place.step dot segment).walk dot segments := rfl

theorem walk_append : place.walk dot (steps ++ segments) =
    (place.walk dot steps).walk dot segments := List.foldl_append

theorem step_stays (stays : Stays dot segment) : place.step dot segment = place := if_pos stays

theorem step_name (leads : ¬ Stays dot segment) (other : segment ≠ [dot,dot]) :
    place.step dot segment = {place with names := place.names ++ [segment]} := by
  rw [step,if_neg leads,if_neg other]

theorem step_up : place.step dot [dot,dot] =
    if place.names ≠ [] then {place with names := place.names.dropLast}
    else if place.absolute then place
    else {place with ups := place.ups + 1} := by
  rw [step,if_neg (up_leads dot),if_pos rfl]

end Walk

theorem step_up_not_within {base : Place α} (below : ¬ base.Top) :
    ¬ base.Within (base.step dot [dot,dot]) := by
  rw [step_up]
  split_ifs with named absolute
  · intro inside
    have shorter := inside.names.length_le
    have some := List.length_pos_of_ne_nil named
    simp only [List.length_dropLast] at shorter
    omega
  · exact absurd ⟨absolute,not_not.mp named⟩ below
  · intro inside
    have same := inside.ups
    simp at same

/-- Above the top there is no place to go to. -/
theorem Top.within {base place : Place α} (top : base.Top) (inside : base.Within place)
    (segments : List (List α)) : base.Within (place.walk dot segments) := by
  induction segments generalizing place with
  | nil => exact inside
  | cons segment segments ih =>
    rw [walk_cons]
    refine ih ?_
    have absolute : place.absolute = true := inside.absolute.trans top.1
    have names : ∀ names : List (List α), base.names <+: names := by
      intro names
      rw [top.2]
      exact List.nil_prefix
    unfold step
    split_ifs
    · exact inside
    · exact ⟨inside.absolute,inside.ups,names _⟩
    · exact inside
    · exact ⟨inside.absolute,inside.ups,names _⟩

omit [DecidableEq α] in
theorem forall_prefix_cons {P : List (List α) → Prop} (segment : List α)
    (segments : List (List α)) :
    (∀ steps, steps <+: segment :: segments → P steps) ↔
      P [] ∧ ∀ steps, steps <+: segments → P (segment :: steps) := by
  constructor
  · intro all
    exact ⟨all [] List.nil_prefix,fun steps front => all _ ((List.prefix_cons_inj segment).mpr front)⟩
  · rintro ⟨empty,later⟩ steps front
    rcases List.prefix_cons_iff.mp front with rfl | ⟨rest,rfl,inside⟩
    · exact empty
    · exact later rest inside

section Counts

variable (steps : List (List α))

theorem counts_up : ascents dot ([dot,dot] :: steps) = ascents dot steps + 1 ∧
    descents dot ([dot,dot] :: steps) = descents dot steps := by
  refine ⟨List.count_cons_self,?_⟩
  simp [descents]

theorem counts_stays {segment : List α} (stays : Stays dot segment) :
    ascents dot (segment :: steps) = ascents dot steps ∧
      descents dot (segment :: steps) = descents dot steps := by
  have other : segment ≠ [dot,dot] := fun same => up_leads dot (same ▸ stays)
  refine ⟨List.count_cons_of_ne other,?_⟩
  simp [descents,stays]

theorem counts_name {segment : List α} (leads : ¬ Stays dot segment) (other : segment ≠ [dot,dot]) :
    ascents dot (segment :: steps) = ascents dot steps ∧
      descents dot (segment :: steps) = descents dot steps + 1 := by
  refine ⟨List.count_cons_of_ne other,?_⟩
  simp [descents,leads,other]

end Counts

/-- The place these names below a base. -/
def below (base : Place α) (inner : List (List α)) : Place α :=
  {base with names := base.names ++ inner}

omit [DecidableEq α] in
theorem below_nil (base : Place α) : base.below [] = base := by
  rw [below,List.append_nil]

omit [DecidableEq α] in
theorem within_below (base : Place α) (inner : List (List α)) : base.Within (base.below inner) :=
  ⟨rfl,rfl,List.prefix_append _ _⟩

theorem below_step_name (base : Place α) (inner : List (List α)) {segment : List α}
    (leads : ¬ Stays dot segment) (other : segment ≠ [dot,dot]) :
    (base.below inner).step dot segment = base.below (inner ++ [segment]) := by
  rw [step_name _ leads other,below,below,List.append_assoc]

theorem below_step_up (base : Place α) (inner : List (List α)) (last : List α) :
    (base.below (inner ++ [last])).step dot [dot,dot] = base.below inner := by
  have some : (base.below (inner ++ [last])).names ≠ [] := by simp [below]
  rw [step_up,if_pos some]
  simp only [below,← List.append_assoc,List.dropLast_concat]

/-- Below a base that is not the top: the names that are walked down are what can be walked
up again. -/
theorem within_below_iff {base : Place α} (lower : ¬ base.Top) (segments : List (List α)) :
    ∀ inner : List (List α),
      (∀ steps, steps <+: segments → base.Within ((base.below inner).walk dot steps)) ↔
      ∀ steps, steps <+: segments → ascents dot steps ≤ inner.length + descents dot steps := by
  induction segments with
  | nil =>
    intro inner
    refine iff_of_true ?_ ?_
    · intro steps front
      rw [List.prefix_nil.mp front]
      exact base.within_below inner
    · intro steps front
      rw [List.prefix_nil.mp front]
      exact Nat.zero_le _
  | cons segment segments ih =>
    intro inner
    have start : ascents dot [] ≤ inner.length + descents dot [] := Nat.zero_le _
    rw [forall_prefix_cons,forall_prefix_cons]
    simp only [walk_nil,walk_cons,base.within_below inner,start,true_and]
    by_cases stays : Stays dot segment
    · simp only [step_stays _ stays,ih inner,counts_stays _ stays]
    by_cases up : segment = [dot,dot]
    · subst up
      simp only [counts_up]
      cases inner using List.reverseRecOn with
      | nil =>
        -- the first step already leads above the base
        refine iff_of_false ?_ ?_
        · intro all
          have first := all [] List.nil_prefix
          rw [walk_nil,below_nil] at first
          exact step_up_not_within lower first
        · intro all
          have first := all [] List.nil_prefix
          simp [ascents,descents] at first
      | append_singleton inner last =>
        simp only [below_step_up,ih inner,List.length_append,List.length_singleton]
        refine forall_congr' fun steps => imp_congr_right fun _ => ?_
        omega
    · simp only [below_step_name _ _ stays up,ih (inner ++ [segment]),counts_name _ stays up,
        List.length_append,List.length_singleton]
      refine forall_congr' fun steps => imp_congr_right fun _ => ?_
      omega

/-- The beginnings of a path stay below a base exactly when the base is the top or they
never lead up more often than down. -/
theorem within_iff (base : Place α) (segments : List (List α)) :
    (∀ steps, steps <+: segments → base.Within (base.walk dot steps)) ↔
      base.Top ∨ NeverAbove dot segments := by
  by_cases top : base.Top
  · refine iff_of_true ?_ (.inl top)
    intro steps _
    exact top.within ⟨rfl,rfl,List.prefix_rfl⟩ steps
  · have lower := @within_below_iff α _ dot base top segments []
    simp only [below_nil,List.length_nil,Nat.zero_add] at lower
    rw [or_iff_right top]
    exact lower

end Place

/-- Where one is on the way along a path, once these segments are read. -/
def placeAlong (separator dot : α) (path : List α) (steps : List (List α)) : Place α :=
  Place.walk dot ⟨path.head? = some separator,0,[]⟩ steps

def place (separator dot : α) (path : List α) : Place α :=
  placeAlong separator dot path (path.splitOn separator)

/-- The path, read on from the root segment by segment, never leaves the root. -/
def StaysInside (separator dot : α) (root path : List α) : Prop :=
  ∀ steps, (root.splitOn separator).dropLast <+: steps → steps <+: path.splitOn separator →
    (place separator dot root).Within (placeAlong separator dot path steps)

theorem place_nil : place separator dot [] = ⟨false,0,[]⟩ := by
  rw [place,List.splitOn_nil,placeAlong,Place.walk_cons,Place.walk_nil,
    Place.step_stays _ (.inl rfl)]
  rfl

theorem place_closed (front : List α) : place separator dot (front ++ [separator]) =
    placeAlong separator dot (front ++ [separator]) (front.splitOn separator) := by
  unfold place placeAlong
  rw [List.splitOn_append_cons_self,Place.walk_append,List.splitOn_nil,Place.walk_cons,
    Place.walk_nil,Place.step_stays _ (.inl rfl)]

/-- Behind a root that is empty or closed by a separator: a path in the empty root must not
begin at the top, and below another root the steps up are bounded by those down. -/
theorem staysInside_iff {root : List α} (closed : root = [] ∨ ∃ front, root = front ++ [separator])
    (more : List α) : StaysInside separator dot root (root ++ more) ↔
      (root = [] → more.head? ≠ some separator) ∧
        ((place separator dot root).Top ∨ Place.NeverAbove dot (more.splitOn separator)) := by
  rw [← Place.within_iff]
  rcases closed with rfl | ⟨front,rfl⟩
  · simp only [StaysInside,List.splitOn_nil,List.dropLast_singleton,List.nil_prefix,
      forall_const,List.nil_append,place_nil]
    by_cases absolute : more.head? = some separator
    · refine iff_of_false (fun all => ?_) (fun both => both.1 absolute)
      have same := (all [] List.nil_prefix).absolute
      simp [placeAlong,absolute] at same
    · simp only [placeAlong,absolute,decide_false,ne_eq,not_false_eq_true,true_and]
  · have filled : front ++ [separator] ≠ [] := by simp
    have head : (front ++ [separator] ++ more).head? = (front ++ [separator]).head? := by
      rw [List.head?_append_of_ne_nil _ filled]
    have whole : front ++ [separator] ++ more = front ++ separator :: more := by simp
    have first : ((front ++ [separator]).splitOn separator).dropLast = front.splitOn separator := by
      rw [List.splitOn_append_cons_self,List.splitOn_nil,List.dropLast_concat]
    have along : ∀ steps, placeAlong separator dot (front ++ [separator] ++ more)
        (front.splitOn separator ++ steps) =
          (place separator dot (front ++ [separator])).walk dot steps := by
      intro steps
      rw [place_closed,placeAlong,placeAlong,head,Place.walk_append]
    simp only [filled,false_implies,true_and]
    unfold StaysInside
    rw [first,whole,List.splitOn_append_cons_self,← whole]
    constructor
    · intro all steps prefixed
      rw [← along]
      exact all _ (List.prefix_append _ _) ((List.prefix_append_right_inj _).mpr prefixed)
    · rintro all _ ⟨steps,rfl⟩ prefixed
      rw [along]
      exact all steps ((List.prefix_append_right_inj _).mp prefixed)

end Deon.Library
