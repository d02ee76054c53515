import Deon.Library.Asking
import Deon.Logging.FixedBuffer
import Mathlib.Data.List.TakeDrop

/-! `FileUtil::append`: a record that is written out in as many calls as it takes. A call of
`fwrite_unlocked` takes no more than it is asked for. -/
namespace Deon.Logging
open Library

/-- What `fwrite_unlocked` returned, and whether `ferror` then finds an error. -/
structure FwriteResult where
  count : Nat
  error : Bool
  deriving DecidableEq, Repr

/-- The locals of `append`, and the bytes that the stdio layer has accepted. -/
structure Appending where
  n : Nat
  remain : Nat
  accepted : Bytes
  deriving DecidableEq, Repr

/-- How a call of `append` ended: the bytes accepted, and what it wrote to `stderr`. -/
structure AppendEnd where
  accepted : Bytes
  stderr : String
  deriving DecidableEq, Repr

/-- A call of `fwrite_unlocked` for everything from `logline + n` on, with the counters behind it. -/
def fwrite (logline : Bytes) (s : Appending) (result : FwriteResult) : Nat × Appending :=
  let x := min result.count s.remain
  (x,⟨s.n + x,logline.length - (s.n + x),s.accepted ++ (logline.drop s.n).take x⟩)

def appendTurns (logline : Bytes) : Asking Appending FwriteResult AppendEnd where
  test s := if 0 < s.remain then none else some ⟨s.accepted,""⟩
  body s result :=
    let (x,s') := fwrite logline s result
    if x = 0 then
      .returns ⟨s.accepted,if result.error then "FileUtil::append() failed !\n" else ""⟩
    else .goes s'

/-- What calls with these results are ready to take. -/
def ready : List FwriteResult → Nat
  | [] => 0
  | result :: results => result.count + ready results

/-- What `append` has handed over with the results of its first call and of its retries: what they
took, in calls for a rest of the record, up to its end or to a retry that took nothing. -/
structure Handed (logline : Bytes) (first : FwriteResult) (retries : List FwriteResult)
    (accepted : Bytes) : Prop where
  sent : accepted = logline.take (ready (first :: retries))
  ends : accepted = logline ∨ ∃ last ∈ retries.getLast?, last.count = 0
  wanted : retries ≠ [] → ready (first :: retries.dropLast) < logline.length
  calm : ∀ retry ∈ retries.dropLast, retry.count ≠ 0

/-- The first call stands in front of the loop, and its result is not compared with zero. -/
def fileAppend (logline : Bytes) : List FwriteResult → Turn Appending AppendEnd × List FwriteResult
  | [] => (.goes ⟨0,logline.length,[]⟩,[])
  | first :: retries =>
    (appendTurns logline).run retries (fwrite logline ⟨0,logline.length,[]⟩ first).2

/-- The counters and the accepted bytes stand for the same part of the record. -/
structure Taken (logline : Bytes) (s : Appending) : Prop where
  inside : s.n ≤ logline.length
  remain : s.remain = logline.length - s.n
  accepted : s.accepted = logline.take s.n

theorem start_taken (logline : Bytes) : Taken logline ⟨0,logline.length,[]⟩ :=
  ⟨Nat.zero_le _,rfl,rfl⟩

section

variable {logline : Bytes} {s s' : Appending} {result : FwriteResult}

theorem Taken.fwrite (taken : Taken logline s) (result : FwriteResult) :
    Taken logline (fwrite logline s result).2 := by
  have inside := taken.inside
  have remain := taken.remain
  refine ⟨?_,rfl,?_⟩
  · simp only [Logging.fwrite]
    omega
  · simp only [Logging.fwrite]
    rw [taken.accepted]
    exact List.take_add.symm

theorem Taken.whole (taken : Taken logline s) : s.accepted = logline ↔ s.remain = 0 := by
  have inside := taken.inside
  have remain := taken.remain
  rw [taken.accepted,List.take_eq_self_iff]
  omega

theorem test_ended {out : AppendEnd} (ended : (appendTurns logline).test s = some out) :
    s.remain = 0 ∧ out.accepted = s.accepted := by
  obtain ⟨done,same⟩ := Option.ite_none_left_eq_some.mp ended
  cases same
  exact ⟨Nat.eq_zero_of_not_pos done,rfl⟩

theorem test_more (more : (appendTurns logline).test s = none) : 0 < s.remain := by
  by_contra done
  simp [appendTurns,done] at more

theorem body_wrote (some : min result.count s.remain ≠ 0) :
    (appendTurns logline).body s result = .goes (fwrite logline s result).2 := if_neg some

theorem body_stuck (none : min result.count s.remain = 0) : (appendTurns logline).body s result =
    .returns ⟨s.accepted,if result.error then "FileUtil::append() failed !\n" else ""⟩ := if_pos none

theorem body_goes (turns : (appendTurns logline).body s result = .goes s') :
    s' = (fwrite logline s result).2 ∧ min result.count s.remain ≠ 0 := by
  by_cases none : min result.count s.remain = 0
  · rw [body_stuck none] at turns
    cases turns
  · rw [body_wrote none] at turns
    exact ⟨(Turn.goes.inj turns).symm,none⟩

theorem body_returns {out : AppendEnd} (turns : (appendTurns logline).body s result = .returns out) :
    out.accepted = s.accepted ∧ min result.count s.remain = 0 := by
  by_cases none : min result.count s.remain = 0
  · rw [body_stuck none] at turns
    cases turns
    exact ⟨rfl,none⟩
  · rw [body_wrote none] at turns
    cases turns

end

theorem ready_concat (results : List FwriteResult) (result : FwriteResult) :
    ready (results ++ [result]) = ready results + result.count := by
  induction results with
  | nil => simp [ready]
  | cons first results ih => simp [ready,ih,Nat.add_assoc]

/-- The record is whole exactly when every retry took something. -/
theorem Handed.whole {logline accepted : Bytes} {first : FwriteResult} {retries : List FwriteResult}
    (handed : Handed logline first retries accepted) :
    accepted = logline ↔ ∀ retry ∈ retries, retry.count ≠ 0 := by
  rcases List.eq_nil_or_concat retries with rfl | ⟨before,last,rfl⟩
  · refine iff_of_true ?_ (fun _ member => absurd member List.not_mem_nil)
    rcases handed.ends with whole | ⟨_,none,_⟩
    · exact whole
    · cases none
  have wanted := handed.wanted (by simp)
  have calm := handed.calm
  have sent := handed.sent
  have ends := handed.ends
  rw [List.concat_eq_append] at *
  rw [List.dropLast_concat] at wanted calm
  constructor
  · rintro rfl retry member
    rcases List.mem_append.mp member with earlier | same
    · exact calm retry earlier
    · obtain rfl := List.mem_singleton.mp same
      intro none
      have all := List.take_eq_self_iff _ |>.mp sent.symm
      simp only [ready,ready_concat,none] at all wanted
      omega
  · intro some
    rcases ends with whole | ⟨retry,member,none⟩
    · exact whole
    · exact absurd none (some retry (List.mem_of_getLast? member))

/-- What stdio has accepted of a record, when its calls can get these results. -/
def Accepts (results : List FwriteResult) (logline part : Bytes) : Prop :=
  ∃ first retries left, results = first :: retries ++ left ∧ Handed logline first retries part

theorem Accepts.whole {results : List FwriteResult} {logline part : Bytes}
    (accepts : Accepts results logline part) (all : ∀ result ∈ results, result.count ≠ 0) :
    part = logline := by
  obtain ⟨first,retries,left,rfl,handed⟩ := accepts
  refine handed.whole.mpr fun retry member => all retry ?_
  exact List.mem_append_left _ (List.mem_cons_of_mem _ member)

/-- Where the loop goes on behind these retries. -/
structure Pending (logline : Bytes) (first : FwriteResult) (retries : List FwriteResult)
    (s : Appending) : Prop where
  taken : Taken logline s
  sum : s.n = min logline.length (ready (first :: retries))
  wanted : retries ≠ [] → ready (first :: retries.dropLast) < logline.length
  calm : ∀ retry ∈ retries, retry.count ≠ 0

namespace Pending

variable {logline : Bytes} {first : FwriteResult} {retries : List FwriteResult} {s : Appending}

theorem start (logline : Bytes) (first : FwriteResult) :
    Pending logline first [] (Logging.fwrite logline ⟨0,logline.length,[]⟩ first).2 := by
  refine ⟨(start_taken logline).fwrite first,?_,fun some => absurd rfl some,
    fun _ member => absurd member List.not_mem_nil⟩
  simp only [Logging.fwrite,ready]
  omega

theorem sent (pending : Pending logline first retries s) :
    s.accepted = logline.take (ready (first :: retries)) := by
  rw [pending.taken.accepted,pending.sum,Nat.min_comm]
  exact List.take_eq_take_min.symm

theorem short (pending : Pending logline first retries s) (more : 0 < s.remain) :
    s.n = ready (first :: retries) ∧ ready (first :: retries) < logline.length := by
  have remain := pending.taken.remain
  have sum := pending.sum
  omega

theorem wrote (pending : Pending logline first retries s) (more : 0 < s.remain)
    {result : FwriteResult} (some : result.count ≠ 0) :
    Pending logline first (retries ++ [result]) (Logging.fwrite logline s result).2 := by
  have remain := pending.taken.remain
  obtain ⟨same,short⟩ := pending.short more
  refine ⟨pending.taken.fwrite result,?_,?_,?_⟩
  · rw [← List.cons_append,ready_concat]
    simp only [Logging.fwrite]
    omega
  · intro _
    rwa [List.dropLast_concat]
  · intro retry member
    rcases List.mem_append.mp member with before | last
    · exact pending.calm retry before
    · rwa [List.mem_singleton.mp last]

theorem whole (pending : Pending logline first retries s) (done : s.remain = 0) :
    Handed logline first retries s.accepted where
  sent := pending.sent
  ends := .inl (pending.taken.whole.mpr done)
  wanted := pending.wanted
  calm retry member := pending.calm retry (List.dropLast_subset _ member)

theorem stuck (pending : Pending logline first retries s) (more : 0 < s.remain)
    {result : FwriteResult} (none : result.count = 0) :
    Handed logline first (retries ++ [result]) s.accepted where
  sent := by
    rw [← List.cons_append,ready_concat,none]
    exact pending.sent
  ends := .inr ⟨result,by simp,none⟩
  wanted _ := by
    rw [List.dropLast_concat]
    exact (pending.short more).2
  calm := by
    rw [List.dropLast_concat]
    exact pending.calm

end Pending

theorem appendTurns_stands (logline : Bytes) (first : FwriteResult) (retries : List FwriteResult) :
    Asking.Stands (Pending logline first)
      (fun asked out => Handed logline first asked out.accepted) [] retries
      ((appendTurns logline).run retries (fwrite logline ⟨0,logline.length,[]⟩ first).2) := by
  refine Asking.run_invariant _ _ ?_ ?_ ?_ retries (Pending.start logline first)
  · intro asked s out pending ended
    obtain ⟨done,same⟩ := test_ended ended
    rw [same]
    exact pending.whole done
  · intro asked s result s' pending more turns
    obtain ⟨rfl,some⟩ := body_goes turns
    exact pending.wrote (test_more more) (by omega)
  · intro asked s result out pending more turns
    have rest := test_more more
    obtain ⟨same,none⟩ := body_returns turns
    rw [same]
    exact pending.stuck rest (by omega)

theorem fileAppend_accepts {logline : Bytes} {results left : List FwriteResult} {out : AppendEnd}
    (returned : fileAppend logline results = (.returns out,left)) :
    Accepts results logline out.accepted := by
  cases results with
  | nil => cases returned
  | cons first retries =>
    have stands := appendTurns_stands logline first retries
    change (appendTurns logline).run retries _ = _ at returned
    rw [returned] at stands
    obtain ⟨asked,rfl,handed⟩ := stands
    exact ⟨first,asked,left,rfl,handed⟩

theorem appendTurns_returns {logline : Bytes} {s : Appending} (taken : Taken logline s)
    {retries : List FwriteResult} (enough : s.remain < retries.length) :
    ∃ out left, (appendTurns logline).run retries s = (.returns out,left) := by
  apply Asking.run_terminates_of (Taken logline) Appending.remain (fun _ => true) ?_ retries taken
  · rw [List.countP_true]
    exact enough
  · intro s result s' held more turns
    obtain ⟨rfl,some⟩ := body_goes turns
    refine ⟨held.fwrite result,?_⟩
    have pending := test_more more
    have remain := held.remain
    simp only [fwrite,if_true]
    omega

theorem asked_results {results : Nat → FwriteResult} {n : Nat} {used left : List FwriteResult}
    (split : (List.range n).map results = used ++ left) :
    used.length ≤ n ∧ used = (List.range used.length).map results := by
  have lengths := congrArg List.length split
  rw [List.length_map,List.length_range,List.length_append] at lengths
  have front := congrArg (List.take used.length) split
  rw [← List.map_take,List.take_range,Nat.min_eq_left (by omega),List.take_left] at front
  exact ⟨by omega,front.symm⟩

/-- For every record and every sequence of results `append` returns, after a first call and at
most one retry more than the record has bytes; the stdio layer then has the front of the record
that these calls took, and all of it unless a retry was answered with zero. -/
theorem fileAppend_prefix (logline : Bytes) (results : Nat → FwriteResult) :
    ∃ retries out, retries ≤ logline.length + 1 ∧
      fileAppend logline ((List.range (retries + 1)).map results) = (.returns out,[]) ∧
      Handed logline (results 0) ((List.range retries).map fun i => results (i + 1)) out.accepted ∧
      out.accepted <+: logline ∧
      (out.accepted = logline ↔ ∀ call, 1 ≤ call → call ≤ retries → (results call).count ≠ 0) := by
  have taken := (start_taken logline).fwrite (results 0)
  have enough : (fwrite logline ⟨0,logline.length,[]⟩ (results 0)).2.remain <
      ((List.range (logline.length + 1)).map fun i => results (i + 1)).length := by
    rw [taken.remain,List.length_map,List.length_range]
    omega
  obtain ⟨out,left,returned⟩ := appendTurns_returns taken enough
  obtain ⟨used,split,done⟩ := Asking.run_used returned
  obtain ⟨short,front⟩ := asked_results split
  have stands := appendTurns_stands logline (results 0) used
  rw [done] at stands
  obtain ⟨asked,same,handed⟩ := stands
  rw [List.append_nil] at same
  rw [← same,List.nil_append] at handed
  refine ⟨used.length,out,short,?_,front ▸ handed,?_,handed.whole.trans ?_⟩
  · rw [List.range_succ_eq_map,List.map_cons,List.map_map]
    change (appendTurns logline).run ((List.range used.length).map fun i => results (i + 1)) _ = _
    rw [← front,done]
  · rw [handed.sent]
    exact List.take_prefix _ _
  · constructor
    · intro all call first last
      have member : results call ∈ used := by
        rw [front,List.mem_map]
        exact ⟨call - 1,List.mem_range.mpr (by omega),by rw [Nat.sub_add_cancel first]⟩
      exact all _ member
    · intro all retry member
      rw [front] at member
      obtain ⟨i,inside,rfl⟩ := List.mem_map.mp member
      exact all (i + 1) (by omega) (by have := List.mem_range.mp inside; omega)

end Deon.Logging
