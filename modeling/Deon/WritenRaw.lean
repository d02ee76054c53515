import Deon.Library.Asking
import Deon.Util

/-! The `writen` of a C buffer, which `handleError` uses. After an error other than `EINTR`
the loop goes on, one byte further in front; turn by turn, it does so for as long as a `write`
fails. -/
namespace Deon
open Library

/-- The locals of `writen(int, void*, size_t)`, with what its calls have done so far. -/
structure RawWriting where
  nleft : Nat
  out : RawWriteOutcome

def writenRawTurns (below : Nat → UInt8) (buff : Bytes) :
    Asking RawWriting WriteResult RawWriteOutcome where
  test s := if s.nleft = 0 then some s.out else none
  body s result :=
    let out := {s.out with calls := s.out.calls ++ [((buff.length : Int) - s.nleft,s.nleft)]}
    match result with
    | .accepted count => .goes ⟨s.nleft - min count s.nleft,{out with
        ret := out.ret + (min count s.nleft : Nat)
        accepted := out.accepted ++ (window below buff s.nleft).take count}⟩
    | .failed .eintr => .goes ⟨s.nleft,out⟩
    | .failed _ => .goes ⟨s.nleft + 1,{out with ret := out.ret - 1,failed := true}⟩

def writenRawStart (buff : Bytes) : RawWriting := ⟨buff.length,⟨0,[],[],false⟩⟩

/-- With these results the loop has not come to its end. -/
def writenRawWaits (below : Nat → UInt8) (results : List WriteResult) (buff : Bytes) : Bool :=
  match (writenRawTurns below buff).run results (writenRawStart buff) with
  | (.goes _,_) => true
  | (.returns _,_) => false

/-- What the caller of the raw `writen` relies on. -/
structure SendsItsBuffer (results : List WriteResult) (buff : Bytes) (out : RawWriteOutcome) :
    Prop where
  inside : ∀ call ∈ out.calls, 0 ≤ call.1 ∧ call.1 + call.2 ≤ buff.length
  accepted : out.accepted <+: buff
  ret : out.ret = out.accepted.length ∨ out.ret < 0
  ends : ∀ before errno after, results = before ++ .failed errno :: after → errno ≠ .eintr →
    out.calls.length ≤ before.length + 1

/-- An error other than `EINTR` is reported only for calls behind the last byte. -/
def Undisturbed (results : List WriteResult) (size : Nat) : Prop :=
  ∀ before errno after, results = before ++ .failed errno :: after → errno ≠ .eintr →
    size ≤ taken before

theorem Undisturbed.rest {result : WriteResult} {results : List WriteResult} {size : Nat}
    (calm : Undisturbed (result :: results) size) : Undisturbed results (size - taken [result]) := by
  intro before errno after same other
  have bound := calm (result :: before) errno after (congrArg (result :: ·) same) other
  cases result <;> simp only [taken] at bound ⊢ <;> omega

theorem Undisturbed.first {errno : Errno} {results : List WriteResult} {size : Nat}
    (calm : Undisturbed (.failed errno :: results) size) (some : 0 < size) : errno = .eintr := by
  by_contra other
  have bound := calm [] errno results rfl other
  simp only [taken] at bound
  omega

/-- Where the loop stands: the calls so far were inside the buffer, and the sum and what is
left make up the whole. -/
structure Sending (size nleft : Nat) (out : RawWriteOutcome) : Prop where
  inside : ∀ call ∈ out.calls, 0 ≤ call.1 ∧ call.1 + call.2 ≤ size
  left : nleft ≤ size
  ret : out.ret + nleft = size
  fine : out.failed = false

theorem Sending.call {size nleft : Nat} {out : RawWriteOutcome} (sending : Sending size nleft out) :
    ∀ call ∈ out.calls ++ [((size : Int) - nleft,nleft)], 0 ≤ call.1 ∧ call.1 + call.2 ≤ size := by
  have left := sending.left
  rw [List.forall_mem_append,List.forall_mem_singleton]
  refine ⟨sending.inside,?_,?_⟩
  · dsimp only
    omega
  · dsimp only
    omega

section Loop

variable (below : Nat → UInt8) (buff : Bytes)

theorem Sending.run {results : List WriteResult} : ∀ {nleft : Nat} {out : RawWriteOutcome},
    Undisturbed results nleft → Sending buff.length nleft out →
    Sending buff.length 0 (writenRawLoop below buff results nleft out) := by
  induction results with
  | nil =>
    intro nleft out _ sending
    have ret := sending.ret
    rw [writenRawLoop]
    split_ifs with none
    · exact none ▸ sending
    · exact ⟨sending.call,Nat.zero_le _,by simpa using ret,sending.fine⟩
  | cons result results ih =>
    intro nleft out calm sending
    have ret := sending.ret
    have left := sending.left
    rw [writenRawLoop]
    split_ifs with none
    · exact none ▸ sending
    cases result with
    | accepted count =>
      have rest : nleft - min count nleft = nleft - taken [.accepted count] := by
        simp only [taken]
        omega
      dsimp only
      rw [rest]
      refine ih calm.rest ⟨sending.call,by omega,?_,sending.fine⟩
      dsimp only
      rw [← rest]
      omega
    | failed errno =>
      obtain rfl := calm.first (Nat.pos_of_ne_zero none)
      exact ih calm.rest ⟨sending.call,left,ret,sending.fine⟩

theorem loop_turn (result : WriteResult) (results : List WriteResult) {nleft : Nat}
    (out : RawWriteOutcome) (some : 0 < nleft) : ∃ left later,
      writenRawLoop below buff (result :: results) nleft out =
        writenRawLoop below buff results left later ∧
      later.calls.length = out.calls.length + 1 ∧ (left = nleft - taken [result] ∨
        left = nleft + 1 ∧ ∃ errno, result = .failed errno ∧ errno ≠ .eintr) := by
  rw [writenRawLoop,if_neg (by omega)]
  rcases result with count | errno
  · refine ⟨_,_,rfl,List.length_append,.inl ?_⟩
    simp only [taken]
    omega
  · cases errno with
    | eintr => exact ⟨_,_,rfl,List.length_append,.inl rfl⟩
    | eagain => exact ⟨_,_,rfl,List.length_append,.inr ⟨rfl,_,rfl,by decide⟩⟩
    | other => exact ⟨_,_,rfl,List.length_append,.inr ⟨rfl,_,rfl,by decide⟩⟩

theorem loop_end (results : List WriteResult) (out : RawWriteOutcome) :
    writenRawLoop below buff results 0 out = out := by
  cases results <;> rw [writenRawLoop,if_pos rfl]

/-- Once the kernel is ready to take all that is left, no further call is made. -/
theorem calls_bounded {before : List WriteResult} (later : List WriteResult) :
    ∀ {nleft : Nat} {out : RawWriteOutcome}, Undisturbed (before ++ later) nleft →
      nleft ≤ taken before →
      (writenRawLoop below buff (before ++ later) nleft out).calls.length ≤
        out.calls.length + before.length := by
  induction before with
  | nil =>
    intro nleft out _ enough
    obtain rfl := Nat.le_zero.mp enough
    rw [loop_end]
    exact Nat.le_refl _
  | cons result before ih =>
    intro nleft out calm enough
    rcases Nat.eq_zero_or_pos nleft with rfl | some
    · rw [loop_end]
      omega
    obtain ⟨left,next,turn,calls,rest | ⟨_,errno,rfl,other⟩⟩ :=
      loop_turn below buff result (before ++ later) out some
    · have enough_left : left ≤ taken before := by
        cases result <;> simp only [taken] at enough rest <;> omega
      have bound := @ih left next (rest ▸ calm.rest) enough_left
      rw [List.cons_append,turn,List.length_cons]
      omega
    · exact absurd (calm.first some) other

theorem calls_made (results : List WriteResult) : ∀ {nleft : Nat} {out : RawWriteOutcome},
    out.calls.length + min nleft 1 ≤
      (writenRawLoop below buff results nleft out).calls.length := by
  induction results with
  | nil =>
    intro nleft out
    rw [writenRawLoop]
    split_ifs with none
    · omega
    · rw [List.length_append,List.length_singleton]
      omega
  | cons result results ih =>
    intro nleft out
    rcases Nat.eq_zero_or_pos nleft with rfl | some
    · rw [loop_end]
      omega
    obtain ⟨left,next,turn,calls,_⟩ := loop_turn below buff result results out some
    have made := @ih left next
    rw [turn]
    omega

/-- Behind an error with something left to send there is one call more. -/
theorem calls_disturbed {before after : List WriteResult} {errno : Errno} :
    ∀ {nleft : Nat} {out : RawWriteOutcome}, taken before < nleft →
      out.calls.length + before.length + 2 ≤
        (writenRawLoop below buff (before ++ .failed errno :: after) nleft out).calls.length := by
  induction before with
  | nil =>
    intro nleft out some
    obtain ⟨left,next,turn,calls,rest⟩ := loop_turn below buff (.failed errno) after out some
    have more : 0 < left := by
      rcases rest with rfl | ⟨rfl,_⟩
      · exact some
      · exact Nat.succ_pos _
    have made := @calls_made below buff after left next
    rw [List.nil_append,turn,List.length_nil]
    omega
  | cons result before ih =>
    intro nleft out short
    obtain ⟨left,next,turn,calls,rest⟩ :=
      loop_turn below buff result (before ++ .failed errno :: after) out (Nat.zero_lt_of_lt short)
    have still : taken before < left := by
      rcases rest with same | ⟨same,_⟩ <;> cases result <;> simp only [taken] at short same <;> omega
    have made := @ih left next still
    rw [List.cons_append,turn,List.length_cons]
    omega

end Loop

theorem window_length (below : Nat → UInt8) (buff : Bytes) (nleft : Nat) :
    (window below buff nleft).length = nleft := by
  simp only [window,List.length_drop,List.length_append,List.length_map,List.length_reverse,
    List.length_range]
  omega

section Turns

variable {below : Nat → UInt8} {buff : Bytes}

theorem writenRawTurns_loop (results : List WriteResult) : ∀ {nleft size : Nat}
    {out : RawWriteOutcome}, nleft + results.length ≤ size → ∃ left,
      (writenRawTurns below buff).run (results ++ [.accepted size]) ⟨nleft,out⟩ =
        (.returns (writenRawLoop below buff results nleft out),left) := by
  induction results with
  | nil =>
    intro nleft size out enough
    rcases Nat.eq_zero_or_pos nleft with rfl | some
    · rw [loop_end]
      exact ⟨_,Asking.run_ended rfl _⟩
    have all : min size nleft = nleft := Nat.min_eq_right enough
    have whole : (window below buff nleft).take size = window below buff nleft := by
      rw [List.take_of_length_le]
      rwa [window_length]
    refine ⟨[],?_⟩
    rw [List.nil_append,Asking.run_goes (if_neg (by dsimp only; omega)) rfl,writenRawLoop,
      if_neg (by omega)]
    dsimp only
    rw [all,whole]
    exact Asking.run_ended (if_pos (Nat.sub_self _)) []
  | cons result results ih =>
    intro nleft size out enough
    rw [List.length_cons] at enough
    rcases Nat.eq_zero_or_pos nleft with rfl | some
    · rw [loop_end]
      exact ⟨_,Asking.run_ended rfl _⟩
    have more : (writenRawTurns below buff).test ⟨nleft,out⟩ = none := if_neg (by dsimp only; omega)
    rw [writenRawLoop,if_neg (by omega),List.cons_append]
    cases result with
    | accepted count =>
      rw [Asking.run_goes more rfl]
      exact ih (by dsimp only; omega)
    | failed errno =>
      cases errno with
      | eintr =>
        rw [Asking.run_goes more rfl]
        exact ih (by dsimp only; omega)
      | eagain =>
        rw [Asking.run_goes more rfl]
        exact ih (by dsimp only; omega)
      | other =>
        rw [Asking.run_goes more rfl]
        exact ih (by dsimp only; omega)

/-- The handlers' raw `writen` is the loop, with a kernel that takes everything once the results
run out. -/
theorem writenRawTurns_writenRaw (results : List WriteResult) : ∃ left,
    (writenRawTurns below buff).run (results ++ [.accepted (buff.length + results.length)])
      (writenRawStart buff) = (.returns (writenRaw below results buff),left) :=
  writenRawTurns_loop results (Nat.le_refl _)

/-- A loop that has not come to its end does not come to it while the further calls fail. -/
theorem writenRawTurns_endless {results : List WriteResult}
    (waits : writenRawWaits below results buff = true) {errno : Errno} (other : errno ≠ .eintr)
    (n : Nat) : ∃ s, (writenRawTurns below buff).run (results ++ List.replicate n (.failed errno))
      (writenRawStart buff) = (.goes s,[]) := by
  have fails : ∀ (n : Nat) {s : RawWriting}, s.nleft ≠ 0 → ∃ s',
      (writenRawTurns below buff).run (List.replicate n (.failed errno)) s = (.goes s',[]) := by
    intro n
    induction n with
    | zero => exact fun some => ⟨_,Asking.run_nil (if_neg some)⟩
    | succ n ih =>
      intro s some
      rw [List.replicate_succ]
      cases errno with
      | eintr => exact absurd rfl other
      | eagain =>
        rw [Asking.run_goes (if_neg some) rfl]
        exact ih (Nat.succ_ne_zero _)
      | other =>
        rw [Asking.run_goes (if_neg some) rfl]
        exact ih (Nat.succ_ne_zero _)
  unfold writenRawWaits at waits
  rw [Asking.run_append]
  split at waits
  · rename_i s left stands
    rw [stands]
    refine fails n fun none => ?_
    have ended : (writenRawTurns below buff).test s = some s.out := if_pos none
    rw [(Asking.run_waits stands).1] at ended
    cases ended
  · cases waits

end Turns

/-- The raw `writen` sends its buffer exactly when nothing but `EINTR` is reported in front of
its end. -/
theorem writenRaw_sends_iff (below : Nat → UInt8) (results : List WriteResult) (buff : Bytes) :
    SendsItsBuffer results buff (writenRaw below results buff) ↔ Undisturbed results buff.length := by
  constructor
  · intro sends before errno after same other
    by_contra short
    have ends := sends.ends before errno after same other
    have more := @calls_disturbed below buff before after errno buff.length ⟨0,[],[],false⟩
      (Nat.lt_of_not_le short)
    rw [same,writenRaw] at ends
    simp only [List.length_nil] at more
    omega
  · intro calm
    have start : Sending buff.length buff.length ⟨0,[],[],false⟩ :=
      ⟨by simp,Nat.le_refl _,by simp,rfl⟩
    have sent : Sending buff.length 0 (writenRaw below results buff) := start.run below buff calm
    have whole := writenRaw_complete below results buff sent.fine
    refine ⟨sent.inside,?_,.inl ?_,?_⟩
    · exact ⟨[],(List.append_nil _).trans whole⟩
    · rw [whole]
      simpa using sent.ret
    · rintro before errno after rfl other
      have bound := @calls_bounded below buff before (.failed errno :: after) buff.length
        ⟨0,[],[],false⟩ calm (calm before errno after rfl other)
      rw [List.length_nil] at bound
      unfold writenRaw
      omega

/-- `EAGAIN` for the first call: the second begins one byte in front of the buffer. -/
theorem writenRaw_underruns :
    (writenRaw (fun _ => 0) [.failed .eagain] (bytes "ab")).calls = [(0,2),(-1,3)] ∧
      ¬ SendsItsBuffer [.failed .eagain] (bytes "ab")
        (writenRaw (fun _ => 0) [.failed .eagain] (bytes "ab")) := by
  have calls : (writenRaw (fun _ => 0) [.failed .eagain] (bytes "ab")).calls = [(0,2),(-1,3)] := rfl
  refine ⟨calls,fun sends => ?_⟩
  have inside := sends.inside (-1,3) (by rw [calls]; simp)
  exact absurd inside.1 (by decide)

end Deon
