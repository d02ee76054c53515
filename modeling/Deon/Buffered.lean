import Deon.Library.Asking
import Deon.Library.Run
import Deon.Logging.FixedBuffer
import Deon.Util
import Mathlib.Data.List.TakeDrop

/-! The loops of the buffered `readn` and `writen` turn by turn, with the counters and the
pointer that they keep. A loop goes on as long as it is not told to stop: with answers that run
out it stands in front of its next system call. -/
namespace Deon
open Library Logging

/-- The locals of `writen(int, std::string&)`; `ptr` is an offset in the string. What the kernel
has taken from behind the pointer, call by call, is kept beside them. -/
structure Writing where
  nremain : Nat
  writeSum : Nat
  ptr : Nat
  accepted : Bytes

/-- What `writen` does behind its loop, or with an error. -/
def writenResult (sbuff : Bytes) (stopped : WriteEnd) (s : Writing) : Except Fault WriteOutcome :=
  if stopped = .failed then .ok ⟨-1,sbuff,s.accepted,.failed⟩
  else if (s.writeSum : Int) = toInt sbuff.length then .ok ⟨s.writeSum,[],s.accepted,stopped⟩
  else do
    let sbuff ← substr sbuff s.writeSum
    return ⟨s.writeSum,sbuff,s.accepted,stopped⟩

def writenTurns (sbuff : Bytes) : Asking Writing WriteResult (Except Fault WriteOutcome) where
  test s := if 0 < s.nremain then none else some (writenResult sbuff .finished s)
  body s result :=
    match result with
    | .accepted count =>
      let nwritten := min count s.nremain
      .goes ⟨s.nremain - nwritten,s.writeSum + nwritten,s.ptr + nwritten,
        s.accepted ++ (sbuff.drop s.ptr).take nwritten⟩
    | .failed .eintr => .goes s
    | .failed .eagain => .returns (writenResult sbuff .again s)
    | .failed .other => .returns (writenResult sbuff .failed s)

def writenStart (sbuff : Bytes) : Writing := ⟨sbuff.length,0,0,[]⟩

/-- The counters and the pointer stand for the same part of the string. -/
structure Counts (sbuff : Bytes) (s : Writing) : Prop where
  sum : s.writeSum + s.nremain = sbuff.length
  pointer : s.ptr = s.writeSum
  accepted : s.accepted = sbuff.take s.writeSum

/-- An error behind which `writen` makes no further call. -/
def Fails : WriteResult → Prop
  | .accepted _ => False
  | .failed errno => errno ≠ .eintr

/-- The results that `writen` asks for, neither fewer nor more: it stops when the string is out or
a `write` failed. -/
structure Suffices (size : Nat) (results : List WriteResult) : Prop where
  ends : size ≤ taken results ∨ ∃ last ∈ results.getLast?, Fails last
  wanted : results ≠ [] → taken results.dropLast < size
  calm : ∀ result ∈ results.dropLast, ¬ Fails result

/-- What the caller of `writen` relies on, with the results that its calls got: what they took is
gone from the front of the string. -/
structure Conserves (sbuff : Bytes) (results : List WriteResult) (out : WriteOutcome) : Prop where
  asked : Suffices sbuff.length results
  sent : out.accepted = sbuff.take (taken results)
  kept : 0 ≤ out.ret → out.accepted ++ out.sbuff = sbuff
  count : 0 ≤ out.ret → out.ret = out.accepted.length
  empty : 0 ≤ out.ret → (out.sbuff = [] ↔ out.accepted = sbuff)
  fatal : .failed .other ∈ results ↔ out.ret < 0
  unchanged : out.ret < 0 → out.ret = -1 ∧ out.sbuff = sbuff

/-- Where `writen` goes on with these results. -/
structure Unfinished (sbuff : Bytes) (results : List WriteResult) (s : Writing) : Prop where
  counts : Counts sbuff s
  sum : s.writeSum = min sbuff.length (taken results)
  wanted : results ≠ [] → taken results.dropLast < sbuff.length
  calm : ∀ result ∈ results, ¬ Fails result

theorem writenStart_counts (sbuff : Bytes) : Counts sbuff (writenStart sbuff) :=
  ⟨Nat.zero_add _,rfl,rfl⟩

theorem Counts.wrote {sbuff : Bytes} {s : Writing} (counts : Counts sbuff s) {count : Nat}
    (inside : count ≤ s.nremain) : Counts sbuff ⟨s.nremain - count,s.writeSum + count,
      s.ptr + count,s.accepted ++ (sbuff.drop s.ptr).take count⟩ := by
  have sum := counts.sum
  refine ⟨?_,?_,?_⟩
  · dsimp only
    omega
  · dsimp only
    rw [counts.pointer]
  · rw [counts.accepted,counts.pointer]
    exact List.take_add.symm

theorem writenResult_conserves {sbuff : Bytes} {s : Writing} (counts : Counts sbuff s)
    (small : sbuff.length < 2^31) {stopped : WriteEnd} (fine : stopped ≠ .failed) :
    writenResult sbuff stopped s =
      .ok ⟨s.writeSum,sbuff.drop s.writeSum,sbuff.take s.writeSum,stopped⟩ := by
  have sum := counts.sum
  unfold writenResult
  rw [if_neg fine,toInt_small small,counts.accepted]
  split_ifs with whole
  · rw [List.drop_eq_nil_of_le (by omega)]
  · rw [substr_drop (by omega)]
    rfl

/-- The same, as the handlers' `writen` has it. -/
theorem writenResult_writen {sbuff : Bytes} (small : sbuff.length < 2^31) {sum : Nat}
    (inside : sum ≤ sbuff.length) {stopped : WriteEnd} (fine : stopped ≠ .failed) :
    writenResult sbuff stopped ⟨sbuff.length - sum,sum,sum,sbuff.take sum⟩ =
      .ok ⟨sum,if sum = sbuff.length then [] else sbuff.drop sum,sbuff.take sum,stopped⟩ := by
  rw [writenResult_conserves ⟨Nat.add_sub_cancel' inside,rfl,rfl⟩ small fine]
  split_ifs with whole
  · rw [List.drop_eq_nil_of_le (Nat.le_of_eq whole.symm)]
  · rfl

theorem writenStart_unfinished (sbuff : Bytes) : Unfinished sbuff [] (writenStart sbuff) :=
  ⟨writenStart_counts sbuff,(Nat.min_zero _).symm,fun some => absurd rfl some,
    fun _ member => absurd member List.not_mem_nil⟩

namespace Unfinished

variable {sbuff : Bytes} {asked : List WriteResult} {s : Writing}

theorem sent (going : Unfinished sbuff asked s) : sbuff.take (taken asked) = sbuff.take s.writeSum := by
  rw [going.sum,List.take_eq_take_min,Nat.min_comm]

theorem short (going : Unfinished sbuff asked s) (more : 0 < s.nremain) :
    s.writeSum = taken asked ∧ taken asked < sbuff.length := by
  have whole := going.counts.sum
  have sum := going.sum
  omega

theorem wrote (going : Unfinished sbuff asked s) (more : 0 < s.nremain) (count : Nat) :
    Unfinished sbuff (asked ++ [.accepted count]) ⟨s.nremain - min count s.nremain,
      s.writeSum + min count s.nremain,s.ptr + min count s.nremain,
      s.accepted ++ (sbuff.drop s.ptr).take (min count s.nremain)⟩ := by
  have whole := going.counts.sum
  obtain ⟨same,short⟩ := going.short more
  refine ⟨going.counts.wrote (Nat.min_le_right _ _),?_,?_,?_⟩
  · rw [taken_append]
    simp only [taken]
    omega
  · intro _
    rwa [List.dropLast_concat]
  · simpa [or_imp,forall_and,Fails] using going.calm

theorem interrupted (going : Unfinished sbuff asked s) (more : 0 < s.nremain) :
    Unfinished sbuff (asked ++ [.failed .eintr]) s := by
  refine ⟨going.counts,?_,?_,?_⟩
  · rw [taken_append]
    exact going.sum
  · intro _
    rw [List.dropLast_concat]
    exact (going.short more).2
  · simpa [or_imp,forall_and,Fails] using going.calm

theorem whole (going : Unfinished sbuff asked s) (done : s.nremain = 0) :
    Suffices sbuff.length asked := by
  refine ⟨.inl ?_,going.wanted,fun result member => going.calm result (List.dropLast_subset _ member)⟩
  have whole := going.counts.sum
  have sum := going.sum
  omega

theorem fails (going : Unfinished sbuff asked s) (more : 0 < s.nremain) {errno : Errno}
    (fails : errno ≠ .eintr) : Suffices sbuff.length (asked ++ [.failed errno]) := by
  refine ⟨.inr ⟨.failed errno,by simp,fails⟩,?_,?_⟩
  · intro _
    rw [List.dropLast_concat]
    exact (going.short more).2
  · rw [List.dropLast_concat]
    exact going.calm

theorem not_fatal (going : Unfinished sbuff asked s) : .failed .other ∉ asked := by
  intro member
  exact going.calm _ member (by simp [Fails])

/-- The loop returns without a fatal error. -/
theorem conserves (going : Unfinished sbuff asked s) (small : sbuff.length < 2^31)
    {stopped : WriteEnd} (fine : stopped ≠ .failed) {results : List WriteResult}
    (enough : Suffices sbuff.length results) (same : taken results = taken asked)
    (calm : .failed .other ∉ results) :
    ∃ out, writenResult sbuff stopped s = .ok out ∧ Conserves sbuff results out := by
  have sum := going.counts.sum
  refine ⟨_,writenResult_conserves going.counts small fine,?_⟩
  refine ⟨enough,?_,?_,?_,?_,?_,?_⟩
  · rw [same]
    exact going.sent.symm
  · exact fun _ => List.take_append_drop _ _
  · intro _
    rw [List.length_take,Nat.min_eq_left (by omega)]
  · intro _
    rw [List.drop_eq_nil_iff,List.take_eq_self_iff]
  · refine iff_of_false calm ?_
    dsimp only
    omega
  · intro negative
    dsimp only at negative
    omega

theorem failed_conserves (going : Unfinished sbuff asked s) (more : 0 < s.nremain) :
    ∃ out, writenResult sbuff .failed s = .ok out ∧
      Conserves sbuff (asked ++ [.failed .other]) out := by
  refine ⟨_,rfl,?_⟩
  have negative : ¬ (0 : Int) ≤ -1 := by decide
  refine ⟨going.fails more (by decide),?_,?_,?_,?_,?_,?_⟩
  · rw [taken_append]
    exact going.counts.accepted.trans going.sent.symm
  · exact fun fine => absurd fine negative
  · exact fun fine => absurd fine negative
  · exact fun fine => absurd fine negative
  · exact iff_of_true (by simp) (Int.not_le.mp negative)
  · exact fun _ => ⟨rfl,rfl⟩

end Unfinished

theorem writenTurns_more {sbuff : Bytes} {s : Writing} (more : (writenTurns sbuff).test s = none) :
    0 < s.nremain := by
  by_contra done
  simp [writenTurns,done] at more

/-- The loop, wherever it stands: it goes on behind the results that it has asked for, or it has
returned what the caller relies on. -/
theorem writenTurns_stands {sbuff : Bytes} (small : sbuff.length < 2^31)
    (results : List WriteResult) : Asking.Stands (Unfinished sbuff)
      (fun asked result => ∃ out, result = .ok out ∧ Conserves sbuff asked out) [] results
      ((writenTurns sbuff).run results (writenStart sbuff)) := by
  refine Asking.run_invariant _ _ ?_ ?_ ?_ results (writenStart_unfinished sbuff)
  · rintro asked s result going ended
    obtain ⟨done,same⟩ := Option.ite_none_left_eq_some.mp ended
    rw [← Option.some.inj same]
    exact going.conserves small (by decide) (going.whole (Nat.eq_zero_of_not_pos done)) rfl
      going.not_fatal
  · rintro asked s answer s' going more turns
    have some := writenTurns_more more
    cases answer with
    | accepted count =>
      obtain rfl := Turn.goes.inj turns
      exact going.wrote some count
    | failed errno =>
      cases errno with
      | eintr =>
        obtain rfl := Turn.goes.inj turns
        exact going.interrupted some
      | eagain => cases turns
      | other => cases turns
  · rintro asked s answer result going more turns
    have some := writenTurns_more more
    cases answer with
    | accepted => cases turns
    | failed errno =>
      cases errno with
      | eintr => cases turns
      | eagain =>
        rw [← Turn.returns.inj turns]
        exact going.conserves small (by decide) (going.fails some (by decide))
          (taken_append asked [.failed .eagain]) (by simpa using going.not_fatal)
      | other =>
        rw [← Turn.returns.inj turns]
        exact going.failed_conserves some

theorem Counts.eq {sbuff : Bytes} {s : Writing} (counts : Counts sbuff s) :
    s = ⟨sbuff.length - s.writeSum,s.writeSum,s.writeSum,sbuff.take s.writeSum⟩ := by
  have rest : s.nremain = sbuff.length - s.writeSum := by
    have sum := counts.sum
    omega
  rw [← rest,← counts.accepted]
  exact congrArg (fun ptr => Writing.mk s.nremain s.writeSum ptr s.accepted) counts.pointer

theorem writenTurns_loop {sbuff : Bytes} (results : List WriteResult) : ∀ {s : Writing},
    Counts sbuff s → ∀ {stopped : WriteEnd} {sum : Nat},
      writenLoop sbuff.length results s.writeSum = (stopped,sum) →
      ∃ left, (writenTurns sbuff).run (results ++ [.accepted sbuff.length]) s =
        (.returns (writenResult sbuff stopped ⟨sbuff.length - sum,sum,sum,sbuff.take sum⟩),left) := by
  have ended : ∀ {s : Writing} (answers : List WriteResult), Counts sbuff s → s.nremain = 0 →
      s.writeSum = sbuff.length ∧ (writenTurns sbuff).run answers s = (.returns (writenResult sbuff
        .finished ⟨sbuff.length - s.writeSum,s.writeSum,s.writeSum,sbuff.take s.writeSum⟩),answers) := by
    intro s answers counts none
    have sum := counts.sum
    refine ⟨by omega,?_⟩
    rw [← counts.eq]
    exact Asking.run_ended (if_neg (by omega)) answers
  induction results with
  | nil =>
    intro s counts stopped sum looped
    obtain ⟨rfl,rfl⟩ := Prod.mk.inj looped
    have whole := counts.sum
    rcases Nat.eq_zero_or_pos s.nremain with none | some
    · obtain ⟨full,done⟩ := ended [.accepted sbuff.length] counts none
      rw [full] at done
      exact ⟨_,done⟩
    · have turn : min sbuff.length s.nremain = s.nremain := Nat.min_eq_right (by omega)
      have wrote := counts.wrote (Nat.le_refl s.nremain)
      obtain ⟨full,done⟩ := ended [] wrote (Nat.sub_self _)
      rw [full] at done
      refine ⟨[],?_⟩
      rw [List.nil_append,Asking.run_goes (if_pos some) rfl,turn]
      exact done
  | cons result results ih =>
    intro s counts stopped sum looped
    have whole := counts.sum
    rw [writenLoop.eq_def] at looped
    dsimp only at looped
    split_ifs at looped with full
    · obtain ⟨rfl,rfl⟩ := Prod.mk.inj looped
      exact ⟨_,(ended _ counts (by omega)).2⟩
    have more : (writenTurns sbuff).test s = none := if_pos (by omega)
    have rest : sbuff.length - s.writeSum = s.nremain := by omega
    cases result with
    | accepted count =>
      dsimp only at looped
      rw [rest] at looped
      rw [List.cons_append,Asking.run_goes more rfl]
      exact ih (counts.wrote (Nat.min_le_right count s.nremain)) looped
    | failed errno =>
      cases errno with
      | eintr =>
        rw [List.cons_append,Asking.run_goes more rfl]
        exact ih counts looped
      | eagain =>
        obtain ⟨rfl,rfl⟩ := Prod.mk.inj looped
        rw [List.cons_append,Asking.run_returns more rfl,← counts.eq]
        exact ⟨_,rfl⟩
      | other =>
        obtain ⟨rfl,rfl⟩ := Prod.mk.inj looped
        rw [List.cons_append,Asking.run_returns more rfl,← counts.eq]
        exact ⟨_,rfl⟩

/-- The handlers' `writen`, which takes its string whole when the results run out, is the loop. -/
theorem writenTurns_writen {sbuff : Bytes} (small : sbuff.length < 2^31)
    (results : List WriteResult) :
    ∃ left, (writenTurns sbuff).run (results ++ [.accepted sbuff.length]) (writenStart sbuff) =
      (.returns (.ok (writen results sbuff)),left) := by
  cases looped : writenLoop sbuff.length results 0 with
  | mk stopped sum =>
    obtain ⟨left,run⟩ := writenTurns_loop results (writenStart_counts sbuff) looped
    have bound : sum ≤ sbuff.length := by
      have inside := (writenLoop_spec sbuff.length results 0 (Nat.zero_le _)).1
      rwa [looped] at inside
    refine ⟨left,run.trans ?_⟩
    unfold writen
    rw [looped]
    cases stopped with
    | failed => rfl
    | finished => exact congrArg (fun out => (Turn.returns out,left)) (writenResult_writen small bound nofun)
    | again => exact congrArg (fun out => (Turn.returns out,left)) (writenResult_writen small bound nofun)

/-- A result that brings the loop nearer to its end: all but `EINTR`. -/
def Progresses : WriteResult → Bool
  | .accepted count => 0 < count
  | .failed errno => errno ≠ .eintr

theorem writenTurns_returns {sbuff : Bytes} {results : List WriteResult}
    (enough : sbuff.length < results.countP Progresses) :
    ∃ result left, (writenTurns sbuff).run results (writenStart sbuff) = (.returns result,left) := by
  refine Asking.run_terminates Writing.nremain Progresses ?_ results enough
  intro s answer s' more turns
  have some := writenTurns_more more
  cases answer with
  | accepted count =>
    cases turns
    simp only [Progresses,decide_eq_true_eq]
    split_ifs <;> omega
  | failed errno =>
    cases errno with
    | eintr =>
      cases turns
      simp [Progresses]
    | eagain => cases turns
    | other => cases turns

/-- The buffer of a socket, and what the socket has received. -/
structure Stream where
  buffer : Bytes
  socket : Bytes

inductive StreamCall
  | append (text : Bytes)
  | write (results : List WriteResult)

def StreamCall.appended : StreamCall → Bytes
  | .append text => text
  | .write _ => []

/-- Appends to the buffer, and calls of `writen` that return without a fatal error; the socket
receives what the results of a call took from the front of the buffer. -/
inductive Streams : Stream → StreamCall → Stream → Prop
  | append (s : Stream) (text : Bytes) : Streams s (.append text) ⟨s.buffer ++ text,s.socket⟩
  | write {s : Stream} {results : List WriteResult} {out : WriteOutcome}
      (small : s.buffer.length < 2^31)
      (returned : (writenTurns s.buffer).run results (writenStart s.buffer) = (.returns (.ok out),[]))
      (fine : 0 ≤ out.ret) :
      Streams s (.write results) ⟨out.sbuff,s.socket ++ s.buffer.take (taken results)⟩

theorem writenTurns_conserves {sbuff : Bytes} (small : sbuff.length < 2^31)
    {results left : List WriteResult} {result : Except Fault WriteOutcome}
    (returned : (writenTurns sbuff).run results (writenStart sbuff) = (.returns result,left)) :
    ∃ out used, result = .ok out ∧ results = used ++ left ∧ Conserves sbuff used out := by
  have stands := writenTurns_stands small results
  rw [returned] at stands
  obtain ⟨used,same,out,done,conserves⟩ := stands
  exact ⟨out,used,done,same,conserves⟩

theorem Streams.conserves {s s' : Stream} {call : StreamCall} (one : Streams s call s') :
    s'.socket ++ s'.buffer = s.socket ++ s.buffer ++ call.appended := by
  cases one with
  | append text => exact (List.append_assoc ..).symm
  | write small returned fine =>
    obtain ⟨out,used,done,split,conserves⟩ := writenTurns_conserves small returned
    cases done
    rw [List.append_nil] at split
    rw [split,← conserves.sent]
    simp only [StreamCall.appended,List.append_nil,List.append_assoc,conserves.kept fine]

theorem stream_run {s s' : Stream} {calls : List StreamCall} (run : Run Streams s calls s') :
    s'.socket ++ s'.buffer = s.socket ++ s.buffer ++ calls.flatMap StreamCall.appended := by
  induction run with
  | nil => simp
  | cons first rest ih => rw [ih,first.conserves,List.flatMap_cons,List.append_assoc]

/-- Every call of the buffered `writen` returns as soon as enough results other than `EINTR` have
come, with the string out or with an error, and splits the string into what the results of its
calls took and what is left; and over any sequence of calls and appends the socket receives what
was appended, in order. -/
theorem writen_conserves {sbuff : Bytes} (small : sbuff.length < 2^31) (results : List WriteResult) :
    (sbuff.length < results.countP Progresses → ∃ result left,
      (writenTurns sbuff).run results (writenStart sbuff) = (.returns result,left)) ∧
    (∀ result left, (writenTurns sbuff).run results (writenStart sbuff) = (.returns result,left) →
      ∃ out used, result = .ok out ∧ results = used ++ left ∧ Conserves sbuff used out) ∧
    ∀ {s s' : Stream} {calls : List StreamCall}, Run Streams s calls s' →
      s'.socket ++ s'.buffer = s.socket ++ s.buffer ++ calls.flatMap StreamCall.appended :=
  ⟨writenTurns_returns,fun _ _ returned => writenTurns_conserves small returned,stream_run⟩

theorem writen_conserves_sample : ∃ used out s,
    (writenTurns (bytes "ab")).run [.failed .eintr,.accepted 1,.failed .eagain]
      (writenStart (bytes "ab")) = (.returns (.ok out),[]) ∧
    Conserves (bytes "ab") used out ∧
    Run Streams ⟨bytes "ab",[]⟩ [.write [.failed .eintr,.accepted 1,.failed .eagain]] s ∧
    s.socket ++ s.buffer = bytes "ab" := by
  have returned : (writenTurns (bytes "ab")).run [.failed .eintr,.accepted 1,.failed .eagain]
      (writenStart (bytes "ab")) = (.returns (.ok ⟨1,bytes "b",bytes "a",.again⟩),[]) := by
    rw [Asking.run_goes rfl rfl,Asking.run_goes rfl rfl,Asking.run_returns rfl rfl]
    exact congrArg (fun out => (Turn.returns out,[]))
      (writenResult_conserves ⟨rfl,rfl,rfl⟩ (by decide) (by decide))
  obtain ⟨_,conserved,streamed⟩ := @writen_conserves (bytes "ab") (by decide)
    [.failed .eintr,.accepted 1,.failed .eagain]
  obtain ⟨out,used,same,_,conserves⟩ := conserved _ _ returned
  cases same
  have run : Run Streams ⟨bytes "ab",[]⟩ [.write [.failed .eintr,.accepted 1,.failed .eagain]] _ :=
    .cons (.write (by decide) returned (by decide)) (.nil _)
  exact ⟨used,_,_,returned,conserves,run,streamed run⟩

/-- The locals of `readn(int, std::string&, bool&)`, and its arguments. -/
structure Reads where
  readSum : Nat
  inBuffer : Bytes
  zero : Bool

def readnTurns : Asking Reads ReadResult ReadOutcome where
  test _ := none
  body s result :=
    match result with
    | .failed .eintr => .goes s
    | .failed .eagain => .returns ⟨s.readSum,s.inBuffer,s.zero⟩
    | .failed .other => .returns ⟨-1,s.inBuffer,s.zero⟩
    | .received [] => .returns ⟨s.readSum,s.inBuffer,true⟩
    | .received (c :: chunk) =>
      .goes ⟨s.readSum + (c :: chunk).length,s.inBuffer ++ c :: chunk,s.zero⟩

/-- A result that is not one of the three ends. -/
def GoesOn : ReadResult → Prop
  | .received chunk => chunk ≠ []
  | .failed errno => errno = .eintr

def ReadResult.delivered : ReadResult → Bytes
  | .received chunk => chunk
  | .failed _ => []

theorem GoesOn.turn {result : ReadResult} (goes : GoesOn result) (s : Reads) :
    readnTurns.body s result = .goes ⟨s.readSum + result.delivered.length,
      s.inBuffer ++ result.delivered,s.zero⟩ := by
  cases result with
  | received chunk =>
    cases chunk with
    | nil => exact absurd rfl goes
    | cons c chunk => rfl
  | failed errno =>
    obtain rfl : errno = .eintr := goes
    simp [readnTurns,ReadResult.delivered]

theorem ends_turn {ending : ReadResult} (ends : ¬ GoesOn ending) (s : Reads) :
    readnTurns.body s ending = .returns ⟨if ending = .failed .other then -1 else s.readSum,
      s.inBuffer,s.zero || decide (ending = .received [])⟩ := by
  cases ending with
  | received chunk =>
    obtain rfl : chunk = [] := not_not.mp ends
    simp [readnTurns]
  | failed errno =>
    cases errno with
    | eintr => exact absurd rfl ends
    | eagain => simp [readnTurns]
    | other => simp [readnTurns]

theorem readnTurns_goes {before : List ReadResult} (goes : ∀ result ∈ before, GoesOn result) :
    ∀ s : Reads, readnTurns.run before s =
      (.goes ⟨s.readSum + (before.flatMap ReadResult.delivered).length,
        s.inBuffer ++ before.flatMap ReadResult.delivered,s.zero⟩,[]) := by
  induction before with
  | nil =>
    intro s
    rw [Asking.run_nil rfl]
    simp
  | cons result before ih =>
    intro s
    obtain ⟨first,others⟩ := List.forall_mem_cons.mp goes
    rw [Asking.run_goes rfl (first.turn s),ih others]
    simp only [List.flatMap_cons,List.length_append,List.append_assoc,Nat.add_assoc]

/-- `readn` does not stop in front of one of the three ends, and there it returns everything
that was delivered; the results behind the end are not asked for. -/
theorem readn_drains_whole (inBuffer : Bytes) (zero : Bool) :
    (∀ before : List ReadResult, (∀ result ∈ before, GoesOn result) →
      readnTurns.run before ⟨0,inBuffer,zero⟩ =
        (.goes ⟨(before.flatMap ReadResult.delivered).length,
          inBuffer ++ before.flatMap ReadResult.delivered,zero⟩,[])) ∧
    ∀ (before : List ReadResult) (ending : ReadResult) (later : List ReadResult),
      (∀ result ∈ before, GoesOn result) → ¬ GoesOn ending →
      readnTurns.run (before ++ ending :: later) ⟨0,inBuffer,zero⟩ =
        (.returns ⟨if ending = .failed .other then -1
            else ((before.flatMap ReadResult.delivered).length : Nat),
          inBuffer ++ before.flatMap ReadResult.delivered,
          zero || decide (ending = .received [])⟩,later) := by
  have start : ∀ before : List ReadResult, (∀ result ∈ before, GoesOn result) →
      readnTurns.run before ⟨0,inBuffer,zero⟩ =
        (.goes ⟨(before.flatMap ReadResult.delivered).length,
          inBuffer ++ before.flatMap ReadResult.delivered,zero⟩,[]) := by
    intro before goes
    rw [readnTurns_goes goes]
    simp only [Nat.zero_add]
  refine ⟨start,?_⟩
  intro before ending later goes ends
  rw [Asking.run_append,start before goes]
  exact Asking.run_returns rfl (ends_turn ends _) later

/-- The handlers' `readn`, which finds no data when the results run out, is the loop. -/
theorem readnTurns_readn (results : List ReadResult) (inBuffer : Bytes) (zero : Bool) :
    ∃ left, readnTurns.run (results ++ [.failed .eagain]) ⟨0,inBuffer,zero⟩ =
      (.returns (readn results inBuffer zero),left) := by
  have looped : ∀ (results : List ReadResult) (s : Reads), ∃ left,
      readnTurns.run (results ++ [.failed .eagain]) s =
        (.returns (readnLoop results s.readSum s.inBuffer s.zero),left) := by
    intro results
    induction results with
    | nil => exact fun s => ⟨[],Asking.run_returns rfl rfl []⟩
    | cons result results ih =>
      intro s
      by_cases goes : GoesOn result
      · obtain ⟨left,run⟩ := ih ⟨_,_,_⟩
        refine ⟨left,(Asking.run_goes rfl (goes.turn s) _).trans (run.trans ?_)⟩
        cases result with
        | received chunk =>
          cases chunk with
          | nil => exact absurd rfl goes
          | cons c chunk => rfl
        | failed errno =>
          obtain rfl : errno = .eintr := goes
          simp [readnLoop,ReadResult.delivered]
      · refine ⟨results ++ [.failed .eagain],(Asking.run_returns rfl (ends_turn goes s) _).trans ?_⟩
        cases result with
        | received chunk =>
          obtain rfl : chunk = [] := not_not.mp goes
          simp [readnLoop]
        | failed errno =>
          cases errno with
          | eintr => exact absurd rfl goes
          | eagain => simp [readnLoop]
          | other => simp [readnLoop]
  exact looped results ⟨0,inBuffer,zero⟩

end Deon
