import Deon.Strings

/-! The read and write loops of `Util.cpp` over the results that the kernel gives
to their `read` and `write` calls. The results are listed in order; a `read` past
the end of the list finds no data (`EAGAIN`), a `write` past it takes all it is
given. -/
namespace Deon

inductive Errno
  | eintr
  | eagain
  | other
  deriving DecidableEq, Repr

/-- One `read`: the bytes it stored (none at the end of the stream), or an error. -/
inductive ReadResult
  | received (chunk : Bytes)
  | failed (errno : Errno)
  deriving DecidableEq, Repr

/-- One `write`: how many of the bytes it was given it took, or an error. -/
inductive WriteResult
  | accepted (count : Nat)
  | failed (errno : Errno)
  deriving DecidableEq, Repr

structure ReadOutcome where
  ret : Int
  inBuffer : Bytes
  zero : Bool
  deriving DecidableEq, Repr

def readnLoop : List ReadResult → Nat → Bytes → Bool → ReadOutcome
  | [], readSum, inBuffer, zero => ⟨readSum,inBuffer,zero⟩
  | .failed .eintr :: results, readSum, inBuffer, zero => readnLoop results readSum inBuffer zero
  | .failed .eagain :: _, readSum, inBuffer, zero => ⟨readSum,inBuffer,zero⟩
  | .failed .other :: _, _, inBuffer, zero => ⟨-1,inBuffer,zero⟩
  | .received [] :: _, readSum, inBuffer, _ => ⟨readSum,inBuffer,true⟩
  | .received (c :: chunk) :: results, readSum, inBuffer, zero =>
    readnLoop results (readSum + (c :: chunk).length) (inBuffer ++ c :: chunk) zero

/-- `readn(int, std::string&, bool&)`. -/
def readn (results : List ReadResult) (inBuffer : Bytes) (zero : Bool) : ReadOutcome :=
  readnLoop results 0 inBuffer zero

/-- Where the loop of the buffered `writen` ends. -/
inductive WriteEnd
  | finished
  | again
  | failed
  deriving DecidableEq, Repr

def writenLoop (size : Nat) : List WriteResult → Nat → WriteEnd × Nat
  | [], _ => (.finished,size)
  | result :: results, writeSum =>
    if size ≤ writeSum then (.finished,writeSum)
    else match result with
      | .accepted count => writenLoop size results (writeSum + min count (size - writeSum))
      | .failed .eintr => writenLoop size results writeSum
      | .failed .eagain => (.again,writeSum)
      | .failed .other => (.failed,writeSum)

structure WriteOutcome where
  ret : Int
  sbuff : Bytes
  accepted : Bytes
  stopped : WriteEnd
  deriving DecidableEq, Repr

/-- `writen(int, std::string&)`: the result, the string after the call, the bytes
the kernel took, and whether a `write` answered `EAGAIN` or failed. The string has fewer
than 2^31 bytes, so that its size as an `int` is its length. -/
def writen (results : List WriteResult) (sbuff : Bytes) : WriteOutcome :=
  match writenLoop sbuff.length results 0 with
  | (.failed,writeSum) => ⟨-1,sbuff,sbuff.take writeSum,.failed⟩
  | (stopped,writeSum) =>
    ⟨writeSum,if writeSum = sbuff.length then [] else sbuff.drop writeSum,
      sbuff.take writeSum,stopped⟩

/-- What stands in memory from the address that `nleft` bytes before the end of
the buffer denotes: below the buffer when `nleft` exceeds its size. -/
def window (below : Nat → UInt8) (buff : Bytes) (nleft : Nat) : Bytes :=
  ((List.range (nleft - buff.length)).reverse.map below ++ buff).drop (buff.length - nleft)

structure RawWriteOutcome where
  ret : Int
  accepted : Bytes
  /-- offset from the start of the buffer and count of each `write` -/
  calls : List (Int × Nat)
  /-- a `write` answered an error other than `EINTR` -/
  failed : Bool
  deriving DecidableEq, Repr

def writenRawLoop (below : Nat → UInt8) (buff : Bytes) :
    List WriteResult → Nat → RawWriteOutcome → RawWriteOutcome
  | [], nleft, out =>
    if nleft = 0 then out
    else {out with
      ret := out.ret + nleft
      accepted := out.accepted ++ window below buff nleft
      calls := out.calls ++ [((buff.length : Int) - nleft,nleft)]}
  | result :: results, nleft, out =>
    if nleft = 0 then out
    else
      let out := {out with calls := out.calls ++ [((buff.length : Int) - nleft,nleft)]}
      match result with
      | .accepted count =>
        writenRawLoop below buff results (nleft - min count nleft) {out with
          ret := out.ret + (min count nleft : Nat)
          accepted := out.accepted ++ (window below buff nleft).take count}
      | .failed .eintr => writenRawLoop below buff results nleft out
      -- an error other than `EINTR` is added to the sums as the `-1` it returned
      | .failed _ =>
        writenRawLoop below buff results (nleft + 1) {out with ret := out.ret - 1,failed := true}

/-- `writen(int, void*, size_t)`, over a buffer with `below` in front of it. A loop whose calls
never take what is left has no outcome: `writenRawTurns` goes on in it. -/
def writenRaw (below : Nat → UInt8) (results : List WriteResult) (buff : Bytes) :
    RawWriteOutcome :=
  writenRawLoop below buff results buff.length ⟨0,[],[],false⟩

/-- How the reading of everything that is there ends. -/
inductive DrainEnd
  | again
  | eof
  | error
  deriving DecidableEq, Repr

/-- The results hand over `received` and then end in the given way; `EINTR` may
come in between, and results after the end are not asked for. -/
inductive Drains : List ReadResult → Bytes → DrainEnd → Prop
  | exhausted : Drains [] [] .again
  | again (later) : Drains (.failed .eagain :: later) [] .again
  | eof (later) : Drains (.received [] :: later) [] .eof
  | error (later) : Drains (.failed .other :: later) [] .error
  | eintr {results received ending} (rest : Drains results received ending) :
      Drains (.failed .eintr :: results) received ending
  | chunk {results received ending} (c : UInt8) (chunk : Bytes)
      (rest : Drains results received ending) :
      Drains (.received (c :: chunk) :: results) (c :: chunk ++ received) ending

theorem readnLoop_drains {results : List ReadResult} {received : Bytes} {ending : DrainEnd}
    (drains : Drains results received ending) (readSum : Nat) (inBuffer : Bytes) (zero : Bool) :
    readnLoop results readSum inBuffer zero =
      ⟨if ending = .error then -1 else ((readSum + received.length : Nat) : Int),
        inBuffer ++ received,zero || decide (ending = .eof)⟩ := by
  induction drains generalizing readSum inBuffer with
  | exhausted => simp [readnLoop]
  | again later => simp [readnLoop]
  | eof later => simp [readnLoop]
  | error later => simp [readnLoop]
  | eintr rest ih => simpa [readnLoop] using ih readSum inBuffer
  | chunk c chunk rest ih =>
    rw [readnLoop,ih]
    simp only [List.length_append,List.append_assoc,Nat.add_assoc]

/-- `readn` collects everything that is handed over, and reports how it ended. -/
theorem readn_drains {results : List ReadResult} {received : Bytes} {ending : DrainEnd}
    (drains : Drains results received ending) (inBuffer : Bytes) :
    readn results inBuffer false =
      ⟨if ending = .error then -1 else (received.length : Int),inBuffer ++ received,
        decide (ending = .eof)⟩ := by
  rw [readn,readnLoop_drains drains]
  simp

/-- Its caller stores the result in an `int`, which keeps it below 2^31 bytes. -/
theorem readn_int {results : List ReadResult} {received : Bytes} {ending : DrainEnd}
    (drains : Drains results received ending) (small : received.length < 2^31) (inBuffer : Bytes) :
    (readn results inBuffer false).ret.bmod (2^32) = (readn results inBuffer false).ret := by
  rw [readn_drains drains]
  dsimp only
  split
  · rfl
  · exact Int.bmod_eq_of_le (by omega) (by omega)

theorem Drains.unique {results : List ReadResult} {received other : Bytes} {ending ending' : DrainEnd}
    (drains : Drains results received ending) (again : Drains results other ending') :
    other = received ∧ ending' = ending := by
  have same := (readn_drains again []).symm.trans (readn_drains drains [])
  simp only [ReadOutcome.mk.injEq,List.nil_append,decide_eq_decide] at same
  obtain ⟨ret,texts,ended⟩ := same
  refine ⟨texts,?_⟩
  cases ending <;> cases ending' <;> simp_all

theorem drains_total (results : List ReadResult) :
    ∃ received ending, Drains results received ending := by
  induction results with
  | nil => exact ⟨[],.again,.exhausted⟩
  | cons result results ih =>
    obtain ⟨received,ending,rest⟩ := ih
    rcases result with chunk | errno
    · cases chunk with
      | nil => exact ⟨[],.eof,.eof results⟩
      | cons c chunk => exact ⟨_,ending,.chunk c chunk rest⟩
    · cases errno with
      | eintr => exact ⟨received,ending,.eintr rest⟩
      | eagain => exact ⟨[],.again,.again results⟩
      | other => exact ⟨[],.error,.error results⟩

theorem writenLoop_spec (size : Nat) (results : List WriteResult) :
    ∀ writeSum, writeSum ≤ size →
      (writenLoop size results writeSum).2 ≤ size ∧
      ((writenLoop size results writeSum).1 = .finished →
        (writenLoop size results writeSum).2 = size) ∧
      ((writenLoop size results writeSum).1 = .again →
        (writenLoop size results writeSum).2 < size) := by
  induction results with
  | nil => simp [writenLoop]
  | cons result results ih =>
    intro writeSum inside
    rw [writenLoop.eq_def]
    dsimp only
    split_ifs with full
    · exact ⟨inside,fun _ => by omega,by simp⟩
    · rcases result with count | errno
      · exact ih _ (by omega)
      · cases errno with
        | eintr => exact ih _ inside
        | eagain => exact ⟨inside,by simp,fun _ => Nat.lt_of_not_le full⟩
        | other => exact ⟨inside,by simp,by simp⟩

/-- The buffered `writen` splits the string into what the kernel took and what is
left; a call that fails leaves the whole string. -/
theorem writen_spec (results : List WriteResult) (sbuff : Bytes) :
    (writen results sbuff).accepted <+: sbuff ∧
    ((writen results sbuff).stopped = .failed ↔ (writen results sbuff).ret < 0) ∧
    ((writen results sbuff).stopped ≠ .failed →
      (writen results sbuff).accepted ++ (writen results sbuff).sbuff = sbuff) ∧
    ((writen results sbuff).stopped = .finished → (writen results sbuff).sbuff = []) ∧
    ((writen results sbuff).stopped = .again → (writen results sbuff).sbuff ≠ []) := by
  obtain ⟨bound,full,short⟩ := writenLoop_spec sbuff.length results 0 (Nat.zero_le _)
  unfold writen
  generalize writenLoop sbuff.length results 0 = ended at bound full short
  obtain ⟨stopped,writeSum⟩ := ended
  cases stopped with
  | failed => simp [List.take_prefix]
  | finished =>
    obtain rfl := full rfl
    simp
  | again =>
    have less := short rfl
    have ne : writeSum ≠ sbuff.length := by
      dsimp only at less
      omega
    simp [ne,List.take_prefix]
    exact less

/-- The bytes that the kernel is ready to take with these results. -/
def taken : List WriteResult → Nat
  | [] => 0
  | .accepted count :: results => count + taken results
  | .failed _ :: results => taken results

theorem taken_append (before after : List WriteResult) :
    taken (before ++ after) = taken before + taken after := by
  induction before with
  | nil => simp [taken]
  | cons result before ih => cases result <;> simp [taken,ih,Nat.add_assoc]

/-- A string of this size is not sent: a `write` fails in front of its end. -/
def Breaks (results : List WriteResult) (size : Nat) : Prop :=
  ∃ before after, results = before ++ .failed .other :: after ∧ .failed .eagain ∉ before ∧
    taken before < size

theorem breaks_cons {result : WriteResult} {results : List WriteResult} {size : Nat} :
    Breaks (result :: results) size ↔ result = .failed .other ∧ 0 < size ∨
      result ≠ .failed .eagain ∧ Breaks results (size - taken [result]) := by
  constructor
  · rintro ⟨before,after,same,calm,short⟩
    cases before with
    | nil =>
      obtain ⟨rfl,rfl⟩ := List.cons.inj same
      exact .inl ⟨rfl,short⟩
    | cons first before =>
      obtain ⟨rfl,rfl⟩ := List.cons.inj same
      obtain ⟨apart,calm⟩ := List.ne_and_not_mem_of_not_mem_cons calm
      refine .inr ⟨apart.symm,before,after,rfl,calm,?_⟩
      cases result <;> simp only [taken] at short ⊢ <;> omega
  · rintro (⟨rfl,some⟩ | ⟨apart,before,after,rfl,calm,short⟩)
    · exact ⟨[],results,rfl,by simp,some⟩
    · refine ⟨result :: before,after,rfl,?_,?_⟩
      · simp only [List.mem_cons,not_or]
        exact ⟨apart.symm,calm⟩
      · cases result <;> simp only [taken] at short ⊢ <;> omega

theorem writenLoop_breaks (size : Nat) (results : List WriteResult) : ∀ writeSum,
    (writenLoop size results writeSum).1 = .failed ↔ Breaks results (size - writeSum) := by
  induction results with
  | nil =>
    intro writeSum
    simp [writenLoop,Breaks]
  | cons result results ih =>
    intro writeSum
    rw [breaks_cons]
    simp only [writenLoop]
    split_ifs with full
    · have none : size - writeSum = 0 := by omega
      simp [none,Breaks]
    · cases result with
      | accepted count =>
        have rest : size - (writeSum + min count (size - writeSum)) =
            size - writeSum - taken [.accepted count] := by
          simp only [taken]
          omega
        simp [ih,rest]
      | failed errno =>
        cases errno with
        | eintr => simp [ih,taken]
        | eagain => simp
        | other =>
          have some : 0 < size - writeSum := by omega
          simp [some]

theorem writen_breaks (results : List WriteResult) (sbuff : Bytes) :
    (writen results sbuff).ret < 0 ↔ Breaks results sbuff.length := by
  have loop := writenLoop_breaks sbuff.length results 0
  rw [← (writen_spec results sbuff).2.1]
  unfold writen
  generalize writenLoop sbuff.length results 0 = ended at loop
  obtain ⟨stopped,writeSum⟩ := ended
  cases stopped <;> simpa using loop

theorem window_drop (below : Nat → UInt8) (buff : Bytes) (nleft : Nat) (inside : nleft ≤ buff.length) :
    window below buff nleft = buff.drop (buff.length - nleft) := by
  have none : nleft - buff.length = 0 := by omega
  simp [window,none]

theorem writenRawLoop_failed (below : Nat → UInt8) (buff : Bytes) (results : List WriteResult) :
    ∀ nleft out, out.failed = true → (writenRawLoop below buff results nleft out).failed = true := by
  induction results with
  | nil =>
    intro nleft out failed
    rw [writenRawLoop]
    split_ifs <;> exact failed
  | cons result results ih =>
    intro nleft out failed
    rw [writenRawLoop]
    split_ifs
    · exact failed
    · rcases result with count | errno
      · exact ih _ _ failed
      · cases errno <;> exact ih _ _ (by simp [failed])

theorem writenRawLoop_complete (below : Nat → UInt8) (buff : Bytes) (results : List WriteResult) :
    ∀ nleft out, nleft ≤ buff.length →
      (writenRawLoop below buff results nleft out).failed = false →
      (writenRawLoop below buff results nleft out).accepted =
        out.accepted ++ buff.drop (buff.length - nleft) := by
  induction results with
  | nil =>
    intro nleft out inside _
    rw [writenRawLoop]
    split_ifs with none
    · simp [none]
    · simp [window_drop below buff nleft inside]
  | cons result results ih =>
    intro nleft out inside fine
    rw [writenRawLoop] at fine ⊢
    split_ifs at fine ⊢ with none
    · simp [none]
    · rcases result with count | errno
      · dsimp only at fine ⊢
        rw [ih _ _ (by omega) fine,window_drop below buff nleft inside,List.append_assoc]
        congr 1
        have shift : buff.length - (nleft - min count nleft) =
            buff.length - nleft + min count nleft := by omega
        rw [shift,← List.drop_drop]
        by_cases less : count ≤ nleft
        · rw [Nat.min_eq_left less,List.take_append_drop]
        · have all : (buff.drop (buff.length - nleft)).length ≤ count := by
            simp only [List.length_drop]
            omega
          have gone : (buff.drop (buff.length - nleft)).length ≤ min count nleft := by
            simp only [List.length_drop]
            omega
          rw [List.take_of_length_le all,List.drop_eq_nil_of_le gone,List.append_nil]
      · cases errno with
        | eintr => exact ih _ _ inside fine
        | eagain => exact absurd (writenRawLoop_failed below buff results _ _ rfl) (by simpa using fine)
        | other => exact absurd (writenRawLoop_failed below buff results _ _ rfl) (by simpa using fine)

/-- As long as no `write` fails with more than `EINTR`, the raw `writen` sends its
buffer. -/
theorem writenRaw_complete (below : Nat → UInt8) (results : List WriteResult) (buff : Bytes)
    (fine : (writenRaw below results buff).failed = false) :
    (writenRaw below results buff).accepted = buff := by
  have sent := writenRawLoop_complete below buff results buff.length ⟨0,[],[],false⟩ (Nat.le_refl _) fine
  simpa [writenRaw] using sent

end Deon
