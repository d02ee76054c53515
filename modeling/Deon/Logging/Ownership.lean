import Deon.Logging.AsyncLogging
import Mathlib.Data.List.Nodup

/-! Who owns the buffers of an `AsyncLogging`. Every buffer is in at most one slot, the
front end always has one to write to, and the back end always gets back as many as it
gave away: `newBuffer2` is only handed over when `nextBuffer_` was used up, and then
the batch has at least two buffers. -/
namespace Deon.Logging
open Library

/-- All the slots, one after the other. -/
def slots (s : AsyncLogging) : List Nat :=
  s.currentBuffer.toList ++ s.nextBuffer.toList ++ s.newBuffer1.toList ++ s.newBuffer2.toList ++
    s.buffers ++ s.buffersToWrite

/-- A buffer is in one slot at most, and a buffer that is still to be allocated in none. -/
def Once (s : AsyncLogging) : Prop :=
  ∀ id, (slots s).count id ≤ if id < s.fresh then 1 else 0

/-- What the back end has between the swap and the recycling: `newBuffer2` is still there
or there is a buffer to take its place. -/
def Spare (s : AsyncLogging) (needed : Nat) : Prop :=
  emptyBuffer s s.newBuffer2 = true ∨ s.newBuffer2 = none ∧ needed ≤ s.buffersToWrite.length

/-- The locals of `threadFunc`, at each of its steps. -/
def LocalsFit (s : AsyncLogging) : Pc → Prop
  | .unstarted | .starting | .constructing =>
    s.newBuffer1 = none ∧ s.newBuffer2 = none ∧ s.buffersToWrite = []
  | .looping | .entered | .waiting | .swapping | .finished =>
    emptyBuffer s s.newBuffer1 = true ∧ emptyBuffer s s.newBuffer2 = true ∧ s.buffersToWrite = []
  | .trimming | .writing _ | .resizing | .recycling1 =>
    s.newBuffer1 = none ∧ 1 ≤ s.buffersToWrite.length ∧ Spare s 2
  | .recycling2 => emptyBuffer s s.newBuffer1 = true ∧ Spare s 1
  | .clearing => emptyBuffer s s.newBuffer1 = true ∧ emptyBuffer s s.newBuffer2 = true

structure Owned (s : AsyncLogging) : Prop where
  once : Once s
  current : s.currentBuffer ≠ none
  next : s.nextBuffer = none ∨ emptyBuffer s s.nextBuffer = true
  refill : s.nextBuffer = none → s.buffers ≠ []
  locals : LocalsFit s s.pc
  begun : s.pc = .starting → s.running = true

theorem count_slots (s : AsyncLogging) (id : Nat) : (slots s).count id =
    s.currentBuffer.toList.count id + s.nextBuffer.toList.count id + s.newBuffer1.toList.count id +
      s.newBuffer2.toList.count id + s.buffers.count id + s.buffersToWrite.count id := by
  simp only [slots,List.count_append]

theorem Once.allocate {s s' : AsyncLogging} (once : Once s) (k : Nat) (grows : s'.fresh = s.fresh + k)
    (fewer : ∀ id, (slots s').count id ≤
      (slots s).count id + if s.fresh ≤ id ∧ id < s.fresh + k then 1 else 0) : Once s' := by
  intro id
  have before := once id
  have after := fewer id
  rw [grows]
  split_ifs at * <;> omega

theorem Once.moved {s s' : AsyncLogging} (once : Once s) (same : s'.fresh = s.fresh)
    (fewer : ∀ id, (slots s').count id ≤ (slots s).count id) : Once s' :=
  once.allocate 0 same fun id => Nat.le_add_right_of_le (fewer id)

theorem Once.nodup {s : AsyncLogging} (once : Once s) : (slots s).Nodup := by
  rw [List.nodup_iff_count_le_one]
  intro id
  have held := once id
  split_ifs at held <;> omega

theorem emptyBuffer_iff {s : AsyncLogging} {slot : Option Nat} :
    emptyBuffer s slot = true ↔ ∃ id, slot = some id ∧ (s.heap id).data = [] := by
  cases slot <;> simp [emptyBuffer]

theorem emptyBuffer_some {s : AsyncLogging} {slot : Option Nat} (filled : emptyBuffer s slot = true) :
    slot ≠ none := by
  obtain ⟨id,held,_⟩ := emptyBuffer_iff.mp filled
  simp [held]

theorem emptyBuffer_update {s : AsyncLogging} {slot : Option Nat} {id : Nat} (b : Buffer)
    (other : slot ≠ some id) : emptyBuffer {s with heap := Function.update s.heap id b} slot =
      emptyBuffer s slot := by
  cases slot with
  | none => rfl
  | some id' =>
    have apart : id' ≠ id := fun same => other (congrArg some same)
    simp [emptyBuffer,Function.update_of_ne apart]

theorem emptyBuffer_reset {s : AsyncLogging} {slot : Option Nat} (id : Nat)
    (filled : emptyBuffer s slot = true) :
    emptyBuffer {s with heap := Function.update s.heap id FixedBuffer.empty} slot = true := by
  by_cases same : slot = some id
  · simp [same,emptyBuffer,FixedBuffer.empty]
  · rw [emptyBuffer_update _ same,filled]

theorem LocalsFit.reset {s : AsyncLogging} {pc : Pc} (fit : LocalsFit s pc) (id : Nat) :
    LocalsFit {s with heap := Function.update s.heap id FixedBuffer.empty} pc := by
  have kept : ∀ slot, emptyBuffer s slot = true →
      emptyBuffer {s with heap := Function.update s.heap id FixedBuffer.empty} slot = true :=
    fun _ filled => emptyBuffer_reset id filled
  cases pc with
  | unstarted | starting | constructing => exact fit
  | looping | entered | waiting | swapping | finished =>
    exact ⟨kept _ fit.1,kept _ fit.2.1,fit.2.2⟩
  | trimming | writing | resizing | recycling1 =>
    exact ⟨fit.1,fit.2.1,fit.2.2.imp_left (kept _)⟩
  | recycling2 => exact ⟨kept _ fit.1,fit.2.imp_left (kept _)⟩
  | clearing => exact ⟨kept _ fit.1,kept _ fit.2⟩

theorem init_owned : Owned init where
  once := by
    intro id
    rcases id with - | - | id <;> simp [slots,init]
  current := by decide
  next := .inr rfl
  refill := by decide
  locals := ⟨rfl,rfl,rfl⟩
  begun := by decide

theorem Once.current_apart {s : AsyncLogging} (once : Once s) {id : Nat}
    (current : s.currentBuffer = some id) : s.nextBuffer ≠ some id ∧ s.newBuffer1 ≠ some id ∧
      s.newBuffer2 ≠ some id ∧ id ∉ s.buffers ∧ id ∉ s.buffersToWrite := by
  have distinct := once.nodup
  simp only [slots,current,Option.toList_some,List.append_assoc,List.cons_append,List.nil_append,
    List.nodup_cons,List.mem_append,Option.mem_toList,not_or] at distinct
  exact distinct.1

theorem Owned.write {s : AsyncLogging} (owned : Owned s) {id : Nat} (b : Buffer)
    (current : s.currentBuffer = some id) : Owned {s with heap := Function.update s.heap id b} := by
  obtain ⟨next,first,second,_,_⟩ := owned.once.current_apart current
  refine ⟨owned.once,owned.current,?_,owned.refill,?_,owned.begun⟩
  · simpa only [emptyBuffer_update b next] using owned.next
  · have locals := owned.locals
    unfold LocalsFit Spare at locals ⊢
    simp only [emptyBuffer_update b first,emptyBuffer_update b second]
    exact locals

theorem Owned.rotate {s : AsyncLogging} (owned : Owned s) {id : Nat}
    (current : s.currentBuffer = some id) :
    Owned (replaceCurrent {s with buffers := s.buffers ++ [id]}) := by
  unfold replaceCurrent
  cases held : s.nextBuffer with
  | some next =>
    refine ⟨owned.once.moved rfl ?_,by simp,.inl rfl,by simp,owned.locals,owned.begun⟩
    intro other
    simp only [count_slots,current,held,Option.toList_some,Option.toList_none,List.count_append,
      List.count_nil]
    omega
  | none =>
    refine ⟨owned.once.allocate 1 rfl ?_,by simp,.inl rfl,by simp,owned.locals.reset s.fresh,
      owned.begun⟩
    intro other
    simp only [count_slots,current,held,Option.toList_some,Option.toList_none,List.count_append,
      List.count_nil,List.count_singleton,beq_iff_eq]
    split_ifs <;> omega

theorem Owned.history {s : AsyncLogging} (owned : Owned s) (output : Bytes) (appended : List Bytes) :
    Owned {s with output := output,appended := appended} :=
  ⟨owned.once,owned.current,owned.next,owned.refill,owned.locals,owned.begun⟩

theorem Owned.move {s : AsyncLogging} (owned : Owned s) (pc : Pc) (later : pc ≠ .starting)
    (fit : LocalsFit {s with pc := pc} pc) : Owned {s with pc := pc} :=
  ⟨owned.once,owned.current,owned.next,owned.refill,fit,fun starting => absurd starting later⟩

theorem append_current {s : AsyncLogging} {id : Nat} (logline : Bytes)
    (current : s.currentBuffer = some id) : append logline s = (do
      let s ← (if (logline.length : Int) < (s.heap id).avail then appendCurrent logline s
        else appendCurrent logline (replaceCurrent {s with buffers := s.buffers ++ [id]}))
      return {s with appended := s.appended ++ [logline]}) := by
  cases s
  cases current
  rfl

theorem appendCurrent_some {s : AsyncLogging} {logline : Bytes} {id : Nat} {b : Buffer}
    (current : s.currentBuffer = some id) (written : (s.heap id).append logline = some b) :
    appendCurrent logline s = .ok {s with heap := Function.update s.heap id b} := by
  simp only [appendCurrent,current,written]

theorem append_room {s : AsyncLogging} {logline : Bytes} {id : Nat} (small : logline.length < 2^31)
    (current : s.currentBuffer = some id) (room : (logline.length : Int) < (s.heap id).avail) :
    ∃ b, b.data = (s.heap id).data ++ logline ∧ append logline s =
      .ok {s with heap := Function.update s.heap id b,appended := s.appended ++ [logline]} := by
  obtain ⟨b,written,grown⟩ := FixedBuffer.append_fits small room
  refine ⟨b,grown,?_⟩
  rw [append_current logline current,if_pos room,appendCurrent_some current written]
  rfl

theorem Owned.replaced {s : AsyncLogging} (owned : Owned s) (buffers : List Nat) :
    ∃ id, (replaceCurrent {s with buffers := buffers}).currentBuffer = some id ∧
      ((replaceCurrent {s with buffers := buffers}).heap id).data = [] := by
  unfold replaceCurrent
  cases held : s.nextBuffer with
  | some id =>
    have blank := owned.next.resolve_left (by simp [held])
    rw [held] at blank
    exact ⟨id,rfl,by simpa [emptyBuffer] using blank⟩
  | none => exact ⟨s.fresh,rfl,by simp [FixedBuffer.empty]⟩

theorem Owned.append_full {s : AsyncLogging} (owned : Owned s) {logline : Bytes} {id : Nat}
    (small : logline.length < 2^31) (current : s.currentBuffer = some id)
    (full : ¬ (logline.length : Int) < (s.heap id).avail) :
    ∃ id' b r, r = replaceCurrent {s with buffers := s.buffers ++ [id]} ∧
      r.currentBuffer = some id' ∧ (r.heap id').data = [] ∧
      b.data = (if logline.length < kLargeBuffer then logline else []) ∧ append logline s =
        .ok {r with heap := Function.update r.heap id' b,appended := r.appended ++ [logline]} := by
  obtain ⟨id',replaced,blank⟩ := owned.replaced (s.buffers ++ [id])
  have whole : ((replaceCurrent {s with buffers := s.buffers ++ [id]}).heap id').avail =
      kLargeBuffer := by
    simp [FixedBuffer.avail,blank]
  have written : ∃ b, FixedBuffer.append
      ((replaceCurrent {s with buffers := s.buffers ++ [id]}).heap id') logline = some b ∧
      b.data = if logline.length < kLargeBuffer then logline else [] := by
    split_ifs with fits
    · obtain ⟨b,written,grown⟩ := FixedBuffer.append_fits small (by rw [whole]; exact_mod_cast fits)
      exact ⟨b,written,by rw [grown,blank,List.nil_append]⟩
    · exact ⟨_,FixedBuffer.append_full small (by rw [whole]; exact_mod_cast fits),blank⟩
  obtain ⟨b,written,grown⟩ := written
  refine ⟨id',b,_,rfl,replaced,blank,grown,?_⟩
  rw [append_current logline current,if_neg full,appendCurrent_some replaced written]
  rfl

theorem Owned.append {s : AsyncLogging} (owned : Owned s) {logline : Bytes}
    (small : logline.length < 2^31) : ∃ s', append logline s = .ok s' ∧ Owned s' := by
  obtain ⟨id,current⟩ := Option.ne_none_iff_exists'.mp owned.current
  by_cases room : (logline.length : Int) < (s.heap id).avail
  · obtain ⟨b,_,appended⟩ := append_room small current room
    exact ⟨_,appended,(owned.write b current).history s.output _⟩
  · obtain ⟨id',b,r,rotated,replaced,_,_,appended⟩ := owned.append_full small current room
    have held : Owned r := rotated ▸ owned.rotate current
    exact ⟨_,appended,(held.write b replaced).history r.output _⟩

/-- What is left of a batch after the trimming. -/
def kept {α : Type*} (batch : List α) : List α := if 25 < batch.length then batch.take 2 else batch

/-- The steps of the back end that no assertion stops. -/
inductive Back (s : AsyncLogging) : AsyncLogging → Prop
  | run (here : s.pc = .starting) : Back s {s with pc := .constructing}
  | construct (here : s.pc = .constructing) : Back s {s with
      newBuffer1 := some s.fresh
      newBuffer2 := some (s.fresh + 1)
      heap := Function.update (Function.update s.heap s.fresh FixedBuffer.empty) (s.fresh + 1)
        FixedBuffer.empty
      fresh := s.fresh + 2
      pc := .looping}
  | enter (here : s.pc = .looping) (running : s.running = true) : Back s {s with pc := .entered}
  | leave (here : s.pc = .looping) (stopped : s.running = false) : Back s {s with pc := .finished}
  | wait (here : s.pc = .entered) (idle : s.buffers = []) : Back s {s with pc := .waiting}
  | hurry (here : s.pc = .entered) (busy : s.buffers ≠ []) : Back s {s with pc := .swapping}
  | wake (here : s.pc = .waiting) : Back s {s with pc := .swapping}
  | swap {id : Nat} (here : s.pc = .swapping) (current : s.currentBuffer = some id) : Back s {s with
      currentBuffer := s.newBuffer1
      newBuffer1 := none
      buffers := s.buffersToWrite
      buffersToWrite := s.buffers ++ [id]
      nextBuffer := if s.nextBuffer.isNone then s.newBuffer2 else s.nextBuffer
      newBuffer2 := if s.nextBuffer.isNone then none else s.newBuffer2
      batches := s.batches ++ [contents s.heap (s.buffers ++ [id])]
      pc := .trimming}
  | trim (here : s.pc = .trimming) : Back s {s with
      buffersToWrite := kept s.buffersToWrite
      pc := .writing 0}
  | write {i id : Nat} (here : s.pc = .writing i) (held : s.buffersToWrite[i]? = some id) :
      Back s {s with output := s.output ++ (s.heap id).data,pc := .writing (i + 1)}
  | written {i : Nat} (here : s.pc = .writing i) (behind : s.buffersToWrite[i]? = none) :
      Back s {s with pc := .resizing}
  | resize (here : s.pc = .resizing) : Back s {s with
      buffersToWrite :=
        if 2 < s.buffersToWrite.length then s.buffersToWrite.take 2 else s.buffersToWrite
      pc := .recycling1}
  | refill1 {id : Nat} (here : s.pc = .recycling1) (last : s.buffersToWrite.getLast? = some id) :
      Back s {s with
        buffersToWrite := s.buffersToWrite.dropLast
        heap := Function.update s.heap id FixedBuffer.empty
        newBuffer1 := some id
        pc := .recycling2}
  | keep2 (here : s.pc = .recycling2) (held : s.newBuffer2 ≠ none) : Back s {s with pc := .clearing}
  | refill2 {id : Nat} (here : s.pc = .recycling2) (lacking : s.newBuffer2 = none)
      (last : s.buffersToWrite.getLast? = some id) : Back s {s with
        buffersToWrite := s.buffersToWrite.dropLast
        heap := Function.update s.heap id FixedBuffer.empty
        newBuffer2 := some id
        pc := .clearing}
  | clear (here : s.pc = .clearing) : Back s {s with buffersToWrite := [],pc := .looping}

theorem recycle_last {s : AsyncLogging} (left : 1 ≤ s.buffersToWrite.length) :
    ∃ id, s.buffersToWrite.getLast? = some id ∧ recycle s = .ok (id,{s with
      buffersToWrite := s.buffersToWrite.dropLast
      heap := Function.update s.heap id FixedBuffer.empty}) := by
  have some : s.buffersToWrite ≠ [] := List.ne_nil_of_length_pos left
  have last := List.getLast?_eq_some_getLast some
  refine ⟨_,last,?_⟩
  simp only [recycle,last]

theorem Owned.back {s : AsyncLogging} (owned : Owned s) {result : Except Crash AsyncLogging}
    (stepped : backStep s = some result) : ∃ s', result = .ok s' ∧ Back s s' := by
  have locals := owned.locals
  unfold LocalsFit at locals
  unfold backStep at stepped
  cases here : s.pc <;> simp only [here,reduceCtorEq,Option.some.injEq] at locals stepped
  case starting =>
    rw [if_pos (owned.begun here)] at stepped
    exact ⟨_,stepped.symm,.run here⟩
  case constructing => exact ⟨_,stepped.symm,.construct here⟩
  case looping =>
    by_cases running : s.running = true
    · rw [if_pos running] at stepped
      exact ⟨_,stepped.symm,.enter here running⟩
    · rw [if_neg running] at stepped
      exact ⟨_,stepped.symm,.leave here (Bool.eq_false_iff.mpr running)⟩
  case entered =>
    rw [if_pos (by simp [locals])] at stepped
    by_cases idle : s.buffers = []
    · rw [if_pos idle] at stepped
      exact ⟨_,(Option.some.inj stepped).symm,.wait here idle⟩
    · rw [if_neg idle] at stepped
      exact ⟨_,(Option.some.inj stepped).symm,.hurry here idle⟩
  case waiting => exact ⟨_,stepped.symm,.wake here⟩
  case swapping =>
    obtain ⟨id,current⟩ := Option.ne_none_iff_exists'.mp owned.current
    simp only [current,Option.some.injEq] at stepped
    exact ⟨_,stepped.symm,.swap here current⟩
  case trimming =>
    rw [if_neg (List.ne_nil_of_length_pos locals.2.1)] at stepped
    exact ⟨_,(Option.some.inj stepped).symm,.trim here⟩
  case writing i =>
    cases held : s.buffersToWrite[i]? <;> simp only [held,Option.some.injEq] at stepped
    · exact ⟨_,stepped.symm,.written here held⟩
    · exact ⟨_,stepped.symm,.write here held⟩
  case resizing => exact ⟨_,stepped.symm,.resize here⟩
  case recycling1 =>
    obtain ⟨id,last,recycled⟩ := recycle_last locals.2.1
    rw [locals.1,if_neg (by simp),recycled] at stepped
    exact ⟨_,(Option.some.inj stepped).symm,.refill1 here last⟩
  case recycling2 =>
    by_cases held : s.newBuffer2 = none
    · have left : 1 ≤ s.buffersToWrite.length := by
        rcases locals.2 with filled | ⟨_,left⟩
        · exact absurd held (emptyBuffer_some filled)
        · exact left
      obtain ⟨id,last,recycled⟩ := recycle_last left
      rw [if_neg (by simp [held]),recycled] at stepped
      exact ⟨_,(Option.some.inj stepped).symm,.refill2 here held last⟩
    · rw [if_pos (Option.isSome_iff_ne_none.mpr held)] at stepped
      exact ⟨_,(Option.some.inj stepped).symm,.keep2 here held⟩
  case clearing => exact ⟨_,stepped.symm,.clear here⟩

theorem Owned.shorten {s : AsyncLogging} (owned : Owned s) (locals : LocalsFit s .trimming)
    {shorter : List Nat} (part : shorter.Sublist s.buffersToWrite)
    (enough : min 2 s.buffersToWrite.length ≤ shorter.length) {pc : Pc} (later : pc ≠ .starting)
    (same : ∀ s', LocalsFit s' .trimming → LocalsFit s' pc) :
    Owned {s with buffersToWrite := shorter,pc := pc} := by
  obtain ⟨gone,some,spare⟩ := locals
  refine ⟨owned.once.moved rfl ?_,owned.current,owned.next,owned.refill,same _ ⟨gone,?_,?_⟩,
    fun starting => absurd starting later⟩
  · intro id
    have fewer := part.count_le id
    simp only [count_slots]
    omega
  · dsimp only
    omega
  · refine spare.imp_right fun ⟨lacking,two⟩ => ⟨lacking,?_⟩
    dsimp only
    omega

theorem shortened (batch : List Nat) (bound : Nat) :
    (if bound < batch.length then batch.take 2 else batch).Sublist batch ∧
      min 2 batch.length ≤ (if bound < batch.length then batch.take 2 else batch).length := by
  split_ifs
  · exact ⟨List.take_sublist 2 batch,Nat.le_of_eq List.length_take.symm⟩
  · exact ⟨List.Sublist.refl batch,Nat.min_le_right 2 _⟩

/-- The swap: the back end gives `newBuffer1` and, if the next buffer is used up,
`newBuffer2`, and takes all the buffers that were written to. -/
theorem Owned.swap {s : AsyncLogging} (owned : Owned s) (locals : LocalsFit s .swapping) {id : Nat}
    (current : s.currentBuffer = some id) : Owned {s with
      currentBuffer := s.newBuffer1
      newBuffer1 := none
      buffers := s.buffersToWrite
      buffersToWrite := s.buffers ++ [id]
      nextBuffer := if s.nextBuffer.isNone then s.newBuffer2 else s.nextBuffer
      newBuffer2 := if s.nextBuffer.isNone then none else s.newBuffer2
      batches := s.batches ++ [contents s.heap (s.buffers ++ [id])]
      pc := .trimming} := by
  obtain ⟨first,second,cleared⟩ := locals
  cases held : s.nextBuffer with
  | none =>
    have behind := List.length_pos_of_ne_nil (owned.refill held)
    refine ⟨owned.once.moved rfl ?_,emptyBuffer_some first,.inr second,
      fun lacking => absurd lacking (emptyBuffer_some second),⟨rfl,?_,.inr ⟨rfl,?_⟩⟩,by simp⟩
    · intro other
      simp only [count_slots,current,held,Option.isNone_none,if_true,Option.toList_some,
        Option.toList_none,List.count_append,List.count_nil]
      omega
    · simp
    · dsimp only
      simp only [List.length_append,List.length_singleton]
      omega
  | some next =>
    have blank := owned.next.resolve_left (by simp [held])
    rw [held] at blank
    refine ⟨owned.once.moved rfl ?_,emptyBuffer_some first,.inr blank,
      fun lacking => by simp at lacking,⟨rfl,?_,.inl second⟩,by simp⟩
    · intro other
      simp only [count_slots,current,held,Option.isNone_some,Bool.false_eq_true,if_false,
        Option.toList_some,Option.toList_none,List.count_append,List.count_nil]
      omega
    · simp

theorem dropLast_count {batch : List Nat} {last : Nat} (ends : batch.getLast? = some last) (id : Nat) :
    batch.dropLast.count id + [last].count id = batch.count id := by
  have whole := List.dropLast_append_getLast? last (by rw [ends]; rfl)
  rw [← List.count_append,whole]

theorem Owned.after {s s' : AsyncLogging} (owned : Owned s) (moved : Back s s') : Owned s' := by
  have locals := owned.locals
  cases moved with
  | run here | enter here | wait here | hurry here | wake here | leave here =>
    rw [here] at locals
    exact owned.move _ (by simp) locals
  | construct here =>
    rw [here] at locals
    obtain ⟨gone1,gone2,cleared⟩ := locals
    refine ⟨owned.once.allocate 2 rfl ?_,owned.current,?_,owned.refill,?_,by simp⟩
    · intro id
      simp only [count_slots,gone1,gone2,Option.toList_some,Option.toList_none,List.count_nil,
        List.count_singleton,beq_iff_eq]
      split_ifs <;> omega
    · exact owned.next.imp_right fun blank => emptyBuffer_reset _ (emptyBuffer_reset _ blank)
    · exact ⟨by simp [emptyBuffer,FixedBuffer.empty],by simp [emptyBuffer,FixedBuffer.empty],cleared⟩
  | swap here current =>
    rw [here] at locals
    exact owned.swap locals current
  | trim here =>
    rw [here] at locals
    obtain ⟨part,enough⟩ := shortened s.buffersToWrite 25
    exact owned.shorten locals part enough (by simp) fun _ fit => fit
  | @write i id here _ =>
    rw [here] at locals
    exact (owned.history (s.output ++ (s.heap id).data) s.appended).move (.writing (i + 1))
      (by simp) locals
  | written here _ =>
    rw [here] at locals
    exact owned.move _ (by simp) locals
  | resize here =>
    rw [here] at locals
    obtain ⟨part,enough⟩ := shortened s.buffersToWrite 2
    exact owned.shorten locals part enough (by simp) fun _ fit => fit
  | refill1 here last =>
    rw [here] at locals
    obtain ⟨gone,_,spare⟩ := locals
    refine ⟨owned.once.moved rfl ?_,owned.current,?_,owned.refill,⟨?_,?_⟩,by simp⟩
    · intro id
      have split := dropLast_count last id
      simp only [count_slots,gone,Option.toList_some,Option.toList_none,List.count_nil]
      omega
    · exact owned.next.imp_right (emptyBuffer_reset _)
    · simp [emptyBuffer,FixedBuffer.empty]
    · refine spare.imp (emptyBuffer_reset _) fun ⟨lacking,two⟩ => ⟨lacking,?_⟩
      rw [List.length_dropLast]
      omega
  | keep2 here held =>
    rw [here] at locals
    exact owned.move _ (by simp) ⟨locals.1,locals.2.resolve_right fun lacking => held lacking.1⟩
  | refill2 here lacking last =>
    rw [here] at locals
    refine ⟨owned.once.moved rfl ?_,owned.current,?_,owned.refill,⟨?_,?_⟩,by simp⟩
    · intro id
      have split := dropLast_count last id
      simp only [count_slots,lacking,Option.toList_some,Option.toList_none,List.count_nil]
      omega
    · exact owned.next.imp_right (emptyBuffer_reset _)
    · exact emptyBuffer_reset _ locals.1
    · simp [emptyBuffer,FixedBuffer.empty]
  | clear here =>
    rw [here] at locals
    refine ⟨owned.once.moved rfl ?_,owned.current,owned.next,owned.refill,
      ⟨locals.1,locals.2,rfl⟩,by simp⟩
    intro id
    simp only [count_slots,List.count_nil]
    omega

theorem Owned.step {s : AsyncLogging} (owned : Owned s) {action : Action}
    {result : Except Crash AsyncLogging} (stepped : step s action = some result) :
    ∃ s', result = .ok s' ∧ Owned s' := by
  have inverted := step_cases stepped
  cases action with
  | start =>
    obtain ⟨here,rfl⟩ := inverted
    have locals := owned.locals
    rw [here] at locals
    exact ⟨_,rfl,owned.once,owned.current,owned.next,owned.refill,locals,fun _ => rfl⟩
  | append logline =>
    obtain ⟨_,small,rfl⟩ := inverted
    exact owned.append small
  | stop =>
    obtain ⟨_,⟨_,later⟩,rfl⟩ := inverted
    exact ⟨_,rfl,owned.once,owned.current,owned.next,owned.refill,owned.locals,
      fun starting => absurd starting later⟩
  | back =>
    obtain ⟨s',rfl,moved⟩ := owned.back inverted
    exact ⟨s',rfl,owned.after moved⟩

theorem reachable_owned {s : AsyncLogging} (reached : Reachable Steps init s) : Owned s := by
  apply reached.invariant Owned init_owned
  intro s action s' owned stepped
  obtain ⟨_,same,held⟩ := owned.step stepped
  cases same
  exact held

/-- The ownership of the buffers, and that no step ends the program. -/
theorem buffers_owned {s : AsyncLogging} (reached : Reachable Steps init s) :
    s.currentBuffer ≠ none ∧ (∀ id, s.nextBuffer = some id → (s.heap id).data = []) ∧
      (s.nextBuffer = none → s.buffers ≠ []) ∧ (slots s).Nodup ∧
        ∀ action crash, step s action ≠ some (.error crash) := by
  have owned := reachable_owned reached
  refine ⟨owned.current,?_,owned.refill,owned.once.nodup,?_⟩
  · intro id held
    have blank := owned.next.resolve_left (by simp [held])
    simpa [held,emptyBuffer] using blank
  · intro action crash stepped
    obtain ⟨_,same,_⟩ := owned.step stepped
    cases same

/-- A message comes while the back end waits, and one when it writes. -/
def sampleActions : List Action :=
  [.start,.back,.back,.back,.back,.append [65],.back,.back,.append [66],.back,.back,.back,.back]

theorem buffers_owned_sample : ∃ s, perform next init sampleActions = some s ∧ s.pc = .recycling1 ∧
    (slots s).Nodup :=
  ⟨_,rfl,rfl,(buffers_owned ⟨sampleActions,perform_run next_steps rfl⟩).2.2.2.1⟩

end Deon.Logging
