import Deon.Http.Header
import Deon.Library.Fallible

/-! The positions of `parseRequestHeader` are locals that begin at zero in every call, whatever
state the automaton resumes in. Each is behind the byte that is looked at, and the two ranges that
a turn copies are in order. -/
namespace Deon.Http

/-- The turns of the loop: where its condition is tested, with which locals. -/
inductive Scans (buffer : Bytes) (hState : HeaderParseState) (request : HttpRequest) :
    Nat → HeaderScan → Prop
  | start : Scans buffer hState request 0 ⟨hState,request,false,0,0,0,0,0⟩
  | next {i : Nat} {scan scan' : HeaderScan} {c : UInt8} (reached : Scans buffer hState request i scan)
      (running : scan.finish = false) (byte : buffer[i]? = some c)
      (turn : scanStep buffer i c scan = .ok (.next scan')) : Scans buffer hState request (i + 1) scan'

/-- The turn copies a key and a value out of the buffer. -/
def Builds (buffer : Bytes) (i : Nat) (scan : HeaderScan) : Prop :=
  scan.finish = false ∧ scan.hState = .cr ∧ buffer[i]? = some lf

/-- No position is behind `i`. -/
structure Within (i : Nat) (scan : HeaderScan) : Prop where
  keyStart : scan.keyStart ≤ i
  keyEnd : scan.keyEnd ≤ i
  valueStart : scan.valueStart ≤ i
  valueEnd : scan.valueEnd ≤ i
  readLinePos : scan.readLinePos ≤ i

variable {buffer : Bytes} {hState : HeaderParseState} {request : HttpRequest} {i : Nat}
  {scan scan' : HeaderScan} {c : UInt8}

theorem Within.later (within : Within i scan) : Within (i + 1) scan :=
  ⟨by have := within.keyStart; omega,by have := within.keyEnd; omega,
    by have := within.valueStart; omega,by have := within.valueEnd; omega,
    by have := within.readLinePos; omega⟩

theorem Within.turn (within : Within i scan) (turn : scanStep buffer i c scan = .ok (.next scan')) :
    Within (i + 1) scan' := by
  have later := within.later
  obtain ⟨a,b,d,e,f⟩ := later
  unfold scanStep at turn
  cases here : scan.hState with
  | cr =>
    simp only [here] at turn
    split_ifs at turn
    · obtain ⟨key,_,turn⟩ := Library.bind_success turn
      obtain ⟨value,_,turn⟩ := Library.bind_success turn
      cases turn
      exact ⟨a,b,d,e,Nat.le_succ i⟩
    · cases turn
  | _ =>
    simp only [here] at turn
    split_ifs at turn <;> cases turn <;> constructor <;> first | assumption | simp

/-- What holds whenever the condition of the loop is tested. -/
structure AtTurn (buffer : Bytes) (request : HttpRequest) (i : Nat) (scan : HeaderScan) : Prop where
  inside : i ≤ buffer.length
  within : Within i scan
  delimits : scan.finish = true ∨ ∃ r, Delimits request (buffer.take i) scan r

theorem Scans.scanned (reached : Scans buffer hState request i scan) :
    AtTurn buffer request i scan := by
  induction reached with
  | start =>
    refine ⟨Nat.zero_le _,⟨le_rfl,le_rfl,le_rfl,le_rfl,le_rfl⟩,.inr ⟨Reading.fresh hState request.headers,?_⟩⟩
    rw [List.take_zero]
    exact Delimits.fresh request hState
  | @next i scan scan' c reached running byte turn ih =>
    obtain ⟨inside,same⟩ := List.getElem?_eq_some_iff.mp byte
    refine ⟨inside,ih.within.turn turn,?_⟩
    obtain ⟨r,delimits⟩ := ih.delimits.resolve_left (by simp [running])
    have one := scanStep_reads delimits c (buffer.drop (i + 1))
    have split : buffer.take i ++ c :: buffer.drop (i + 1) = buffer := by
      rw [← same,List.getElem_cons_drop,List.take_append_drop]
    rw [split,List.length_take,Nat.min_eq_left ih.inside,turn] at one
    cases progress : r.step c with
    | next r' =>
      rw [progress] at one
      obtain ⟨_,same',delimits'⟩ := one
      cases same'
      rw [List.take_succ_eq_append_getElem inside,same]
      exact .inr ⟨r',delimits'⟩
    | failed state headers =>
      rw [progress] at one
      obtain ⟨_,same',_⟩ := one
      cases same'
    | done headers =>
      rw [progress] at one
      obtain ⟨_,same',finished,_⟩ := one
      cases same'
      exact .inl finished

theorem Scans.builds (reached : Scans buffer hState request i scan) (builds : Builds buffer i scan) :
    (scan.keyStart ≤ scan.keyEnd ∧ scan.keyEnd ≤ i) ∧
      scan.valueStart ≤ scan.valueEnd ∧ scan.valueEnd ≤ i := by
  obtain ⟨running,state,_⟩ := builds
  have scanned := reached.scanned
  obtain ⟨r,delimits⟩ := scanned.delimits.resolve_left (by simp [running])
  have here : r.hState = .cr := delimits.state.symm.trans state
  obtain ⟨keyOrdered,_,_⟩ := delimits.named (.inr (.inr here))
  obtain ⟨valueOrdered,_,_⟩ := delimits.valued here
  exact ⟨⟨keyOrdered,scanned.within.keyEnd⟩,valueOrdered,scanned.within.valueEnd⟩

theorem scanLoop_scans (rest : Bytes) : ∀ {i : Nat} {scan : HeaderScan} {j : Nat} {last : HeaderScan},
    buffer.drop i = rest → Scans buffer hState request i scan →
      scanLoop buffer rest i scan = .ok (.stopped j last) → Scans buffer hState request j last := by
  induction rest with
  | nil =>
    intro i scan j last _ reached stopped
    cases stopped
    exact reached
  | cons c rest ih =>
    intro i scan j last left reached stopped
    have byte : buffer[i]? = some c := by
      rw [← List.head?_drop,left]
      rfl
    have later : buffer.drop (i + 1) = rest := by
      rw [← List.tail_drop,left]
      rfl
    rw [scanLoop] at stopped
    split_ifs at stopped with finished
    · cases stopped
      exact reached
    · obtain ⟨scanned,turn,stopped⟩ := Library.bind_success stopped
      cases scanned with
      | next scan' => exact ih later (.next reached (by simpa using finished) byte turn) stopped
      | failed scan' => cases stopped

theorem substr_suffix {text cut : Bytes} {pos : Nat} (taken : substr text pos = .ok cut) :
    cut <:+ text := by
  by_cases inside : pos ≤ text.length
  · rw [substr_drop inside] at taken
    cases taken
    exact List.drop_suffix _ _
  · rw [substr,if_neg inside] at taken
    cases taken

/-- What a call leaves of the buffer, where the automaton fails and where it does not. -/
theorem parseRequestHeader_rest {state : HeaderState} {rest : Bytes}
    {hState' : HeaderParseState} {request' : HttpRequest}
    (parsed : parseRequestHeader buffer hState request = .ok (state,rest,hState',request')) :
    (state = .error ∧ rest = buffer) ∨ (state ≠ .error ∧ rest <:+ buffer) := by
  unfold parseRequestHeader at parsed
  obtain ⟨ended,_,parsed⟩ := Library.bind_success parsed
  cases ended with
  | failed scan =>
    cases parsed
    exact .inl ⟨rfl,rfl⟩
  | stopped i scan =>
    dsimp only at parsed
    split_ifs at parsed
    all_goals
      obtain ⟨cut,taken,done⟩ := Library.bind_success parsed
      cases done
      exact .inr ⟨nofun,substr_suffix taken⟩

/-- In every state that a call may resume in: the positions of each turn, the ranges that it copies,
the positions at which the buffer is cut at the end, and what is left of the buffer. -/
theorem parseRequestHeader_in_bounds (buffer : Bytes) (hState : HeaderParseState)
    (request : HttpRequest) (small : buffer.length < 2^31) :
    (∀ i scan, Scans buffer hState request i scan →
      i < 2^31 ∧ Within i scan ∧ (Builds buffer i scan →
        (scan.keyStart ≤ scan.keyEnd ∧ scan.keyEnd ≤ i) ∧
          scan.valueStart ≤ scan.valueEnd ∧ scan.valueEnd ≤ i)) ∧
    (∀ i last, scanLoop buffer buffer 0 ⟨hState,request,false,0,0,0,0,0⟩ = .ok (.stopped i last) →
      i ≤ buffer.length ∧ last.readLinePos ≤ buffer.length) ∧
    ∃ state rest hState' request',
      parseRequestHeader buffer hState request = .ok (state,rest,hState',request') ∧
        (state = .error → rest = buffer) ∧ (state ≠ .error → rest <:+ buffer) := by
  refine ⟨?_,?_,?_⟩
  · intro i scan reached
    have scanned := reached.scanned
    exact ⟨Nat.lt_of_le_of_lt scanned.inside small,scanned.within,reached.builds⟩
  · intro i last stopped
    have scanned := (scanLoop_scans buffer List.drop_zero Scans.start stopped).scanned
    exact ⟨scanned.inside,scanned.within.readLinePos.trans scanned.inside⟩
  · have parsed := parseRequestHeader_reads buffer hState request
    refine ⟨_,_,_,_,parsed,?_,?_⟩
    · intro failed
      exact ((parseRequestHeader_rest parsed).resolve_right fun other => other.1 failed).2
    · intro fine
      exact ((parseRequestHeader_rest parsed).resolve_left fun other => fine other.1).2

/-- The turn that reads the line feed of a header line. -/
theorem parseRequestHeader_in_bounds_line :
    ∃ scan, Scans (bytes "a: b\r\n") .start requestInit 5 scan ∧
      Builds (bytes "a: b\r\n") 5 scan ∧ (scan.keyStart ≤ scan.keyEnd ∧ scan.keyEnd ≤ 5) ∧
      scan.valueStart ≤ scan.valueEnd ∧ scan.valueEnd ≤ 5 := by
  have reached : Scans (bytes "a: b\r\n") .start requestInit 5
      ⟨.cr,requestInit,false,0,1,3,4,0⟩ :=
    .next (.next (.next (.next (.next .start rfl rfl rfl) rfl rfl rfl) rfl rfl rfl) rfl rfl rfl)
      rfl rfl rfl
  have builds : Builds (bytes "a: b\r\n") 5 ⟨.cr,requestInit,false,0,1,3,4,0⟩ := ⟨rfl,rfl,rfl⟩
  have bounds := (parseRequestHeader_in_bounds (bytes "a: b\r\n") .start requestInit (by decide)).1
  exact ⟨_,reached,builds,(bounds 5 _ reached).2.2 builds⟩

end Deon.Http
