import Deon.Library.Run
import Deon.Logging.FileUtil
import Mathlib.Data.List.Forall2

/-! `LogFile`: records that are appended to a stdio stream, which is flushed behind every so many
of them. What stdio has accepted is in the file as far as it was written out. -/
namespace Deon.Logging
open Library

/-- A stream that was opened for appending: the bytes that it has accepted, and how many of them are
in the file. -/
structure Stream where
  accepted : Bytes
  written : Nat
  inside : written ≤ accepted.length

namespace Stream

def disk (s : Stream) : Bytes := s.accepted.take s.written

/-- More bytes are accepted; behind the call the file reaches this far, if it can. -/
def take (s : Stream) (bytes : Bytes) (reached : Nat) : Stream where
  accepted := s.accepted ++ bytes
  written := max s.written (min reached (s.accepted ++ bytes).length)
  inside := Nat.max_le.mpr
    ⟨Nat.le_trans s.inside (by simp),Nat.min_le_right ..⟩

/-- `fflush`, which writes everything out or fails with the file that long. -/
def flush (s : Stream) : Option Nat → Stream
  | none => s.take [] s.accepted.length
  | some reached => s.take [] reached

end Stream

structure LogFile where
  flushEveryN : Int
  count : Int
  stream : Stream

/-- The answers of stdio to one call: those of `fwrite_unlocked`, how far the file then reaches, and
what a flush does. -/
structure Stdio where
  fwrites : List FwriteResult
  spilled : Nat
  flushed : Option Nat
  deriving DecidableEq, Repr

namespace LogFile

def construct (flushEveryN : Int32) : LogFile := ⟨flushEveryN.toInt,0,⟨[],0,Nat.le_refl _⟩⟩

def disk (f : LogFile) : Bytes := f.stream.disk

def flush (f : LogFile) (io : Stdio) : LogFile := {f with stream := f.stream.flush io.flushed}

/-- `LogFile::append`; none while a call of `fwrite_unlocked` has not returned. -/
def append (f : LogFile) (logline : Bytes) (io : Stdio) : Option LogFile :=
  match fileAppend logline io.fwrites with
  | (.goes _,_) => none
  | (.returns out,_) =>
    let f := {f with stream := f.stream.take out.accepted io.spilled,count := f.count + 1}
    some (if f.count ≥ f.flushEveryN then ({f with count := 0} : LogFile).flush io else f)

inductive Call
  | append (logline : Bytes) (io : Stdio)
  | flush (io : Stdio)

def step (f : LogFile) : Call → Option LogFile
  | .append logline io => f.append logline io
  | .flush io => some (f.flush io)

def Steps (f : LogFile) (call : Call) (f' : LogFile) : Prop := f.step call = some f'

def Call.io : Call → Stdio
  | .append _ io | .flush io => io

/-- The records of these calls, with the results of the `fwrite_unlocked` that each one gets. -/
def appends (calls : List Call) : List (Bytes × List FwriteResult) :=
  calls.filterMap fun
    | .append logline io => some (logline,io.fwrites)
    | .flush _ => none

end LogFile

section

variable {s : Stream} {bytes logline : Bytes} {reached : Nat}

theorem Stream.disk_prefix (s : Stream) : s.disk <+: s.accepted := List.take_prefix _ _

theorem Stream.take_disk (s : Stream) (bytes : Bytes) (reached : Nat) :
    s.disk <+: (s.take bytes reached).disk := by
  have inside := s.inside
  have shorter : s.disk = (s.accepted ++ bytes).take s.written := by
    rw [List.take_append_of_le_length inside]
    rfl
  rw [shorter]
  exact List.take_prefix_take_left (Nat.le_max_left ..)

theorem Stream.flush_disk (s : Stream) (result : Option Nat) : s.disk <+: (s.flush result).disk := by
  cases result <;> exact s.take_disk _ _

theorem Stream.flush_accepted (s : Stream) (result : Option Nat) :
    (s.flush result).accepted = s.accepted := by
  cases result <;> exact List.append_nil _

theorem Stream.flush_works (s : Stream) : (s.flush none).disk = s.accepted := by
  have inside := s.inside
  have whole : max s.written (min s.accepted.length (s.accepted ++ ([] : Bytes)).length) =
      s.accepted.length := by
    rw [List.append_nil,Nat.min_self]
    exact Nat.max_eq_right inside
  show (s.accepted ++ []).take _ = s.accepted
  rw [List.append_nil]
  exact List.take_of_length_le (Nat.le_of_eq whole.symm)

end

namespace LogFile

variable {n : Int32} {f f' : LogFile} {earlier : List (Bytes × List FwriteResult)}
  {logline : Bytes} {io : Stdio}

/-- What `append` does to the stream, and when it flushes. -/
theorem append_cases (appended : f.append logline io = some f') :
    ∃ part, Accepts io.fwrites logline part ∧
      f' = if f.count + 1 ≥ f.flushEveryN then
          ({f with stream := f.stream.take part io.spilled,count := 0} : LogFile).flush io
        else {f with stream := f.stream.take part io.spilled,count := f.count + 1} := by
  unfold append at appended
  split at appended
  · cases appended
  · rename_i out left returned
    exact ⟨out.accepted,fileAppend_accepts returned,(Option.some.inj appended).symm⟩

/-- The parts of these records that stdio has accepted. -/
def Parts (parts : List Bytes) (earlier : List (Bytes × List FwriteResult)) : Prop :=
  List.Forall₂ (fun part append => Accepts append.2 append.1 part) parts earlier

theorem Parts.whole {parts : List Bytes} (held : Parts parts earlier)
    (all : ∀ append ∈ earlier, ∀ result ∈ append.2, result.count ≠ 0) :
    parts = earlier.map Prod.fst := by
  induction held with
  | nil => rfl
  | cons first rest ih =>
    obtain ⟨here,later⟩ := List.forall_mem_cons.mp all
    rw [List.map_cons,first.whole here,ih later]

/-- What these records have become: all but the last `count_` are in the file. -/
structure Window (n : Int32) (earlier : List (Bytes × List FwriteResult)) (f : LogFile) : Prop where
  every : f.flushEveryN = n.toInt
  counted : 0 ≤ f.count ∧ (f.count = 0 ∨ f.count < n.toInt)
  parts : ∃ older recent : List Bytes,
    Parts (older ++ recent) earlier ∧
      f.stream.accepted = older.flatten ++ recent.flatten ∧ recent.length = f.count ∧
        older.flatten <+: f.disk

theorem construct_window (n : Int32) : Window n [] (construct n) where
  every := rfl
  counted := ⟨Int.le_refl _,.inl rfl⟩
  parts := ⟨[],[],.nil,rfl,rfl,List.nil_prefix⟩

theorem Window.append (window : Window n earlier f) (flushes : io.flushed = none)
    (appended : f.append logline io = some f') :
    Window n (earlier ++ [(logline,io.fwrites)]) f' := by
  obtain ⟨every,counted,older,recent,parts,accepted,length,inside⟩ := window
  obtain ⟨part,accepts,rfl⟩ := append_cases appended
  have longer : Parts (older ++ recent ++ [part]) (earlier ++ [(logline,io.fwrites)]) :=
    List.rel_append parts (.cons accepts .nil)
  split
  · rename_i full
    refine ⟨every,⟨Int.le_refl _,.inl rfl⟩,older ++ recent ++ [part],[],?_,?_,rfl,?_⟩
    · rwa [List.append_nil]
    · simp [flush,flushes,Stream.flush_accepted,Stream.take,accepted]
    · have works : (({f with stream := f.stream.take part io.spilled,count := 0} : LogFile).flush
          io).disk = (f.stream.take part io.spilled).accepted := by
        rw [flush,flushes]
        exact Stream.flush_works _
      rw [works]
      simp [Stream.take,accepted]
  · rename_i more
    refine ⟨every,⟨?_,.inr ?_⟩,older,recent ++ [part],?_,?_,?_,?_⟩
    · dsimp only
      omega
    · dsimp only
      omega
    · rwa [← List.append_assoc]
    · simp [Stream.take,accepted]
    · simp [length]
    · exact inside.trans (f.stream.take_disk part io.spilled)

theorem Window.flush (window : Window n earlier f) (io : Stdio) : Window n earlier (f.flush io) := by
  obtain ⟨every,counted,older,recent,parts,accepted,length,inside⟩ := window
  exact ⟨every,counted,older,recent,parts,(f.stream.flush_accepted _).trans accepted,length,
    inside.trans (f.stream.flush_disk _)⟩

theorem Window.run {calls : List Call} (run : Run Steps f calls f')
    (flushes : ∀ call ∈ calls, call.io.flushed = none) (window : Window n earlier f) :
    Window n (earlier ++ appends calls) f' := by
  induction run generalizing earlier with
  | nil => simpa [appends] using window
  | @cons f middle f' call calls first rest ih =>
    obtain ⟨works,later⟩ := List.forall_mem_cons.mp flushes
    cases call with
    | append logline io =>
      have next := ih later (window.append works first)
      rwa [List.append_assoc] at next
    | flush io =>
      obtain rfl := Option.some.inj first
      exact ih later (window.flush io)

/-- Whatever stdio accepts and writes out by itself, as long as its flushes work: the counter stays
in its range, and what is in the file is a prefix of what was accepted. That is of each record what
`append` handed over, and the records themselves if no call took nothing; only the last ones, fewer
than `flushEveryN`, may be missing in the file. -/
theorem unflushed_few {calls : List Call} (run : Run Steps (construct n) calls f)
    (flushes : ∀ call ∈ calls, call.io.flushed = none) :
    (0 ≤ f.count ∧ f.count + 1 < 2^31) ∧ f.disk <+: f.stream.accepted ∧
      ∃ older recent : List Bytes, Parts (older ++ recent) (appends calls) ∧
        ((∀ append ∈ appends calls, ∀ result ∈ append.2, result.count ≠ 0) →
          older ++ recent = (appends calls).map Prod.fst) ∧
        f.stream.accepted = older.flatten ++ recent.flatten ∧ older.flatten <+: f.disk ∧
        (recent = [] ∨ (recent.length : Int) < n.toInt) := by
  obtain ⟨every,counted,older,recent,parts,accepted,length,inside⟩ :=
    (construct_window n).run run flushes
  have fits := n.toInt_lt
  refine ⟨⟨counted.1,by omega⟩,f.stream.disk_prefix,older,recent,parts,parts.whole,accepted,inside,?_⟩
  rcases counted.2 with none | few
  · exact .inl (List.eq_nil_of_length_eq_zero (by omega))
  · exact .inr (by omega)

/-- Every second record is flushed; the second one is taken in two calls. -/
def sampleCalls : List Call :=
  [.append [65,66] ⟨[⟨2,false⟩],0,none⟩,.append [67,68] ⟨[⟨1,false⟩,⟨5,false⟩],1,none⟩,
    .append [69] ⟨[⟨1,false⟩],3,none⟩]

theorem unflushed_few_sample : ∃ f, perform step (construct 2) sampleCalls = some f ∧
    ∃ older recent : List Bytes, older ++ recent = [[65,66],[67,68],[69]] ∧
      f.stream.accepted = older.flatten ++ recent.flatten ∧ older.flatten <+: f.disk ∧
      recent.length < 2 := by
  have returns : (perform step (construct 2) sampleCalls).isSome = true := by decide
  obtain ⟨f,done⟩ := Option.isSome_iff_exists.mp returns
  obtain ⟨_,_,older,recent,_,whole,accepted,inside,few⟩ :=
    unflushed_few (perform_run (fun _ _ _ stepped => stepped) done) (by simp [sampleCalls,Call.io])
  refine ⟨f,done,older,recent,whole (by simp [sampleCalls,appends]),accepted,inside,?_⟩
  rcases few with rfl | few
  · exact Nat.two_pos
  · exact Int.ofNat_lt.mp few

end LogFile

end Deon.Logging
