import Deon.Http.Served
import Deon.Library.Fallible

/-! `main` up to its loop: the options that `getopt` finds among the arguments, what they set, the
loops and threads that are made, and the listening descriptor. -/
namespace Deon.Net
open Library Http

/-- What `getopt` returns for `"t:p:l:r:hv"`, with `optarg` where the option takes one. -/
inductive Opt
  | threads (optarg : Bytes)
  | port (optarg : Bytes)
  | log (optarg : Bytes)
  | root (optarg : Bytes)
  | help
  | version
  | unknown
  deriving DecidableEq, Repr

abbrev hyphen : UInt8 := 45

/-- The option of this letter, if it takes an argument. -/
def takesArgument : UInt8 → Option (Bytes → Opt)
  | 116 => some .threads
  | 112 => some .port
  | 108 => some .log
  | 114 => some .root
  | _ => none

def flagOf : UInt8 → Opt
  | 104 => .help
  | 118 => .version
  | _ => .unknown

/-- The letters behind a hyphen: the options among them, and the one that takes the next argument. -/
def cluster : Bytes → List Opt × Option (Bytes → Opt)
  | [] => ([],none)
  | letter :: letters =>
    match takesArgument letter with
    | some option => if letters = [] then ([],some option) else ([option letters],none)
    | none => (flagOf letter :: (cluster letters).1,(cluster letters).2)

/-- The options in the arguments, up to `"--"`, where one may still be without its own. What is no
option is passed over, as `getopt` moves it behind the others. -/
def options (waits : Option (Bytes → Opt)) : List Bytes → List Opt
  | [] => if waits.isSome then [.unknown] else []
  | argument :: later =>
    match waits with
    | some option => option argument :: options none later
    | none =>
      if argument = [hyphen,hyphen] then []
      else if argument.head? = some hyphen ∧ argument.tail ≠ [] then
        (cluster argument.tail).1 ++ options (cluster argument.tail).2 later
      else options none later

def getopt (argv : List Bytes) : List Opt := options none argv

/-- `atoi`, which is undefined for a number that no `int` has. -/
def atoi (s : Bytes) : Option Int32 :=
  match stoi s with
  | .ok value => some (Int32.ofInt value)
  | .error .stoiInvalidArgument => some 0
  | .error _ => none

structure Settings where
  threadNum : Int32
  port : Int32
  root : Bytes
  logPath : Bytes
  deriving DecidableEq, Repr

def Settings.start : Settings := ⟨4,80,[],bytes "./deon.log"⟩

/-- What `main` does with the root: `root[root.size() - 1]` is undefined for the empty one. -/
def closeRoot (optarg : Bytes) : Option Bytes :=
  match optarg.getLast? with
  | none => none
  | some last => some (if last ≠ slash then optarg ++ [slash] else optarg)

/-- What ends `main` among the options: it has shown its usage or version, or its behaviour is
undefined. -/
inductive Halt
  | shown
  | undefined
  deriving DecidableEq, Repr

def orUndefined {α : Type} : Option α → Except Halt α
  | some value => .ok value
  | none => .error .undefined

def setOption (settings : Settings) : Opt → Except Halt Settings
  | .threads optarg => (orUndefined (atoi optarg)).map fun n => {settings with threadNum := n}
  | .port optarg => (orUndefined (atoi optarg)).map fun n => {settings with port := n}
  | .log optarg => .ok {settings with logPath := optarg}
  | .root optarg => (orUndefined (closeRoot optarg)).map fun root => {settings with root := root}
  | .help | .version => .error .shown
  | .unknown => .ok settings

/-- What ends `main` behind the options: `abort()` or an assertion, a call that never returns,
undefined behaviour. -/
inductive Stop
  | aborted
  | blocked
  | undefined
  deriving DecidableEq, Repr

/-- What `pthread_create` returns for the logging thread, and whether `fopen` opens its file. -/
structure LogCalls where
  create : Int
  opened : Bool

/-- What `epoll_create1` and `eventfd` return for a loop. -/
structure LoopCalls where
  epoll : Int
  eventfd : Int

/-- What `pthread_create` returns for an I/O thread, with the calls for its loop. -/
structure ThreadCalls where
  create : Int
  loop : LoopCalls

/-- What the system calls return that decide what becomes of `main`: `watch` is that of `epoll_ctl`
for the listening descriptor. -/
structure Calls where
  log : LogCalls
  mainLoop : LoopCalls
  socket : Int
  setsockopt : Int
  bind : Int
  listen : Int
  getfl : Int
  setfl : Int
  threads : Nat → ThreadCalls
  watch : Int

/-- The first `LOG`, which starts the logging thread: that of a failed creation waits for the
`pthread_once` that it is made in, and the thread calls `setbuffer` also when it has no file. -/
def startLogging (logPath : Bytes) (calls : LogCalls) : Except Stop Unit :=
  if logPath.length ≤ 1 then .error .aborted
  else if calls.create ≠ 0 then .error .blocked
  else if calls.opened = false then .error .undefined
  else .ok ()

/-- What is logged before it ends `main`. -/
def logged (log : Except Stop Unit) (stop : Stop) : Except Stop Unit := log >>= fun _ => .error stop

/-- The constructor of `EventLoop`, which goes on without its `epoll` descriptor. -/
def constructLoop (log : Except Stop Unit) (calls : LoopCalls) : Except Stop Unit :=
  (if calls.epoll < 0 then log else .ok ()) >>= fun _ =>
    if calls.eventfd < 0 then logged log .aborted else .ok ()

/-- Without its thread `startLoop` waits for good. -/
def startLoop (log : Except Stop Unit) (calls : ThreadCalls) : Except Stop Unit :=
  if calls.create ≠ 0 then logged log .blocked else constructLoop log calls.loop

def startThreads (log : Except Stop Unit) (calls : Nat → ThreadCalls) : Nat → Except Stop Unit
  | 0 => .ok ()
  | i + 1 => do
    startThreads log calls i
    startLoop log (calls i)

def socketBindListen (port : Int) (calls : Calls) : Int :=
  if port < 0 ∨ 65535 < port then -1
  else if calls.socket = -1 then -1
  else if calls.setsockopt = -1 then -1
  else if calls.bind = -1 then -1
  else if calls.listen < 0 then -1
  else calls.socket

/-- `fcntl` fails for a descriptor that is none. -/
def setSocketNonBlocking (fd : Int) (calls : Calls) : Int :=
  if fd < 0 ∨ calls.getfl = -1 then -1 else if calls.setfl = -1 then -1 else 0

/-- The constructor of the server and its `start`. -/
def startServer (log : Except Stop Unit) (settings : Settings) (calls : Calls) : Except Stop Int :=
  let listenFd := socketBindListen settings.port.toInt calls
  (if setSocketNonBlocking listenFd calls < 0 then logged log .aborted
    else startThreads log calls.threads settings.threadNum.toInt.toNat).map fun _ => listenFd

/-- `main` in `mainLoop.loop()`: `watched` when the listening descriptor is registered; `log` is what
the first `LOG` comes to, at the latest that of the first connection. -/
structure Running where
  settings : Settings
  listenFd : Int
  watched : Bool
  log : Except Stop Unit

inductive Outcome
  | halts (halt : Halt)
  | stops (stop : Stop)
  | serves (running : Running)

/-- `main` behind the options. -/
def serve (settings : Settings) (calls : Calls) : Except Stop Running := do
  let log := startLogging settings.logPath calls.log
  constructLoop log calls.mainLoop
  let listenFd ← startServer log settings calls
  return ⟨settings,listenFd,0 ≤ calls.mainLoop.epoll ∧ 0 ≤ calls.watch,log⟩

def Outcome.ofServe : Except Stop Running → Outcome
  | .error stop => .stops stop
  | .ok running => .serves running

def main (argv : List Bytes) (calls : Calls) : Outcome :=
  match (getopt argv).foldlM setOption Settings.start with
  | .error halt => .halts halt
  | .ok settings => .ofServe (serve settings calls)

/-- How an option ends `main`, if it does. -/
def ends : Opt → Option Halt
  | .threads optarg | .port optarg => if (atoi optarg).isNone then some .undefined else none
  | .root optarg => if optarg = [] then some .undefined else none
  | .help | .version => some .shown
  | .log _ | .unknown => none

def threadsOf : Opt → Option Int32
  | .threads optarg => atoi optarg
  | _ => none

def portOf : Opt → Option Int32
  | .port optarg => atoi optarg
  | _ => none

def rootOf : Opt → Option Bytes
  | .root optarg => closeRoot optarg
  | _ => none

def logOf : Opt → Option Bytes
  | .log optarg => some optarg
  | _ => none

/-- What the last of the options that tell something tells. -/
def latest {α : Type} (told : Opt → Option α) (otherwise : α) (opts : List Opt) : α :=
  (opts.filterMap told).getLast?.getD otherwise

/-- Each setting is that of the last option for it, or as it was. -/
def Settings.latest (settings : Settings) (opts : List Opt) : Settings where
  threadNum := Net.latest threadsOf settings.threadNum opts
  port := Net.latest portOf settings.port opts
  root := Net.latest rootOf settings.root opts
  logPath := Net.latest logOf settings.logPath opts

theorem latest_cons {α : Type} (told : Opt → Option α) (otherwise : α) (one : Opt) (opts : List Opt) :
    latest told otherwise (one :: opts) = latest told ((told one).getD otherwise) opts := by
  unfold latest
  cases said : told one with
  | none => rw [List.filterMap_cons_none said,Option.getD_none]
  | some value => rw [List.filterMap_cons_some said,List.getLast?_cons,Option.getD_some,Option.getD_some]

/-- What is said last was said by one of the options. -/
theorem latest_said {α : Type} (told : Opt → Option α) (otherwise : α) (opts : List Opt) :
    latest told otherwise opts = otherwise ∨ ∃ one ∈ opts, told one = some (latest told otherwise opts) := by
  unfold latest
  cases last : (opts.filterMap told).getLast? with
  | none => exact .inl rfl
  | some value => exact .inr (List.mem_filterMap.mp (List.mem_of_getLast? last))

theorem closeRoot_some {optarg : Bytes} (some : optarg ≠ []) : ∃ root, closeRoot optarg = Option.some root := by
  unfold closeRoot
  rw [List.getLast?_eq_some_getLast some]
  exact ⟨_,rfl⟩

theorem setOption_ends {settings : Settings} {one : Opt} {halt : Halt} (ended : ends one = some halt) :
    setOption settings one = .error halt := by
  cases one with
  | threads optarg | port optarg =>
    obtain ⟨none,same⟩ := Option.ite_none_right_eq_some.mp ended
    cases same
    rw [setOption,Option.isNone_iff_eq_none.mp none]
    rfl
  | root optarg =>
    obtain ⟨rfl,same⟩ := Option.ite_none_right_eq_some.mp ended
    cases same
    rfl
  | help | version =>
    cases ended
    rfl
  | log | unknown => cases ended

theorem setOption_goes {one : Opt} (goes : ends one = none) (settings : Settings) :
    setOption settings one = .ok (settings.latest [one]) := by
  cases one with
  | threads optarg | port optarg =>
    cases read : atoi optarg with
    | none => simp [ends,read] at goes
    | some n => simp [setOption,Settings.latest,latest,threadsOf,portOf,rootOf,logOf,read,orUndefined,Except.map]
  | root optarg =>
    have given : optarg ≠ [] := by
      rintro rfl
      cases goes
    obtain ⟨root,closed⟩ := closeRoot_some given
    simp [setOption,Settings.latest,latest,threadsOf,portOf,rootOf,logOf,closed,orUndefined,Except.map]
  | help | version => cases goes
  | log | unknown => rfl

theorem Settings.latest_cons (settings : Settings) (one : Opt) (opts : List Opt) :
    settings.latest (one :: opts) = (settings.latest [one]).latest opts := by
  unfold Settings.latest
  simp only [Net.latest_cons]
  rfl

/-- The first option that ends `main` does so, and else the last one for each setting stands. -/
theorem fold_options (opts : List Opt) (settings : Settings) : opts.foldlM setOption settings =
    (opts.filterMap ends).head?.elim (.ok (settings.latest opts)) .error := by
  induction opts generalizing settings with
  | nil => rfl
  | cons one opts ih =>
    rw [List.foldlM_cons]
    cases ended : ends one with
    | some halt =>
      rw [setOption_ends ended,List.filterMap_cons_some ended]
      rfl
    | none =>
      rw [setOption_goes ended,List.filterMap_cons_none ended,settings.latest_cons one opts]
      exact ih _

/-- The port is one, and every call that the constructor of the server makes works. -/
structure Listens (port : Int) (calls : Calls) : Prop where
  port : 0 ≤ port ∧ port ≤ 65535
  made : 0 ≤ calls.socket ∧ calls.setsockopt ≠ -1 ∧ calls.bind ≠ -1 ∧ 0 ≤ calls.listen
  nonBlocking : calls.getfl ≠ -1 ∧ calls.setfl ≠ -1

theorem listens_iff (port : Int) (calls : Calls) :
    ¬ setSocketNonBlocking (socketBindListen port calls) calls < 0 ↔ Listens port calls := by
  constructor
  · intro fine
    unfold setSocketNonBlocking socketBindListen at fine
    split_ifs at fine <;> first | omega | exact ⟨by omega,by omega,by omega⟩
  · rintro ⟨port,made,nonBlocking⟩
    unfold setSocketNonBlocking socketBindListen
    split_ifs <;> omega

theorem listens_socket {port : Int} {calls : Calls} (listens : Listens port calls) :
    socketBindListen port calls = calls.socket := by
  obtain ⟨port,made,_⟩ := listens
  unfold socketBindListen
  split_ifs <;> omega

/-- The logging thread runs, with its file. -/
structure LogStarts (logPath : Bytes) (calls : LogCalls) : Prop where
  path : 1 < logPath.length
  created : calls.create = 0
  opened : calls.opened = true

theorem startLogging_iff (logPath : Bytes) (calls : LogCalls) :
    startLogging logPath calls = .ok () ↔ LogStarts logPath calls := by
  constructor
  · intro started
    unfold startLogging at started
    split_ifs at started with short refused closed
    exact ⟨not_le.mp short,not_not.mp refused,eq_true_of_ne_false closed⟩
  · rintro ⟨path,created,opened⟩
    rw [startLogging,if_neg (not_le.mpr path),if_neg (not_not.mpr created),opened]
    rfl

theorem logged_stops {log : Except Stop Unit} {stop : Stop} : logged log stop ≠ .ok () := by
  intro goes
  obtain ⟨_,_,stops⟩ := bind_success goes
  cases stops

/-- The loop has its `eventfd`, and where its `epoll_create1` has failed, that could be logged. -/
structure LoopMade (log : Except Stop Unit) (calls : LoopCalls) : Prop where
  logged : calls.epoll < 0 → log = .ok ()
  eventfd : 0 ≤ calls.eventfd

theorem constructLoop_iff (log : Except Stop Unit) (calls : LoopCalls) :
    constructLoop log calls = .ok () ↔ LoopMade log calls := by
  constructor
  · intro made
    obtain ⟨⟨⟩,told,opened⟩ := bind_success made
    refine ⟨fun fails => ?_,not_lt.mp fun fails => ?_⟩
    · rwa [if_pos fails] at told
    · rw [if_pos fails] at opened
      exact logged_stops opened
  · rintro ⟨told,eventfd⟩
    have polls : (if calls.epoll < 0 then log else .ok ()) = .ok () := by
      split_ifs with fails
      · exact told fails
      · rfl
    rw [constructLoop,polls,ok_bind,if_neg (not_lt.mpr eventfd)]

/-- The I/O thread runs its loop. -/
structure ThreadMade (log : Except Stop Unit) (calls : ThreadCalls) : Prop where
  created : calls.create = 0
  loop : LoopMade log calls.loop

theorem startLoop_iff (log : Except Stop Unit) (calls : ThreadCalls) :
    startLoop log calls = .ok () ↔ ThreadMade log calls := by
  constructor
  · intro made
    unfold startLoop at made
    split_ifs at made with refused
    · exact absurd made logged_stops
    · exact ⟨not_not.mp refused,(constructLoop_iff log calls.loop).mp made⟩
  · rintro ⟨created,loop⟩
    rw [startLoop,if_neg (not_not.mpr created)]
    exact (constructLoop_iff log calls.loop).mpr loop

theorem startThreads_iff (log : Except Stop Unit) (calls : Nat → ThreadCalls) (n : Nat) :
    startThreads log calls n = .ok () ↔ ∀ i < n, ThreadMade log (calls i) := by
  induction n with
  | zero => exact iff_of_true rfl nofun
  | succ n ih =>
    rw [Nat.forall_lt_succ_right,← ih,← startLoop_iff log (calls n)]
    constructor
    · intro made
      obtain ⟨⟨⟩,before,last⟩ := bind_success made
      exact ⟨before,last⟩
    · rintro ⟨before,last⟩
      rw [startThreads,before]
      exact last

theorem startServer_iff (log : Except Stop Unit) (settings : Settings) (calls : Calls) (listenFd : Int) :
    startServer log settings calls = .ok listenFd ↔ Listens settings.port.toInt calls ∧
      listenFd = calls.socket ∧
        ∀ i < settings.threadNum.toInt.toNat, ThreadMade log (calls.threads i) := by
  have listens := listens_iff settings.port.toInt calls
  rw [← startThreads_iff log calls.threads]
  constructor
  · intro made
    obtain ⟨⟨⟩,threads,rfl⟩ := map_success made
    split_ifs at threads with fails
    · exact absurd threads logged_stops
    · have fine := listens.mp fails
      exact ⟨fine,listens_socket fine,threads⟩
  · rintro ⟨fine,rfl,threads⟩
    rw [startServer,if_neg (listens.mpr fine),threads,listens_socket fine]
    rfl

/-- What the calls have made when `main` is in its loop. -/
structure Prepared (calls : Calls) (running : Running) : Prop where
  log : running.log = startLogging running.settings.logPath calls.log
  mainLoop : LoopMade running.log calls.mainLoop
  listens : Listens running.settings.port.toInt calls
  listenFd : running.listenFd = calls.socket
  threads : ∀ i < running.settings.threadNum.toInt.toNat, ThreadMade running.log (calls.threads i)
  watched : running.watched = true ↔ 0 ≤ calls.mainLoop.epoll ∧ 0 ≤ calls.watch

theorem serve_iff (settings : Settings) (calls : Calls) (running : Running) :
    serve settings calls = .ok running ↔ running.settings = settings ∧ Prepared calls running := by
  constructor
  · intro served
    obtain ⟨⟨⟩,made,later⟩ := bind_success served
    obtain ⟨listenFd,server,same⟩ := bind_success later
    cases same
    obtain ⟨listens,socket,threads⟩ := (startServer_iff _ settings calls listenFd).mp server
    exact ⟨rfl,rfl,(constructLoop_iff _ calls.mainLoop).mp made,listens,socket,threads,decide_eq_true_iff⟩
  · rintro ⟨rfl,log,mainLoop,listens,listenFd,threads,watched⟩
    obtain ⟨settings,fd,registered,told⟩ := running
    dsimp only at log mainLoop listens listenFd threads watched
    subst log listenFd
    have made := (constructLoop_iff _ calls.mainLoop).mpr mainLoop
    have server := (startServer_iff _ settings calls calls.socket).mpr ⟨listens,rfl,threads⟩
    have same : decide (0 ≤ calls.mainLoop.epoll ∧ 0 ≤ calls.watch) = registered := by
      rw [Bool.eq_iff_iff,watched,decide_eq_true_iff]
    rw [serve,made,ok_bind,server,ok_bind,same]
    rfl

theorem ofServe_serves {served : Except Stop Running} {running : Running} :
    Outcome.ofServe served = .serves running ↔ served = .ok running := by
  cases served with
  | error => exact iff_of_false nofun nofun
  | ok other => simp [Outcome.ofServe]

theorem ofServe_halts {served : Except Stop Running} {halt : Halt} :
    Outcome.ofServe served ≠ .halts halt := by
  cases served <;> exact Outcome.noConfusion

def Opt.optarg : Opt → Bytes
  | .threads optarg | .port optarg | .log optarg | .root optarg => optarg
  | _ => []

theorem takesArgument_optarg {letter : UInt8} {option : Bytes → Opt} (takes : takesArgument letter = some option)
    (argument : Bytes) : (option argument).optarg = argument := by
  unfold takesArgument at takes
  split at takes <;> cases takes <;> rfl

theorem cluster_text {letters : Bytes} (text : 0 ∉ letters) :
    (∀ one ∈ (cluster letters).1, 0 ∉ one.optarg) ∧
      ∀ option, (cluster letters).2 = some option → ∀ argument, (option argument).optarg = argument := by
  induction letters with
  | nil => simp [cluster]
  | cons letter letters ih =>
    obtain ⟨_,clear⟩ := not_or.mp (List.mem_cons.not.mp text)
    unfold cluster
    cases takes : takesArgument letter with
    | some option =>
      have given := takesArgument_optarg takes
      dsimp only
      split
      · simpa using given
      · simpa [given] using clear
    | none =>
      obtain ⟨found,waits⟩ := ih clear
      have flag : (flagOf letter).optarg = [] := by unfold flagOf; split <;> rfl
      refine ⟨?_,waits⟩
      simpa [flag] using found

theorem options_text {argv : List Bytes} (text : ∀ argument ∈ argv, 0 ∉ argument)
    {waits : Option (Bytes → Opt)}
    (given : ∀ option, waits = some option → ∀ argument, (option argument).optarg = argument) :
    ∀ one ∈ options waits argv, 0 ∉ one.optarg := by
  induction argv generalizing waits with
  | nil =>
    cases waits <;> simp [options,Opt.optarg]
  | cons argument later ih =>
    obtain ⟨clear,others⟩ := List.forall_mem_cons.mp text
    unfold options
    cases waits with
    | some option =>
      refine List.forall_mem_cons.mpr ⟨?_,ih others (by simp)⟩
      rw [given option rfl]
      exact clear
    | none =>
      dsimp only
      split_ifs
      · simp
      · have tail : 0 ∉ argument.tail := fun member => clear (List.mem_of_mem_tail member)
        obtain ⟨found,waits⟩ := cluster_text tail
        exact List.forall_mem_append.mpr ⟨found,ih others waits⟩
      · exact ih others (by simp)

theorem closeRoot_configured {optarg root : Bytes} (text : 0 ∉ optarg) (closed : closeRoot optarg = some root) :
    Configured root := by
  unfold closeRoot at closed
  split at closed
  · cases closed
  · rename_i last ends
    obtain ⟨front,rfl⟩ := List.getLast?_eq_some_iff.mp ends
    split_ifs at closed with open_
    · cases closed
      have other : (0 : UInt8) ≠ slash := by decide
      exact ⟨.inr ⟨_,rfl⟩,by simpa [other] using text⟩
    · cases closed
      exact ⟨.inr ⟨front,by rw [not_not.mp open_]⟩,text⟩

/-- For every command line and every result of the system calls: which option ends `main`; when it
comes to its loop, with which settings, threads and descriptor, and that the root is then what the
paths of the requests can be put behind; and when the first `LOG` returns with a file to write to. -/
theorem main_serves (argv : List Bytes) (text : ∀ argument ∈ argv, 0 ∉ argument) (calls : Calls) :
    (∀ halt, main argv calls = .halts halt ↔ ((getopt argv).filterMap ends).head? = some halt) ∧
    ∀ running, main argv calls = .serves running ↔
      (∀ one ∈ getopt argv, ends one = none) ∧ running.settings = Settings.start.latest (getopt argv) ∧
        Configured running.settings.root ∧ Prepared calls running ∧
        (running.log = .ok () ↔ LogStarts running.settings.logPath calls.log) := by
  have folded := fold_options (getopt argv) .start
  have configured : Configured (Settings.start.latest (getopt argv)).root := by
    rcases latest_said rootOf Settings.start.root (getopt argv) with same | ⟨one,member,said⟩
    · rw [Settings.latest,same]
      exact ⟨.inl rfl,List.not_mem_nil⟩
    · have clear := options_text text (by simp) one member
      cases one with
      | root optarg => exact closeRoot_configured clear said
      | _ => cases said
  cases ended : ((getopt argv).filterMap ends).head? with
  | some halt =>
    have halted : main argv calls = .halts halt := by
      rw [main,folded,ended]
      rfl
    rw [halted]
    refine ⟨fun other => by simp,fun running => ?_⟩
    refine iff_of_false Outcome.noConfusion fun goes => ?_
    have none := List.filterMap_eq_nil_iff.mpr goes.1
    simp [none] at ended
  | none =>
    have goes := List.filterMap_eq_nil_iff.mp (List.head?_eq_none_iff.mp ended)
    have runs : main argv calls = .ofServe (serve (Settings.start.latest (getopt argv)) calls) := by
      rw [main,folded,ended]
      rfl
    rw [runs]
    refine ⟨fun halt => iff_of_false ofServe_halts nofun,fun running => ?_⟩
    rw [ofServe_serves,serve_iff]
    constructor
    · rintro ⟨same,served⟩
      refine ⟨goes,same,same ▸ configured,served,?_⟩
      rw [served.log]
      exact startLogging_iff _ _
    · rintro ⟨_,same,_,served,_⟩
      exact ⟨same,served⟩

/-- An empty root is read in front of its first byte. -/
example (calls : Calls) : main (["-r",""].map bytes) calls = .halts .undefined := by rfl

/-- The second root is the one that counts, `-p81` has its argument in it, and `stray` is no option. -/
def sampleArgv : List Bytes := ["-r","/srv","stray","-p81","-r","www","-x","--","-h"].map bytes

/-- All calls go well. -/
def sampleCalls : Calls :=
  ⟨⟨0,true⟩,⟨3,4⟩,5,0,0,0,2,0,fun i => ⟨0,⟨(i : Int) + 6,(i : Int) + 7⟩⟩,0⟩

theorem main_serves_sample : main sampleArgv sampleCalls =
    .serves ⟨⟨4,81,bytes "www/",bytes "./deon.log"⟩,5,true,.ok ()⟩ := by
  have made : ∀ i : Nat, ThreadMade (.ok ()) (sampleCalls.threads i) := fun i =>
    ⟨rfl,fun _ => rfl,by simp only [sampleCalls]; omega⟩
  refine ((main_serves sampleArgv (by decide) sampleCalls).2 _).mpr
    ⟨by decide,by decide,⟨.inr ⟨bytes "www",by decide⟩,by decide⟩,?_,?_⟩
  · exact ⟨rfl,⟨fun _ => rfl,by decide⟩,⟨by decide,by decide,by decide⟩,rfl,fun i _ => made i,by decide⟩
  · exact iff_of_true rfl ⟨by decide,rfl,rfl⟩

/-- A log path of one letter: `main` comes to its loop, and the first connection aborts it. -/
example : main (["-l","x"].map bytes) sampleCalls =
    .serves ⟨⟨4,80,[],bytes "x"⟩,5,true,.error .aborted⟩ := by rfl

end Deon.Net
