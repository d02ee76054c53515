import Deon.Http.Header
import Deon.WritenRaw

/-! One connection: an `Http` object with its `Channel`, the entries that the
poller holds for its descriptor, and its socket. The handlers are those of
`Http.cpp` and `Channel.cpp`. What they ask of the kernel is an argument: the
results of `read`, one list for each call of `readn`; the results of `write`, one
list for each call of a `writen`; the file system; the results of `epoll_ctl`. -/
namespace Deon.Http
open Library

abbrev EventMask := BitVec 32

def epollIn : EventMask := 0x1#32
def epollPri : EventMask := 0x2#32
def epollOut : EventMask := 0x4#32
def epollRdhup : EventMask := 0x2000#32
def epollOneshot : EventMask := 0x40000000#32
def epollEt : EventMask := 0x80000000#32

def defaultExpiredTime : Nat := 2000
def defaultKeepAliveTime : Nat := 5 * 60 * 1000

inductive HttpRequestParseState
  | parseRequestLine
  | parseHeaders
  | checkContentLength
  | analysis
  | finish
  deriving DecidableEq, Repr

/-- The fields of `struct stat` that are looked at. -/
structure Stat where
  regular : Bool
  userRead : Bool
  size : Nat

/-- What stands around the connection while an event is handled. A successful
`mmap` is the memory that it maps; `below` is the memory in front of the buffer
that `handleError` sends from; `ctl` tells whether `epoll_ctl` succeeds. -/
structure Env where
  stat : Bytes → Option Stat
  opens : Bytes → Bool
  mmap : Bytes → Nat → Option (Nat → UInt8)
  below : Nat → UInt8
  ctl : Bool

/-- An entry of one of the poller's maps: `reset()` leaves a null pointer behind. -/
inductive Entry
  | absent
  | null
  | held
  deriving DecidableEq, Repr

abbrev MimeType := Finmap (fun _ : Bytes => Bytes)

/-- The table `mime_type` as the program starts. -/
def mimeType : MimeType :=
  [(".html","text/html"),(".avi","video/x-msvideo"),(".bmp","image/bmp"),(".c","text/plain"),
    (".doc","application/msword"),(".gif","image/gif"),(".gz","application/x-gzip"),
    (".htm","text/html"),(".ico","image/x-icon"),(".jpg","image/jpeg"),(".png","image/png"),
    (".txt","text/plain"),(".mp3","audio/mp3"),("default","text/html")].foldl
    (fun table entry => table.insert (bytes entry.1) (bytes entry.2)) (∅ : MimeType)

/-- `mime_type[key]`, which enters the key when it is missing. -/
def MimeType.at (table : MimeType) (key : Bytes) : Bytes × MimeType :=
  match table.lookup key with
  | some value => (value,table)
  | none => ([],table.insert key [])

structure Connection where
  root : Bytes
  err : Bool
  isConnecting : Bool
  keepAlive : Bool
  inputBuffer : Bytes
  outputBuffer : Bytes
  state : HttpRequestParseState
  hState : HeaderParseState
  request : HttpRequest
  /-- `events_` of the channel -/
  events : EventMask
  /-- `channels_[fd]` and `https_[fd]` of the poller -/
  channels : Entry
  https : Entry
  /-- the mask in the kernel's interest list -/
  interest : Option EventMask
  /-- the timeout of the node that `timer_` points to -/
  timer : Option Nat
  mime : MimeType
  /-- results that the kernel has ready for the next calls of a `writen` -/
  writes : List (List WriteResult)
  /-- bytes the kernel has taken from this socket -/
  sent : Bytes
  /-- history: the requests `analysisRequest` was called with, and the complete
  responses in the order in which the requests were decided -/
  analysed : List HttpRequest
  responses : List Bytes
  /-- history: a `write` of the output buffer answered `EAGAIN`; an error or hello
  response was decided with an earlier response not completely sent; a `write` of
  an error response answered an error other than `EINTR`; and how many calls of `writen`
  for an error response used up the results that were ready for them -/
  blocked : Bool
  overtook : Bool
  miswrote : Bool
  exhausted : Nat

/-- `Http::Http`. -/
def Connection.fresh (root : Bytes) (mime : MimeType) : Connection where
  root := root
  err := false
  isConnecting := true
  keepAlive := false
  inputBuffer := []
  outputBuffer := []
  state := .parseRequestLine
  hState := .start
  request := requestInit
  events := 0
  channels := .absent
  https := .absent
  interest := none
  timer := none
  mime := mime
  writes := []
  sent := []
  analysed := []
  responses := []
  blocked := false
  overtook := false
  miswrote := false
  exhausted := 0

/-- `EpollPoller::update` with `EPOLL_CTL_ADD` or `EPOLL_CTL_MOD`. -/
def update (env : Env) (c : Connection) : Connection :=
  if env.ctl then {c with interest := some c.events} else {c with channels := .absent}

/-- `EpollPoller::addChannel` with a positive timeout. -/
def addChannel (env : Env) (timeout : Nat) (c : Connection) : Connection :=
  update env {c with channels := .held,timer := some timeout,https := .held}

def updateChannel (env : Env) (timeout : Nat) (c : Connection) : Connection :=
  update env {c with timer := some timeout}

def deleteChannel (env : Env) (c : Connection) : Connection :=
  {c with
    channels := .null
    https := .null
    interest := if env.ctl then none else c.interest}

def registerHttp (env : Env) (c : Connection) : Connection :=
  addChannel env defaultExpiredTime {c with events := epollIn ||| epollEt ||| epollOneshot}

def errorBody (errNum : Nat) (shortMsg : Bytes) : Bytes :=
  bytes "<html><title>Server error</title>" ++ bytes "<body bgcolor=\"ffffff\">" ++
    (stdToString errNum ++ shortMsg) ++ bytes "<hr><em> Deon</em>\n</body></html>"

def errorHeader (errNum : Nat) (shortMsg : Bytes) : Bytes :=
  bytes "HTTP/1.1 " ++ stdToString errNum ++ shortMsg ++ crlf ++
    bytes "Server: Answerhua's Web Server\r\n" ++ bytes "Content-Type: text/html\r\n" ++
    bytes "Connection: Close\r\n" ++
    (bytes "Content-Length: " ++ stdToString (errorBody errNum shortMsg).length ++ crlf) ++ crlf

/-- The `writen` of a C buffer straight to the socket. -/
def sendRaw (env : Env) (buff : Bytes) (c : Connection) : Connection :=
  let out := writenRaw env.below (c.writes.headD []) buff
  {c with
    writes := c.writes.tail
    sent := c.sent ++ out.accepted
    miswrote := c.miswrote || out.failed
    exhausted := c.exhausted + (writenRawWaits env.below (c.writes.headD []) buff).toNat}

/-- An error or hello response is decided: it joins the history. -/
def decideApart (response : Bytes) (c : Connection) : Connection :=
  {c with
    overtook := c.overtook || decide (c.sent ≠ c.responses.flatten)
    responses := c.responses ++ [response]}

def handleError (env : Env) (errNum : Nat) (shortMsg : Bytes) (c : Connection) : Connection :=
  let header := errorHeader errNum shortMsg
  let body := errorBody errNum shortMsg
  sendRaw env body (sendRaw env header (decideApart (header ++ body) c))

def handleWrite (c : Connection) : Connection :=
  if !c.err && c.isConnecting then
    let out := writen (c.writes.headD []) c.outputBuffer
    let c := {c with
      writes := c.writes.tail
      sent := c.sent ++ out.accepted
      outputBuffer := out.sbuff
      err := decide (out.ret < 0)
      blocked := c.blocked || decide (out.stopped = .again)}
    if c.outputBuffer ≠ [] then {c with events := c.events ||| epollOut} else c
  else c

/-- Whether the headers ask to keep the connection. -/
def asksKeepAlive (headers : Headers) : Bool :=
  headers.lookup (bytes "Connection") = some (bytes "Keep-Alive") ||
    headers.lookup (bytes "Connection") = some (bytes "keep-alive")

def statusLine (keepAlive : Bool) : Bytes :=
  bytes "HTTP/1.1 200 OK\r\n" ++
    if keepAlive then
      bytes "Connection: Keep-Alive\r\n" ++ bytes "Keep-Alive: timeout=" ++
        stdToString defaultKeepAliveTime ++ crlf
    else []

def entityHeader (fileType : Bytes) (size : Nat) : Bytes :=
  bytes "Server: Answerhua's Web Server\r\n" ++ (bytes "Content-Type: " ++ fileType ++ crlf) ++
    (bytes "Content-Length: " ++ stdToString size ++ crlf) ++ crlf

def helloResponse : Bytes := bytes "HTTP/1.1 200 OK\r\nContent-type: text/plain\r\n\r\nHello World"

/-- The content type of a file name, looked up from its first dot on. -/
def fileTypeOf (mime : MimeType) (fileName : Bytes) : Bytes × MimeType :=
  match find [46] fileName with
  | none => mime.at (bytes "default")
  | some dotPos => mime.at (fileName.drop dotPos)

/-- A response is complete in the output buffer. -/
def answered (response : Bytes) (c : Connection) : Connection :=
  {c with responses := c.responses ++ [response]}

/-- The body of a GET response: the file, read through its mapping. -/
def appendFile (env : Env) (fileName header : Bytes) (size : Nat) (c : Connection) :
    Except Fault (Int × Connection) :=
  if !env.opens (cStr fileName) then .ok (-1,handleError env 404 (bytes "Not Found") c)
  else match env.mmap (cStr fileName) size with
    | none => if size = 0 then .ok (0,answered header c) else .error .badAddress
    | some memory =>
      let body := (List.range size).map memory
      .ok (0,answered (header ++ body) {c with outputBuffer := c.outputBuffer ++ body})

/-- `Http::analysisRequest`. -/
def analysisRequest (env : Env) (c : Connection) : Except Fault (Int × Connection) :=
  let c := {c with analysed := c.analysed ++ [c.request]}
  let fileName := c.root ++ c.request.uri
  if c.request.method = .get ∨ c.request.method = .head then
    let keep := asksKeepAlive c.request.headers
    let (fileType,mime) := fileTypeOf c.mime fileName
    let c := {c with keepAlive := c.keepAlive || keep,mime := mime}
    if fileName = bytes "hello" then
      .ok (0,{decideApart helloResponse c with outputBuffer := helloResponse})
    else match env.stat (cStr fileName) with
      | none => .ok (-1,handleError env 404 (bytes "Not Found!") c)
      | some sbuf =>
        if !sbuf.regular || !sbuf.userRead then
          .ok (-1,handleError env 403 (bytes "Forbidden") c)
        else
          let header := statusLine keep ++ entityHeader fileType sbuf.size
          let c := {c with outputBuffer := c.outputBuffer ++ header}
          if c.request.method = .head then .ok (0,answered header c)
          else appendFile env fileName header sbuf.size c
  else .ok (-1,c)

/-- Where a block of the loop in `handleRead` leads: to the next one, or out of the
loop with the value of `finish`. -/
inductive Stage
  | go (c : Connection)
  | leave (finish : Bool) (c : Connection)

def Stage.connection : Stage → Connection
  | .go c => c
  | .leave _ c => c

def Stage.andThen (stage : Stage) (next : Connection → Except Fault Stage) : Except Fault Stage :=
  match stage with
  | .go c => next c
  | .leave finish c => .ok (.leave finish c)

/-- `err_ = true; handleError(fd_, 400, ...); break;` -/
def badRequest (env : Env) (shortMsg : Bytes) (c : Connection) : Stage :=
  .leave false (handleError env 400 shortMsg {c with err := true})

def lineStage (env : Env) (c : Connection) : Except Fault Stage :=
  if c.state = .parseRequestLine then do
    let (rc,inputBuffer,request) ← parseRequestLine c.inputBuffer c.request
    let c := {c with inputBuffer := inputBuffer,request := request}
    match rc with
    | .again => return .leave true c
    | .error => return badRequest env (bytes "Bad Request") c
    | .success => return .go {c with state := .parseHeaders}
  else return .go c

def headerStage (env : Env) (c : Connection) : Except Fault Stage :=
  if c.state = .parseHeaders then do
    let (rc,inputBuffer,hState,request) ← parseRequestHeader c.inputBuffer c.hState c.request
    let c := {c with inputBuffer := inputBuffer,hState := hState,request := request}
    match rc with
    | .again => return .leave true c
    | .error => return badRequest env (bytes "Bad Request") c
    | .success =>
      return .go {c with
        state := if c.request.method = .post then .checkContentLength else .analysis}
  else return .go c

def lengthStage (env : Env) (c : Connection) : Except Fault Stage :=
  if c.state = .checkContentLength then
    match c.request.headers.lookup (bytes "Content-length") with
    | none => .ok (badRequest env (bytes "Bad Request: Lack of (Content-length)") c)
    | some value => do
      let contentLength ← stoi value
      if (c.inputBuffer.length : Int) < contentLength then return .leave true c
      else return .go {c with state := .analysis}
  else return .go c

def analysisStage (env : Env) (c : Connection) : Except Fault Stage :=
  if c.state = .analysis then do
    let (rc,c) ← analysisRequest env c
    if rc = 0 then return .leave false {c with state := .finish}
    else return .leave false {c with err := true}
  else return .go c

/-- The blocks that follow the `readn`. -/
def stages (env : Env) (c : Connection) : Except Fault Stage := do
  let stage ← lineStage env c
  let stage ← stage.andThen (headerStage env)
  let stage ← stage.andThen (lengthStage env)
  stage.andThen (analysisStage env)

/-- One turn of the loop in `handleRead`, with the results its `readn` gets. `read_num` is an
`int`, which is the number of bytes as long as these are fewer than 2^31 (`readn_int`). -/
def pass (env : Env) (results : List ReadResult) (c : Connection) : Except Fault Stage :=
  let out := readn results c.inputBuffer false
  let c := {c with inputBuffer := out.inBuffer}
  if out.ret < 0 then .ok (badRequest env (bytes "Bad Request") c)
  else if out.zero then .ok (.leave false {c with isConnecting := false})
  else if out.ret = 0 then .ok (.leave true c)
  else stages env c

def initParse (c : Connection) : Connection :=
  {c with state := .parseRequestLine,hState := .start,request := requestInit}

/-- What `handleRead` does after its loop, and whether it then calls itself. -/
def afterLoop (finish : Bool) (c : Connection) : Bool × Connection :=
  if c.err then (false,c)
  else
    let c := if c.outputBuffer ≠ [] then handleWrite c else c
    if finish then (false,{c with events := c.events ||| epollIn})
    else if !c.err && c.state = .finish then
      let c := initParse c
      (c.isConnecting && c.inputBuffer ≠ [],c)
    else (false,c)

/-- `Http::handleRead`, over the results of the calls of `readn` that it makes. When
none are left `readn` finds no data and the loop ends with `finish` set. A turn that
does not leave the loop goes on as a new call would: `finish` is still false. -/
def handleRead (env : Env) : List (List ReadResult) → Connection → Except Fault Connection
  | [], c => .ok (afterLoop true c).2
  | results :: drains, c => do
    match ← pass env results c with
    | .go c => handleRead env drains c
    | .leave finish c =>
      match afterLoop finish c with
      | (true,c) => handleRead env drains c
      | (false,c) => return c

def handleRegister (env : Env) (c : Connection) : Connection :=
  -- `deleteTimer`
  let c := {c with timer := none}
  if !c.err && c.isConnecting then
    let timeout := if c.keepAlive then defaultKeepAliveTime else defaultExpiredTime
    let events := if c.events &&& epollOut ≠ 0 then epollEt ||| epollOut else epollEt ||| epollIn
    updateChannel env timeout {c with events := events}
  else deleteChannel env c

/-- One dispatch of the channel. -/
structure Event where
  env : Env
  revents : EventMask
  drains : List (List ReadResult)
  writes : List (List WriteResult)

/-- Whether `handleEvents` runs the read callback. -/
def readable (revents : EventMask) : Bool :=
  revents &&& (epollIn ||| epollPri ||| epollRdhup) ≠ 0

def writable (revents : EventMask) : Bool := revents &&& epollOut ≠ 0

/-- `Channel::handleEvents`; an `Http` sets no error callback. -/
def handleEvents (event : Event) (c : Connection) : Except Fault Connection := do
  let c := {c with writes := event.writes}
  let c ← (if readable event.revents then handleRead event.env event.drains c else pure c)
  let c := if writable event.revents then handleWrite c else c
  return handleRegister event.env c

end Deon.Http
