import Deon.Http.MimeType
import Deon.Http.Steps
import Deon.Library.Related

/-! What the handlers of a connection do not look at: the entries of the poller, and in the table
of content types everything but the values that it has for the keys. -/
namespace Deon.Http
open Library

/-- The two tables answer every lookup alike. -/
def SameTypes (table other : MimeType) : Prop := ∀ key, (table.at key).1 = (other.at key).1

namespace SameTypes

variable {table other : MimeType}

theorem refl (table : MimeType) : SameTypes table table := fun _ => rfl

theorem trans {third : MimeType} (first : SameTypes table other) (second : SameTypes other third) :
    SameTypes table third := fun key => (first key).trans (second key)

theorem symm (same : SameTypes table other) : SameTypes other table := fun key => (same key).symm

theorem looked (table : MimeType) (key : Bytes) : SameTypes table (table.at key).2 := by
  intro next
  rw [MimeType.at_value,MimeType.at_value,MimeType.lookup_at]

theorem typed (table : MimeType) (fileName : Bytes) :
    SameTypes table (fileTypeOf table fileName).2 := by
  unfold fileTypeOf
  split
  · exact looked table _
  · exact looked table _

theorem type_value (same : SameTypes table other) (fileName : Bytes) :
    (fileTypeOf table fileName).1 = (fileTypeOf other fileName).1 := by
  unfold fileTypeOf
  split
  · exact same _
  · exact same _

theorem typed_both (same : SameTypes table other) (fileName : Bytes) :
    SameTypes (fileTypeOf table fileName).2 (fileTypeOf other fileName).2 :=
  (typed table fileName).symm.trans (same.trans (typed other fileName))

end SameTypes

/-- What is outside of the connection: its entries in the poller and the table. -/
structure Place where
  channels : Entry
  https : Entry
  interest : Option EventMask
  timer : Option Nat
  mime : MimeType

def Connection.placed (place : Place) (c : Connection) : Connection :=
  {c with
    channels := place.channels
    https := place.https
    interest := place.interest
    timer := place.timer
    mime := place.mime}

def Connection.place (c : Connection) : Place := ⟨c.channels,c.https,c.interest,c.timer,c.mime⟩

/-- The same connection in two places, with tables that answer alike. -/
def Twin (c d : Connection) : Prop := SameTypes c.mime d.mime ∧ d = c.placed d.place

def Stage.Twin : Stage → Stage → Prop
  | .go c, .go d => Http.Twin c d
  | .leave finish c, .leave finish' d => finish = finish' ∧ Http.Twin c d
  | _, _ => False

namespace Twin

variable {c d : Connection}

theorem placed {place : Place} (same : SameTypes c.mime place.mime) : Twin c (c.placed place) :=
  ⟨same,rfl⟩

theorem refl (c : Connection) : Twin c c := ⟨.refl _,rfl⟩

theorem moved (twin : Twin c d) : ∃ place, d = c.placed place := ⟨_,twin.2⟩

theorem trans {e : Connection} (first : Twin c d) (second : Twin d e) : Twin c e := by
  obtain ⟨types,same⟩ := first
  obtain ⟨types',same'⟩ := second
  refine ⟨types.trans types',?_⟩
  rw [same'.trans (congrArg (Connection.placed e.place) same)]
  rfl

theorem symm (twin : Twin c d) : Twin d c := by
  obtain ⟨types,same⟩ := twin
  refine ⟨types.symm,?_⟩
  rw [same]
  rfl

theorem moves (twin : Twin c d) (place : Place) (same : place.mime = c.mime) :
    Twin (c.placed place) d := by
  have back : Twin c (c.placed place) := placed (same ▸ .refl _)
  exact back.symm.trans twin

/-- A function of the connection that does not see the place. -/
theorem apply {α : Type} (twin : Twin c d) (f : Connection → α)
    (blind : ∀ place, f (c.placed place) = f c) : f d = f c := by
  rw [twin.2]
  exact blind _

/-- A step of the connection that neither sees the place nor changes it. -/
theorem map (twin : Twin c d) (f : Connection → Connection)
    (moves : ∀ place, f (c.placed place) = (f c).placed place) (keeps : (f c).mime = c.mime) :
    Twin (f c) (f d) := by
  obtain ⟨types,same⟩ := twin
  rw [same,moves]
  exact placed (keeps ▸ types)

theorem parsed (twin : Twin c d) (inputBuffer : Bytes) (state : HttpRequestParseState)
    (hState : HeaderParseState) (request : HttpRequest) :
    Twin (c.parsed inputBuffer state hState request) (d.parsed inputBuffer state hState request) :=
  twin.map (fun e => e.parsed inputBuffer state hState request) (fun _ => rfl) rfl

theorem failing (twin : Twin c d) : Twin {c with err := true} {d with err := true} :=
  twin.map (fun e => {e with err := true}) (fun _ => rfl) rfl

theorem decideApart (twin : Twin c d) (response : Bytes) :
    Twin (Http.decideApart response c) (Http.decideApart response d) :=
  twin.map (Http.decideApart response) (fun _ => rfl) rfl

theorem handleError (twin : Twin c d) (env : Env) (errNum : Nat) (shortMsg : Bytes) :
    Twin (Http.handleError env errNum shortMsg c) (Http.handleError env errNum shortMsg d) :=
  twin.map (Http.handleError env errNum shortMsg) (fun _ => rfl) rfl

theorem badRequest (twin : Twin c d) (env : Env) (shortMsg : Bytes) :
    (Http.badRequest env shortMsg c).Twin (Http.badRequest env shortMsg d) :=
  ⟨rfl,twin.failing.handleError env 400 shortMsg⟩

theorem handleWrite (twin : Twin c d) : Twin (Http.handleWrite c) (Http.handleWrite d) := by
  refine twin.map Http.handleWrite (fun place => ?_) ?_
  · unfold Http.handleWrite Connection.placed
    dsimp only
    split_ifs <;> rfl
  · unfold Http.handleWrite
    dsimp only
    split_ifs <;> rfl

theorem flushed (twin : Twin c d) : Twin (Http.flushed c) (Http.flushed d) := by
  unfold Http.flushed
  rw [twin.apply (fun e => e.outputBuffer) fun _ => rfl]
  split
  · exact twin.handleWrite
  · exact twin

theorem afterLoop (twin : Twin c d) (finish : Bool) :
    (Http.afterLoop finish d).1 = (Http.afterLoop finish c).1 ∧
      Twin (Http.afterLoop finish c).2 (Http.afterLoop finish d).2 := by
  have parts : ∀ e : Connection, Http.afterLoop finish e = if e.err then (false,e)
      else if finish then (false,{Http.flushed e with events := (Http.flushed e).events ||| epollIn})
      else if !(Http.flushed e).err && (Http.flushed e).state = .finish then
        ((initParse (Http.flushed e)).isConnecting && (initParse (Http.flushed e)).inputBuffer ≠ [],
          initParse (Http.flushed e))
      else (false,Http.flushed e) := fun _ => rfl
  have flushed := twin.flushed
  have err := twin.apply (fun e => e.err) fun _ => rfl
  have left := flushed.apply (fun e => (e.err,e.state,e.isConnecting,e.inputBuffer)) fun _ => rfl
  obtain ⟨sent,state,connecting,input⟩ : (Http.flushed d).err = (Http.flushed c).err ∧
      (Http.flushed d).state = (Http.flushed c).state ∧
      (Http.flushed d).isConnecting = (Http.flushed c).isConnecting ∧
      (Http.flushed d).inputBuffer = (Http.flushed c).inputBuffer := by simpa using left
  rw [parts,parts,err,sent,state]
  split_ifs
  · exact ⟨rfl,twin⟩
  · exact ⟨rfl,flushed.map (fun e => {e with events := e.events ||| epollIn}) (fun _ => rfl) rfl⟩
  · refine ⟨?_,flushed.map initParse (fun _ => rfl) rfl⟩
    show ((Http.flushed d).isConnecting && decide ((Http.flushed d).inputBuffer ≠ [])) =
      ((Http.flushed c).isConnecting && decide ((Http.flushed c).inputBuffer ≠ []))
    rw [connecting,input]
  · exact ⟨rfl,flushed⟩

end Twin

/-- The content type of the file is looked up in the table, and its key may be entered. -/
def Connection.looked (fileName : Bytes) (keep : Bool) (c : Connection) : Connection :=
  {c with keepAlive := c.keepAlive || keep,mime := (fileTypeOf c.mime fileName).2}

theorem Twin.looked {c d : Connection} (twin : Twin c d) (fileName : Bytes) (keep : Bool) :
    Twin (c.looked fileName keep) (d.looked fileName keep) := by
  refine ⟨twin.1.typed_both fileName,?_⟩
  rw [twin.2]
  rfl

section Stages

variable {c d : Connection}

theorem appendFile_twin (twin : Twin c d) (env : Env) (fileName header : Bytes) (size : Nat) :
    Related (fun out out' => out.1 = out'.1 ∧ Twin out.2 out'.2)
      (appendFile env fileName header size c) (appendFile env fileName header size d) := by
  unfold appendFile
  refine .ite .rfl (fun _ => ?_) fun _ => ?_
  · exact .returned ⟨rfl,twin.handleError env 404 _⟩
  · cases env.mmap (cStr fileName) size with
    | none =>
      refine .ite .rfl (fun _ => ?_) fun _ => .failed _
      exact .returned ⟨rfl,twin.map (answered header) (fun _ => rfl) rfl⟩
    | some memory =>
      refine .returned ⟨rfl,?_⟩
      exact twin.map (fun e => answered (header ++ (List.range size).map memory)
        {e with outputBuffer := e.outputBuffer ++ (List.range size).map memory}) (fun _ => rfl) rfl

theorem analysisRequest_twin (twin : Twin c d) (env : Env) :
    Related (fun out out' => out.1 = out'.1 ∧ Twin out.2 out'.2) (analysisRequest env c)
      (analysisRequest env d) := by
  have noted : Twin {c with analysed := c.analysed ++ [c.request]}
      {d with analysed := d.analysed ++ [d.request]} :=
    twin.map (fun e => {e with analysed := e.analysed ++ [e.request]}) (fun _ => rfl) rfl
  have looks := noted.looked (c.root ++ c.request.uri) (asksKeepAlive c.request.headers)
  have types := twin.1.type_value (c.root ++ c.request.uri)
  obtain ⟨place,rfl⟩ := twin.moved
  unfold analysisRequest
  dsimp only [Connection.placed] at noted looks types ⊢
  refine .ite .rfl (fun _ => ?_) fun _ => .returned ⟨rfl,noted⟩
  refine .ite .rfl (fun _ => ?_) fun _ => ?_
  · exact .returned ⟨rfl,(looks.decideApart helloResponse).map
      (fun e => {e with outputBuffer := helloResponse}) (fun _ => rfl) rfl⟩
  · cases env.stat (cStr (c.root ++ c.request.uri)) with
    | none => exact .returned ⟨rfl,looks.handleError env 404 _⟩
    | some sbuf =>
      refine .ite .rfl (fun _ => .returned ⟨rfl,looks.handleError env 403 _⟩) fun _ => ?_
      rw [← types]
      generalize statusLine _ ++ entityHeader _ _ = header
      have filled := looks.map (fun e => {e with outputBuffer := e.outputBuffer ++ header})
        (fun _ => rfl) rfl
      refine .ite .rfl (fun _ => ?_) fun _ => appendFile_twin filled env _ header sbuf.size
      exact .returned ⟨rfl,filled.map (answered header) (fun _ => rfl) rfl⟩

theorem lineStage_twin (twin : Twin c d) (env : Env) :
    Related Stage.Twin (lineStage env c) (lineStage env d) := by
  obtain ⟨place,rfl⟩ := twin.moved
  unfold lineStage
  refine .ite .rfl (fun _ => .behind (parseRequestLine c.inputBuffer c.request) fun parsed => ?_)
    fun _ => .returned twin
  obtain ⟨rc,inputBuffer,request⟩ := parsed
  have read := twin.map (fun e => {e with inputBuffer := inputBuffer,request := request})
    (fun _ => rfl) rfl
  cases rc with
  | again => exact .returned ⟨rfl,read⟩
  | error => exact .returned (read.badRequest env _)
  | success =>
    exact .returned (read.map (fun e => {e with state := .parseHeaders}) (fun _ => rfl) rfl)

theorem headerStage_twin (twin : Twin c d) (env : Env) :
    Related Stage.Twin (headerStage env c) (headerStage env d) := by
  obtain ⟨place,rfl⟩ := twin.moved
  unfold headerStage
  refine .ite .rfl (fun _ => .behind (parseRequestHeader c.inputBuffer c.hState c.request)
    fun parsed => ?_) fun _ => .returned twin
  obtain ⟨rc,inputBuffer,hState,request⟩ := parsed
  have read := twin.map
    (fun e => {e with inputBuffer := inputBuffer,hState := hState,request := request})
    (fun _ => rfl) rfl
  cases rc with
  | again => exact .returned ⟨rfl,read⟩
  | error => exact .returned (read.badRequest env _)
  | success =>
    exact .returned (read.map (fun e => {e with
      state := if request.method = .post then .checkContentLength else .analysis})
      (fun _ => rfl) rfl)

theorem lengthStage_twin (twin : Twin c d) (env : Env) :
    Related Stage.Twin (lengthStage env c) (lengthStage env d) := by
  obtain ⟨place,rfl⟩ := twin.moved
  unfold lengthStage
  dsimp only [Connection.placed] at twin ⊢
  refine .ite .rfl (fun _ => ?_) fun _ => .returned twin
  cases c.request.headers.lookup (bytes "Content-length") with
  | none => exact .returned (twin.badRequest env _)
  | some value =>
    refine .behind (stoi value) fun contentLength => ?_
    refine .ite .rfl (fun _ => .returned ⟨rfl,twin⟩) fun _ => ?_
    exact .returned (twin.map (fun e => {e with state := .analysis}) (fun _ => rfl) rfl)

theorem analysisStage_twin (twin : Twin c d) (env : Env) :
    Related Stage.Twin (analysisStage env c) (analysisStage env d) := by
  have state := twin.apply (fun e => e.state) fun _ => rfl
  unfold analysisStage
  refine .ite (by rw [state]) (fun _ => ?_) fun _ => .returned twin
  refine (analysisRequest_twin twin env).bind fun out out' both => ?_
  obtain ⟨rc,after⟩ := out
  obtain ⟨rc',after'⟩ := out'
  obtain ⟨rfl,after⟩ : rc = rc' ∧ Twin after after' := both
  refine .ite .rfl (fun _ => .returned ⟨rfl,?_⟩) fun _ => .returned ⟨rfl,after.failing⟩
  exact after.map (fun e => {e with state := .finish}) (fun _ => rfl) rfl

theorem andThen_twin {block : Connection → Except Fault Stage} {stage stage' : Stage}
    (follows : ∀ {e f}, Twin e f → Related Stage.Twin (block e) (block f))
    (twin : stage.Twin stage') : Related Stage.Twin (stage.andThen block) (stage'.andThen block) := by
  cases stage with
  | go e =>
    cases stage' with
    | go f => exact follows twin
    | leave => cases twin
  | leave finish e =>
    cases stage' with
    | go => cases twin
    | leave finish' f => exact .returned twin

theorem stages_twin (twin : Twin c d) (env : Env) :
    Related Stage.Twin (stages env c) (stages env d) := by
  refine (lineStage_twin twin env).bind fun _ _ lined => ?_
  refine (andThen_twin (fun e => headerStage_twin e env) lined).bind fun _ _ headed => ?_
  refine (andThen_twin (fun e => lengthStage_twin e env) headed).bind fun _ _ measured => ?_
  exact andThen_twin (fun e => analysisStage_twin e env) measured

theorem pass_twin (twin : Twin c d) (env : Env) (results : List ReadResult) :
    Related Stage.Twin (pass env results c) (pass env results d) := by
  have input := twin.apply (fun e => e.inputBuffer) fun _ => rfl
  unfold pass
  dsimp only
  rw [input]
  have read := twin.map (fun e => {e with
    inputBuffer := (readn results c.inputBuffer false).inBuffer}) (fun _ => rfl) rfl
  split
  · exact .returned (read.badRequest env _)
  · split
    · exact .returned ⟨rfl,read.map (fun e => {e with isConnecting := false}) (fun _ => rfl) rfl⟩
    · split
      · exact .returned ⟨rfl,read⟩
      · exact stages_twin read env

end Stages

theorem handleRead_twin (env : Env) (drains : List (List ReadResult)) {c d : Connection}
    (twin : Twin c d) : Related Twin (handleRead env drains c) (handleRead env drains d) := by
  induction drains generalizing c d with
  | nil => exact .returned (twin.afterLoop true).2
  | cons results drains ih =>
    refine (pass_twin twin env results).bind fun stage stage' both => ?_
    cases stage with
    | go e =>
      cases stage' with
      | go f => exact ih both
      | leave => cases both
    | leave finish e =>
      cases stage' with
      | go => cases both
      | leave finish' f =>
        obtain ⟨rfl,left⟩ := both
        obtain ⟨recalls,after⟩ := left.afterLoop finish
        dsimp only
        generalize afterLoop finish e = one at recalls after
        generalize afterLoop finish f = other at recalls after
        obtain ⟨recurse,e'⟩ := one
        obtain ⟨recurse',f'⟩ := other
        obtain rfl := recalls
        cases recurse' with
        | true => exact ih after
        | false => exact .returned after

section Types

variable {env : Env} {c : Connection} {P : MimeType → Prop}

/-- Every lookup keeps this property of the table. -/
def Looks (P : MimeType → Prop) : Prop := ∀ table fileName, P table → P (fileTypeOf table fileName).2

/-- The connection sees a table with this property. -/
def Types (P : MimeType → Prop) (c : Connection) : Prop := P c.mime

theorem SameTypes.looks (table : MimeType) : Looks (SameTypes table) :=
  fun _ fileName same => same.trans (.typed _ fileName)

theorem Grown.looks (table : MimeType) : Looks (Grown table) :=
  fun _ fileName grown => grown.next fileName

theorem SameTypes.lookedUp (table : MimeType) (keys : List Bytes) :
    SameTypes table (lookedUp table keys) := by
  induction keys generalizing table with
  | nil => exact .refl table
  | cons key keys ih => exact (SameTypes.looked table key).trans (ih _)

theorem analysisRequest_types {out : Int × Connection} (looks : Looks P) (same : Types P c)
    (ok : analysisRequest env c = .ok out) : Types P out.2 := by
  have looked := looks c.mime (c.root ++ c.request.uri) same
  unfold analysisRequest at ok
  dsimp only at ok
  split at ok
  · split at ok
    · obtain rfl := Except.ok.inj ok
      exact looked
    · split at ok
      · obtain rfl := Except.ok.inj ok
        exact looked
      · split at ok
        · obtain rfl := Except.ok.inj ok
          exact looked
        · split at ok
          · obtain rfl := Except.ok.inj ok
            exact looked
          · rcases appendFile_cases ok with ⟨body,rfl⟩ | rfl
            · exact looked
            · exact looked
  · obtain rfl := Except.ok.inj ok
    exact same

theorem stages_types {stage : Stage} (looks : Looks P) (same : Types P c)
    (ok : stages env c = .ok stage) : Through (Types P) (fun _ => Types P) stage := by
  refine @stages_through env c stage (Types P) (Types P) (Types P) (Types P) _
    ?_ ?_ ?_ ?_ ok
  · intro stage lined
    rcases lineStage_cases lined with ⟨b,s,q,rfl⟩ | ⟨b,q,rfl⟩ | ⟨b,q,rfl⟩ <;> exact same
  · intro d stage same headed
    rcases headerStage_cases headed with ⟨b,s,h,q,rfl⟩ | ⟨b,h,q,rfl⟩ | ⟨b,h,q,rfl⟩ <;> exact same
  · intro d stage same measured
    rcases lengthStage_cases measured with ⟨s,rfl⟩ | rfl | rfl <;> exact same
  · intro d stage same last
    unfold analysisStage at last
    split at last
    · obtain ⟨⟨rc,after⟩,called,next⟩ := bind_success last
      have types : Types P after := analysisRequest_types looks same called
      dsimp only at next
      split at next <;> cases next <;> exact types
    · cases last
      exact same

theorem handleWrite_types (same : Types P c) : Types P (handleWrite c) := by
  unfold handleWrite
  dsimp only
  split_ifs <;> exact same

theorem afterLoop_types (same : Types P c) (finish : Bool) : Types P (afterLoop finish c).2 :=
  afterLoop_keeps (fun _ => same) (fun _ => flushed_keeps same (handleWrite_types same))
    (fun _ kept => kept) (fun _ kept => kept) finish

theorem handleRead_types {drains : List (List ReadResult)} {c' : Connection} (looks : Looks P)
    (same : Types P c) (returned : handleRead env drains c = .ok c') : Types P c' := by
  refine handleRead_returns (Types P) (Types P) ?_ same returned
  intro d results stage same passed
  have through : Through (Types P) (fun _ => Types P) stage := by
    unfold pass at passed
    dsimp only at passed
    split_ifs at passed
    · cases passed
      exact same
    · cases passed
      exact same
    · cases passed
      exact same
    · exact @stages_types env {d with inputBuffer := (readn results d.inputBuffer false).inBuffer} _ _
        looks same passed
  cases stage with
  | go e => exact through
  | leave finish e => exact ⟨afterLoop_types through finish,fun _ => afterLoop_types through finish⟩

/-- The table is the one that it was, unless a request asked for its type since. -/
def Untyped (c d : Connection) : Prop :=
  ∃ added, d.analysed = c.analysed ++ added ∧ (added.any asksType = true ∨ d.mime = c.mime)

theorem Untyped.moves {d e : Connection} (untyped : Untyped c d) (analysed : e.analysed = d.analysed)
    (mime : e.mime = d.mime) : Untyped c e := by
  obtain ⟨added,same,typed⟩ := untyped
  exact ⟨added,analysed.trans same,typed.imp_right mime.trans⟩

theorem Untyped.analysed {d : Connection} {out : Int × Connection} (untyped : Untyped c d)
    (analysed : Analysed env d out) : Untyped c out.2 := by
  obtain ⟨added,same,typed⟩ := untyped
  have history := analysed.notes.1
  rw [same,List.append_assoc] at history
  refine ⟨added ++ [d.request],history,?_⟩
  cases analysed with
  | answers _ _ _ _ asks => simp [asks]
  | hello _ _ asks => simp [asks]
  | fails _ _ _ _ _ asks => simp [asks]
  | drops => exact typed.imp_left fun some => by simp [some]

theorem handleWrite_untyped (c : Connection) :
    (handleWrite c).analysed = c.analysed ∧ (handleWrite c).mime = c.mime := by
  unfold handleWrite
  dsimp only
  split_ifs <;> exact ⟨rfl,rfl⟩

theorem Untyped.handleWrite {d : Connection} (untyped : Untyped c d) : Untyped c (handleWrite d) :=
  untyped.moves (handleWrite_untyped d).1 (handleWrite_untyped d).2

theorem Untyped.afterLoop {d : Connection} (untyped : Untyped c d) (finish : Bool) :
    Untyped c (afterLoop finish d).2 :=
  afterLoop_keeps (fun _ => untyped) (fun _ => flushed_keeps untyped untyped.handleWrite)
    (fun _ kept => kept.moves rfl rfl) (fun _ kept => kept.moves rfl rfl) finish

theorem handleRead_untyped {drains : List (List ReadResult)} {c' : Connection}
    (returned : handleRead env drains c = .ok c') : Untyped c c' := by
  refine handleRead_keeps (Untyped c) ?_ ⟨[],(List.append_nil _).symm,.inr rfl⟩ returned
  intro d stage untyped leaves
  cases leaves with
  | ends =>
    refine Untyped.afterLoop ?_ _
    exact untyped.moves rfl rfl
  | parses parsed =>
    cases parsed with
    | waits =>
      refine Untyped.afterLoop ?_ _
      exact untyped.moves rfl rfl
    | refuses =>
      refine Untyped.afterLoop ?_ _
      exact untyped.moves rfl rfl
    | loops => exact untyped.moves rfl rfl
    | answers b s h q e rc zero analysed =>
      have parsed : Untyped c (d.parsed b s h q) := untyped.moves rfl rfl
      refine Untyped.afterLoop ?_ _
      exact (parsed.analysed analysed).moves rfl rfl
    | fails b s h q e rc nonzero analysed =>
      have parsed : Untyped c (d.parsed b s h q) := untyped.moves rfl rfl
      refine Untyped.afterLoop ?_ _
      exact (parsed.analysed analysed).moves rfl rfl

end Types

theorem handleWrite_entered (c : Connection) :
    (handleWrite c).channels = c.channels ∧ (handleWrite c).root = c.root := by
  unfold handleWrite
  dsimp only
  split_ifs <;> exact ⟨rfl,rfl⟩

/-- The handlers in front of `handleRegister` change neither the root nor the entry in `channels_`. -/
theorem handleRead_entered {env : Env} {drains : List (List ReadResult)} {c c' : Connection}
    (returned : handleRead env drains c = .ok c') : c'.channels = c.channels ∧ c'.root = c.root := by
  refine handleRead_keeps (fun d => d.channels = c.channels ∧ d.root = c.root) ?_ ⟨rfl,rfl⟩ returned
  intro d stage held leaves
  have stays : stage.connection.channels = c.channels ∧ stage.connection.root = c.root := by
    cases leaves with
    | ends => exact held
    | parses parsed =>
      cases parsed with
      | waits => exact held
      | refuses => exact held
      | loops => exact held
      | answers _ _ _ _ _ _ _ analysed => cases analysed <;> exact held
      | fails _ _ _ _ _ _ _ analysed => cases analysed <;> exact held
  cases stage with
  | go e => exact stays
  | leave finish e =>
    have sent : (flushed e).channels = c.channels ∧ (flushed e).root = c.root := by
      unfold flushed
      split
      · exact ⟨(handleWrite_entered e).1.trans stays.1,(handleWrite_entered e).2.trans stays.2⟩
      · exact stays
    exact @afterLoop_keeps (fun d => d.channels = c.channels ∧ d.root = c.root) e (fun _ => stays)
      (fun _ => sent) (fun _ kept => kept) (fun _ kept => kept) finish

end Deon.Http
