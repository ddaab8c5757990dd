import NetworkLib.Protocols.Grpc.GrpcHandler
import NetworkLib.Protocols.Http2.SessionInput

/-! # gRPC through the service registry

Without a stream handler the callback of `GrpcHandler` makes a `GrpcStreamImpl` for the DATA frame,
shows it the data, and then has `ServiceRegistry` dispatch it to the registered method. The object
is known to nobody when it sees its data, so that no `OnMessage` callback can be installed on it,
and it never sees data again. No message is ever delivered, and the method is started for every
frame (`registry_delivers_iff`).

The objects are numbered in the order in which they are made; application code may keep them and
call them at any time. -/

namespace NetworkLib.GrpcService

open Http2

/-- `constants::errors::kNotFound`. -/
def kNotFound : ℤ := 4

/-- A call on a `GrpcStream`, given by its number. `κ` are the callbacks of the application. -/
inductive StreamCall (κ : Type*) where
  /-- `Write(data)`. -/
  | write (object : ℕ) (data : Bytes)
  /-- `WriteHeaders(status)`. -/
  | writeHeaders (object : ℕ) (status : ℤ)
  /-- `Finish(status)`. -/
  | finish (object : ℕ) (status : ℤ)
  /-- `SetOnMessage(cb)`. -/
  | setOnMessage (object : ℕ) (cb : κ)

/-- What one invocation of application code did. -/
structure StreamRun (σ κ : Type*) where
  app : σ
  calls : List (StreamCall κ) := []
  thrown : Option Thrown := none

/-- The application: the methods it has registered by path, and its callbacks. -/
structure Service (σ κ : Type*) where
  /-- `ServiceRegistry::methods_`. -/
  methods : Bytes → Option (σ → (object : ℕ) → StreamRun σ κ)
  onMessage : κ → σ → (payload : Bytes) → StreamRun σ κ

/-- `GrpcStreamImpl`. -/
structure GrpcStreamImpl (κ : Type*) where
  streamId : ℕ
  /-- `on_message_`. -/
  onMessage : Option κ := none

/-- The application state, the objects made so far, and what has been called: a method, with the
HTTP/2 stream it was started for, and an `OnMessage` callback, with that stream and the message. -/
structure Streams (σ κ : Type*) where
  app : σ
  objects : List (GrpcStreamImpl κ) := []
  started : List ℕ := []
  received : List (ℕ × Bytes) := []

variable {σ κ : Type*}

namespace Streams

/-- The HTTP/2 stream of an object. -/
def streamId (r : Streams σ κ) (object : ℕ) : ℕ := (r.objects[object]?.map (·.streamId)).getD 0

/-- What a call on an object does on the connection. -/
def connCalls (r : Streams σ κ) : StreamCall κ → List ConnCall
  | .write object data =>
      Http2.Session.sendStreamData (r.streamId object) (GrpcCodec.encode data false) false
  | .writeHeaders object status =>
      Http2.Session.sendHeaders (r.streamId object)
        [(bytesOf ":status", bytesOf (toString status)),
          (bytesOf "content-type", bytesOf "application/grpc")] false
  | .finish object status =>
      -- the trailers are a map, which is in the order of its keys
      Http2.Session.sendHeaders (r.streamId object)
        ((if status ≠ 0 then [(bytesOf "grpc-message", bytesOf "Error")] else [])
          ++ [(bytesOf "grpc-status", bytesOf (toString status))]) true
  | .setOnMessage _ _ => []

/-- What a call on an object does to it. -/
def call (r : Streams σ κ) : StreamCall κ → Streams σ κ
  | .setOnMessage object cb =>
      { r with objects := r.objects.modify object fun o => { o with onMessage := some cb } }
  | .write _ _ => r
  | .writeHeaders _ _ => r
  | .finish _ _ => r

/-- `std::make_shared<GrpcStreamImpl>(conn, stream)`. -/
def make (r : Streams σ κ) (stream : ℕ) : Streams σ κ :=
  { r with objects := r.objects ++ [{ streamId := stream }] }

/-- A callback is called for a message. -/
def delivering (r : Streams σ κ) (object : ℕ) (payload : Bytes) : Streams σ κ :=
  { r with received := r.received ++ [(r.streamId object, payload)] }

/-- A method is started. -/
def starting (r : Streams σ κ) (object : ℕ) : Streams σ κ :=
  { r with started := r.started ++ [r.streamId object] }

/-- Application code has run. -/
def ran (r : Streams σ κ) (run : StreamRun σ κ) : Streams σ κ × List ConnCall × Option Thrown :=
  (run.calls.foldl call { r with app := run.app }, run.calls.flatMap r.connCalls, run.thrown)

/-- `GrpcStreamImpl::OnDataReceived`. -/
def onDataReceived (service : Service σ κ) (r : Streams σ κ) (object : ℕ) (data : Bytes) :
    Streams σ κ × List ConnCall × Option Thrown :=
  match (GrpcCodec.decode data).1 with
  | none => (r, [], none)
  | some (payload, _) =>
      match r.objects[object]?.bind (·.onMessage) with
      | none => (r, [], none)
      | some cb =>
          (r.delivering object payload).ran (service.onMessage cb r.app payload)

/-- `ServiceRegistry::Dispatch`. -/
def dispatch (service : Service σ κ) (r : Streams σ κ) (path : Bytes) (object : ℕ) :
    Streams σ κ × List ConnCall × Option Thrown :=
  match service.methods path with
  | none => (r, r.connCalls (.finish object kNotFound), none)
  | some method =>
      (r.starting object).ran (method r.app object)

end Streams

/-- The callback `OnConnection` installs, without a stream handler. -/
def onStreamData (service : Service σ κ) : OnStreamData (Streams σ κ) := fun r stream data =>
  let object := r.objects.length
  let r := r.make stream.id
  match r.onDataReceived service object data with
  | (r, calls, some thrown) => (r, calls, some thrown)
  | (r, calls, none) =>
      let (r, calls', thrown) := r.dispatch service GrpcHandler.defaultMethod object
      (r, calls ++ calls', thrown)

/-- **The registry delivers the messages**, each given with its HTTP/2 stream: on every stream an
`OnMessage` callback is called once for every message, in order, and the method is started once for
every stream that has one. -/
def Delivers (r : Streams σ κ) (messages : List (ℕ × Bytes × Bool)) : Prop :=
  ∀ id, (r.received.filter fun call => call.1 = id).map Prod.snd
      = (messages.filter fun m => m.1 = id).map (fun m => m.2.1) ∧
    r.started.count id = if id ∈ messages.map Prod.fst then 1 else 0

/-! ## One frame -/

/-- Calls on the objects change nothing else. -/
theorem foldl_call (r : Streams σ κ) (calls : List (StreamCall κ)) :
    (calls.foldl Streams.call r).received = r.received ∧
      (calls.foldl Streams.call r).started = r.started := by
  induction calls generalizing r with
  | nil => exact ⟨rfl, rfl⟩
  | cons c calls ih =>
      obtain ⟨hreceived, hstarted⟩ := ih (r.call c)
      have hone : (r.call c).received = r.received ∧ (r.call c).started = r.started := by
        cases c <;> exact ⟨rfl, rfl⟩
      exact ⟨hreceived.trans hone.1, hstarted.trans hone.2⟩

@[simp] theorem make_received (r : Streams σ κ) (id : ℕ) : (r.make id).received = r.received := rfl

@[simp] theorem make_started (r : Streams σ κ) (id : ℕ) : (r.make id).started = r.started := rfl

/-- The object that was just made. -/
theorem make_object (r : Streams σ κ) (id : ℕ) :
    (r.make id).objects[r.objects.length]? = some { streamId := id } :=
  List.getElem?_concat_length

/-- Its HTTP/2 stream. -/
theorem make_streamId (r : Streams σ κ) (id : ℕ) : (r.make id).streamId r.objects.length = id := by
  rw [Streams.streamId, make_object]
  rfl

/-- It has no callback, so that it drops the data. -/
theorem onDataReceived_make (service : Service σ κ) (r : Streams σ κ) (id : ℕ) (data : Bytes) :
    (r.make id).onDataReceived service r.objects.length data = (r.make id, [], none) := by
  rw [Streams.onDataReceived, make_object]
  split <;> rfl

/-- **What one frame does**: the method is started for its stream, and no callback is called. -/
theorem onStreamData_spec {service : Service σ κ} {method : σ → ℕ → StreamRun σ κ}
    (hmethod : service.methods GrpcHandler.defaultMethod = some method) (r : Streams σ κ)
    (stream : Stream) (data : Bytes) :
    (onStreamData service r stream data).1.received = r.received ∧
      (onStreamData service r stream data).1.started = r.started ++ [stream.id] := by
  obtain ⟨hreceived, hstarted⟩ := foldl_call
    { (r.make stream.id).starting r.objects.length with app := (method r.app r.objects.length).app }
    (method r.app r.objects.length).calls
  simp only [onStreamData, onDataReceived_make, Streams.dispatch, hmethod, Streams.ran]
  refine ⟨hreceived, hstarted.trans ?_⟩
  simp only [Streams.starting, make_started, make_streamId]

/-! ## The session -/

/-- The callbacks called so far, and the methods started, beside the frames seen. -/
def Accounts (s : Http2.Session (Streams σ κ)) : Prop :=
  s.app.received = [] ∧ s.app.started = s.notified.map fun n => n.1.id

/-- Handling a frame keeps the account. -/
theorem accounts_handleFrame {service : Service σ κ} {method : σ → ℕ → StreamRun σ κ}
    (hmethod : service.methods GrpcHandler.defaultMethod = some method)
    {s : Http2.Session (Streams σ κ)} (hs : Accounts s) (frame : Frame) :
    Accounts (Http2.Session.handleFrame (some (onStreamData service)) s frame) := by
  have hget : Accounts (s.getStream frame.header.streamId).1 := by
    unfold Http2.Session.getStream
    cases s.streams frame.header.streamId <;> exact hs
  unfold Http2.Session.handleFrame
  split
  · simp only
    split
    · obtain ⟨hreceived, hstarted⟩ := onStreamData_spec hmethod
        (s.getStream frame.header.streamId).1.app
        ((s.getStream frame.header.streamId).2.appendData frame.payload) frame.payload
      refine ⟨hreceived.trans hget.1, ?_⟩
      simp only [Http2.Session.notify, List.map_append, List.map_cons, List.map_nil]
      rw [hstarted, hget.2]
    · exact hget
  · exact hs

variable (service : Service σ κ)

/-- What becomes of a new connection when `OnMessage` is called after each read. -/
def serve (app : σ) (reads : List Bytes) : Http2.Session (Streams σ κ) :=
  (Http2.Session.receiveAll (some (onStreamData service)) ({ app := { app } }, []) reads).1

variable {service}

/-- **What a connection has called**: no callback, and the method once for every DATA frame, up to
the one on which it throws. -/
theorem serve_spec {method : σ → ℕ → StreamRun σ κ}
    (hmethod : service.methods GrpcHandler.defaultMethod = some method) (app : σ)
    {reads : List Bytes} {bs : Bytes} (h : reads.flatten = kClientPreface ++ bs) :
    (serve service app reads).app.received = [] ∧
      ∃ done todo, frames bs = done ++ todo ∧
        (serve service app reads).app.started = (Http2.Session.notices done).map Prod.fst ∧
        (todo = [] ∨ (serve service app reads).thrown ≠ none) := by
  obtain ⟨done, todo, hframes, hstrip, hend⟩ := Http2.Session.session_fold (onStreamData service)
    { app } (Http2.Session.receiveAll_preface (onStreamData service) { app } h)
  -- What each frame adds, frame by frame: one start for each stream handed over.
  have haccounts : Accounts (done.foldl (Http2.Session.handleFrame (some (onStreamData service)))
      (Http2.Session.started { app })) :=
    List.foldlRecOn done _ (motive := Accounts) ⟨rfl, rfl⟩ fun _ hs frame _ =>
      accounts_handleFrame hmethod hs frame
  have hkeyed : (Http2.Session.started ({ app } : Streams σ κ)).Keyed := by
    intro id stream hstream
    cases hstream
  have hnotified := (Http2.Session.foldl_handleFrame_spec (f := onStreamData service) hkeyed []
    (fun _ => rfl) done).1
  rw [← hstrip] at haccounts hnotified
  refine ⟨haccounts.1, done, todo, hframes, ?_, hend⟩
  have hids := congrArg (List.map Prod.fst) (Http2.Session.map_handed [] done)
  rw [List.map_map] at hids
  have hstarted := haccounts.2
  rw [hnotified] at hstarted
  exact hstarted.trans hids

/-- The DATA frames of a byte string carry these messages, one each. -/
def Carries (bs : Bytes) (messages : List (ℕ × Bytes × Bool)) : Prop :=
  Http2.Session.notices (frames bs) = messages.map fun m => (m.1, GrpcCodec.encode m.2.1 m.2.2)

/-- **The registry path delivers no message.** Whatever the registered method and its callbacks do,
and however the bytes are cut into reads: no `OnMessage` callback is called; the method is started
for every DATA frame, as long as it does not throw; and the messages are delivered only if there is
none. -/
theorem registry_delivers_iff {method : σ → ℕ → StreamRun σ κ}
    (hmethod : service.methods GrpcHandler.defaultMethod = some method) (app : σ)
    {reads : List Bytes} {bs : Bytes} (h : reads.flatten = kClientPreface ++ bs)
    {messages : List (ℕ × Bytes × Bool)} (hmessages : Carries bs messages) :
    (serve service app reads).app.received = [] ∧
      ((serve service app reads).thrown = none →
        (serve service app reads).app.started = messages.map Prod.fst) ∧
      (Delivers (serve service app reads).app messages ↔ messages = []) := by
  obtain ⟨hreceived, done, todo, hframes, hstarted, hend⟩ := serve_spec hmethod app h
  have hall : Http2.Session.notices done ++ Http2.Session.notices todo
      = messages.map fun m => (m.1, GrpcCodec.encode m.2.1 m.2.2) := by
    rw [← hmessages, hframes, Http2.Session.notices, Http2.Session.notices, Http2.Session.notices,
      List.filter_append, List.map_append]
  refine ⟨hreceived, ?_, ?_, ?_⟩
  · intro hthrown
    obtain rfl := hend.resolve_right fun hne => hne hthrown
    have hids := congrArg (List.map Prod.fst) hall
    rw [List.map_append, List.map_map] at hids
    rw [hstarted]
    simp only [Http2.Session.notices, List.filter_nil, List.map_nil, List.append_nil] at hids ⊢
    exact hids
  · intro hdelivers
    rw [List.eq_nil_iff_forall_not_mem]
    intro m hm
    -- its stream has a message, and no callback was called
    have hnone := (hdelivers m.1).1
    rw [hreceived] at hnone
    have hmem : m.2.1 ∈ (messages.filter fun m' => m'.1 = m.1).map fun m => m.2.1 :=
      List.mem_map_of_mem (List.mem_filter.mpr ⟨hm, decide_eq_true rfl⟩)
    rw [← hnone] at hmem
    exact absurd hmem List.not_mem_nil
  · rintro rfl id
    rw [List.map_nil, List.append_eq_nil_iff] at hall
    rw [hreceived, hstarted, hall.1]
    exact ⟨rfl, rfl⟩

/-! ## One message -/

/-- A service whose method installs a callback on its stream at once. -/
def installing : Service Unit Unit where
  methods path :=
    if path = GrpcHandler.defaultMethod then
      some fun app object => { app, calls := [.setOnMessage object ()] }
    else none
  onMessage _ app _ := { app }

/-- The method is registered under the default name. -/
theorem installing_registered : installing.methods GrpcHandler.defaultMethod
    = some fun app object => { app, calls := [.setOnMessage object ()] } := by
  simp only [installing, if_true]

/-- Two messages of stream 1, in a DATA frame each. -/
def twoFrames : Bytes :=
  frameHeader 6 FrameType.data 0 1 ++ GrpcCodec.encode [7] false
    ++ (frameHeader 6 FrameType.data 0 1 ++ GrpcCodec.encode [8] false)

/-- The two frames carry a message each. -/
theorem carries_twoFrames : Carries twoFrames [(1, [7], false), (1, [8], false)] := by
  unfold Carries
  decide +kernel

/-- The method that installs a callback at once is started twice for stream 1, and the callback is
called for neither of its messages. -/
theorem registry_delivers_iff_two :
    (serve installing () [kClientPreface ++ twoFrames]).app.received = [] ∧
      ((serve installing () [kClientPreface ++ twoFrames]).thrown = none →
        (serve installing () [kClientPreface ++ twoFrames]).app.started = [1, 1]) ∧
      (Delivers (serve installing () [kClientPreface ++ twoFrames]).app
        [(1, [7], false), (1, [8], false)] ↔ [(1, ([7] : Bytes), false), (1, [8], false)] = []) :=
  @registry_delivers_iff _ _ installing _ installing_registered () _ _ List.flatten_singleton _
    carries_twoFrames

/-- Two messages of one stream are not delivered. -/
theorem registry_loses_messages :
    ¬ Delivers (serve installing () [kClientPreface ++ twoFrames]).app
      [(1, [7], false), (1, [8], false)] := by
  intro hdelivers
  have hreceived : (serve installing () [kClientPreface ++ twoFrames]).app.received = [] :=
    (@serve_spec _ _ installing _ installing_registered () _ _ List.flatten_singleton).1
  have hone := (hdelivers 1).1
  rw [hreceived] at hone
  exact absurd hone (by decide)

end NetworkLib.GrpcService
