import NetworkLib.Proto.StreamEnvelope

/-! # Protocol handlers and their callbacks

The interface between a protocol handler and the rest of the server. A **stream handler** is
application code: one invocation reads the request and the response skeleton, may call its context
any number of times, and either returns or throws. A protocol handler in turn acts on the connection
through `Send`, `Shutdown` and `ForceClose` only (`ConnCall`). What an `OnMessage` call reads and
changes beside the input buffer is its `Session`. -/

namespace NetworkLib

/-- A call on the `IStreamContext` handed to application code. -/
inductive ContextCall where
  /-- `Write(const StreamEnvelope&)`. -/
  | write (msg : StreamEnvelope)
  /-- `Write(const std::string&)`. -/
  | writeString (data : Bytes)
  /-- `Close()`. -/
  | close
  deriving DecidableEq

/-- The data a context call writes. -/
def ContextCall.data : ContextCall → Bytes
  | .write msg => msg.getPayload.data
  | .writeString data => data
  | .close => []

/-- What application code threw. -/
inductive Thrown where
  /-- An exception derived from `std::exception`. -/
  | stdException
  /-- Any other exception. -/
  | other
  deriving DecidableEq, Repr

/-- What one invocation of application code did: its state afterwards, the response message as it
left it, its calls on the context in order, and the exception it ended with, if any. -/
structure HandlerRun (σ : Type*) where
  app : σ
  resp : StreamEnvelope
  calls : List ContextCall := []
  thrown : Option Thrown := none

/-- `IServer::StreamHandler`, over an application state `σ`. -/
abbrev StreamHandler (σ : Type*) := σ → (req resp : StreamEnvelope) → HandlerRun σ

/-- `IServer::RawHandler`; it has no response message. -/
abbrev RawHandler (σ : Type*) := σ → (data : Bytes) → HandlerRun σ

/-- `IClient::MessageHandler`. -/
abbrev MessageHandler (σ : Type*) := σ → StreamEnvelope → σ × Option Thrown

/-- A call on the connection made by a protocol handler. -/
inductive ConnCall where
  /-- `Send(data)`. -/
  | send (data : Bytes)
  /-- `Shutdown()`. -/
  | shutdown
  /-- `ForceClose()`. -/
  | forceClose
  deriving DecidableEq, Repr

/-- The bytes one call sends. -/
def ConnCall.bytes : ConnCall → Bytes
  | .send data => data
  | .shutdown => []
  | .forceClose => []

/-- The bytes a list of calls sends, in order. -/
def sentBytes (calls : List ConnCall) : Bytes := calls.flatMap ConnCall.bytes

@[simp] theorem sentBytes_append (calls calls' : List ConnCall) :
    sentBytes (calls ++ calls') = sentBytes calls ++ sentBytes calls' := List.flatMap_append

@[simp] theorem sentBytes_send (data : Bytes) : sentBytes [.send data] = data := by
  simp [sentBytes, ConnCall.bytes]

/-- The members every `ProtocolHandler` has. The rate limiter is seen by its answers: the `k`-th
`Consume` call on it returns `answer k`. -/
structure ProtocolHandler (σ : Type*) where
  streamHandler : Option (StreamHandler σ) := none
  rawHandler : Option (RawHandler σ) := none
  rateLimiter : Option (ℕ → Bool) := none

/-- What `OnMessage` reads and changes beside the input buffer. The log `dispatched` holds the
requests passed to the stream handler so far. -/
structure Session (σ : Type*) where
  app : σ
  /-- `Consume` calls made on the rate limiter so far. -/
  consumed : ℕ := 0
  /-- Calls made on the connection so far. -/
  calls : List ConnCall := []
  dispatched : List StreamEnvelope := []
  /-- The exception that left the last `OnMessage` call, if one did. -/
  thrown : Option Thrown := none

variable {σ : Type*}

namespace StreamHandler

/-- Application code that never throws. -/
def NoThrow (f : StreamHandler σ) : Prop := ∀ app req resp, (f app req resp).thrown = none

end StreamHandler

/-- The stream handler fills in a response with these payload data, and does nothing else. -/
def Answers (f : StreamHandler σ) (data : Bytes) : Prop :=
  ∀ app req, (f app req {}).resp.payload = some { data } ∧ (f app req {}).calls = [] ∧
    (f app req {}).thrown = none

/-- A stream handler that answers with these payload data. -/
def answer (data : Bytes) : StreamHandler Unit := fun app _ resp => { app, resp := resp.setData data }

/-- A handler that answers with the same data answers every request with it. -/
theorem answers_answer (data : Bytes) : Answers (answer data) data := fun _ _ => ⟨rfl, rfl, rfl⟩

namespace ProtocolHandler

/-- No stream handler is set, or the one set never throws. -/
def NoThrow (h : ProtocolHandler σ) : Prop := ∀ f, h.streamHandler = some f → f.NoThrow

/-- `CheckRateLimit` on its `k`-th call. -/
def checkRateLimit (h : ProtocolHandler σ) (k : ℕ) : Bool :=
  match h.rateLimiter with
  | none => true
  | some answer => answer k

end ProtocolHandler

namespace Session

/-- Record calls on the connection. -/
def push (s : Session σ) (calls : List ConnCall) : Session σ := { s with calls := s.calls ++ calls }

/-- Record one `CheckRateLimit` call. -/
def consume (s : Session σ) : Session σ := { s with consumed := s.consumed + 1 }

/-- Enter an `OnMessage` call: no exception has left it yet. -/
def enter (s : Session σ) : Session σ := { s with thrown := none }

/-- Invoke the stream handler: log the request, then let the handler act on the connection through
its context, whose calls `onConn` turns into connection calls. -/
def invoke (s : Session σ) (f : StreamHandler σ) (onConn : List ContextCall → List ConnCall)
    (req resp : StreamEnvelope) : Session σ × HandlerRun σ :=
  let run := f s.app req resp
  ({ s with
      app := run.app
      calls := s.calls ++ onConn run.calls
      dispatched := s.dispatched ++ [req] }, run)

@[simp] theorem push_dispatched (s : Session σ) (calls : List ConnCall) :
    (s.push calls).dispatched = s.dispatched := rfl

@[simp] theorem push_consumed (s : Session σ) (calls : List ConnCall) :
    (s.push calls).consumed = s.consumed := rfl

@[simp] theorem push_thrown (s : Session σ) (calls : List ConnCall) :
    (s.push calls).thrown = s.thrown := rfl

@[simp] theorem enter_thrown (s : Session σ) : s.enter.thrown = none := rfl

@[simp] theorem consume_dispatched (s : Session σ) : s.consume.dispatched = s.dispatched := rfl

@[simp] theorem consume_consumed (s : Session σ) : s.consume.consumed = s.consumed + 1 := rfl

@[simp] theorem invoke_dispatched (s : Session σ) (f : StreamHandler σ)
    (onConn : List ContextCall → List ConnCall) (req resp : StreamEnvelope) :
    (s.invoke f onConn req resp).1.dispatched = s.dispatched ++ [req] := rfl

@[simp] theorem invoke_consumed (s : Session σ) (f : StreamHandler σ)
    (onConn : List ContextCall → List ConnCall) (req resp : StreamEnvelope) :
    (s.invoke f onConn req resp).1.consumed = s.consumed := rfl

end Session

end NetworkLib
