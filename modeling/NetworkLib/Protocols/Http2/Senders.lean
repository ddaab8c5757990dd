import NetworkLib.Core.NoCallbacks
import NetworkLib.Theory.Interleaving
import NetworkLib.Protocols.Http2.Session
import NetworkLib.Client.GrpcProtocol

/-! # HTTP/2 frames from several threads

`SendStreamData`, `SendHeaders` and `GrpcClientProtocol::Send` send a header and its payload with
two calls of `Connection::Send`. Every one of these calls is executed at once in the loop's thread
and queued by itself in any other, so that sends of two threads may come between each other.
`Breaks` says when they do; the frames on the connection are whole exactly in the runs in which no
event breaks one (`frames_whole_iff`).

What the callbacks of the connection send is among the calls of the loop's thread, so none is
installed. -/

namespace NetworkLib.Http2

open HeaderFormat

/-- A call that sends frames. -/
inductive FrameCall where
  | sendStreamData (streamId : ℕ) (data : Bytes) (endStream : Bool)
  | sendHeaders (streamId : ℕ) (headers : List (Bytes × Bytes)) (endStream : Bool)
  | grpcSend (envelope : StreamEnvelope)

namespace FrameCall

variable (pb : Protobuf)

/-- What the call does on the connection. -/
def connCalls : FrameCall → List ConnCall
  | .sendStreamData streamId data endStream => Session.sendStreamData streamId data endStream
  | .sendHeaders streamId headers endStream => Session.sendHeaders streamId headers endStream
  | .grpcSend envelope => GrpcClientProtocol.send pb envelope

/-- The frames of the call: a header and a payload each. -/
def frames : FrameCall → List (Bytes × Bytes)
  | .sendStreamData streamId data endStream =>
      [(frameHeader data.length FrameType.data (if endStream then 0x01 else 0x00) streamId, data)]
  | .sendHeaders streamId headers endStream =>
      let hpackBlock := HpackEncoder.encode headers
      [(frameHeader (hpackBlock.length % 2 ^ 32) FrameType.headers
        (if endStream then 0x05 else 0x04) streamId, hpackBlock)]
  | .grpcSend envelope =>
      let hpackBlock := HpackEncoder.encode (GrpcClientProtocol.headers envelope)
      let grpcBytes := GrpcCodec.encode (pb.serializeAsString envelope) false
      [(frameHeader hpackBlock.length FrameType.headers 0x4 1, hpackBlock),
        (frameHeader grpcBytes.length FrameType.data 0x1 1, grpcBytes)]

/-- The sends of the call in a thread, each as the piece of a frame. -/
def sends (thread : Option ℕ) (c : FrameCall) : List (Piece (Option ℕ)) :=
  match c with
  | .sendHeaders _ headers _ =>
      (c.frames pb).flatMap fun m => ⟨thread, m, false⟩ ::
        if 0 < (HpackEncoder.encode headers).length % 2 ^ 32 then [⟨thread, m, true⟩] else []
  | _ => (c.frames pb).flatMap (pieces thread)

/-- Every payload fits in the three bytes of a frame's length. -/
def Fits (c : FrameCall) : Prop := ∀ m ∈ c.frames pb, m.2.length < 2 ^ 24

instance (c : FrameCall) : Decidable (c.Fits pb) := inferInstanceAs (Decidable (∀ m ∈ _, _))

variable {pb}

/-- The pieces are what the code sends. -/
theorem connCalls_eq (thread : Option ℕ) (c : FrameCall) :
    c.connCalls pb = (c.sends pb thread).map fun p => .send p.data := by
  cases c with
  | sendStreamData streamId data endStream =>
      cases data with
      | nil => rfl
      | cons b data => rfl
  | sendHeaders streamId headers endStream =>
      simp only [connCalls, Session.sendHeaders, sends, frames, List.flatMap_cons,
        List.flatMap_nil, List.append_nil, List.map_cons]
      by_cases h : 0 < (HpackEncoder.encode headers).length % 2 ^ 32
      · rw [if_pos h, if_pos h]
        rfl
      · rw [if_neg h, if_neg h]
        rfl
  | grpcSend envelope =>
      have hblock : HpackEncoder.encode (GrpcClientProtocol.headers envelope) ≠ [] :=
        HpackEncoder.encode_ne_nil (by simp [GrpcClientProtocol.headers])
      have hbytes : GrpcCodec.encode (pb.serializeAsString envelope) false ≠ [] := by
        simp [GrpcCodec.encode]
      simp only [connCalls, GrpcClientProtocol.send, sends, frames, List.flatMap_cons,
        List.flatMap_nil, List.append_nil, pieces, if_neg hblock, if_neg hbytes]
      rfl

/-- A header announces its payload exactly if the payload fits. -/
theorem isMessage_iff {c : FrameCall} {m : Bytes × Bytes} (hm : m ∈ c.frames pb) :
    format.IsMessage m ↔ m.2.length < 2 ^ 24 := by
  have hheader (n : ℕ) (type : FrameType) (flags : UInt8) (id : ℕ) (payload : Bytes)
      (hn : n % 2 ^ 24 = payload.length % 2 ^ 24) :
      format.IsMessage (frameHeader n type flags id, payload) ↔ payload.length < 2 ^ 24 := by
    have hsize : format.IsMessage (frameHeader n type flags id, payload)
        ↔ n % 2 ^ 24 = payload.length := by
      simp [IsMessage, format, ofBytes_frameHeader]
    rw [hsize, hn]
    exact ⟨fun h => h ▸ Nat.mod_lt _ (by decide), Nat.mod_eq_of_lt⟩
  cases c with
  | sendStreamData streamId data endStream =>
      obtain rfl := List.mem_singleton.mp hm
      exact hheader _ _ _ _ _ rfl
  | sendHeaders streamId headers endStream =>
      obtain rfl := List.mem_singleton.mp hm
      exact hheader _ _ _ _ _ (Nat.mod_mod_of_dvd _ (by decide))
  | grpcSend envelope =>
      obtain rfl | hm := List.mem_cons.mp hm
      · exact hheader _ _ _ _ _ rfl
      · obtain rfl := List.mem_singleton.mp hm
        exact hheader _ _ _ _ _ rfl

/-- A call whose payloads fit sends the pieces of its frames. -/
theorem sends_of_fits {c : FrameCall} (h : c.Fits pb) (thread : Option ℕ) :
    c.sends pb thread = (c.frames pb).flatMap (pieces thread) := by
  cases c with
  | sendHeaders streamId headers endStream =>
      have hlen : (HpackEncoder.encode headers).length % 2 ^ 32
          = (HpackEncoder.encode headers).length :=
        Nat.mod_eq_of_lt ((h _ List.mem_cons_self).trans (by decide))
      simp only [sends, hlen, frames, List.flatMap_cons, List.flatMap_nil, pieces,
        List.length_pos_iff, ne_eq, ite_not]
  | _ => rfl

/-- A call whose payloads fit sends whole frames. -/
theorem scan_of_fits {c : FrameCall} (h : c.Fits pb) (thread : Option ℕ) :
    format.scan none (c.sends pb thread) = some none := by
  refine scan_of_whole ⟨(c.frames pb).map fun m => (thread, m), ?_, ?_⟩
  · intro m hm
    obtain ⟨m', hm', rfl⟩ := List.mem_map.mp hm
    exact (isMessage_iff hm').mpr (h m' hm')
  · rw [sends_of_fits h, List.flatMap_map]

/-- A call with a payload that does not fit sends a header that does not announce it. -/
theorem exists_bad {c : FrameCall} (h : ¬ c.Fits pb) (thread : Option ℕ) :
    ∃ p ∈ c.sends pb thread, p.isPayload = false ∧ ¬ format.IsMessage p.message := by
  simp only [Fits, not_forall] at h
  obtain ⟨m, hm, hlen⟩ := h
  refine ⟨⟨thread, m, false⟩, ?_, rfl, fun hmessage => hlen ((isMessage_iff hm).mp hmessage)⟩
  cases c <;> exact List.mem_flatMap.mpr ⟨m, hm, List.mem_cons_self⟩

/-- The pieces of a call carry its thread. -/
theorem sender_of_mem {c : FrameCall} {thread : Option ℕ} {p : Piece (Option ℕ)}
    (hp : p ∈ c.sends pb thread) : p.sender = thread := by
  have hpieces {m : Bytes × Bytes} {q : Prop} [Decidable q]
      (h : p ∈ (⟨thread, m, false⟩ : Piece (Option ℕ)) :: if q then [] else [⟨thread, m, true⟩]) :
      p.sender = thread := by
    obtain rfl | h := List.mem_cons.mp h
    · rfl
    · split at h
      · cases h
      · obtain rfl := List.mem_singleton.mp h
        rfl
  cases c with
  | sendHeaders streamId headers endStream =>
      obtain ⟨m, -, hm⟩ := List.mem_flatMap.mp hp
      refine hpieces (m := m) (q := ¬ 0 < (HpackEncoder.encode headers).length % 2 ^ 32) ?_
      rwa [ite_not]
  | _ =>
      obtain ⟨m, -, hm⟩ := List.mem_flatMap.mp hp
      exact hpieces hm

variable (pb) in
/-- Every call sends a header first. -/
theorem sends_head (c : FrameCall) (thread : Option ℕ) :
    ∃ p ps, c.sends pb thread = p :: ps ∧ p.isPayload = false ∧ p.sender = thread := by
  cases c <;> exact ⟨_, _, rfl, rfl, rfl⟩

end FrameCall

/-! ## The threads and the loop -/

/-- A connection with the sends queued with its loop, and the threads that send frames on it. The
pieces of frames executed, queued and still to be sent are kept beside the data. -/
structure Senders (σ : Type*) where
  queue : SendQueue σ
  /-- What is left of the call a thread is in; the thread is `none` for the loop's own. -/
  unsent : Option ℕ → List (Piece (Option ℕ)) := fun _ => []
  sent : List (Piece (Option ℕ)) := []
  tasks : List (Piece (Option ℕ)) := []
  pendingTasks : List (Piece (Option ℕ)) := []

namespace Senders

variable {σ : Type*}

/-- What happens: a thread that is in no call begins one, a thread in a call sends its next piece,
the loop runs its tasks, or something happens to the connection. -/
inductive Event where
  | call (thread : Option ℕ) (c : FrameCall)
  | send (thread : Option ℕ)
  | takeTasks
  | runTask
  | other (e : SendQueue.Event)

variable (os : Os) (pb : Protobuf)

/-- A thread begins a call. -/
def call (s : Senders σ) (thread : Option ℕ) (c : FrameCall) : Senders σ :=
  if s.unsent thread = [] then
    { s with unsent := Function.update s.unsent thread (c.sends pb thread) }
  else s

/-- A thread sends the next piece of its call. -/
def send (s : Senders σ) (thread : Option ℕ) : Senders σ :=
  match s.unsent thread with
  | [] => s
  | p :: ps =>
      let s :=
        { s with
          unsent := Function.update s.unsent thread ps
          queue := s.queue.step os {} (.send thread p.data) }
      match thread with
      | none => { s with sent := s.sent ++ [p] }
      | some _ => { s with pendingTasks := s.pendingTasks ++ [p] }

/-- `EventLoop::HandleRead` takes the pending tasks. -/
def takeTasks (s : Senders σ) : Senders σ :=
  match s.tasks with
  | [] =>
      { s with
        queue := s.queue.step os {} .takeTasks
        tasks := s.pendingTasks
        pendingTasks := [] }
  | _ :: _ => s

/-- `EventLoop::HandleRead` runs the next task. -/
def runTask (s : Senders σ) : Senders σ :=
  match s.tasks with
  | [] => s
  | p :: tasks =>
      { s with
        queue := s.queue.step os {} .runTask
        sent := s.sent ++ [p]
        tasks }

/-- Something else happens to the connection. -/
def other (s : Senders σ) (e : SendQueue.Event) : Senders σ :=
  match e with
  | .send _ _ => s
  | .takeTasks => s
  | .runTask => s
  | e => { s with queue := s.queue.step os {} e }

/-- One event. While the loop's thread is in a call, it does nothing else. -/
def step (s : Senders σ) : Event → Senders σ
  | .call thread c => s.call pb thread c
  | .send thread => s.send os thread
  | .takeTasks => if s.unsent none = [] then s.takeTasks os else s
  | .runTask => if s.unsent none = [] then s.runTask os else s
  | .other e => if s.unsent none = [] then s.other os e else s

/-- The pieces executed, and those that will be, in the order known so far. -/
def line (s : Senders σ) : List (Piece (Option ℕ)) :=
  s.sent ++ s.unsent none ++ s.tasks ++ s.pendingTasks

/-- The event breaks a frame: a payload does not fit, or something is sent behind a header of
another thread that waits for its payload. -/
def Breaks (s : Senders σ) : Event → Prop
  | .call thread c =>
      s.unsent thread = [] ∧ (¬ c.Fits pb ∨ thread = none ∧ lastOpen s.sent ≠ none)
  | .send (some k) =>
      s.unsent (some k) ≠ [] ∧ ∃ h, lastOpen s.line = some h ∧ h.sender ≠ some k
  | _ => False

/-- The threads on a connection, before any call. -/
def start (c : Connection σ) : Senders σ := { queue := SendQueue.start c }

/-- A run. -/
def run (c : Connection σ) (es : List Event) : Senders σ :=
  Trace.run (step os pb) (start c) es

/-- Every call has been sent and executed. -/
def Done (s : Senders σ) : Prop :=
  (∀ thread, s.unsent thread = []) ∧ s.tasks = [] ∧ s.pendingTasks = []

/-- The bytes written to the connection. -/
def written (s : Senders σ) : Bytes :=
  Connection.wire s.queue.conn.log ++ s.queue.conn.outputBuffer

end Senders

end NetworkLib.Http2
