import NetworkLib.Protocols.TcpHandler
import NetworkLib.Client.TcpProtocol
import NetworkLib.Theory.LengthPrefix

/-! # TCP framing end to end

The two encoders of the library (`TcpClientProtocol::Send`, `TcpStreamContext::Write`) write
length-prefixed frames, and its two decoders (`TcpHandler::OnMessage`,
`TcpClientProtocol::OnDataReceived`) are loops that read them, so each pair agrees on every cutting
of the byte stream. -/

namespace NetworkLib

open Loop LengthPrefix

variable {σ : Type*} {pb : Protobuf}

/-! ## The encoders -/

/-- The bytes the client sends are the frames of the serialised envelopes. -/
theorem TcpClientProtocol.sentBytes_send (envs : List StreamEnvelope) :
    sentBytes (envs.flatMap (send pb)) = frames (envs.map pb.serializeAsString) := by
  induction envs with
  | nil => rfl
  | cons e envs ih =>
      rw [List.flatMap_cons, sentBytes_append, ih, send, NetworkLib.sentBytes_send, List.map_cons,
        frames_cons]
      rfl

/-- The bytes the server writes for envelopes with a non-empty serialisation are their frames. -/
theorem TcpStreamContext.sentBytes_write {envs : List StreamEnvelope}
    (hne : ∀ e ∈ envs, pb.serializeAsString e ≠ []) :
    sentBytes (envs.flatMap fun e => onConn pb (.write e))
      = frames (envs.map pb.serializeAsString) := by
  induction envs with
  | nil => rfl
  | cons e envs ih =>
      have hwrite : onConn pb (.write e) = [.send (frame (pb.serializeAsString e))] := by
        simp [onConn, frame, hne e List.mem_cons_self]
      rw [List.flatMap_cons, sentBytes_append, ih fun e he => hne e (List.mem_cons_of_mem _ he),
        hwrite, sentBytes_send, List.map_cons, frames_cons]

/-! ## The decoders read frames -/

/-- A length within the sanity bound does not wrap around when the header is added. -/
theorem toNat_four_add {length : UInt32} (h : length.toNat ≤ TcpHandler.maxLength) :
    (4 + length).toNat = 4 + length.toNat := by
  have hmax : TcpHandler.maxLength = 104857600 := rfl
  have hfour : (4 : UInt32).toNat = 4 := rfl
  rw [UInt32.toNat_add, hfour]
  omega

namespace TcpHandler

variable {h : ProtocolHandler σ} {f : StreamHandler σ}

/-- What happens to one complete frame: it is processed, or skipped when rate limited. -/
def serve (pb : Protobuf) (h : ProtocolHandler σ) (s : Session σ) (data : Bytes) : Session σ :=
  if h.checkRateLimit s.consumed then process pb h s.consume data else s.consume

/-- A stream handler that does not throw leaves no exception behind. -/
theorem process_thrown (hf : h.streamHandler = some f) (hnt : f.NoThrow) (s : Session σ)
    (data : Bytes) : (process pb h s data).thrown = none := by
  unfold process
  cases pb.parseFromString data with
  | none => rfl
  | some req => simp only [hf, Session.invoke, hnt s.app req (skeleton req)]

/-- A frame is served without an exception when the handler throws none. -/
theorem serve_thrown (hf : h.streamHandler = some f) (hnt : f.NoThrow) {s : Session σ}
    (hs : s.thrown = none) (data : Bytes) : (serve pb h s data).thrown = none := by
  unfold serve
  split
  · exact process_thrown hf hnt _ data
  · exact hs

/-- A parsed frame is dispatched to the stream handler, once. -/
theorem process_dispatched (hf : h.streamHandler = some f) {s : Session σ} {data : Bytes}
    {req : StreamEnvelope} (hparse : pb.parseFromString data = some req) :
    (process pb h s data).dispatched = s.dispatched ++ [req] ∧
      (process pb h s data).consumed = s.consumed := by
  simp only [process, hparse, hf]
  split <;> exact ⟨rfl, rfl⟩

/-- **A turn of the framed-mode loop is a turn of a loop that reads frames.** -/
theorem turn_eq : turn pb h = frameTurn maxLength (serve pb h)
    (fun s data => h.checkRateLimit s.consumed && (serve pb h s data).thrown.isSome)
    (fun p => (p.1.push [.forceClose], p.2)) := by
  funext p
  obtain ⟨s, buf⟩ := p
  have hlen := toNat_ntohl_take buf
  rw [turn, frameTurn]
  simp only [← hlen]
  by_cases hmax : maxLength < (ntohl (buf.take 4)).toNat
  · rw [if_pos hmax, if_pos hmax]
  · have hadd := toNat_four_add (Nat.not_lt.mp hmax)
    rw [if_neg hmax, if_neg hmax]
    simp only [hadd, Buffer.retrieve_eq_drop, List.drop_drop, serve]
    by_cases hc : h.checkRateLimit s.consumed <;> simp [hc]

/-- Past a complete header within the bound, a turn serves a whole frame or waits. -/
theorem turn_of_header {s : Session σ} {buf : Buffer} (h4 : 4 ≤ buf.length)
    (hmax : announced buf ≤ maxLength) {s' : Session σ}
    (hs' : serve pb h s ((buf.drop 4).take (announced buf)) = s') :
    turn pb h (s, buf) =
      if 4 + announced buf ≤ buf.length then
        if h.checkRateLimit s.consumed ∧ s'.thrown.isSome then
          .leave (s', buf.drop (4 + announced buf))
        else .again (s', buf.drop (4 + announced buf))
      else .leave (s, buf) := by
  rw [turn_eq, frameTurn_of_header h4 hmax, hs']
  simp only [Bool.and_eq_true]

/-- A turn that goes round takes a frame. -/
theorem turn_rank (p q : Session σ × Buffer) (hq : turn pb h p = .again q) :
    q.2.length < p.2.length := by
  rw [turn_eq] at hq
  exact frameTurn_rank p q hq

/-- **The framed-mode loop reads length-prefixed frames** of at most 100 MiB, when the stream
handler does not throw. -/
theorem readsFrames (hf : h.streamHandler = some f) (hnt : f.NoThrow) (hraw : h.rawHandler = none) :
    ReadsFrames maxLength (serve pb h) (fun s => s.thrown = none) (turn pb h) (onMessage pb h) := by
  rw [turn_eq]
  refine frameTurn_readsFrames ?_ ?_ ?_
  · intro s payload hs
    exact serve_thrown hf hnt hs payload
  · intro s payload hs
    simp [serve_thrown hf hnt hs payload]
  · rintro ⟨⟨app, consumed, calls, dispatched, thrown⟩, buf⟩ hp
    cases hp
    rw [← turn_eq]
    simp only [onMessage, hraw]

/-- The requests dispatched for the frames of `envs`, the first of them on the `k`-th
`CheckRateLimit` call: those whose answer was "allowed". -/
def allowed (h : ProtocolHandler σ) (k : ℕ) (envs : List StreamEnvelope) : List StreamEnvelope :=
  ((envs.zipIdx k).filter fun p => h.checkRateLimit p.2).map Prod.fst

/-- Whether the first envelope is let through is the next answer of the limiter. -/
theorem allowed_cons (k : ℕ) (e : StreamEnvelope) (envs : List StreamEnvelope) :
    allowed h k (e :: envs) = (if h.checkRateLimit k then [e] else []) ++ allowed h (k + 1) envs := by
  rw [allowed, allowed, List.zipIdx_cons, List.filter_cons]
  split <;> rfl

/-- Serving the frames of `envs` makes one `CheckRateLimit` call for each and dispatches those
allowed, in order. -/
theorem foldl_serve (hf : h.streamHandler = some f) {envs : List StreamEnvelope}
    (hpb : ∀ e ∈ envs, pb.RoundTrips e) (s : Session σ) :
    ((envs.map pb.serializeAsString).foldl (serve pb h) s).dispatched
        = s.dispatched ++ allowed h s.consumed envs ∧
      ((envs.map pb.serializeAsString).foldl (serve pb h) s).consumed
        = s.consumed + envs.length := by
  induction envs generalizing s with
  | nil => simp [allowed]
  | cons e envs ih =>
      obtain ⟨hd, hc⟩ :=
        ih (fun e he => hpb e (List.mem_cons_of_mem _ he)) (serve pb h s (pb.serializeAsString e))
      rw [List.map_cons, List.foldl_cons, hd, hc]
      have hstep : (serve pb h s (pb.serializeAsString e)).consumed = s.consumed + 1 ∧
          (serve pb h s (pb.serializeAsString e)).dispatched
            = s.dispatched ++ if h.checkRateLimit s.consumed then [e] else [] := by
        unfold serve
        split
        · obtain ⟨hd, hc⟩ := process_dispatched hf (s := s.consume) (hpb e List.mem_cons_self)
          exact ⟨hc, hd⟩
        · exact ⟨rfl, (List.append_nil _).symm⟩
      rw [hstep.1, hstep.2]
      exact ⟨by rw [List.append_assoc, allowed_cons], by rw [List.length_cons]; omega⟩

end TcpHandler

namespace TcpClientProtocol

variable {g : MessageHandler σ}

/-- A frame is processed without an exception when the handler throws none. -/
theorem process_thrown (hnt : MessageHandler.NoThrow g) (s : ClientSession σ) (data : Bytes) :
    (process pb (some g) s data).thrown = none := by
  unfold process
  cases pb.parseFromString data with
  | none => rfl
  | some msg => exact hnt s.app msg

/-- **A turn of the client's receive loop is a turn of a loop that reads frames.** -/
theorem turn_eq : turn pb (some g) = frameTurn maxLength (process pb (some g))
    (fun s data => (process pb (some g) s data).thrown.isSome)
    (fun p => (p.1, Buffer.retrieveAll p.2)) := by
  funext p
  obtain ⟨s, buf⟩ := p
  have hlen := toNat_ntohl_take buf
  rw [turn, frameTurn]
  simp only [← hlen]
  by_cases hmax : maxLength < (ntohl (buf.take 4)).toNat
  · rw [if_pos hmax, if_pos hmax]
  · have hadd := toNat_four_add (Nat.not_lt.mp hmax)
    rw [if_neg hmax, if_neg hmax]
    simp only [hadd, Buffer.retrieve_eq_drop, List.drop_drop]

/-- A turn that goes round takes a frame. -/
theorem turn_rank (p q : ClientSession σ × Buffer) (hq : turn pb (some g) p = .again q) :
    q.2.length < p.2.length := by
  rw [turn_eq] at hq
  exact frameTurn_rank p q hq

/-- **The client's receive loop reads length-prefixed frames** of at most 100 MiB, when the message
handler does not throw. -/
theorem readsFrames (hnt : MessageHandler.NoThrow g) :
    ReadsFrames maxLength (process pb (some g)) (fun s => s.thrown = none) (turn pb (some g))
      (onDataReceived pb (some g)) := by
  rw [turn_eq]
  refine frameTurn_readsFrames ?_ ?_ ?_
  · intro s payload _
    exact process_thrown hnt s payload
  · intro s payload _
    rw [process_thrown hnt s payload]
    rfl
  · rintro ⟨⟨app, delivered, thrown⟩, buf⟩ hp
    cases hp
    rw [← turn_eq]
    rfl

/-- Processing the frames of `envs` delivers each of them, in order. -/
theorem foldl_process {envs : List StreamEnvelope} (hpb : ∀ e ∈ envs, pb.RoundTrips e)
    (s : ClientSession σ) :
    ((envs.map pb.serializeAsString).foldl (process pb (some g)) s).delivered
      = s.delivered ++ envs := by
  induction envs generalizing s with
  | nil => simp
  | cons e envs ih =>
      have hstep : (process pb (some g) s (pb.serializeAsString e)).delivered
          = s.delivered ++ [e] := by
        rw [process, show pb.parseFromString (pb.serializeAsString e) = some e from
          hpb e List.mem_cons_self]
        rfl
      rw [List.map_cons, List.foldl_cons, ih fun e he => hpb e (List.mem_cons_of_mem _ he), hstep,
        List.append_assoc, List.singleton_append]

end TcpClientProtocol

/-! ## Both directions -/

/-- **The server reads what the client has sent.** -/
theorem server_receives {envs : List StreamEnvelope} (hpb : ∀ e ∈ envs, pb.RoundTrips e)
    (hsize : ∀ e ∈ envs, (pb.serializeAsString e).length ≤ 100 * 1024 * 1024) {h : ProtocolHandler σ}
    {f : StreamHandler σ} (hf : h.streamHandler = some f) (hnt : f.NoThrow)
    (hraw : h.rawHandler = none) (app : σ) {received : Bytes}
    (hreceived : received <+: sentBytes (envs.flatMap (TcpClientProtocol.send pb))) :
    ∃ k tail, k ≤ envs.length ∧
      received = sentBytes ((envs.take k).flatMap (TcpClientProtocol.send pb)) ++ tail ∧
      IsTail (envs.map fun e => sentBytes (TcpClientProtocol.send pb e)) k tail ∧
      ∀ reads : List Bytes, reads.flatten = received →
        let r := TcpHandler.receiveAll pb h ({ app }, []) reads
        r.1.dispatched = TcpHandler.allowed h 0 (envs.take k) ∧ r.1.consumed = k ∧ r.2 = tail := by
  have hlimit : TcpHandler.maxLength < 2 ^ 32 := by decide
  have hlen : ∀ p ∈ envs.map pb.serializeAsString, p.length ≤ TcpHandler.maxLength :=
    List.forall_mem_map.mpr hsize
  rw [TcpClientProtocol.sentBytes_send] at hreceived
  -- A front of the stream is some whole frames and a part of the next one.
  obtain ⟨k, tail, hk, heq, htail, hrun⟩ :=
    (TcpHandler.readsFrames hf hnt hraw).foldl_frames hlimit hlen (s := { app }) rfl hreceived
  rw [List.length_map] at hk
  rw [← List.map_take] at heq hrun
  refine ⟨k, tail, hk, ?_, ?_, fun reads hreads => ?_⟩
  · rw [TcpClientProtocol.sentBytes_send, heq]
  · rw [List.map_map] at htail
    simpa [TcpClientProtocol.send, frame, Function.comp_def] using htail
  -- the frames taken parse to the envelopes sent, and the limiter is asked for each
  · obtain ⟨hd, hc⟩ := TcpHandler.foldl_serve hf
      (fun e he => hpb e (List.mem_of_mem_take he)) ({ app } : Session σ)
    have hreads := hrun reads hreads
    refine ⟨?_, ?_, congrArg Prod.snd hreads⟩
    · exact (congrArg (fun r => r.1.dispatched) hreads).trans (by simpa using hd)
    · exact (congrArg (fun r => r.1.consumed) hreads).trans
        (by simpa [List.length_take, Nat.min_eq_left hk] using hc)

/-- **The client reads what the contexts have written.** -/
theorem client_receives {envs : List StreamEnvelope} (hpb : ∀ e ∈ envs, pb.RoundTrips e)
    (hsize : ∀ e ∈ envs, (pb.serializeAsString e).length ≤ 100 * 1024 * 1024)
    (hne : ∀ e ∈ envs, pb.serializeAsString e ≠ []) {g : MessageHandler σ}
    (hnt : MessageHandler.NoThrow g) (app : σ) {received : Bytes}
    (hreceived : received <+: sentBytes (envs.flatMap fun e => TcpStreamContext.onConn pb (.write e))) :
    ∃ k tail, k ≤ envs.length ∧
      received
        = sentBytes ((envs.take k).flatMap fun e => TcpStreamContext.onConn pb (.write e)) ++ tail ∧
      IsTail (envs.map fun e => sentBytes (TcpStreamContext.onConn pb (.write e))) k tail ∧
      ∀ reads : List Bytes, reads.flatten = received →
        let r := TcpClientProtocol.receiveAll pb (some g) ({ app }, []) reads
        r.1.delivered = envs.take k ∧ r.2 = tail := by
  have hlimit : TcpHandler.maxLength < 2 ^ 32 := by decide
  have hlen : ∀ p ∈ envs.map pb.serializeAsString, p.length ≤ TcpHandler.maxLength :=
    List.forall_mem_map.mpr hsize
  rw [TcpStreamContext.sentBytes_write hne] at hreceived
  -- A front of the stream is some whole frames and a part of the next one.
  obtain ⟨k, tail, hk, heq, htail, hrun⟩ :=
    (TcpClientProtocol.readsFrames hnt).foldl_frames hlimit hlen (s := { app }) rfl hreceived
  rw [List.length_map] at hk
  rw [← List.map_take] at heq hrun
  refine ⟨k, tail, hk, ?_, ?_, fun reads hreads => ?_⟩
  · rw [TcpStreamContext.sentBytes_write fun e he => hne e (List.mem_of_mem_take he), heq]
  · have hframe : (envs.map fun e => sentBytes (TcpStreamContext.onConn pb (.write e)))
        = (envs.map pb.serializeAsString).map frame := by
      rw [List.map_map]
      refine List.map_congr_left fun e he => ?_
      have hone : ∀ e' ∈ [e], pb.serializeAsString e' ≠ [] := by simpa using hne e he
      simpa [frames] using TcpStreamContext.sentBytes_write hone
    rwa [hframe]
  -- the frames taken parse to the envelopes written
  · have htake : ∀ e ∈ envs.take k, pb.RoundTrips e := fun e he => hpb e (List.mem_of_mem_take he)
    have hd := TcpClientProtocol.foldl_process (g := g) htake ({ app } : ClientSession σ)
    have hreads := hrun reads hreads
    exact ⟨(congrArg (fun r => r.1.delivered) hreads).trans (by simpa using hd),
      congrArg Prod.snd hreads⟩

/-- **TCP framing end to end.** Let `received` be any front of the bytes written for `envs`. It
consists of the frames of the first `k` envelopes and a tail of the next frame; and however it is
cut into reads,

* the server has asked the rate limiter once for each of the `k` frames, has invoked the stream
  handler exactly for those it allowed, in order, and keeps exactly the tail unread;
* the client has delivered exactly the first `k` envelopes, in order, and keeps exactly the tail
  unread. -/
theorem tcp_framing_end_to_end {envs : List StreamEnvelope}
    (hpb : ∀ e ∈ envs, pb.RoundTrips e)
    (hsize : ∀ e ∈ envs, (pb.serializeAsString e).length ≤ 100 * 1024 * 1024) :
    (∀ (h : ProtocolHandler σ) (f : StreamHandler σ), h.streamHandler = some f → f.NoThrow →
      h.rawHandler = none → ∀ (app : σ) (received : Bytes),
      received <+: sentBytes (envs.flatMap (TcpClientProtocol.send pb)) →
      ∃ k tail, k ≤ envs.length ∧
        received = sentBytes ((envs.take k).flatMap (TcpClientProtocol.send pb)) ++ tail ∧
        IsTail (envs.map fun e => sentBytes (TcpClientProtocol.send pb e)) k tail ∧
        ∀ reads : List Bytes, reads.flatten = received →
          let r := TcpHandler.receiveAll pb h ({ app }, []) reads
          r.1.dispatched = TcpHandler.allowed h 0 (envs.take k) ∧ r.1.consumed = k ∧ r.2 = tail) ∧
    ((∀ e ∈ envs, pb.serializeAsString e ≠ []) → ∀ g : MessageHandler σ, MessageHandler.NoThrow g →
      ∀ (app : σ) (received : Bytes),
      received <+: sentBytes (envs.flatMap fun e => TcpStreamContext.onConn pb (.write e)) →
      ∃ k tail, k ≤ envs.length ∧
        received
          = sentBytes ((envs.take k).flatMap fun e => TcpStreamContext.onConn pb (.write e)) ++ tail ∧
        IsTail (envs.map fun e => sentBytes (TcpStreamContext.onConn pb (.write e))) k tail ∧
        ∀ reads : List Bytes, reads.flatten = received →
          let r := TcpClientProtocol.receiveAll pb (some g) ({ app }, []) reads
          r.1.delivered = envs.take k ∧ r.2 = tail) := by
  constructor
  · intro h f hf hnt hraw app received hreceived
    exact server_receives hpb hsize hf hnt hraw app hreceived
  · intro hne g hnt app received hreceived
    exact client_receives hpb hsize hne hnt app hreceived

/-- Two envelopes with a short payload, the first of them refused by the limiter. -/
theorem tcp_framing_end_to_end_short :
    let pb := Protobuf.shortPayload
    let envs : List StreamEnvelope :=
      [{ payload := some { data := [1, 2] } }, { payload := some { data := [3] } }]
    let h : ProtocolHandler ℕ :=
      { streamHandler := some fun n _ resp => { app := n + 1, resp }
        rateLimiter := some fun k => k = 1 }
    let g : MessageHandler ℕ := fun n _ => (n + 1, none)
    (∃ k tail, k ≤ envs.length ∧
      sentBytes (envs.flatMap (TcpClientProtocol.send pb))
        = sentBytes ((envs.take k).flatMap (TcpClientProtocol.send pb)) ++ tail ∧
      IsTail (envs.map fun e => sentBytes (TcpClientProtocol.send pb e)) k tail ∧
      ∀ reads : List Bytes,
        reads.flatten = sentBytes (envs.flatMap (TcpClientProtocol.send pb)) →
        let r := TcpHandler.receiveAll pb h ({ app := 0 }, []) reads
        r.1.dispatched = TcpHandler.allowed h 0 (envs.take k) ∧ r.1.consumed = k ∧ r.2 = tail) ∧
    ∃ k tail, k ≤ envs.length ∧
      sentBytes (envs.flatMap fun e => TcpStreamContext.onConn pb (.write e))
        = sentBytes ((envs.take k).flatMap fun e => TcpStreamContext.onConn pb (.write e)) ++ tail ∧
      IsTail (envs.map fun e => sentBytes (TcpStreamContext.onConn pb (.write e))) k tail ∧
      ∀ reads : List Bytes,
        reads.flatten = sentBytes (envs.flatMap fun e => TcpStreamContext.onConn pb (.write e)) →
        let r := TcpClientProtocol.receiveAll pb (some g) ({ app := 0 }, []) reads
        r.1.delivered = envs.take k ∧ r.2 = tail := by
  intro pb envs h g
  have hpb : ∀ e ∈ envs, pb.RoundTrips e := by decide
  have hsize : ∀ e ∈ envs, (pb.serializeAsString e).length ≤ 100 * 1024 * 1024 := by decide
  obtain ⟨hserver, hclient⟩ := tcp_framing_end_to_end (σ := ℕ) hpb hsize
  exact ⟨hserver h _ rfl (fun _ _ _ => rfl) rfl 0 _ (List.prefix_refl _),
    hclient (by decide) g (fun _ _ => rfl) 0 _ (List.prefix_refl _)⟩

end NetworkLib
