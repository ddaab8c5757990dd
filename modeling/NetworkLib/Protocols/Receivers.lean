import NetworkLib.Protocols.RpcHandler
import NetworkLib.Protocols.TcpFraming
import NetworkLib.Protocols.WebSocket.Handler
import NetworkLib.Theory.Dispatching

/-! # Protocol handlers as receivers

What the handlers make of the complete messages in an input buffer. A **receiver** is a handler with
its stream handler set, as it is called on a connection; its reader says which messages the buffer
holds, whatever the stream handler does with them. The loops of the framed TCP, the RPC and the
WebSocket handler dispatch their messages (`TcpHandler.dispatched`, `RpcHandler.dispatched`,
`WebSocketHandler.dispatched`) and differ in the exceptions they contain. -/

namespace NetworkLib

open Loop LengthPrefix

/-- A protocol handler as it is called on a connection: states `S`, inputs `ρ`. -/
structure Receiver (S ρ σ : Type*) extends View S ρ StreamEnvelope σ where
  /-- `OnMessage` called in the first state leaves the second behind, when it returns or when an
  exception leaves it. -/
  OnMessage : S → S → Prop
  /-- Bytes are read into the input buffer. -/
  append : S → Bytes → S
  reader : Reader ρ StreamEnvelope UInt8
  /-- One invocation of the stream handler. -/
  callback : σ → StreamEnvelope → σ × HandlerRun σ
  /-- An exception of such an invocation leaves `OnMessage`. -/
  escapes : HandlerRun σ → Bool

namespace Receiver

variable {S ρ σ : Type*} (R : Receiver S ρ σ)

/-- The complete messages in the input, each with the input behind it. -/
def messages (p : S) : List (StreamEnvelope × ρ) := R.reader.messages (R.reading p)

/-- The runs of the stream handler on the messages in the input, up to the first whose exception
leaves `OnMessage`. -/
def runs (p : S) : List (HandlerRun σ) :=
  outcomes R.callback R.escapes (R.state p) ((R.messages p).map Prod.fst)

/-- From `p` to `q` the messages in the input of `p` were passed on, up to the `j`-th. -/
def Passed (p q : S) (j : ℕ) : Prop :=
  R.passed p ++ ((R.messages p).take (j + 1)).map Prod.fst <+: R.passed q

/-- What a call of `OnMessage` makes of the messages in the input. -/
def Dispatched (Ends : ρ → Prop) (p : S) : Prop :=
  NetworkLib.Dispatched R.reader R.callback R.escapes R.toView Ends (R.reading p) (R.state p)
    (R.passed p) (R.OnMessage p)

end Receiver

/-- A stream handler as a callback, given the response it finds for a request. -/
def StreamHandler.callback {σ : Type*} (f : StreamHandler σ)
    (skeleton : StreamEnvelope → StreamEnvelope) (app : σ) (req : StreamEnvelope) :
    σ × HandlerRun σ :=
  ((f app req (skeleton req)).app, f app req (skeleton req))

/-- A protocol handler with a stream handler and no raw handler. -/
def ProtocolHandler.streaming {σ : Type*} (limiter : Option (ℕ → Bool)) (f : StreamHandler σ) :
    ProtocolHandler σ where
  streamHandler := some f
  rateLimiter := limiter

variable {σ : Type*} (pb : Protobuf) (limiter : Option (ℕ → Bool)) (f : StreamHandler σ)

/-! ## TCP -/

namespace TcpHandler

/-- What is seen of a session and its input buffer. -/
def view : View (Session σ × Buffer) (ℕ × Buffer) StreamEnvelope σ where
  reading p := (p.1.consumed, p.2)
  state p := p.1.app
  passed p := p.1.dispatched
  escaped p := p.1.thrown ≠ none

/-- Take one frame off the buffer: a message, if the limiter lets the frame through and it parses.
-/
def next (h : ProtocolHandler σ) : ℕ × Buffer → Option (Option StreamEnvelope × (ℕ × Buffer))
  | (k, buf) =>
      if Incomplete buf ∨ maxLength < announced buf then none
      else some (if h.checkRateLimit k then
          pb.parseFromString ((buf.drop 4).take (announced buf)) else none,
        (k + 1, buf.drop (4 + announced buf)))

/-- The messages of a buffer. -/
def reader (h : ProtocolHandler σ) : Reader (ℕ × Buffer) StreamEnvelope UInt8 where
  next := next pb h
  left r := r.2
  rank r := r.2.length
  rank_lt := by
    rintro ⟨k, buf⟩ x r' hnext
    rw [next] at hnext
    split at hnext
    · cases hnext
    · next hc =>
        cases hnext
        rw [not_or, Incomplete] at hc
        show (buf.drop _).length < buf.length
        rw [List.length_drop]
        omega
  left_suffix := by
    rintro ⟨k, buf⟩ x r' hnext
    rw [next] at hnext
    split at hnext
    · cases hnext
    · cases hnext
      exact List.drop_suffix _ _

/-- The framed TCP handler. -/
def receiver : Receiver (Session σ × Buffer) (ℕ × Buffer) σ where
  toView := view
  OnMessage p q := onMessage pb (.streaming limiter f) p = q
  append p more := (p.1, Buffer.append p.2 more)
  reader := reader pb (.streaming limiter f)
  callback := f.callback skeleton
  escapes run := run.thrown.isSome

variable {pb} {h : ProtocolHandler σ} {f}

/-- What becomes of one complete frame. -/
theorem serve_serves (hf : h.streamHandler = some f) {s : Session σ} (hs : s.thrown = none)
    (data : Bytes) (buf buf' : Buffer) :
    view.Serves (f.callback skeleton) (fun run => run.thrown.isSome) (s, buf)
      (serve pb h s data, buf')
      (if h.checkRateLimit s.consumed then pb.parseFromString data else none) := by
  unfold serve
  -- Three checks in the order of the code: the limiter, the parser, and what the handler throws.
  by_cases hlimit : h.checkRateLimit s.consumed = true
  · rw [if_pos hlimit, if_pos hlimit]
    cases hparse : pb.parseFromString data with
    | none =>
        simp only [process, hparse]
        exact ⟨not_not.mpr rfl, rfl, rfl⟩
    | some req =>
        simp only [process, hparse, hf, Session.invoke]
        cases hthrown : (f s.app req (skeleton req)).thrown with
        | none =>
            have hthrown' : (f s.consume.app req (skeleton req)).thrown = none := hthrown
            simp only [hthrown']
            exact ⟨iff_of_false (not_not.mpr rfl) (by simp [StreamHandler.callback, view, hthrown]),
              rfl, rfl⟩
        | some e =>
            have hthrown' : (f s.consume.app req (skeleton req)).thrown = some e := hthrown
            simp only [hthrown']
            exact ⟨iff_of_true (Option.some_ne_none e)
              (by simp [StreamHandler.callback, view, hthrown]), rfl, rfl⟩
  · rw [if_neg hlimit, if_neg hlimit]
    exact ⟨not_not.mpr hs, rfl, rfl⟩

/-- Nothing is thrown on a frame that the limiter refuses. -/
theorem limit_of_thrown {s : Session σ} (hs : s.thrown = none) {data : Bytes}
    (hthrown : (serve pb h s data).thrown.isSome = true) : h.checkRateLimit s.consumed = true := by
  by_contra hlimit
  have hnone : (serve pb h s data).thrown = none := by
    rw [serve, if_neg hlimit]
    exact hs
  rw [hnone] at hthrown
  cases hthrown

/-- A message is one question to the limiter. -/
theorem serve_consumed (s : Session σ) (data : Bytes) :
    (serve pb h s data).consumed = s.consumed + 1 := by
  unfold serve
  split
  · unfold process
    cases pb.parseFromString data with
    | none => rfl
    | some req =>
        cases h.streamHandler with
        | none => rfl
        | some f =>
            simp only [Session.invoke]
            split <;> rfl
  · rfl

/-- What the reader takes from a buffer with a whole frame in front. -/
theorem next_eq (k : ℕ) {buf : Buffer} (hwhole : ¬ Incomplete buf)
    (hmax : announced buf ≤ maxLength) :
    next pb h (k, buf)
      = some (if h.checkRateLimit k then
          pb.parseFromString ((buf.drop 4).take (announced buf)) else none,
        (k + 1, buf.drop (4 + announced buf))) :=
  if_neg (not_or.mpr ⟨hwhole, not_lt.mpr hmax⟩)

/-- Where a message can be taken off the buffer a whole frame is served. -/
theorem turn_of_next {s : Session σ} (hs : s.thrown = none) {buf : Buffer}
    {x : Option StreamEnvelope} {r : ℕ × Buffer}
    (hnext : next pb h (s.consumed, buf) = some (x, r)) :
    ∃ data, x = (if h.checkRateLimit s.consumed then pb.parseFromString data else none) ∧
      r = ((serve pb h s data).consumed, r.2) ∧
      turn pb h (s, buf) =
        if (serve pb h s data).thrown.isSome then .leave (serve pb h s data, r.2)
        else .again (serve pb h s data, r.2) := by
  by_cases hc : Incomplete buf ∨ maxLength < announced buf
  · exact absurd hnext (by rw [show next pb h (s.consumed, buf) = none from if_pos hc]; simp)
  · obtain ⟨hwhole, hmax⟩ := not_or.mp hc
    rw [next_eq _ hwhole (not_lt.mp hmax)] at hnext
    cases hnext
    rw [Incomplete, not_lt] at hwhole
    refine ⟨(buf.drop 4).take (announced buf), rfl, ?_, ?_⟩
    · rw [serve_consumed]
    · rw [turn_of_header (by omega) (not_lt.mp hmax) rfl, if_pos hwhole]
      exact if_congr (and_iff_right_of_imp (limit_of_thrown hs)) rfl rfl

variable (pb) in
/-- **The framed TCP handler dispatches its messages**, and no exception is contained. -/
theorem dispatches (hf : h.streamHandler = some f) :
    Dispatches (reader pb h) (f.callback skeleton) (fun run => run.thrown.isSome) view
      (fun _ => True) (turn pb h) := by
  apply Dispatches.of_serves
  · -- a whole frame
    rintro ⟨s, buf⟩ x r hgoing hnext
    have hs : s.thrown = none := not_not.mp hgoing
    have hsome : next pb h (s.consumed, buf) = some (x, r) := hnext
    obtain ⟨data, rfl, hr, hturn⟩ := turn_of_next hs hsome
    refine ⟨(serve pb h s data, r.2), serve_serves hf hs data buf r.2, fun hescaped => ?_,
      fun hon => ⟨?_, hr.symm⟩⟩
    · rw [hturn, if_pos (Option.isSome_iff_ne_none.mpr hescaped)]
    · rw [hturn, if_neg (by simpa [view] using hon)]
  · -- the end of the buffer, or a frame that is too long
    rintro ⟨s, buf⟩ hgoing hnext -
    have hc : Incomplete buf ∨ maxLength < announced buf := by
      by_contra hc
      obtain ⟨hwhole, hmax⟩ := not_or.mp hc
      have hnone : next pb h (s.consumed, buf) = none := hnext
      rw [next_eq _ hwhole (not_lt.mp hmax)] at hnone
      cases hnone
    by_cases h4 : buf.length < 4
    · exact ⟨(s, buf), by rw [turn, if_pos h4], hgoing, rfl, List.suffix_refl _⟩
    · by_cases hmax : maxLength < announced buf
      · -- the connection is closed
        refine ⟨(s.push [.forceClose], buf), ?_, hgoing, rfl, List.suffix_refl _⟩
        rw [turn, if_neg h4]
        simp only [toNat_ntohl_take, if_pos hmax]
      · have hshort := hc.resolve_right hmax
        rw [Incomplete] at hshort
        refine ⟨(s, buf), ?_, hgoing, rfl, List.suffix_refl _⟩
        rw [turn_of_header (by omega) (not_lt.mp hmax) rfl, if_neg (by omega)]
  · exact fun _ _ _ _ hends => absurd trivial hends

variable (pb f) in
/-- One call of the framed TCP handler. -/
theorem dispatched (p : Session σ × Buffer) :
    (receiver pb limiter f).Dispatched (fun _ => True) p := by
  have hloop := (dispatches pb (h := .streaming limiter f) rfl).dispatched
    (s := ({ p.1 with thrown := none }, p.2)) (not_not.mpr rfl)
  have hexits : Exits (turn pb (.streaming limiter f)) ({ p.1 with thrown := none }, p.2)
      = (receiver pb limiter f).OnMessage p := by
    funext q
    exact propext (exits_iff_run_eq _ turn_rank)
  rw [hexits] at hloop
  exact hloop

end TcpHandler

/-! ## RPC -/

namespace RpcHandler

/-- What is seen of a session and its input buffer. -/
def view : View (Session σ × Buffer) Buffer StreamEnvelope σ where
  reading p := p.2
  state p := p.1.app
  passed p := p.1.dispatched
  escaped p := p.1.thrown ≠ none

/-- The size of the frame at the front, as the code computes it. -/
def frameSize (buf : Buffer) : ℕ := (4 + ntohl (buf.take 4)).toNat

/-- There is a whole frame at the front, and its size is 0 in 32 bits. -/
def Stalls (buf : Buffer) : Prop := 4 ≤ buf.length ∧ frameSize buf = 0

/-- Take one frame off the buffer: a message, if it parses. -/
def next (buf : Buffer) : Option (Option StreamEnvelope × Buffer) :=
  if buf.length < 4 ∨ buf.length < frameSize buf ∨ frameSize buf = 0 then none
  else some (pb.parseFromArray (buf.drop 4) (ntohl (buf.take 4)).toInt32.toInt,
    buf.drop (frameSize buf))

/-- The messages of a buffer. -/
def reader : Reader Buffer StreamEnvelope UInt8 where
  next := next pb
  left buf := buf
  rank buf := buf.length
  rank_lt := by
    intro buf x r' hnext
    rw [next] at hnext
    split at hnext
    · cases hnext
    · cases hnext
      rw [List.length_drop]
      omega
  left_suffix := by
    intro buf x r' hnext
    rw [next] at hnext
    split at hnext
    · cases hnext
    · cases hnext
      exact List.drop_suffix _ _

/-- The RPC handler. -/
def receiver : Receiver (Session σ × Buffer) Buffer σ where
  toView := view
  OnMessage := OnMessage pb (.streaming limiter f)
  append p more := (p.1, Buffer.append p.2 more)
  reader := reader pb
  callback := f.callback fun _ => {}
  escapes run := run.thrown.isSome

variable {pb} {h : ProtocolHandler σ} {f}

/-- What becomes of the payload of one frame. -/
theorem process_serves (hf : h.streamHandler = some f) {s : Session σ} (hs : s.thrown = none)
    (data : Bytes) (length : UInt32) (buf buf' : Buffer) :
    view.Serves (f.callback fun _ => {}) (fun run => run.thrown.isSome) (s, buf)
      (process pb h s data length, buf') (pb.parseFromArray data length.toInt32.toInt) := by
  unfold process
  cases pb.parseFromArray data length.toInt32.toInt with
  | none => exact ⟨not_not.mpr hs, rfl, rfl⟩
  | some req =>
      simp only [hf, Session.invoke]
      cases hthrown : (f s.app req {}).thrown with
      | none =>
          exact ⟨iff_of_false (not_not.mpr hs) (by simp [StreamHandler.callback, view, hthrown]),
            rfl, rfl⟩
      | some e =>
          exact ⟨iff_of_true (Option.some_ne_none e)
            (by simp [StreamHandler.callback, view, hthrown]), rfl, rfl⟩

/-- A turn with a whole frame in front of it. -/
theorem turn_of_whole {s : Session σ} {buf : Buffer} (h4 : 4 ≤ buf.length)
    (hwhole : frameSize buf ≤ buf.length) {s' : Session σ}
    (hs' : process pb h s (buf.drop 4) (ntohl (buf.take 4)) = s') :
    turn pb h (s, buf) =
      if s'.thrown.isSome then .leave (s', buf) else .again (s', buf.drop (frameSize buf)) := by
  rw [frameSize] at hwhole ⊢
  rw [turn, if_neg (by omega)]
  simp only [if_neg (not_lt.mpr hwhole), hs', Buffer.retrieve_eq_drop]

/-- Where a message can be taken off the buffer a whole frame is processed. -/
theorem turn_of_next (s : Session σ) (buf : Buffer) {x : Option StreamEnvelope} {r : Buffer}
    (hnext : next pb buf = some (x, r)) :
    x = pb.parseFromArray (buf.drop 4) (ntohl (buf.take 4)).toInt32.toInt ∧
      turn pb h (s, buf) =
        if (process pb h s (buf.drop 4) (ntohl (buf.take 4))).thrown.isSome then
          .leave (process pb h s (buf.drop 4) (ntohl (buf.take 4)), buf)
        else .again (process pb h s (buf.drop 4) (ntohl (buf.take 4)), r) := by
  rw [next] at hnext
  split at hnext
  · cases hnext
  · next hc =>
      cases hnext
      simp only [not_or, not_lt] at hc
      exact ⟨rfl, turn_of_whole hc.1 hc.2.1 rfl⟩

/-- Where a frame of size 0 stands in front, the loop is left by an exception only. -/
theorem escaped_of_stalls {buf : Buffer} (hstalls : Stalls buf) {s : Session σ}
    {t : Session σ × Buffer} (hexits : Exits (turn pb h) (s, buf) t) : t.1.thrown ≠ none := by
  obtain ⟨h4, hzero⟩ := hstalls
  obtain ⟨⟨s', buf'⟩, hreaches, hleave⟩ := exits_iff_reaches.mp hexits
  -- no turn removes a byte
  have hsame : buf' = buf := by
    refine Reaches.invariant (P := fun u : Session σ × Buffer => u.2 = buf) ?_ hreaches rfl
    rintro ⟨s₁, buf₁⟩ q hbuf hagain
    obtain rfl : buf₁ = buf := hbuf
    rw [turn_of_whole h4 (by omega) rfl] at hagain
    split at hagain
    · cases hagain
    · cases hagain
      rw [hzero, List.drop_zero]
  subst hsame
  rw [turn_of_whole h4 (by omega) rfl] at hleave
  split at hleave
  · next hthrown =>
      cases hleave
      exact Option.isSome_iff_ne_none.mp hthrown
  · cases hleave

variable (pb) in
/-- **The RPC handler dispatches its messages**, and no exception is contained. -/
theorem dispatches (hf : h.streamHandler = some f) :
    Dispatches (reader pb) (f.callback fun _ => {}) (fun run => run.thrown.isSome) view
      (fun buf => ¬ Stalls buf) (turn pb h) := by
  apply Dispatches.of_serves
  · -- a whole frame, which stays in the buffer when the stream handler throws
    rintro ⟨s, buf⟩ x r hgoing hnext
    have hs : s.thrown = none := not_not.mp hgoing
    obtain ⟨rfl, hturn⟩ := turn_of_next (h := h) s buf hnext
    generalize hs' : process pb h s (buf.drop 4) (ntohl (buf.take 4)) = s' at hturn
    have hserves (buf' : Buffer) := hs' ▸ process_serves hf hs (buf.drop 4) _ buf buf'
    by_cases hthrown : s'.thrown.isSome = true
    · refine ⟨(s', buf), hserves buf, fun _ => by rw [hturn, if_pos hthrown], fun hon => ?_⟩
      exact absurd (Option.isSome_iff_ne_none.mp hthrown) hon
    · refine ⟨(s', r), hserves r, fun hescaped => ?_, fun _ => ⟨by rw [hturn, if_neg hthrown], rfl⟩⟩
      exact absurd (Option.isSome_iff_ne_none.mpr hescaped) hthrown
  · -- the end of the buffer
    rintro ⟨s, buf⟩ hgoing hnext hends
    have hnone : next pb buf = none := hnext
    have hshort : buf.length < 4 ∨ buf.length < frameSize buf := by
      rw [next] at hnone
      split at hnone
      · next hc =>
          rcases hc with h4 | hlen | hzero
          · exact .inl h4
          · exact .inr hlen
          · by_cases h4 : buf.length < 4
            · exact .inl h4
            · exact absurd ⟨not_lt.mp h4, hzero⟩ hends
      · cases hnone
    refine ⟨(s, buf), ?_, hgoing, rfl, List.suffix_refl _⟩
    by_cases h4 : buf.length < 4
    · rw [turn, if_pos h4]
    · have hlen := hshort.resolve_left h4
      rw [frameSize] at hlen
      rw [turn, if_neg h4]
      simp only [if_pos hlen]
  · -- a frame of size 0
    rintro ⟨s, buf⟩ t - - hends hexits
    exact escaped_of_stalls (not_not.mp hends) hexits

variable (pb f) in
/-- One call of the RPC handler. -/
theorem dispatched (p : Session σ × Buffer) :
    (receiver pb limiter f).Dispatched (fun buf => ¬ Stalls buf) p :=
  (dispatches pb (h := .streaming limiter f) rfl).dispatched
    (s := (p.1.enter, p.2)) (not_not.mpr rfl)

end RpcHandler

/-! ## WebSocket -/

namespace WebSocketHandler

/-- What is seen of a session, the handler and the input buffer. -/
def view : View (Session σ × WebSocketHandler × Buffer) (ℕ × WebSocketHandler × Buffer)
    StreamEnvelope σ where
  reading p := (p.1.consumed, p.2)
  state p := p.1.app
  passed p := p.1.dispatched
  escaped p := p.1.thrown ≠ none

/-- What is seen in the frame loop of an upgraded connection. -/
def loopView : View (Session σ × FrameParser × Buffer) (ℕ × WebSocketHandler × Buffer)
    StreamEnvelope σ where
  reading p := (p.1.consumed, { isUpgraded := true, parser := p.2.1 }, p.2.2)
  state p := p.1.app
  passed p := p.1.dispatched
  escaped p := p.1.thrown ≠ none

/-- Take one frame off the buffer of an upgraded connection: a message, if it is a data frame. A
close frame and a data frame the limiter refuses end the reading. -/
def next (h : ProtocolHandler σ) : ℕ × WebSocketHandler × Buffer →
    Option (Option StreamEnvelope × (ℕ × WebSocketHandler × Buffer))
  | (k, w, buf) =>
      if w.isUpgraded = false ∨ buf.length = 0 then none
      else
        match FrameParser.parse buf w.parser with
        | (_, none) => none
        | (parser, some (consumed, frame)) =>
            let rest := Buffer.retrieve buf consumed
            if frame.opcode = OpCode.kText ∨ frame.opcode = OpCode.kBinary then
              if h.checkRateLimit k then
                some (some (envelope frame), (k + 1, { w with parser }, rest))
              else none
            else if frame.opcode = OpCode.kClose then none
            else some (none, (k, { w with parser }, rest))

/-- What can be taken off the buffer is a frame. -/
theorem next_spec {h : ProtocolHandler σ} {k : ℕ} {w : WebSocketHandler} {buf : Buffer}
    {x : Option StreamEnvelope} {r : ℕ × WebSocketHandler × Buffer}
    (hnext : next h (k, w, buf) = some (x, r)) :
    w.isUpgraded = true ∧ buf.length ≠ 0 ∧ ∃ parser consumed frame k',
      FrameParser.parse buf w.parser = (parser, some (consumed, frame)) ∧
      r = (k', { w with parser }, buf.drop consumed) ∧
      (x = some (envelope frame) ∧ (frame.opcode = OpCode.kText ∨ frame.opcode = OpCode.kBinary) ∧
          h.checkRateLimit k = true ∧ k' = k + 1 ∨
        x = none ∧ ¬ (frame.opcode = OpCode.kText ∨ frame.opcode = OpCode.kBinary) ∧
          frame.opcode ≠ OpCode.kClose ∧ k' = k) := by
  rw [next] at hnext
  split at hnext
  · cases hnext
  · next hc =>
      obtain ⟨hup, hlen⟩ := not_or.mp hc
      refine ⟨by simpa using hup, hlen, ?_⟩
      split at hnext
      · cases hnext
      · next parser consumed frame hparse =>
          simp only at hnext
          split at hnext
          · next hdata =>
              split at hnext
              · next hlimit =>
                  cases hnext
                  exact ⟨parser, consumed, frame, k + 1, hparse, by rw [Buffer.retrieve_eq_drop],
                    .inl ⟨rfl, hdata, hlimit, rfl⟩⟩
              · cases hnext
          · next hdata =>
              split at hnext
              · cases hnext
              · next hclose =>
                  cases hnext
                  exact ⟨parser, consumed, frame, k, hparse, by rw [Buffer.retrieve_eq_drop],
                    .inr ⟨rfl, hdata, hclose, rfl⟩⟩

/-- Nothing can be taken off a buffer that is empty or has no whole frame in front, or whose frame
ends the reading. -/
theorem next_none_spec {h : ProtocolHandler σ} {k : ℕ} {parser : FrameParser} {buf : Buffer}
    (hnone : next h (k, { isUpgraded := true, parser }, buf) = none) (hlen : buf.length ≠ 0) :
    (∃ parser', FrameParser.parse buf parser = (parser', none)) ∨ ∃ parser' consumed frame,
      FrameParser.parse buf parser = (parser', some (consumed, frame)) ∧
      ((frame.opcode = OpCode.kText ∨ frame.opcode = OpCode.kBinary) ∧
          ¬ h.checkRateLimit k = true ∨
        ¬ (frame.opcode = OpCode.kText ∨ frame.opcode = OpCode.kBinary) ∧
          frame.opcode = OpCode.kClose) := by
  have hgo : ¬ (true = false ∨ buf.length = 0) := by simpa using hlen
  simp only [next, if_neg hgo] at hnone
  rcases hparse : FrameParser.parse buf parser with ⟨parser', - | ⟨consumed, frame⟩⟩
  · exact .inl ⟨parser', rfl⟩
  · simp only [hparse] at hnone
    refine .inr ⟨parser', consumed, frame, rfl, ?_⟩
    split at hnone
    · next hdata =>
        split at hnone
        · cases hnone
        · next hlimit => exact .inl ⟨hdata, hlimit⟩
    · next hdata =>
        split at hnone
        · next hclose => exact .inr ⟨hdata, hclose⟩
        · cases hnone

/-- The messages of a buffer. -/
def reader (h : ProtocolHandler σ) :
    Reader (ℕ × WebSocketHandler × Buffer) StreamEnvelope UInt8 where
  next := next h
  left r := r.2.2
  rank r := 2 * r.2.2.length + if r.2.1.parser.state = .kHeader then 0 else 1
  rank_lt := by
    rintro ⟨k, w, buf⟩ x r' hnext
    obtain ⟨-, -, parser, consumed, frame, k', hparse, rfl, -⟩ := next_spec hnext
    obtain ⟨hstate, hle, htwo⟩ := FrameParser.parse_some hparse
    simp only [hstate, List.length_drop, if_true]
    by_cases hp : w.parser.state = .kHeader
    · have := htwo hp
      rw [if_pos hp]
      omega
    · rw [if_neg hp]
      omega
  left_suffix := by
    rintro ⟨k, w, buf⟩ x r' hnext
    obtain ⟨-, -, parser, consumed, frame, k', hparse, rfl, -⟩ := next_spec hnext
    exact List.drop_suffix _ _

/-- The WebSocket handler; `beyond` is the memory behind the readable bytes. -/
def receiver (digest : Bytes → Bytes) (beyond : Bytes) :
    Receiver (Session σ × WebSocketHandler × Buffer) (ℕ × WebSocketHandler × Buffer) σ where
  toView := view
  OnMessage p q := onMessage digest (.streaming limiter f) p beyond = q
  append p more := (p.1, p.2.1, Buffer.append p.2.2 more)
  reader := reader (.streaming limiter f)
  callback := f.callback fun _ => {}
  escapes _ := false

/-- The header block of the handshake, if it has arrived, does not make the parser throw. -/
def HandshakeParses (w : WebSocketHandler) (buf : Buffer) (beyond : Bytes) : Prop :=
  w.isUpgraded = false → ∀ header, Handshake.headerStr (buf ++ beyond) = some header →
    Handshake.readHeaders header ≠ none

variable {h : ProtocolHandler σ} {f}

/-- What handling a data frame does, once the limiter let it through. -/
theorem onFrame_of_data (hf : h.streamHandler = some f) {frame : Frame}
    (hdata : frame.opcode = OpCode.kText ∨ frame.opcode = OpCode.kBinary) {s : Session σ}
    (hlimit : h.checkRateLimit s.consumed = true) (n : ℕ) :
    (onFrame h s n frame).2 = false ∧ (onFrame h s n frame).1.thrown = s.thrown ∧
      (onFrame h s n frame).1.consumed = s.consumed + 1 ∧
      (onFrame h s n frame).1.app = (f s.app (envelope frame) {}).app ∧
      (onFrame h s n frame).1.dispatched = s.dispatched ++ [envelope frame] := by
  unfold onFrame
  rw [if_pos hdata, if_pos hlimit]
  simp only [hf]
  split
  · exact ⟨rfl, rfl, rfl, rfl, rfl⟩
  · exact ⟨rfl, rfl, rfl, rfl, rfl⟩

/-- A data frame that the limiter refuses and a close frame end the loop, and dispatch nothing. -/
theorem onFrame_of_end {frame : Frame} {s : Session σ}
    (hend : (frame.opcode = OpCode.kText ∨ frame.opcode = OpCode.kBinary) ∧
        ¬ h.checkRateLimit s.consumed = true ∨
      ¬ (frame.opcode = OpCode.kText ∨ frame.opcode = OpCode.kBinary) ∧
        frame.opcode = OpCode.kClose) (n : ℕ) :
    ∃ s', onFrame h s n frame = (s', true) ∧ s'.thrown = s.thrown ∧
      s'.dispatched = s.dispatched := by
  unfold onFrame
  rcases hend with ⟨hdata, hlimit⟩ | ⟨hdata, hclose⟩
  · rw [if_pos hdata, if_neg hlimit]
    exact ⟨_, rfl, rfl, rfl⟩
  · rw [if_neg hdata, if_pos hclose]
    exact ⟨_, rfl, rfl, rfl⟩

/-- **The frame loop dispatches its messages**, and every exception is contained. -/
theorem dispatches (hf : h.streamHandler = some f) (beyond : Bytes) :
    Dispatches (reader h) (f.callback fun _ => {}) (fun _ => false) loopView
      (fun r => HandshakeParses r.2.1 r.2.2 beyond) (FrameParser.turn (onFrame h)) where
  skip := by
    rintro ⟨s, parser, buf⟩ r hgoing hnext
    have hsome : next h (s.consumed, { isUpgraded := true, parser }, buf) = some (none, r) := hnext
    obtain ⟨-, hlen, parser', n, frame, k', hparse, rfl, hx⟩ := next_spec hsome
    rcases hx with ⟨hx, -⟩ | ⟨-, hdata, hclose, rfl⟩
    · cases hx
    · have hact : onFrame h s n frame = (s, false) := by
        rw [onFrame, if_neg hdata, if_neg hclose]
      exact ⟨(s, parser', buf.drop n), FrameParser.turn_of_frame hlen hparse hact, hgoing, rfl, rfl,
        rfl⟩
  message := by
    rintro ⟨s, parser, buf⟩ req r hgoing hnext -
    have hsome : next h (s.consumed, { isUpgraded := true, parser }, buf) = some (some req, r) :=
      hnext
    obtain ⟨-, hlen, parser', n, frame, k', hparse, rfl, hx⟩ := next_spec hsome
    rcases hx with ⟨hx, hdata, hlimit, rfl⟩ | ⟨hx, -⟩
    · cases hx
      obtain ⟨hgo, hthrown, hconsumed, happ, hdispatched⟩ :=
        onFrame_of_data hf hdata (s := s) hlimit n
      obtain ⟨s', hact⟩ : ∃ s', onFrame h s n frame = (s', false) := ⟨_, Prod.ext rfl hgo⟩
      rw [hact] at hthrown hconsumed happ hdispatched
      refine ⟨(s', parser', buf.drop n), FrameParser.turn_of_frame hlen hparse hact, ?_, ?_, happ,
        hdispatched⟩
      · show ¬ s'.thrown ≠ none
        rw [show s'.thrown = s.thrown from hthrown]
        exact hgoing
      · show (s'.consumed, _) = _
        rw [show s'.consumed = s.consumed + 1 from hconsumed]
    · cases hx
  escape _ _ _ _ _ hrun := by cases hrun
  leave := by
    rintro ⟨s, parser, buf⟩ hgoing hnext -
    have hnone : next h (s.consumed, { isUpgraded := true, parser }, buf) = none := hnext
    by_cases hlen : buf.length = 0
    · exact ⟨(s, parser, buf), by rw [FrameParser.turn, if_pos hlen], hgoing, rfl,
        List.suffix_refl _⟩
    · rcases next_none_spec hnone hlen with ⟨parser', hparse⟩ | ⟨parser', n, frame, hparse, hend⟩
      · exact ⟨(s, parser', buf), FrameParser.turn_of_none hlen hparse s, hgoing, rfl,
          List.suffix_refl _⟩
      · obtain ⟨s', hact, hthrown, hdispatched⟩ := onFrame_of_end hend n
        refine ⟨(s', parser', buf.drop n), FrameParser.turn_of_frame hlen hparse hact, ?_, hdispatched,
          List.drop_suffix _ _⟩
        show ¬ s'.thrown ≠ none
        rw [hthrown]
        exact hgoing
  stuck _ _ _ _ hends := absurd (fun hup => by cases hup) hends

/-- The handshake branch dispatches nothing, and throws exactly where the header block does not
parse. -/
theorem onHandshake_spec (digest : Bytes → Bytes) {s : Session σ} (hs : s.thrown = none)
    (w : WebSocketHandler) (buf : Buffer) (beyond : Bytes) :
    (onHandshake digest (s, w, buf) beyond).1.dispatched = s.dispatched ∧
      (onHandshake digest (s, w, buf) beyond).2.2 <:+ buf ∧
      ((onHandshake digest (s, w, buf) beyond).1.thrown = none ↔
        ∀ header, Handshake.headerStr (buf ++ beyond) = some header →
          Handshake.readHeaders header ≠ none) := by
  simp only [onHandshake]
  cases hstr : Handshake.headerStr (buf ++ beyond) with
  | none =>
      refine ⟨rfl, List.suffix_refl _, fun _ header hheader => ?_, fun _ => hs⟩
      cases hheader
  | some header =>
      simp only [Buffer.retrieve_eq_drop, Option.some.injEq, forall_eq']
      cases hread : Handshake.readHeaders header with
      | none =>
          refine ⟨rfl, List.drop_suffix _ _, fun hthrown => ?_, fun hne => absurd rfl hne⟩
          cases hthrown
      | some headers =>
          have hne : some headers ≠ none := Option.some_ne_none headers
          simp only
          split
          · exact ⟨rfl, List.drop_suffix _ _, fun _ => hne, fun _ => hs⟩
          · exact ⟨rfl, List.drop_suffix _ _, fun _ => hne, fun _ => hs⟩

variable (f) in
/-- **One call of the WebSocket handler.** -/
theorem dispatched (digest : Bytes → Bytes) (beyond : Bytes)
    (p : Session σ × WebSocketHandler × Buffer) :
    (receiver limiter f digest beyond).Dispatched
      (fun r => HandshakeParses r.2.1 r.2.2 beyond) p := by
  obtain ⟨s, ⟨up, parser⟩, buf⟩ := p
  cases up with
  | true =>
      -- the frame branch
      have hloop := (dispatches (h := .streaming limiter f) rfl beyond).dispatched
        (s := (s.enter, parser, buf)) (not_not.mpr rfl)
      have hdrive (t : Session σ × FrameParser × Buffer) :
          Exits (FrameParser.turn (onFrame (.streaming limiter f))) (s.enter, parser, buf) t ↔
            FrameParser.drive (onFrame (.streaming limiter f)) (s.enter, parser, buf) = t :=
        exits_iff_run_eq FrameParser.rank FrameParser.turn_rank
      refine hloop.transfer (fun _ => ⟨_, rfl⟩) ?_
      rintro u rfl
      exact ⟨_, (hdrive _).mpr rfl, Iff.rfl, rfl, rfl⟩
  | false =>
      -- before the upgrade there is no message
      have hnone : (receiver limiter f digest beyond).reader.next
          (s.consumed, ({ isUpgraded := false, parser } : WebSocketHandler), buf) = none := rfl
      obtain ⟨hdispatched, hsuffix, hthrown⟩ := onHandshake_spec digest (s := s.enter) rfl
        ({ isUpgraded := false, parser } : WebSocketHandler) buf beyond
      refine .of_none hnone (fun _ => ⟨_, rfl⟩) ?_ ?_
      · rintro hparses u rfl
        exact ⟨not_not.mpr (hthrown.mpr (hparses rfl)), hdispatched, hsuffix⟩
      · rintro hparses u rfl hgoing
        exact hparses fun _ => hthrown.mp hgoing

end WebSocketHandler

end NetworkLib
