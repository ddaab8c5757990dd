import NetworkLib.Protocols.WebSocket.Encoders
import NetworkLib.Protocols.WebSocket.Reads

/-! # Invalid frame lengths

`Parse` refuses a 64-bit length with its top bit set or above 1 GiB by returning `false`, as it does
when bytes are missing. The frame loop waits for more of them, and the parser, which has left its
header state, takes the header itself for a length from then on, one that is refused again. So the
header closes nothing: the connection ends exactly when a frame in front of the header ends it, and
is else left open for ever with every later byte kept (`invalid_length_ends_iff`). -/

namespace NetworkLib

/-- A frame header that announces a length no frame may have. -/
structure InvalidHeader where
  byte1 : UInt8
  byte2 : UInt8
  length : Bytes
  code : byte2 &&& 0x7F = 127
  length_length : length.length = 8
  invalid : 2 ^ 63 ≤ ofBigEndian length ∨ 1024 * 1024 * 1024 < ofBigEndian length

namespace InvalidHeader

/-- The bytes of the header, with its length. -/
def bytes (header : InvalidHeader) : Bytes := header.byte1 :: header.byte2 :: header.length

/-- Such a header has ten bytes. -/
theorem length_bytes (header : InvalidHeader) : header.bytes.length = 10 := by
  rw [bytes, List.length_cons, List.length_cons, header.length_length]

/-- It announces more than 1 GiB. -/
theorem lt_length (header : InvalidHeader) : 1024 * 1024 * 1024 < ofBigEndian header.length := by
  have hinvalid := header.invalid
  omega

/-- The header bytes themselves, taken for a length, are refused as well. -/
theorem lt_ofBigEndian_bytes (header : InvalidHeader) :
    1024 * 1024 * 1024 < ofBigEndian (header.bytes.take 8) := by
  have hbyte : 127 ≤ header.byte2.toNat := by
    have hand := congrArg UInt8.toNat header.code
    rw [UInt8.toNat_and] at hand
    exact hand.symm.le.trans Nat.and_le_left
  have hlen : (header.length.take 6).length = 6 := by
    rw [List.length_take, header.length_length]
    rfl
  rw [bytes, List.take_succ_cons, List.take_succ_cons, ofBigEndian_cons, ofBigEndian_cons, hlen]
  omega

end InvalidHeader

open Loop

namespace FrameParser

variable {τ : Type*} {act : τ → ℕ → Frame → τ × Bool} {header : InvalidHeader}

/-- The parser waits for the rest of a 64-bit length. -/
def Stuck (p : FrameParser) : Prop := p.state = .kPayloadLength ∧ p.bytesNeeded = 8

/-- Two bytes of the header are enough for the parser to leave its header state. -/
theorem withHeader_stuck (header : InvalidHeader) (p : FrameParser) :
    (p.withHeader header.byte1 header.byte2).Stuck := by
  constructor <;> simp [withHeader, header.code]

/-- At the length of the header the parser stops, and keeps its state. -/
theorem parseLength_stuck {p : FrameParser} (hp : p.Stuck) {data : Bytes} {offset : ℕ}
    (hbig : 8 ≤ data.length - offset →
      1024 * 1024 * 1024 < ofBigEndian ((data.drop offset).take 8)) :
    parseLength data p offset = (p, none) := by
  by_cases hlen : data.length - offset < 8
  · rw [parseLength, if_pos hp.1, hp.2, if_pos hlen]
  · exact parseLength_refused hp.1 hp.2 (Nat.not_lt.mp hlen) (hbig (Nat.not_lt.mp hlen))

/-- The front of what has been received is the front of the stream. -/
theorem take_front {data stream : Bytes} (h : data <+: stream) {n : ℕ} (hn : n ≤ data.length) :
    data.take n = stream.take n := by
  obtain ⟨rest, rfl⟩ := h
  rw [List.take_append_of_le_length hn]

/-- The loop is left when `Parse` returns `false`. -/
theorem drive_of_none {p q : FrameParser} {data : Bytes} (hparse : parse data p = (q, none))
    (hne : data ≠ []) (t : τ) : drive act (t, p, data) = (t, q, data) := by
  have hlen : data.length ≠ 0 := fun hzero => hne (List.length_eq_zero_iff.mp hzero)
  exact run_of_leave _ (turn_of_none hlen hparse t)

variable (act) in
/-- In `kHeader` the loop stops at the header, and leaves it where it is. -/
theorem drive_header {p : FrameParser} (hp : p.state = .kHeader) (t : τ) {data more : Bytes}
    (hdata : data <+: header.bytes ++ more) :
    ∃ q : FrameParser, drive act (t, p, data) = (t, q, data) ∧
      if data.length < 2 then q.state = .kHeader else q.Stuck := by
  obtain _ | ⟨b1, _ | ⟨b2, rest⟩⟩ := data
  · exact ⟨p, drive_nil t p, hp⟩
  · exact ⟨p, drive_of_none (parse_of_short hp (by simp)) (List.cons_ne_nil _ _) t, hp⟩
  · rw [InvalidHeader.bytes, List.cons_append, List.cons_append, List.cons_prefix_cons,
      List.cons_prefix_cons] at hdata
    obtain ⟨rfl, rfl, hrest⟩ := hdata
    have hstuck := withHeader_stuck header p
    refine ⟨_, drive_of_none ?_ (List.cons_ne_nil _ _) t, by simpa using hstuck⟩
    have hbig : 8 ≤ (header.byte1 :: header.byte2 :: rest).length - 2 →
        1024 * 1024 * 1024
          < ofBigEndian (((header.byte1 :: header.byte2 :: rest).drop 2).take 8) := by
      intro hlen
      have htake : rest.take 8 = header.length := by
        rw [take_front hrest hlen, ← header.length_length, List.take_left]
      show 1024 * 1024 * 1024 < ofBigEndian (rest.take 8)
      rw [htake]
      exact header.lt_length
    rw [parse_of_header hp (by simp), List.getD_cons_zero, List.getD_cons_succ,
      List.getD_cons_zero, parseRest, parseLength_stuck hstuck hbig]

variable (act) in
/-- Past the header the loop takes the header for the length, and stops again. -/
theorem drive_stuck {p : FrameParser} (hp : p.Stuck) (t : τ) {data more : Bytes}
    (hdata : data <+: header.bytes ++ more) : drive act (t, p, data) = (t, p, data) := by
  by_cases hne : data = []
  · rw [hne]
    exact drive_nil t p
  · refine drive_of_none ?_ hne t
    have hbig : 8 ≤ data.length - 0 →
        1024 * 1024 * 1024 < ofBigEndian ((data.drop 0).take 8) := by
      intro hlen
      have htake : data.take 8 = header.bytes.take 8 := by
        rw [take_front hdata hlen, List.take_append_of_le_length (by simp [header.length_bytes])]
      rw [List.drop_zero, htake]
      exact header.lt_ofBigEndian_bytes
    rw [parse_of_ne (by simp [hp.1]), parseRest, parseLength_stuck hp hbig]

end FrameParser

namespace WebSocketHandler

open FrameParser

variable {σ : Type*} (digest : Bytes → Bytes) (h : ProtocolHandler σ)

/-- The connection is upgraded and has read `seen` of a stream that begins with an invalid header.
It has some whole frames still to read, or less than two bytes of the header, or is past the header;
all of `seen` is in the buffer. -/
structure Waits (left : List WireFrame) (seen : Bytes)
    (p : Session σ × WebSocketHandler × Buffer) : Prop where
  upgraded : p.2.1.isUpgraded = true
  thrown : p.1.thrown = none
  state : p.2.1.parser.state = .kHeader ∨ p.2.1.parser.Stuck ∧ left = []
  buffer : p.2.2 = (wires left).flatten ++ seen

variable {digest h} {header : InvalidHeader} {more : Bytes}

/-- In `kHeader`, a call handles the whole frames in front and stops at the header, if not before.
-/
theorem waits_onFrames {s : Session σ} {w : WebSocketHandler} (hup : w.isUpgraded = true)
    (hstate : w.parser.state = .kHeader) (hthrown : s.thrown = none) (frames : List WireFrame)
    {seen : Bytes} (hseen : seen <+: header.bytes ++ more) :
    let r := onFrames h (s, w, (wires frames).flatten ++ seen)
    ∃ left, Waits left seen r ∧
      ∀ s', handle (onFrame h) s frames = (s', none) → left = [] ∧ r.1 = s' := by
  obtain ⟨q, hq, hdrive⟩ := drive_handle (onFrame h) hstate s frames seen
  have hnone := (onFrames_thrown (h := h) s w ((wires frames).flatten ++ seen)).trans hthrown
  simp only [onFrames, hdrive] at hnone ⊢
  generalize handle (onFrame h) s frames = handled at hnone ⊢
  obtain ⟨s₁, _ | rest⟩ := handled
  · obtain ⟨r, hr, hrstate⟩ := drive_header (onFrame h) hq s₁ hseen
    simp only [hr] at hnone ⊢
    refine ⟨[], ⟨hup, hnone, ?_, rfl⟩, ?_⟩
    · split at hrstate
      · exact .inl hrstate
      · exact .inr ⟨hrstate, rfl⟩
    · intro s' hs'
      cases hs'
      exact ⟨rfl, rfl⟩
  · refine ⟨rest, ⟨hup, hnone, .inl hq, rfl⟩, ?_⟩
    intro s' hs'
    cases hs'

/-- The session after that call is the one the frames in front have left. -/
theorem onFrames_session {s : Session σ} {w : WebSocketHandler} (hstate : w.parser.state = .kHeader)
    (frames : List WireFrame) {seen : Bytes} (hseen : seen <+: header.bytes ++ more) :
    (onFrames h (s, w, (wires frames).flatten ++ seen)).1 = (handle (onFrame h) s frames).1 := by
  obtain ⟨q, hq, hdrive⟩ := drive_handle (onFrame h) hstate s frames seen
  simp only [onFrames, hdrive]
  generalize handle (onFrame h) s frames = handled
  obtain ⟨s₁, _ | rest⟩ := handled
  · obtain ⟨r, hr, -⟩ := drive_header (onFrame h) hq s₁ hseen
    simp only [hr]
  · rfl

/-- On entering `OnMessage` nothing changes while no exception has left a call. -/
theorem enter_of_thrown {s : Session σ} (hthrown : s.thrown = none) : s.enter = s := by
  rw [Session.enter, ← hthrown]

variable (digest) in
/-- **One more read** is kept in the buffer; with no whole frame left nothing else happens. -/
theorem waits_receive {left : List WireFrame} {seen : Bytes}
    {p : Session σ × WebSocketHandler × Buffer} (hp : Waits left seen p) (read : Bytes × Bytes)
    (hseen : seen ++ read.1 <+: header.bytes ++ more) :
    let r := receive digest h p read
    ∃ left', Waits left' (seen ++ read.1) r ∧ (left = [] → left' = [] ∧ r.1 = p.1) := by
  rw [receive_upgraded hp.upgraded hp.thrown, enter_of_thrown hp.thrown, hp.buffer,
    List.append_assoc]
  rcases hp.state with hstate | ⟨hstuck, rfl⟩
  · obtain ⟨left', hr, hhandled⟩ :=
      waits_onFrames (h := h) hp.upgraded hstate hp.thrown left hseen
    refine ⟨left', hr, ?_⟩
    rintro rfl
    exact hhandled p.1 rfl
  · have hdrive := drive_stuck (onFrame h) hstuck p.1 hseen
    have hr : onFrames h (p.1, p.2.1, (wires []).flatten ++ (seen ++ read.1))
        = (p.1, p.2.1, seen ++ read.1) := by
      rw [onFrames]
      simp only [wires, List.map_nil, List.flatten_nil, List.nil_append, hdrive]
    rw [hr]
    exact ⟨[], ⟨hp.upgraded, hp.thrown, .inr ⟨hstuck, rfl⟩, rfl⟩, fun _ => ⟨rfl, rfl⟩⟩

variable (digest) in
/-- **All later reads** are kept in the buffer. -/
theorem waits_receiveAll {left : List WireFrame} {seen : Bytes}
    {p : Session σ × WebSocketHandler × Buffer} (hp : Waits left seen p)
    (reads : List (Bytes × Bytes))
    (hseen : seen ++ reads.flatMap Prod.fst <+: header.bytes ++ more) :
    let r := receiveAll digest h p reads
    ∃ left', Waits left' (seen ++ reads.flatMap Prod.fst) r ∧
      (left = [] → left' = [] ∧ r.1 = p.1) := by
  induction reads generalizing p left seen with
  | nil => exact ⟨left, by simpa [receiveAll] using hp, fun hleft => ⟨hleft, rfl⟩⟩
  | cons read reads ih =>
      rw [List.flatMap_cons, ← List.append_assoc] at hseen ⊢
      obtain ⟨left₁, hr, hsame⟩ := waits_receive digest (h := h) hp read
        ((List.prefix_append _ _).trans hseen)
      obtain ⟨left', hrs, hsames⟩ := ih hr hseen
      refine ⟨left', hrs, fun hleft => ?_⟩
      obtain ⟨hleft₁, hsession⟩ := hsame hleft
      obtain ⟨hleft', hsessions⟩ := hsames hleft₁
      exact ⟨hleft', hsessions.trans hsession⟩

/-! ## What ends the connection -/

/-- At the frame the connection is closed: it is a Close frame, or a data frame that the rate
limiter refuses or at which the stream handler closes its context. -/
def Closes (h : ProtocolHandler σ) (s : Session σ) (f : WireFrame) : Prop :=
  f.opcode = WireFrame.kClose ∨ f.IsData ∧ (h.checkRateLimit s.consumed = false ∨
    ∃ g, h.streamHandler = some g ∧ ContextCall.close ∈ (g s.app (envelope f.frame) {}).calls)

/-- The connection is closed at one of the frames, handled one after another. -/
def FrontCloses (h : ProtocolHandler σ) : Session σ → List WireFrame → Prop
  | _, [] => False
  | s, f :: frames => Closes h s f ∨ FrontCloses h (onFrame h s f.wire.length f.frame).1 frames

/-- Of the context calls only `Close` closes the connection. -/
theorem forceClose_mem_onConn (calls : List ContextCall) :
    ConnCall.forceClose ∈ calls.flatMap WebSocketStreamContext.onConn ↔
      ContextCall.close ∈ calls := by
  rw [List.mem_flatMap]
  constructor
  · rintro ⟨call, hmem, hcall⟩
    cases call with
    | write msg => simp [WebSocketStreamContext.onConn] at hcall
    | writeString data => simp [WebSocketStreamContext.onConn] at hcall
    | close => exact hmem
  · intro hmem
    exact ⟨.close, hmem, by simp [WebSocketStreamContext.onConn]⟩

/-- A text or binary frame that the rate limiter admits closes the connection when its handler does.
-/
theorem onFrame_admitted_closed_iff {s : Session σ} {f : WireFrame} (hf : f.IsData)
    (hallows : h.checkRateLimit s.consumed = true) (consumed : ℕ) :
    ConnCall.forceClose ∈ (onFrame h s consumed f.frame).1.calls ↔
      ConnCall.forceClose ∈ s.calls ∨ ∃ g, h.streamHandler = some g ∧
        ContextCall.close ∈ (g s.app (envelope f.frame) {}).calls := by
  rw [onFrame, if_pos ((opcode_frame f).1.mpr hf), if_pos hallows]
  cases hhandler : h.streamHandler with
  | none =>
      refine ⟨.inl, fun hclosed => hclosed.resolve_right ?_⟩
      rintro ⟨g, hg, -⟩
      cases hg
  | some handler =>
      have hinvoke : ConnCall.forceClose ∈ s.calls ++
            (handler s.app (envelope f.frame) {}).calls.flatMap WebSocketStreamContext.onConn ↔
          ConnCall.forceClose ∈ s.calls ∨ ∃ g, some handler = some g ∧
            ContextCall.close ∈ (g s.app (envelope f.frame) {}).calls := by
        rw [List.mem_append, forceClose_mem_onConn]
        simp
      simp only
      split
      · -- the answer is sent behind what the handler has done
        rw [← hinvoke]
        simp [Session.push, Session.invoke, Session.consume, WebSocketStreamContext.onConn]
      · exact hinvoke

/-- **One frame closes the connection** in the ways listed in `Closes`, and in no other. -/
theorem onFrame_closed_iff (s : Session σ) (f : WireFrame) (consumed : ℕ) :
    ConnCall.forceClose ∈ (onFrame h s consumed f.frame).1.calls ↔
      ConnCall.forceClose ∈ s.calls ∨ Closes h s f := by
  by_cases hf : f.IsData
  · have hcode : f.opcode ≠ WireFrame.kClose := by
      rcases hf with hf | hf <;> rw [hf] <;> decide
    cases hallows : h.checkRateLimit s.consumed with
    | true =>
        rw [onFrame_admitted_closed_iff hf hallows]
        simp [Closes, hcode, hf, hallows]
    | false =>
        rw [onFrame_refused hf (by simp [hallows])]
        simp [Closes, hf, hallows, Session.push]
  · rw [onFrame_control hf]
    by_cases hcode : f.opcode = WireFrame.kClose
    · simp [Closes, hcode, Session.push]
    · simp [Closes, hcode, hf]

/-- The loop is left at a frame that closes the connection only. -/
theorem closes_of_left {s : Session σ} {f : WireFrame} {consumed : ℕ}
    (hleft : (onFrame h s consumed f.frame).2 = true) : Closes h s f := by
  by_cases hf : f.IsData
  · refine .inr ⟨hf, .inl ?_⟩
    cases hallows : h.checkRateLimit s.consumed with
    | true =>
        obtain ⟨s', hs', -⟩ := onFrame_admitted hf hallows consumed
        rw [hs'] at hleft
        cases hleft
    | false => rfl
  · rw [onFrame_control hf] at hleft
    by_cases hcode : f.opcode = WireFrame.kClose
    · exact .inl hcode
    · rw [if_neg hcode] at hleft
      cases hleft

/-- **Whole frames close the connection** when one of them does. -/
theorem handle_closed_iff (s : Session σ) (frames : List WireFrame) :
    ConnCall.forceClose ∈ (handle (onFrame h) s frames).1.calls ↔
      ConnCall.forceClose ∈ s.calls ∨ FrontCloses h s frames := by
  induction frames generalizing s with
  | nil => simp [handle, FrontCloses]
  | cons f frames ih =>
      have hone := onFrame_closed_iff (h := h) s f f.wire.length
      rw [FrontCloses, handle]
      split
      · next s₁ hframe =>
          -- the loop is left here, at a frame that closes
          have hcloses : Closes h s f := closes_of_left (by rw [hframe])
          rw [hframe] at hone
          rw [hone]
          simp [hcloses]
      · next s₁ hframe =>
          rw [hframe] at hone
          rw [ih, hone, hframe, or_assoc]

/-- When none of them does, the loop handles them all. -/
theorem handle_of_not_frontCloses {s : Session σ} {frames : List WireFrame}
    (hfront : ¬ FrontCloses h s frames) : ∃ s', handle (onFrame h) s frames = (s', none) := by
  induction frames generalizing s with
  | nil => exact ⟨s, rfl⟩
  | cons f frames ih =>
      rw [FrontCloses, not_or] at hfront
      rw [handle]
      split
      · next s₁ hframe => exact absurd (closes_of_left (by rw [hframe])) hfront.1
      · next s₁ hframe =>
          have hrest := hfront.2
          rw [hframe] at hrest
          exact ih hrest

variable (digest) in
/-- A read undoes no close. -/
theorem receive_upgraded_calls {left : List WireFrame} {seen : Bytes}
    {p : Session σ × WebSocketHandler × Buffer} (hp : Waits left seen p) (read : Bytes × Bytes) :
    p.1.calls <+: (receive digest h p read).1.calls := by
  rw [receive_upgraded hp.upgraded hp.thrown]
  exact onFrames_calls p.1.enter p.2.1 (p.2.2 ++ read.1)

variable (digest) in
/-- Nor do all later reads. -/
theorem waits_receiveAll_calls {left : List WireFrame} {seen : Bytes}
    {p : Session σ × WebSocketHandler × Buffer} (hp : Waits left seen p)
    (reads : List (Bytes × Bytes))
    (hseen : seen ++ reads.flatMap Prod.fst <+: header.bytes ++ more) :
    p.1.calls <+: (receiveAll digest h p reads).1.calls := by
  induction reads generalizing p left seen with
  | nil => exact List.prefix_rfl
  | cons read reads ih =>
      rw [List.flatMap_cons, ← List.append_assoc] at hseen
      obtain ⟨left₁, hr, -⟩ := waits_receive digest (h := h) hp read
        ((List.prefix_append _ _).trans hseen)
      exact (receive_upgraded_calls digest hp read).trans (ih hr hseen)

/-- **The connection has ended at these bytes**: it is closed, and none of them has been taken for a
frame. -/
def Ended (unread : Bytes) (p : Session σ × WebSocketHandler × Buffer) : Prop :=
  ConnCall.forceClose ∈ p.1.calls ∧ unread <:+ p.2.2

/-- **An invalid length ends the connection exactly when a frame in front of it does.** When the
header is read on an open connection, in pieces and behind any whole frames, the connection is
closed exactly if it is closed at one of these; the header and every byte behind it stay in the
buffer; and if all frames in front have been handled, then the session is as they left it. -/
theorem invalid_length_ends_iff (digest : Bytes → Bytes) (h : ProtocolHandler σ)
    {p : Session σ × WebSocketHandler × Buffer} {left : List WireFrame} (hp : AtBoundary p left)
    (hopen : ConnCall.forceClose ∉ p.1.calls) (frames : List WireFrame) (header : InvalidHeader)
    (more piece beyond : Bytes) {pieces : List (Bytes × Bytes)}
    (hstream : piece ++ pieces.flatMap Prod.fst = header.bytes ++ more) :
    let r := receiveAll digest h p (((wires frames).flatten ++ piece, beyond) :: pieces)
    (Ended (header.bytes ++ more) r ↔ FrontCloses h p.1 (left ++ frames)) ∧
      header.bytes ++ more <:+ r.2.2 ∧
      ∀ s, handle (onFrame h) p.1 (left ++ frames) = (s, none) →
        r.1 = s ∧ r.2.2 = header.bytes ++ more := by
  -- The call that reads the frames in front, and then the calls behind it, of which each waits.
  have hpiece : piece <+: header.bytes ++ more := ⟨_, hstream⟩
  obtain ⟨left₁, hfirst, hhandled⟩ :=
    waits_onFrames (h := h) hp.upgraded hp.state hp.thrown (left ++ frames) hpiece
  have hfirst_calls := handle_closed_iff (h := h) p.1 (left ++ frames)
  have hsession := onFrames_session (h := h) (s := p.1) hp.state (left ++ frames) hpiece
  have hreceive : receive digest h p ((wires frames).flatten ++ piece, beyond)
      = onFrames h (p.1, p.2.1, (wires (left ++ frames)).flatten ++ piece) := by
    rw [receive_upgraded hp.upgraded hp.thrown, enter_of_thrown hp.thrown, hp.buffer,
      flatten_wires_append, List.append_assoc]
  have hwhole : piece ++ pieces.flatMap Prod.fst <+: header.bytes ++ more :=
    ⟨[], by rw [hstream, List.append_nil]⟩
  obtain ⟨left', hlast, hsame⟩ := waits_receiveAll digest (h := h) hfirst pieces hwhole
  have hcalls := waits_receiveAll_calls digest (h := h) hfirst pieces hwhole
  intro r
  have hr : r = receiveAll digest h
      (onFrames h (p.1, p.2.1, (wires (left ++ frames)).flatten ++ piece)) pieces := by
    rw [← hreceive]
    rfl
  rw [hstream] at hlast
  have hkept : header.bytes ++ more <:+ r.2.2 := ⟨_, by rw [hr, hlast.buffer]⟩
  -- a loop that has handled every frame in front stands before the header, in every call
  have hleft : ∀ s, handle (onFrame h) p.1 (left ++ frames) = (s, none) →
      r.1 = s ∧ r.2.2 = header.bytes ++ more := by
    intro s hs
    obtain ⟨hleft, hfront⟩ := hhandled s hs
    obtain ⟨hleft', hsessions⟩ := hsame hleft
    rw [hr]
    refine ⟨hsessions.trans hfront, ?_⟩
    rw [hlast.buffer, hleft']
    rfl
  refine ⟨⟨fun hended => ?_, fun hfront => ⟨?_, hkept⟩⟩, hkept, hleft⟩
  · -- nothing else than the frames in front has done anything
    by_contra hfront
    obtain ⟨s, hs⟩ := handle_of_not_frontCloses hfront
    rw [hs] at hfirst_calls
    rw [Ended, (hleft s hs).1] at hended
    exact (hfirst_calls.mp hended.1).elim hopen hfront
  -- what a frame in front has closed no later call undoes
  · rw [hr]
    refine hcalls.subset ?_
    rw [hsession]
    exact hfirst_calls.mpr (.inr hfront)

/-- A header that announces `2 ^ 63` bytes. -/
def topBitHeader : InvalidHeader where
  byte1 := 0x82
  byte2 := 0xFF
  length := [128, 0, 0, 0, 0, 0, 0, 0]
  code := by decide
  length_length := rfl
  invalid := .inl (by decide +kernel)

/-- A text frame of one byte. -/
def oneByteFrame : WireFrame where
  fin := true
  opcode := WireFrame.kText
  maskKey := none
  payload := [97]
  payload_le := by decide

/-- A Close frame, `88 00`. -/
def closeFrame : WireFrame where
  fin := true
  opcode := WireFrame.kClose
  maskKey := none
  payload := []
  payload_le := by decide

/-- The header in two pieces: behind a text frame the connection stays open, behind a text frame and
a Close frame it has been closed. -/
theorem invalid_length_ends_iff_in_pieces :
    let p : Session Unit × WebSocketHandler × Buffer := ({ app := () }, { isUpgraded := true }, [])
    let reads (frames : List WireFrame) : List (Bytes × Bytes) :=
      [((wires frames).flatten ++ [0x82], []), (topBitHeader.bytes.drop 1, [])]
    ¬ Ended (topBitHeader.bytes ++ []) (receiveAll id {} p (reads [oneByteFrame])) ∧
      Ended (topBitHeader.bytes ++ []) (receiveAll id {} p (reads [oneByteFrame, closeFrame])) := by
  intro p reads
  have hp : AtBoundary p [] := ⟨rfl, rfl, rfl, rfl⟩
  constructor
  · intro hended
    have hfront := (invalid_length_ends_iff id {} hp (by simp [p]) [oneByteFrame] topBitHeader []
      [0x82] [] rfl).1.mp hended
    rcases hfront with (hcode | ⟨-, hrefused | ⟨g, hg, -⟩⟩) | hnone
    · exact absurd hcode (by decide)
    · cases hrefused
    · cases hg
    · exact hnone
  · exact (invalid_length_ends_iff id {} hp (by simp [p]) [oneByteFrame, closeFrame] topBitHeader []
      [0x82] [] rfl).1.mpr (.inr (.inl (.inl rfl)))

/-- The header in one read: the connection is not closed, and all ten bytes are kept. -/
theorem invalid_length_ignored :
    let p : Session Unit × WebSocketHandler × Buffer := ({ app := () }, { isUpgraded := true }, [])
    let r := receive id {} p (topBitHeader.bytes, [])
    ConnCall.forceClose ∉ r.1.calls ∧ r.2.2 = topBitHeader.bytes := by
  decide

end WebSocketHandler

end NetworkLib
