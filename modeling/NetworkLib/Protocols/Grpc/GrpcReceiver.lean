import NetworkLib.Protocols.Grpc.Envelopes
import NetworkLib.Protocols.Receivers

/-! # The gRPC handler as a receiver

The session of the gRPC handler dispatches the message at the front of each DATA payload
(`GrpcHandler.dispatched`); an exception leaves `OnMessage` unless it is a `std::exception`. A
payload may hold more complete messages behind the first one (`GrpcCodec.messages`): these are not
passed on. -/

namespace NetworkLib

open Loop

namespace GrpcCodec

/-- What `Decode` leaves behind a message is the end of what was there, and shorter. -/
theorem decode_rest {buf : Buffer} {m : Bytes × Bool} {rest : Buffer}
    (h : decode buf = (some m, rest)) : rest <:+ buf ∧ rest.length < buf.length := by
  unfold decode at h
  split at h
  · cases h
  · next hshort =>
      simp only at h
      split at h
      · cases h
      · cases h
        have hsize : kHeaderSize = 5 := rfl
        rw [Buffer.retrieve_eq_drop]
        refine ⟨List.drop_suffix _ _, ?_⟩
        rw [List.length_drop]
        omega

/-- Take a message off the buffer: `Decode`. -/
def next (buf : Buffer) : Option (Option Bytes × Buffer) :=
  match decode buf with
  | (none, _) => none
  | (some (payload, _), rest) => some (some payload, rest)

/-- What the reader takes is a message that is decoded. -/
theorem next_spec {buf rest : Buffer} {x : Option Bytes} (h : next buf = some (x, rest)) :
    ∃ m, decode buf = (some m, rest) := by
  rw [next] at h
  split at h
  · cases h
  · next payload compressed rest hdecode =>
      cases h
      exact ⟨_, hdecode⟩

/-- The messages that `Decode` returns when it is called until it returns false. -/
def reader : Reader Buffer Bytes UInt8 where
  next := next
  left buf := buf
  rank buf := buf.length
  rank_lt h := (decode_rest (next_spec h).choose_spec).2
  left_suffix h := (decode_rest (next_spec h).choose_spec).1

/-- The complete messages of a buffer. -/
def messages (buf : Buffer) : List Bytes := (reader.messages buf).map Prod.fst

end GrpcCodec

namespace Http2.FrameParser

/-- A header that has been read is not read again. -/
theorem readHeader_readHeader (p : FrameParser × Buffer) :
    readHeader (readHeader p) = readHeader p := by
  obtain ⟨p, buf⟩ := p
  by_cases hstate : p.state = .kReadingHeader
  · by_cases hlen : buf.length < 9
    · have hsame : readHeader (p, buf) = (p, buf) := by
        rw [readHeader, if_pos hstate, if_pos hlen]
      rw [hsame, hsame]
    · have hread : readHeader (p, buf)
          = ({ state := .kReadingPayload, currentHeader := FrameHeader.ofBytes (buf.take 9) },
            Buffer.retrieve buf 9) := by
        rw [readHeader, if_pos hstate, if_neg hlen]
      rw [hread]
      rfl
  · have hsame : readHeader (p, buf) = (p, buf) := by
      rw [readHeader, if_neg hstate]
    rw [hsame, hsame]

/-- Where `Parse` has returned false it returns false again. -/
theorem parse_again {p q : FrameParser} {buf rest : Buffer} (h : p.parse buf = (none, q, rest)) :
    q.parse rest = (none, q, rest) := by
  have hq : readHeader (p, buf) = (q, rest) := by
    unfold parse at h
    simp only at h
    split at h
    · split at h
      · exact congrArg Prod.snd h
      · cases h
    · exact congrArg Prod.snd h
  have hagain := readHeader_readHeader (p, buf)
  rw [hq] at hagain
  unfold parse at h ⊢
  rw [hq] at h
  rw [hagain]
  exact h

/-- What `Parse` leaves is the end of what was there. -/
theorem parse_suffix (p : FrameParser) (buf : Buffer) : (p.parse buf).2.2 <:+ buf := by
  have hread : (readHeader (p, buf)).2 <:+ buf := by
    unfold readHeader
    simp only
    split
    · split
      · exact List.suffix_refl _
      · rw [Buffer.retrieve_eq_drop]
        exact List.drop_suffix _ _
    · exact List.suffix_refl _
  unfold parse
  simp only [Buffer.retrieve_eq_drop]
  split
  · split
    · exact hread
    · exact (List.drop_suffix _ _).trans hread
  · exact hread

/-- A `Parse` that returns a frame uses up bytes, or a header taken before. -/
theorem parse_rank {p : FrameParser} {buf : Buffer} {frame : Frame} {p' : FrameParser}
    {buf' : Buffer} (h : p.parse buf = (some frame, p', buf')) :
    2 * buf'.length + (if p'.state = .kReadingPayload then 1 else 0)
      < 2 * buf.length + if p.state = .kReadingPayload then 1 else 0 := by
  have hrank := Session.readHeader_rank (p, buf)
  unfold parse at h
  simp only at h
  split at h
  · next hstate =>
      split at h
      · cases h
      · cases h
        simp only [hstate, if_true] at hrank
        simp only [reduceCtorEq, if_false, Buffer.retrieve_eq_drop, List.length_drop]
        omega
  · cases h

end Http2.FrameParser

namespace Http2.Session

variable {σ : Type*}

/-- What handling a frame does to the application, and what it throws. -/
theorem handleFrame_outcome (g : OnStreamData σ) (s : Session σ) (frame : Frame) :
    if frame.IsData then
      ∃ stream, (handleFrame (some g) s frame).app = (g s.app stream frame.payload).1 ∧
        (handleFrame (some g) s frame).thrown = (g s.app stream frame.payload).2.2
    else (handleFrame (some g) s frame).app = s.app ∧
      (handleFrame (some g) s frame).thrown = s.thrown := by
  have hget : (s.getStream frame.header.streamId).1.app = s.app ∧
      (s.getStream frame.header.streamId).1.thrown = s.thrown := by
    unfold getStream
    cases s.streams frame.header.streamId <;> exact ⟨rfl, rfl⟩
  by_cases hid : 0 < frame.header.streamId
  · by_cases htype : frame.header.type = FrameType.data
    · rw [if_pos ⟨hid, htype⟩]
      refine ⟨(s.getStream frame.header.streamId).2.appendData frame.payload, ?_, ?_⟩
      · simp only [handleFrame, hid, htype, if_true, notify, hget.1]
      · simp only [handleFrame, hid, htype, if_true, notify, hget.1]
    · rw [if_neg fun h => htype h.2]
      simp only [handleFrame, hid, htype, if_true, if_false]
      exact hget
  · rw [if_neg fun h => hid h.1]
    simp only [handleFrame, hid, if_false]
    exact ⟨trivial, trivial⟩

end Http2.Session

namespace GrpcHandler

open Http2

variable {σ : Type*} (pb : Protobuf) (f : StreamHandler σ)

/-- What is seen of a session and its input buffer. -/
def view : View (Http2.Session (σ × List StreamEnvelope) × Buffer)
    (Bool × Http2.FrameParser × Buffer) StreamEnvelope σ where
  reading p := (p.1.prefaceReceived, p.1.parser, p.2)
  state p := p.1.app.1
  passed p := p.1.app.2
  escaped p := p.1.thrown ≠ none

/-- What the callback makes of a frame: the message at the front of the payload, if it is a DATA
frame with a whole message there, and the bytes behind it. -/
def frameMessage (frame : Http2.Frame) : Option (Bytes × Buffer) :=
  if frame.IsData then
    match GrpcCodec.decode frame.payload with
    | (none, _) => none
    | (some (payload, _), rest) => some (payload, rest)
  else none

/-- The request made of a frame. -/
def frameRequest (frame : Http2.Frame) : Option StreamEnvelope :=
  (frameMessage frame).map fun m => request pb m.1

/-- Take the client preface, or one frame, off the buffer. -/
def next : Bool × Http2.FrameParser × Buffer →
    Option (Option (Bytes × Buffer) × (Bool × Http2.FrameParser × Buffer))
  | (false, parser, buf) =>
      if buf.length < kPrefaceLen ∨ buf.take kPrefaceLen ≠ kClientPreface then none
      else some (none, (true, parser, Buffer.retrieve buf kPrefaceLen))
  | (true, parser, buf) =>
      match parser.parse buf with
      | (none, _) => none
      | (some frame, parser, buf) => some (frameMessage frame, (true, parser, buf))

/-- The messages at the front of the DATA payloads of a buffer, each with the bytes behind it in its
payload. -/
def frameReader : Reader (Bool × Http2.FrameParser × Buffer) (Bytes × Buffer) UInt8 where
  next := next
  left r := r.2.2
  rank r := 2 * r.2.2.length + if r.2.1.state = .kReadingPayload then 1 else 0
  rank_lt := by
    rintro ⟨preface, parser, buf⟩ x r' hnext
    cases preface with
    | false =>
        rw [next] at hnext
        split at hnext
        · cases hnext
        · next hc =>
            cases hnext
            have hlen : kPrefaceLen = 24 := rfl
            simp only [not_or, not_lt] at hc
            simp only [Buffer.retrieve_eq_drop, List.length_drop]
            omega
    | true =>
        rw [next] at hnext
        split at hnext
        · cases hnext
        · next frame parser' buf' hparse =>
            cases hnext
            exact Http2.FrameParser.parse_rank hparse
  left_suffix := by
    rintro ⟨preface, parser, buf⟩ x r' hnext
    cases preface with
    | false =>
        rw [next] at hnext
        split at hnext
        · cases hnext
        · cases hnext
          simp only [Buffer.retrieve_eq_drop]
          exact List.drop_suffix _ _
    | true =>
        have hsuffix := parser.parse_suffix buf
        rw [next] at hnext
        split at hnext
        · cases hnext
        · next frame parser' buf' hparse =>
            cases hnext
            rwa [hparse] at hsuffix

/-- The requests that are passed on. -/
def reader : Reader (Bool × Http2.FrameParser × Buffer) StreamEnvelope UInt8 :=
  frameReader.map fun m => request pb m.1

/-- The gRPC handler, on a connection from which no exception has left yet. -/
def receiver : Receiver (Http2.Session (σ × List StreamEnvelope) × Buffer)
    (Bool × Http2.FrameParser × Buffer) σ where
  toView := view
  OnMessage p q :=
    Http2.Session.onData (some (onStreamData pb f)) ({ p.1 with thrown := none }, p.2) = q
  append p more := (p.1, Buffer.append p.2 more)
  reader := reader pb
  callback := f.callback fun _ => {}
  escapes run := decide (run.thrown = some .other)

variable {pb f}

/-- The request of a frame is that of the message `Decode` takes off its payload. -/
theorem frameRequest_eq (frame : Http2.Frame) : frameRequest pb frame =
    if frame.IsData then (GrpcCodec.decode frame.payload).1.map fun m => request pb m.1 else none := by
  rw [frameRequest, frameMessage]
  split
  · rcases GrpcCodec.decode frame.payload with ⟨- | ⟨payload, compressed⟩, rest⟩ <;> rfl
  · rfl

/-- What the callback of the session does with the message at the front of a payload. -/
theorem onStreamData_of_some {payload : Bytes} {m : Bytes × Bool}
    (h : (GrpcCodec.decode payload).1 = some m) (app : σ × List StreamEnvelope) (stream : Stream) :
    (onStreamData pb f app stream payload).1
        = ((f app.1 (request pb m.1) {}).app, app.2 ++ [request pb m.1]) ∧
      ((onStreamData pb f app stream payload).2.2 = none ↔
        (f app.1 (request pb m.1) {}).thrown ≠ some .other) := by
  obtain ⟨bytes, compressed⟩ := m
  simp only [onStreamData, h]
  cases hthrown : (f app.1 (request pb bytes) {}).thrown with
  | none => simp
  | some e =>
      cases e with
      | stdException => simp
      | other => simp

/-- What is seen in the loop of `OnData`, behind the preface. -/
def loopView : View (Http2.Session (σ × List StreamEnvelope) × Buffer)
    (Bool × Http2.FrameParser × Buffer) StreamEnvelope σ where
  reading p := (true, p.1.parser, p.2)
  state p := p.1.app.1
  passed p := p.1.app.2
  escaped p := p.1.thrown ≠ none

/-- What handling a frame does with its request. -/
theorem handleFrame_serves (s : Http2.Session (σ × List StreamEnvelope)) (hs : s.thrown = none)
    (frame : Http2.Frame) (parser : Http2.FrameParser) (buf rest : Buffer) :
    loopView.Serves (f.callback fun _ => {}) (fun run => decide (run.thrown = some .other)) (s, buf)
      (Http2.Session.handleFrame (some (onStreamData pb f)) { s with parser } frame, rest)
      (frameRequest pb frame) := by
  have houtcome := Http2.Session.handleFrame_outcome (onStreamData pb f) { s with parser } frame
  generalize Http2.Session.handleFrame (some (onStreamData pb f)) { s with parser } frame = s'
    at houtcome
  rw [frameRequest_eq]
  -- Only a DATA frame reaches the handler, and only with a complete message in front.
  by_cases hdata : frame.IsData
  · rw [if_pos hdata] at houtcome ⊢
    obtain ⟨stream, happ, hthrown⟩ := houtcome
    cases hdecode : (GrpcCodec.decode frame.payload).1 with
    | none =>
        rw [onStreamData_of_none hdecode] at happ hthrown
        exact ⟨not_not.mpr hthrown, congrArg Prod.fst happ, congrArg Prod.snd happ⟩
    | some m =>
        obtain ⟨hrun, hescapes⟩ := onStreamData_of_some hdecode s.app stream
        rw [hrun] at happ
        rw [← hthrown] at hescapes
        refine ⟨?_, congrArg Prod.fst happ, congrArg Prod.snd happ⟩
        exact (not_congr hescapes).trans (not_not.trans decide_eq_true_iff.symm)
  · rw [if_neg hdata] at houtcome ⊢
    obtain ⟨happ, hthrown⟩ := houtcome
    exact ⟨not_not.mpr (hthrown.trans hs), congrArg Prod.fst happ, congrArg Prod.snd happ⟩

/-- Handling a frame leaves the parser alone. -/
theorem parser_handleFrame (s : Http2.Session (σ × List StreamEnvelope)) (frame : Http2.Frame) :
    (Http2.Session.handleFrame (some (onStreamData pb f)) s frame).parser = s.parser :=
  Http2.Session.handleFrame_of_refines s frame

/-- A turn that takes a frame. -/
theorem turn_of_parse {cb : Option (OnStreamData (σ × List StreamEnvelope))}
    {s : Http2.Session (σ × List StreamEnvelope)} {buf : Buffer} {frame : Http2.Frame}
    {parser : Http2.FrameParser} {rest : Buffer}
    (hparse : s.parser.parse buf = (some frame, parser, rest)) :
    Http2.Session.turn cb (s, buf) =
      if (Http2.Session.handleFrame cb { s with parser } frame).thrown.isSome then
        .leave (Http2.Session.handleFrame cb { s with parser } frame, rest)
      else .again (Http2.Session.handleFrame cb { s with parser } frame, rest) := by
  rw [Http2.Session.turn, hparse]

/-- What is taken off the buffer behind the preface is a frame. -/
theorem next_spec {parser : Http2.FrameParser} {buf : Buffer} {x : Option StreamEnvelope}
    {r : Bool × Http2.FrameParser × Buffer}
    (hnext : (reader pb).next (true, parser, buf) = some (x, r)) :
    ∃ frame parser' rest, parser.parse buf = (some frame, parser', rest) ∧
      x = frameRequest pb frame ∧ r = (true, parser', rest) := by
  obtain ⟨⟨m, r'⟩, hframe, heq⟩ := Option.map_eq_some_iff.mp hnext
  cases heq
  change next (true, parser, buf) = some (m, r') at hframe
  rw [next] at hframe
  split at hframe
  · cases hframe
  · next frame parser' rest hparse =>
      cases hframe
      exact ⟨frame, parser', rest, hparse, rfl, rfl⟩

/-- Behind the preface nothing can be taken off exactly when `Parse` returns false. -/
theorem next_eq_none_iff {parser : Http2.FrameParser} {buf : Buffer} :
    (reader pb).next (true, parser, buf) = none ↔ (parser.parse buf).1 = none := by
  show ((next (true, parser, buf)).map _) = none ↔ _
  rw [Option.map_eq_none_iff, next]
  rcases parser.parse buf with ⟨- | frame, parser', rest⟩
  · exact iff_of_true rfl rfl
  · exact iff_of_false (by simp) (by simp)

/-- **The session dispatches its messages**, and every `std::exception` is contained. -/
theorem dispatches : Dispatches (reader pb) (f.callback fun _ => {})
    (fun run => decide (run.thrown = some .other)) loopView (fun _ => True)
    (Http2.Session.turn (some (onStreamData pb f))) := by
  apply Dispatches.of_serves
  · -- a frame
    rintro ⟨s, buf⟩ x r hgoing hnext
    obtain ⟨frame, parser, rest, hparse, rfl, rfl⟩ := next_spec hnext
    refine ⟨_, handleFrame_serves s (not_not.mp hgoing) frame parser buf rest, fun hescaped => ?_,
      fun hon => ⟨?_, ?_⟩⟩
    · rw [turn_of_parse hparse, if_pos (Option.isSome_iff_ne_none.mpr hescaped)]
    · rw [turn_of_parse hparse, if_neg (by simpa [loopView] using hon)]
    · show (true, (Http2.Session.handleFrame _ { s with parser } frame).parser, rest) = _
      rw [parser_handleFrame]
  · -- no whole frame any more
    rintro ⟨s, buf⟩ hgoing hnext -
    have hnone : (s.parser.parse buf).1 = none := next_eq_none_iff.mp hnext
    have hsuffix := s.parser.parse_suffix buf
    rcases hparse : s.parser.parse buf with ⟨- | frame, parser, rest⟩
    · rw [hparse] at hsuffix
      refine ⟨({ s with parser }, rest), ?_, hgoing, rfl, hsuffix⟩
      rw [Http2.Session.turn, hparse]
    · rw [hparse] at hnone
      cases hnone
  · exact fun _ _ _ _ hends => absurd trivial hends

variable (pb f) in
/-- Behind the preface the loop runs over the messages. -/
theorem loop_dispatched (s : Http2.Session (σ × List StreamEnvelope)) (hs : s.thrown = none)
    (buf : Buffer) :
    NetworkLib.Dispatched (reader pb) (f.callback fun _ => {})
      (fun run => decide (run.thrown = some .other)) view (fun _ => True) (true, s.parser, buf)
      s.app.1 s.app.2 fun q => Loop.run (Http2.Session.turn (some (onStreamData pb f)))
        Http2.Session.rank (s, buf) = q := by
  refine (dispatches.dispatched (s := (s, buf)) (not_not.mpr hs)).transfer (fun _ => ⟨_, rfl⟩) ?_
  rintro u rfl
  exact ⟨_, (exits_iff_run_eq _ Http2.Session.turn_rank).mpr rfl, Iff.rfl, rfl, rfl⟩

variable (pb f) in
/-- **One call of the gRPC handler.** -/
theorem dispatched (p : Http2.Session (σ × List StreamEnvelope) × Buffer) :
    (receiver pb f).Dispatched (fun _ => True) p := by
  obtain ⟨s, buf⟩ := p
  cases hpreface : s.prefaceReceived with
  | true =>
      have hcall := loop_dispatched pb f { s with thrown := none } rfl buf
      have honData : Http2.Session.onData (some (onStreamData pb f)) ({ s with thrown := none }, buf)
          = Loop.run (Http2.Session.turn (some (onStreamData pb f))) Http2.Session.rank
            ({ s with thrown := none }, buf) := if_pos hpreface
      rw [← honData] at hcall
      show NetworkLib.Dispatched _ _ _ _ _ (s.prefaceReceived, s.parser, buf) _ _ _
      rw [hpreface]
      exact hcall
  | false =>
      show NetworkLib.Dispatched _ _ _ _ _ (s.prefaceReceived, s.parser, buf) _ _ _
      rw [hpreface]
      by_cases hfront : buf.length < kPrefaceLen ∨ buf.take kPrefaceLen ≠ kClientPreface
      · -- there is no preface, and the application sees nothing
        have hnone : (reader pb).next (false, s.parser, buf) = none := by
          show ((next (false, s.parser, buf)).map _) = none
          rw [next, if_pos hfront, Option.map_none]
        refine .of_none hnone (fun _ => ⟨_, rfl⟩) ?_ (absurd trivial)
        rintro - u rfl
        simp only [Http2.Session.onData, hpreface, Bool.false_eq_true, if_false]
        split
        · exact ⟨not_not.mpr rfl, rfl, List.suffix_refl _⟩
        · next hlen =>
            rw [if_neg (hfront.resolve_left hlen)]
            exact ⟨not_not.mpr rfl, rfl, List.suffix_refl _⟩
      · have hsome : (reader pb).next (false, s.parser, buf)
            = some (none, (true, s.parser, Buffer.retrieve buf kPrefaceLen)) := by
          show ((next (false, s.parser, buf)).map _) = _
          rw [next, if_neg hfront]
          rfl
        obtain ⟨hlen, hmatch⟩ := not_or.mp hfront
        have hcall := loop_dispatched pb f
          { s with thrown := none, prefaceReceived := true } rfl (Buffer.retrieve buf kPrefaceLen)
        have honData : Http2.Session.onData (some (onStreamData pb f))
            ({ s with thrown := none }, buf)
              = Loop.run (Http2.Session.turn (some (onStreamData pb f))) Http2.Session.rank
                ({ s with thrown := none, prefaceReceived := true },
                  Buffer.retrieve buf kPrefaceLen) := by
          simp only [Http2.Session.onData, hpreface, Bool.false_eq_true, if_false, hlen,
            not_not.mp hmatch, if_true]
        rw [← honData] at hcall
        exact hcall.skip hsome

end GrpcHandler

end NetworkLib
