import NetworkLib.Protocols.Http2.Session

/-! # Input of an HTTP/2 session

`OnData` reads the frames behind the client preface with a parser that takes headers before their
payloads have arrived. It refines the staged reader of HTTP/2's header format, so that in any
cutting of the bytes received it handles the frames that `HeaderFormat.split` finds in them
(`session_input`). -/

namespace NetworkLib.Http2

open Loop

variable {σ : Type*}

/-- The frames of a byte string. -/
def frames (bs : Bytes) : List Frame :=
  (format.split bs).1.map fun m => { header := FrameHeader.ofBytes m.1, payload := m.2 }

/-- A DATA frame with a stream id. -/
def Frame.IsData (frame : Frame) : Prop :=
  0 < frame.header.streamId ∧ frame.header.type = FrameType.data

instance (frame : Frame) : Decidable frame.IsData := inferInstanceAs (Decidable (_ ∧ _))

namespace Session

/-! ## The parser is the only part of a session that depends on the cutting -/

/-- The session without its parser. -/
def strip (s : Session σ) : Session σ := { s with parser := {} }

/-- What the code has taken in stands for a header taken. -/
def Staged (parser : FrameParser) : Option Bytes → Prop
  | none => parser.state = .kReadingHeader
  | some header => parser = { state := .kReadingPayload, currentHeader := FrameHeader.ofBytes header }

/-- The session and buffer of the code, and those of the staged reader. -/
def Refines (p : Session σ × Buffer) (q : (Session σ × Option Bytes) × Bytes) : Prop :=
  q.1.1 = p.1.strip ∧ q.2 = p.2 ∧ Staged p.1.parser q.1.2

/-- Handle a message of the header format. -/
def handleMessage (cb : Option (OnStreamData σ)) (s : Session σ) (m : Bytes × Bytes) : Session σ :=
  handleFrame cb s { header := FrameHeader.ofBytes m.1, payload := m.2 }

variable {cb : Option (OnStreamData σ)}

/-- Handling a frame neither reads nor changes the parser. -/
theorem parser_handleFrame (s : Session σ) (parser : FrameParser) (frame : Frame) :
    handleFrame cb { s with parser } frame = { handleFrame cb s frame with parser } := by
  unfold handleFrame
  split
  · have hstream : getStream { s with parser } frame.header.streamId
        = ({ (s.getStream frame.header.streamId).1 with parser },
          (s.getStream frame.header.streamId).2) := by
      unfold getStream
      cases s.streams frame.header.streamId <;> rfl
    simp only [hstream]
    split
    · cases cb <;> rfl
    · rfl
  · rfl

/-- Handling a frame is the same without the parser. -/
theorem strip_handleFrame (s : Session σ) (frame : Frame) :
    (handleFrame cb s frame).strip = handleFrame cb s.strip frame :=
  (parser_handleFrame s {} frame).symm

/-- The staged reader of the frames a session receives. -/
def reader (cb : Option (OnStreamData σ)) : Consumer (Session σ × Option Bytes) UInt8 :=
  format.staged (fun s => s.thrown.isSome) (handleMessage cb)

variable (cb) in
/-- The parser with which the loop starts a turn, once a header that is there is taken. -/
theorem refines_readHeader {s : Session σ} {buf : Buffer}
    {q : (Session σ × Option Bytes) × Bytes} (h : Refines (s, buf) q) (hthrown : s.thrown = none) :
    ∃ q', (reader cb).drain q = (reader cb).drain q' ∧
      Refines ({ s with parser := (FrameParser.readHeader (s.parser, buf)).1 },
        (FrameParser.readHeader (s.parser, buf)).2) q' ∧
      (q'.1.2 = none → q'.2.length < 9) := by
  obtain ⟨⟨t, header⟩, bs⟩ := q
  obtain ⟨hs, hbuf, hstaged⟩ := h
  obtain rfl : t = s.strip := hs
  obtain rfl : bs = buf := hbuf
  cases header with
  | none =>
      -- the reader takes a header exactly when the parser does
      have hstate : s.parser.state = .kReadingHeader := hstaged
      by_cases hlen : bs.length < 9
      · refine ⟨((s.strip, none), bs), rfl, ?_, fun _ => hlen⟩
        simp only [FrameParser.readHeader, hstate, hlen, if_true]
        exact ⟨rfl, rfl, hstate⟩
      · refine ⟨((s.strip, some (bs.take 9)), bs.drop 9), ?_, ?_, by simp⟩
        · have hgo : ¬ s.strip.thrown.isSome = true := by
            rw [show s.strip.thrown = none from hthrown]
            simp
          exact Consumer.drain_of_some (if_neg (not_or.mpr ⟨hgo, hlen⟩))
        · simp only [FrameParser.readHeader, hstate, hlen, if_true, if_false,
            Buffer.retrieve_eq_drop]
          exact ⟨rfl, rfl, rfl⟩
  | some header =>
      -- both hold the header already
      refine ⟨((s.strip, some header), bs), rfl, ?_, by simp⟩
      have hparser : s.parser
          = { state := .kReadingPayload, currentHeader := FrameHeader.ofBytes header } := hstaged
      simp only [FrameParser.readHeader, hparser, reduceCtorEq, if_false]
      exact ⟨rfl, rfl, rfl⟩

variable (cb) in
/-- One turn of the loop, once the header is taken. -/
theorem turn_eq (s : Session σ) (buf : Buffer) {parser : FrameParser} {rest : Buffer}
    (h : FrameParser.readHeader (s.parser, buf) = (parser, rest)) :
    turn cb (s, buf) =
      if parser.state = .kReadingPayload ∧ parser.currentHeader.length ≤ rest.length then
        let s' := handleFrame cb { s with parser := { parser with state := .kReadingHeader } }
          { header := parser.currentHeader, payload := rest.take parser.currentHeader.length }
        if s'.thrown.isSome then .leave (s', rest.drop parser.currentHeader.length)
        else .again (s', rest.drop parser.currentHeader.length)
      else .leave ({ s with parser }, rest) := by
  simp only [turn, FrameParser.parse, h]
  by_cases hstate : parser.state = .kReadingPayload
  · by_cases hlen : rest.length < parser.currentHeader.length
    · simp only [hstate, hlen, if_true]
      rw [if_neg (fun hc => absurd hc.2 (not_le.mpr hlen))]
    · simp only [hstate, hlen, if_true, if_false, Buffer.retrieve_eq_drop, true_and]
      rw [if_pos (not_lt.mp hlen)]
  · simp only [hstate, if_false, false_and]

/-- Taking a header uses something up. -/
theorem readHeader_rank (p : FrameParser × Buffer) :
    2 * (FrameParser.readHeader p).2.length
        + (if (FrameParser.readHeader p).1.state = .kReadingPayload then 1 else 0)
      ≤ 2 * p.2.length + if p.1.state = .kReadingPayload then 1 else 0 := by
  obtain ⟨parser, buf⟩ := p
  unfold FrameParser.readHeader
  simp only
  split
  · next hstate =>
      split
      · exact le_rfl
      · simp only [Buffer.retrieve_eq_drop, List.length_drop, if_true]
        omega
  · exact le_rfl

/-- Handling a frame leaves the parser alone. -/
theorem handleFrame_of_refines (s : Session σ) (frame : Frame) :
    (handleFrame cb s frame).parser = s.parser := by
  rw [show s = { s with parser := s.parser } from rfl, parser_handleFrame]

/-- Every turn that goes round takes a frame. -/
theorem turn_rank (p q : Session σ × Buffer) (h : turn cb p = .again q) : rank q < rank p := by
  obtain ⟨s, buf⟩ := p
  cases hread : FrameParser.readHeader (s.parser, buf) with
  | mk parser rest =>
      have hrank := readHeader_rank (s.parser, buf)
      rw [hread] at hrank
      rw [turn_eq cb s buf hread] at h
      split at h
      · next hc =>
          simp only at h
          split at h
          · cases h
          · cases h
            simp only [hc.1, if_true] at hrank
            simp only [rank, handleFrame_of_refines, reduceCtorEq, if_false, List.length_drop]
            omega
      · cases h

variable (cb) in
/-- A whole frame is handled in the same way by both. -/
theorem refines_frame (s : Session σ) (parser : FrameParser) (hstate : parser.state = .kReadingHeader)
    (header rest rest' : Bytes) :
    Refines (handleFrame cb { s with parser } { header := FrameHeader.ofBytes header, payload := rest },
      rest') ((handleMessage cb s.strip (header, rest), none), rest') := by
  refine ⟨?_, rfl, ?_⟩
  · exact (strip_handleFrame { s with parser } _).symm
  · rw [Staged, handleFrame_of_refines]
    exact hstate

/-- **The loop of `OnData` is the staged reader.** -/
theorem run_refines {p : Session σ × Buffer} {q : (Session σ × Option Bytes) × Bytes}
    (h : Refines p q) (hthrown : p.1.thrown = none) :
    Refines (run (turn cb) rank p) ((reader cb).drain q) := by
  induction hn : rank p using Nat.strongRecOn generalizing p q with
  | _ n ih =>
      obtain ⟨s, buf⟩ := p
      obtain ⟨q', hdrain, hrefines, hshort⟩ := refines_readHeader cb h hthrown
      rw [hdrain]
      cases hread : FrameParser.readHeader (s.parser, buf) with
      | mk parser rest =>
          rw [hread] at hrefines
          have hturn := turn_eq cb s buf hread
          obtain ⟨⟨t, header⟩, bs⟩ := q'
          obtain ⟨hs, hbuf, hstaged⟩ := hrefines
          obtain rfl : t = s.strip := hs
          obtain rfl : bs = rest := hbuf
          cases header with
          | none =>
              -- no header yet
              have hstate : parser.state = .kReadingHeader := hstaged
              rw [if_neg (by simp [hstate])] at hturn
              rw [run_of_leave rank hturn,
                Consumer.drain_of_none (if_pos (.inr (hshort rfl)))]
              exact ⟨rfl, rfl, hstate⟩
          | some header =>
              have hparser : parser =
                { state := .kReadingPayload, currentHeader := FrameHeader.ofBytes header } := hstaged
              subst hparser
              by_cases hlen : (FrameHeader.ofBytes header).length ≤ bs.length
              · -- a whole frame
                rw [if_pos ⟨rfl, hlen⟩] at hturn
                have hnext : (reader cb).next ((s.strip, some header), bs)
                    = some ((handleMessage cb s.strip
                        (header, bs.take (FrameHeader.ofBytes header).length), none),
                      bs.drop (FrameHeader.ofBytes header).length) := by
                  have hgo : ¬ s.strip.thrown.isSome = true := by
                    rw [show s.strip.thrown = none from hthrown]
                    simp
                  exact if_neg (not_or.mpr ⟨hgo, not_lt.mpr hlen⟩)
                have hframe := refines_frame cb s
                  { state := .kReadingHeader, currentHeader := FrameHeader.ofBytes header } rfl header
                  (bs.take (FrameHeader.ofBytes header).length)
                  (bs.drop (FrameHeader.ofBytes header).length)
                rw [Consumer.drain_of_some hnext]
                simp only at hturn
                split at hturn
                · next hthrown' =>
                    rw [run_of_leave rank hturn, Consumer.drain_of_none]
                    · exact hframe
                    · refine if_pos (.inl ?_)
                      have hsame : handleMessage cb s.strip
                          (header, bs.take (FrameHeader.ofBytes header).length) = _ := hframe.1
                      rw [hsame]
                      exact hthrown'
                · next hthrown' =>
                    rw [run_of_again rank turn_rank hturn]
                    exact ih _ (hn ▸ turn_rank _ _ hturn) hframe (by simpa using hthrown') rfl
              · -- the payload has not arrived
                rw [if_neg fun hc => hlen hc.2] at hturn
                rw [run_of_leave rank hturn,
                  Consumer.drain_of_none (if_pos (.inr (not_le.mp hlen)))]
                exact ⟨rfl, rfl, rfl⟩

/-! ## Reads -/

/-- Handling frames does not forget the preface. -/
theorem handleFrame_prefaceReceived (s : Session σ) (frame : Frame) :
    (handleFrame cb s frame).prefaceReceived = s.prefaceReceived := by
  unfold handleFrame
  split
  · have hstream : (s.getStream frame.header.streamId).1.prefaceReceived = s.prefaceReceived := by
      unfold getStream
      cases s.streams frame.header.streamId <;> rfl
    simp only
    split
    · cases cb <;> exact hstream
    · exact hstream
  · rfl

/-- The reader does not forget the preface. -/
theorem drain_prefaceReceived {q : (Session σ × Option Bytes) × Bytes}
    (h : q.1.1.prefaceReceived = true) : ((reader cb).drain q).1.1.prefaceReceived = true := by
  refine Consumer.drain_induction
    (P := fun q : (Session σ × Option Bytes) × Bytes => q.1.1.prefaceReceived = true) ?_ h
  rintro ⟨⟨s, header⟩, bs⟩ q' hs hnext
  change HeaderFormat.stagedNext _ _ _ _ = _ at hnext
  cases header with
  | none =>
      rw [HeaderFormat.stagedNext] at hnext
      split at hnext
      · cases hnext
      · cases hnext
        exact hs
  | some header =>
      rw [HeaderFormat.stagedNext] at hnext
      split at hnext
      · cases hnext
      · cases hnext
        exact (handleFrame_prefaceReceived _ _).trans hs

/-- A reader whose callback has thrown reads no further. -/
theorem feedAll_of_thrown {q : (Session σ × Option Bytes) × Bytes}
    (h : q.1.1.thrown.isSome = true) (reads : List Bytes) :
    ((reader cb).feedAll q reads).1 = q.1 := by
  induction reads generalizing q with
  | nil => rfl
  | cons read reads ih =>
      obtain ⟨⟨s, header⟩, bs⟩ := q
      have hfeed : (reader cb).feed ((s, header), bs) read = ((s, header), bs ++ read) := by
        refine Consumer.drain_of_none ?_
        cases header with
        | none => exact if_pos (.inl h)
        | some header => exact if_pos (.inl h)
      rw [Consumer.feedAll_cons, hfeed]
      exact ih h

/-- **Once the preface is received**, the calls after each read are the staged reader fed with
the reads. -/
theorem receiveAll_refines {p : Session σ × Buffer} {q : (Session σ × Option Bytes) × Bytes}
    (h : Refines p q) (hpreface : q.1.1.prefaceReceived = true) (reads : List Bytes) :
    (receiveAll cb p reads).1.strip = ((reader cb).feedAll q reads).1.1 := by
  induction reads generalizing p q with
  | nil => exact h.1.symm
  | cons read reads ih =>
      by_cases hthrown : p.1.thrown = none
      · have hstep : Refines (p.1, Buffer.append p.2 read) (q.1, q.2 ++ read) :=
          ⟨h.1, by rw [h.2.1]; rfl, h.2.2⟩
        have honData : onData cb (p.1, Buffer.append p.2 read)
            = run (turn cb) rank (p.1, Buffer.append p.2 read) := by
          rw [h.1] at hpreface
          exact if_pos hpreface
        have hnext : Refines _ ((reader cb).feed q read) := run_refines hstep hthrown
        rw [Consumer.feedAll_cons, ← ih hnext (drain_prefaceReceived hpreface)]
        simp only [receiveAll, List.foldl_cons, hthrown, Option.isSome_none, Bool.false_eq_true,
          if_false, honData]
      · -- nothing is called any more
        have hsome : p.1.thrown.isSome = true := Option.isSome_iff_ne_none.mpr hthrown
        have hstay : receiveAll cb p (read :: reads) = p := by
          unfold receiveAll
          refine List.foldlRecOn (read :: reads) _ (motive := fun t => t = p) rfl ?_
          rintro _ rfl _ -
          exact if_pos hsome
        rw [hstay, feedAll_of_thrown (by rw [h.1]; exact hsome), h.1]

/-- Without the preface, every call closes the connection and does nothing else. -/
theorem receiveAll_bad (s : Session σ) (hs : s.prefaceReceived = false ∧ s.thrown = none)
    (buf : Buffer) (hlen : kPrefaceLen ≤ buf.length) (hbad : buf.take kPrefaceLen ≠ kClientPreface)
    (reads : List Bytes) :
    (receiveAll cb (s, buf) reads).1
      = { s with calls := s.calls ++ List.replicate reads.length .forceClose } := by
  induction reads generalizing s buf with
  | nil => simp [receiveAll]
  | cons read reads ih =>
      have htake : (buf ++ read).take kPrefaceLen = buf.take kPrefaceLen :=
        List.take_append_of_le_length hlen
      have honData : onData cb (s, buf ++ read)
          = ({ s with calls := s.calls ++ [.forceClose] }, buf ++ read) := by
        simp only [onData, hs.1, Bool.false_eq_true, if_false, List.length_append, htake, hbad]
        rw [if_neg (by omega)]
      have hrest := ih { s with calls := s.calls ++ [.forceClose] } hs (buf ++ read)
        (by rw [List.length_append]; omega) (by rwa [htake])
      simp only [receiveAll, List.foldl_cons, hs.2, Option.isSome_none, Bool.false_eq_true,
        if_false, Buffer.append_eq, honData] at hrest ⊢
      rw [hrest, List.length_cons, List.replicate_succ, List.append_assoc]
      rfl

/-- The session that is started when the preface is there. -/
def started (app : σ) : Session σ := { app, prefaceReceived := true }

variable (cb) in
/-- **What the calls after each read make of a new session**, in terms of the bytes received. -/
theorem receiveAll_fresh (app : σ) (buf : Buffer) (hbuf : buf.length < kPrefaceLen)
    (reads : List Bytes) :
    if (buf ++ reads.flatten).length < kPrefaceLen then
      receiveAll cb ({ app }, buf) reads = ({ app }, buf ++ reads.flatten)
    else if (buf ++ reads.flatten).take kPrefaceLen = kClientPreface then
      (receiveAll cb ({ app }, buf) reads).1.strip
        = ((reader cb).drain ((started app, none), (buf ++ reads.flatten).drop kPrefaceLen)).1.1
    else ∃ k, 0 < k ∧ (receiveAll cb ({ app }, buf) reads).1
      = { app, calls := List.replicate k .forceClose } := by
  -- Induction on the reads; as long as the preface is not complete only the buffer grows.
  induction reads generalizing buf with
  | nil =>
      rw [List.flatten_nil, List.append_nil, if_pos hbuf]
      rfl
  | cons read reads ih =>
      have hstep : receiveAll cb ({ app }, buf) (read :: reads)
          = receiveAll cb (onData cb ({ app }, buf ++ read)) reads := rfl
      rw [hstep, List.flatten_cons, ← List.append_assoc]
      by_cases hlen : (buf ++ read).length < kPrefaceLen
      · -- the preface is not there yet
        have honData : onData cb ({ app }, buf ++ read) = ({ app }, buf ++ read) := by
          simp only [onData, Bool.false_eq_true, if_false, hlen, if_true]
        rw [honData]
        exact ih _ hlen
      · have hlen' : ¬ (buf ++ read ++ reads.flatten).length < kPrefaceLen := by
          rw [List.length_append]
          omega
        have htake : (buf ++ read ++ reads.flatten).take kPrefaceLen
            = (buf ++ read).take kPrefaceLen := List.take_append_of_le_length (not_lt.mp hlen)
        rw [if_neg hlen', htake]
        by_cases hpreface : (buf ++ read).take kPrefaceLen = kClientPreface
        · -- the preface is complete: from here on the session is its reader
          rw [if_pos hpreface, List.drop_append_of_le_length (not_lt.mp hlen),
            Consumer.drain_append]
          have honData : onData cb ({ app }, buf ++ read)
              = run (turn cb) rank (started app, (buf ++ read).drop kPrefaceLen) := by
            simp only [onData, Bool.false_eq_true, if_false, hlen, hpreface, if_true,
              Buffer.retrieve_eq_drop]
            rfl
          have hstart : Refines (started app, (buf ++ read).drop kPrefaceLen)
              ((started app, none), (buf ++ read).drop kPrefaceLen) := ⟨rfl, rfl, rfl⟩
          rw [honData, receiveAll_refines (run_refines hstart rfl) (drain_prefaceReceived rfl),
            Consumer.feedAll_eq_drain (Consumer.next_drain _)]
        · -- other bytes: every further read is refused in the same way
          rw [if_neg hpreface]
          have honData : onData cb ({ app }, buf ++ read)
              = ({ app, calls := [.forceClose] }, buf ++ read) := by
            simp only [onData, Bool.false_eq_true, if_false, hlen, hpreface]
            rfl
          refine ⟨reads.length + 1, Nat.succ_pos _, ?_⟩
          rw [honData, receiveAll_bad _ ⟨rfl, rfl⟩ _ (not_lt.mp hlen) hpreface,
            List.replicate_succ]
          rfl

/-! ## What handling frames does -/

/-- The data buffer of a stream. -/
def data (s : Session σ) (id : ℕ) : Bytes :=
  match s.streams id with
  | none => []
  | some stream => stream.dataBuffer

/-- Every stream is kept under its own id. -/
def Keyed (s : Session σ) : Prop := ∀ id stream, s.streams id = some stream → stream.id = id

variable {f : OnStreamData σ} {s : Session σ}

/-- `GetStream` finds the stream of the id, and loses no data. -/
theorem getStream_spec (hs : s.Keyed) (id : ℕ) :
    (s.getStream id).1.Keyed ∧ (s.getStream id).2 = { id, dataBuffer := s.data id } ∧
      (∀ id', (s.getStream id).1.data id' = s.data id') ∧
      (s.getStream id).1.notified = s.notified := by
  unfold getStream
  cases hid : s.streams id with
  | some stream =>
      have hkey : stream.id = id := hs id stream hid
      refine ⟨hs, ?_, fun _ => rfl, rfl⟩
      simp only [data, hid]
      rw [← hkey]
  | none =>
      refine ⟨?_, by simp only [data, hid], fun id' => ?_, rfl⟩
      · intro id' stream hstream
        by_cases heq : id' = id
        · subst heq
          simp only [Function.update_self, Option.some.injEq] at hstream
          rw [← hstream]
        · simp only [Function.update_of_ne heq] at hstream
          exact hs id' stream hstream
      · by_cases heq : id' = id
        · subst heq
          simp only [data, Function.update_self, hid]
        · simp only [data, Function.update_of_ne heq]

/-- **What handling one frame does**: a DATA frame goes to its stream and to the callback; another
frame changes no data. -/
theorem handleFrame_spec (hs : s.Keyed) (frame : Frame) :
    (handleFrame (some f) s frame).Keyed ∧
      (handleFrame (some f) s frame).notified = s.notified ++ (if frame.IsData then
        [({ id := frame.header.streamId
            dataBuffer := s.data frame.header.streamId ++ frame.payload }, frame.payload)]
        else []) ∧
      ∀ id, (handleFrame (some f) s frame).data id = s.data id
        ++ if frame.IsData ∧ frame.header.streamId = id then frame.payload else [] := by
  unfold handleFrame Frame.IsData
  by_cases hid : 0 < frame.header.streamId
  · obtain ⟨hkeyed, hstream, hdata, hnotified⟩ := getStream_spec hs frame.header.streamId
    generalize s.getStream frame.header.streamId = r at hkeyed hstream hdata hnotified ⊢
    obtain ⟨t, stream⟩ := r
    obtain rfl : stream = _ := hstream
    -- every frame of a stream creates it; only a data frame reaches the callback
    by_cases htype : frame.header.type = FrameType.data
    · simp only [hid, htype, if_true, and_self, true_and, notify]
      refine ⟨?_, ?_, fun id => ?_⟩
      · intro id stream h
        by_cases heq : id = frame.header.streamId
        · subst heq
          simp only [Function.update_self, Option.some.injEq] at h
          rw [← h]
          rfl
        · simp only [Function.update_of_ne heq] at h
          exact hkeyed id stream h
      · rw [hnotified]
        rfl
      · by_cases heq : frame.header.streamId = id
        · subst heq
          simp only [data, Function.update_self, Stream.appendData, Buffer.append_eq, if_true]
        · have hsame := hdata id
          simp only [data, Function.update_of_ne (Ne.symm heq), heq, if_false, List.append_nil]
            at hsame ⊢
          exact hsame
    · simp only [hid, htype, if_true, if_false, and_false, false_and, List.append_nil]
      exact ⟨hkeyed, by rw [hnotified], hdata⟩
  · simp only [hid, if_false, false_and, List.append_nil]
    exact ⟨hs, trivial, fun _ => trivial⟩

/-- The calls of the callback that some frames are to bring: a stream id and a payload each. -/
def notices (fs : List Frame) : List (ℕ × Bytes) :=
  (fs.filter fun frame => frame.IsData).map fun frame => (frame.header.streamId, frame.payload)

/-- The data that some frames bring for a stream. -/
def payloads (fs : List Frame) (id : ℕ) : Bytes :=
  (fs.filter fun frame => frame.IsData ∧ frame.header.streamId = id).flatMap Frame.payload

/-- The data of some frames, and of more behind them. -/
theorem payloads_append (fs fs' : List Frame) (id : ℕ) :
    payloads (fs ++ fs') id = payloads fs id ++ payloads fs' id := by
  rw [payloads, List.filter_append, List.flatMap_append]
  rfl

/-- What some frames hand to the callback behind those `before` them: for each DATA frame the stream
of its id, with all the data that has come for it, and the payload. -/
def handed (before : List Frame) : List Frame → List (Stream × Bytes)
  | [] => []
  | frame :: fs =>
      let rest := handed (before ++ [frame]) fs
      if frame.IsData then
        ({ id := frame.header.streamId
           dataBuffer := payloads (before ++ [frame]) frame.header.streamId }, frame.payload) :: rest
      else rest

/-- Of each stream handed over the id. -/
theorem map_handed (before fs : List Frame) :
    (handed before fs).map (fun n => (n.1.id, n.2)) = notices fs := by
  induction fs generalizing before with
  | nil => rfl
  | cons frame fs ih =>
      have hrest := ih (before ++ [frame])
      rw [notices] at hrest
      rw [handed]
      by_cases h : frame.IsData
      · simp [notices, h, hrest]
      · simp [notices, h, hrest]

/-- **What handling some frames does**, in a session that has the data of those `before` them. -/
theorem foldl_handleFrame_spec (hs : s.Keyed) (before : List Frame)
    (hbefore : ∀ id, s.data id = payloads before id) (fs : List Frame) :
    (fs.foldl (handleFrame (some f)) s).notified = s.notified ++ handed before fs ∧
      ∀ id, (fs.foldl (handleFrame (some f)) s).data id = payloads (before ++ fs) id := by
  -- Induction on the frames; the buffers hold what `before` has brought.
  induction fs generalizing s before with
  | nil =>
      rw [List.append_nil]
      exact ⟨(List.append_nil _).symm, hbefore⟩
  | cons frame fs ih =>
      obtain ⟨hkeyed, hnotified, hdata⟩ := handleFrame_spec (f := f) hs frame
      have hnext : ∀ id, (handleFrame (some f) s frame).data id = payloads (before ++ [frame]) id := by
        intro id
        rw [hdata, hbefore, payloads_append]
        by_cases h : frame.IsData ∧ frame.header.streamId = id
        · simp [payloads, h]
        · simp [payloads, h]
      obtain ⟨hrest, hdata'⟩ := ih hkeyed (before ++ [frame]) hnext
      rw [List.foldl_cons, List.append_cons, hrest, hnotified, List.append_assoc]
      refine ⟨?_, hdata'⟩
      rw [handed]
      by_cases h : frame.IsData
      · have hself : payloads [frame] frame.header.streamId = frame.payload := by
          simp [payloads, h]
        rw [if_pos h, if_pos h, hbefore, payloads_append, hself]
        rfl
      · rw [if_neg h, if_neg h]
        rfl

/-- Frames are handled without an exception when the callback never throws. -/
theorem thrown_foldl_handleFrame (hf : ∀ app stream data, (f app stream data).2.2 = none)
    (hs : s.thrown = none) (fs : List Frame) :
    (fs.foldl (handleFrame (some f)) s).thrown = none := by
  refine List.foldlRecOn fs _ (motive := fun s : Session σ => s.thrown = none) hs ?_
  intro s hs frame _
  unfold handleFrame
  split
  · have hstream : (s.getStream frame.header.streamId).1.thrown = s.thrown := by
      unfold getStream
      cases s.streams frame.header.streamId <;> rfl
    simp only
    split
    · exact hf _ _ _
    · exact hstream.trans hs
  · exact hs

/-- A new session handles the frames behind the preface one after another, all of them or up to the
one on which the callback throws. -/
theorem session_fold (f : OnStreamData σ) (app : σ) {p : Session σ} {bs : Bytes}
    (h : p.strip = ((reader (some f)).drain ((started app, none), bs)).1.1) :
    ∃ done todo, frames bs = done ++ todo ∧
      p.strip = done.foldl (handleFrame (some f)) (started app) ∧ (todo = [] ∨ p.thrown ≠ none) := by
  obtain ⟨done, todo, hsplit, hstate, hend⟩ :=
    format.staged_drain_spec (fun s : Session σ => s.thrown.isSome) (handleMessage (some f))
      (started app) bs
  let frame (m : Bytes × Bytes) : Frame := { header := FrameHeader.ofBytes m.1, payload := m.2 }
  refine ⟨done.map frame, todo.map frame, ?_, ?_, ?_⟩
  · rw [frames, hsplit, List.map_append]
  · rw [List.foldl_map]
    exact h.trans hstate
  · rcases hend with htodo | hthrown
    · exact .inl (by rw [htodo]; rfl)
    · have hsome : p.strip.thrown.isSome = true := by
        rw [show p.strip = _ from h.trans hstate]
        exact hthrown
      exact .inr (Option.isSome_iff_ne_none.mp hsome)

/-- Behind the preface, any cutting of the bytes is read as they are. -/
theorem receiveAll_preface (f : OnStreamData σ) (app : σ) {reads : List Bytes} {bs : Bytes}
    (h : reads.flatten = kClientPreface ++ bs) :
    (receiveAll (some f) ({ app }, []) reads).1.strip
      = ((reader (some f)).drain ((started app, none), bs)).1.1 := by
  have hfresh := receiveAll_fresh (some f) app [] (by decide) reads
  have hlen : ¬ (kClientPreface ++ bs).length < kPrefaceLen := by
    rw [List.length_append, show kClientPreface.length = kPrefaceLen by decide]
    omega
  rw [List.nil_append, h, if_neg hlen, if_pos (List.take_left' (by decide)),
    List.drop_left' (by decide)] at hfresh
  exact hfresh

/-- A callback that lets no exception out is called for all frames. -/
theorem session_of_no_throw {f : OnStreamData σ} (hf : ∀ app stream data, (f app stream data).2.2 = none)
    (app : σ) {reads : List Bytes} {bs : Bytes} (h : reads.flatten = kClientPreface ++ bs) :
    (receiveAll (some f) ({ app }, []) reads).1.strip
      = (frames bs).foldl (handleFrame (some f)) (started app) := by
  obtain ⟨done, todo, hframes, hstrip, hend⟩ := session_fold f app (receiveAll_preface f app h)
  have hthrown : (receiveAll (some f) ({ app }, []) reads).1.strip.thrown = none := by
    rw [hstrip]
    exact thrown_foldl_handleFrame hf rfl done
  obtain rfl := hend.resolve_right (fun hne => hne hthrown)
  rw [hframes, List.append_nil, hstrip]

/-- **Input of a session.** In any cutting of the bytes received into reads:

* before the length of the preface nothing happens;
* behind another beginning no frame is dispatched, and the connection is closed;
* behind the preface the callback is called once for each DATA frame of the bytes that follow, in
  order, with the stream of its id, as far as it has been received, and the payload, and the data
  buffer of every stream is the concatenation of its payloads. This holds of all the frames when the
  callback never throws, and else of the frames up to then. The session does not depend on the
  cutting. -/
theorem session_input (f : OnStreamData σ) (app : σ) (reads : List Bytes) :
    let bytes := reads.flatten
    let p := receiveAll (some f) ({ app }, []) reads
    if bytes.length < kPrefaceLen then p = ({ app }, bytes)
    else if bytes.take kPrefaceLen ≠ kClientPreface then
      ∃ k, 0 < k ∧ p.1 = { app, calls := List.replicate k .forceClose }
    else
      (∃ done todo, frames (bytes.drop kPrefaceLen) = done ++ todo ∧
        p.1.notified = handed [] done ∧ (∀ id, p.1.data id = payloads done id) ∧
        (todo = [] ∨ p.1.thrown ≠ none) ∧
        ((∀ app stream data, (f app stream data).2.2 = none) → todo = [])) ∧
      ∀ reads', reads'.flatten = bytes →
        (receiveAll (some f) ({ app }, []) reads').1.strip = p.1.strip := by
  intro bytes p
  have hfresh (reads : List Bytes) :=
    receiveAll_fresh (some f) app [] (by decide) reads
  simp only [List.nil_append] at hfresh
  by_cases hlen : bytes.length < kPrefaceLen
  · rw [if_pos hlen]
    exact (if_pos hlen ▸ hfresh reads : _)
  · rw [if_neg hlen]
    by_cases hpreface : bytes.take kPrefaceLen = kClientPreface
    · rw [if_neg (not_not.mpr hpreface)]
      -- behind the preface the frames decide, and how they were cut does not show
      have hbytes : bytes = kClientPreface ++ bytes.drop kPrefaceLen := by
        rw [← hpreface, List.take_append_drop]
      have hdrain (reads' : List Bytes) (h : reads'.flatten = bytes) :=
        receiveAll_preface f app (h.trans hbytes)
      refine ⟨?_, fun reads' h => (hdrain reads' h).trans (hdrain reads rfl).symm⟩
      obtain ⟨done, todo, hframes, hstrip, hend⟩ := session_fold f app (hdrain reads rfl)
      have hkeyed : (started app).Keyed := by
        intro id stream hstream
        cases hstream
      obtain ⟨hnotified, hdata⟩ := foldl_handleFrame_spec (f := f) hkeyed [] (fun _ => rfl) done
      rw [← hstrip] at hnotified hdata
      refine ⟨done, todo, hframes, hnotified, hdata, hend, fun hf => ?_⟩
      have hthrown : p.1.strip.thrown = none := by
        rw [hstrip]
        exact thrown_foldl_handleFrame hf rfl done
      exact hend.resolve_right fun hne => hne hthrown
    · rw [if_pos hpreface]
      have hreads := hfresh reads
      rw [if_neg hlen, if_neg hpreface] at hreads
      exact hreads

end Session

end NetworkLib.Http2
