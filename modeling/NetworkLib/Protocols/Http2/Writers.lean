import NetworkLib.Protocols.Http2.SessionInput

/-! # HTTP/2 frames written and read back

What `FrameParser` reads of the bytes that `SendStreamData` and `SendHeaders` write. Its loop finds
the frames of `HeaderFormat.split` in any cutting (`FrameParser.received_spec`), and these are what
was to be written exactly when the payload fits in the 24 bits of a frame's length
(`frames_inverted_iff`). -/

namespace NetworkLib.Http2

open Loop

/-- The END_STREAM flag is set. -/
def Frame.EndStream (frame : Frame) : Prop := frame.header.flags &&& 0x01 ≠ 0

namespace FrameParser

/-- One turn of a loop that calls `Parse` as long as it returns true. -/
def turn : List Frame × FrameParser × Buffer → Turn (List Frame × FrameParser × Buffer)
  | (frames, parser, buf) =>
      match parser.parse buf with
      | (none, parser, buf) => .leave (frames, parser, buf)
      | (some frame, parser, buf) => .again (frames ++ [frame], parser, buf)

/-- What the loop uses up: the unread bytes, and a header taken. -/
def rank (p : List Frame × FrameParser × Buffer) : ℕ :=
  2 * p.2.2.length + if p.2.1.state = .kReadingPayload then 1 else 0

/-- The frames a new parser reads, its state and the buffer, when the loop runs after each read. -/
def received (reads : List Bytes) : List Frame × FrameParser × Buffer :=
  reads.foldl (fun p read => run turn rank (p.1, p.2.1, Buffer.append p.2.2 read)) ([], {}, [])

/-- **What the parser makes of unread bytes**: they are all in the buffer, or the first nine are
taken for a header. -/
inductive Holds (bs : Bytes) : FrameParser × Buffer → Prop
  /-- No header is taken. -/
  | whole {parser : FrameParser} (hstate : parser.state = .kReadingHeader) : Holds bs (parser, bs)
  /-- The header is taken, and the payload has not been there whole. -/
  | taken (h9 : 9 ≤ bs.length) : Holds bs
      ({ state := .kReadingPayload, currentHeader := FrameHeader.ofBytes (bs.take 9) }, bs.drop 9)

/-- What the parser holds, with more bytes behind it. -/
theorem Holds.append {bs : Bytes} {p : FrameParser × Buffer} (h : Holds bs p) (c : Bytes) :
    Holds (bs ++ c) (p.1, Buffer.append p.2 c) := by
  cases h with
  | whole hstate => exact .whole hstate
  | taken h9 =>
      have hnext : Holds (bs ++ c) _ := .taken (by rw [List.length_append]; omega)
      rw [List.take_append_of_le_length h9, List.drop_append_of_le_length h9] at hnext
      exact hnext

/-- The header at the front is taken, once it is there. -/
theorem readHeader_of_holds {bs : Bytes} {p : FrameParser × Buffer} (h : Holds bs p) :
    if bs.length < 9 then (readHeader p).1.state = .kReadingHeader ∧ (readHeader p).2 = bs
    else readHeader p = ({ state := .kReadingPayload, currentHeader := FrameHeader.ofBytes (bs.take 9) },
      bs.drop 9) := by
  cases h with
  | whole hstate =>
      split
      · next hlen =>
          rw [readHeader, if_pos hstate, if_pos hlen]
          exact ⟨hstate, rfl⟩
      · next hlen => rw [readHeader, if_pos hstate, if_neg hlen, Buffer.retrieve_eq_drop]
  | taken h9 =>
      rw [if_neg (by omega), readHeader, if_neg (by simp)]

/-- **What `Parse` returns**: the message at the front, if it is there whole. -/
theorem parse_of_holds {bs : Bytes} {p : FrameParser × Buffer} (h : Holds bs p) :
    if format.Incomplete bs then ∃ q, p.1.parse p.2 = (none, q) ∧ Holds bs q
    else ∃ q,
      p.1.parse p.2 = (some ⟨FrameHeader.ofBytes (format.first bs).1, (format.first bs).2⟩, q) ∧
        Holds (format.rest bs) q := by
  have hread := readHeader_of_holds h
  -- The header is read in the first step, or was read by an earlier call.
  by_cases hlen : bs.length < 9
  · rw [if_pos hlen] at hread
    have hinc : format.Incomplete bs := Or.inl hlen
    rw [if_pos hinc]
    obtain ⟨hstate, hbuf⟩ := hread
    refine ⟨readHeader p, ?_, ?_⟩
    · simp only [parse, hstate, reduceCtorEq, if_false]
    · have heq : readHeader p = ((readHeader p).1, bs) := Prod.ext rfl hbuf
      rw [heq]
      exact .whole hstate
  · rw [if_neg hlen] at hread
    have hparse : p.1.parse p.2 =
        if (bs.drop 9).length < (FrameHeader.ofBytes (bs.take 9)).length then (none, readHeader p)
        else (some ⟨FrameHeader.ofBytes (format.first bs).1, (format.first bs).2⟩,
          { state := .kReadingHeader, currentHeader := FrameHeader.ofBytes (bs.take 9) },
          format.rest bs) := by
      simp only [parse, hread, if_true, Buffer.retrieve_eq_drop, List.drop_drop]
      rfl
    rw [hparse]
    have hinc : format.Incomplete bs ↔
        (bs.drop 9).length < (FrameHeader.ofBytes (bs.take 9)).length := by
      change (bs.length < 9 ∨ bs.length < 9 + (FrameHeader.ofBytes (bs.take 9)).length) ↔ _
      rw [List.length_drop]
      omega
    -- the payload is complete, or its header is kept
    by_cases hshort : format.Incomplete bs
    · rw [if_pos hshort, if_pos (hinc.mp hshort), hread]
      exact ⟨_, rfl, .taken (by omega)⟩
    · rw [if_neg hshort, if_neg (mt hinc.mpr hshort)]
      exact ⟨_, rfl, .whole rfl⟩

/-- Every turn that goes round takes a frame. -/
theorem turn_rank (p q : List Frame × FrameParser × Buffer) (h : turn p = .again q) :
    rank q < rank p := by
  obtain ⟨fs, parser, buf⟩ := p
  have hrank := Session.readHeader_rank (parser, buf)
  rw [turn] at h
  simp only [parse] at h
  split at h
  · next hparse => cases h
  · next frame parser' buf' hparse =>
      cases h
      split at hparse
      · next hstate =>
          split at hparse
          · cases hparse
          · cases hparse
            simp only [hstate, if_true] at hrank
            simp only [rank, reduceCtorEq, if_false, Buffer.retrieve_eq_drop, List.length_drop]
            omega
      · cases hparse

/-- One run of the loop reads the whole frames that are there. -/
theorem run_spec (fs : List Frame) {bs : Bytes} {p : FrameParser × Buffer} (h : Holds bs p) :
    ∃ q, run turn rank (fs, p) = (fs ++ frames bs, q) ∧ Holds (format.split bs).2 q := by
  induction hn : bs.length using Nat.strongRecOn generalizing fs bs p with
  | ind n ih =>
      have hparse := parse_of_holds h
      by_cases hinc : format.Incomplete bs
      · rw [if_pos hinc] at hparse
        obtain ⟨q, hparse, hq⟩ := hparse
        -- the loop ends where the bytes hold no whole message
        have hturn : turn (fs, p) = .leave (fs, q) := by rw [turn, hparse]
        refine ⟨q, ?_, by rwa [HeaderFormat.split_of_incomplete hinc]⟩
        rw [run_of_leave rank hturn, frames, HeaderFormat.split_of_incomplete hinc, List.map_nil,
          List.append_nil]
      · rw [if_neg hinc] at hparse
        obtain ⟨q, hparse, hq⟩ := hparse
        have hturn : turn (fs, p) = .again
            (fs ++ [⟨FrameHeader.ofBytes (format.first bs).1, (format.first bs).2⟩], q) := by
          rw [turn, hparse]
        obtain ⟨r, hrun, hr⟩ := ih _ (hn ▸ HeaderFormat.length_rest_lt hinc)
          (fs ++ [⟨FrameHeader.ofBytes (format.first bs).1, (format.first bs).2⟩]) hq rfl
        refine ⟨r, ?_, by rwa [HeaderFormat.split_of_complete hinc]⟩
        rw [run_of_again rank turn_rank hturn, hrun, frames, frames,
          HeaderFormat.split_of_complete hinc, List.map_cons, List.append_assoc]
        rfl

/-- **The frames read in any cutting** are those of the bytes, and what is left is held. -/
theorem received_spec (reads : List Bytes) :
    ∃ q, received reads = (frames reads.flatten, q) ∧ Holds (format.split reads.flatten).2 q := by
  induction reads using List.reverseRecOn with
  | nil =>
      have hinc : format.Incomplete [] := by decide
      refine ⟨({}, []), ?_, ?_⟩
      · rw [List.flatten_nil, frames, HeaderFormat.split_of_incomplete hinc]
        rfl
      · rw [List.flatten_nil, HeaderFormat.split_of_incomplete hinc]
        exact .whole rfl
  | append_singleton reads read ih =>
      obtain ⟨q, hreceived, hq⟩ := ih
      obtain ⟨r, hrun, hr⟩ := run_spec (frames reads.flatten) (hq.append read)
      have hflatten : (reads ++ [read]).flatten = reads.flatten ++ read := by
        rw [List.flatten_append, List.flatten_singleton]
      refine ⟨r, ?_, ?_⟩
      · rw [received, List.foldl_append, ← received, hreceived, List.foldl_cons, List.foldl_nil, hrun,
          hflatten, frames, frames, frames, HeaderFormat.split_append reads.flatten, List.map_append]
      · rwa [hflatten, HeaderFormat.split_append]

end FrameParser

/-! ## What is written -/

/-- **The bytes read as frames of one type on a stream**, in any cutting: their payloads make up
`payload`, the END_STREAM flag of the last one tells whether the stream was to end, and no bytes are
left over. -/
def Yields (bytes : Bytes) (type : FrameType) (streamId : ℕ) (payload : Bytes) (endStream : Bool) :
    Prop :=
  ∀ reads, reads.flatten = bytes →
    let (fs, parser, buf) := FrameParser.received reads
    (∀ frame ∈ fs, frame.header.type = type ∧ frame.header.streamId = streamId) ∧
      fs.flatMap Frame.payload = payload ∧
      (∃ frame, fs.getLast? = some frame ∧ (frame.EndStream ↔ endStream = true)) ∧
      parser.state = .kReadingHeader ∧ buf = []

/-- A header and the payload it announces are read as one frame. -/
theorem yields_of_fits {n streamId : ℕ} {type : FrameType} {flags : UInt8} {payload : Bytes}
    {endStream : Bool} (hn : n % 2 ^ 24 = payload.length) (hid : streamId < 2 ^ 31)
    (hflags : flags &&& 0x01 ≠ 0 ↔ endStream = true) :
    Yields (frameHeader n type flags streamId ++ payload) type streamId payload endStream := by
  intro reads hreads
  -- The length in the header is that of the payload, so the bytes split into this one message.
  have hmessage : format.IsMessage (frameHeader n type flags streamId, payload) := by
    refine ⟨length_frameHeader n type flags streamId, ?_⟩
    change (FrameHeader.ofBytes (frameHeader n type flags streamId)).length = payload.length
    rw [ofBytes_frameHeader, hn]
  have hempty : format.Incomplete [] := by decide
  have hsplit : format.split (frameHeader n type flags streamId ++ payload)
      = ([(frameHeader n type flags streamId, payload)], []) := by
    have hall : ∀ m ∈ [(frameHeader n type flags streamId, payload)], format.IsMessage m := by
      simpa using hmessage
    simpa using HeaderFormat.split_wire hall hempty
  obtain ⟨q, hreceived, hq⟩ := FrameParser.received_spec reads
  rw [hreads, hsplit] at hq
  rw [hreads, frames, hsplit, List.map_singleton, ofBytes_frameHeader, Nat.mod_eq_of_lt hid]
    at hreceived
  rw [hreceived]
  refine ⟨?_, by simp, ⟨_, rfl, hflags⟩, ?_⟩
  · intro frame hframe
    rw [List.mem_singleton.mp hframe]
    exact ⟨rfl, rfl⟩
  · cases hq with
    | whole hstate => exact ⟨hstate, rfl⟩
    | taken h9 => simp at h9

/-- Bytes that are no more than a header and the payload yield it only if it fits in one frame. -/
theorem fits_of_yields {bytes payload : Bytes} {type : FrameType} {streamId : ℕ} {endStream : Bool}
    (h : Yields bytes type streamId payload endStream) (hlen : bytes.length ≤ 9 + payload.length) :
    payload.length < 2 ^ 24 := by
  obtain ⟨q, hreceived, hq⟩ := FrameParser.received_spec [bytes]
  have hyields := h [bytes] List.flatten_singleton
  rw [hreceived, List.flatten_singleton] at hyields
  rw [List.flatten_singleton] at hq
  obtain ⟨-, hpayload, ⟨last, hlast, -⟩, hstate, hbuf⟩ := hyields
  -- the whole frames make up the bytes
  have htail : (format.split bytes).2 = [] := by
    generalize (format.split bytes).2 = tail at hq
    cases hq with
    | whole _ => exact hbuf
    | taken _ => cases hstate
  obtain ⟨hwire, hmessages, -⟩ := HeaderFormat.split_spec (F := format) bytes
  rw [htail, List.append_nil] at hwire
  have hsizes := HeaderFormat.length_wire hmessages
  have hpayload : (format.split bytes).1.flatMap Prod.snd = payload := by
    rw [frames, List.flatMap_map] at hpayload
    exact hpayload
  rw [hwire, hpayload] at hsizes
  -- so there is one of them only, and it carries the payload
  obtain ⟨m, hm⟩ : ∃ m, (format.split bytes).1 = [m] := by
    have hpos : 0 < (format.split bytes).1.length := by
      rw [List.length_pos_iff]
      intro hnil
      rw [frames, hnil] at hlast
      cases hlast
    have hsize : format.size = 9 := rfl
    rw [hsize] at hsizes
    exact List.length_eq_one_iff.mp (by omega)
  rw [hm] at hmessages hpayload
  obtain ⟨-, hannounced⟩ := hmessages m List.mem_cons_self
  have hlt : ofBigEndian (m.1.take 3) < 256 ^ (m.1.take 3).length := ofBigEndian_lt _
  have hle : 256 ^ (m.1.take 3).length ≤ 256 ^ 3 :=
    Nat.pow_le_pow_right (by omega) (by rw [List.length_take]; omega)
  calc payload.length = m.2.length := by rw [← hpayload, List.flatMap_singleton]
    _ = ofBigEndian (m.1.take 3) := hannounced.symm
    _ < 256 ^ 3 := hlt.trans_le hle

/-- The bytes `SendStreamData` writes. -/
theorem Session.sentBytes_sendStreamData (streamId : ℕ) (data : Bytes) (endStream : Bool) :
    sentBytes (sendStreamData streamId data endStream)
      = frameHeader data.length FrameType.data (if endStream then 0x01 else 0x00) streamId ++ data := by
  cases data with
  | nil => rfl
  | cons b data => simp [sendStreamData, sentBytes, ConnCall.bytes]

/-- The bytes `SendHeaders` writes. -/
theorem Session.sentBytes_sendHeaders (streamId : ℕ) (headers : List (Bytes × Bytes))
    (endStream : Bool) :
    sentBytes (sendHeaders streamId headers endStream)
      = frameHeader ((HpackEncoder.encode headers).length % 2 ^ 32) FrameType.headers
          (if endStream then 0x05 else 0x04) streamId
        ++ if 0 < (HpackEncoder.encode headers).length % 2 ^ 32 then HpackEncoder.encode headers
          else [] := by
  rw [sendHeaders]
  by_cases hpos : 0 < (HpackEncoder.encode headers).length % 2 ^ 32
  · simp only [if_pos hpos]
    simp [sentBytes, ConnCall.bytes]
  · simp only [if_neg hpos]
    simp [sentBytes, ConnCall.bytes]

/-- **When written data is read back**: it fits in one frame. -/
theorem Session.yields_sendStreamData_iff {streamId : ℕ} (hid : streamId < 2 ^ 31) (data : Bytes)
    (endStream : Bool) :
    Yields (sentBytes (sendStreamData streamId data endStream)) FrameType.data streamId data endStream
      ↔ data.length < 2 ^ 24 := by
  rw [sentBytes_sendStreamData]
  constructor
  · intro h
    refine fits_of_yields h ?_
    rw [List.length_append, length_frameHeader]
  · intro h
    exact yields_of_fits (Nat.mod_eq_of_lt h) hid (by cases endStream <;> decide)

/-- **When written headers are read back**: their block fits in one frame. -/
theorem Session.yields_sendHeaders_iff {streamId : ℕ} (hid : streamId < 2 ^ 31)
    (headers : List (Bytes × Bytes)) (endStream : Bool) :
    Yields (sentBytes (sendHeaders streamId headers endStream)) FrameType.headers streamId
      (HpackEncoder.encode headers) endStream ↔ (HpackEncoder.encode headers).length < 2 ^ 24 := by
  rw [sentBytes_sendHeaders]
  generalize HpackEncoder.encode headers = block
  constructor
  · intro h
    refine fits_of_yields h ?_
    rw [List.length_append, length_frameHeader]
    split
    · exact le_rfl
    · exact Nat.le_add_right 9 _
  · intro h
    have hmod : block.length % 2 ^ 32 = block.length := Nat.mod_eq_of_lt (h.trans (by decide))
    have hbody : (if 0 < block.length % 2 ^ 32 then block else []) = block := by
      rw [hmod]
      split
      · rfl
      · next hpos => exact (List.length_eq_zero_iff.mp (Nat.eq_zero_of_not_pos hpos)).symm
    rw [hbody, hmod]
    exact yields_of_fits (Nat.mod_eq_of_lt h) hid (by cases endStream <;> decide)

/-- **HTTP/2 writers and the frame parser.** On every stream, what `SendStreamData` writes is read
back, in any cutting, exactly when the data is shorter than 2²⁴ bytes, and what `SendHeaders` writes
exactly when the HPACK block is. -/
theorem frames_inverted_iff {streamId : ℕ} (hid : streamId < 2 ^ 31) :
    (∀ data endStream,
      Yields (sentBytes (Session.sendStreamData streamId data endStream)) FrameType.data streamId data
        endStream ↔ data.length < 2 ^ 24) ∧
    ∀ headers endStream,
      Yields (sentBytes (Session.sendHeaders streamId headers endStream)) FrameType.headers streamId
        (HpackEncoder.encode headers) endStream ↔ (HpackEncoder.encode headers).length < 2 ^ 24 :=
  ⟨Session.yields_sendStreamData_iff hid, Session.yields_sendHeaders_iff hid⟩

/-- On the largest stream id. -/
theorem frames_inverted_iff_last :
    let streamId := 2 ^ 31 - 1
    (∀ data endStream,
      Yields (sentBytes (Session.sendStreamData streamId data endStream)) FrameType.data streamId data
        endStream ↔ data.length < 2 ^ 24) ∧
    ∀ headers endStream,
      Yields (sentBytes (Session.sendHeaders streamId headers endStream)) FrameType.headers streamId
        (HpackEncoder.encode headers) endStream ↔ (HpackEncoder.encode headers).length < 2 ^ 24 :=
  frames_inverted_iff (by decide)

/-- Data of 2²⁴ bytes is written behind a header that announces no payload, and read as headers. -/
theorem frames_fail_at_16_MiB :
    ¬ Yields (sentBytes (Session.sendStreamData 1 (List.replicate (2 ^ 24) 0) true)) FrameType.data 1
      (List.replicate (2 ^ 24) 0) true := by
  rw [Session.yields_sendStreamData_iff (by decide), List.length_replicate]
  exact Nat.lt_irrefl _

end NetworkLib.Http2
