import NetworkLib.Memory.Buffer
import NetworkLib.Theory.Loop

/-! # The WebSocket frame parser

`FrameParser::Parse`, which advances a four-state parser over the unread bytes, and the loop that
drives it. The parser keeps its state when it returns `false`, while the loop keeps the bytes it has
already looked at. -/

namespace NetworkLib

open Loop

/-- `OpCode`; an enumeration over `uint8_t`, which may hold any four bits of a frame header. -/
abbrev OpCode := UInt8

namespace OpCode

def kText : OpCode := 0x1

def kBinary : OpCode := 0x2

def kClose : OpCode := 0x8

end OpCode

/-- A parsed frame. -/
structure Frame where
  fin : Bool := false
  opcode : OpCode := 0
  masked : Bool := false
  payload : Bytes := []
  deriving DecidableEq, Repr

/-- `FrameParser::State`. -/
inductive FrameParser.State where
  | kHeader
  | kPayloadLength
  | kMaskKey
  | kPayload
  deriving DecidableEq, Repr

/-- The parser and what it remembers between calls. -/
structure FrameParser where
  state : FrameParser.State := .kHeader
  currentFrame : Frame := {}
  payloadLength : ℕ := 0
  maskKey : Bytes := []
  bytesNeeded : ℕ := 2
  deriving DecidableEq

/-- XOR the `i`-th byte with `key[i % 4]`. -/
def applyMask (key payload : Bytes) : Bytes := payload.mapIdx fun i b => b ^^^ key.getD (i % 4) 0

namespace FrameParser

/-- Leave the length stages, with the payload length known. -/
def withLength (p : FrameParser) (length : ℕ) : FrameParser :=
  { p with
    payloadLength := length
    state := if p.currentFrame.masked then .kMaskKey else .kPayload
    bytesNeeded := if p.currentFrame.masked then 4 else length }

/-- Read the two bytes of the fixed header. -/
def withHeader (p : FrameParser) (byte1 byte2 : UInt8) : FrameParser :=
  let p :=
    { p with
      currentFrame :=
        { p.currentFrame with
          fin := byte1 &&& 0x80 ≠ 0
          opcode := byte1 &&& 0x0F
          masked := byte2 &&& 0x80 ≠ 0 } }
  let lenCode := byte2 &&& 0x7F
  -- the length follows in two or in eight bytes
  if lenCode = 126 then { p with state := .kPayloadLength, bytesNeeded := 2 }
  else if lenCode = 127 then { p with state := .kPayloadLength, bytesNeeded := 8 }
  else p.withLength lenCode.toNat

/-- The fixed-header stage: the offset after it, or `none` when `Parse` returns `false` there. -/
def parseHeader (data : Bytes) (p : FrameParser) : FrameParser × Option ℕ :=
  if p.state = .kHeader then
    if data.length < 2 then (p, none) else (p.withHeader (data.getD 0 0) (data.getD 1 0), some 2)
  else (p, some 0)

/-- The extended-length stage. A 64-bit length must have its top bit clear and be at most 1 GiB. -/
def parseLength (data : Bytes) (p : FrameParser) (offset : ℕ) : FrameParser × Option ℕ :=
  if p.state = .kPayloadLength then
    -- the header of a cut frame has been stepped over, but stays in the buffer
    if data.length - offset < p.bytesNeeded then (p, none)
    else if p.bytesNeeded = 2 then
      (p.withLength (ofBigEndian ((data.drop offset).take 2)), some (offset + p.bytesNeeded))
    else
      let l := ofBigEndian ((data.drop offset).take 8)
      -- a refused length is not told apart from a cut one
      if 2 ^ 63 ≤ l then (p, none)
      else if 1024 * 1024 * 1024 < l then (p, none)
      else (p.withLength l, some (offset + p.bytesNeeded))
  else (p, some offset)

/-- The mask-key stage. -/
def parseMaskKey (data : Bytes) (p : FrameParser) (offset : ℕ) : FrameParser × Option ℕ :=
  if p.state = .kMaskKey then
    if data.length - offset < 4 then (p, none)
    else
      ({ p with
          maskKey := (data.drop offset).take 4
          state := .kPayload
          bytesNeeded := p.payloadLength }, some (offset + 4))
  else (p, some offset)

/-- The payload stage: the bytes consumed and the frame, or `none` when `Parse` returns `false`. -/
def parsePayload (data : Bytes) (p : FrameParser) (offset : ℕ) : FrameParser × Option (ℕ × Frame) :=
  if p.state = .kPayload then
    if data.length - offset < p.payloadLength then (p, none)
    else
      let payload := (data.drop offset).take p.payloadLength
      let frame :=
        -- `current_frame_` keeps the payload, and the key stays too
        { p.currentFrame with
          payload := if p.currentFrame.masked then applyMask p.maskKey payload else payload }
      ({ p with currentFrame := frame, state := .kHeader }, some (offset + p.payloadLength, frame))
  else (p, none)

/-- The stages after the fixed header. -/
def parseRest (data : Bytes) (p : FrameParser) (offset : ℕ) : FrameParser × Option (ℕ × Frame) :=
  match parseLength data p offset with
  | (p, none) => (p, none)
  | (p, some offset) =>
      match parseMaskKey data p offset with
      | (p, none) => (p, none)
      | (p, some offset) => parsePayload data p offset

/-- `FrameParser::Parse`. -/
def parse (data : Bytes) (p : FrameParser) : FrameParser × Option (ℕ × Frame) :=
  match parseHeader data p with
  | (p, none) => (p, none)
  | (p, some offset) => parseRest data p offset

variable {τ : Type*}

/-- One turn of the frame loop. `act` handles a parsed frame of the given size and says whether the
loop is left. -/
def turn (act : τ → ℕ → Frame → τ × Bool) : τ × FrameParser × Buffer → Turn (τ × FrameParser × Buffer)
  | (t, p, buf) =>
      if buf.length = 0 then .leave (t, p, buf)
      else
        match parse buf p with
        | (p, none) => .leave (t, p, buf)
        | (p, some (consumed, frame)) =>
            match act t consumed frame with
            | (t, true) => .leave (t, p, Buffer.retrieve buf consumed)
            | (t, false) => .again (t, p, Buffer.retrieve buf consumed)

/-- A successful `Parse` takes bytes off the buffer, or leaves a state other than `kHeader`. -/
def rank (q : τ × FrameParser × Buffer) : ℕ :=
  2 * q.2.2.length + if q.2.1.state = .kHeader then 0 else 1

/-- The frame loop. -/
def drive (act : τ → ℕ → Frame → τ × Bool) : τ × FrameParser × Buffer → τ × FrameParser × Buffer :=
  run (turn act) rank

/-! ## What each stage does -/

/-- The bytes between the fixed header and the payload that are still to be read. -/
def overhead (p : FrameParser) : ℕ :=
  match p.state with
  | .kHeader => 0
  | .kPayloadLength => p.bytesNeeded + if p.currentFrame.masked then 4 else 0
  | .kMaskKey => 4
  | .kPayload => 0

/-- With the length known, the mask key is left to read, if there is one. -/
theorem withLength_spec (p : FrameParser) (length : ℕ) :
    (p.withLength length).state ≠ .kHeader ∧ (p.withLength length).state ≠ .kPayloadLength ∧
      (p.withLength length).overhead = if p.currentFrame.masked then 4 else 0 := by
  cases hm : p.currentFrame.masked <;> simp [withLength, overhead, hm]

/-- The length is read once. -/
theorem parseLength_of_ne {p : FrameParser} (h : p.state ≠ .kPayloadLength) (data : Bytes)
    (offset : ℕ) : parseLength data p offset = (p, some offset) := by
  rw [parseLength, if_neg h]

/-- So is the mask key. -/
theorem parseMaskKey_of_ne {p : FrameParser} (h : p.state ≠ .kMaskKey) (data : Bytes)
    (offset : ℕ) : parseMaskKey data p offset = (p, some offset) := by
  rw [parseMaskKey, if_neg h]

/-- The length stage either stops, or passes over the length bytes of the overhead. -/
theorem parseLength_spec {data : Bytes} {p : FrameParser} {offset : ℕ} (hp : p.state ≠ .kHeader)
    (ho : offset ≤ data.length) :
    (parseLength data p offset = (p, none)) ∨
      ∃ q offset', parseLength data p offset = (q, some offset') ∧ q.state ≠ .kHeader ∧
        q.state ≠ .kPayloadLength ∧ offset ≤ offset' ∧ offset' ≤ data.length ∧
        offset' + q.overhead = offset + p.overhead := by
  by_cases hl : p.state = .kPayloadLength
  · have hover : p.overhead = p.bytesNeeded + if p.currentFrame.masked then 4 else 0 := by
      simp [overhead, hl]
    rw [parseLength, if_pos hl]
    by_cases hlen : data.length - offset < p.bytesNeeded
    · exact .inl (if_pos hlen)
    · have hpass (l : ℕ) : ∃ q offset',
          (p.withLength l, some (offset + p.bytesNeeded)) = (q, some offset') ∧ q.state ≠ .kHeader ∧
            q.state ≠ .kPayloadLength ∧ offset ≤ offset' ∧ offset' ≤ data.length ∧
            offset' + q.overhead = offset + p.overhead := by
        obtain ⟨h1, h2, h3⟩ := withLength_spec p l
        exact ⟨_, _, rfl, h1, h2, by omega, by omega, by rw [h3, hover]; omega⟩
      rw [if_neg hlen]
      split
      · exact .inr (hpass _)
      · simp only
        split
        · exact .inl rfl
        · split
          · exact .inl rfl
          · exact .inr (hpass _)
  · exact .inr ⟨p, offset, parseLength_of_ne hl data offset, hp, hl, le_rfl, ho, rfl⟩

/-- The mask stage either stops, or passes over the mask bytes of the overhead. -/
theorem parseMaskKey_spec {data : Bytes} {p : FrameParser} {offset : ℕ} (hp : p.state ≠ .kHeader)
    (hl : p.state ≠ .kPayloadLength) (ho : offset ≤ data.length) :
    (parseMaskKey data p offset = (p, none)) ∨
      ∃ q offset', parseMaskKey data p offset = (q, some offset') ∧ q.state = .kPayload ∧
        offset' ≤ data.length ∧ offset' = offset + p.overhead := by
  by_cases hm : p.state = .kMaskKey
  · have hover : p.overhead = 4 := by simp [overhead, hm]
    rw [parseMaskKey, if_pos hm]
    by_cases hlen : data.length - offset < 4
    · exact .inl (if_pos hlen)
    · rw [if_neg hlen]
      exact .inr ⟨_, _, rfl, rfl, by omega, by rw [hover]⟩
  · have hpay : p.state = .kPayload := by
      cases hs : p.state <;> simp_all
    have hover : p.overhead = 0 := by simp [overhead, hpay]
    exact .inr ⟨p, offset, parseMaskKey_of_ne hm data offset, hpay, ho, by omega⟩

@[simp] theorem length_applyMask (key payload : Bytes) :
    (applyMask key payload).length = payload.length := List.length_mapIdx

/-- The payload stage either stops, or consumes the payload. -/
theorem parsePayload_spec {data : Bytes} {p : FrameParser} {offset : ℕ} (hp : p.state = .kPayload)
    (ho : offset ≤ data.length) :
    (parsePayload data p offset = (p, none)) ∨
      ∃ q n frame, parsePayload data p offset = (q, some (n, frame)) ∧ q.state = .kHeader ∧
        n ≤ data.length ∧ n = offset + frame.payload.length := by
  rw [parsePayload, if_pos hp]
  by_cases hlen : data.length - offset < p.payloadLength
  · exact .inl (if_pos hlen)
  · have htake : ((data.drop offset).take p.payloadLength).length = p.payloadLength := by
      rw [List.length_take, List.length_drop]
      omega
    rw [if_neg hlen]
    refine .inr ⟨_, _, _, rfl, rfl, by omega, ?_⟩
    simp only [apply_ite List.length, length_applyMask, htake, ite_self]

/-- **Past the fixed header, `Parse` either keeps waiting for no more overhead than before, or
consumes exactly the overhead and the payload.** -/
theorem parseRest_spec (data : Bytes) {p : FrameParser} {offset : ℕ} (hp : p.state ≠ .kHeader)
    (ho : offset ≤ data.length) :
    (∃ q, parseRest data p offset = (q, none) ∧ q.state ≠ .kHeader ∧ q.overhead ≤ p.overhead) ∨
      ∃ q n frame, parseRest data p offset = (q, some (n, frame)) ∧ q.state = .kHeader ∧
        n ≤ data.length ∧ n = offset + p.overhead + frame.payload.length := by
  unfold parseRest
  obtain h1 | ⟨p1, o1, h1, hp1, hl1, hle1, ho1, hov1⟩ := parseLength_spec hp ho
  · exact .inl ⟨p, by rw [h1], hp, le_rfl⟩
  · obtain h2 | ⟨p2, o2, h2, hp2, ho2, hov2⟩ := parseMaskKey_spec hp1 hl1 ho1
    · exact .inl ⟨p1, by simp only [h1, h2], hp1, by omega⟩
    · simp only [h1, h2]
      obtain h3 | ⟨p3, n, frame, h3, hp3, hn, hov3⟩ := parsePayload_spec hp2 ho2
      · have hover : p2.overhead = 0 := by simp [overhead, hp2]
        exact .inl ⟨p2, h3, by simp [hp2], by omega⟩
      · exact .inr ⟨p3, n, frame, h3, hp3, hn, by omega⟩

/-- Behind the header something else is read. -/
theorem withHeader_state (p : FrameParser) (byte1 byte2 : UInt8) :
    (p.withHeader byte1 byte2).state ≠ .kHeader := by
  unfold withHeader
  simp only
  split
  · simp
  · split
    · simp
    · exact (withLength_spec _ _).1

/-- The header is read when its two bytes are there. -/
theorem parse_of_header {data : Bytes} {p : FrameParser} (hp : p.state = .kHeader)
    (hlen : 2 ≤ data.length) :
    parse data p = parseRest data (p.withHeader (data.getD 0 0) (data.getD 1 0)) 2 := by
  rw [parse, parseHeader, if_pos hp, if_neg (by omega)]

/-- And the parser waits when they are not. -/
theorem parse_of_short {data : Bytes} {p : FrameParser} (hp : p.state = .kHeader)
    (hlen : data.length < 2) : parse data p = (p, none) := by
  rw [parse, parseHeader, if_pos hp, if_pos hlen]

/-- Behind the header `Parse` goes on where it was. -/
theorem parse_of_ne {p : FrameParser} (hp : p.state ≠ .kHeader) (data : Bytes) :
    parse data p = parseRest data p 0 := by
  rw [parse, parseHeader, if_neg hp]

/-- **A successful `Parse` consumes unread bytes**, at least two of them from `kHeader`, and is back
in `kHeader`. -/
theorem parse_some {data : Bytes} {p q : FrameParser} {n : ℕ} {frame : Frame}
    (h : parse data p = (q, some (n, frame))) :
    q.state = .kHeader ∧ n ≤ data.length ∧ (p.state = .kHeader → 2 ≤ n) := by
  by_cases hp : p.state = .kHeader
  · by_cases hlen : data.length < 2
    · rw [parse_of_short hp hlen] at h
      cases h
    · rw [parse_of_header hp (by omega)] at h
      obtain ⟨_, h', -⟩ | ⟨q', n', frame', h', hq, hn, hov⟩ :=
        parseRest_spec data (withHeader_state p _ _) (show 2 ≤ data.length by omega)
      · rw [h'] at h
        cases h
      · rw [h'] at h
        cases h
        exact ⟨hq, hn, fun _ => by omega⟩
  · rw [parse_of_ne hp] at h
    obtain ⟨_, h', -⟩ | ⟨q', n', frame', h', hq, hn, -⟩ :=
      parseRest_spec data hp (Nat.zero_le _)
    · rw [h'] at h
      cases h
    · rw [h'] at h
      cases h
      exact ⟨hq, hn, fun hp' => absurd hp' hp⟩

variable {act : τ → ℕ → Frame → τ × Bool}

/-- The loop is left when `Parse` returns `false`. -/
theorem turn_of_none {p q : FrameParser} {buf : Buffer} (hlen : buf.length ≠ 0)
    (hparse : parse buf p = (q, none)) (t : τ) : turn act (t, p, buf) = .leave (t, q, buf) := by
  rw [turn, if_neg hlen, hparse]

/-- The frame that `Parse` returns is dropped, and `act` says whether the loop is left. -/
theorem turn_of_frame {t t' : τ} {p q : FrameParser} {buf : Buffer} {consumed : ℕ} {frame : Frame}
    {left : Bool} (hlen : buf.length ≠ 0) (hparse : parse buf p = (q, some (consumed, frame)))
    (hact : act t consumed frame = (t', left)) :
    turn act (t, p, buf) = if left then .leave (t', q, buf.drop consumed)
      else .again (t', q, buf.drop consumed) := by
  rw [turn, if_neg hlen, hparse]
  cases left with
  | true => simp only [hact, Buffer.retrieve_eq_drop, if_true]
  | false => simp only [hact, Buffer.retrieve_eq_drop, Bool.false_eq_true, if_false]

/-- Every turn that goes round uses something up. -/
theorem turn_rank (q r : τ × FrameParser × Buffer) (h : turn act q = .again r) :
    rank r < rank q := by
  obtain ⟨t, p, buf⟩ := q
  rw [turn] at h
  split at h
  · cases h
  · next hbuf =>
      split at h
      · cases h
      · next p' n frame hparse =>
          split at h
          · cases h
          · cases h
            obtain ⟨hstate, hn, htwo⟩ := parse_some hparse
            simp only [rank, hstate, Buffer.retrieve_eq_drop, List.length_drop, if_true]
            by_cases hp : p.state = .kHeader
            · have := htwo hp
              rw [if_pos hp]
              omega
            · rw [if_neg hp]
              omega

/-- **Rule of invariants for the frame loop.** -/
theorem drive_invariant {P : τ → Prop} (hact : ∀ t consumed frame, P t → P (act t consumed frame).1)
    {t : τ} (ht : P t) (p : FrameParser) (buf : Buffer) : P (drive act (t, p, buf)).1 := by
  -- A turn that goes on and a turn that leaves: in both only `act` changes what `P` is about.
  refine run_induction (P := fun q => P q.1) (Q := fun q => P q.1) rank turn_rank ?_ ?_ _ ht
  · rintro ⟨t, p, buf⟩ r ht h
    rw [turn] at h
    split at h
    · cases h
    · split at h
      · cases h
      · next p' consumed frame _ =>
          have hnext := hact t consumed frame ht
          split at h
          · cases h
          · next t' hact' =>
              cases h
              rwa [hact'] at hnext
  · rintro ⟨t, p, buf⟩ r ht h
    rw [turn] at h
    split at h
    · cases h
      exact ht
    · split at h
      · cases h
        exact ht
      · next p' consumed frame _ =>
          have hnext := hact t consumed frame ht
          split at h
          · next t' hact' =>
              cases h
              rwa [hact'] at hnext
          · cases h

end FrameParser

end NetworkLib
