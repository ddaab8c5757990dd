import NetworkLib.Memory.Buffer
import NetworkLib.Theory.HeaderFraming

/-! # HTTP/2 frames

A frame is a header of nine bytes (length, type, flags, stream id) and its payload. `FrameParser`
takes the header off the buffer as soon as it is there, and the payload when that has arrived. -/

namespace NetworkLib.Http2

/-- `FrameType`; a received byte need not be one of the enumerators. -/
abbrev FrameType := UInt8

namespace FrameType

def data : FrameType := 0x0
def headers : FrameType := 0x1
def settings : FrameType := 0x4

end FrameType

/-- `FrameHeader`. -/
structure FrameHeader where
  length : ℕ := 0
  type : FrameType := 0
  flags : UInt8 := 0
  streamId : ℕ := 0
  deriving DecidableEq

/-- `Frame`. -/
structure Frame where
  header : FrameHeader
  payload : Bytes
  deriving DecidableEq

/-- The header nine bytes stand for; the reserved bit of the stream id is cleared. -/
def FrameHeader.ofBytes (data : Bytes) : FrameHeader where
  length := ofBigEndian (data.take 3)
  type := data.getD 3 0
  flags := data.getD 4 0
  streamId := ofBigEndian ((data.drop 5).take 4) % 2 ^ 31

-- with the reserved bit set, the stream id is still 3
example : FrameHeader.ofBytes [0, 1, 2, 0, 1, 0x80, 0, 0, 3]
    = { length := 258, type := FrameType.data, flags := 1, streamId := 3 } := by decide

/-- The nine bytes of a header. The length loses what does not fit in three bytes. -/
def frameHeader (length : ℕ) (type : FrameType) (flags : UInt8) (streamId : ℕ) : Bytes :=
  bigEndian 3 length ++ [type, flags] ++ bigEndian 4 (streamId % 2 ^ 31)

/-- The header format of HTTP/2. -/
def format : HeaderFormat where
  size := 9
  size_pos := by decide
  announced header := (FrameHeader.ofBytes header).length

/-- `FrameParser::State`. -/
inductive FrameParser.State where
  | kReadingHeader
  | kReadingPayload
  deriving DecidableEq

/-- `FrameParser`. -/
structure FrameParser where
  state : FrameParser.State := .kReadingHeader
  currentHeader : FrameHeader := {}
  deriving DecidableEq

namespace FrameParser

/-- The part of `Parse` that reads a header. -/
def readHeader : FrameParser × Buffer → FrameParser × Buffer
  | (p, buf) =>
      if p.state = .kReadingHeader then
        if buf.length < 9 then (p, buf)
        else
          ({ state := .kReadingPayload, currentHeader := FrameHeader.ofBytes (buf.take 9) },
            Buffer.retrieve buf 9)
      else (p, buf)

/-- `Parse`: the frame, if it returns true, the parser and the buffer. -/
def parse (p : FrameParser) (buf : Buffer) : Option Frame × FrameParser × Buffer :=
  let (p, buf) := readHeader (p, buf)
  if p.state = .kReadingPayload then
    if buf.length < p.currentHeader.length then (none, p, buf)
    else
      (some { header := p.currentHeader, payload := buf.take p.currentHeader.length },
        { p with state := .kReadingHeader }, Buffer.retrieve buf p.currentHeader.length)
  else (none, p, buf)

end FrameParser

/-! ## Headers read back -/

@[simp] theorem length_frameHeader (length : ℕ) (type : FrameType) (flags : UInt8) (streamId : ℕ) :
    (frameHeader length type flags streamId).length = 9 := by
  simp [frameHeader]

/-- **A header is read back**, with the length and the stream id as far as they fit. -/
theorem ofBytes_frameHeader (length : ℕ) (type : FrameType) (flags : UInt8) (streamId : ℕ) :
    FrameHeader.ofBytes (frameHeader length type flags streamId)
      = { length := length % 2 ^ 24, type, flags, streamId := streamId % 2 ^ 31 } := by
  have hlength : (frameHeader length type flags streamId).take 3 = bigEndian 3 length := by
    rw [frameHeader, List.append_assoc, List.take_left' (length_bigEndian 3 length)]
  have hid : ((frameHeader length type flags streamId).drop 5).take 4
      = bigEndian 4 (streamId % 2 ^ 31) := by
    rw [frameHeader, List.drop_left' (by simp), List.take_of_length_le (by simp)]
  have hsmall : streamId % 2 ^ 31 < 256 ^ 4 := (Nat.mod_lt _ (by decide)).trans (by decide)
  have htail : (frameHeader length type flags streamId).drop 3
      = [type, flags] ++ bigEndian 4 (streamId % 2 ^ 31) := by
    rw [frameHeader, List.append_assoc, List.drop_left' (length_bigEndian 3 length)]
  have hget (i : ℕ) : (frameHeader length type flags streamId).getD (3 + i) 0
      = ([type, flags] ++ bigEndian 4 (streamId % 2 ^ 31)).getD i 0 := by
    rw [← htail, List.getD_eq_getElem?_getD, List.getD_eq_getElem?_getD, List.getElem?_drop]
  simp only [FrameHeader.ofBytes, hlength, hid, ofBigEndian_bigEndian_mod,
    ofBigEndian_bigEndian hsmall, Nat.mod_mod]
  rw [show (frameHeader length type flags streamId).getD 3 0 = type from hget 0,
    show (frameHeader length type flags streamId).getD 4 0 = flags from hget 1]
  norm_num

end NetworkLib.Http2
