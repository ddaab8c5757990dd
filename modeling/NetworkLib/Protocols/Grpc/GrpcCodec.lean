import NetworkLib.Memory.Buffer

/-! # gRPC length-prefixed messages

`GrpcCodec`: a flag byte, the length in four bytes, and the message. -/

namespace NetworkLib.GrpcCodec

/-- `kHeaderSize`. -/
def kHeaderSize : ℕ := 5

/-- `Encode`. -/
def encode (payload : Bytes) (compressed : Bool) : Bytes :=
  (if compressed then 1 else 0) :: htonl (UInt32.ofNat payload.length) ++ payload

/-- `Decode`: the message and its flag, if it returns true, and the buffer. -/
def decode (buf : Buffer) : Option (Bytes × Bool) × Buffer :=
  if buf.length < kHeaderSize then (none, buf)
  else
    let length := (ntohl ((buf.drop 1).take 4)).toNat
    if buf.length < kHeaderSize + length then (none, buf)
    else
      (some ((buf.drop kHeaderSize).take length, decide (buf.getD 0 0 ≠ 0)),
        Buffer.retrieve buf (kHeaderSize + length))

@[simp] theorem length_encode (payload : Bytes) (compressed : Bool) :
    (encode payload compressed).length = kHeaderSize + payload.length := by
  simp [encode, kHeaderSize]
  omega

end NetworkLib.GrpcCodec
