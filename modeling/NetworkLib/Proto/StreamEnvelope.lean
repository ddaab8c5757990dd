import NetworkLib.Theory.NetworkOrder
import Mathlib.Data.List.AList

/-! # The `StreamEnvelope` message

The generated protobuf class, by the fields the handlers read and write. A sub-message that was
never touched is absent (`has_header()` is `false`); a string field that was never set is empty.
Serialisation itself belongs to the protobuf library, which is a parameter (`Protobuf`). -/

namespace NetworkLib

/-- A `std::map<std::string, std::string>`. -/
abbrev StringMap := AList fun _ : Bytes => Bytes

/-- The bytes of a string literal. -/
def bytesOf (s : String) : Bytes := s.toList.map fun c => UInt8.ofNat c.toNat

/-- Routing and control information. -/
structure Header where
  messageId : Bytes := []
  correlationId : Bytes := []
  messageType : Bytes := []
  protocolVersion : Bytes := []
  deriving DecidableEq

/-- The data content. -/
structure Payload where
  data : Bytes := []
  deriving DecidableEq

/-- Extensible key-value pairs. -/
structure Metadata where
  fields : StringMap := ∅
  deriving DecidableEq

/-- The universal message wrapper. -/
structure StreamEnvelope where
  header : Option Header := none
  payload : Option Payload := none
  metadata : Option Metadata := none
  deriving DecidableEq

namespace StreamEnvelope

/-- `header()`: the header, or the default one when absent. -/
def getHeader (m : StreamEnvelope) : Header := m.header.getD {}

/-- `payload()`: the payload, or the default one when absent. -/
def getPayload (m : StreamEnvelope) : Payload := m.payload.getD {}

/-- `mutable_header()->set_…`: change the header, creating it first when absent. -/
def mutableHeader (m : StreamEnvelope) (f : Header → Header) : StreamEnvelope :=
  { m with header := some (f m.getHeader) }

/-- `mutable_payload()->set_data(data)`. -/
def setData (m : StreamEnvelope) (data : Bytes) : StreamEnvelope :=
  { m with payload := some { m.getPayload with data } }

end StreamEnvelope

/-- The protobuf runtime as the handlers use it. -/
structure Protobuf where
  /-- `SerializeAsString`. -/
  serializeAsString : StreamEnvelope → Bytes
  /-- `ParseFromString`; `none` when it returns `false`. -/
  parseFromString : Bytes → Option StreamEnvelope
  /-- `ParseFromArray(data, size)`, on the bytes `data` points at; `size` is a C `int`. -/
  parseFromArray : Bytes → ℤ → Option StreamEnvelope

/-- The wire format of an envelope that holds nothing but a short payload: field 2 of the envelope
around field 3 of the payload, each with a one-byte length. -/
def Protobuf.shortPayload : Protobuf where
  serializeAsString m :=
    match m.payload with
    | none => []
    | some p =>
        if p.data.isEmpty then [0x12, 0]
        else
          [0x12, UInt8.ofNat (p.data.length + 2), 0x1A, UInt8.ofNat p.data.length] ++ p.data
  parseFromString
    | [] => some {}
    | [0x12, 0] => some { payload := some {} }
    | 0x12 :: _ :: 0x1A :: _ :: data => some { payload := some { data } }
    | _ => none
  parseFromArray
    | 0x12 :: _ :: 0x1A :: n :: data, _ => some { payload := some { data := data.take n.toNat } }
    | _, _ => none

/-- Parsing inverts serialisation on the message `m`. -/
def Protobuf.RoundTrips (pb : Protobuf) (m : StreamEnvelope) : Prop :=
  pb.parseFromString (pb.serializeAsString m) = some m

instance (pb : Protobuf) (m : StreamEnvelope) : Decidable (pb.RoundTrips m) :=
  inferInstanceAs (Decidable (_ = _))

end NetworkLib
