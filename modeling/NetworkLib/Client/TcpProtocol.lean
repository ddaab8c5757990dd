import NetworkLib.Memory.Buffer
import NetworkLib.Client.ClientSession
import NetworkLib.Theory.Loop

/-! # The TCP client protocol

`TcpClientProtocol`: the client's encoder and decoder of length-prefixed envelopes. -/

namespace NetworkLib

open Loop

namespace TcpClientProtocol

variable {σ : Type*} (pb : Protobuf)

/-- `TcpClientProtocol::Send`. -/
def send (envelope : StreamEnvelope) : List ConnCall :=
  let payload := pb.serializeAsString envelope
  [.send (htonl (UInt32.ofNat payload.length) ++ payload)]

/-- The sanity bound on an announced length, 100 MiB. -/
def maxLength : ℕ := 100 * 1024 * 1024

/-- Parse one complete frame and hand it to the message handler. -/
def process (handler : Option (MessageHandler σ)) (s : ClientSession σ) (data : Bytes) :
    ClientSession σ :=
  match pb.parseFromString data with
  | none => { s with thrown := none }
  | some msg => { s with thrown := none }.deliver handler msg

/-- One turn of the receive loop. -/
def turn (handler : Option (MessageHandler σ)) :
    ClientSession σ × Buffer → Turn (ClientSession σ × Buffer)
  | (s, buf) =>
      if buf.length < 4 then .leave (s, buf)
      else
        let length := ntohl (buf.take 4)
        if maxLength < length.toNat then
          -- clear the buffer to recover
          .leave (s, Buffer.retrieveAll buf)
        else if (4 + length).toNat ≤ buf.length then
          let buf := Buffer.retrieve buf 4
          let data := buf.take length.toNat
          let buf := Buffer.retrieve buf length.toNat
          let s := process pb handler s data
          if s.thrown.isSome then .leave (s, buf) else .again (s, buf)
        else .leave (s, buf)

/-- `TcpClientProtocol::OnDataReceived`. -/
def onDataReceived (handler : Option (MessageHandler σ)) (p : ClientSession σ × Buffer) :
    ClientSession σ × Buffer :=
  run (turn pb handler) (fun p => p.2.length) ({ p.1 with thrown := none }, p.2)

/-- `OnDataReceived` called after each read on the connection's input buffer. -/
def receiveAll (handler : Option (MessageHandler σ)) (p : ClientSession σ × Buffer)
    (reads : List Bytes) : ClientSession σ × Buffer :=
  reads.foldl (fun p read => onDataReceived pb handler (p.1, Buffer.append p.2 read)) p

end TcpClientProtocol

end NetworkLib
