import NetworkLib.Client.ClientSession
import NetworkLib.Protocols.HttpHandler
import NetworkLib.Theory.Loop

/-! # The RPC client protocol

`RpcClientProtocol`: length-prefixed envelopes, each with a correlation id. -/

namespace NetworkLib.RpcClientProtocol

open Loop

/-- `GenerateId`, when the counter stands at `idCounter`. -/
def generateId (idCounter : ℕ) : Bytes := bytesOf "req-" ++ printed 10 idCounter

/-- The envelope `Send` writes for `envelope`, and the counter afterwards. -/
def message (envelope : StreamEnvelope) (idCounter : ℕ) : StreamEnvelope × ℕ :=
  let msg :=
    if envelope.header.isSome then envelope
    else envelope.mutableHeader fun header =>
      { header with messageType := bytesOf "rpc.generic" }
  -- an identifier is generated only where there is none
  if msg.getHeader.correlationId.isEmpty then
    (msg.mutableHeader fun header => { header with correlationId := generateId idCounter },
      idCounter + 1)
  else (msg, idCounter)

/-- `Send`. -/
def send (pb : Protobuf) (envelope : StreamEnvelope) (idCounter : ℕ) : List ConnCall × ℕ :=
  let (msg, idCounter) := message envelope idCounter
  let payload := pb.serializeAsString msg
  ([.send (htonl (UInt32.ofNat payload.length) ++ payload)], idCounter)

variable {σ : Type*} (pb : Protobuf)

/-- What `OnDataReceived` reads and changes beside the input buffer. -/
structure Session (σ : Type*) extends ClientSession σ where
  /-- Calls made on the connection so far. -/
  calls : List ConnCall := []

/-- The bound on an announced length, 100 MiB. -/
def maxLength : ℕ := 100 * 1024 * 1024

/-- Parse one complete frame and hand it to the message handler. -/
def process (handler : Option (MessageHandler σ)) (s : Session σ) (data : Bytes) : Session σ :=
  match pb.parseFromString data with
  | none => { s with thrown := none }
  | some msg => { s with toClientSession := { s with thrown := none }.deliver handler msg }

/-- One turn of the receive loop. -/
def turn (handler : Option (MessageHandler σ)) : Session σ × Buffer → Turn (Session σ × Buffer)
  | (s, buf) =>
      if buf.length < 4 then .leave (s, buf)
      else
        let length := ntohl (buf.take 4)
        if maxLength < length.toNat then .leave ({ s with calls := s.calls ++ [.forceClose] }, buf)
        else if (4 + length).toNat ≤ buf.length then
          let buf := Buffer.retrieve buf 4
          let data := buf.take length.toNat
          let buf := Buffer.retrieve buf length.toNat
          let s := process pb handler s data
          if s.thrown.isSome then .leave (s, buf) else .again (s, buf)
        else .leave (s, buf)

/-- `OnDataReceived`. -/
def onDataReceived (handler : Option (MessageHandler σ)) (p : Session σ × Buffer) :
    Session σ × Buffer :=
  run (turn pb handler) (fun p => p.2.length) ({ p.1 with thrown := none }, p.2)

/-- `OnDataReceived` called after each read on the connection's input buffer. -/
def receiveAll (handler : Option (MessageHandler σ)) (p : Session σ × Buffer)
    (reads : List Bytes) : Session σ × Buffer :=
  reads.foldl (fun p read => onDataReceived pb handler (p.1, Buffer.append p.2 read)) p

end NetworkLib.RpcClientProtocol
