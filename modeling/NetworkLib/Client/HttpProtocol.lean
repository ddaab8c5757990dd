import NetworkLib.Client.ClientSession
import NetworkLib.Protocols.HttpHandler
import NetworkLib.Protocols.WebSocket.Handshake

/-! # The HTTP client protocol

`HttpClientProtocol`: the client writes an envelope as a POST request and takes whatever follows the
header of a response for its body. The end of the header is searched with `strstr`, which does not
stop at the end of the readable bytes. -/

namespace NetworkLib

namespace HttpClientProtocol

variable {σ : Type*}

/-- The path of a request. -/
def path (envelope : StreamEnvelope) : Bytes :=
  if envelope.header.isSome ∧ ¬ envelope.getHeader.messageType.isEmpty then
    envelope.getHeader.messageType
  else bytesOf "/"

/-- The metadata of an envelope, in the order they are written in. -/
def metadataFields (envelope : StreamEnvelope) : List (Bytes × Bytes) :=
  match envelope.metadata with
  | some metadata => metadata.fields.entries.map fun field => (field.1, field.2)
  | none => []

/-- `Send`. -/
def send (envelope : StreamEnvelope) : List ConnCall :=
  let body := envelope.getPayload.data
  [.send (bytesOf "POST " ++ path envelope ++ bytesOf " HTTP/1.1\r\n" ++
    bytesOf "Host: localhost\r\n" ++
    ((metadataFields envelope).flatMap fun field =>
      field.1 ++ bytesOf ": " ++ field.2 ++ bytesOf "\r\n") ++
    bytesOf "Content-Length: " ++ printed 10 body.length ++ bytesOf "\r\n" ++
    bytesOf "Connection: keep-alive\r\n" ++
    bytesOf "\r\n" ++
    body)]

/-- The envelope of a response. -/
def envelope (body : Bytes) : StreamEnvelope where
  header := some { messageType := bytesOf "http.response" }
  payload := some { data := body }

/-- `OnDataReceived`, given the memory behind the readable bytes. A match that ends behind them
makes the length of the body wrap, and the constructor of `std::string` throws. A handler that
throws leaves the buffer as it is. -/
def onDataReceived (handler : Option (MessageHandler σ)) (p : ClientSession σ × Buffer)
    (beyond : Bytes) : ClientSession σ × Buffer :=
  let (s, buf) := p
  match Buffer.findCRLF buf with
  | none => (s, buf)
  | some _ =>
      -- the search does not end with the readable bytes
      match strstr (buf ++ beyond) Handshake.headerEnd with
      | none => (s, buf)
      | some bodyStart =>
          if bodyStart + 4 ≤ buf.length then
            -- whatever has arrived behind the block counts as the body
            let s := s.deliver handler (envelope (buf.drop (bodyStart + 4)))
            if s.thrown.isSome then (s, buf) else (s, Buffer.retrieveAll buf)
          -- a body of negative length: `std::string` throws
          else ({ s with thrown := some .stdException }, buf)

/-- `OnDataReceived` called after each read, given with the memory behind the readable bytes, until
an exception leaves a call. -/
def receiveAll (handler : Option (MessageHandler σ)) (p : ClientSession σ × Buffer)
    (reads : List (Bytes × Bytes)) : ClientSession σ × Buffer :=
  reads.foldl (fun p read =>
    if p.1.thrown.isSome then p
    else onDataReceived handler (p.1, Buffer.append p.2 read.1) read.2) p

/-- The last read comes after all the others. -/
theorem receiveAll_snoc (handler : Option (MessageHandler σ)) (p : ClientSession σ × Buffer)
    (reads : List (Bytes × Bytes)) (read : Bytes × Bytes) :
    receiveAll handler p (reads ++ [read]) =
      if (receiveAll handler p reads).1.thrown.isSome then receiveAll handler p reads
      else onDataReceived handler
        ((receiveAll handler p reads).1, Buffer.append (receiveAll handler p reads).2 read.1)
        read.2 := by
  rw [receiveAll, List.foldl_append]
  rfl

end HttpClientProtocol

end NetworkLib
