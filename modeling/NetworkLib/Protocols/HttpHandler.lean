import NetworkLib.Memory.Buffer
import NetworkLib.Protocols.Handler
import NetworkLib.Protocols.HeaderText
import NetworkLib.Theory.Loop
import NetworkLib.Theory.Numerals

/-! # The HTTP protocol handler

`HttpHandler::ParseRequest`, which advances the per-connection `HttpContext` over the input buffer,
and `HttpHandler::OnMessage`, which dispatches the request the context holds. -/

namespace NetworkLib

open Loop

/-- `HttpContext::State`. -/
inductive HttpContext.State where
  | kExpectRequestLine
  | kExpectHeaders
  | kExpectBody
  | kDone
  deriving DecidableEq, Repr

/-- The parser state kept with a connection. -/
structure HttpContext where
  state : HttpContext.State := .kExpectRequestLine
  method : Bytes := []
  path : Bytes := []
  version : Bytes := []
  headers : StringMap := ∅
  body : Bytes := []
  deriving DecidableEq

namespace HttpContext

/-- The value stored for `Content-Length`, if any. -/
def contentLength (ctx : HttpContext) : Option Bytes := ctx.headers.lookup (bytesOf "Content-Length")

/-- Read the request line: `iss >> method >> path >> version`. -/
def withRequestLine (ctx : HttpContext) (line : Bytes) : HttpContext :=
  let ws := streamWords line
  { ctx with
    method := (ws[0]?).getD ctx.method
    path := (ws[1]?).getD ctx.path
    version := (ws[2]?).getD ctx.version
    state := .kExpectHeaders }

end HttpContext

namespace HttpHandler

/-- How a `ParseRequest` call ends: it returns `false`, it returns `true`, or a `substr` or `stoi`
throws. -/
inductive ParseResult where
  | incomplete
  | complete
  | threw
  deriving DecidableEq, Repr

/-! ## `ParseRequest` -/

/-- The request-line stage; `none` when `ParseRequest` returns `false` there. -/
def parseRequestLine : HttpContext × Buffer → Option (HttpContext × Buffer)
  | (ctx, buf) =>
      if ctx.state = .kExpectRequestLine then
        match Buffer.findCRLF buf with
        | none => none
        | some crlf =>
            let line := buf.take crlf
            some (ctx.withRequestLine line, Buffer.retrieve buf (line.length + 2))
      else some (ctx, buf)

/-- What the header loop does with one line, given the buffer behind it: it is left with the result
of `ParseRequest`, or with `none` by the `break` before the body. -/
def headerLine (ctx : HttpContext) (line : Bytes) (buf : Buffer) :
    Turn (Option ParseResult × HttpContext × Buffer) :=
  if line = [] then
    -- the blank line; a body is expected only if its length is announced
    if ctx.contentLength.isSome then .leave (none, { ctx with state := .kExpectBody }, buf)
    else .leave (some .complete, { ctx with state := .kDone }, buf)
  else
    match storeHeader ctx.headers line with
    -- `substr(colon + 2)` behind the end of the line
    | none => .leave (some .threw, ctx, buf)
    | some headers => .again (none, { ctx with headers }, buf)

/-- One turn of the header loop. -/
def headerTurn : Option ParseResult × HttpContext × Buffer →
    Turn (Option ParseResult × HttpContext × Buffer)
  | (_, ctx, buf) =>
      match Buffer.findCRLF buf with
      | none => .leave (some .incomplete, ctx, buf)
      | some crlf =>
          let line := buf.take crlf
          headerLine ctx line (Buffer.retrieve buf (line.length + 2))

/-- The header stage. -/
def parseHeaders : HttpContext × Buffer → Option ParseResult × HttpContext × Buffer
  | (ctx, buf) =>
      if ctx.state = .kExpectHeaders then
        run headerTurn (fun q => q.2.2.length) (none, ctx, buf)
      else (none, ctx, buf)

/-- The body stage and the final `return`. -/
def parseBody : HttpContext × Buffer → ParseResult × HttpContext × Buffer
  | (ctx, buf) =>
      if ctx.state = .kExpectBody then
        match stoi (ctx.contentLength.getD []) with
        -- `stoi` throws, and the header block has been retrieved
        | none => (.threw, ctx, buf)
        | some value =>
            -- a negative value becomes a huge `size_t`
            let len := toSize value
            if len ≤ buf.length then
              (.complete, { ctx with body := buf.take len, state := .kDone },
                Buffer.retrieve buf len)
            else (.incomplete, ctx, buf)
      -- a context that is done stays so: nothing resets it
      else (if ctx.state = .kDone then .complete else .incomplete, ctx, buf)

/-- `HttpHandler::ParseRequest`. -/
def parseRequest (p : HttpContext × Buffer) : ParseResult × HttpContext × Buffer :=
  match parseRequestLine p with
  | none => (.incomplete, p)
  | some p =>
      match parseHeaders p with
      | (some result, p) => (result, p)
      | (none, p) => parseBody p

/-- `ParseRequest` called after each read, until it throws: the results of the calls. -/
def parseReads : HttpContext × Buffer → List Bytes → List ParseResult
  | _, [] => []
  | p, read :: reads =>
      match parseRequest (p.1, Buffer.append p.2 read) with
      | (.threw, _) => [.threw]
      | (result, p) => result :: parseReads p reads

end HttpHandler

/-! ## Answers -/

/-- The bytes of a number in the given base, as a C++ stream prints it. -/
def printed (base n : ℕ) : Bytes := bytesOf (String.ofList (Nat.toDigits base n))

/-- A number as a stream prints it is its numeral. -/
theorem printed_eq (base n : ℕ) :
    printed base n = numeral (fun c => UInt8.ofNat c.toNat) base n := by
  rw [printed, bytesOf, String.toList_ofList, numeral]

/-- A number is printed with a digit at least. -/
theorem printed_ne_nil (base n : ℕ) : printed base n ≠ [] := by
  rw [printed_eq]
  exact numeral_ne_nil base n

/-- What holds of every digit holds of every byte of a number printed. -/
theorem forall_mem_printed {P : UInt8 → Prop} {base : ℕ} (hbase : 1 < base)
    (hP : ∀ d < base, P (UInt8.ofNat d.digitChar.toNat)) (n : ℕ) :
    ∀ b ∈ printed base n, P b := by
  rw [printed_eq]
  exact forall_mem_numeral hbase hP n

/-- A number printed holds no CR. -/
theorem cr_not_mem_printed {base : ℕ} (hbase : 1 < base) (hle : base ≤ 16) (n : ℕ) :
    (13 : UInt8) ∉ printed base n := by
  have hdigit : ∀ d < 16, UInt8.ofNat (Nat.digitChar d).toNat ≠ 13 := by decide
  have hall : ∀ b ∈ printed base n, b ≠ 13 :=
    forall_mem_printed hbase (fun d hd => hdigit d (hd.trans_le hle)) n
  intro hcr
  exact hall 13 hcr rfl

/-- A reader that knows the digits reads back the number printed. -/
theorem ofNumeral_printed {value : UInt8 → ℕ} {base : ℕ} (hbase : 1 < base)
    (hvalue : ∀ d < base, value (UInt8.ofNat d.digitChar.toNat) = d) (n : ℕ) :
    ofNumeral value base (printed base n) = n := by
  rw [printed_eq]
  exact ofNumeral_numeral hbase hvalue n

namespace HttpStreamContext

/-- The head of the chunked response. -/
def head : Bytes :=
  bytesOf "HTTP/1.1 200 OK\r\nConnection: keep-alive\r\nTransfer-Encoding: chunked\r\n\r\n"

/-- `Write`: send the head first if it was not sent yet, and then the data as one chunk. -/
def write (headersSent : Bool) (data : Bytes) : List ConnCall :=
  (if headersSent then [] else [.send head]) ++
    if data.isEmpty then []
    else [.send (printed 16 data.length ++ Buffer.kCRLF ++ data ++ Buffer.kCRLF)]

/-- `Close`. -/
def close (headersSent : Bool) : List ConnCall :=
  (if headersSent then [.send (bytesOf "0\r\n\r\n")] else []) ++ [.shutdown]

/-- One context call, given `headers_sent_`: its value afterwards and the calls on the connection.
-/
def onConn (headersSent : Bool) : ContextCall → Bool × List ConnCall
  | .write msg =>
      let body := match msg.payload with
        | some payload => payload.data
        | none => []
      (true, write headersSent body)
  | .writeString data => (true, write headersSent data)
  | .close => (headersSent, close headersSent)

/-- Context calls one after another, on a context given by its `headers_sent_`. -/
def onConnAll (headersSent : Bool) (calls : List ContextCall) : Bool × List ConnCall :=
  calls.foldl (fun p call => ((onConn p.1 call).1, p.2 ++ (onConn p.1 call).2)) (headersSent, [])

end HttpStreamContext

namespace HttpHandler

variable {σ : Type*} (h : ProtocolHandler σ)

/-- `SendResponse`. -/
def sendResponse (status : ℕ) (msg : Bytes) : List ConnCall :=
  [.send (bytesOf "HTTP/1.1 " ++ printed 10 status ++ bytesOf " OK\r\n" ++
    bytesOf "Content-Type: text/plain\r\n" ++
    bytesOf "Content-Length: " ++ printed 10 msg.length ++ bytesOf "\r\n" ++
    bytesOf "Connection: close\r\n" ++ bytesOf "\r\n" ++ msg)]

/-- The request envelope of a parsed request. -/
def envelope (ctx : HttpContext) : StreamEnvelope where
  header := some
    { messageType := ctx.method ++ bytesOf " " ++ ctx.path, protocolVersion := ctx.version }
  metadata := some { fields := ctx.headers }
  payload := if ctx.body.isEmpty then none else some { data := ctx.body }

/-- Write the response and close the stream context, if the handler populated a response. -/
def respond (run : HandlerRun σ) : List ConnCall :=
  if run.resp.payload.isSome then
    let (headersSent, _) := HttpStreamContext.onConnAll false run.calls
    (HttpStreamContext.onConnAll headersSent [.write run.resp, .close]).2
  else []

/-- Dispatch the request in the context, once the rate limiter let it through. -/
def dispatch (s : Session σ) (ctx : HttpContext) : Session σ :=
  match h.streamHandler with
  | some f =>
      let (s, run) :=
        s.invoke f (fun calls => (HttpStreamContext.onConnAll false calls).2) (envelope ctx) {}
      match run.thrown with
      | none => s.push (respond run)
      -- only `std::exception` is caught
      | some .stdException => s.push (sendResponse 500 (bytesOf "Internal Server Error"))
      | some .other => { s with thrown := some .other }
  | none =>
      s.push (sendResponse 200
        (bytesOf "Hello from NetworkLib HTTP Server!\nPath: " ++ ctx.path ++ bytesOf "\n"))

/-- `HttpHandler::OnMessage`, on a connection whose context holds `ctx`. -/
def onMessage : Session σ × HttpContext × Buffer → Session σ × HttpContext × Buffer
  | (s, p) =>
      match parseRequest p with
      -- `ParseRequest` is called outside the `try` block
      | (.threw, p) => ({ s with thrown := some .stdException }, p)
      | (.incomplete, p) => (s.enter, p)
      | (.complete, p) =>
          if h.checkRateLimit s.consumed then (dispatch h s.enter.consume p.1, p)
          else
            (s.enter.consume.push (sendResponse 429 (bytesOf "Too Many Requests") ++ [.shutdown]), p)

/-- `OnMessage` called after each read, until an exception leaves a call. -/
def receiveAll (p : Session σ × HttpContext × Buffer) (reads : List Bytes) :
    Session σ × HttpContext × Buffer :=
  reads.foldl (fun p read =>
    if p.1.thrown.isSome then p else onMessage h (p.1, p.2.1, Buffer.append p.2.2 read)) p

end HttpHandler

end NetworkLib
