import NetworkLib.Protocols.HttpHandler
import NetworkLib.Protocols.HttpResponse

/-! # The answer to one HTTP request

What `HttpHandler` sends for one request, against HTTP/1.1: the bytes sent so far are the beginning
of one response, whose body is the data written so far, and the whole of it once the context was
closed. The head, the chunks, the last chunk and the error answer come from different functions,
which look at `headers_sent_` only. -/

namespace NetworkLib

/-! ## The parts of a chunked response -/

/-- A hexadecimal digit is read back. -/
theorem hexValue_digit (d : ℕ) (hd : d < 16) :
    HttpResponse.hexValue (UInt8.ofNat d.digitChar.toNat) = some d := by
  interval_cases d <;> rfl

/-- A chunk size as the server prints it. -/
theorem chunkSize_printed (n : ℕ) : HttpResponse.chunkSize (printed 16 n) = some n := by
  have hdigits : ∀ b ∈ printed 16 n, (HttpResponse.hexValue b).isSome := by
    refine forall_mem_printed (by decide) (fun d hd => ?_) n
    rw [hexValue_digit d hd, Option.isSome_some]
  have hvalue : ofNumeral (fun b => (HttpResponse.hexValue b).getD 0) 16 (printed 16 n) = n := by
    refine ofNumeral_printed (by decide) (fun d hd => ?_) n
    rw [hexValue_digit d hd, Option.getD_some]
  rw [HttpResponse.chunkSize, List.takeWhile_eq_self_iff.mpr hdigits,
    List.dropWhile_eq_nil_iff.mpr hdigits]
  simp only [List.head?_nil, Option.all_none, and_true, ne_eq, printed_ne_nil, not_false_eq_true,
    if_true, hvalue]

namespace HttpStreamContext

/-- The bytes sent for the data of one `Write`. -/
def chunk (data : Bytes) : Bytes :=
  if data.isEmpty then []
  else printed 16 data.length ++ Buffer.kCRLF ++ data ++ Buffer.kCRLF

/-- The bytes `Close` ends the body with. -/
def lastChunk : Bytes := bytesOf "0\r\n\r\n"

/-- The fields of the chunked response. -/
def headFields : List (Bytes × Bytes) :=
  [(bytesOf "connection", bytesOf "keep-alive"), (bytesOf "transfer-encoding", bytesOf "chunked")]

/-- A chunk is read off, whatever follows it. -/
theorem readChunks_chunk (data rest : Bytes) :
    HttpResponse.readChunks (chunk data ++ rest)
      = (HttpResponse.readChunks rest).map fun p => (data ++ p.1, p.2) := by
  by_cases hdata : data = []
  · subst hdata
    cases h : HttpResponse.readChunks rest <;> simp [chunk, h]
  · rw [chunk, if_neg (by simpa using hdata)]
    exact HttpResponse.readChunks_chunk (cr_not_mem_printed (by decide) le_rfl _)
      (chunkSize_printed _) hdata rest

/-- So are the chunks of several `Write` calls. -/
theorem readChunks_chunks (datas : List Bytes) (rest : Bytes) :
    HttpResponse.readChunks (datas.flatMap chunk ++ rest)
      = (HttpResponse.readChunks rest).map fun p => (datas.flatten ++ p.1, p.2) := by
  induction datas with
  | nil => cases h : HttpResponse.readChunks rest <;> simp [h]
  | cons data datas ih =>
      rw [List.flatMap_cons, List.append_assoc, readChunks_chunk, ih, Option.map_map]
      congr 1
      funext p
      simp

/-- **The head announces chunks.** -/
theorem read_head (rest : Bytes) :
    HttpResponse.read (head ++ rest)
      = (HttpResponse.readChunks rest).map fun p => (⟨200, headFields, p.1⟩, p.2) := by
  have hhead : head = bytesOf "HTTP/1.1 200 OK" ++ Buffer.kCRLF ++
      (bytesOf "Connection: keep-alive" ++ Buffer.kCRLF ++
        (bytesOf "Transfer-Encoding: chunked" ++ Buffer.kCRLF ++ Buffer.kCRLF)) := by
    decide
  have hconnection : HttpResponse.fieldOf (bytesOf "Connection: keep-alive")
      = some (bytesOf "connection", bytesOf "keep-alive") := by decide
  have hcoding : HttpResponse.fieldOf (bytesOf "Transfer-Encoding: chunked")
      = some (bytesOf "transfer-encoding", bytesOf "chunked") := by decide
  have hfields : HttpResponse.readFields (bytesOf "Connection: keep-alive" ++ Buffer.kCRLF ++
      (bytesOf "Transfer-Encoding: chunked" ++ Buffer.kCRLF ++ (Buffer.kCRLF ++ rest)))
        = some (headFields, rest) := by
    rw [HttpResponse.readFields_line (by decide) (by decide) hconnection,
      HttpResponse.readFields_line (by decide) (by decide) hcoding, HttpResponse.readFields_empty]
    rfl
  have hstatus : HttpResponse.statusOf (bytesOf "HTTP/1.1 200 OK") = some 200 := by decide
  rw [hhead, List.append_assoc _ _ rest, List.append_assoc _ _ rest, List.append_assoc _ _ rest,
    HttpResponse.read_eq (by decide) hstatus hfields]
  rfl

/-! ## Context calls -/

/-- Some calls of the context, and more behind them. -/
theorem onConnAll_append (headersSent : Bool) (calls calls' : List ContextCall) :
    onConnAll headersSent (calls ++ calls') =
      ((onConnAll (onConnAll headersSent calls).1 calls').1,
        (onConnAll headersSent calls).2 ++ (onConnAll (onConnAll headersSent calls).1 calls').2) := by
  induction calls' using List.reverseRecOn with
  | nil => simp [onConnAll]
  | append_singleton calls' call ih =>
      rw [← List.append_assoc, onConnAll, List.foldl_append, ← onConnAll, ih]
      simp [onConnAll, List.foldl_append]

/-- One call of the context, and more behind it. -/
theorem onConnAll_cons (headersSent : Bool) (call : ContextCall) (calls : List ContextCall) :
    onConnAll headersSent (call :: calls) =
      ((onConnAll (onConn headersSent call).1 calls).1,
        (onConn headersSent call).2 ++ (onConnAll (onConn headersSent call).1 calls).2) :=
  onConnAll_append headersSent [call] calls

/-- What a call other than `Close` sends: the head, unless it was sent, and a chunk. -/
theorem onConn_write {call : ContextCall} (h : call ≠ .close) (headersSent : Bool) :
    (onConn headersSent call).1 = true ∧
      sentBytes (onConn headersSent call).2
        = (if headersSent then [] else head) ++ chunk call.data := by
  have hwrite : ∀ data, sentBytes (write headersSent data)
      = (if headersSent then [] else head) ++ chunk data := by
    intro data
    rw [write, chunk, sentBytes_append]
    cases headersSent <;> cases hd : data.isEmpty <;> simp [sentBytes, ConnCall.bytes]
  cases call with
  | write msg =>
      refine ⟨rfl, ?_⟩
      rw [onConn, ContextCall.data, StreamEnvelope.getPayload]
      cases msg.payload <;> exact hwrite _
  | writeString data => exact ⟨rfl, hwrite data⟩
  | close => exact absurd rfl h

/-- The bytes the calls send, on a context given by its `headers_sent_`. -/
def sent (headersSent : Bool) (calls : List ContextCall) : Bytes :=
  sentBytes (onConnAll headersSent calls).2

/-- What is sent by some calls and by more behind them. -/
theorem sent_append (headersSent : Bool) (calls calls' : List ContextCall) :
    sent headersSent (calls ++ calls')
      = sent headersSent calls ++ sent (onConnAll headersSent calls).1 calls' := by
  rw [sent, onConnAll_append, sentBytes_append, ← sent, ← sent]

/-- What is sent by one call and by more behind it. -/
theorem sent_cons (headersSent : Bool) (call : ContextCall) (calls : List ContextCall) :
    sent headersSent (call :: calls)
      = sentBytes (onConn headersSent call).2 ++ sent (onConn headersSent call).1 calls := by
  rw [sent, onConnAll_cons, sentBytes_append, ← sent]

/-- After the head, calls without a `Close` send their chunks. -/
theorem sent_writes {calls : List ContextCall} (h : .close ∉ calls) :
    (onConnAll true calls).1 = true ∧
      sent true calls = (calls.map ContextCall.data).flatMap chunk := by
  induction calls with
  | nil => exact ⟨rfl, rfl⟩
  | cons call calls ih =>
      rw [List.mem_cons, not_or] at h
      obtain ⟨hsent, hbytes⟩ := onConn_write (Ne.symm h.1) true
      obtain ⟨hall, hchunks⟩ := ih h.2
      rw [onConnAll_cons, sent_cons, hsent, hbytes, hchunks]
      exact ⟨hall, rfl⟩

/-- From the start they send the head first. -/
theorem sent_first_writes {calls : List ContextCall} (h : .close ∉ calls) (hne : calls ≠ []) :
    (onConnAll false calls).1 = true ∧
      sent false calls = head ++ (calls.map ContextCall.data).flatMap chunk := by
  obtain ⟨call, calls, rfl⟩ := List.exists_cons_of_ne_nil hne
  rw [List.mem_cons, not_or] at h
  obtain ⟨hsent, hbytes⟩ := onConn_write (Ne.symm h.1) false
  obtain ⟨hall, hchunks⟩ := sent_writes h.2
  rw [onConnAll_cons, sent_cons, hsent, hbytes, hchunks, List.map_cons, List.flatMap_cons]
  refine ⟨hall, ?_⟩
  rw [if_neg Bool.false_ne_true, List.append_assoc]

/-- A `Close` after them ends the body. -/
theorem sent_closed {calls : List ContextCall} (h : .close ∉ calls) (hne : calls ≠ [])
    (after : List ContextCall) :
    sent false (calls ++ .close :: after)
      = sent false calls ++ (lastChunk ++ sent true after) := by
  rw [sent_append, (sent_first_writes h hne).1, sent_cons]
  rfl

/-- **A response that was begun**: its chunks so far are read off, and the reader goes on with what
follows them. -/
theorem read_begun {calls : List ContextCall} (h : .close ∉ calls) (hne : calls ≠ [])
    (rest : Bytes) :
    HttpResponse.read (sent false calls ++ rest) = (HttpResponse.readChunks rest).map
      fun p => (⟨200, headFields, (calls.flatMap ContextCall.data) ++ p.1⟩, p.2) := by
  rw [(sent_first_writes h hne).2, List.append_assoc, read_head, readChunks_chunks, Option.map_map,
    List.flatMap_def]
  rfl

/-- **A response that was closed** ends there. -/
theorem read_closed {calls : List ContextCall} (h : .close ∉ calls) (hne : calls ≠ [])
    (after : List ContextCall) (rest : Bytes) :
    HttpResponse.read (sent false (calls ++ .close :: after) ++ rest) =
      some (⟨200, headFields, calls.flatMap ContextCall.data⟩, sent true after ++ rest) := by
  rw [sent_closed h hne, List.append_assoc, read_begun h hne, List.append_assoc, lastChunk,
    HttpResponse.readChunks_last, Option.map_some, List.append_nil]

/-- Nothing is sent after the head exactly if there is no `Close` and no data. -/
theorem sent_eq_nil_iff {calls : List ContextCall} :
    sent true calls = [] ↔ ∀ call ∈ calls, call ≠ .close ∧ call.data = [] := by
  induction calls with
  | nil => exact ⟨fun _ call hcall => absurd hcall List.not_mem_nil, fun _ => rfl⟩
  | cons call calls ih =>
      rw [sent_cons, List.append_eq_nil_iff, List.forall_mem_cons]
      by_cases hclose : call = .close
      · subst hclose
        refine ⟨fun h => ?_, fun h => absurd rfl h.1.1⟩
        cases h.1
      · obtain ⟨hsent, hbytes⟩ := onConn_write hclose true
        have hchunk : chunk call.data = [] ↔ call.data = [] := by
          rw [chunk]
          split
          · next h => simpa using h
          · next h => simp [Buffer.kCRLF] at h ⊢; exact h
        rw [hsent, hbytes, if_pos rfl, List.nil_append, hchunk, ih]
        exact and_congr_left fun _ => (and_iff_right hclose).symm

end HttpStreamContext

namespace HttpHandler

/-! ## The answer -/

/-- The bytes sent for the context calls made so far and, if the handler threw, the error answer. -/
def answer (calls : List ContextCall) (failed : Bool) : Bytes :=
  HttpStreamContext.sent false calls ++
    if failed then sentBytes (sendResponse 500 (bytesOf "Internal Server Error")) else []

/-- The data written by them. -/
def written (calls : List ContextCall) (failed : Bool) : Bytes :=
  calls.flatMap ContextCall.data ++ if failed then bytesOf "Internal Server Error" else []

/-- The bytes sent so far begin one response whose body is the data written so far, and are the
whole of it if the context was closed. -/
def Conforms (calls : List ContextCall) (failed : Bool) : Prop :=
  ∃ rest, HttpResponse.Complete (answer calls failed ++ rest) (written calls failed) ∧
    (.close ∈ calls → rest = [])

variable {σ : Type*}

/-- The context calls made for one request: those of the handler and, when it returned a response
payload, the `Write` and the `Close` of `OnMessage`. -/
def contextCalls (run : HandlerRun σ) : List ContextCall :=
  run.calls ++
    if run.thrown = none ∧ run.resp.payload.isSome then [.write run.resp, .close] else []

/-- The handler threw an exception that `OnMessage` answers. -/
def failed (run : HandlerRun σ) : Bool := run.thrown = some .stdException

/-- What is sent for a request conforms after every context call and in the end. -/
def WellFormed (run : HandlerRun σ) : Prop :=
  (∀ calls, calls <+: contextCalls run → Conforms calls false) ∧
    Conforms (contextCalls run) (failed run)

/-- Context calls in an order a response can be written in: a handler that throws makes none; one
that does not throw never closes the context, or closes it once, after at least one `Write`, and
writes no data after that. -/
def Orderly (calls : List ContextCall) (failed : Bool) : Prop :=
  if failed then calls = []
  else .close ∉ calls ∨ ∃ before after, calls = before ++ .close :: after ∧ before ≠ [] ∧
    .close ∉ before ∧ ∀ call ∈ after, call ≠ .close ∧ call.data = []

open HttpStreamContext (sent)

/-- **What `OnMessage` sends for a request is the answer to it.** -/
theorem sentBytes_dispatch (h : ProtocolHandler σ) (f : StreamHandler σ) (s : Session σ)
    (ctx : HttpContext) :
    sentBytes (dispatch { h with streamHandler := some f } s ctx).calls = sentBytes s.calls ++
      answer (contextCalls (f s.app (envelope ctx) {})) (failed (f s.app (envelope ctx) {})) := by
  simp only [dispatch, Session.invoke]
  set run := f s.app (envelope ctx) {} with hrun
  cases hthrown : run.thrown with
  | none =>
      simp only [answer, contextCalls, failed, hthrown, true_and, reduceCtorEq, decide_false,
        Bool.false_eq_true, if_false, List.append_nil, Session.push, respond, sentBytes_append,
        List.append_assoc]
      by_cases hresp : run.resp.payload.isSome = true
      · rw [if_pos hresp, if_pos hresp, HttpStreamContext.sent_append]
        rfl
      · rw [if_neg hresp, if_neg hresp, List.append_nil]
        simp [sent, sentBytes]
  | some thrown =>
      cases thrown <;> simp [answer, contextCalls, failed, hthrown, Session.push, sent]

/-! ## Which answers conform -/

/-- The fields of the error answer. -/
def errorFields : List (Bytes × Bytes) :=
  [(bytesOf "content-type", bytesOf "text/plain"), (bytesOf "content-length", bytesOf "21"),
    (bytesOf "connection", bytesOf "close")]

/-- The error answer behind its status line. -/
def errorBlock : Bytes :=
  bytesOf "Content-Type: text/plain" ++ Buffer.kCRLF ++
    (bytesOf "Content-Length: 21" ++ Buffer.kCRLF ++
      (bytesOf "Connection: close" ++ Buffer.kCRLF ++
        (Buffer.kCRLF ++ bytesOf "Internal Server Error")))

/-- The response to a handler that has thrown: a status line and a block behind it. -/
theorem error_eq : sentBytes (sendResponse 500 (bytesOf "Internal Server Error"))
    = bytesOf "HTTP/1.1 500 OK" ++ Buffer.kCRLF ++ errorBlock := by decide

/-- The error answer is a response of its own. -/
theorem read_error (rest : Bytes) :
    HttpResponse.read
        (sentBytes (sendResponse 500 (bytesOf "Internal Server Error")) ++ rest)
      = some (⟨500, errorFields, bytesOf "Internal Server Error"⟩, rest) := by
  have hstatus : HttpResponse.statusOf (bytesOf "HTTP/1.1 500 OK") = some 500 := by decide
  have htype : HttpResponse.fieldOf (bytesOf "Content-Type: text/plain")
      = some (bytesOf "content-type", bytesOf "text/plain") := by decide
  have hlength : HttpResponse.fieldOf (bytesOf "Content-Length: 21")
      = some (bytesOf "content-length", bytesOf "21") := by decide
  have hconnection : HttpResponse.fieldOf (bytesOf "Connection: close")
      = some (bytesOf "connection", bytesOf "close") := by decide
  have hfields : HttpResponse.readFields (errorBlock ++ rest)
      = some (errorFields, bytesOf "Internal Server Error" ++ rest) := by
    rw [errorBlock, List.append_assoc _ _ rest, List.append_assoc _ _ rest,
      List.append_assoc _ _ rest, List.append_assoc _ _ rest,
      HttpResponse.readFields_line (by decide) (by decide) htype,
      HttpResponse.readFields_line (by decide) (by decide) hlength,
      HttpResponse.readFields_line (by decide) (by decide) hconnection,
      HttpResponse.readFields_empty]
    rfl
  rw [error_eq, List.append_assoc _ _ rest, HttpResponse.read_eq (by decide) hstatus hfields]
  rfl

/-- The error answer cannot stand where a chunk is expected. -/
theorem readChunks_error (rest : Bytes) :
    HttpResponse.readChunks
      (sentBytes (sendResponse 500 (bytesOf "Internal Server Error")) ++ rest) = none := by
  have hsize : HttpResponse.chunkSize (bytesOf "HTTP/1.1 500 OK") = none := by decide
  rw [error_eq, List.append_assoc _ _ rest, HttpResponse.readChunks_line (by decide), hsize]

variable {calls : List ContextCall}

/-- Without a `Close` the response may go on; the last chunk would end it. -/
theorem conforms_writes (h : .close ∉ calls) : Conforms calls false := by
  by_cases hne : calls = []
  · -- nothing is sent yet, and any empty response will do
    subst hne
    refine ⟨HttpStreamContext.head ++ (HttpStreamContext.lastChunk ++ []),
      ⟨⟨200, HttpStreamContext.headFields, []⟩, ?_, rfl⟩, fun hclose => absurd hclose h⟩
    rw [show answer [] false = [] from rfl, List.nil_append, HttpStreamContext.read_head,
      HttpStreamContext.lastChunk, HttpResponse.readChunks_last]
    rfl
  · refine ⟨HttpStreamContext.lastChunk ++ [],
      ⟨⟨200, HttpStreamContext.headFields, calls.flatMap ContextCall.data⟩, ?_, ?_⟩,
      fun hclose => absurd hclose h⟩
    · rw [answer, if_neg Bool.false_ne_true, List.append_nil, HttpStreamContext.read_begun h hne,
        HttpStreamContext.lastChunk, HttpResponse.readChunks_last, Option.map_some, List.append_nil]
    · rw [written, if_neg Bool.false_ne_true, List.append_nil]

/-- After a `Close` that follows a `Write` it is complete, as long as no data is written. -/
theorem conforms_closed (h : .close ∉ calls) (hne : calls ≠ []) {after : List ContextCall}
    (hafter : ∀ call ∈ after, call ≠ .close ∧ call.data = []) :
    Conforms (calls ++ .close :: after) false := by
  have hdata : after.flatMap ContextCall.data = [] :=
    List.flatMap_eq_nil_iff.mpr fun call hcall => (hafter call hcall).2
  refine ⟨[], ⟨⟨200, HttpStreamContext.headFields, calls.flatMap ContextCall.data⟩, ?_, ?_⟩,
    fun _ => rfl⟩
  · rw [answer, if_neg Bool.false_ne_true, List.append_nil, HttpStreamContext.read_closed h hne,
      HttpStreamContext.sent_eq_nil_iff.mpr hafter, List.nil_append]
  · rw [written, if_neg Bool.false_ne_true, List.append_nil, List.flatMap_append,
      List.flatMap_cons, hdata, List.append_nil]
    exact (List.append_nil _).symm

/-- The error answer alone is a response. -/
theorem conforms_error : Conforms [] true := by
  refine ⟨[], ⟨⟨500, errorFields, bytesOf "Internal Server Error"⟩, ?_, rfl⟩,
    fun hclose => absurd hclose List.not_mem_nil⟩
  rw [answer, if_pos rfl, show sent false [] = [] from rfl, List.nil_append]
  exact read_error []

/-- A context closed before any `Write` was sent nothing. -/
theorem not_conforms_close_first : ¬ Conforms [.close] false := by
  rintro ⟨rest, ⟨r, hread, -⟩, hclose⟩
  have hempty : HttpResponse.read [] = some (r, []) := by
    rw [hclose (List.mem_singleton_self _)] at hread
    exact hread
  cases hempty

/-- After the first `Close`, what is sent is not part of the response. -/
theorem sent_after_of_conforms (h : .close ∉ calls) (hne : calls ≠ []) {after : List ContextCall}
    {failed : Bool} (hconforms : Conforms (calls ++ .close :: after) failed) :
    failed = false ∧ ∀ call ∈ after, call ≠ .close ∧ call.data = [] := by
  obtain ⟨rest, ⟨r, hread, -⟩, -⟩ := hconforms
  rw [answer, List.append_assoc, HttpStreamContext.read_closed h hne] at hread
  have hrest := congrArg Prod.snd (Option.some.inj hread)
  obtain ⟨hafter, herror⟩ := List.append_eq_nil_iff.mp hrest
  replace herror := (List.append_eq_nil_iff.mp herror).1
  refine ⟨?_, HttpStreamContext.sent_eq_nil_iff.mp hafter⟩
  cases failed with
  | false => rfl
  | true => cases herror

/-- An error answer after the head is not part of the response. -/
theorem not_conforms_error_after_head (h : .close ∉ calls) (hne : calls ≠ []) :
    ¬ Conforms calls true := by
  rintro ⟨rest, ⟨r, hread, -⟩, -⟩
  rw [answer, if_pos rfl, List.append_assoc, HttpStreamContext.read_begun h hne,
    readChunks_error] at hread
  cases hread

/-- **The orders a response can be written in are those whose answers conform.** -/
theorem conforms_iff_orderly (calls : List ContextCall) (failed : Bool) :
    (∀ before, before <+: calls → Conforms before false) ∧ Conforms calls failed
      ↔ Orderly calls failed := by
  constructor
  · rintro ⟨hfront, hall⟩
    by_cases hclose : .close ∈ calls
    · -- the calls up to the first `Close` and after it
      obtain ⟨before, after, hcalls, hbefore⟩ := List.eq_append_cons_of_mem hclose
      have hne : before ≠ [] := by
        rintro rfl
        exact not_conforms_close_first (hfront _ ⟨after, hcalls.symm⟩)
      rw [hcalls] at hall
      obtain ⟨hfailed, hafter⟩ := sent_after_of_conforms hbefore hne hall
      rw [Orderly, hfailed, if_neg Bool.false_ne_true]
      exact .inr ⟨before, after, hcalls, hne, hbefore, hafter⟩
    · cases failed with
      | false => exact .inl hclose
      | true =>
          by_contra hne
          exact not_conforms_error_after_head hclose hne hall
  · intro horderly
    -- no call closes, so that the head alone decides
    cases failed with
    | true =>
        have hcalls : calls = [] := horderly
        subst hcalls
        refine ⟨fun before hbefore => ?_, conforms_error⟩
        rw [List.prefix_nil.mp hbefore]
        exact conforms_writes List.not_mem_nil
    | false =>
        -- every front of the calls is orderly itself: writes, and calls behind the first `Close`
        have hfront : ∀ before, before <+: calls → Conforms before false := by
          rintro before ⟨later, hbefore⟩
          rcases horderly with hclose | ⟨writes, after, rfl, hne, hwrites, hafter⟩
          · refine conforms_writes fun hmem => hclose ?_
            rw [← hbefore]
            exact List.mem_append_left later hmem
          · rcases List.append_eq_append_iff.mp hbefore with ⟨rest, rfl, -⟩ | ⟨rest, rfl, hrest⟩
            · exact conforms_writes fun hmem => hwrites (List.mem_append_left rest hmem)
            · cases rest with
              | nil =>
                  rw [List.append_nil]
                  exact conforms_writes hwrites
              | cons call rest =>
                  rw [List.cons_append, List.cons.injEq] at hrest
                  obtain ⟨rfl, rfl⟩ := hrest
                  exact conforms_closed hwrites hne fun call hcall =>
                    hafter call (List.mem_append_left later hcall)
        exact ⟨hfront, hfront calls List.prefix_rfl⟩

/-- **The answer to a request.** Whatever the stream handler does on a request, what is sent for it
is the answer to it; and the answer is, after every context call and in the end, the beginning of
one well-formed response with the data written so far as its body, complete once the context was
closed, exactly if the context calls are in an order a response can be written in. -/
theorem answer_wellFormed_iff (h : ProtocolHandler σ) (f : StreamHandler σ) (s : Session σ)
    (ctx : HttpContext) :
    sentBytes (dispatch { h with streamHandler := some f } s ctx).calls = sentBytes s.calls ++
        answer (contextCalls (f s.app (envelope ctx) {})) (failed (f s.app (envelope ctx) {})) ∧
      (WellFormed (f s.app (envelope ctx) {}) ↔
        Orderly (contextCalls (f s.app (envelope ctx) {})) (failed (f s.app (envelope ctx) {}))) :=
  ⟨sentBytes_dispatch h f s ctx, conforms_iff_orderly _ _⟩

/-- A handler that writes `"a"` and then throws. -/
def writeThenThrow : StreamHandler Unit := fun _ _ resp =>
  { app := (), resp, calls := [.writeString (bytesOf "a")], thrown := some .stdException }

/-- The error answer after the head of another response is no response. -/
theorem answer_wellFormed_fails_on_throw :
    ¬ ∀ (f : StreamHandler Unit) (ctx : HttpContext), WellFormed (f () (envelope ctx) {}) := by
  intro h
  have horderly := (conforms_iff_orderly _ _).mp (h writeThenThrow {})
  cases (show [ContextCall.writeString (bytesOf "a")] = [] from horderly)

end HttpHandler

end NetworkLib
