import NetworkLib.Protocols.HttpParser

/-! # HTTP keep-alive

Well-formed requests sent back to back on one connection, and how often the handler dispatches each
of them. The parser reads one request exactly (`drain_request`) and then stays in `kDone`, where
every further `OnMessage` call dispatches that request again. -/

namespace NetworkLib

/-- A request token: not empty, and without white space. -/
def IsToken (w : Bytes) : Prop := w ≠ [] ∧ ∀ b ∈ w, isSpace b = false

instance (w : Bytes) : Decidable (IsToken w) := inferInstanceAs (Decidable (_ ∧ _))

/-- The headers of a request as a map: the last value of a name is kept. -/
def headerMap (headers : List (Bytes × Bytes)) : StringMap :=
  headers.foldl (fun m field => m.insert field.1 field.2) ∅

/-- A well-formed request. -/
structure HttpRequest where
  method : Bytes
  path : Bytes
  version : Bytes
  headers : List (Bytes × Bytes)
  body : Bytes
  tokens : IsToken method ∧ IsToken path ∧ IsToken version
  fields : ∀ field ∈ headers, (colon ∉ field.1 ∧ 13 ∉ field.1) ∧ 13 ∉ field.2
  /-- The body has the length announced, and is empty when none is. -/
  body_length : match (headerMap headers).lookup (bytesOf "Content-Length") with
    | none => body = []
    | some value => stoi value = some (body.length : ℤ)

namespace HttpRequest

/-- The request line, without its CR LF. -/
def requestLine (r : HttpRequest) : Bytes := r.method ++ 32 :: (r.path ++ 32 :: r.version)

/-- A `Name: value` line, without its CR LF. -/
def fieldLine (field : Bytes × Bytes) : Bytes := field.1 ++ colon :: 32 :: field.2

/-- The bytes of the request. -/
def bytes (r : HttpRequest) : Bytes :=
  r.requestLine ++ Buffer.kCRLF ++
    (r.headers.flatMap (fun field => fieldLine field ++ Buffer.kCRLF) ++
      (Buffer.kCRLF ++ r.body))

/-- What the stream handler is to be given for the request. -/
def envelope (r : HttpRequest) : StreamEnvelope where
  header := some
    { messageType := r.method ++ bytesOf " " ++ r.path, protocolVersion := r.version }
  metadata := some { fields := headerMap r.headers }
  payload := if r.body.isEmpty then none else some { data := r.body }

end HttpRequest

namespace HttpHandler

open HttpRequest

/-! ## One request is parsed exactly -/

/-- The context once the request is parsed. -/
def doneContext (r : HttpRequest) : HttpContext where
  state := .kDone
  method := r.method
  path := r.path
  version := r.version
  headers := headerMap r.headers
  body := r.body

/-- The context once the header lines are read. -/
def headersContext (r : HttpRequest) : HttpContext :=
  { doneContext r with state := .kExpectHeaders, body := [] }

/-- A carriage return is white space. -/
theorem isSpace_cr : isSpace 13 = true := by decide

/-- A token holds no carriage return. -/
theorem IsToken.cr_not_mem {w : Bytes} (h : IsToken w) : (13 : UInt8) ∉ w := fun hmem => by
  simpa [isSpace_cr] using h.2 13 hmem

/-- The request line has three words. -/
theorem streamWords_requestLine (r : HttpRequest) :
    streamWords r.requestLine = [r.method, r.path, r.version] := by
  obtain ⟨⟨hm, hms⟩, ⟨hp, hps⟩, hv, hvs⟩ := r.tokens
  rw [streamWords, requestLine, List.splitOnP_append_cons_of_forall_mem hms 32 rfl,
    List.splitOnP_append_cons_of_forall_mem hps 32 rfl, List.splitOnP_eq_singleton hvs]
  simp [hm, hp, hv]

/-- It has no CRLF in it. -/
theorem crlf_not_infix_requestLine (r : HttpRequest) : ¬ Buffer.kCRLF <:+: r.requestLine := by
  obtain ⟨hm, hp, hv⟩ := r.tokens
  refine Buffer.crlf_not_infix_of_not_mem ?_
  simp [requestLine, IsToken.cr_not_mem hm, IsToken.cr_not_mem hp, IsToken.cr_not_mem hv]

/-- A line ended by CR LF is read, in a state that expects one. -/
theorem drain_line {ctx : HttpContext}
    (hs : ctx.state = .kExpectRequestLine ∨ ctx.state = .kExpectHeaders) {line : Bytes}
    (hline : ¬ Buffer.kCRLF <:+: line) (rest : Bytes) :
    parser.drain ((false, ctx), line ++ Buffer.kCRLF ++ rest)
      = parser.drain (readLine ctx line, rest) := by
  have htake : (line ++ Buffer.kCRLF ++ rest).take line.length = line := by
    rw [List.append_assoc, List.take_left]
  have hdrop : (line ++ Buffer.kCRLF ++ rest).drop (line.length + 2) = rest :=
    List.drop_left' (by simp [Buffer.kCRLF])
  rw [drain_line_some hs (Buffer.findCRLF_line hline rest), htake, hdrop]

/-- The headers as they are stored. -/
def storedFields (headers : List (Bytes × Bytes)) : List (Bytes × Bytes) :=
  headers.map fun field => (field.1, withoutCR field.2)

/-- Reading header lines stores them. -/
theorem drain_fields {ctx : HttpContext} (hs : ctx.state = .kExpectHeaders)
    {headers : List (Bytes × Bytes)}
    (hfields : ∀ field ∈ headers, colon ∉ field.1 ∧ ¬ Buffer.kCRLF <:+: fieldLine field)
    (rest : Bytes) :
    parser.drain ((false, ctx),
        headers.flatMap (fun field => fieldLine field ++ Buffer.kCRLF) ++ rest)
      = parser.drain ((false, { ctx with
          headers := (storedFields headers).foldl (fun m field => m.insert field.1 field.2)
            ctx.headers }), rest) := by
  induction headers generalizing ctx with
  | nil => rfl
  | cons field headers ih =>
      obtain ⟨hcolon, hcrlf⟩ := hfields field List.mem_cons_self
      have hne : fieldLine field ≠ [] := by simp [fieldLine]
      have hstore : storeHeader ctx.headers (fieldLine field)
          = some (ctx.headers.insert field.1 (withoutCR field.2)) := by
        rw [fieldLine, storeHeader_of_not_endsAtColon (not_endsAtColon_field hcolon),
          withHeader_field _ hcolon]
      have hread : readLine ctx (fieldLine field)
          = (false, { ctx with headers := ctx.headers.insert field.1 (withoutCR field.2) }) := by
        rw [readLine, if_neg (by simp [hs]), if_neg hne, hstore]
      rw [List.flatMap_cons, List.append_assoc, drain_line (.inr hs) hcrlf, hread]
      exact ih hs fun field hf => hfields field (List.mem_cons_of_mem _ hf)

/-- A request's headers hold no CR, so that they are read and stored as they are. -/
theorem drain_headers {ctx : HttpContext} (hs : ctx.state = .kExpectHeaders) (r : HttpRequest)
    (rest : Bytes) :
    parser.drain ((false, ctx),
        r.headers.flatMap (fun field => fieldLine field ++ Buffer.kCRLF) ++ rest)
      = parser.drain ((false, { ctx with
          headers := r.headers.foldl (fun m field => m.insert field.1 field.2) ctx.headers }),
          rest) := by
  have hstored : storedFields r.headers = r.headers := by
    refine (List.map_congr_left fun field hfield => ?_).trans (List.map_id _)
    have hvalue : field.2.getLast? ≠ some 13 := fun hlast =>
      (r.fields field hfield).2 (List.mem_of_getLast? hlast)
    rw [withoutCR_eq_self_iff.mpr hvalue, id_eq]
  rw [drain_fields hs fun field hfield => ?_, hstored]
  obtain ⟨⟨hcolon, hname⟩, hvalue⟩ := r.fields field hfield
  refine ⟨hcolon, Buffer.crlf_not_infix_of_not_mem ?_⟩
  simp [fieldLine, hname, hvalue, colon]

/-- The empty line ends the headers. -/
theorem drain_blank {ctx : HttpContext} (hs : ctx.state = .kExpectHeaders) (rest : Bytes) :
    parser.drain ((false, ctx), Buffer.kCRLF ++ rest)
      = parser.drain ((false, { ctx with
          state := if ctx.contentLength.isSome then .kExpectBody else .kDone }), rest) := by
  have hline : parser.drain ((false, ctx), Buffer.kCRLF ++ rest)
      = parser.drain (readLine ctx [], rest) :=
    drain_line (.inr hs) (Buffer.crlf_not_infix_of_not_mem List.not_mem_nil) rest
  rw [hline, readLine, if_neg (by simp [hs]), if_pos rfl]

/-- **A well-formed request at the front of the buffer is parsed exactly**, whatever follows it. -/
theorem drain_request (r : HttpRequest) (rest : Bytes) :
    parser.drain ((false, {}), r.bytes ++ rest) = ((false, doneContext r), rest) := by
  have hlength := r.body_length
  -- The request line, the header lines, the blank line and then the body.
  have hrl : readLine {} r.requestLine = (false,
      { state := .kExpectHeaders, method := r.method, path := r.path, version := r.version }) := by
    rw [readLine, if_pos rfl, HttpContext.withRequestLine, streamWords_requestLine]
    rfl
  rw [bytes, List.append_assoc, drain_line (.inl rfl) (crlf_not_infix_requestLine r), hrl,
    List.append_assoc, drain_headers rfl]
  have hstate : (headersContext r).state = .kExpectHeaders := rfl
  rw [List.append_assoc]
  refine (drain_blank hstate (r.body ++ rest)).trans ?_
  have hcl : (headersContext r).contentLength
      = (headerMap r.headers).lookup (bytesOf "Content-Length") := rfl
  cases hlook : (headerMap r.headers).lookup (bytesOf "Content-Length") with
  | none =>
      -- without a length there is no body
      rw [hlook] at hlength hcl
      have hbody : r.body = [] := hlength
      rw [hcl, Option.isSome_none, if_neg Bool.false_ne_true, drain_done rfl, hbody]
      simp [headersContext, doneContext, hbody]
  | some value =>
      rw [hlook] at hlength hcl
      have hvalue : stoi value = some (r.body.length : ℤ) := hlength
      have hsize : toSize (r.body.length : ℤ) = r.body.length := toSize_natCast (stoi_lt hvalue)
      have hread : stoi (({ headersContext r with state := .kExpectBody } :
          HttpContext).contentLength.getD []) = some (r.body.length : ℤ) := by
        show stoi ((headersContext r).contentLength.getD []) = _
        rw [hcl, Option.getD_some, hvalue]
      have hle : r.body.length ≤ (r.body ++ rest).length := by
        rw [List.length_append]
        omega
      rw [hcl, Option.isSome_some, if_pos rfl, drain_body rfl, readBody, hread]
      simp only [hsize, List.take_left, List.drop_left, if_pos hle, Option.getD_some]
      rfl

/-- A request received in part is not parsed yet. -/
theorem drain_part (r : HttpRequest) {part rest : Bytes} (hpart : part ++ rest = r.bytes)
    (hrest : rest ≠ []) :
    ∃ ctx buf, parser.drain ((false, {}), part) = ((false, ctx), buf) ∧ ctx.state ≠ .kDone := by
  have hwhole := drain_request r []
  rw [List.append_nil, ← hpart, Consumer.drain_append] at hwhole
  generalize parser.drain ((false, {}), part) = q at hwhole
  obtain ⟨⟨threw, ctx⟩, buf⟩ := q
  cases threw with
  | true =>
      rw [drain_threw] at hwhole
      cases hwhole
  | false =>
      refine ⟨ctx, buf, rfl, fun hdone => hrest ?_⟩
      rw [drain_done hdone] at hwhole
      exact (List.append_eq_nil_iff.mp (congrArg Prod.snd hwhole)).2

/-! ## `OnMessage` before a request is complete -/

variable {σ : Type*} {h : ProtocolHandler σ} {f : StreamHandler σ}

/-- Without an exception a call is entered as it stands. -/
theorem enter_of_thrown_eq_none {s : Session σ} (hs : s.thrown = none) : s.enter = s := by
  obtain ⟨app, consumed, calls, dispatched, thrown⟩ := s
  cases hs
  rfl

/-- The first read comes before all the others. -/
theorem receiveAll_cons (p : Session σ × HttpContext × Buffer) (read : Bytes) (reads : List Bytes)
    (hp : p.1.thrown = none) :
    receiveAll h p (read :: reads) = receiveAll h (onMessage h (p.1, p.2.1, p.2.2 ++ read)) reads := by
  rw [receiveAll, List.foldl_cons, hp]
  rfl

/-- The number of reads from the one that brings the `n`-th byte on. -/
def readsFrom (n : ℕ) : List Bytes → ℕ
  | [] => 0
  | read :: reads => if n ≤ read.length then reads.length + 1 else readsFrom (n - read.length) reads

/-- **Up to the read that completes it, a request only moves the parser.** From that read on the
calls find the context in `kDone`. -/
theorem receiveAll_request (r : HttpRequest) {part more : Bytes} {reads : List Bytes}
    {s : Session σ} (hs : s.thrown = none) {ctx : HttpContext} {buf : Buffer}
    (hdrain : parser.drain ((false, {}), part) = ((false, ctx), buf))
    (hlt : part.length < r.bytes.length) (heq : part ++ reads.flatten = r.bytes ++ more) :
    ∃ extra after, readsFrom (r.bytes.length - part.length) reads = after.length + 1 ∧
      extra ++ after.flatten = more ∧
      receiveAll h (s, ctx, buf) reads = receiveAll h (s, doneContext r, extra) ([] :: after) := by
  -- Induction on the reads; `part` is what the parser has been fed of this request.
  induction reads generalizing part ctx buf with
  | nil =>
      have hlen := congrArg List.length heq
      simp only [List.flatten_nil, List.append_nil, List.length_append] at hlen
      omega
  | cons read reads ih =>
      rw [List.flatten_cons, ← List.append_assoc] at heq
      have hnext : parser.drain ((false, {}), part ++ read)
          = parser.drain ((false, ctx), buf ++ read) := by
        rw [Consumer.drain_append, hdrain]
      have hwhole : r.bytes <+: part ++ read ++ reads.flatten := ⟨more, heq.symm⟩
      by_cases hle : r.bytes.length ≤ part.length + read.length
      · -- the request ends in this read
        obtain ⟨extra, hextra⟩ : r.bytes <+: part ++ read :=
          List.prefix_of_prefix_length_le hwhole (List.prefix_append _ _)
            (by rwa [List.length_append])
        refine ⟨extra, reads, ?_, ?_, ?_⟩
        · rw [readsFrom, if_pos (by omega)]
        · rw [← hextra, List.append_assoc] at heq
          exact List.append_cancel_left heq
        · have hdone : parser.drain ((false, ctx), buf ++ read) = ((false, doneContext r), extra) := by
            rw [← hnext, ← hextra, drain_request]
          have hparse : parseRequest (ctx, buf ++ read) = parseRequest (doneContext r, extra ++ []) := by
            rw [parseRequest_eq, parseRequest_eq, hdone, List.append_nil, drain_done rfl]
          rw [receiveAll_cons _ _ _ hs, receiveAll_cons _ _ _ hs, onMessage, onMessage, hparse]
      · -- a part of it is still missing
        obtain ⟨rest, hrest⟩ : part ++ read <+: r.bytes :=
          List.prefix_of_prefix_length_le (List.prefix_append _ _) hwhole
            (by rw [List.length_append]; omega)
        have hne : rest ≠ [] := fun hr => by
          have hlen := congrArg List.length hrest
          rw [hr, List.append_nil, List.length_append] at hlen
          omega
        obtain ⟨ctx', buf', hdrain', hstate⟩ := drain_part r hrest hne
        have hparse : parseRequest (ctx, buf ++ read) = (.incomplete, ctx', buf') := by
          rw [parseRequest_eq, ← hnext, hdrain']
          simp [report, hstate]
        obtain ⟨extra, after, hfrom, hmore, hrun⟩ :=
          ih hdrain' (by rw [List.length_append]; omega) heq
        refine ⟨extra, after, ?_, hmore, ?_⟩
        · rw [readsFrom, if_neg (by omega), ← hfrom, List.length_append]
          congr 1
          omega
        · rw [receiveAll_cons _ _ _ hs, onMessage, hparse, ← hrun]
          simp only [enter_of_thrown_eq_none hs]

/-! ## `OnMessage` once the request is complete -/

/-- The number of allowed answers among `n` calls of `CheckRateLimit`, the first of them its `k`-th.
-/
def allowedAnswers (h : ProtocolHandler σ) (k n : ℕ) : ℕ :=
  ((List.range' k n).filter h.checkRateLimit).length

/-- How many of some requests are allowed, counted from the first. -/
theorem allowedAnswers_succ (k n : ℕ) :
    allowedAnswers h k (n + 1)
      = (if h.checkRateLimit k then 1 else 0) + allowedAnswers h (k + 1) n := by
  rw [allowedAnswers, allowedAnswers, List.range'_succ, List.filter_cons]
  split <;> simp [Nat.add_comm]

/-- The stream handler throws nothing but what `OnMessage` catches. -/
def Caught (f : StreamHandler σ) : Prop := ∀ app req resp, (f app req resp).thrown ≠ some .other

/-- Dispatching calls the stream handler once. -/
theorem dispatch_spec (hf : h.streamHandler = some f) (s : Session σ) (ctx : HttpContext) :
    (dispatch h s ctx).dispatched = s.dispatched ++ [envelope ctx] ∧
      (dispatch h s ctx).consumed = s.consumed ∧
      (Caught f → s.thrown = none → (dispatch h s ctx).thrown = none) := by
  unfold dispatch
  simp only [hf]
  split
  · next hthrown => exact ⟨rfl, rfl, fun _ hs => hs⟩
  · next hthrown => exact ⟨rfl, rfl, fun _ hs => hs⟩
  · next hthrown => exact ⟨rfl, rfl, fun hcaught _ => absurd hthrown (hcaught _ _ _)⟩

/-- Nothing is received after an exception. -/
theorem receiveAll_of_thrown {p : Session σ × HttpContext × Buffer} (hp : p.1.thrown.isSome)
    (reads : List Bytes) : receiveAll h p reads = p := by
  induction reads with
  | nil => rfl
  | cons read reads ih => rw [receiveAll, List.foldl_cons, if_pos hp]; exact ih

/-- In `kDone` a call asks the rate limiter and dispatches the request in the context again. -/
theorem onMessage_done {ctx : HttpContext} (hdone : ctx.state = .kDone) {s : Session σ}
    (hs : s.thrown = none) (buf : Buffer) :
    onMessage h (s, ctx, buf) =
      if h.checkRateLimit s.consumed then (dispatch h s.consume ctx, ctx, buf)
      else (s.consume.push (sendResponse 429 (bytesOf "Too Many Requests") ++ [.shutdown]), ctx,
        buf) := by
  rw [onMessage, parseRequest_done hdone]
  simp only [enter_of_thrown_eq_none hs]

/-- **In `kDone` every allowed call dispatches the same request once more**, until the handler
throws something `OnMessage` does not catch; and nothing is read any more. -/
theorem receiveAll_done (hf : h.streamHandler = some f) {ctx : HttpContext}
    (hdone : ctx.state = .kDone) {s : Session σ} (hs : s.thrown = none) (buf : Buffer)
    (reads : List Bytes) :
    ∃ n, (receiveAll h (s, ctx, buf) reads).1.dispatched
          = s.dispatched ++ List.replicate n (envelope ctx) ∧
      n ≤ allowedAnswers h s.consumed reads.length ∧
      (0 < allowedAnswers h s.consumed reads.length → 0 < n) ∧
      (receiveAll h (s, ctx, buf) reads).2.2 <+: buf ++ reads.flatten ∧
      (Caught f → n = allowedAnswers h s.consumed reads.length ∧
        (receiveAll h (s, ctx, buf) reads).2.2 = buf ++ reads.flatten) := by
  -- Induction on the reads: the parser stays at the end of the first request, so each read answers
  -- it again.
  induction reads generalizing s buf with
  | nil => exact ⟨0, by simp [receiveAll, allowedAnswers]⟩
  | cons read reads ih =>
      rw [receiveAll_cons _ _ _ hs, onMessage_done hdone hs, List.length_cons, allowedAnswers_succ,
        List.flatten_cons, ← List.append_assoc]
      by_cases hlimit : h.checkRateLimit s.consumed
      · rw [if_pos hlimit, if_pos hlimit]
        obtain ⟨hd, hc, hcaught⟩ := dispatch_spec hf s.consume ctx
        cases hthrown : (dispatch h s.consume ctx).thrown with
        | some e =>
            -- an exception ends the connection's calls
            rw [receiveAll_of_thrown (by rw [hthrown]; rfl)]
            refine ⟨1, by rw [hd]; rfl, by omega, fun _ => Nat.one_pos, List.prefix_append _ _, ?_⟩
            intro hcf
            rw [hcaught hcf hs] at hthrown
            cases hthrown
        | none =>
            obtain ⟨n, hn, hle, -, hbuf, hcf⟩ := ih hthrown (buf ++ read)
            rw [hc, Session.consume_consumed] at hle hcf
            refine ⟨1 + n, ?_, by omega, fun _ => by omega, hbuf, fun hc' => ?_⟩
            · rw [hn, hd, Session.consume_dispatched, List.append_assoc, List.replicate_add]
              rfl
            · exact ⟨by rw [(hcf hc').1], (hcf hc').2⟩
      · rw [if_neg hlimit, if_neg hlimit, Nat.zero_add]
        obtain ⟨n, hn, hrest⟩ := ih
          (s := s.consume.push (sendResponse 429 (bytesOf "Too Many Requests") ++ [.shutdown]))
          hs (buf ++ read)
        exact ⟨n, hn, hrest⟩

/-! ## Every request once -/

/-- Each of the requests was dispatched once, in order, and all their bytes were read. -/
def DispatchedOnce (h : ProtocolHandler σ) (app : σ) (requests : List HttpRequest)
    (reads : List Bytes) : Prop :=
  (receiveAll h ({ app }, {}, []) reads).1.dispatched = requests.map HttpRequest.envelope ∧
    (receiveAll h ({ app }, {}, []) reads).2.2 = []

/-- There is no request, or one, and exactly one of the `CheckRateLimit` calls made from the read
that completes it on is answered "allowed". -/
def AtMostOneRequest (limiter : Option (ℕ → Bool)) (requests : List HttpRequest)
    (reads : List Bytes) : Prop :=
  requests = [] ∨ ∃ r, requests = [r] ∧
    allowedAnswers ({ rateLimiter := limiter } : ProtocolHandler Unit) 0
      (readsFrom r.bytes.length reads) = 1

/-- The handler the requests are passed to. -/
def handlerOf (limiter : Option (ℕ → Bool)) (f : StreamHandler σ) : ProtocolHandler σ where
  streamHandler := some f
  rateLimiter := limiter

/-- Without bytes nothing is parsed. -/
theorem receiveAll_empty (app : σ) {reads : List Bytes} (hreads : reads.flatten = []) :
    receiveAll h ({ app }, {}, []) reads = ({ app }, {}, []) := by
  induction reads with
  | nil => rfl
  | cons read reads ih =>
      obtain ⟨rfl, hrest⟩ := List.append_eq_nil_iff.mp hreads
      rw [receiveAll_cons _ _ _ rfl]
      exact ih hrest

/-- No request is empty. -/
theorem bytes_ne_nil (r : HttpRequest) : r.bytes ≠ [] := by
  simp [HttpRequest.bytes, HttpRequest.requestLine]

/-- The read that completes the first request is reached, and what follows it stays unread. -/
theorem receiveAll_first (app : σ) {r : HttpRequest} {rs : List HttpRequest} {reads : List Bytes}
    (hreads : reads.flatten = (r :: rs).flatMap HttpRequest.bytes) :
    ∃ extra after, readsFrom r.bytes.length reads = after.length + 1 ∧
      extra ++ after.flatten = rs.flatMap HttpRequest.bytes ∧
      receiveAll h ({ app }, {}, []) reads
        = receiveAll h ({ app }, doneContext r, extra) ([] :: after) := by
  have hstart : parser.drain ((false, {}), []) = ((false, {}), []) :=
    drain_line_none (.inl rfl) rfl
  exact receiveAll_request r (s := { app }) rfl hstart (List.length_pos_iff.mpr (bytes_ne_nil r))
    (by rw [List.nil_append, hreads, List.flatMap_cons])

/-- With at most one request for each read, each is dispatched once. -/
theorem dispatchedOnce_of_atMostOne {limiter : Option (ℕ → Bool)} (f : StreamHandler σ) (app : σ)
    {requests : List HttpRequest} {reads : List Bytes}
    (hreads : reads.flatten = requests.flatMap HttpRequest.bytes)
    (hone : AtMostOneRequest limiter requests reads) :
    DispatchedOnce (handlerOf limiter f) app requests reads := by
  obtain rfl | ⟨r, rfl, hanswers⟩ := hone
  · rw [DispatchedOnce, receiveAll_empty app hreads]
    exact ⟨rfl, rfl⟩
  · obtain ⟨extra, after, hfrom, hmore, hrun⟩ := receiveAll_first app hreads
    obtain ⟨rfl, hafter⟩ := List.append_eq_nil_iff.mp hmore
    obtain ⟨n, hn, hle, hpos, hbuf, -⟩ :=
      receiveAll_done (h := handlerOf limiter f) rfl (rfl : (doneContext r).state = .kDone)
        (s := { app }) rfl [] ([] :: after)
    rw [hfrom] at hanswers
    have hallowed : allowedAnswers (handlerOf limiter f) 0 (after.length + 1) = 1 := hanswers
    rw [List.length_cons, hallowed] at hle hpos
    obtain rfl : n = 1 := by omega
    rw [DispatchedOnce, hrun]
    exact ⟨hn, by simpa [hafter] using hbuf⟩

/-- And only then. -/
theorem atMostOne_of_dispatchedOnce {limiter : Option (ℕ → Bool)} {f : StreamHandler σ}
    (hcaught : Caught f) (app : σ) {requests : List HttpRequest} {reads : List Bytes}
    (hreads : reads.flatten = requests.flatMap HttpRequest.bytes)
    (honce : DispatchedOnce (handlerOf limiter f) app requests reads) :
    AtMostOneRequest limiter requests reads := by
  cases requests with
  | nil => exact .inl rfl
  | cons r rs =>
      obtain ⟨extra, after, hfrom, hmore, hrun⟩ := receiveAll_first app hreads
      -- once the first request is complete every read dispatches it again
      obtain ⟨n, hn, -, -, -, hexact⟩ :=
        receiveAll_done (h := handlerOf limiter f) rfl (rfl : (doneContext r).state = .kDone)
          (s := { app }) rfl extra ([] :: after)
      obtain ⟨hcount, hunread⟩ := hexact hcaught
      rw [DispatchedOnce, hrun, hn, hunread, List.flatten_cons, List.nil_append, List.nil_append,
        hmore] at honce
      obtain ⟨hdispatched, hrest⟩ := honce
      -- the bytes of a second request would stay unread
      have hrs : rs = [] := by
        cases rs with
        | nil => rfl
        | cons r' rs =>
            rw [List.flatMap_cons, List.append_eq_nil_iff] at hrest
            exact absurd hrest.1 (bytes_ne_nil r')
      subst hrs
      obtain rfl : n = 1 := by simpa using congrArg List.length hdispatched
      refine .inr ⟨r, rfl, ?_⟩
      rw [hfrom]
      exact hcount.symm

/-- **Keep-alive holds exactly for at most one request**, answered once by the rate limiter: with
every stream handler then, and otherwise with none whose exceptions are caught. -/
theorem keep_alive_iff (limiter : Option (ℕ → Bool)) (app : σ) {requests : List HttpRequest}
    {reads : List Bytes} (hreads : reads.flatten = requests.flatMap HttpRequest.bytes) :
    ((∀ f, DispatchedOnce (handlerOf limiter f) app requests reads) ↔
        AtMostOneRequest limiter requests reads) ∧
      ∀ f, Caught f → (DispatchedOnce (handlerOf limiter f) app requests reads ↔
        AtMostOneRequest limiter requests reads) := by
  have hiff (f : StreamHandler σ) (hcaught : Caught f) :
      DispatchedOnce (handlerOf limiter f) app requests reads ↔
        AtMostOneRequest limiter requests reads :=
    ⟨atMostOne_of_dispatchedOnce hcaught app hreads, dispatchedOnce_of_atMostOne f app hreads⟩
  refine ⟨⟨fun hall => ?_, fun hone f => dispatchedOnce_of_atMostOne f app hreads hone⟩, hiff⟩
  exact (hiff (fun app _ resp => { app, resp }) fun _ _ _ => by simp).mp (hall _)

/-- The request `GET / HTTP/1.1` with one header. -/
def getRequest : HttpRequest where
  method := bytesOf "GET"
  path := bytesOf "/"
  version := bytesOf "HTTP/1.1"
  headers := [(bytesOf "Host", bytesOf "a")]
  body := []
  tokens := by decide +kernel
  fields := by decide +kernel
  body_length := rfl

/-- One request in one read, without a rate limiter. -/
theorem keep_alive_iff_get :
    let f : StreamHandler ℕ := fun n _ resp => { app := n + 1, resp }
    DispatchedOnce (handlerOf none f) 0 [getRequest] [getRequest.bytes] ↔
      AtMostOneRequest none [getRequest] [getRequest.bytes] := by
  have hreads : [getRequest.bytes].flatten = [getRequest].flatMap HttpRequest.bytes := by simp
  exact (keep_alive_iff none 0 hreads).2 _ fun _ _ _ => by simp

/-- Two requests back to back in one read: only the first of them is dispatched. -/
theorem keep_alive_fails_on_two :
    let f : StreamHandler ℕ := fun n _ resp => { app := n + 1, resp }
    ¬ DispatchedOnce (handlerOf none f) 0 [getRequest, getRequest]
      [getRequest.bytes ++ getRequest.bytes] := by
  rintro f ⟨hdispatched, -⟩
  have hlen := congrArg List.length hdispatched
  revert hlen
  decide

end HttpHandler

end NetworkLib
