import NetworkLib.Client.HttpProtocol
import NetworkLib.Protocols.HttpAnswer

/-! # An HTTP response read by the client

The server writes the payload of a response as a chunk; the client takes what follows the header for
the body, as far as it was received, and delivers it at once. For no payload and no way of cutting
the response does the client deliver the payload and nothing else. -/

namespace NetworkLib

namespace HttpClientProtocol

open Handshake (headerEnd)

/-! ## The end of the header -/

/-- Before an end of the header there is a CR LF. -/
theorem findCRLF_of_search {buf : Buffer} {i : ℕ} (h : search headerEnd buf = some i) :
    (Buffer.findCRLF buf).isSome := by
  have hcrlf : Buffer.kCRLF <+: buf.drop i :=
    (List.prefix_append _ _).trans (prefix_drop_of_search h)
  obtain ⟨j, -, hj⟩ := search_of_prefix_drop hcrlf (by decide)
  rw [Buffer.findCRLF, hj, Option.isSome_some]

/-! ## One call -/

variable {τ : Type*} (g : MessageHandler τ)

/-- **What a call of `OnDataReceived` does**: it waits, it delivers what follows the header, or an
exception leaves it. -/
theorem onDataReceived_cases (s : ClientSession τ) (buf : Buffer) (beyond : Bytes) :
    let p := onDataReceived (some g) (s, buf) beyond
    (p = (s, buf) ∧ ((0 : UInt8) ∉ buf → search headerEnd buf = none)) ∨
      (∃ i, search headerEnd buf = some i ∧
        p.1.delivered = s.delivered ++ [envelope (buf.drop (i + 4))] ∧
        (p.1.thrown = none → p.2 = [])) ∨
      p.1.thrown ≠ none := by
  intro p
  cases hcrlf : Buffer.findCRLF buf with
  | none =>
      -- there is no CRLF at all
      refine .inl ⟨by simp only [p, onDataReceived, hcrlf], fun _ => ?_⟩
      by_contra hsome
      obtain ⟨i, hi⟩ := Option.ne_none_iff_exists'.mp hsome
      have hfound := findCRLF_of_search hi
      rw [hcrlf] at hfound
      cases hfound
  | some k =>
      cases hstrstr : strstr (buf ++ beyond) headerEnd with
      | none =>
          -- the search may have ended at a zero byte
          refine .inl ⟨by simp only [p, onDataReceived, hcrlf, hstrstr], fun hnul => ?_⟩
          by_contra hsome
          obtain ⟨i, hi⟩ := Option.ne_none_iff_exists'.mp hsome
          rw [strstr_of_search hnul beyond hi] at hstrstr
          cases hstrstr
      | some i =>
          by_cases hi : i + 4 ≤ buf.length
          · refine .inr (.inl ⟨i, search_of_strstr hstrstr hi, ?_, ?_⟩)
            · simp only [p, onDataReceived, hcrlf, hstrstr, if_pos hi, apply_ite Prod.fst,
                ite_self]
              rfl
            · simp only [p, onDataReceived, hcrlf, hstrstr, if_pos hi]
              split
              · next hthrown => intro hnone; rw [hnone] at hthrown; cases hthrown
              · exact fun _ => rfl
          · -- the blank line was found behind the readable bytes
            refine .inr (.inr ?_)
            simp [p, onDataReceived, hcrlf, hstrstr, if_neg hi]

/-! ## The reads of one response -/

/-- What the client did with the bytes received so far, unless an exception left a call: it waits
for the end of the header, or it delivered what it had read behind it and holds what came later, or
it delivered more than once. -/
def ReadSoFar (header bs : Bytes) (p : ClientSession τ × Buffer) : Prop :=
  p.1.thrown ≠ none ∨ (p.1.delivered = [] ∧ p.2 = bs) ∨
    (∃ body later, bs = header ++ body ++ later ∧ p.1.delivered = [envelope body] ∧ p.2 = later ∧
      ((0 : UInt8) ∉ later → search headerEnd later = none)) ∨
    2 ≤ p.1.delivered.length

variable {header bs : Bytes} {k : ℕ} {p : ClientSession τ × Buffer}

/-- An end of the header among the bytes of a message is that of its header. -/
theorem header_of_search (hheader : search headerEnd header = some k)
    (hlen : header.length = k + 4) (hbegin : bs <+: header ∨ header <+: bs) {i : ℕ}
    (h : search headerEnd bs = some i) : ∃ body, bs = header ++ body ∧ bs.drop (i + 4) = body := by
  have hle : i + 4 ≤ bs.length := search_add_length_le h
  have hfound : header <+: bs ∧ i = k := by
    rcases hbegin with hbs | ⟨body, rfl⟩
    · obtain ⟨rest, hrest⟩ := hbs
      have hi : i = k := by
        rw [← hrest, search_append rest h, Option.some_inj] at hheader
        exact hheader
      have heq : bs = header := List.IsPrefix.eq_of_length_le ⟨rest, hrest⟩ (by omega)
      exact ⟨heq ▸ List.prefix_rfl, hi⟩
    · rw [search_append body hheader, Option.some_inj] at h
      exact ⟨List.prefix_append header body, h.symm⟩
  obtain ⟨⟨body, rfl⟩, rfl⟩ := hfound
  exact ⟨body, rfl, by rw [← hlen, List.drop_left]⟩

/-- One read of a response. -/
theorem readSoFar_step (hheader : search headerEnd header = some k) (hlen : header.length = k + 4)
    (h : ReadSoFar header bs p) (hthrown : p.1.thrown = none) (read beyond : Bytes)
    (hbegin : bs ++ read <+: header ∨ header <+: bs ++ read) :
    ReadSoFar header (bs ++ read)
      (onDataReceived (some g) (p.1, Buffer.append p.2 read) beyond) := by
  rw [Buffer.append_eq]
  obtain ⟨s, buf⟩ := p
  -- The call waits, delivers or throws; what it did before tells which of the states comes next.
  have hcall := onDataReceived_cases g s (buf ++ read) beyond
  set c := onDataReceived (some g) (s, buf ++ read) beyond with hc
  rcases hcall with ⟨hsame, hwait⟩ | ⟨i, hi, hdelivered, hempty⟩ | hthrew
  · rw [hsame]
    rcases h with h | ⟨hnone, hbuf⟩ | ⟨body, later, rfl, hbody, hbuf, -⟩ | htwo
    · exact absurd hthrown h
    · refine .inr (.inl ⟨hnone, ?_⟩)
      rw [← hbuf]
    · subst hbuf
      refine .inr (.inr (.inl ⟨body, buf ++ read, ?_, hbody, rfl, hwait⟩))
      rw [List.append_assoc]
    · exact .inr (.inr (.inr htwo))
  · by_cases hthrew : c.1.thrown = none
    · rcases h with h | ⟨hnone, hbuf⟩ | ⟨body, later, -, hbody, -, -⟩ | htwo
      · exact absurd hthrown h
      · -- the first delivery is what was read behind the header
        subst hbuf
        obtain ⟨body, hbs, hdrop⟩ := header_of_search hheader hlen hbegin hi
        refine .inr (.inr (.inl ⟨body, [], ?_, ?_, hempty hthrew, fun _ => rfl⟩))
        · rw [List.append_nil]
          exact hbs
        · rw [hdelivered, hdrop, hnone, List.nil_append]
      · refine .inr (.inr (.inr ?_))
        rw [hdelivered, hbody, List.length_append]
        exact le_rfl
      · refine .inr (.inr (.inr ?_))
        rw [hdelivered, List.length_append]
        exact Nat.le_add_right_of_le htwo
    · exact .inl hthrew
  · exact .inl hthrew

/-- **The reads of a response.** -/
theorem readSoFar_receiveAll (hheader : search headerEnd header = some k)
    (hlen : header.length = k + 4) (app : τ) (reads : List (Bytes × Bytes))
    (hbegin : header <+: (reads.map Prod.fst).flatten) :
    ReadSoFar header (reads.map Prod.fst).flatten
      (receiveAll (some g) ({ app }, []) reads) := by
  have hall : ∀ before, before <+: reads → ReadSoFar header (before.map Prod.fst).flatten
      (receiveAll (some g) ({ app }, []) before) := by
    intro before
    induction before using List.reverseRecOn with
    | nil => exact fun _ => .inr (.inl ⟨rfl, rfl⟩)
    | append_singleton before read ih =>
        intro hbefore
        have hreceived := ih ((List.prefix_append before [read]).trans hbefore)
        rw [receiveAll_snoc, List.map_append, List.flatten_append, List.map_singleton,
          List.flatten_singleton]
        by_cases hthrown : (receiveAll (some g) ({ app }, []) before).1.thrown = none
        · rw [if_neg (by rw [hthrown]; exact Bool.false_ne_true)]
          refine readSoFar_step g hheader hlen hreceived hthrown read.1 read.2 ?_
          -- the bytes so far are a front of the response
          have hfront : (before.map Prod.fst).flatten ++ read.1 <+: (reads.map Prod.fst).flatten := by
            obtain ⟨rest, rfl⟩ := hbefore
            simp
          exact List.prefix_or_prefix_of_prefix hfront hbegin
        · rw [if_pos (Option.isSome_iff_ne_none.mpr hthrown)]
          exact .inl hthrown
  exact hall reads List.prefix_rfl

/-! ## A response with one payload -/

/-- The bytes of a response with this payload. -/
def response (payload : Bytes) : Bytes :=
  HttpStreamContext.head ++ (HttpStreamContext.chunk payload ++ HttpStreamContext.lastChunk)

/-- A stream handler that answers with a payload makes the server send that response. -/
theorem sentBytes_response {σ : Type*} (h : ProtocolHandler σ) {f : StreamHandler σ}
    {payload : Bytes} (hf : Answers f payload) (s : Session σ) (ctx : HttpContext) :
    sentBytes (HttpHandler.dispatch { h with streamHandler := some f } s ctx).calls
      = sentBytes s.calls ++ response payload := by
  obtain ⟨hresp, hcalls, hthrown⟩ := hf s.app (HttpHandler.envelope ctx)
  set run := f s.app (HttpHandler.envelope ctx) {} with hrun
  have hcontext : HttpHandler.contextCalls run = [.write run.resp] ++ .close :: [] := by
    rw [HttpHandler.contextCalls, hcalls, if_pos ⟨hthrown, by rw [hresp]; rfl⟩]
    rfl
  have hfailed : HttpHandler.failed run = false := by
    rw [HttpHandler.failed, hthrown]
    rfl
  have hdata : (ContextCall.write run.resp).data = payload := by
    rw [ContextCall.data, StreamEnvelope.getPayload, hresp]
    rfl
  have hwrite : .close ∉ [ContextCall.write run.resp] := by simp
  rw [HttpHandler.sentBytes_dispatch, ← hrun, hcontext, hfailed, HttpHandler.answer,
    if_neg Bool.false_ne_true, List.append_nil,
    HttpStreamContext.sent_closed hwrite (List.cons_ne_nil _ _),
    (HttpStreamContext.sent_first_writes hwrite (List.cons_ne_nil _ _)).2, response,
    List.map_singleton, List.flatMap_singleton, hdata, List.append_assoc]
  rfl

/-- The chunk and the last chunk, when the payload is a front of them, hold no NUL. -/
theorem nul_not_mem_chunks {payload later : Bytes} (hne : payload ≠ [])
    (h : payload ++ later = HttpStreamContext.chunk payload ++ HttpStreamContext.lastChunk) :
    (0 : UInt8) ∉ HttpStreamContext.chunk payload ++ HttpStreamContext.lastChunk := by
  have hchunk : HttpStreamContext.chunk payload
      = printed 16 payload.length ++ Buffer.kCRLF ++ payload ++ Buffer.kCRLF := by
    rw [HttpStreamContext.chunk, if_neg (by simpa using hne)]
  have hdigits : ∀ b ∈ printed 16 payload.length, b ≠ 0 :=
    forall_mem_printed (by decide) (fun d hd => by interval_cases d <;> decide) _
  have hcrlf : ∀ b ∈ Buffer.kCRLF, b ≠ 0 := by decide +kernel
  have hsize : ∀ b ∈ printed 16 payload.length ++ Buffer.kCRLF, b ≠ 0 := by
    rw [List.forall_mem_append]
    exact ⟨hdigits, hcrlf⟩
  have hgoesOn : payload <+: printed 16 payload.length ++ Buffer.kCRLF ++ payload ++
      (Buffer.kCRLF ++ HttpStreamContext.lastChunk) := by
    refine ⟨later, ?_⟩
    rw [h, hchunk, List.append_assoc]
  have hpayload : ∀ b ∈ payload, b ≠ 0 :=
    forall_mem_of_prefix_append (by simp [printed_ne_nil]) hsize hgoesOn
  have hlast : ∀ b ∈ HttpStreamContext.lastChunk, b ≠ 0 := by decide +kernel
  intro hnul
  rw [hchunk, List.mem_append, List.mem_append, List.mem_append] at hnul
  rcases hnul with ((hnul | hnul) | hnul) | hnul
  · exact hsize 0 hnul rfl
  · exact hpayload 0 hnul rfl
  · exact hcrlf 0 hnul rfl
  · exact hlast 0 hnul rfl

/-- What follows the payload in them then has an end of a header. -/
theorem search_later {payload later : Bytes} (hne : payload ≠ [])
    (h : payload ++ later = HttpStreamContext.chunk payload ++ HttpStreamContext.lastChunk) :
    search headerEnd later ≠ none := by
  have hlen : headerEnd.length ≤ later.length := by
    have hlength := congrArg List.length h
    rw [HttpStreamContext.chunk, if_neg (by simpa using hne)] at hlength
    simp only [List.length_append] at hlength
    have hlast : HttpStreamContext.lastChunk.length = 5 := by decide
    have hend : headerEnd.length = 4 := by decide
    omega
  have hsuffix : headerEnd <:+ later := by
    have hend : headerEnd <:+ payload ++ later := by
      rw [h]
      exact ⟨HttpStreamContext.chunk payload ++ bytesOf "0", by rw [List.append_assoc]; rfl⟩
    exact List.suffix_of_suffix_length_le hend (List.suffix_append _ _) hlen
  obtain ⟨front, rfl⟩ := hsuffix
  have hstands : headerEnd <+: (front ++ headerEnd).drop front.length := by
    rw [List.drop_left]
  obtain ⟨i, -, hi⟩ := search_of_prefix_drop hstands (by decide)
  rw [hi]
  exact Option.some_ne_none i

/-- **The client never delivers the payload once, and nothing else.** -/
theorem not_delivers {payload : Bytes} (hne : payload ≠ []) (app : τ)
    {reads : List (Bytes × Bytes)} (hreads : (reads.map Prod.fst).flatten = response payload) :
    ¬ ((receiveAll (some g) ({ app }, []) reads).1.thrown = none ∧
      (receiveAll (some g) ({ app }, []) reads).1.delivered.map
        (fun m => m.getPayload.data) = [payload]) := by
  rintro ⟨hthrown, hdelivered⟩
  have hheader : search headerEnd HttpStreamContext.head = some 67 := by decide
  have hbegin : HttpStreamContext.head <+: (reads.map Prod.fst).flatten := by
    rw [hreads]
    exact List.prefix_append _ _
  -- What the client has done so far is one of four things, and none of them is the payload once.
  have hreceived := readSoFar_receiveAll g hheader (by decide) app reads hbegin
  rcases hreceived with hthrew | ⟨hnone, -⟩ | ⟨body, later, hbs, hbody, -, hwait⟩ | htwo
  · exact hthrew hthrown
  · rw [hnone] at hdelivered
    cases hdelivered
  · -- the payload was read behind the header, and what follows it was not delivered
    rw [hbody] at hdelivered
    obtain rfl : body = payload := List.head_eq_of_cons_eq hdelivered
    have hchunks : body ++ later = HttpStreamContext.chunk body ++ HttpStreamContext.lastChunk := by
      rw [hreads, response, List.append_assoc, List.append_cancel_left_eq] at hbs
      exact hbs.symm
    refine search_later hne hchunks (hwait fun hnul => nul_not_mem_chunks hne hchunks ?_)
    rw [← hchunks]
    exact List.mem_append_right body hnul
  · have hlength := congrArg List.length hdelivered
    rw [List.length_map, List.length_singleton] at hlength
    omega

end HttpClientProtocol

/-- **HTTP responses between the server and its client.** For a response with a payload that is not
empty and every way of cutting it into reads, whatever stands in memory behind the bytes read:
either an exception leaves a call of `OnDataReceived`, or what is delivered is not the payload once.
-/
theorem http_response_not_delivered {σ τ : Type*} (h : ProtocolHandler σ) {f : StreamHandler σ}
    {payload : Bytes} (hf : Answers f payload) (hne : payload ≠ []) (s : Session σ)
    (ctx : HttpContext) (g : MessageHandler τ) (app : τ) {reads : List (Bytes × Bytes)}
    (hreads : sentBytes (HttpHandler.dispatch { h with streamHandler := some f } s ctx).calls
      = sentBytes s.calls ++ (reads.map Prod.fst).flatten) :
    ¬ ((HttpClientProtocol.receiveAll (some g) ({ app }, []) reads).1.thrown = none ∧
      (HttpClientProtocol.receiveAll (some g) ({ app }, []) reads).1.delivered.map
        (fun m => m.getPayload.data) = [payload]) := by
  rw [HttpClientProtocol.sentBytes_response h hf, List.append_cancel_left_eq] at hreads
  exact HttpClientProtocol.not_delivers g hne app hreads.symm

/-- A payload of two lines, in reads cut inside the header and inside the chunk, with other bytes in
memory behind the first. -/
theorem http_response_not_delivered_cut :
    let payload := bytesOf "two\r\nlines"
    let bytes := HttpClientProtocol.response payload
    let reads := [(bytes.take 40, [7]), ((bytes.drop 40).take 34, []), ((bytes.drop 40).drop 34, [])]
    ¬ ((HttpClientProtocol.receiveAll (some ignore) ({ app := () }, []) reads).1.thrown = none ∧
      (HttpClientProtocol.receiveAll (some ignore) ({ app := () }, []) reads).1.delivered.map
        (fun m => m.getPayload.data) = [payload]) := by
  intro payload bytes reads
  have hreads : (reads.map Prod.fst).flatten = bytes := by
    simp only [reads, List.map_cons, List.map_nil, List.flatten_cons, List.flatten_nil,
      List.append_nil, List.take_append_drop]
  have hbytes := HttpClientProtocol.sentBytes_response ({} : ProtocolHandler Unit)
    (answers_answer payload) { app := () } {}
  rw [show HttpClientProtocol.response payload = _ from hreads.symm] at hbytes
  exact http_response_not_delivered {} (answers_answer payload) (by decide) { app := () } {} ignore ()
    hbytes

/-- **The client delivers the chunk with its size and its end.** -/
theorem http_response_round_trip_fails :
    ¬ ∀ (payload : Bytes), payload ≠ [] → ∀ reads : List (Bytes × Bytes),
      (reads.map Prod.fst).flatten = HttpClientProtocol.response payload →
      (HttpClientProtocol.receiveAll (some ignore) ({ app := () }, []) reads).1.delivered.map
        (fun m => m.getPayload.data) = [payload] := by
  intro h
  have hdelivered := h (bytesOf "a") (by decide)
    [(HttpClientProtocol.response (bytesOf "a"), [])] (List.append_nil _)
  revert hdelivered
  decide

end NetworkLib
