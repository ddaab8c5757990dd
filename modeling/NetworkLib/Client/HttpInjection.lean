import NetworkLib.Client.HttpProtocol
import NetworkLib.Protocols.HttpKeepAlive
import Mathlib.Data.List.TakeWhile

/-! # An HTTP request of the client read by the server

The client splices the fields of an envelope into a request as they are, and the server takes them
apart again by white space, colons and line ends. `Plain` says which envelopes survive that. What
the parser stores in any case (`Stored`) shows that no other does. -/

namespace NetworkLib

open HttpRequest (fieldLine)

/-! ## Numbers and words -/

/-- What `stoi` makes of a number printed. -/
theorem stoi_printed (n : ℕ) :
    stoi (printed 10 n) = if n < 2 ^ 31 then some (n : ℤ) else none := by
  have hdigits : ∀ b ∈ printed 10 n, isDigit b = true :=
    forall_mem_printed (by decide) (fun d hd => by interval_cases d <;> decide) n
  have hvalue : ofDigits (printed 10 n) = n :=
    ofNumeral_printed (by decide) (fun d hd => by interval_cases d <;> decide) n
  have hread : strtol (printed 10 n) = some (n : ℤ) := by
    have hnumeral : strtol ([] ++ printed 10 n ++ []) = some (ofDigits (printed 10 n) : ℤ) :=
      strtol_numeral (fun b hb => absurd hb List.not_mem_nil) ⟨printed_ne_nil 10 n, hdigits⟩
        (fun b hb => absurd hb List.not_mem_nil)
    rwa [List.nil_append, List.append_nil, hvalue] at hnumeral
  rw [stoi, hread, Option.bind_some]
  have hrange : (-2 ^ 31 ≤ (n : ℤ) ∧ (n : ℤ) < 2 ^ 31) ↔ n < 2 ^ 31 := by omega
  simp only [hrange]

/-- The parts of a list split at certain elements hold none of them. -/
theorem of_mem_splitOnP {α : Type*} {p : α → Bool} (l : List α) :
    ∀ w ∈ l.splitOnP p, ∀ a ∈ w, p a = false := by
  induction l with
  | nil => simp
  | cons a l ih =>
      intro w hw
      rw [List.splitOnP_cons_eq_if_modifyHead] at hw
      split at hw
      · rcases List.mem_cons.mp hw with rfl | hw
        · exact fun b hb => absurd hb List.not_mem_nil
        · exact ih w hw
      · next ha =>
          obtain ⟨first, words, hwords⟩ := List.exists_cons_of_ne_nil (List.splitOnP_ne_nil p l)
          rw [hwords] at hw ih
          rcases List.mem_cons.mp hw with rfl | hw
          · rw [List.forall_mem_cons]
            exact ⟨by simpa using ha, ih first List.mem_cons_self⟩
          · exact ih w (List.mem_cons_of_mem first hw)

/-- The words of a line hold no white space. -/
theorem isSpace_of_mem_streamWords {line w : Bytes} (hw : w ∈ streamWords line) :
    ∀ b ∈ w, isSpace b = false := of_mem_splitOnP line w (List.mem_filter.mp hw).1

namespace HttpHandler

/-! ## What the parser stores in any case -/

/-- The path holds no white space, no header's name a colon, and no header a CR LF. -/
def Stored (ctx : HttpContext) : Prop :=
  (∀ b ∈ ctx.path, isSpace b = false) ∧
    ∀ name value, ctx.headers.lookup name = some value →
      colon ∉ name ∧ ¬ Buffer.kCRLF <:+: name ∧ ¬ Buffer.kCRLF <:+: value

/-- A request line leaves the headers stored as they are. -/
theorem stored_withRequestLine {ctx : HttpContext} (h : Stored ctx) (line : Bytes) :
    Stored (ctx.withRequestLine line) := by
  refine ⟨?_, h.2⟩
  rw [HttpContext.withRequestLine]
  cases hw : (streamWords line)[1]? with
  | none => exact h.1
  | some w => exact isSpace_of_mem_streamWords (List.mem_of_getElem? hw)

/-- A line without a CRLF adds a header without one. -/
theorem stored_storeHeader {ctx : HttpContext} (h : Stored ctx) {line : Bytes}
    (hline : ¬ Buffer.kCRLF <:+: line) {headers : StringMap}
    (hstore : storeHeader ctx.headers line = some headers) : Stored { ctx with headers } := by
  refine ⟨h.1, fun name value hlookup => ?_⟩
  have hlookup : headers.lookup name = some value := hlookup
  unfold storeHeader at hstore
  -- A line without a colon stores nothing; the name ends at the first one.
  cases hi : search [colon] line with
  | none =>
      rw [hi] at hstore
      cases hstore
      exact h.2 name value hlookup
  | some i =>
      rw [hi] at hstore
      simp only [substr] at hstore
      split at hstore
      · cases hstore
      · next val hval =>
          cases hstore
          by_cases hname : name = line.take i
          · subst hname
            rw [AList.lookup_insert, Option.some_inj] at hlookup
            subst hlookup
            have hval : val <:+: line := by
              split at hval
              · cases hval
                exact (List.drop_suffix _ _).isInfix
              · cases hval
            refine ⟨colon_not_mem_take hi, fun hcrlf => hline ?_, fun hcrlf => hline ?_⟩
            · exact hcrlf.trans (List.take_prefix i line).isInfix
            · exact hcrlf.trans ((withoutCR_isPrefix val).isInfix.trans hval)
          · rw [AList.lookup_insert_ne hname] at hlookup
            exact h.2 name value hlookup

/-- So every line the parser reads keeps the headers free of CRLF. -/
theorem stored_readLine {ctx : HttpContext} (h : Stored ctx) {line : Bytes}
    (hline : ¬ Buffer.kCRLF <:+: line) : Stored (readLine ctx line).2 := by
  unfold readLine
  split
  · exact stored_withRequestLine h line
  · split
    · exact h
    · cases hstore : storeHeader ctx.headers line with
      | none => exact h
      | some headers => exact stored_storeHeader h hline hstore

/-- **Whatever the bytes, what is stored is free of separators.** -/
theorem stored_drain {ctx : HttpContext} (h : Stored ctx) (buf : Buffer) :
    Stored (parser.drain ((false, ctx), buf)).1.2 := by
  refine Consumer.drain_induction (C := parser) (P := fun p => Stored p.1.2) ?_ h
  rintro ⟨⟨threw, ctx⟩, buf⟩ q hstored hnext
  cases threw with
  | true => cases hnext
  | false =>
      rcases state_cases ctx with hs | hs | hs
      · obtain ⟨i, hi, rfl⟩ := Option.map_eq_some_iff.mp ((nextPart_line hs buf).symm.trans hnext)
        exact stored_readLine hstored (Buffer.crlf_not_infix_take hi)
      · have hbody := (nextPart_body hs buf).symm.trans hnext
        unfold readBody at hbody
        split at hbody
        · cases hbody
          exact hstored
        · split at hbody
          · cases hbody
            exact hstored
          · cases hbody
      · cases (nextPart_done hs buf).symm.trans hnext

/-- What the parser stores of any bytes has no CRLF in it. -/
theorem stored_parseRequest (bs : Bytes) : Stored (parseRequest ({}, bs)).2.1 := by
  rw [parseRequest_eq]
  refine stored_drain ⟨?_, ?_⟩ bs
  · exact fun b hb => absurd hb List.not_mem_nil
  · exact fun name value hlookup => nomatch hlookup

end HttpHandler

namespace HttpClientProtocol

variable (e : StreamEnvelope)

/-! ## The request of an envelope -/

/-- The metadata of an envelope. -/
def metadata : StringMap :=
  match e.metadata with
  | some metadata => metadata.fields
  | none => ∅

/-- All header fields of its request, in the order they are sent. -/
def fields : List (Bytes × Bytes) :=
  (bytesOf "Host", bytesOf "localhost") :: metadataFields e ++
    [(bytesOf "Content-Length", printed 10 e.getPayload.data.length),
      (bytesOf "Connection", bytesOf "keep-alive")]

/-- The request line. -/
def requestLine : Bytes := bytesOf "POST" ++ 32 :: (path e ++ 32 :: bytesOf "HTTP/1.1")

/-- The fields of the metadata are its entries. -/
theorem metadataFields_eq :
    metadataFields e = (metadata e).entries.map fun field => (field.1, field.2) := by
  unfold metadataFields metadata
  cases e.metadata <;> rfl

/-- The path of a request is not empty. -/
theorem path_ne_nil : path e ≠ [] := by
  unfold path
  split
  · next h => simpa using h.2
  · decide

/-- The bytes of a request: its line, its fields, a blank line and the body. -/
theorem sentBytes_send : sentBytes (send e) = requestLine e ++ Buffer.kCRLF ++
    ((fields e).flatMap (fun field => fieldLine field ++ Buffer.kCRLF) ++
      (Buffer.kCRLF ++ e.getPayload.data)) := by
  have hpost : bytesOf "POST " = bytesOf "POST" ++ [32] := by decide
  have hversion : bytesOf " HTTP/1.1\r\n" = 32 :: (bytesOf "HTTP/1.1" ++ Buffer.kCRLF) := by decide
  have hhost : bytesOf "Host: localhost\r\n"
      = bytesOf "Host" ++ colon :: 32 :: (bytesOf "localhost" ++ Buffer.kCRLF) := by decide
  have hlength : bytesOf "Content-Length: " = bytesOf "Content-Length" ++ [colon, 32] := by decide
  have hconnection : bytesOf "Connection: keep-alive\r\n"
      = bytesOf "Connection" ++ colon :: 32 :: (bytesOf "keep-alive" ++ Buffer.kCRLF) := by decide
  have hseparator : bytesOf ": " = [colon, 32] := by decide
  have hcrlf : bytesOf "\r\n" = Buffer.kCRLF := by decide
  rw [send, NetworkLib.sentBytes_send, requestLine, fields, hpost, hversion, hhost, hlength,
    hconnection, hseparator, hcrlf]
  simp only [List.cons_append, List.flatMap_cons, List.flatMap_append, List.flatMap_nil, fieldLine,
    List.append_assoc, List.nil_append, List.append_nil]

/-- The fields hold none of the separators the parser takes a request apart by. -/
structure Separate : Prop where
  path : ∀ b ∈ path e, isSpace b = false
  fields : ∀ field ∈ metadataFields e,
    colon ∉ field.1 ∧ ¬ Buffer.kCRLF <:+: field.1 ∧ ¬ Buffer.kCRLF <:+: field.2

/-- The headers stored for it. -/
def headers : StringMap :=
  (HttpHandler.storedFields (fields e)).foldl (fun m field => m.insert field.1 field.2) ∅

/-- The context with which the parser comes to the body. -/
def bodyContext : HttpContext where
  state := .kExpectBody
  method := bytesOf "POST"
  path := path e
  version := bytesOf "HTTP/1.1"
  headers := headers e

variable {e}

/-- The request line is parsed back where the path has no white space. -/
theorem readLine_requestLine (h : ∀ b ∈ path e, isSpace b = false) :
    HttpHandler.readLine {} (requestLine e) = (false,
      { state := .kExpectHeaders, method := bytesOf "POST", path := path e,
        version := bytesOf "HTTP/1.1" }) := by
  have hpost : ∀ b ∈ bytesOf "POST", isSpace b = false := by decide +kernel
  have hversion : ∀ b ∈ bytesOf "HTTP/1.1", isSpace b = false := by decide +kernel
  have hwords : streamWords (requestLine e) = [bytesOf "POST", path e, bytesOf "HTTP/1.1"] := by
    rw [streamWords, requestLine, List.splitOnP_append_cons_of_forall_mem hpost 32 rfl,
      List.splitOnP_append_cons_of_forall_mem h 32 rfl, List.splitOnP_eq_singleton hversion]
    refine List.filter_eq_self.mpr fun w hw => ?_
    simp only [List.mem_cons, List.not_mem_nil, or_false] at hw
    rcases hw with rfl | rfl | rfl
    · decide
    · simpa using path_ne_nil e
    · decide
  rw [HttpHandler.readLine, if_pos rfl, HttpContext.withRequestLine, hwords]
  rfl

/-- Such a request line has no CRLF in it. -/
theorem crlf_not_infix_requestLine (h : ∀ b ∈ path e, isSpace b = false) :
    ¬ Buffer.kCRLF <:+: requestLine e := by
  have hpath : (13 : UInt8) ∉ path e := by
    intro hmem
    cases h 13 hmem
  refine Buffer.crlf_not_infix_of_not_mem ?_
  simp only [requestLine, List.mem_append, List.mem_cons, hpath]
  decide

/-- A field line without a CR LF in its name and value has none. -/
theorem crlf_not_infix_fieldLine {field : Bytes × Bytes} (hname : ¬ Buffer.kCRLF <:+: field.1)
    (hvalue : ¬ Buffer.kCRLF <:+: field.2) : ¬ Buffer.kCRLF <:+: fieldLine field := by
  intro h
  rcases infix_append_cons (by decide) h with h | h
  · exact hname h
  · have hblank : Buffer.kCRLF <:+: [] ++ 32 :: field.2 := h
    rcases infix_append_cons (by decide) hblank with h | h
    · exact absurd (List.infix_nil.mp h) (by decide)
    · exact hvalue h

/-- Fields that stay apart have no colon in their names and no CRLF in their lines. -/
theorem separate_fields (h : Separate e) : ∀ field ∈ fields e,
    colon ∉ field.1 ∧ ¬ Buffer.kCRLF <:+: fieldLine field := by
  have hlength : colon ∉ bytesOf "Content-Length" ∧
      ¬ Buffer.kCRLF <:+: bytesOf "Content-Length" := by decide
  intro field hfield
  rw [fields, List.cons_append, List.mem_cons, List.mem_append] at hfield
  rcases hfield with rfl | hfield | hfield
  · exact ⟨by decide, crlf_not_infix_fieldLine (by decide) (by decide)⟩
  · obtain ⟨hcolon, hname, hvalue⟩ := h.fields field hfield
    exact ⟨hcolon, crlf_not_infix_fieldLine hname hvalue⟩
  · simp only [List.mem_cons, List.not_mem_nil, or_false] at hfield
    rcases hfield with rfl | rfl
    · exact ⟨hlength.1, crlf_not_infix_fieldLine hlength.2
        (Buffer.crlf_not_infix_of_not_mem (cr_not_mem_printed (by decide) (by decide) _))⟩
    · exact ⟨by decide, crlf_not_infix_fieldLine (by decide) (by decide)⟩

/-- Storing the fields of a map one after another, each value changed. -/
theorem lookup_foldl_insert (F : Bytes → Bytes) {l : List (Σ _ : Bytes, Bytes)}
    (hl : l.NodupKeys) (m : StringMap) (name : Bytes) :
    ((l.map fun field => (field.1, F field.2)).foldl
        (fun m field => m.insert field.1 field.2) m).lookup name
      = ((l.dlookup name).map F).or (m.lookup name) := by
  induction l generalizing m with
  | nil => rfl
  | cons field l ih =>
      obtain ⟨key, value⟩ := field
      obtain ⟨hkey, hl⟩ := List.nodupKeys_cons.mp hl
      rw [List.map_cons, List.foldl_cons, ih hl]
      by_cases hname : name = key
      · subst hname
        rw [List.dlookup_eq_none.mpr hkey, List.dlookup_cons_eq, AList.lookup_insert]
        rfl
      · rw [AList.lookup_insert_ne hname, List.dlookup_cons_ne l ⟨key, value⟩ hname]

/-- What is stored under each name. -/
theorem lookup_headers (e : StreamEnvelope) (name : Bytes) :
    (headers e).lookup name =
      if name = bytesOf "Connection" then some (bytesOf "keep-alive")
      else if name = bytesOf "Content-Length" then some (printed 10 e.getPayload.data.length)
      else (((metadata e).lookup name).map withoutCR).or
        (if name = bytesOf "Host" then some (bytesOf "localhost") else none) := by
  have hmetadata : HttpHandler.storedFields (metadataFields e)
      = (metadata e).entries.map fun field => (field.1, withoutCR field.2) := by
    rw [metadataFields_eq, HttpHandler.storedFields, List.map_map]
    rfl
  have hdigits : withoutCR (printed 10 e.getPayload.data.length)
      = printed 10 e.getPayload.data.length :=
    withoutCR_eq_self_iff.mpr fun hlast =>
      cr_not_mem_printed (by decide) (by decide) _ (List.mem_of_getLast? hlast)
  have hkeep : withoutCR (bytesOf "keep-alive") = bytesOf "keep-alive" := by decide
  have hhost : withoutCR (bytesOf "localhost") = bytesOf "localhost" := by decide
  have hstored : headers e = (((HttpHandler.storedFields (metadataFields e)).foldl
      (fun m field => m.insert field.1 field.2)
        ((∅ : StringMap).insert (bytesOf "Host") (bytesOf "localhost"))).insert
          (bytesOf "Content-Length") (printed 10 e.getPayload.data.length)).insert
            (bytesOf "Connection") (bytesOf "keep-alive") := by
    rw [headers, fields, HttpHandler.storedFields, HttpHandler.storedFields, List.cons_append,
      List.map_cons, List.map_append, List.foldl_cons, List.foldl_append, List.map_cons,
      List.map_singleton, hdigits, hkeep, hhost]
    rfl
  -- the last insertion under a name wins
  rw [hstored, hmetadata]
  by_cases hconnection : name = bytesOf "Connection"
  · rw [if_pos hconnection, hconnection, AList.lookup_insert]
  · rw [if_neg hconnection, AList.lookup_insert_ne hconnection]
    by_cases hlength : name = bytesOf "Content-Length"
    · rw [if_pos hlength, hlength, AList.lookup_insert]
    · rw [if_neg hlength, AList.lookup_insert_ne hlength,
        lookup_foldl_insert withoutCR (metadata e).nodupKeys]
      congr 1
      by_cases hname : name = bytesOf "Host"
      · rw [if_pos hname, hname, AList.lookup_insert]
      · rw [if_neg hname, AList.lookup_insert_ne hname, AList.lookup_empty]

/-- **The server reads the fields of the request one by one.** -/
theorem drain_send (h : Separate e) :
    HttpHandler.parser.drain ((false, {}), sentBytes (send e))
      = HttpHandler.parser.drain ((false, bodyContext e), e.getPayload.data) := by
  have hlength : (headers e).lookup (bytesOf "Content-Length")
      = some (printed 10 e.getPayload.data.length) := by
    rw [lookup_headers, if_neg (by decide), if_pos rfl]
  rw [sentBytes_send, HttpHandler.drain_line (.inl rfl) (crlf_not_infix_requestLine h.path),
    readLine_requestLine h.path, HttpHandler.drain_fields rfl (separate_fields h),
    HttpHandler.drain_blank rfl, if_pos]
  · rfl
  · show ((headers e).lookup (bytesOf "Content-Length")).isSome = true
    rw [hlength, Option.isSome_some]

/-! ## Which requests are received as they were sent -/

variable (e)

/-- The value a header is to have: that of the metadata, or the client's own. -/
def expected (name : Bytes) : Option Bytes :=
  ((metadata e).lookup name).or
    (if name = bytesOf "Host" then some (bytesOf "localhost")
    else if name = bytesOf "Content-Length" then some (printed 10 e.getPayload.data.length)
    else if name = bytesOf "Connection" then some (bytesOf "keep-alive")
    else none)

/-- The request is received as it was sent: it is complete with nothing left over, and has the path,
the headers and the body of the envelope. -/
structure Received (q : HttpHandler.ParseResult × HttpContext × Buffer) : Prop where
  complete : q.1 = .complete
  leftover : q.2.2 = []
  path : q.2.1.path = path e
  headers : ∀ name, q.2.1.headers.lookup name = expected e name
  body : q.2.1.body = e.getPayload.data

/-- **Envelopes that inject nothing.** The path holds no white space, no metadata key a colon or a
CR LF, and no value a CR LF or a final CR; what the metadata says of the body's length and of the
connection is what the client says; and the length of the body is an `int`. -/
structure Plain : Prop extends Separate e where
  values : ∀ field ∈ metadataFields e, field.2.getLast? ≠ some 13
  contentLength : ∀ value, (metadata e).lookup (bytesOf "Content-Length") = some value →
    value = printed 10 e.getPayload.data.length
  connection : ∀ value, (metadata e).lookup (bytesOf "Connection") = some value →
    value = bytesOf "keep-alive"
  size : e.getPayload.data.length < 2 ^ 31

variable {e}

/-- The fields of the metadata are its pairs of key and value. -/
theorem mem_metadataFields_iff {field : Bytes × Bytes} :
    field ∈ metadataFields e ↔ (metadata e).lookup field.1 = some field.2 := by
  rw [metadataFields_eq, ← Option.mem_def, AList.mem_lookup_iff, List.mem_map]
  constructor
  · rintro ⟨entry, hentry, rfl⟩
    exact hentry
  · intro hentry
    exact ⟨⟨field.1, field.2⟩, hentry, rfl⟩

/-- The headers stored are those expected, if no value loses a CR and none is overwritten. -/
theorem headers_eq_expected_iff :
    (∀ name, (headers e).lookup name = expected e name) ↔
      (∀ field ∈ metadataFields e, field.2.getLast? ≠ some 13) ∧
      (∀ value, (metadata e).lookup (bytesOf "Content-Length") = some value →
        value = printed 10 e.getPayload.data.length) ∧
      ∀ value, (metadata e).lookup (bytesOf "Connection") = some value →
        value = bytesOf "keep-alive" := by
  constructor
  · intro h
    -- the two names that `Send` writes itself, behind the metadata
    have hlength : ∀ value, (metadata e).lookup (bytesOf "Content-Length") = some value →
        value = printed 10 e.getPayload.data.length := by
      intro value hvalue
      have hname := h (bytesOf "Content-Length")
      rw [lookup_headers, if_neg (by decide), if_pos rfl, expected, hvalue, Option.some_or,
        Option.some_inj] at hname
      exact hname.symm
    have hconnection : ∀ value, (metadata e).lookup (bytesOf "Connection") = some value →
        value = bytesOf "keep-alive" := by
      intro value hvalue
      have hname := h (bytesOf "Connection")
      rw [lookup_headers, if_pos rfl, expected, hvalue, Option.some_or, Option.some_inj] at hname
      exact hname.symm
    refine ⟨fun field hfield => ?_, hlength, hconnection⟩
    have hlookup := mem_metadataFields_iff.mp hfield
    by_cases hname : field.1 = bytesOf "Connection"
    · rw [hconnection field.2 (hname ▸ hlookup)]
      decide
    · by_cases hname' : field.1 = bytesOf "Content-Length"
      · rw [hlength field.2 (hname' ▸ hlookup)]
        exact fun hlast => cr_not_mem_printed (by decide) (by decide) _ (List.mem_of_getLast? hlast)
      · have hfield := h field.1
        rw [lookup_headers, if_neg hname, if_neg hname', expected, hlookup, Option.map_some,
          Option.some_or, Option.some_or, Option.some_inj] at hfield
        exact withoutCR_eq_self_iff.mp hfield
  · -- by the name: absent from the metadata, or one of the two, or another one
    rintro ⟨hvalues, hlength, hconnection⟩ name
    rw [lookup_headers, expected]
    cases hlookup : (metadata e).lookup name with
    | none =>
        rw [Option.none_or, Option.map_none, Option.none_or]
        by_cases hname : name = bytesOf "Connection"
        · rw [if_pos hname, hname, if_neg (by decide), if_neg (by decide), if_pos rfl]
        · by_cases hname' : name = bytesOf "Content-Length"
          · rw [if_neg hname, if_pos hname', hname', if_neg (by decide), if_pos rfl]
          · rw [if_neg hname, if_neg hname', if_neg hname', if_neg hname]
    | some value =>
        rw [Option.some_or]
        by_cases hname : name = bytesOf "Connection"
        · rw [if_pos hname, hconnection value (hname ▸ hlookup)]
        · by_cases hname' : name = bytesOf "Content-Length"
          · rw [if_neg hname, if_pos hname', hlength value (hname' ▸ hlookup)]
          · have hvalue := hvalues (name, value) (mem_metadataFields_iff.mpr hlookup)
            rw [if_neg hname, if_neg hname', Option.map_some, Option.some_or,
              withoutCR_eq_self_iff.mpr hvalue]

/-- A request received as it was sent has none of the separators in its fields: the parser would not
have stored them. -/
theorem separate_of_received
    (h : Received e (HttpHandler.parseRequest ({}, sentBytes (send e)))) : Separate e := by
  have hstored := HttpHandler.stored_parseRequest (sentBytes (send e))
  refine ⟨h.path ▸ hstored.1, fun field hfield => ?_⟩
  refine hstored.2 field.1 field.2 ?_
  rw [h.headers, expected, mem_metadataFields_iff.mp hfield, Option.some_or]

/-- **The body is read if its length is an `int`**; otherwise `stoi` throws. -/
theorem parseRequest_send (h : Separate e) :
    HttpHandler.parseRequest ({}, sentBytes (send e)) =
      if e.getPayload.data.length < 2 ^ 31 then
        (.complete, { bodyContext e with state := .kDone, body := e.getPayload.data }, [])
      else (.threw, bodyContext e, e.getPayload.data) := by
  have hlength : (bodyContext e).contentLength = some (printed 10 e.getPayload.data.length) := by
    show (headers e).lookup (bytesOf "Content-Length") = _
    rw [lookup_headers, if_neg (by decide), if_pos rfl]
  rw [HttpHandler.parseRequest_eq, drain_send h, HttpHandler.drain_body rfl, HttpHandler.readBody,
    hlength, Option.getD_some, stoi_printed]
  by_cases hsize : e.getPayload.data.length < 2 ^ 31
  · have htoSize : toSize (e.getPayload.data.length : ℤ) = e.getPayload.data.length :=
      toSize_natCast (by omega)
    simp only [if_pos hsize, htoSize, le_refl, if_true, List.take_length, List.drop_length,
      Option.getD_some]
    rfl
  · simp only [if_neg hsize, Option.getD_some]
    rfl

end HttpClientProtocol

open HttpClientProtocol in
/-- **HTTP requests without injection.** The request of an envelope is received as it was sent
exactly if the envelope injects nothing. -/
theorem http_request_received_iff (e : StreamEnvelope) :
    Received e (HttpHandler.parseRequest ({}, sentBytes (send e))) ↔ Plain e := by
  constructor
  · intro h
    have hseparate := separate_of_received h
    rw [parseRequest_send hseparate] at h
    split at h
    · next hsize =>
        obtain ⟨hvalues, hlength, hconnection⟩ := headers_eq_expected_iff.mp h.headers
        exact ⟨hseparate, hvalues, hlength, hconnection, hsize⟩
    · cases h.complete
  · intro h
    rw [parseRequest_send h.toSeparate, if_pos h.size]
    refine ⟨rfl, rfl, rfl, ?_, rfl⟩
    exact headers_eq_expected_iff.mpr ⟨h.values, h.contentLength, h.connection⟩

open HttpClientProtocol in
/-- A message type that ends the request, and what is behind it is the next one. -/
theorem http_request_fails_on_injection :
    ¬ ∀ e, Received e (HttpHandler.parseRequest ({}, sentBytes (send e))) := by
  intro h
  let header : Header := { messageType := bytesOf "/ HTTP/1.1\r\n\r\nGET /admin" }
  have hspace := (separate_of_received (h { header })).path 32 (by decide)
  cases hspace

end NetworkLib
