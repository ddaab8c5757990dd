import NetworkLib.Protocols.HttpHandler
import NetworkLib.Theory.Incremental

/-! # The HTTP parser as an incremental consumer

`ParseRequest` stops in the middle of a loop and resumes on the next call. Seen line by line it is a
consumer (`parser`): each step takes one CR LF line, or the body, off the front of the buffer. A
call is its drain (`parseRequest_eq`), so what the parser makes of a byte stream does not depend on
how the stream is cut into reads (`threw_mem_parseReads_iff`). -/

namespace NetworkLib.HttpHandler

open Loop

/-- A context, and whether parsing threw in it. -/
abbrev Parsing := Bool × HttpContext

/-- What a complete line does in a state that expects one. -/
def readLine (ctx : HttpContext) (line : Bytes) : Parsing :=
  if ctx.state = .kExpectRequestLine then (false, ctx.withRequestLine line)
  else if line = [] then
    (false, { ctx with
      state := if ctx.contentLength.isSome then .kExpectBody else .kDone })
  else
    match storeHeader ctx.headers line with
    | none => (true, ctx)
    | some headers => (false, { ctx with headers })

/-- What the readable bytes do in the body state; `none` while they are too few. -/
def readBody (ctx : HttpContext) (buf : Buffer) : Option (Parsing × Buffer) :=
  match stoi (ctx.contentLength.getD []) with
  | none => some ((true, ctx), buf)
  | some value =>
      if toSize value ≤ buf.length then
        some ((false, { ctx with body := buf.take (toSize value), state := .kDone }),
          buf.drop (toSize value))
      else none

/-- Take one line, or the body, off the front of the buffer. -/
def nextPart : Parsing × Buffer → Option (Parsing × Buffer)
  | ((true, _), _) => none
  | ((false, ctx), buf) =>
      match ctx.state with
      | .kExpectBody => readBody ctx buf
      | .kDone => none
      | _ => (Buffer.findCRLF buf).map fun i => (readLine ctx (buf.take i), buf.drop (i + 2))

/-- How far a state is from the end of a request. -/
def stateRank : Parsing → ℕ
  | (true, _) => 0
  | (false, ctx) =>
      match ctx.state with
      | .kExpectRequestLine => 2
      | .kExpectHeaders => 2
      | .kExpectBody => 1
      | .kDone => 0

/-- The parser passes through few states. -/
theorem stateRank_le (p : Parsing) : stateRank p ≤ 2 := by
  obtain ⟨threw, ctx⟩ := p
  cases threw
  · cases hs : ctx.state <;> simp [stateRank, hs]
  · exact Nat.zero_le 2

/-- In front of the body a part is a line. -/
theorem nextPart_line {ctx : HttpContext}
    (hs : ctx.state = .kExpectRequestLine ∨ ctx.state = .kExpectHeaders) (buf : Buffer) :
    nextPart ((false, ctx), buf)
      = (Buffer.findCRLF buf).map fun i => (readLine ctx (buf.take i), buf.drop (i + 2)) := by
  rcases hs with hs | hs <;> simp [nextPart, hs]

/-- Then it is the body. -/
theorem nextPart_body {ctx : HttpContext} (hs : ctx.state = .kExpectBody) (buf : Buffer) :
    nextPart ((false, ctx), buf) = readBody ctx buf := by simp [nextPart, hs]

/-- A complete request has no more parts. -/
theorem nextPart_done {ctx : HttpContext} (hs : ctx.state = .kDone) (buf : Buffer) :
    nextPart ((false, ctx), buf) = none := by simp [nextPart, hs]

/-- The states that expect a line, the body, and nothing. -/
theorem state_cases (ctx : HttpContext) :
    (ctx.state = .kExpectRequestLine ∨ ctx.state = .kExpectHeaders) ∨
      ctx.state = .kExpectBody ∨ ctx.state = .kDone := by
  cases ctx.state <;> simp

/-- **The HTTP parser is a consumer.** -/
def parser : Consumer Parsing UInt8 where
  next := nextPart
  rank p := 2 * p.2.length + stateRank p.1
  rank_lt := by
    rintro ⟨⟨threw, ctx⟩, buf⟩ ⟨p, buf'⟩ h
    cases threw with
    | true => cases h
    | false =>
        rcases state_cases ctx with hs | hs | hs
        · rw [nextPart_line hs, Option.map_eq_some_iff] at h
          obtain ⟨i, hi, h⟩ := h
          cases h
          have hlen := Buffer.findCRLF_add_two_le hi
          have hrank := stateRank_le (readLine ctx (buf.take i))
          have hdrop : (buf.drop (i + 2)).length = buf.length - (i + 2) := List.length_drop
          show 2 * (buf.drop (i + 2)).length + stateRank (readLine ctx (buf.take i))
            < 2 * buf.length + stateRank (false, ctx)
          omega
        · have hrank : stateRank (false, ctx) = 1 := by simp [stateRank, hs]
          rw [nextPart_body hs, readBody] at h
          show 2 * buf'.length + stateRank p < 2 * buf.length + stateRank (false, ctx)
          split at h
          · cases h
            rw [hrank]
            simp [stateRank]
          · split at h
            · cases h
              rw [hrank, List.length_drop]
              simp only [stateRank]
              omega
            · cases h
        · rw [nextPart_done hs] at h
          cases h
  next_append := by
    rintro ⟨threw, ctx⟩ buf p buf' c h
    cases threw with
    | true => cases h
    | false =>
        rcases state_cases ctx with hs | hs | hs
        · rw [nextPart_line hs, Option.map_eq_some_iff] at h ⊢
          obtain ⟨i, hi, h⟩ := h
          cases h
          have hlen := Buffer.findCRLF_add_two_le hi
          refine ⟨i, Buffer.findCRLF_append c hi, ?_⟩
          rw [List.take_append_of_le_length (by omega), List.drop_append_of_le_length hlen]
        · rw [nextPart_body hs, readBody] at h ⊢
          split at h
          · next hv => cases h; rfl
          · next value hv =>
              split at h
              · next hle =>
                  cases h
                  have hle' : toSize value ≤ (buf ++ c).length := by
                    rw [List.length_append]
                    omega
                  simp only [if_pos hle', List.take_append_of_le_length hle,
                    List.drop_append_of_le_length hle]
              · cases h
        · rw [nextPart_done hs] at h
          cases h

/-! ## A `ParseRequest` call is a drain -/

/-- What a call that stopped with the given parsing returns. -/
def report : Parsing × Buffer → ParseResult × HttpContext × Buffer
  | ((threw, ctx), buf) =>
      (if threw then .threw else if ctx.state = .kDone then .complete else .incomplete, ctx, buf)

/-- After an exception nothing is taken. -/
theorem drain_threw (ctx : HttpContext) (buf : Buffer) :
    parser.drain ((true, ctx), buf) = ((true, ctx), buf) := Consumer.drain_of_none rfl

/-- Nor is it after a complete request. -/
theorem drain_done {ctx : HttpContext} (hs : ctx.state = .kDone) (buf : Buffer) :
    parser.drain ((false, ctx), buf) = ((false, ctx), buf) :=
  Consumer.drain_of_none (nextPart_done hs buf)

/-- A missing line leaves the parser where it is. -/
theorem drain_line_none {ctx : HttpContext}
    (hs : ctx.state = .kExpectRequestLine ∨ ctx.state = .kExpectHeaders) {buf : Buffer}
    (hi : Buffer.findCRLF buf = none) :
    parser.drain ((false, ctx), buf) = ((false, ctx), buf) := by
  refine Consumer.drain_of_none ?_
  exact (nextPart_line hs buf).trans (by rw [hi, Option.map_none])

/-- A complete line is read. -/
theorem drain_line_some {ctx : HttpContext}
    (hs : ctx.state = .kExpectRequestLine ∨ ctx.state = .kExpectHeaders) {buf : Buffer} {i : ℕ}
    (hi : Buffer.findCRLF buf = some i) :
    parser.drain ((false, ctx), buf)
      = parser.drain (readLine ctx (buf.take i), buf.drop (i + 2)) := by
  refine Consumer.drain_of_some ?_
  exact (nextPart_line hs buf).trans (by rw [hi, Option.map_some])

/-- In the body state a drain is one attempt to read the body. -/
theorem drain_body {ctx : HttpContext} (hs : ctx.state = .kExpectBody) (buf : Buffer) :
    parser.drain ((false, ctx), buf) = (readBody ctx buf).getD ((false, ctx), buf) := by
  cases hb : readBody ctx buf with
  | none =>
      exact Consumer.drain_of_none ((nextPart_body hs buf).trans hb)
  | some q =>
      have hq : parser.drain q = q := by
        unfold readBody at hb
        split at hb
        · cases hb
          exact drain_threw ctx buf
        · split at hb
          · cases hb
            exact drain_done rfl _
          · cases hb
      rw [Consumer.drain_of_some ((nextPart_body hs buf).trans hb), hq, Option.getD_some]

/-- The body is read by the consumer of parts. -/
theorem parseBody_eq {ctx : HttpContext} (hs : ctx.state = .kExpectBody ∨ ctx.state = .kDone)
    (buf : Buffer) : parseBody (ctx, buf) = report (parser.drain ((false, ctx), buf)) := by
  rcases hs with hs | hs
  · rw [drain_body hs, parseBody, if_pos hs, readBody]
    cases stoi (ctx.contentLength.getD []) with
    | none => rfl
    | some value =>
        by_cases hle : toSize value ≤ buf.length <;> simp [hle, report, hs]
  · rw [drain_done hs, parseBody, if_neg (by simp [hs])]
    rfl

/-- A turn of the header loop with a complete line in front of it. -/
theorem headerTurn_line (r : Option ParseResult) (ctx : HttpContext) {buf : Buffer} {i : ℕ}
    (hi : Buffer.findCRLF buf = some i) :
    headerTurn (r, ctx, buf) = headerLine ctx (buf.take i) (buf.drop (i + 2)) := by
  have hlen := Buffer.findCRLF_add_two_le hi
  have htake : (buf.take i).length = i := by
    rw [List.length_take]
    omega
  simp only [headerTurn, hi, htake, Buffer.retrieve_eq_drop]

/-- Every turn that goes round takes a line. -/
theorem headerTurn_rank (p q : Option ParseResult × HttpContext × Buffer)
    (h : headerTurn p = .again q) : q.2.2.length < p.2.2.length := by
  obtain ⟨r, ctx, buf⟩ := p
  cases hi : Buffer.findCRLF buf with
  | none =>
      simp only [headerTurn, hi] at h
      cases h
  | some i =>
      have hlen := Buffer.findCRLF_add_two_le hi
      rw [headerTurn_line r ctx hi, headerLine] at h
      split at h
      · split at h <;> cases h
      · split at h
        · cases h
        · cases h
          simp only [List.length_drop]
          omega

/-- The outcome of the header loop, continued with the body stage. -/
def afterHeaders : Option ParseResult × HttpContext × Buffer → ParseResult × HttpContext × Buffer
  | (some result, p) => (result, p)
  | (none, p) => parseBody p

/-- The header loop and the body stage drain the parser. -/
theorem afterHeaders_run {ctx : HttpContext} (hs : ctx.state = .kExpectHeaders) (buf : Buffer) :
    afterHeaders (run headerTurn (fun q => q.2.2.length) (none, ctx, buf))
      = report (parser.drain ((false, ctx), buf)) := by
  induction hn : buf.length using Nat.strongRecOn generalizing ctx buf with
  | _ n ih =>
      cases hi : Buffer.findCRLF buf with
      | none =>
          have hturn : headerTurn (none, ctx, buf) = .leave (some .incomplete, ctx, buf) := by
            simp only [headerTurn, hi]
          rw [run_of_leave _ hturn, drain_line_none (.inr hs) hi]
          simp [afterHeaders, report, hs]
      | some i =>
          have hlen := Buffer.findCRLF_add_two_le hi
          have hturn := headerTurn_line none ctx hi
          rw [headerLine] at hturn
          rw [drain_line_some (.inr hs) hi, readLine, if_neg (by simp [hs])]
          -- the blank line ends the block, with a body or without one
          by_cases hline : buf.take i = []
          · rw [if_pos hline] at hturn ⊢
            by_cases hcl : ctx.contentLength.isSome
            · rw [if_pos hcl] at hturn ⊢
              rw [run_of_leave _ hturn, afterHeaders, parseBody_eq (.inl rfl)]
            · rw [if_neg hcl] at hturn ⊢
              rw [run_of_leave _ hturn, drain_done rfl]
              rfl
          · rw [if_neg hline] at hturn ⊢
            cases hst : storeHeader ctx.headers (buf.take i) with
            | none =>
                rw [hst] at hturn
                rw [run_of_leave _ hturn, drain_threw]
                rfl
            | some headers =>
                rw [hst] at hturn
                rw [run_of_again _ headerTurn_rank hturn]
                have hs' : ({ ctx with headers } : HttpContext).state = .kExpectHeaders := hs
                exact ih (buf.drop (i + 2)).length (by rw [List.length_drop]; omega) hs' _ rfl

/-- **A `ParseRequest` call drains the parser.** -/
theorem parseRequest_eq (ctx : HttpContext) (buf : Buffer) :
    parseRequest (ctx, buf) = report (parser.drain ((false, ctx), buf)) := by
  -- The three stages, entered where the context says.
  have hheaders {ctx : HttpContext} (hs : ctx.state = .kExpectHeaders) (buf : Buffer) :
      (match parseHeaders (ctx, buf) with
        | (some result, p) => (result, p)
        | (none, p) => parseBody p) = report (parser.drain ((false, ctx), buf)) := by
    rw [parseHeaders, if_pos hs]
    exact afterHeaders_run hs buf
  rw [parseRequest, parseRequestLine]
  by_cases hrl : ctx.state = .kExpectRequestLine
  · rw [if_pos hrl]
    cases hi : Buffer.findCRLF buf with
    | none =>
        -- the request line is not complete
        rw [drain_line_none (.inl hrl) hi]
        simp [report, hrl]
    | some i =>
        have hlen := Buffer.findCRLF_add_two_le hi
        have htake : (buf.take i).length = i := by
          rw [List.length_take]
          omega
        rw [drain_line_some (.inl hrl) hi, readLine, if_pos hrl]
        simp only [htake, Buffer.retrieve_eq_drop]
        exact hheaders rfl _
  · rw [if_neg hrl]
    rcases state_cases ctx with (hs | hs) | hs
    · exact absurd hs hrl
    · exact hheaders hs buf
    · have hne : ctx.state ≠ .kExpectHeaders := by
        rcases hs with hs | hs <;> simp [hs]
      simp only [parseHeaders, if_neg hne]
      exact parseBody_eq hs buf

/-! ## When parsing throws -/

/-- In `kDone` nothing is read. -/
theorem parseRequest_done {ctx : HttpContext} (hs : ctx.state = .kDone) (buf : Buffer) :
    parseRequest (ctx, buf) = (.complete, ctx, buf) := by
  rw [parseRequest_eq, drain_done hs]
  simp [report, hs]

/-- Header lines, up to an empty one, on which nothing throws: none of them ends at its first colon,
and once the empty line is there `stoi` accepts the value stored for `Content-Length`. -/
def CleanLines (headers : StringMap) (lines : List Bytes) : Prop :=
  (∀ line ∈ lines.takeWhile (· ≠ []), ¬ EndsAtColon line) ∧
    ([] ∈ lines → ∀ value,
      ((lines.takeWhile (· ≠ [])).foldl withHeader headers).lookup (bytesOf "Content-Length")
        = some value → stoi value ≠ none)

/-- **A byte string is clean** when its complete lines after the first are clean header lines. -/
def Clean (bs : Bytes) : Prop := CleanLines ∅ (Buffer.lines bs).tail

@[simp] theorem cleanLines_nil (headers : StringMap) : CleanLines headers [] := by
  simp [CleanLines]

/-- At the blank line the length of the body has to be a number. -/
theorem cleanLines_empty (headers : StringMap) (lines : List Bytes) :
    CleanLines headers ([] :: lines) ↔
      ∀ value, headers.lookup (bytesOf "Content-Length") = some value → stoi value ≠ none := by
  simp [CleanLines]

/-- Before it each line has to be stored without an exception. -/
theorem cleanLines_cons (headers : StringMap) {line : Bytes} (hline : line ≠ [])
    (lines : List Bytes) :
    CleanLines headers (line :: lines) ↔
      ¬ EndsAtColon line ∧ CleanLines (withHeader headers line) lines := by
  have hwhile : (line :: lines).takeWhile (· ≠ []) = line :: lines.takeWhile (· ≠ []) := by
    rw [List.takeWhile_cons, if_pos (by simpa using hline)]
  rw [CleanLines, CleanLines, hwhile, List.forall_mem_cons, List.foldl_cons, List.mem_cons]
  simp only [hline.symm, false_or, and_assoc]

/-- In the body state a drain throws when `stoi` does. -/
theorem drain_body_threw {ctx : HttpContext} (hs : ctx.state = .kExpectBody) (buf : Buffer) :
    (parser.drain ((false, ctx), buf)).1.1 = true ↔ stoi (ctx.contentLength.getD []) = none := by
  rw [drain_body hs, readBody]
  cases stoi (ctx.contentLength.getD []) with
  | none => simp
  | some value => by_cases hle : toSize value ≤ buf.length <;> simp [hle]

/-- **In the header state a drain throws unless the complete lines are clean.** -/
theorem drain_headers_threw {ctx : HttpContext} (hs : ctx.state = .kExpectHeaders) (buf : Buffer) :
    (parser.drain ((false, ctx), buf)).1.1 = true ↔
      ¬ CleanLines ctx.headers (Buffer.lines buf) := by
  induction hn : buf.length using Nat.strongRecOn generalizing ctx buf with
  | _ n ih =>
      cases hi : Buffer.findCRLF buf with
      | none =>
          rw [drain_line_none (.inr hs) hi, Buffer.lines_of_none hi]
          simp
      | some i =>
          have hlen := Buffer.findCRLF_add_two_le hi
          rw [drain_line_some (.inr hs) hi, Buffer.lines_of_some hi, readLine,
            if_neg (by simp [hs])]
          -- the blank line: what may still throw is the announced length
          by_cases hline : buf.take i = []
          · rw [if_pos hline, hline, cleanLines_empty]
            change _ ↔ ¬ ∀ value, ctx.contentLength = some value → _
            cases hcl : ctx.contentLength with
            | none => simp [drain_done]
            | some value =>
                rw [Option.isSome_some, if_pos rfl, drain_body_threw rfl]
                show stoi (ctx.contentLength.getD []) = none ↔ _
                simp [hcl]
          · rw [if_neg hline, cleanLines_cons _ hline, not_and_or, not_not]
            cases hst : storeHeader ctx.headers (buf.take i) with
            | none => simp [drain_threw, storeHeader_eq_none_iff.mp hst]
            | some headers =>
                have hcolon : ¬ EndsAtColon (buf.take i) := fun he => by
                  rw [storeHeader_eq_none_iff.mpr he] at hst
                  cases hst
                have hheaders : withHeader ctx.headers (buf.take i) = headers := by
                  rw [withHeader, hst, Option.getD_some]
                have hs' : ({ ctx with headers } : HttpContext).state = .kExpectHeaders := hs
                rw [hheaders, or_iff_right hcolon]
                exact ih (buf.drop (i + 2)).length (by rw [List.length_drop]; omega) hs' _ rfl

/-- **On a fresh connection a drain throws unless the byte string is clean.** -/
theorem drain_threw_iff (bs : Bytes) :
    (parser.drain ((false, {}), bs)).1.1 = true ↔ ¬ Clean bs := by
  cases hi : Buffer.findCRLF bs with
  | none =>
      rw [drain_line_none (.inl rfl) hi, Clean, Buffer.lines_of_none hi]
      simp
  | some i =>
      rw [drain_line_some (.inl rfl) hi, Clean, Buffer.lines_of_some hi, readLine, if_pos rfl,
        drain_headers_threw rfl]
      rfl

/-- **Some call throws exactly when draining the whole stream does**, whatever the cutting. -/
theorem threw_mem_parseReads {ctx : HttpContext} {buf : Buffer}
    (hp : parser.next ((false, ctx), buf) = none) (reads : List Bytes) :
    .threw ∈ parseReads (ctx, buf) reads ↔
      (parser.drain ((false, ctx), buf ++ reads.flatten)).1.1 = true := by
  induction reads generalizing ctx buf with
  | nil =>
      rw [List.flatten_nil, List.append_nil, Consumer.drain_of_none hp]
      simp [parseReads]
  | cons read reads ih =>
      rw [List.flatten_cons, ← List.append_assoc, Consumer.drain_append]
      have hreq := parseRequest_eq ctx (buf ++ read)
      have hnext := Consumer.next_drain (C := parser) ((false, ctx), buf ++ read)
      generalize parser.drain ((false, ctx), buf ++ read) = q at hreq hnext ⊢
      obtain ⟨⟨threw, ctx'⟩, buf'⟩ := q
      rw [parseReads, Buffer.append_eq, hreq]
      cases threw with
      | true => simp [report, drain_threw]
      | false =>
          rw [← ih hnext]
          by_cases hd : ctx'.state = .kDone <;> simp [report, hd]

/-! ## Parsing in pieces -/

/-- One more piece behind the unread bytes, and `ParseRequest`, unless an earlier call has returned
`true` or thrown. -/
def parsePiece (q : ParseResult × HttpContext × Buffer) (piece : Bytes) :
    ParseResult × HttpContext × Buffer :=
  let buf := Buffer.append q.2.2 piece
  if q.1 = .incomplete then parseRequest (q.2.1, buf) else (q.1, q.2.1, buf)

/-- The pieces of a byte string one after another, from a fresh context: the outcome, the context
and the unread bytes. -/
def parsePieces (pieces : List Bytes) : ParseResult × HttpContext × Buffer :=
  pieces.foldl parsePiece (.incomplete, {}, [])

/-- A piece is fed to the parser: what it makes of the piece is what the call returns. -/
theorem parsePiece_report {q : Parsing × Buffer} (hq : parser.next q = none) (piece : Bytes) :
    parsePiece (report q) piece = report (parser.feed q piece) := by
  obtain ⟨⟨threw, ctx⟩, buf⟩ := q
  rw [Consumer.feed, parsePiece, Buffer.append_eq]
  cases threw with
  | true =>
      rw [drain_threw]
      rfl
  | false =>
      by_cases hd : ctx.state = .kDone
      · -- the call that returned `true` was the last one
        rw [drain_done hd]
        simp [report, hd]
      · have hresult : (report ((false, ctx), buf)).1 = .incomplete := by simp [report, hd]
        rw [if_pos hresult]
        exact parseRequest_eq ctx (buf ++ piece)

/-- Piece by piece, the parser is the consumer fed with the pieces. -/
theorem foldl_parsePiece (pieces : List Bytes) {q : Parsing × Buffer}
    (hq : parser.next q = none) :
    pieces.foldl parsePiece (report q) = report (parser.feedAll q pieces) := by
  induction pieces generalizing q with
  | nil => rfl
  | cons piece pieces ih =>
      rw [List.foldl_cons, parsePiece_report hq, Consumer.feedAll_cons]
      exact ih (Consumer.next_drain _)

/-- **Parsing in pieces is parsing at once.** However a byte string is cut, the outcome, the context
and the unread bytes are those of one call with the whole string. -/
theorem parsePieces_eq (pieces : List Bytes) :
    parsePieces pieces = parseRequest ({}, pieces.flatten) := by
  have hfresh : parser.next ((false, {}), []) = none := rfl
  have hpieces := foldl_parsePiece pieces hfresh
  rw [Consumer.feedAll_eq_drain hfresh, List.nil_append] at hpieces
  rw [parseRequest_eq]
  exact hpieces

end NetworkLib.HttpHandler
