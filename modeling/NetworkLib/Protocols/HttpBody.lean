import NetworkLib.Protocols.HeaderFields
import NetworkLib.Protocols.HttpKeepAlive

/-! # HTTP bodies and Content-Length

The length of a request's body is the value of its `Content-Length` field. The parser looks the
field up by its exact spelling, drops one byte behind the colon and reads what is left with `stoi`,
so that only some spellings of the field are followed (`follows_length_iff`). -/

namespace NetworkLib

open HttpResponse

/-- A complete header block. -/
structure HeaderBlock where
  requestLine : Bytes
  lines : List Bytes
  requestLine_crlf : ¬ Buffer.kCRLF <:+: requestLine
  lines_crlf : ∀ line ∈ lines, line ≠ [] ∧ ¬ Buffer.kCRLF <:+: line

namespace HeaderBlock

/-- The bytes of the block, with the empty line that ends it. -/
def bytes (block : HeaderBlock) : Bytes :=
  block.requestLine ++ Buffer.kCRLF ++
    (block.lines.flatMap (fun line => line ++ Buffer.kCRLF) ++ Buffer.kCRLF)

/-- The `Content-Length` fields. -/
def announced (block : HeaderBlock) : List (Bytes × Bytes) :=
  fieldsNamed (bytesOf "content-length") block.lines

end HeaderBlock

/-- The length that a value announces, unless it is none or too large for the parser. -/
def IsLength (value : Bytes) : Prop := IsNumeral value ∧ ofDigits value < 2 ^ 31

instance (value : Bytes) : Decidable (IsLength value) := inferInstanceAs (Decidable (_ ∧ _))

namespace HttpHandler

/-- **The parser follows the announced value**: if it is a length, the request is complete with
exactly so many of the bytes behind the block as its body, and not before; otherwise it is rejected.
-/
def FollowsLength (block : HeaderBlock) (value : Bytes) : Prop :=
  if IsLength value then
    ∀ more : Bytes,
      (ofDigits value ≤ more.length →
        ∃ ctx, parseRequest ({}, block.bytes ++ more)
            = (.complete, ctx, more.drop (ofDigits value)) ∧
          ctx.body = more.take (ofDigits value)) ∧
      (more.length < ofDigits value →
        (parseRequest ({}, block.bytes ++ more)).1 = .incomplete)
  else ∀ more : Bytes, (parseRequest ({}, block.bytes ++ more)).1 = .threw

/-! ## Reading the block -/

variable {block : HeaderBlock}

/-- The context when the header lines have been read. -/
def blockContext (block : HeaderBlock) : HttpContext :=
  { ({} : HttpContext).withRequestLine block.requestLine with
    headers := block.lines.foldl withHeader ∅ }

/-- Header lines that do not throw are stored one after another. -/
theorem drain_lines {ctx : HttpContext} (hs : ctx.state = .kExpectHeaders) {lines : List Bytes}
    (hlines : ∀ line ∈ lines, line ≠ [] ∧ ¬ Buffer.kCRLF <:+: line)
    (hcolon : ∀ line ∈ lines, ¬ EndsAtColon line) (rest : Bytes) :
    parser.drain ((false, ctx), lines.flatMap (fun line => line ++ Buffer.kCRLF) ++ rest)
      = parser.drain ((false, { ctx with headers := lines.foldl withHeader ctx.headers }), rest) := by
  induction lines generalizing ctx with
  | nil => rfl
  | cons line lines ih =>
      obtain ⟨hne, hcrlf⟩ := hlines line List.mem_cons_self
      have hread : readLine ctx line
          = (false, { ctx with headers := withHeader ctx.headers line }) := by
        rw [readLine, if_neg (by simp [hs]), if_neg hne,
          storeHeader_of_not_endsAtColon (hcolon line List.mem_cons_self)]
      rw [List.flatMap_cons, List.append_assoc, drain_line (.inr hs) hcrlf, hread]
      exact ih hs (fun line' hline' => hlines line' (List.mem_cons_of_mem _ hline'))
        fun line' hline' => hcolon line' (List.mem_cons_of_mem _ hline')

/-- A header line that ends at its first colon throws. -/
theorem drain_lines_threw {ctx : HttpContext} (hs : ctx.state = .kExpectHeaders)
    {lines : List Bytes} (hlines : ∀ line ∈ lines, line ≠ [] ∧ ¬ Buffer.kCRLF <:+: line)
    (hcolon : ∃ line ∈ lines, EndsAtColon line) (rest : Bytes) :
    (parser.drain ((false, ctx),
      lines.flatMap (fun line => line ++ Buffer.kCRLF) ++ rest)).1.1 = true := by
  induction lines generalizing ctx with
  | nil =>
      obtain ⟨line, hline, -⟩ := hcolon
      cases hline
  | cons line lines ih =>
      obtain ⟨hne, hcrlf⟩ := hlines line List.mem_cons_self
      rw [List.flatMap_cons, List.append_assoc, drain_line (.inr hs) hcrlf, readLine,
        if_neg (by simp [hs]), if_neg hne]
      by_cases hends : EndsAtColon line
      · rw [storeHeader_eq_none_iff.mpr hends, drain_threw]
      · rw [storeHeader_of_not_endsAtColon hends]
        refine ih hs (fun line' hline' => hlines line' (List.mem_cons_of_mem _ hline')) ?_
        obtain ⟨line', hline', hends'⟩ := hcolon
        rcases List.mem_cons.mp hline' with rfl | hline'
        · exact absurd hends' hends
        · exact ⟨line', hline', hends'⟩

/-- A block with a line that ends at its first colon is rejected. -/
theorem parseRequest_of_endsAtColon (hcolon : ∃ line ∈ block.lines, EndsAtColon line)
    (more : Bytes) : (parseRequest ({}, block.bytes ++ more)).1 = .threw := by
  have hthrew : (parser.drain ((false, {}), block.bytes ++ more)).1.1 = true := by
    rw [HeaderBlock.bytes, List.append_assoc, drain_line (.inl rfl) block.requestLine_crlf,
      List.append_assoc]
    exact drain_lines_threw rfl block.lines_crlf hcolon _
  rw [parseRequest_eq]
  generalize parser.drain ((false, {}), block.bytes ++ more) = q at hthrew ⊢
  obtain ⟨⟨threw, ctx⟩, buf⟩ := q
  cases hthrew
  rfl

/-- **What the parser makes of the bytes behind a block**, by what its header map holds for
`Content-Length`. -/
theorem parseRequest_block (hcolon : ∀ line ∈ block.lines, ¬ EndsAtColon line) (more : Bytes) :
    parseRequest ({}, block.bytes ++ more) =
      match (blockContext block).contentLength with
      | none => (.complete, { blockContext block with state := .kDone }, more)
      | some _ => parseBody ({ blockContext block with state := .kExpectBody }, more) := by
  have hread : readLine {} block.requestLine
      = (false, ({} : HttpContext).withRequestLine block.requestLine) := rfl
  have hs : (blockContext block).state = .kExpectHeaders := rfl
  have hdrain : parser.drain ((false, {}), block.bytes ++ more)
      = parser.drain ((false, { blockContext block with
          state := if (blockContext block).contentLength.isSome then .kExpectBody else .kDone }),
          more) := by
    rw [HeaderBlock.bytes, List.append_assoc, drain_line (.inl rfl) block.requestLine_crlf,
      List.append_assoc, hread, drain_lines rfl block.lines_crlf hcolon]
    exact drain_blank hs more
  rw [parseRequest_eq, hdrain]
  cases hcl : (blockContext block).contentLength with
  | none =>
      rw [Option.isSome_none, if_neg Bool.false_ne_true, drain_done rfl]
      rfl
  | some value =>
      rw [Option.isSome_some, if_pos rfl]
      exact (parseBody_eq (.inl rfl) more).symm

/-! ## The value -/

/-- The blanks around a value. -/
theorem exists_blanks (text : Bytes) : ∃ front back, text = front ++ trim text ++ back ∧
    (∀ b ∈ front, isBlank b = true) ∧ ∀ b ∈ back, isBlank b = true := by
  refine ⟨text.takeWhile isBlank,
    ((text.dropWhile isBlank).reverse.takeWhile isBlank).reverse, ?_, ?_, ?_⟩
  · rw [trim, List.append_assoc, ← List.reverse_append, List.takeWhile_append_dropWhile,
      List.reverse_reverse, List.takeWhile_append_dropWhile]
  · intro b hb
    exact List.mem_takeWhile_imp hb
  · intro b hb
    exact List.mem_takeWhile_imp (List.mem_reverse.mp hb)

/-- What a digit is not. -/
theorem isDigit_spec : ∀ b : UInt8,
    isDigit b = true → isSpace b = false ∧ isBlank b = false ∧ b ≠ 45 ∧ b ≠ 43 ∧ b ≠ 13 ∧
      48 ≤ b.toNat := by
  apply forall_byte
  decide +kernel

/-- What a blank is, and is not. -/
theorem isBlank_spec : ∀ b : UInt8,
    isBlank b = true → isSpace b = true ∧ isDigit b = false ∧ b ≠ 13 := by
  apply forall_byte
  decide +kernel

/-- Without a digit there is no number. -/
theorem strtol_blank {text : Bytes} (h : ∀ b ∈ text, isBlank b = true) : strtol text = none := by
  have hdrop : text.dropWhile isSpace = [] := by
    rw [List.dropWhile_eq_nil_iff]
    exact fun b hb => (isBlank_spec b (h b hb)).1
  rw [strtol, hdrop]
  rfl

/-- The byte that is dropped behind the colon is no part of the numeral: it is a blank, or a zero in
front of more digits. -/
def SparesNumeral (text : Bytes) : Prop :=
  ∃ b rest, text = b :: rest ∧
    (isBlank b = true ∨ b = 48 ∧ ∃ d, rest.head? = some d ∧ isDigit d = true)

/-- Zeros in front do not count. -/
theorem ofDigits_cons (b : UInt8) (digits : Bytes) :
    ofDigits (b :: digits) = (b.toNat - 48) * 10 ^ digits.length + ofDigits digits := by
  have hacc : ∀ (acc : ℕ) (digits : Bytes),
      digits.foldl (fun n b => 10 * n + (b.toNat - 48)) acc
        = acc * 10 ^ digits.length + ofDigits digits := by
    intro acc digits
    induction digits generalizing acc with
    | nil => simp [ofDigits]
    | cons d digits ih =>
        rw [ofDigits, List.foldl_cons, List.foldl_cons, ih, ih (10 * 0 + (d.toNat - 48)),
          List.length_cons, pow_succ]
        ring
  have hcons := hacc (10 * 0 + (b.toNat - 48)) digits
  rw [ofDigits, List.foldl_cons, hcons, Nat.mul_zero, Nat.zero_add]

/-- A digit in front makes a number no smaller. -/
theorem ofDigits_le_cons (b : UInt8) (digits : Bytes) : ofDigits digits ≤ ofDigits (b :: digits) := by
  rw [ofDigits_cons]
  exact Nat.le_add_left _ _

/-- No CR is dropped behind digits and blanks. -/
theorem withoutCR_of_numeral {rest : Bytes} (h : ∀ b ∈ rest, isBlank b = true ∨ isDigit b = true) :
    withoutCR rest = rest := by
  rw [withoutCR_eq_self_iff]
  intro hlast
  rcases h 13 (List.mem_of_getLast? hlast) with hblank | hdigit
  · exact (isBlank_spec 13 hblank).2.2 rfl
  · exact (isDigit_spec 13 hdigit).2.2.2.2.1 rfl

/-- A numeral that fits in an `int` is read between blanks. -/
theorem stoi_numeral {front value back : Bytes} (hfront : ∀ b ∈ front, isBlank b = true)
    (hvalue : value ≠ []) (hdigits : ∀ b ∈ value, isDigit b = true)
    (hback : ∀ b ∈ back, isDigit b = false) (hlt : ofDigits value < 2 ^ 31) :
    stoi (front ++ value ++ back) = some (ofDigits value : ℤ) := by
  rw [stoi, strtol_numeral (fun b hb => (isBlank_spec b (hfront b hb)).1) ⟨hvalue, hdigits⟩ hback,
    Option.bind_some, if_pos (by omega)]

/-- Without its first digit a numeral means the same exactly if that is a zero. -/
theorem ofDigits_tail_iff {d : UInt8} (hd : isDigit d = true) (digits : Bytes) :
    ofDigits digits = ofDigits (d :: digits) ↔ d = 48 := by
  have hd48 := (isDigit_spec d hd).2.2.2.2.2
  rw [ofDigits_cons]
  constructor
  · intro heq
    have hpos : 0 < 10 ^ digits.length := by positivity
    have hzero : d.toNat - 48 = 0 := by
      by_contra hne
      have := Nat.mul_pos (Nat.pos_of_ne_zero hne) hpos
      omega
    have h48 : (48 : UInt8).toNat = 48 := rfl
    exact UInt8.toNat_inj.mp (by rw [h48]; omega)
  · rintro rfl
    have h48 : (48 : UInt8).toNat - 48 = 0 := rfl
    rw [h48, Nat.zero_mul, Nat.zero_add]

/-- A numeral behind a blank loses that blank alone. -/
theorem stoi_storedText_blank (b : UInt8) {front value back : Bytes}
    (hfront : ∀ b ∈ front, isBlank b = true) (hvalue : value ≠ [])
    (hdigits : ∀ b ∈ value, isDigit b = true) (hback : ∀ b ∈ back, isBlank b = true)
    (hlt : ofDigits value < 2 ^ 31) :
    stoi (storedText (b :: (front ++ value ++ back))) = some (ofDigits value : ℤ) := by
  have hstored : storedText (b :: (front ++ value ++ back)) = front ++ value ++ back := by
    rw [storedText, List.drop_succ_cons, List.drop_zero]
    apply withoutCR_of_numeral
    intro b' hb'
    simp only [List.mem_append] at hb'
    rcases hb' with (hb' | hb') | hb'
    · exact .inl (hfront b' hb')
    · exact .inr (hdigits b' hb')
    · exact .inl (hback b' hb')
  rw [hstored]
  exact stoi_numeral hfront hvalue hdigits (fun b hb => (isBlank_spec b (hback b hb)).2.1) hlt

/-- A numeral without a blank in front loses its first digit: the rest is read, and means the same
if that digit is a zero. -/
theorem stoi_storedText_digit {d : UInt8} {digits back : Bytes} (hd : isDigit d = true)
    (hdigits : ∀ b ∈ digits, isDigit b = true) (hback : ∀ b ∈ back, isBlank b = true)
    (hlt : ofDigits (d :: digits) < 2 ^ 31) :
    stoi (storedText (d :: (digits ++ back))) = some (ofDigits (d :: digits) : ℤ) ↔
      d = 48 ∧ digits ≠ [] := by
  have hstored : storedText (d :: (digits ++ back)) = digits ++ back := by
    rw [storedText, List.drop_succ_cons, List.drop_zero]
    apply withoutCR_of_numeral
    intro b hb
    rcases List.mem_append.mp hb with hb | hb
    · exact .inr (hdigits b hb)
    · exact .inl (hback b hb)
  rw [hstored]
  cases digits with
  | nil =>
      rw [stoi, List.nil_append, strtol_blank hback]
      exact iff_of_false (fun hread => by cases hread) fun h => h.2 rfl
  | cons d' digits =>
      have hread : stoi (d' :: digits ++ back) = some (ofDigits (d' :: digits) : ℤ) :=
        stoi_numeral (fun b hb => absurd hb List.not_mem_nil) (List.cons_ne_nil _ _) hdigits
          (fun b hb => (isBlank_spec b (hback b hb)).2.1) ((ofDigits_le_cons d _).trans_lt hlt)
      rw [hread, Option.some_inj, Nat.cast_inj, ofDigits_tail_iff hd]
      exact (and_iff_left (List.cons_ne_nil _ _)).symm

/-- A numeral without a blank in front is spared if it is a zero in front of another digit. -/
theorem sparesNumeral_digit_iff {d : UInt8} {digits back : Bytes} (hd : isDigit d = true)
    (hdigits : ∀ b ∈ digits, isDigit b = true) (hback : ∀ b ∈ back, isBlank b = true) :
    SparesNumeral (d :: (digits ++ back)) ↔ d = 48 ∧ digits ≠ [] := by
  constructor
  · rintro ⟨b, rest, heq, hb⟩
    cases heq
    rcases hb with hblank | ⟨hzero, b, hhead, hdigit⟩
    · rw [(isDigit_spec d hd).2.1] at hblank
      cases hblank
    · refine ⟨hzero, ?_⟩
      rintro rfl
      rw [(isBlank_spec b (hback b (List.mem_of_head? hhead))).2.1] at hdigit
      cases hdigit
  · rintro ⟨hzero, hne⟩
    obtain ⟨d', digits', rfl⟩ := List.exists_cons_of_ne_nil hne
    exact ⟨d, _, rfl, .inr ⟨hzero, d', rfl, hdigits d' List.mem_cons_self⟩⟩

/-- **When `stoi` reads the announced length** from what the header map holds. -/
theorem stoi_storedText_iff {text : Bytes} (h : IsLength (trim text)) :
    stoi (storedText text) = some (ofDigits (trim text) : ℤ) ↔ SparesNumeral text := by
  obtain ⟨front, back, htext, hfront, hback⟩ := exists_blanks text
  obtain ⟨⟨hne, hall⟩, hlt⟩ := h
  generalize trim text = value at htext hne hall hlt ⊢
  cases front with
  | cons b front =>
      have hfront' : ∀ b' ∈ front, isBlank b' = true :=
        fun b' hb' => hfront b' (List.mem_cons_of_mem _ hb')
      have htext' : text = b :: (front ++ value ++ back) := htext
      rw [htext', stoi_storedText_blank b hfront' hne hall hback hlt]
      exact iff_of_true rfl ⟨b, _, rfl, .inl (hfront b List.mem_cons_self)⟩
  | nil =>
      obtain ⟨d, digits, rfl⟩ := List.exists_cons_of_ne_nil hne
      have hd := hall d List.mem_cons_self
      have hdigits : ∀ b ∈ digits, isDigit b = true := fun b hb => hall b (List.mem_cons_of_mem _ hb)
      have htext' : text = d :: (digits ++ back) := htext
      rw [htext', stoi_storedText_digit hd hdigits hback hlt, sparesNumeral_digit_iff hd hdigits hback]

/-- A number read that becomes a length is that length. -/
theorem eq_of_toSize {held : Bytes} {len : ℤ} (h : stoi held = some len) {n : ℕ} (hn : n < 2 ^ 31)
    (hsize : toSize len = n) : len = (n : ℤ) := by
  obtain ⟨value, -, hvalue⟩ := Option.bind_eq_some_iff.mp h
  split at hvalue
  · next hrange =>
      cases hvalue
      unfold toSize at hsize
      omega
  · cases hvalue

/-! ## When the length is followed -/

/-- The spelling that the parser looks up. -/
def contentLengthKey : Bytes := bytesOf "Content-Length"

/-- The condition under which the parser follows the field `name: text`. -/
def FollowsField (block : HeaderBlock) (name text : Bytes) : Prop :=
  if IsLength (trim text) then
    (∀ line ∈ block.lines, ¬ EndsAtColon line) ∧
      if name = contentLengthKey then SparesNumeral text else ofDigits (trim text) = 0
  else
    (∃ line ∈ block.lines, EndsAtColon line) ∨
      name = contentLengthKey ∧ stoi (storedText text) = none

/-- A request whose value the header map does not hold is complete at once. -/
theorem follows_of_none (hcolon : ∀ line ∈ block.lines, ¬ EndsAtColon line)
    (hnone : (blockContext block).contentLength = none) (value : Bytes) :
    FollowsLength block value ↔ IsLength value ∧ ofDigits value = 0 := by
  have hparse : ∀ more, parseRequest ({}, block.bytes ++ more)
      = (.complete, { blockContext block with state := .kDone }, more) := by
    intro more
    rw [parseRequest_block hcolon, hnone]
  unfold FollowsLength
  split
  · next hlength =>
      refine ⟨fun hfollows => ⟨hlength, ?_⟩, ?_⟩
      · by_contra hne
        have hwaits := (hfollows []).2 (Nat.pos_of_ne_zero hne)
        rw [hparse] at hwaits
        cases hwaits
      · rintro ⟨-, hzero⟩ more
        rw [hzero, hparse]
        exact ⟨fun _ => ⟨_, rfl, rfl⟩, fun hlt => absurd hlt (Nat.not_lt_zero _)⟩
  · next hlength =>
      refine iff_of_false (fun hfollows => ?_) fun h => hlength h.1
      have hthrew := hfollows []
      rw [hparse] at hthrew
      cases hthrew

/-- The body stage, given what the header map holds for `Content-Length`. -/
def readHeld (ctx : HttpContext) (held more : Bytes) : ParseResult × HttpContext × Buffer :=
  match stoi held with
  | none => (.threw, ctx, more)
  | some len =>
      if toSize len ≤ more.length then
        (.complete, { ctx with body := more.take (toSize len), state := .kDone },
          Buffer.retrieve more (toSize len))
      else (.incomplete, ctx, more)

/-- The body is read as long as the `Content-Length` that is held says. -/
theorem parseBody_eq_readHeld {ctx : HttpContext} (hs : ctx.state = .kExpectBody) (more : Bytes) :
    parseBody (ctx, more) = readHeld ctx (ctx.contentLength.getD []) more := by
  unfold parseBody
  exact if_pos hs

/-- A body that is complete with as many bytes as announced has the length that was read. -/
theorem stoi_of_complete {ctx ctx' : HttpContext} {held rest : Bytes} {n : ℕ} (hn : n < 2 ^ 31)
    (h : readHeld ctx held (List.replicate n 0) = (.complete, ctx', rest))
    (hbody : ctx'.body = List.replicate n 0) : stoi held = some (n : ℤ) := by
  rw [readHeld] at h
  cases hlen : stoi held with
  | none =>
      rw [hlen] at h
      cases h
  | some len =>
      rw [hlen] at h
      simp only at h
      split at h
      · next hle =>
          rw [Prod.mk.injEq, Prod.mk.injEq] at h
          rw [← h.2.1] at hbody
          have hlength := congrArg List.length hbody
          simp only [List.length_take, List.length_replicate] at hlength hle
          rw [eq_of_toSize hlen hn (by omega)]
      · cases h

/-- The body stage throws exactly if `stoi` fails. -/
theorem readHeld_threw_iff {ctx : HttpContext} {held more : Bytes} :
    (readHeld ctx held more).1 = .threw ↔ stoi held = none := by
  rw [readHeld]
  cases hlen : stoi held with
  | none => exact iff_of_true rfl rfl
  | some len =>
      refine iff_of_false ?_ (Option.some_ne_none len)
      simp only
      split
      · intro h
        cases h
      · intro h
        cases h

/-- A request whose value the header map holds follows it if `stoi` reads the announced length from
what is held, or fails on it when no length is announced. -/
theorem follows_of_some (hcolon : ∀ line ∈ block.lines, ¬ EndsAtColon line) {held : Bytes}
    (hsome : (blockContext block).contentLength = some held) (value : Bytes) :
    FollowsLength block value ↔
      if IsLength value then stoi held = some (ofDigits value : ℤ) else stoi held = none := by
  have hget : (({ blockContext block with state := .kExpectBody } : HttpContext).contentLength.getD
      []) = held := congrArg (Option.getD · []) hsome
  have hparse : ∀ more, parseRequest ({}, block.bytes ++ more)
      = readHeld { blockContext block with state := .kExpectBody } held more := by
    intro more
    rw [parseRequest_block hcolon, hsome, ← hget]
    exact parseBody_eq_readHeld rfl more
  unfold FollowsLength
  simp only [hparse]
  split
  · next hlength =>
      constructor
      · intro hfollows
        -- a body of zeros that is just long enough
        obtain ⟨ctx, hcomplete, hbody⟩ :=
          (hfollows (List.replicate (ofDigits value) 0)).1 (by rw [List.length_replicate])
        rw [List.take_of_length_le (by rw [List.length_replicate])] at hbody
        exact stoi_of_complete hlength.2 hcomplete hbody
      · intro hread more
        rw [readHeld, hread]
        simp only [toSize_natCast (stoi_lt hread), Buffer.retrieve_eq_drop]
        constructor
        · intro hle
          rw [if_pos hle]
          exact ⟨_, rfl, rfl⟩
        · intro hlt
          rw [if_neg (Nat.not_le_of_lt hlt)]
  · constructor
    · intro hfollows
      exact readHeld_threw_iff.mp (hfollows [])
    · intro hnone more
      exact readHeld_threw_iff.mpr hnone

/-- **When a request's body is framed by its Content-Length.** For every complete header block with
one `Content-Length` field, in any letter case: the parser follows its value exactly if

* the value is a length, no header line ends at its first colon, and the name is spelled
  `Content-Length` with the byte behind the colon a blank (or a zero in front of more digits), or it
  is spelled in another way and the length is zero; or
* the value is no length, and some header line ends at its first colon, or the name is spelled
  `Content-Length` and `stoi` fails on the text without the byte behind the colon. -/
theorem follows_length_iff {name text : Bytes} (h : block.announced = [(name, text)]) :
    FollowsLength block (trim text) ↔ FollowsField block name text := by
  -- A line that ends at its colon makes the parser throw whatever the length says.
  by_cases hcolon : ∃ line ∈ block.lines, EndsAtColon line
  · have hthrew := parseRequest_of_endsAtColon hcolon
    have hnot : ¬ ∀ line ∈ block.lines, ¬ EndsAtColon line := by
      obtain ⟨line, hline, hends⟩ := hcolon
      exact fun hall => hall line hline hends
    unfold FollowsLength FollowsField
    split
    · refine iff_of_false (fun hfollows => ?_) fun hfield => hnot hfield.1
      obtain ⟨ctx, hcomplete, -⟩ :=
        (hfollows (List.replicate (ofDigits (trim text)) 0)).1 (by rw [List.length_replicate])
      have hone := hthrew (List.replicate (ofDigits (trim text)) 0)
      rw [hcomplete] at hone
      cases hone
    · exact iff_of_true hthrew (.inl hcolon)
  · have hcolon' : ∀ line ∈ block.lines, ¬ EndsAtColon line :=
      fun line hline hends => hcolon ⟨line, hline, hends⟩
    have hkey : contentLengthKey.map toLower = bytesOf "content-length" := by decide
    have hlookup : (blockContext block).contentLength
        = if name = contentLengthKey then some (storedText text) else none :=
      lookup_of_fieldsNamed hcolon' hkey h
    unfold FollowsField
    -- the field is looked up by one spelling of its name
    by_cases hname : name = contentLengthKey
    · rw [if_pos hname] at hlookup
      rw [follows_of_some hcolon' hlookup]
      by_cases hlength : IsLength (trim text)
      · rw [if_pos hlength, if_pos hlength, if_pos hname, stoi_storedText_iff hlength]
        exact ⟨fun hspares => ⟨hcolon', hspares⟩, fun hspares => hspares.2⟩
      · rw [if_neg hlength, if_neg hlength]
        exact ⟨fun hnone => .inr ⟨hname, hnone⟩, fun hor => (hor.resolve_left hcolon).2⟩
    · rw [if_neg hname] at hlookup
      rw [follows_of_none hcolon' hlookup]
      by_cases hlength : IsLength (trim text)
      · rw [if_pos hlength, if_neg hname]
        exact ⟨fun hzero => ⟨hcolon', hzero.2⟩, fun hzero => ⟨hlength, hzero.2⟩⟩
      · rw [if_neg hlength]
        exact iff_of_false (fun hzero => hlength hzero.1) fun hor =>
          hname (hor.resolve_left hcolon).1

/-- A length is not followed by a parser that does not wait for it. -/
theorem not_follows_of_ne_incomplete {value : Bytes} (more : Bytes) (hlength : IsLength value)
    (hlt : more.length < ofDigits value)
    (hne : (parseRequest ({}, block.bytes ++ more)).1 ≠ .incomplete) :
    ¬ FollowsLength block value := by
  intro hfollows
  rw [FollowsLength, if_pos hlength] at hfollows
  exact hne ((hfollows more).2 hlt)

/-- What is no length is not followed by a parser that does not throw. -/
theorem not_follows_of_ne_threw {value : Bytes} (more : Bytes) (hlength : ¬ IsLength value)
    (hne : (parseRequest ({}, block.bytes ++ more)).1 ≠ .threw) : ¬ FollowsLength block value := by
  intro hfollows
  rw [FollowsLength, if_neg hlength] at hfollows
  exact hne (hfollows more)

/-- A block with one header line. -/
def oneField (line : Bytes) (h : line ≠ [] ∧ ¬ Buffer.kCRLF <:+: line) : HeaderBlock where
  requestLine := bytesOf "POST / HTTP/1.1"
  lines := [line]
  requestLine_crlf := by decide +kernel
  lines_crlf := by
    intro line' hline'
    rw [List.mem_singleton] at hline'
    rwa [hline']

/-- A field as clients write it. -/
def usual : HeaderBlock := oneField (bytesOf "Content-Length: 5") (by decide +kernel)

/-- A name in lower case. -/
def lowerCase : HeaderBlock := oneField (bytesOf "content-length: 5") (by decide +kernel)

/-- A value directly behind the colon. -/
def noBlank : HeaderBlock := oneField (bytesOf "Content-Length:15") (by decide +kernel)

/-- A sign. -/
def signed : HeaderBlock := oneField (bytesOf "Content-Length: -1") (by decide +kernel)

/-- Something behind the number. -/
def trailing : HeaderBlock := oneField (bytesOf "Content-Length: 5x") (by decide +kernel)

/-- The parser follows the usual field. -/
theorem follows_length_iff_five : FollowsLength usual (trim (bytesOf " 5")) := by
  have hone : usual.announced = [(contentLengthKey, bytesOf " 5")] := by decide
  rw [follows_length_iff hone, FollowsField, if_pos (by decide +kernel), if_pos rfl]
  exact ⟨by decide, 32, bytesOf "5", rfl, .inl rfl⟩

/-- It does not follow the other four. -/
theorem length_not_followed :
    ¬ FollowsLength lowerCase (bytesOf "5") ∧ ¬ FollowsLength noBlank (bytesOf "15") ∧
      ¬ FollowsLength signed (bytesOf "-1") ∧ ¬ FollowsLength trailing (bytesOf "5x") := by
  refine ⟨not_follows_of_ne_incomplete [] ?_ ?_ ?_,
    not_follows_of_ne_incomplete (bytesOf "hello") ?_ ?_ ?_,
    not_follows_of_ne_threw [] ?_ ?_, not_follows_of_ne_threw [] ?_ ?_⟩ <;> decide +kernel

end HttpHandler

end NetworkLib
