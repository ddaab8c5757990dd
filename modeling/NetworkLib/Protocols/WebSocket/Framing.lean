import NetworkLib.Protocols.WebSocket.FrameParser
import NetworkLib.Theory.Cutting

/-! # WebSocket frames on the wire

Well-formed frames with the minimal encoding of their length, and what `FrameParser` makes of their
concatenation. From `kHeader` a whole frame is parsed exactly (`parse_wire`). A part of a frame that
holds its two header bytes leaves the parser past `kHeader` over bytes the caller keeps, and from
then on no `Parse` returns the expected frame (`desynced_turn`). -/

namespace NetworkLib

open Loop

/-- A mask key. -/
abbrev MaskKey := { key : Bytes // key.length = 4 }

/-- A frame to be sent, of at most 1 GiB. -/
structure WireFrame where
  fin : Bool
  opcode : Fin 16
  maskKey : Option MaskKey
  payload : Bytes
  payload_le : payload.length ≤ 1024 * 1024 * 1024

namespace WireFrame

/-- The seven length bits of the second byte. -/
def lenCode (n : ℕ) : ℕ := if n < 126 then n else if n < 65536 then 126 else 127

/-- The extended length. -/
def extended (n : ℕ) : Bytes :=
  if n < 126 then [] else if n < 65536 then bigEndian 2 n else bigEndian 8 n

def byte1 (f : WireFrame) : UInt8 := (if f.fin then 0x80 else 0) ||| UInt8.ofNat f.opcode

def byte2 (f : WireFrame) : UInt8 :=
  (if f.maskKey.isSome then 0x80 else 0) ||| UInt8.ofNat (lenCode f.payload.length)

/-- The mask key bytes. -/
def key (f : WireFrame) : Bytes := f.maskKey.elim [] Subtype.val

/-- The payload bytes as they are sent. -/
def body (f : WireFrame) : Bytes :=
  if f.maskKey.isSome then applyMask f.key f.payload else f.payload

/-- The bytes of the frame. -/
def wire (f : WireFrame) : Bytes :=
  f.byte1 :: f.byte2 :: (extended f.payload.length ++ (f.key ++ f.body))

/-- The frame as it is to be parsed. -/
def frame (f : WireFrame) : Frame where
  fin := f.fin
  opcode := UInt8.ofNat f.opcode
  masked := f.maskKey.isSome
  payload := f.payload

/-! ## The bits of the header -/

/-- The length code fits in seven bits. -/
theorem lenCode_lt (n : ℕ) : lenCode n < 128 := by
  unfold lenCode
  split_ifs <;> omega

/-- The bits of the first byte are read back. -/
theorem byte1_bits (fin : Bool) (opcode : Fin 16) :
    (((if fin then 0x80 else 0) ||| UInt8.ofNat opcode) &&& 0x80 ≠ 0 ↔ fin = true) ∧
      ((if fin then 0x80 else 0) ||| UInt8.ofNat opcode) &&& 0x0F = UInt8.ofNat opcode := by
  revert fin opcode
  decide

/-- So are the bits of the second. -/
theorem byte2_bits (masked : Bool) (code : Fin 128) :
    (((if masked then 0x80 else 0) ||| UInt8.ofNat code) &&& 0x80 ≠ 0 ↔ masked = true) ∧
      ((if masked then 0x80 else 0) ||| UInt8.ofNat code) &&& 0x7F = UInt8.ofNat code := by
  revert masked code
  decide

/-- So is the length code. -/
theorem lenCode_byte (code : Fin 128) :
    (UInt8.ofNat code = 126 ↔ code.val = 126) ∧ (UInt8.ofNat code = 127 ↔ code.val = 127) ∧
      (UInt8.ofNat code).toNat = code.val := by
  revert code
  decide

/-- Masking twice with one key changes nothing. -/
@[simp] theorem applyMask_applyMask (key payload : Bytes) :
    applyMask key (applyMask key payload) = payload := by
  unfold applyMask
  rw [List.mapIdx_mapIdx]
  refine List.ext_getElem (by simp) fun i _ _ => ?_
  simp only [List.getElem_mapIdx, Function.comp_apply, UInt8.xor_assoc, UInt8.xor_self,
    UInt8.xor_zero]

@[simp] theorem length_body (f : WireFrame) : f.body.length = f.payload.length := by
  unfold body
  split <;> simp

/-- How long the mask key is. -/
theorem length_key (f : WireFrame) : f.key.length = if f.maskKey.isSome then 4 else 0 := by
  cases h : f.maskKey with
  | none => simp [key, h]
  | some k => simpa [key, h] using k.2

/-- How long the extended length is. -/
theorem length_extended (n : ℕ) :
    (extended n).length = if n < 126 then 0 else if n < 65536 then 2 else 8 := by
  unfold extended
  split_ifs <;> simp

/-- How long a frame is. -/
theorem length_wire (f : WireFrame) :
    f.wire.length = 2 + (extended f.payload.length).length + f.key.length + f.payload.length := by
  simp only [wire, List.length_cons, List.length_append, length_body]
  omega

end WireFrame

namespace FrameParser

open WireFrame

/-- The parser with the header bits of `f` read. -/
def sawHeader (p : FrameParser) (f : WireFrame) : FrameParser :=
  { p with
    currentFrame :=
      { p.currentFrame with
        fin := f.fin, opcode := UInt8.ofNat f.opcode, masked := f.maskKey.isSome } }

/-- The fixed header of a frame of the wire. -/
theorem withHeader_wire (p : FrameParser) (f : WireFrame) :
    p.withHeader f.byte1 f.byte2 =
      if f.payload.length < 126 then (p.sawHeader f).withLength f.payload.length
      else if f.payload.length < 65536 then
        { p.sawHeader f with state := .kPayloadLength, bytesNeeded := 2 }
      else { p.sawHeader f with state := .kPayloadLength, bytesNeeded := 8 } := by
  obtain ⟨hfin, hop⟩ := byte1_bits f.fin f.opcode
  obtain ⟨hmask, hbits⟩ := byte2_bits f.maskKey.isSome ⟨_, lenCode_lt f.payload.length⟩
  obtain ⟨h126, h127, hcode⟩ := lenCode_byte ⟨_, lenCode_lt f.payload.length⟩
  simp only [withHeader, byte1, byte2, hfin, hop, hmask, hbits, h126, h127, hcode,
    Bool.decide_eq_true]
  unfold lenCode
  split_ifs <;> first | omega | rfl

/-- The length stage reads the length of a frame of the wire. -/
theorem parseLength_wire (p : FrameParser) (f : WireFrame) (rest : Bytes) :
    parseLength (f.byte1 :: f.byte2 :: (extended f.payload.length ++ rest))
        (p.withHeader f.byte1 f.byte2) 2
      = ((p.sawHeader f).withLength f.payload.length,
          some (2 + (extended f.payload.length).length)) := by
  have hle := f.payload_le
  have htake : ((f.byte1 :: f.byte2 :: (extended f.payload.length ++ rest)).drop 2).take
      (extended f.payload.length).length = extended f.payload.length := List.take_left
  have hlen := length_extended f.payload.length
  rw [withHeader_wire]
  by_cases h126 : f.payload.length < 126
  · rw [if_pos h126] at hlen ⊢
    rw [parseLength_of_ne (withLength_spec _ _).2.1, hlen]
  · rw [if_neg h126] at hlen ⊢
    by_cases h64k : f.payload.length < 65536
    · rw [if_pos h64k] at hlen ⊢
      have hdecode : ofBigEndian (extended f.payload.length) = f.payload.length := by
        rw [extended, if_neg h126, if_pos h64k]
        exact ofBigEndian_bigEndian h64k
      rw [hlen] at htake
      rw [parseLength, if_pos rfl, if_neg (by simp [hlen]; omega), if_pos rfl, htake, hdecode, hlen]
      rfl
    · rw [if_neg h64k] at hlen ⊢
      have hdecode : ofBigEndian (extended f.payload.length) = f.payload.length := by
        rw [extended, if_neg h126, if_neg h64k]
        exact ofBigEndian_bigEndian (by omega)
      rw [hlen] at htake
      rw [parseLength, if_pos rfl, if_neg (by simp [hlen]), if_neg (by simp)]
      simp only [htake, hdecode]
      rw [if_neg (by omega), if_neg (by omega), hlen]
      rfl

/-- The mask stage reads the key of a frame of the wire, if it has one. -/
theorem parseMaskKey_wire (p : FrameParser) (f : WireFrame) {data rest : Bytes} {offset : ℕ}
    (h : data.drop offset = f.key ++ rest) :
    ∃ q, parseMaskKey data ((p.sawHeader f).withLength f.payload.length) offset
        = (q, some (offset + f.key.length)) ∧ q.state = .kPayload ∧
      q.currentFrame = (p.sawHeader f).currentFrame ∧ q.payloadLength = f.payload.length ∧
      (f.maskKey.isSome → q.maskKey = f.key) := by
  have hkey := length_key f
  have hmasked : (p.sawHeader f).currentFrame.masked = f.maskKey.isSome := rfl
  have hlen := congrArg List.length h
  rw [List.length_drop, List.length_append] at hlen
  cases hm : f.maskKey.isSome with
  | false =>
      rw [hm] at hkey
      have hstate : ((p.sawHeader f).withLength f.payload.length).state = .kPayload := by
        simp [withLength, hmasked, hm]
      refine ⟨(p.sawHeader f).withLength f.payload.length, ?_, hstate, rfl, rfl, by simp⟩
      rw [parseMaskKey_of_ne (by simp [hstate]), hkey]
      rfl
  | true =>
      rw [hm, if_pos rfl] at hkey
      have htake : (data.drop offset).take 4 = f.key := by
        rw [h, ← hkey, List.take_left]
      have hstate : ((p.sawHeader f).withLength f.payload.length).state = .kMaskKey := by
        simp [withLength, hmasked, hm]
      rw [parseMaskKey, if_pos hstate, if_neg (by omega), hkey]
      exact ⟨_, rfl, rfl, rfl, rfl, fun _ => htake⟩

/-- **A whole frame at the front of the buffer is parsed exactly**, whatever follows it. -/
theorem parse_wire {p : FrameParser} (hp : p.state = .kHeader) (f : WireFrame) (rest : Bytes) :
    ∃ q, parse (f.wire ++ rest) p = (q, some (f.wire.length, f.frame)) := by
  -- The four parts of a frame, one behind the other, and what each step of `Parse` takes.
  have hwire : f.wire ++ rest
      = f.byte1 :: f.byte2 :: (extended f.payload.length ++ (f.key ++ (f.body ++ rest))) := by
    simp [wire]
  have hsize := length_wire f
  rw [hwire, parse_of_header hp (by simp)]
  simp only [List.getD_cons_zero, List.getD_cons_succ, parseRest, parseLength_wire]
  set data := f.byte1 :: f.byte2 :: (extended f.payload.length ++ (f.key ++ (f.body ++ rest)))
  set offset := 2 + (extended f.payload.length).length with hoffset
  have hdrop : data.drop offset = f.key ++ (f.body ++ rest) := by
    rw [hoffset, ← List.drop_drop]
    exact List.drop_left
  obtain ⟨q, hq, hstate, hframe, hlength, hmask⟩ := parseMaskKey_wire p f hdrop
  have hbody : data.drop (offset + f.key.length) = f.body ++ rest := by
    rw [← List.drop_drop, hdrop, List.drop_left]
  have htake : (data.drop (offset + f.key.length)).take q.payloadLength = f.body := by
    rw [hbody, hlength, ← length_body, List.take_left]
  have hlen := congrArg List.length hbody
  rw [List.length_drop, List.length_append, length_body] at hlen
  have hmasked : q.currentFrame.masked = f.maskKey.isSome := by rw [hframe]; rfl
  have hpayload : (if q.currentFrame.masked then applyMask q.maskKey f.body else f.body)
      = f.payload := by
    rw [hmasked, body]
    cases hm : f.maskKey.isSome with
    | false => simp
    | true => simp [hmask hm]
  simp only [hq, parsePayload, if_pos hstate, htake, hpayload]
  rw [if_neg (by omega), hlength, hframe, hsize]
  exact ⟨_, rfl⟩

/-- What is left to read in front of the payload, behind the first two bytes. -/
theorem withHeader_overhead (p : FrameParser) (f : WireFrame) :
    (p.withHeader f.byte1 f.byte2).overhead
      = (extended f.payload.length).length + f.key.length := by
  have hmasked : (p.sawHeader f).currentFrame.masked = f.maskKey.isSome := rfl
  rw [withHeader_wire, length_extended, length_key]
  by_cases h126 : f.payload.length < 126
  · rw [if_pos h126, if_pos h126, (withLength_spec _ _).2.2, hmasked, Nat.zero_add]
  · rw [if_neg h126, if_neg h126]
    split_ifs <;> simp_all [overhead]

/-- The two header bytes of a frame in part are those of the frame. -/
theorem part_eq {f : WireFrame} {data : Bytes} (hpre : data <+: f.wire) (h2 : 2 ≤ data.length) :
    ∃ more, data = f.byte1 :: f.byte2 :: more ∧
      more <+: extended f.payload.length ++ (f.key ++ f.body) := by
  obtain ⟨rest, hrest⟩ := hpre
  obtain _ | ⟨b1, _ | ⟨b2, more⟩⟩ := data
  · simp at h2
  · simp at h2
  · rw [wire, List.cons_append, List.cons_append] at hrest
    injection hrest with h1 hrest
    injection hrest with h2 hrest
    exact ⟨more, by rw [h1, h2], rest, hrest⟩

/-- **A part of a frame is not parsed.** -/
theorem parse_part {p : FrameParser} (hp : p.state = .kHeader) {f : WireFrame} {data : Bytes}
    (hpre : data <+: f.wire) (h2 : 2 ≤ data.length) (hlt : data.length < f.wire.length) :
    (parse data p).2 = none := by
  -- Two bytes of the header are there; the cut lies in one of the three parts behind them.
  obtain ⟨more, rfl, hmore⟩ := part_eq hpre h2
  have hsize := length_wire f
  have hkey := length_key f
  simp only [List.length_cons] at hlt
  rw [parse_of_header hp (by simp)]
  simp only [List.getD_cons_zero, List.getD_cons_succ]
  by_cases hext : more.length < (extended f.payload.length).length
  · -- cut inside the extended length
    have hstop : parseLength (f.byte1 :: f.byte2 :: more) (p.withHeader f.byte1 f.byte2) 2
        = (p.withHeader f.byte1 f.byte2, none) := by
      rw [withHeader_wire]
      rw [length_extended] at hext
      split_ifs at hext ⊢
      all_goals first | omega | (rw [parseLength, if_pos rfl, if_pos (by simpa using hext)])
    simp only [parseRest, hstop]
  · obtain ⟨more', rfl⟩ : extended f.payload.length <+: more :=
      List.prefix_of_prefix_length_le (List.prefix_append _ _) hmore (by omega)
    rw [List.prefix_append_right_inj] at hmore
    rw [List.length_append] at hlt
    simp only [parseRest, parseLength_wire]
    set data := f.byte1 :: f.byte2 :: (extended f.payload.length ++ more')
    set offset := 2 + (extended f.payload.length).length with hoffset
    have hdrop : data.drop offset = more' := by
      rw [hoffset, ← List.drop_drop]
      exact List.drop_left
    have hlen := congrArg List.length hdrop
    rw [List.length_drop] at hlen
    by_cases hk : more'.length < f.key.length
    · -- cut inside the key
      have hmask : f.maskKey.isSome := by
        by_contra hm
        rw [if_neg hm] at hkey
        omega
      have hstate : ((p.sawHeader f).withLength f.payload.length).state = .kMaskKey := by
        simp [withLength, sawHeader, hmask]
      rw [if_pos hmask] at hkey
      rw [parseMaskKey, if_pos hstate, if_pos (by omega)]
    · -- cut inside the payload
      obtain ⟨more'', rfl⟩ : f.key <+: more' :=
        List.prefix_of_prefix_length_le (List.prefix_append _ _) hmore (by omega)
      obtain ⟨q, hq, hstate, -, hlength, -⟩ := parseMaskKey_wire p f hdrop
      rw [List.length_append] at hlen hlt
      simp only [hq, parsePayload, if_pos hstate]
      rw [if_pos (by omega)]

/-! ## Driving the parser over a stream of frames -/

/-- What the loop returned so far: each frame with the bytes it consumed. -/
abbrev FrameLog := List (Frame × ℕ)

/-- Log a parsed frame and go on. -/
def record (log : FrameLog) (consumed : ℕ) (frame : Frame) : FrameLog × Bool :=
  (log ++ [(frame, consumed)], false)

/-- The frame loop run after each read. -/
def receiveAll (q : FrameLog × FrameParser × Buffer) (reads : List Bytes) :
    FrameLog × FrameParser × Buffer :=
  reads.foldl (fun q read => drive record (q.1, q.2.1, Buffer.append q.2.2 read)) q

/-- The bytes of each frame. -/
def wires (frames : List WireFrame) : List Bytes := frames.map wire

/-- The frames and sizes to be returned. -/
def expected (frames : List WireFrame) : FrameLog := frames.map fun f => (f.frame, f.wire.length)

/-- The number of bytes `n` ends at a frame boundary, or one byte after it. -/
def NearBoundary (frames : List WireFrame) (n : ℕ) : Prop :=
  ∃ j ≤ frames.length, n = ((wires frames).take j).flatten.length ∨
    n = ((wires frames).take j).flatten.length + 1

/-- A frame has two bytes at least. -/
theorem two_le_length_wire (f : WireFrame) : 2 ≤ f.wire.length := by
  rw [length_wire]
  omega

section Handle

variable {τ : Type*}

/-- Whole frames handled one after another, until `act` leaves the loop: the frames still unread
then, if it does. -/
def handle (act : τ → ℕ → Frame → τ × Bool) : τ → List WireFrame → τ × Option (List WireFrame)
  | t, [] => (t, none)
  | t, f :: frames =>
      match act t f.wire.length f.frame with
      | (t, true) => (t, some frames)
      | (t, false) => handle act t frames

/-- The bytes of some frames begin with those of the first. -/
theorem flatten_wires_cons (f : WireFrame) (frames : List WireFrame) (tail : Bytes) :
    (wires (f :: frames)).flatten ++ tail = f.wire ++ ((wires frames).flatten ++ tail) := by
  simp [wires]

@[simp] theorem flatten_wires_append (frames frames' : List WireFrame) :
    (wires (frames ++ frames')).flatten = (wires frames).flatten ++ (wires frames').flatten := by
  simp [wires]

variable (act : τ → ℕ → Frame → τ × Bool)

/-- A turn takes the whole frame in front of it. -/
theorem turn_wire {p : FrameParser} (hp : p.state = .kHeader) (t : τ) (f : WireFrame)
    (rest : Bytes) :
    ∃ q : FrameParser, q.state = .kHeader ∧ turn act (t, p, f.wire ++ rest)
      = match act t f.wire.length f.frame with
        | (t, true) => .leave (t, q, rest)
        | (t, false) => .again (t, q, rest) := by
  have htwo := two_le_length_wire f
  have hlen : (f.wire ++ rest).length ≠ 0 := by
    rw [List.length_append]
    omega
  obtain ⟨q, hq⟩ := parse_wire hp f rest
  refine ⟨q, (parse_some hq).1, ?_⟩
  rcases hact : act t f.wire.length f.frame with ⟨t', left⟩
  rw [turn_of_frame hlen hq hact, List.drop_left]
  cases left with
  | true => rfl
  | false => rfl

/-- **The frame loop on whole frames.** In `kHeader` it handles them one after another; when it is
not left, it goes on with the bytes behind them. -/
theorem drive_handle {p : FrameParser} (hp : p.state = .kHeader) (t : τ) (frames : List WireFrame)
    (tail : Bytes) :
    ∃ q : FrameParser, q.state = .kHeader ∧ drive act (t, p, (wires frames).flatten ++ tail)
      = match handle act t frames with
        | (t, some rest) => (t, q, (wires rest).flatten ++ tail)
        | (t, none) => drive act (t, q, tail) := by
  induction frames generalizing p t with
  | nil => exact ⟨p, hp, rfl⟩
  | cons f frames ih =>
      obtain ⟨q, hq, hturn⟩ := turn_wire act hp t f ((wires frames).flatten ++ tail)
      rw [flatten_wires_cons, handle]
      generalize act t f.wire.length f.frame = handled at hturn ⊢
      obtain ⟨t', _ | _⟩ := handled
      · obtain ⟨r, hr, hdrive⟩ := ih hq t'
        refine ⟨r, hr, ?_⟩
        rw [drive, run_of_again _ turn_rank hturn]
        exact hdrive
      · exact ⟨q, hq, run_of_leave _ hturn⟩

end Handle

/-- The loop that only records handles all frames. -/
theorem handle_record (log : FrameLog) (frames : List WireFrame) :
    handle record log frames = (log ++ expected frames, none) := by
  induction frames generalizing log with
  | nil => exact congrArg (·, none) (List.append_nil log).symm
  | cons f frames ih =>
      rw [handle]
      simp only [record]
      rw [ih, expected, expected, List.map_cons, List.append_assoc, List.singleton_append]

/-- In `kHeader`, the loop takes all whole frames off the front. -/
theorem drive_wires {p : FrameParser} (hp : p.state = .kHeader) (log : FrameLog)
    (frames : List WireFrame) (tail : Bytes) :
    ∃ q, q.state = .kHeader ∧ drive record (log, p, (wires frames).flatten ++ tail)
      = drive record (log ++ expected frames, q, tail) := by
  obtain ⟨q, hq, hdrive⟩ := drive_handle record hp log frames tail
  rw [handle_record] at hdrive
  exact ⟨q, hq, hdrive⟩

/-- In `kHeader`, the loop leaves less than two bytes alone. -/
theorem drive_short {p : FrameParser} (hp : p.state = .kHeader) (log : FrameLog) {tail : Bytes}
    (htail : tail.length < 2) : drive record (log, p, tail) = (log, p, tail) := by
  refine run_of_leave _ ?_
  rw [turn]
  split
  · rfl
  · rw [parse_of_short hp htail]

/-- The loop has lost the frame boundaries: its parser is past `kHeader` with less overhead to read
than the frame in front of it has, or it has returned something else than the frames. -/
inductive Desynced (frames : List WireFrame) : FrameLog → FrameParser → Prop where
  | pending {p : FrameParser} (j : ℕ) (hj : j < frames.length) :
      p.state ≠ .kHeader → p.overhead + (frames[j]).payload.length + 2 ≤ (frames[j]).wire.length →
      Desynced frames ((expected frames).take j) p
  | wrong {log : FrameLog} {p : FrameParser} : ¬ log <+: expected frames → Desynced frames log p

/-- What is expected of one frame. -/
theorem expected_getElem {frames : List WireFrame} {j : ℕ} (hj : j < frames.length) :
    (expected frames)[j]? = some ((frames[j]).frame, (frames[j]).wire.length) := by
  rw [expected, List.getElem?_map, List.getElem?_eq_getElem hj, Option.map_some]

/-- Past `kHeader`, what a `Parse` returns is not the frame in front of the loop: it consumes too
little for its payload. -/
theorem not_prefix_of_pending {frames : List WireFrame} {j : ℕ} (hj : j < frames.length) {n : ℕ}
    {frame : Frame} (hn : n < (frames[j]).wire.length - (frames[j]).payload.length
      + frame.payload.length) :
    ¬ (expected frames).take j ++ [(frame, n)] <+: expected frames := by
  rintro ⟨rest, hrest⟩
  have hlen : ((expected frames).take j).length = j := by
    rw [List.length_take, expected, List.length_map]
    omega
  have hget : (expected frames)[j]? = some (frame, n) := by
    rw [← hrest, List.append_assoc, List.getElem?_append_right (by omega), hlen, Nat.sub_self]
    rfl
  rw [expected_getElem hj] at hget
  simp only [Option.some.injEq, Prod.mk.injEq] at hget
  obtain ⟨hframe, hsize⟩ := hget
  have hpayload : frame.payload.length = (frames[j]).payload.length := by rw [← hframe]; rfl
  have := length_wire frames[j]
  omega

/-- A turn does not find the boundaries again. -/
theorem desynced_turn {frames : List WireFrame} {log : FrameLog} {p : FrameParser} {buf : Buffer}
    (h : Desynced frames log p) {r : FrameLog × FrameParser × Buffer}
    (hr : turn record (log, p, buf) = .again r ∨ turn record (log, p, buf) = .leave r) :
    Desynced frames r.1 r.2.1 := by
  by_cases hbuf : buf.length = 0
  · have hturn : turn record (log, p, buf) = .leave (log, p, buf) := if_pos hbuf
    simp only [hturn, reduceCtorEq, false_or, Turn.leave.injEq] at hr
    exact hr ▸ h
  · rw [turn, if_neg hbuf] at hr
    cases h with
    | pending j hj hp hover =>
        -- the payload of another frame is still awaited: nothing comes out, or a frame that is not
        -- the one sent
        rw [parse_of_ne hp] at hr
        obtain ⟨q, hq, hstate, hle⟩ | ⟨q, n, frame, hq, -, -, hn⟩ :=
          parseRest_spec buf hp (Nat.zero_le _)
        · simp only [hq, reduceCtorEq, false_or, Turn.leave.injEq] at hr
          rw [← hr]
          have hbound : q.overhead + (frames[j]).payload.length + 2 ≤ (frames[j]).wire.length := by
            omega
          exact .pending j hj hstate hbound
        · simp only [hq, record, reduceCtorEq, or_false, Turn.again.injEq] at hr
          rw [← hr]
          exact .wrong (not_prefix_of_pending hj (by omega))
    | wrong hlog =>
        -- a log that is wrong stays wrong
        generalize parse buf p = q at hr
        obtain ⟨q, _ | ⟨n, frame⟩⟩ := q
        · simp only [reduceCtorEq, false_or, Turn.leave.injEq] at hr
          rw [← hr]
          exact .wrong hlog
        · simp only [record, reduceCtorEq, or_false, Turn.again.injEq] at hr
          rw [← hr]
          exact .wrong fun hpre => hlog ((List.prefix_append _ _).trans hpre)

/-- A run of the loop does not find the boundaries again. -/
theorem desynced_drive {frames : List WireFrame} {log : FrameLog} {p : FrameParser} {buf : Buffer}
    (h : Desynced frames log p) :
    Desynced frames (drive record (log, p, buf)).1 (drive record (log, p, buf)).2.1 := by
  let D (r : FrameLog × FrameParser × Buffer) : Prop := Desynced frames r.1 r.2.1
  exact run_induction (P := D) (Q := D) rank turn_rank (fun _ _ hs ht => desynced_turn hs (.inl ht))
    (fun _ _ hs ht => desynced_turn hs (.inr ht)) (log, p, buf) h

/-- Once the boundaries are lost, the frames are never returned. -/
theorem Desynced.log_ne {frames : List WireFrame} {log : FrameLog} {p : FrameParser}
    (h : Desynced frames log p) : log ≠ expected frames := by
  cases h with
  | pending j hj _ _ =>
      intro heq
      have hlen := congrArg List.length heq
      rw [List.length_take, expected, List.length_map] at hlen
      omega
  | wrong hlog => exact fun heq => hlog (heq ▸ List.prefix_refl _)

/-- In `kHeader`, the loop loses the boundaries when it stops over two bytes or more of a frame in
part. -/
theorem desynced_of_part {frames : List WireFrame} {p : FrameParser} (hp : p.state = .kHeader)
    {j : ℕ} {tail : Bytes} (htail : IsTail (wires frames) j tail) (h2 : 2 ≤ tail.length) :
    Desynced frames (drive record ((expected frames).take j, p, tail)).1
      (drive record ((expected frames).take j, p, tail)).2.1 := by
  -- The tail is a part of frame `j` with its two header bytes, so `Parse` leaves `kHeader`.
  have hj : j < (wires frames).length := by
    by_contra hge
    rw [IsTail, List.getElem?_eq_none (by omega)] at htail
    simp [show tail = [] from htail] at h2
  have hlt := htail.length_lt hj
  rw [IsTail, List.getElem?_eq_getElem hj] at htail
  simp only [wires, List.getElem_map, List.length_map] at hj hlt htail
  set f := frames[j]
  obtain ⟨more, hmore, -⟩ := part_eq htail.1 h2
  have hnone := parse_part hp htail.1 h2 hlt
  rw [parse_of_header hp h2] at hnone
  have hhead : tail.getD 0 0 = f.byte1 ∧ tail.getD 1 0 = f.byte2 := by rw [hmore]; exact ⟨rfl, rfl⟩
  obtain ⟨q, hq, hstate, hle⟩ | ⟨q, n, frame, hq, -⟩ :=
    parseRest_spec tail (withHeader_state p (tail.getD 0 0) (tail.getD 1 0)) h2
  · have hdrive : drive record ((expected frames).take j, p, tail)
        = ((expected frames).take j, q, tail) := by
      refine run_of_leave _ ?_
      exact turn_of_none (by omega) ((parse_of_header hp h2).trans hq) _
    rw [hdrive]
    have hsize := length_wire f
    rw [hhead.1, hhead.2, withHeader_overhead] at hle
    have hbound : q.overhead + f.payload.length + 2 ≤ f.wire.length := by omega
    exact .pending j hj hstate hbound
  · rw [hq] at hnone
    cases hnone

/-! ## Where the cuts may lie -/

/-- Bytes received end near a boundary exactly if less than a header of the next frame is there. -/
theorem nearBoundary_iff {frames : List WireFrame} {k : ℕ} {tail : Bytes}
    (hk : k ≤ frames.length) (htail : IsTail (wires frames) k tail) :
    NearBoundary frames (((wires frames).take k).flatten.length + tail.length) ↔
      tail.length < 2 := by
  have hlen : (wires frames).length = frames.length := by rw [wires, List.length_map]
  constructor
  · rintro ⟨j, hj, hn⟩
    rcases Nat.lt_trichotomy j k with hlt | rfl | hlt
    · have hj' : j < (wires frames).length := by omega
      have hsucc := length_flatten_take_succ hj'
      have hmono := length_flatten_take_mono (wires frames) (show j + 1 ≤ k by omega)
      have htwo : 2 ≤ ((wires frames)[j]).length := by
        simpa only [wires, List.getElem_map] using two_le_length_wire _
      omega
    · omega
    · have hk' : k < (wires frames).length := by omega
      have hsucc := length_flatten_take_succ hk'
      have hmono := length_flatten_take_mono (wires frames) (show k + 1 ≤ j by omega)
      have := htail.length_lt hk'
      omega
  · intro hshort
    exact ⟨k, hk, by omega⟩

/-- The loop is in step with the bytes received: it has returned the frames received whole, and its
parser waits in `kHeader` over at most one more byte. -/
def Synced (frames : List WireFrame) (received : Bytes) (q : FrameLog × FrameParser × Buffer) :
    Prop :=
  ∃ j ≤ frames.length, received = ((wires frames).take j).flatten ++ q.2.2 ∧ q.2.2.length < 2 ∧
    q.1 = (expected frames).take j ∧ q.2.1.state = .kHeader

/-- **One read keeps the loop in step when it ends near a frame boundary, and loses it otherwise.**
-/
theorem synced_read {frames : List WireFrame} {received read : Bytes}
    {q : FrameLog × FrameParser × Buffer} (h : Synced frames received q)
    (hpre : received ++ read <+: (wires frames).flatten) :
    (NearBoundary frames (received ++ read).length →
        Synced frames (received ++ read) (receiveAll q [read])) ∧
      (¬ NearBoundary frames (received ++ read).length →
        Desynced frames (receiveAll q [read]).1 (receiveAll q [read]).2.1) := by
  obtain ⟨log, p, buf⟩ := q
  obtain ⟨j, hj, rfl, -, rfl, hp⟩ := h
  -- The bytes received up to now end in a part of some frame `k`, and the read brings `d` whole
  -- frames.
  obtain ⟨k, tail, hk, heq, htail⟩ := exists_whole_tail hpre
  rw [wires, List.length_map] at hk
  rw [List.append_assoc] at heq ⊢
  obtain ⟨d, rfl, hrest⟩ := htail.split (by rwa [wires, List.length_map]) heq
  have hdrop : ((wires frames).drop j).take d = wires ((frames.drop j).take d) := by
    rw [wires, wires, List.map_take, List.map_drop]
  have hlog : (expected frames).take j ++ expected ((frames.drop j).take d)
      = (expected frames).take (j + d) := by
    rw [List.take_add, expected, expected, List.map_take, List.map_drop]
  obtain ⟨q, hq, hdrive⟩ := drive_wires hp ((expected frames).take j) ((frames.drop j).take d) tail
  have hrun : receiveAll ((expected frames).take j, p, buf) [read]
      = drive record ((expected frames).take (j + d), q, tail) := by
    rw [← hlog, ← hdrive, ← hdrop, ← hrest]
    rfl
  rw [heq, List.length_append, nearBoundary_iff hk htail, hrun]
  refine ⟨fun hshort => ?_, fun hlong => desynced_of_part hq htail (by omega)⟩
  rw [drive_short hq _ hshort]
  exact ⟨j + d, hk, rfl, hshort, rfl, hq⟩

theorem receiveAll_cons (q : FrameLog × FrameParser × Buffer) (read : Bytes) (reads : List Bytes) :
    receiveAll q (read :: reads) = receiveAll (receiveAll q [read]) reads := rfl

/-- Once out of step, the parser stays out of step. -/
theorem desynced_receiveAll {frames : List WireFrame} {q : FrameLog × FrameParser × Buffer}
    (h : Desynced frames q.1 q.2.1) (reads : List Bytes) :
    Desynced frames (receiveAll q reads).1 (receiveAll q reads).2.1 := by
  induction reads generalizing q with
  | nil => exact h
  | cons read reads ih =>
      rw [receiveAll_cons]
      exact ih (desynced_drive h)

/-- Every read from `received` on ends near a frame boundary. -/
def ReadsNearBoundary (frames : List WireFrame) (received : Bytes) (reads : List Bytes) : Prop :=
  ∀ k ≤ reads.length, NearBoundary frames (received ++ (reads.take k).flatten).length

/-- A read that ends near a boundary leaves the condition to the others. -/
theorem readsNearBoundary_cons {frames : List WireFrame} {received read : Bytes}
    {reads : List Bytes} (h : NearBoundary frames received.length) :
    ReadsNearBoundary frames received (read :: reads) ↔
      ReadsNearBoundary frames (received ++ read) reads := by
  constructor
  · intro hall k hk
    simpa [List.append_assoc] using hall (k + 1) (by simpa using hk)
  · intro hall k hk
    cases k with
    | zero => simpa using h
    | succ k => simpa [List.append_assoc] using hall k (by simpa using hk)

/-- **A run keeps the loop in step when every read ends near a frame boundary, and loses it
otherwise.** -/
theorem synced_receiveAll {frames : List WireFrame} {received : Bytes} (reads : List Bytes)
    {q : FrameLog × FrameParser × Buffer} (h : Synced frames received q)
    (hpre : received ++ reads.flatten <+: (wires frames).flatten) :
    (ReadsNearBoundary frames received reads →
        Synced frames (received ++ reads.flatten) (receiveAll q reads)) ∧
      (¬ ReadsNearBoundary frames received reads →
        Desynced frames (receiveAll q reads).1 (receiveAll q reads).2.1) := by
  have hnear : NearBoundary frames received.length := by
    obtain ⟨j, hj, hreceived, hshort, -⟩ := h
    refine ⟨j, hj, ?_⟩
    rw [hreceived, List.length_append]
    omega
  -- Induction on the reads: in step up to the first cut that is not near a frame boundary, and
  -- never after it.
  induction reads generalizing received q with
  | nil =>
      rw [List.flatten_nil, List.append_nil]
      refine ⟨fun _ => h, fun hn => absurd (fun k hk => ?_) hn⟩
      simpa using hnear
  | cons read reads ih =>
      rw [List.flatten_cons, ← List.append_assoc] at hpre ⊢
      obtain ⟨hgood, hbad⟩ := synced_read h ((List.prefix_append _ _).trans hpre)
      rw [readsNearBoundary_cons hnear, receiveAll_cons]
      by_cases hread : NearBoundary frames (received ++ read).length
      · exact ih (hgood hread) hpre hread
      · refine ⟨fun hall => absurd ?_ hread, fun _ => desynced_receiveAll (hbad hread) reads⟩
        simpa using hall 0 (Nat.zero_le _)

/-- In step with the whole stream, the loop has returned all frames and consumed all bytes. -/
theorem Synced.complete {frames : List WireFrame} {q : FrameLog × FrameParser × Buffer}
    (h : Synced frames (wires frames).flatten q) : q.1 = expected frames ∧ q.2.2 = [] := by
  obtain ⟨log, p, buf⟩ := q
  obtain ⟨j, hj, hstream, hshort, rfl, -⟩ := h
  have hwires : (wires frames).length = frames.length := by rw [wires, List.length_map]
  have hexpected : (expected frames).length = frames.length := by rw [expected, List.length_map]
  obtain rfl : j = frames.length := by
    by_contra hne
    have hj' : j < (wires frames).length := by omega
    have hsucc := length_flatten_take_succ hj'
    have hmono := length_flatten_take_mono (wires frames) (show j + 1 ≤ (wires frames).length from hj')
    have htwo : 2 ≤ ((wires frames)[j]).length := by
      simpa only [wires, List.getElem_map] using two_le_length_wire _
    have hlen := congrArg List.length hstream
    rw [List.length_append] at hlen
    rw [List.take_length] at hmono
    omega
  rw [← hwires, List.take_length] at hstream
  exact ⟨by rw [← hexpected, List.take_length], List.self_eq_append_right.mp hstream⟩

/-- **Parsing is independent of the cutting exactly for the cuttings near frame boundaries**: the
loop returns the frames sent, each with all its bytes consumed, if and only if every read ends at a
frame boundary or one byte after it. -/
theorem segmentation_iff {frames : List WireFrame} {reads : List Bytes}
    (h : reads.flatten = (wires frames).flatten) :
    ((receiveAll ([], {}, []) reads).1 = expected frames ∧ (receiveAll ([], {}, []) reads).2.2 = []) ↔
      ∀ k ≤ reads.length, NearBoundary frames (reads.take k).flatten.length := by
  have hstart : Synced frames [] ([], {}, []) := ⟨0, Nat.zero_le _, by simp, by simp, rfl, rfl⟩
  obtain ⟨hgood, hbad⟩ := synced_receiveAll reads hstart (by simp [h])
  by_cases hall : ReadsNearBoundary frames [] reads
  · have hsynced := hgood hall
    rw [List.nil_append, h] at hsynced
    exact iff_of_true hsynced.complete fun k hk => by simpa using hall k hk
  · refine iff_of_false (fun hrun => (hbad hall).log_ne hrun.1) fun hk => hall fun k hle => ?_
    simpa using hk k hle

/-- A masked text frame cut after its first byte. -/
theorem segmentation_iff_masked_text :
    let f : WireFrame := ⟨true, 1, some ⟨[1, 2, 3, 4], rfl⟩, [104, 105], by decide⟩
    ((receiveAll ([], {}, []) [f.wire.take 1, f.wire.drop 1]).1 = expected [f] ∧
        (receiveAll ([], {}, []) [f.wire.take 1, f.wire.drop 1]).2.2 = []) ↔
      ∀ k ≤ 2, NearBoundary [f] ((([f.wire.take 1, f.wire.drop 1] : List Bytes).take k).flatten.length) :=
  segmentation_iff (by decide)

/-- The masked text frame `hi` cut after its two header bytes: the parser, past the header, takes
the header bytes for the mask key, and returns another frame. -/
theorem segmentation_fails_in_header :
    let f : WireFrame := ⟨true, 1, some ⟨[1, 2, 3, 4], rfl⟩, [104, 105], by decide⟩
    (receiveAll ([], {}, []) [f.wire.take 2, f.wire.drop 2]).1 ≠ expected [f] := by
  decide

end FrameParser

end NetworkLib
