import NetworkLib.Theory.Json
import NetworkLib.Theory.Utf8
import NetworkLib.Proto.StreamEnvelope
import Mathlib.Data.List.GetD

/-! # Writing JSON

`serializer::dump`, compact, as `json::dump` calls it with no arguments: strings are not cut down to
ASCII, and what is not UTF-8 throws. A value without floating-point numbers and binary values is one
of `Json`.

The automaton of `decode` accepts exactly the texts (`dumpEscaped_encode`,
`valid_of_dumpEscapedFrom`), and `dumpEscaped` rewrites them character by character; what `dump`
makes of a value is its compact text (`dump_spec`), which has no control character in it and is read
back. -/

namespace NetworkLib.JsonDump

open Json (quote backslash)

/-! ## `decode` -/

/-- `UTF8_ACCEPT`. -/
def utf8Accept : ℕ := 0

/-- `UTF8_REJECT`. -/
def utf8Reject : ℕ := 1

/-- `utf8d`: the class of every byte, and behind them for every state its successors by class. -/
def utf8d : List ℕ :=
  [0, 0, 0, 0, 0, 0, 0, 0, 0, 0, 0, 0, 0, 0, 0, 0,  -- 00..1F
   0, 0, 0, 0, 0, 0, 0, 0, 0, 0, 0, 0, 0, 0, 0, 0,
   0, 0, 0, 0, 0, 0, 0, 0, 0, 0, 0, 0, 0, 0, 0, 0,  -- 20..3F
   0, 0, 0, 0, 0, 0, 0, 0, 0, 0, 0, 0, 0, 0, 0, 0,
   0, 0, 0, 0, 0, 0, 0, 0, 0, 0, 0, 0, 0, 0, 0, 0,  -- 40..5F
   0, 0, 0, 0, 0, 0, 0, 0, 0, 0, 0, 0, 0, 0, 0, 0,
   0, 0, 0, 0, 0, 0, 0, 0, 0, 0, 0, 0, 0, 0, 0, 0,  -- 60..7F
   0, 0, 0, 0, 0, 0, 0, 0, 0, 0, 0, 0, 0, 0, 0, 0,
   1, 1, 1, 1, 1, 1, 1, 1, 1, 1, 1, 1, 1, 1, 1, 1,  -- 80..9F
   9, 9, 9, 9, 9, 9, 9, 9, 9, 9, 9, 9, 9, 9, 9, 9,
   7, 7, 7, 7, 7, 7, 7, 7, 7, 7, 7, 7, 7, 7, 7, 7,  -- A0..BF
   7, 7, 7, 7, 7, 7, 7, 7, 7, 7, 7, 7, 7, 7, 7, 7,
   8, 8, 2, 2, 2, 2, 2, 2, 2, 2, 2, 2, 2, 2, 2, 2,  -- C0..DF
   2, 2, 2, 2, 2, 2, 2, 2, 2, 2, 2, 2, 2, 2, 2, 2,
   10, 3, 3, 3, 3, 3, 3, 3, 3, 3, 3, 3, 3, 4, 3, 3,  -- E0..EF
   11, 6, 6, 6, 5, 8, 8, 8, 8, 8, 8, 8, 8, 8, 8, 8,  -- F0..FF
   0, 1, 2, 3, 5, 8, 7, 1, 1, 1, 4, 6, 1, 1, 1, 1,  -- s0..s0
   1, 1, 1, 1, 1, 1, 1, 1, 1, 1, 1, 1, 1, 1, 1, 1,  -- s1..s2
   1, 0, 1, 1, 1, 1, 1, 0, 1, 0, 1, 1, 1, 1, 1, 1,
   1, 2, 1, 1, 1, 1, 1, 2, 1, 2, 1, 1, 1, 1, 1, 1,  -- s3..s4
   1, 1, 1, 1, 1, 1, 1, 2, 1, 1, 1, 1, 1, 1, 1, 1,
   1, 2, 1, 1, 1, 1, 1, 1, 1, 2, 1, 1, 1, 1, 1, 1,  -- s5..s6
   1, 1, 1, 1, 1, 1, 1, 3, 1, 3, 1, 1, 1, 1, 1, 1,
   1, 3, 1, 1, 1, 1, 1, 3, 1, 3, 1, 1, 1, 1, 1, 1,  -- s7..s8
   1, 3, 1, 1, 1, 1, 1, 1, 1, 1, 1, 1, 1, 1, 1, 1]

/-- `decode`: the new state, and the code point so far. A text is rejected before the shifts reach
the end of the 32 bits. -/
def decode (state codep : ℕ) (byte : UInt8) : ℕ × ℕ :=
  let type := utf8d.getD byte.toNat 0
  (utf8d.getD (256 + state * 16 + type) 0,
    if state ≠ utf8Accept then byte.toNat &&& 0x3F ||| codep <<< 6 else 0xFF >>> type &&& byte.toNat)

/-! ## `dump_escaped` -/

/-- A hexadecimal digit of a `%04x`. -/
def hexDigit (n : ℕ) : UInt8 := UInt8.ofNat (Nat.digitChar n).toNat

/-- What an accepted code point leaves in the buffer, whose last byte is `byte`. -/
def escapeCodepoint (codepoint : ℕ) (byte : UInt8) : Bytes :=
  if codepoint = 0x08 then [backslash, 0x62]
  else if codepoint = 0x09 then [backslash, 0x74]
  else if codepoint = 0x0A then [backslash, 0x6E]
  else if codepoint = 0x0C then [backslash, 0x66]
  else if codepoint = 0x0D then [backslash, 0x72]
  else if codepoint = 0x22 then [backslash, quote]
  else if codepoint = 0x5C then [backslash, backslash]
  else if codepoint ≤ 0x1F then
    [backslash, 0x75, hexDigit (codepoint / 4096 % 16), hexDigit (codepoint / 256 % 16),
      hexDigit (codepoint / 16 % 16), hexDigit (codepoint % 16)]
  -- the bytes before have been copied as they came
  else [byte]

/-- `hex_bytes`. -/
def hexBytes (byte : UInt8) : Bytes :=
  [byte.toNat / 16, byte.toNat % 16].map fun n => (bytesOf "0123456789ABCDEF").getD n 0

/-- `type_error::create(316, …)`. -/
def typeError (text : Bytes) : Bytes := bytesOf "[json.exception.type_error.316] " ++ text

/-- The loop of `dump_escaped` from index `i` on, where `back` is the last byte of the string. The
buffer goes out whenever it is full, so that what is written is one text. -/
def dumpEscapedFrom (back : UInt8) : ℕ → ℕ → ℕ → Bytes → Except Bytes Bytes
  | state, _, _, [] =>
      if state = utf8Accept then .ok []
      else .error (typeError (bytesOf "incomplete UTF-8 string; last byte: 0x" ++ hexBytes back))
  | state, codep, i, byte :: s =>
      let next := decode state codep byte
      if next.1 = utf8Accept then
        (dumpEscapedFrom back next.1 next.2 (i + 1) s).map (escapeCodepoint next.2 byte ++ ·)
      else if next.1 = utf8Reject then
        .error (typeError (bytesOf "invalid UTF-8 byte at index " ++ Json.digits i ++ bytesOf ": 0x"
          ++ hexBytes byte))
      else (dumpEscapedFrom back next.1 next.2 (i + 1) s).map (byte :: ·)

/-- `dump_escaped`. -/
def dumpEscaped (s : Bytes) : Except Bytes Bytes := dumpEscapedFrom (s.getLastD 0) utf8Accept 0 0 s

/-! ## `dump` -/

mutual

/-- `dump`. -/
def dump : Json → Except Bytes Bytes
  | .object members =>
      if members.isEmpty then .ok (bytesOf "\x7b\x7d")
      else (dumpMembers members).map fun t => 0x7B :: (t ++ [0x7D])
  | .array elements =>
      if elements.isEmpty then .ok (bytesOf "[]")
      else (dumpElements elements).map fun t => 0x5B :: (t ++ [0x5D])
  | .string s => (dumpEscaped s).map fun t => quote :: (t ++ [quote])
  | .bool true => .ok (bytesOf "true")
  | .bool false => .ok (bytesOf "false")
  | .number n => .ok (Json.decimal n)
  | .null => .ok (bytesOf "null")

/-- The loop over the elements, with the last one behind it. -/
def dumpElements : List Json → Except Bytes Bytes
  | [] => .ok []
  | j :: js => do
      let t ← dump j
      if js.isEmpty then .ok t else (dumpElements js).map fun rest => t ++ 0x2C :: rest

/-- The loop over the members, with the last one behind it. -/
def dumpMembers : List (Bytes × Json) → Except Bytes Bytes
  | [] => .ok []
  | (key, j) :: members => do
      let k ← dumpEscaped key
      let t ← dump j
      let member := quote :: (k ++ quote :: 0x3A :: t)
      if members.isEmpty then .ok member
      else (dumpMembers members).map fun rest => member ++ 0x2C :: rest

end

/-! ## The automaton -/

/-- The least byte that may come next in a state within a character. -/
def low (state : ℕ) : ℕ := if state = 4 then 0xA0 else if state = 6 then 0x90 else 0x80

/-- The greatest. -/
def high (state : ℕ) : ℕ := if state = 5 then 0x9F else if state = 8 then 0x8F else 0xBF

/-- The state behind it. -/
def following (state : ℕ) : ℕ := if state = 2 then utf8Accept else if state ≤ 5 then 2 else 3

/-- What the first byte of a character leaves, unless it is none: the state, and the bits it has of
the code point. -/
def lead (n : ℕ) : Option (ℕ × ℕ) :=
  if n < 0x80 then some (utf8Accept, n)
  else if n < 0xC2 then none
  else if n ≤ 0xDF then some (2, n - 0xC0)
  else if n ≤ 0xEF then some (if n = 0xE0 then 4 else if n = 0xED then 5 else 3, n - 0xE0)
  else if n ≤ 0xF4 then some (if n = 0xF0 then 6 else if n = 0xF4 then 8 else 7, n - 0xF0)
  else none

/-- The class of a byte. -/
def byteClass (n : ℕ) : ℕ :=
  if n < 0x80 then 0 else if n < 0x90 then 1 else if n < 0xA0 then 9 else if n < 0xC0 then 7
  else if n < 0xC2 then 8 else if n < 0xE0 then 2 else if n = 0xE0 then 10 else if n = 0xED then 4
  else if n < 0xF0 then 3 else if n = 0xF0 then 11 else if n < 0xF4 then 6 else if n = 0xF4 then 5
  else 8

/-- Whether a class of bytes may come next in a state within a character. -/
def Continuing (state c : ℕ) : Prop :=
  c = 1 ∧ state ≠ 4 ∧ state ≠ 6 ∨ c = 9 ∧ state ≠ 4 ∧ state ≠ 8 ∨ c = 7 ∧ state ≠ 5 ∧ state ≠ 8

instance (state c : ℕ) : Decidable (Continuing state c) :=
  inferInstanceAs (Decidable (_ ∨ _))

/-- The state behind a byte of a class. -/
def successor (state c : ℕ) : ℕ :=
  if state = utf8Accept then [0, 1, 2, 3, 5, 8, 7, 1, 1, 1, 4, 6].getD c utf8Reject
  else if state ≠ utf8Reject ∧ Continuing state c then following state else utf8Reject

/-- **What the table holds.** -/
theorem utf8d_eq :
    utf8d = (List.range 256).map byteClass
      ++ (List.range 144).map fun i => successor (i / 16) (i % 16) := by
  decide +kernel

/-- The first part of the table gives the classes of bytes. -/
theorem utf8d_class {n : ℕ} (hn : n < 256) : utf8d.getD n 0 = byteClass n := by
  rw [utf8d_eq, List.getD_append _ _ _ _ (by simpa using hn)]
  simp [List.getD_eq_getElem?_getD, hn]

/-- The second part gives the states. -/
theorem utf8d_state {state c : ℕ} (hstate : state < 9) (hc : c < 16) :
    utf8d.getD (256 + state * 16 + c) 0 = successor state c := by
  have hindex : 256 + state * 16 + c - 256 = state * 16 + c := by omega
  have hdiv : (state * 16 + c) / 16 = state := by omega
  have hmod : (state * 16 + c) % 16 = c := by omega
  rw [utf8d_eq, List.getD_append_right _ _ _ _ (by simp; omega)]
  simp [List.getD_eq_getElem?_getD, show state * 16 + c < 144 by omega, hindex, hdiv, hmod]

/-- The classes of the bytes within a character. -/
theorem byteClass_spec {n : ℕ} (hn : n < 256) :
    byteClass n < 16 ∧ (byteClass n = 1 ↔ 0x80 ≤ n ∧ n < 0x90) ∧
      (byteClass n = 9 ↔ 0x90 ≤ n ∧ n < 0xA0) ∧ (byteClass n = 7 ↔ 0xA0 ≤ n ∧ n < 0xC0) := by
  unfold byteClass
  -- one class after the other
  iterate 12
    refine iteInduction (motive := fun c => c < 16 ∧ (c = 1 ↔ 0x80 ≤ n ∧ n < 0x90) ∧
      (c = 9 ↔ 0x90 ≤ n ∧ n < 0xA0) ∧ (c = 7 ↔ 0xA0 ≤ n ∧ n < 0xC0)) (fun _ => by omega) fun _ => ?_
  omega

/-- The bytes that may come next in a state are those between two bounds. -/
theorem continuing_byteClass {state n : ℕ} (hn : n < 256) :
    Continuing state (byteClass n) ↔ low state ≤ n ∧ n ≤ high state := by
  obtain ⟨-, hone, hnine, hseven⟩ := byteClass_spec hn
  rw [Continuing, hone, hnine, hseven, low, high]
  split_ifs <;> omega

/-- **Between two characters** the automaton takes the bytes that begin one. -/
theorem decode_first (codep : ℕ) (byte : UInt8) :
    lead byte.toNat = if (decode utf8Accept codep byte).1 = utf8Reject then none
      else some (decode utf8Accept codep byte) := by
  have hclasses : ∀ n < 256, lead n = if successor utf8Accept (byteClass n) = 1 then none
      else some (successor utf8Accept (byteClass n), 0xFF >>> byteClass n &&& n) := by
    decide +kernel
  have htable : ∀ n < 256, lead n = if utf8d.getD (256 + utf8d.getD n 0) 0 = 1 then none
      else some (utf8d.getD (256 + utf8d.getD n 0) 0, 0xFF >>> utf8d.getD n 0 &&& n) := by
    intro n hn
    have hstate := @utf8d_state 0 (byteClass n) (by omega) (byteClass_spec hn).1
    rw [Nat.zero_mul, Nat.add_zero] at hstate
    rw [utf8d_class hn, hstate]
    exact hclasses n hn
  have hdecode : decode utf8Accept codep byte = (utf8d.getD (256 + utf8d.getD byte.toNat 0) 0,
      0xFF >>> utf8d.getD byte.toNat 0 &&& byte.toNat) := by
    rw [decode]
    simp only [utf8Accept, Nat.zero_mul, Nat.add_zero, ne_eq, not_true_eq_false, if_false]
  rw [hdecode, htable byte.toNat byte.toNat_lt]
  rfl

/-- The first byte of three. -/
theorem lead_three {n : ℕ} (hn : 0xE0 ≤ n ∧ n ≤ 0xEF) :
    ∃ next : ℕ × ℕ, lead n = some next ∧ next.2 = n - 0xE0 ∧ (3 ≤ next.1 ∧ next.1 ≤ 8) ∧
      following next.1 = 2 ∧ ∀ b, (low next.1 ≤ b ∧ b ≤ high next.1 ↔
        0x80 ≤ b ∧ b ≤ 0xBF ∧ (n = 0xE0 → 0xA0 ≤ b) ∧ (n = 0xED → b ≤ 0x9F)) := by
  refine ⟨(if n = 0xE0 then 4 else if n = 0xED then 5 else 3, n - 0xE0), ?_, rfl, ?_, ?_, ?_⟩
  · unfold lead
    rw [if_neg (by omega), if_neg (by omega), if_neg (by omega), if_pos hn.2]
  · split_ifs <;> simp
  · split_ifs <;> rfl
  · intro b
    by_cases hlow : n = 0xE0
    · simp only [if_pos hlow]
      change 0xA0 ≤ b ∧ b ≤ 0xBF ↔ _
      omega
    · by_cases hpair : n = 0xED
      · simp only [if_neg hlow, if_pos hpair]
        change 0x80 ≤ b ∧ b ≤ 0x9F ↔ _
        omega
      · simp only [if_neg hlow, if_neg hpair]
        change 0x80 ≤ b ∧ b ≤ 0xBF ↔ _
        omega

/-- The first byte of four. -/
theorem lead_four {n : ℕ} (hn : 0xF0 ≤ n ∧ n ≤ 0xF4) :
    ∃ next : ℕ × ℕ, lead n = some next ∧ next.2 = n - 0xF0 ∧ (3 ≤ next.1 ∧ next.1 ≤ 8) ∧
      following next.1 = 3 ∧ ∀ b, (low next.1 ≤ b ∧ b ≤ high next.1 ↔
        0x80 ≤ b ∧ b ≤ 0xBF ∧ (n = 0xF0 → 0x90 ≤ b) ∧ (n = 0xF4 → b ≤ 0x8F)) := by
  refine ⟨(if n = 0xF0 then 6 else if n = 0xF4 then 8 else 7, n - 0xF0), ?_, rfl, ?_, ?_, ?_⟩
  · unfold lead
    rw [if_neg (by omega), if_neg (by omega), if_neg (by omega), if_neg (by omega), if_pos hn.2]
  · split_ifs <;> simp
  · split_ifs <;> rfl
  · intro b
    by_cases hlow : n = 0xF0
    · simp only [if_pos hlow]
      change 0x90 ≤ b ∧ b ≤ 0xBF ↔ _
      omega
    · by_cases hhigh : n = 0xF4
      · simp only [if_neg hlow, if_pos hhigh]
        change 0x80 ≤ b ∧ b ≤ 0x8F ↔ _
        omega
      · simp only [if_neg hlow, if_neg hhigh]
        change 0x80 ≤ b ∧ b ≤ 0xBF ↔ _
        omega

/-- Decoding the first byte of a character. -/
theorem decode_of_lead {codep : ℕ} {byte : UInt8} {next : ℕ × ℕ} (h : lead byte.toNat = some next) :
    decode utf8Accept codep byte = next := by
  rw [decode_first codep byte] at h
  split at h
  · exact absurd h (by simp)
  · exact Option.some.inj h

/-- **Within a character** the automaton takes the bytes in a range and rejects every other. -/
theorem decode_within {state : ℕ} (hstate : 2 ≤ state ∧ state ≤ 8) (codep : ℕ) (byte : UInt8) :
    (low state ≤ byte.toNat ∧ byte.toNat ≤ high state →
        decode state codep byte = (following state, codep * 64 + (byte.toNat - 0x80))) ∧
      (¬ (low state ≤ byte.toNat ∧ byte.toNat ≤ high state) →
        (decode state codep byte).1 = utf8Reject) := by
  have hnext : utf8d.getD (256 + state * 16 + utf8d.getD byte.toNat 0) 0
      = if low state ≤ byte.toNat ∧ byte.toNat ≤ high state then following state
        else utf8Reject := by
    rw [utf8d_class byte.toNat_lt, utf8d_state (by omega) (byteClass_spec byte.toNat_lt).1, successor,
      if_neg (by unfold utf8Accept; omega)]
    refine if_congr ?_ rfl rfl
    rw [continuing_byteClass byte.toNat_lt]
    exact and_iff_right (by unfold utf8Reject; omega)
  constructor
  · intro hrange
    rw [if_pos hrange] at hnext
    -- six bits more of the code point
    have hbits : byte.toNat &&& 0x3F ||| codep <<< 6 = codep * 64 + (byte.toNat - 0x80) := by
      have hlow : 0x80 ≤ low state := by unfold low; split_ifs <;> omega
      have hhigh : high state ≤ 0xBF := by unfold high; split_ifs <;> omega
      rw [Nat.and_two_pow_sub_one_eq_mod byte.toNat 6, Nat.or_comm, Nat.shiftLeft_eq, Nat.mul_comm,
        ← Nat.two_pow_add_eq_or_of_lt (Nat.mod_lt _ (by decide))]
      omega
    rw [decode]
    simp only [hnext, hbits]
    rw [if_pos (show state ≠ utf8Accept by unfold utf8Accept; omega)]
  · intro hrange
    rw [if_neg hrange] at hnext
    rw [decode]
    exact hnext

/-! ## A character -/

/-- What `dump_escaped` makes of a character. -/
def escapeChar (c : Char) : Bytes :=
  if c.toNat < 0x80 then escapeCodepoint c.toNat (UInt8.ofNat c.toNat) else String.utf8EncodeChar c

/-- A character of more than one byte is not escaped. -/
theorem escapeCodepoint_of_le {codepoint : ℕ} (h : 0x80 ≤ codepoint) (byte : UInt8) :
    escapeCodepoint codepoint byte = [byte] := by
  unfold escapeCodepoint
  iterate 8 rw [if_neg (by omega)]

variable {back byte : UInt8} {state codep i : ℕ} {s t : Bytes}

/-- A byte within a character, and not its last. -/
theorem dumpEscapedFrom_within (hstate : 3 ≤ state ∧ state ≤ 8)
    (h : low state ≤ byte.toNat ∧ byte.toNat ≤ high state) :
    dumpEscapedFrom back state codep i (byte :: s)
      = (dumpEscapedFrom back (following state) (codep * 64 + (byte.toNat - 0x80)) (i + 1) s).map
          (byte :: ·) := by
  have hfollowing : following state = 2 ∨ following state = 3 := by
    unfold following
    split_ifs <;> omega
  have hdecode := (decode_within ⟨by omega, hstate.2⟩ codep byte).1 h
  rw [dumpEscapedFrom]
  simp only [hdecode]
  rw [if_neg (by unfold utf8Accept; omega), if_neg (by unfold utf8Reject; omega)]

/-- The last byte of a character. -/
theorem dumpEscapedFrom_last (h : Utf8.Continues byte)
    (hcodep : 0x80 ≤ codep * 64 + (byte.toNat - 0x80)) :
    dumpEscapedFrom back 2 codep i (byte :: s)
      = (dumpEscapedFrom back utf8Accept (codep * 64 + (byte.toNat - 0x80)) (i + 1) s).map
          (byte :: ·) := by
  have hdecode : decode 2 codep byte = (utf8Accept, codep * 64 + (byte.toNat - 0x80)) :=
    (decode_within (by decide) codep byte).1 h
  rw [dumpEscapedFrom]
  simp only [hdecode]
  rw [if_pos trivial, escapeCodepoint_of_le hcodep]
  rfl

/-- The first byte of a character that has more. -/
theorem dumpEscapedFrom_first {next : ℕ × ℕ} (h : lead byte.toNat = some next)
    (hnext : 2 ≤ next.1) :
    dumpEscapedFrom back utf8Accept codep i (byte :: s)
      = (dumpEscapedFrom back next.1 next.2 (i + 1) s).map (byte :: ·) := by
  rw [dumpEscapedFrom]
  simp only [decode_of_lead h]
  rw [if_neg (by unfold utf8Accept; omega), if_neg (by unfold utf8Reject; omega)]

/-- One function after another on a result. -/
theorem map_map {ε α β γ : Type*} (f : α → β) (g : β → γ) (x : Except ε α) :
    (x.map f).map g = x.map (g ∘ f) := by
  cases x <;> rfl

/-- A small number is a byte. -/
theorem toNat_ofNat {n : ℕ} (h : n < 256) : (UInt8.ofNat n).toNat = n := by
  rw [UInt8.toNat_ofNat', Nat.mod_eq_of_lt h]

/-- **A character is rewritten**, and the next one begins behind it. -/
theorem dumpEscapedFrom_char (c : Char) :
    dumpEscapedFrom back utf8Accept codep i (String.utf8EncodeChar c ++ s)
      = (dumpEscapedFrom back utf8Accept c.toNat (i + (String.utf8EncodeChar c).length) s).map
          (escapeChar c ++ ·) := by
  have hlt := Utf8.toNat_lt c
  -- One case for each length of the encoding: what the lead byte leaves of the code point, and then
  -- each byte behind it.
  by_cases hone : c.toNat < 0x80
  · rw [Utf8.encodeChar_one hone, escapeChar, if_pos hone, List.singleton_append, dumpEscapedFrom]
    have hlead : lead (UInt8.ofNat c.toNat).toNat = some (utf8Accept, c.toNat) := by
      rw [toNat_ofNat (by omega), lead, if_pos hone]
    simp only [decode_of_lead hlead]
    rw [if_pos trivial]
    rfl
  · rw [escapeChar, if_neg hone]
    by_cases htwo : c.toNat < 0x800
    · rw [Utf8.encodeChar_two (by omega) htwo]
      have hlead : lead (UInt8.ofNat (0xC0 + c.toNat / 64)).toNat = some (2, c.toNat / 64) := by
        rw [toNat_ofNat (by omega), lead, if_neg (by omega), if_neg (by omega), if_pos (by omega)]
        simp
      have hlast : (UInt8.ofNat (0x80 + c.toNat % 64)).toNat = 0x80 + c.toNat % 64 :=
        toNat_ofNat (by omega)
      have hcode : c.toNat / 64 * 64 + (0x80 + c.toNat % 64 - 0x80) = c.toNat := by omega
      rw [List.cons_append, List.singleton_append, dumpEscapedFrom_first hlead (Nat.le_refl 2)]
      simp only
      rw [dumpEscapedFrom_last ⟨by omega, by omega⟩ (by omega), map_map, hlast, hcode]
      rfl
    · by_cases hthree : c.toNat < 0x10000
      · rw [Utf8.encodeChar_three (by omega) hthree]
        have hfirst : (UInt8.ofNat (0xE0 + c.toNat / 4096)).toNat = 0xE0 + c.toNat / 4096 :=
          toNat_ofNat (by omega)
        have hmid : (UInt8.ofNat (0x80 + c.toNat / 64 % 64)).toNat = 0x80 + c.toNat / 64 % 64 :=
          toNat_ofNat (by omega)
        have hlast : (UInt8.ofNat (0x80 + c.toNat % 64)).toNat = 0x80 + c.toNat % 64 :=
          toNat_ofNat (by omega)
        obtain ⟨next, hlead, hbits, hstate, hfollowing, hrange⟩ :=
          lead_three (n := (UInt8.ofNat (0xE0 + c.toNat / 4096)).toNat) (by omega)
        -- a character is no surrogate, which is what the table forbids for this lead byte
        have hpair : ¬ (0xD800 ≤ c.toNat ∧ c.toNat < 0xE000) := by
          rintro ⟨hge, hlt⟩
          have hvalid : c.val.toNat < 0xD800 ∨ 0xDFFF < c.val.toNat ∧ c.val.toNat < 0x110000 := c.valid
          change 0xD800 ≤ c.val.toNat at hge
          change c.val.toNat < 0xE000 at hlt
          omega
        have hsecond := (hrange (0x80 + c.toNat / 64 % 64)).mpr (by omega)
        have hbits : next.2 = c.toNat / 4096 := by omega
        have hcode : (c.toNat / 4096 * 64 + (0x80 + c.toNat / 64 % 64 - 0x80)) * 64
            + (0x80 + c.toNat % 64 - 0x80) = c.toNat := by omega
        rw [List.cons_append, List.cons_append, List.singleton_append,
          dumpEscapedFrom_first hlead (by omega),
          dumpEscapedFrom_within hstate (by rw [hmid]; exact hsecond), hfollowing, hbits, hmid,
          dumpEscapedFrom_last ⟨by omega, by omega⟩ (by omega), map_map, map_map, hlast, hcode]
        rfl
      · rw [Utf8.encodeChar_four (by omega)]
        have hfirst : (UInt8.ofNat (0xF0 + c.toNat / 262144)).toNat = 0xF0 + c.toNat / 262144 :=
          toNat_ofNat (by omega)
        have hsecond : (UInt8.ofNat (0x80 + c.toNat / 4096 % 64)).toNat = 0x80 + c.toNat / 4096 % 64 :=
          toNat_ofNat (by omega)
        have hmid : (UInt8.ofNat (0x80 + c.toNat / 64 % 64)).toNat = 0x80 + c.toNat / 64 % 64 :=
          toNat_ofNat (by omega)
        have hlast : (UInt8.ofNat (0x80 + c.toNat % 64)).toNat = 0x80 + c.toNat % 64 :=
          toNat_ofNat (by omega)
        obtain ⟨next, hlead, hbits, hstate, hfollowing, hrange⟩ :=
          lead_four (n := (UInt8.ofNat (0xF0 + c.toNat / 262144)).toNat) (by omega)
        have htaken := (hrange (0x80 + c.toNat / 4096 % 64)).mpr (by omega)
        have hbits : next.2 = c.toNat / 262144 := by omega
        have hthird : low 3 ≤ 0x80 + c.toNat / 64 % 64 ∧ 0x80 + c.toNat / 64 % 64 ≤ high 3 := by
          change 0x80 ≤ _ ∧ _ ≤ 0xBF
          omega
        have hcode : ((c.toNat / 262144 * 64 + (0x80 + c.toNat / 4096 % 64 - 0x80)) * 64
            + (0x80 + c.toNat / 64 % 64 - 0x80)) * 64 + (0x80 + c.toNat % 64 - 0x80) = c.toNat := by
          omega
        rw [List.cons_append, List.cons_append, List.cons_append, List.singleton_append,
          dumpEscapedFrom_first hlead (by omega),
          dumpEscapedFrom_within hstate (by rw [hsecond]; exact htaken), hfollowing, hbits, hsecond,
          dumpEscapedFrom_within (by decide) (by rw [hmid]; exact hthird), hmid]
        rw [show following 3 = 2 from rfl,
          dumpEscapedFrom_last ⟨by omega, by omega⟩ (by omega), map_map, map_map, map_map, hlast, hcode]
        rfl

/-- **A text is rewritten character by character.** -/
theorem dumpEscapedFrom_encode (cs : List Char) :
    dumpEscapedFrom back utf8Accept codep i (Utf8.encode cs) = .ok (cs.flatMap escapeChar) := by
  induction cs generalizing codep i with
  | nil => rw [Utf8.encode_nil, dumpEscapedFrom, if_pos rfl, List.flatMap_nil]
  | cons c cs ih =>
      rw [Utf8.encode_cons, dumpEscapedFrom_char, ih, List.flatMap_cons]
      rfl

/-- **A text is dumped character by character.** -/
theorem dumpEscaped_encode (cs : List Char) :
    dumpEscaped (Utf8.encode cs) = .ok (cs.flatMap escapeChar) := dumpEscapedFrom_encode cs

/-! ## What is accepted -/

/-- A result of a function comes from a result. -/
theorem map_eq_ok {ε α β : Type*} {f : α → β} {x : Except ε α} {b : β} (h : x.map f = .ok b) :
    ∃ a, x = .ok a ∧ f a = b := by
  cases x with
  | error e => exact absurd h (by simp [Except.map])
  | ok a => exact ⟨a, rfl, Except.ok.inj h⟩

/-- Between two characters there is one that begins. -/
theorem ok_first (h : dumpEscapedFrom back utf8Accept codep i (byte :: s) = .ok t) :
    ∃ next t', lead byte.toNat = some next ∧
      dumpEscapedFrom back next.1 next.2 (i + 1) s = .ok t' := by
  have hlead := decode_first codep byte
  rw [dumpEscapedFrom] at h
  by_cases hreject : (decode utf8Accept codep byte).1 = utf8Reject
  · rw [hreject] at h
    exact absurd h (by simp [utf8Accept, utf8Reject])
  · rw [if_neg hreject] at hlead
    by_cases haccept : (decode utf8Accept codep byte).1 = utf8Accept
    · rw [if_pos haccept] at h
      obtain ⟨t', hrest, -⟩ := map_eq_ok h
      exact ⟨_, t', hlead, hrest⟩
    · rw [if_neg haccept, if_neg hreject] at h
      obtain ⟨t', hrest, -⟩ := map_eq_ok h
      exact ⟨_, t', hlead, hrest⟩

/-- Within a character there is one byte more. -/
theorem ok_within (hstate : 2 ≤ state ∧ state ≤ 8)
    (h : dumpEscapedFrom back state codep i s = .ok t) :
    ∃ byte s' t', s = byte :: s' ∧ (low state ≤ byte.toNat ∧ byte.toNat ≤ high state) ∧
      dumpEscapedFrom back (following state) (codep * 64 + (byte.toNat - 0x80)) (i + 1) s' = .ok t' := by
  cases s with
  | nil =>
      rw [dumpEscapedFrom, if_neg (by unfold utf8Accept; omega)] at h
      exact absurd h (by simp)
  | cons byte s =>
      rw [dumpEscapedFrom] at h
      by_cases hrange : low state ≤ byte.toNat ∧ byte.toNat ≤ high state
      · have hdecode := (decode_within hstate codep byte).1 hrange
        have hreject : following state ≠ utf8Reject := by
          unfold following utf8Accept utf8Reject
          split_ifs <;> omega
        simp only [hdecode] at h
        by_cases haccept : following state = utf8Accept
        · rw [if_pos haccept] at h
          obtain ⟨t', hrest, -⟩ := map_eq_ok h
          exact ⟨byte, s, t', rfl, hrange, hrest⟩
        · rw [if_neg haccept, if_neg hreject] at h
          obtain ⟨t', hrest, -⟩ := map_eq_ok h
          exact ⟨byte, s, t', rfl, hrange, hrest⟩
      · have hreject := (decode_within hstate codep byte).2 hrange
        simp only [hreject] at h
        exact absurd h (by simp [utf8Accept, utf8Reject])

/-- **What is accepted is a text**: a whole character is accepted at a time. -/
theorem valid_of_dumpEscapedFrom (h : dumpEscapedFrom back utf8Accept codep i s = .ok t) :
    Utf8.Valid s := by
  -- Induction on the length: the lead byte says how many bytes the character takes.
  induction hn : s.length using Nat.strongRecOn generalizing codep i s t with
  | ind n ih =>
      cases s with
      | nil => exact Utf8.valid_nil
      | cons a s =>
          rw [List.length_cons] at hn
          obtain ⟨next, t', hlead, hrest⟩ := ok_first h
          by_cases hone : a.toNat < 0x80
          · rw [lead, if_pos hone] at hlead
            obtain rfl := Option.some.inj hlead
            obtain ⟨c, -, hc⟩ := Utf8.exists_char_one hone
            have hvalid := (ih s.length (by omega) hrest rfl).cons c
            rwa [hc] at hvalid
          -- a byte from the middle of a character, or one that would encode an ASCII character in
          -- two bytes
          · by_cases htail : a.toNat < 0xC2
            · rw [lead, if_neg hone, if_pos htail] at hlead
              exact absurd hlead (by simp)
            · by_cases htwo : a.toNat ≤ 0xDF
              · rw [lead, if_neg hone, if_neg htail, if_pos htwo] at hlead
                obtain rfl := Option.some.inj hlead
                obtain ⟨b, s, t'', rfl, hb, hrest⟩ := ok_within ⟨by omega, by omega⟩ hrest
                rw [List.length_cons] at hn
                obtain ⟨c, -, hc⟩ := Utf8.exists_char_two (by omega) htwo hb
                have hvalid := (ih s.length (by omega) hrest rfl).cons c
                rwa [hc] at hvalid
              · by_cases hthree : a.toNat ≤ 0xEF
                · obtain ⟨next', hlead', -, hstate, hfollowing, hrange⟩ :=
                    lead_three (n := a.toNat) ⟨by omega, hthree⟩
                  obtain rfl := Option.some.inj (hlead'.symm.trans hlead)
                  obtain ⟨b, s, t'', rfl, hb, hrest⟩ := ok_within ⟨by omega, hstate.2⟩ hrest
                  rw [hfollowing] at hrest
                  obtain ⟨d, s, u, rfl, hd, hrest⟩ := ok_within ⟨by omega, by omega⟩ hrest
                  rw [List.length_cons, List.length_cons] at hn
                  obtain ⟨hb, hb', hlow, hpair⟩ := (hrange b.toNat).mp hb
                  obtain ⟨c, -, -, hc⟩ :=
                    Utf8.exists_char_three (by omega) hthree hlow hpair ⟨hb, hb'⟩ hd
                  have hvalid := (ih s.length (by omega) hrest rfl).cons c
                  rwa [hc] at hvalid
                · by_cases hfour : a.toNat ≤ 0xF4
                  · obtain ⟨next', hlead', -, hstate, hfollowing, hrange⟩ :=
                      lead_four (n := a.toNat) ⟨by omega, hfour⟩
                    obtain rfl := Option.some.inj (hlead'.symm.trans hlead)
                    obtain ⟨b, s, t'', rfl, hb, hrest⟩ := ok_within ⟨by omega, hstate.2⟩ hrest
                    rw [hfollowing] at hrest
                    obtain ⟨d, s, u, rfl, hd, hrest⟩ := ok_within ⟨by omega, by omega⟩ hrest
                    rw [show following 3 = 2 from rfl] at hrest
                    obtain ⟨e, s, u', rfl, he, hrest⟩ := ok_within ⟨by omega, by omega⟩ hrest
                    rw [List.length_cons, List.length_cons, List.length_cons] at hn
                    obtain ⟨hb, hb', hlow, hhigh⟩ := (hrange b.toNat).mp hb
                    obtain ⟨c, -, -, hc⟩ :=
                      Utf8.exists_char_four (by omega) hfour hlow hhigh ⟨hb, hb'⟩ hd he
                    have hvalid := (ih s.length (by omega) hrest rfl).cons c
                    rwa [hc] at hvalid
                  -- no character begins with a byte above `F4`
                  · unfold lead at hlead
                    iterate 5 rw [if_neg (by omega)] at hlead
                    exact absurd hlead (by simp)

/-! ## What is written -/

/-- What stands in the text for a string. -/
def escaped (s : Bytes) : Bytes :=
  match dumpEscaped s with
  | .ok t => t
  | .error _ => []

/-- What is UTF-8 is dumped. -/
theorem dumpEscaped_of_valid (h : Utf8.Valid s) : dumpEscaped s = .ok (escaped s) := by
  obtain ⟨cs, rfl⟩ := h
  rw [escaped, dumpEscaped_encode]

/-- A computation succeeds just where a condition holds, and always with the same result. -/
def Yields (x : Except Bytes Bytes) (P : Prop) (w : Bytes) : Prop := ∀ t, x = .ok t ↔ P ∧ t = w

/-- A result succeeds always. -/
theorem yields_ok (w : Bytes) : Yields (.ok w) True w := by
  intro t
  rw [true_and, Except.ok.injEq]
  exact eq_comm

/-- A function of what succeeds. -/
theorem Yields.map {x : Except Bytes Bytes} {P : Prop} {w : Bytes} (h : Yields x P w)
    (f : Bytes → Bytes) : Yields (x.map f) P (f w) := by
  intro t
  constructor
  · intro heq
    obtain ⟨a, ha, rfl⟩ := map_eq_ok heq
    obtain ⟨hP, rfl⟩ := (h a).mp ha
    exact ⟨hP, rfl⟩
  · rintro ⟨hP, rfl⟩
    rw [(h w).mpr ⟨hP, rfl⟩]
    rfl

/-- One computation after another: both conditions have to hold. -/
theorem Yields.bind {x : Except Bytes Bytes} {P Q : Prop} {w w' : Bytes} (h : Yields x P w)
    {f : Bytes → Except Bytes Bytes} (hf : Yields (f w) Q w') : Yields (x >>= f) (P ∧ Q) w' := by
  intro t
  constructor
  · intro heq
    cases hx : x with
    | error e => rw [hx] at heq; exact absurd heq (by simp [Bind.bind, Except.bind])
    | ok a =>
        obtain ⟨hP, rfl⟩ := (h a).mp hx
        rw [hx] at heq
        obtain ⟨hQ, rfl⟩ := (hf t).mp heq
        exact ⟨⟨hP, hQ⟩, rfl⟩
  · rintro ⟨⟨hP, hQ⟩, rfl⟩
    rw [(h w).mpr ⟨hP, rfl⟩]
    exact (hf t).mpr ⟨hQ, rfl⟩

/-- An equivalent condition. -/
theorem Yields.congr {x : Except Bytes Bytes} {P Q : Prop} {w : Bytes} (h : Yields x P w)
    (hPQ : P ↔ Q) : Yields x Q w := by
  intro t
  rw [h t, hPQ]

/-- A string is dumped just where it is UTF-8. -/
theorem dumpEscaped_yields (s : Bytes) : Yields (dumpEscaped s) (Utf8.Valid s) (escaped s) := by
  intro t
  constructor
  · intro h
    have hvalid : Utf8.Valid s := valid_of_dumpEscapedFrom h
    rw [dumpEscaped_of_valid hvalid] at h
    exact ⟨hvalid, (Except.ok.inj h).symm⟩
  · rintro ⟨hvalid, rfl⟩
    exact dumpEscaped_of_valid hvalid

/-- The automaton decides what is UTF-8. -/
instance (s : Bytes) : Decidable (Utf8.Valid s) :=
  match h : dumpEscaped s with
  | .ok t => isTrue ((dumpEscaped_yields s t).mp h).1
  | .error _ => isFalse fun hvalid => by
      rw [dumpEscaped_of_valid hvalid] at h
      exact absurd h (by simp)

mutual

/-- **What is dumped is the compact text**, and nothing is unless every string is UTF-8. -/
theorem dump_yields : ∀ j : Json, Yields (dump j) (j.All Utf8.Valid) (Json.write escaped j)
  | .null => by
      rw [dump, Json.write]
      exact yields_ok _
  | .bool true => by
      rw [dump, Json.write]
      exact yields_ok _
  | .bool false => by
      rw [dump, Json.write]
      exact yields_ok _
  | .number n => by
      rw [dump, Json.write]
      exact yields_ok _
  | .string s => by
      rw [dump, Json.write]
      exact (dumpEscaped_yields s).map _
  | .array js => by
      rw [dump, Json.write]
      cases js with
      | nil => exact yields_ok _
      | cons j js => exact (dumpElements_yields (j :: js)).map _
  | .object members => by
      rw [dump, Json.write]
      cases members with
      | nil => exact yields_ok _
      | cons member members => exact (dumpMembers_yields (member :: members)).map _

/-- So are the elements of an array. -/
theorem dumpElements_yields : ∀ js : List Json,
    Yields (dumpElements js) (Json.AllElements Utf8.Valid js) (Json.writeElements escaped js)
  | [] => yields_ok _
  | j :: js => by
      rw [dumpElements, Json.writeElements]
      apply (dump_yields j).bind
      cases js with
      | nil =>
          rw [List.isEmpty_nil, if_pos rfl, if_pos rfl, List.append_nil]
          exact yields_ok _
      | cons k js => exact (dumpElements_yields (k :: js)).map _

/-- So are the members of an object. -/
theorem dumpMembers_yields : ∀ members : List (Bytes × Json),
    Yields (dumpMembers members) (Json.AllMembers Utf8.Valid members)
      (Json.writeMembers escaped members)
  | [] => yields_ok _
  | (key, j) :: members => by
      rw [dumpMembers, Json.writeMembers]
      apply (dumpEscaped_yields key).bind
      apply (dump_yields j).bind
      cases members with
      | nil =>
          simp only [List.isEmpty_nil, if_true, List.append_nil]
          exact yields_ok _
      | cons member members =>
          have hrest := (dumpMembers_yields (member :: members)).map
            fun rest => quote :: (escaped key ++ quote :: 0x3A :: Json.write escaped j) ++ 0x2C :: rest
          simp only [List.cons_append, List.append_assoc] at hrest
          simpa only [List.isEmpty_cons, Bool.false_eq_true, if_false, List.cons_append,
            List.append_assoc] using hrest

end

/-! ## Reading it back -/

/-- A control character is four digits. -/
theorem readPart_control : ∀ n < 0x20, ∀ s,
    Json.readPart (backslash :: 0x75 :: hexDigit (n / 4096 % 16) :: hexDigit (n / 256 % 16)
        :: hexDigit (n / 16 % 16) :: hexDigit (n % 16) :: s)
      = some (some [UInt8.ofNat n], s) := by
  intro n hn s
  have hdigit : ∀ d < 16, Json.hexValue (hexDigit d) = some d := by decide
  have hhex : Json.readHex (hexDigit (n / 4096 % 16) :: hexDigit (n / 256 % 16)
      :: hexDigit (n / 16 % 16) :: hexDigit (n % 16) :: s) = some (n, s) := by
    rw [Json.readHex]
    simp only [hdigit _ (Nat.mod_lt _ (by decide : 0 < 16))]
    rw [show n / 4096 % 16 * 4096 + n / 256 % 16 * 256 + n / 16 % 16 * 16 + n % 16 = n by omega]
  have hchar : String.utf8EncodeChar (Char.ofNat n) = [UInt8.ofNat n] := by
    have hn' : (Char.ofNat n).toNat = n := Utf8.toNat_ofNat (Or.inl (by omega))
    rw [Utf8.encodeChar_one (by omega), hn']
  rw [Json.readPart, if_neg (by decide), if_pos rfl, Json.readEscape, if_pos rfl, Json.readUnicode,
    hhex]
  simp only
  rw [if_neg (by omega), if_neg (by omega), hchar]
  rfl

/-- **The reader undoes a character.** -/
theorem readString_escapeChar (c : Char) (r : Bytes) :
    Json.readString (escapeChar c ++ r)
      = (Json.readString r).map fun p => (String.utf8EncodeChar c ++ p.1, p.2) := by
  by_cases hone : c.toNat < 0x80
  · rw [escapeChar, if_pos hone, Utf8.encodeChar_one hone, escapeCodepoint]
    -- the letter of an escape
    have hletter : ∀ {x y : UInt8}, Json.readPart (backslash :: x :: r) = some (some [y], r) →
        Json.readString ([backslash, x] ++ r)
          = (Json.readString r).map fun p => ([y] ++ p.1, p.2) := Json.readString_of_part
    by_cases hb : c.toNat = 0x08
    · rw [if_pos hb, hb]
      exact hletter rfl
    rw [if_neg hb]
    by_cases ht : c.toNat = 0x09
    · rw [if_pos ht, ht]
      exact hletter rfl
    rw [if_neg ht]
    by_cases hn : c.toNat = 0x0A
    · rw [if_pos hn, hn]
      exact hletter rfl
    rw [if_neg hn]
    by_cases hf : c.toNat = 0x0C
    · rw [if_pos hf, hf]
      exact hletter rfl
    rw [if_neg hf]
    by_cases hr : c.toNat = 0x0D
    · rw [if_pos hr, hr]
      exact hletter rfl
    rw [if_neg hr]
    by_cases hquote : c.toNat = 0x22
    · rw [if_pos hquote, hquote]
      exact hletter rfl
    rw [if_neg hquote]
    by_cases hback : c.toNat = 0x5C
    · rw [if_pos hback, hback]
      exact hletter rfl
    rw [if_neg hback]
    by_cases hcontrol : c.toNat ≤ 0x1F
    · rw [if_pos hcontrol]
      exact Json.readString_of_part (readPart_control c.toNat (by omega) r)
    · rw [if_neg hcontrol]
      apply Json.readString_append
      intro b hmem
      rw [List.mem_singleton] at hmem
      have hb : b.toNat = c.toNat := by rw [hmem, toNat_ofNat (by omega)]
      refine ⟨?_, ?_, ?_⟩
      · rw [UInt8.le_iff_toNat_le, hb]
        show 0x20 ≤ c.toNat
        omega
      · rintro rfl
        exact hquote hb.symm
      · rintro rfl
        exact hback hb.symm
  · rw [escapeChar, if_neg hone]
    apply Json.readString_append
    intro b hmem
    have hge : 0x80 ≤ b.toNat := Utf8.le_of_mem_encodeChar (Nat.le_of_not_lt hone) hmem
    refine ⟨?_, ?_, ?_⟩
    · rw [UInt8.le_iff_toNat_le]
      show 0x20 ≤ b.toNat
      omega
    · rintro rfl
      exact absurd hge (by decide)
    · rintro rfl
      exact absurd hge (by decide)

/-- **The reader undoes the escapes of a text.** -/
theorem undone_escaped {s : Bytes} (h : Utf8.Valid s) : Json.Undone escaped s := by
  obtain ⟨cs, rfl⟩ := h
  intro r
  have hescaped : escaped (Utf8.encode cs) = cs.flatMap escapeChar := by
    rw [escaped, dumpEscaped_encode]
  rw [hescaped]
  induction cs with
  | nil => exact Json.readString_of_end (Json.readPart_quote r)
  | cons c cs ih =>
      have hrest : escaped (Utf8.encode cs) = cs.flatMap escapeChar := by
        rw [escaped, dumpEscaped_encode]
      rw [List.flatMap_cons, List.append_assoc, readString_escapeChar, ih hrest, Utf8.encode_cons]
      rfl

/-- No control character is left of a code point. -/
theorem printable_escapeCodepoint {n : ℕ} (hn : n < 0x80) :
    ∀ b ∈ escapeCodepoint n (UInt8.ofNat n), 0x20 ≤ b := by
  have hdigit : ∀ d < 16, 0x20 ≤ hexDigit d := by decide
  have hmod : ∀ m, 0x20 ≤ hexDigit (m % 16) := fun m => hdigit _ (Nat.mod_lt m (by omega))
  unfold escapeCodepoint
  -- the two-character escapes
  iterate 7
    refine iteInduction (motive := fun s : Bytes => ∀ b ∈ s, 0x20 ≤ b)
      (fun _ => by simp [backslash, quote]) fun _ => ?_
  refine iteInduction (motive := fun s : Bytes => ∀ b ∈ s, 0x20 ≤ b)
    (fun _ => by simp [backslash, hmod]) fun hcontrol => ?_
  intro b hb
  rw [List.mem_singleton.mp hb, UInt8.le_iff_toNat_le, toNat_ofNat (by omega)]
  exact Nat.lt_of_not_le hcontrol

/-- No control character is left of a character. -/
theorem printable_escapeChar (c : Char) : ∀ b ∈ escapeChar c, 0x20 ≤ b := by
  by_cases hone : c.toNat < 0x80
  · rw [escapeChar, if_pos hone]
    exact printable_escapeCodepoint hone
  · intro b hb
    rw [escapeChar, if_neg hone] at hb
    exact UInt8.le_trans (by decide) (Utf8.le_of_mem_encodeChar (Nat.le_of_not_lt hone) hb)

/-- No control character stands in what is dumped. -/
theorem printable_escaped {s : Bytes} (h : Utf8.Valid s) : Json.Printable escaped s := by
  obtain ⟨cs, rfl⟩ := h
  intro b hb
  rw [escaped, dumpEscaped_encode] at hb
  obtain ⟨c, -, hc⟩ := List.mem_flatMap.mp hb
  exact printable_escapeChar c b hc

/-- **A dumped value** is one line and is read back. -/
theorem dump_spec {j : Json} {t : Bytes} (h : dump j = .ok t) :
    (∀ b ∈ t, 0x20 ≤ b) ∧ Json.read t = some j := by
  obtain ⟨hvalid, rfl⟩ := (dump_yields j t).mp h
  exact ⟨Json.printable_write j (Json.All.imp (fun _ => printable_escaped) j hvalid),
    Json.read_write (Json.All.imp (fun _ => undone_escaped) j hvalid)⟩

end NetworkLib.JsonDump
