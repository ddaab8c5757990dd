import NetworkLib.Theory.NetworkOrder
import NetworkLib.Theory.Numerals

/-! # JSON

The values (`Json`), the compact text of a value (`write`) and a reader (`read`). The writer is
given what it makes of the bytes of a string; the reader takes white space between tokens and every
escape, and no number but an integer. It does not ask whether the bytes of a string are UTF-8, so
that it takes texts that a strict reader refuses.

A text is read back where the reader undoes the escapes (`read_write`). Where nothing is escaped at
all, it is read back exactly if no string holds a quotation mark, a backslash or a control
character (`read_write_id_iff`): any of these in any string changes the value or ends the text. -/

namespace NetworkLib

/-- A JSON value. -/
inductive Json where
  | null
  | bool (b : Bool)
  | number (n : ℤ)
  | string (s : Bytes)
  | array (elements : List Json)
  | object (members : List (Bytes × Json))

namespace Json

/-- `"`. -/
abbrev quote : UInt8 := 0x22

/-- `\`. -/
abbrev backslash : UInt8 := 0x5C

/-! ## Writing -/

/-- The decimal digits of a number. -/
def digits (n : ℕ) : Bytes := numeral (fun c => UInt8.ofNat c.toNat) 10 n

/-- An integer in decimal. -/
def decimal (n : ℤ) : Bytes := if n < 0 then 0x2D :: digits n.natAbs else digits n.natAbs

mutual

/-- The compact text of a value. -/
def write (escape : Bytes → Bytes) : Json → Bytes
  | .null => [0x6E, 0x75, 0x6C, 0x6C]
  | .bool true => [0x74, 0x72, 0x75, 0x65]
  | .bool false => [0x66, 0x61, 0x6C, 0x73, 0x65]
  | .number n => decimal n
  | .string s => quote :: (escape s ++ [quote])
  | .array elements => 0x5B :: (writeElements escape elements ++ [0x5D])
  | .object members => 0x7B :: (writeMembers escape members ++ [0x7D])

/-- The elements of an array. -/
def writeElements (escape : Bytes → Bytes) : List Json → Bytes
  | [] => []
  | j :: js => write escape j ++ (if js.isEmpty then [] else 0x2C :: writeElements escape js)

/-- The members of an object. -/
def writeMembers (escape : Bytes → Bytes) : List (Bytes × Json) → Bytes
  | [] => []
  | (key, j) :: members =>
      quote :: (escape key ++ quote :: 0x3A :: (write escape j
        ++ (if members.isEmpty then [] else 0x2C :: writeMembers escape members)))

end

/-- The elements of an array, with commas between them. -/
theorem writeElements_eq (escape : Bytes → Bytes) (js : List Json) :
    writeElements escape js = [0x2C].intercalate (js.map (write escape)) := by
  induction js with
  | nil => rfl
  | cons j js ih =>
      rw [writeElements, ih]
      cases js with
      | nil => simp [List.intercalate]
      | cons k js => simp [List.intercalate]

mutual

/-- What holds of every string and every key of a value. -/
def All (P : Bytes → Prop) : Json → Prop
  | .string s => P s
  | .array elements => AllElements P elements
  | .object members => AllMembers P members
  | .null => True
  | .bool _ => True
  | .number _ => True

/-- What holds of every string in some values. -/
def AllElements (P : Bytes → Prop) : List Json → Prop
  | [] => True
  | j :: js => All P j ∧ AllElements P js

/-- What holds of every string in some members. -/
def AllMembers (P : Bytes → Prop) : List (Bytes × Json) → Prop
  | [] => True
  | (key, j) :: members => P key ∧ All P j ∧ AllMembers P members

end

mutual

/-- What holds of every string of a value may be weakened. -/
theorem All.imp {P Q : Bytes → Prop} (h : ∀ s, P s → Q s) : ∀ j : Json, j.All P → j.All Q
  | .string s, hj => h s hj
  | .array elements, hj => AllElements.imp h elements hj
  | .object members, hj => AllMembers.imp h members hj
  | .null, _ => trivial
  | .bool _, _ => trivial
  | .number _, _ => trivial

/-- So may what holds of the strings of an array. -/
theorem AllElements.imp {P Q : Bytes → Prop} (h : ∀ s, P s → Q s) :
    ∀ js : List Json, AllElements P js → AllElements Q js
  | [], _ => trivial
  | j :: js, ⟨hj, hjs⟩ => ⟨All.imp h j hj, AllElements.imp h js hjs⟩

/-- So may what holds of the strings of an object. -/
theorem AllMembers.imp {P Q : Bytes → Prop} (h : ∀ s, P s → Q s) :
    ∀ members : List (Bytes × Json), AllMembers P members → AllMembers Q members
  | [], _ => trivial
  | (key, j) :: members, ⟨hkey, hj, hmembers⟩ =>
      ⟨h key hkey, All.imp h j hj, AllMembers.imp h members hmembers⟩

end

/-- An array has the property if its elements do. -/
theorem allElements_iff (P : Bytes → Prop) (js : List Json) :
    AllElements P js ↔ ∀ j ∈ js, j.All P := by
  induction js with
  | nil => simp [AllElements]
  | cons j js ih => rw [AllElements, ih, List.forall_mem_cons]

/-- An object has it if its keys and values do. -/
theorem allMembers_iff (P : Bytes → Prop) (members : List (Bytes × Json)) :
    AllMembers P members ↔ ∀ m ∈ members, P m.1 ∧ m.2.All P := by
  induction members with
  | nil => simp [AllMembers]
  | cons member members ih =>
      obtain ⟨key, j⟩ := member
      rw [AllMembers, ih, List.forall_mem_cons, and_assoc]

/-! ## Reading -/

/-- White space. -/
def isSpace (b : UInt8) : Bool := b = 0x20 || b = 0x09 || b = 0x0A || b = 0x0D

/-- A decimal digit. -/
def isDigit (b : UInt8) : Bool := 0x30 ≤ b && b ≤ 0x39

/-- The text from its next token on. -/
def space (s : Bytes) : Bytes := s.dropWhile isSpace

/-- The text behind a token of one byte. -/
def expect (b : UInt8) (s : Bytes) : Option Bytes :=
  match space s with
  | [] => none
  | a :: s => if a = b then some s else none

/-- The value of a hexadecimal digit. -/
def hexValue (b : UInt8) : Option ℕ :=
  if 0x30 ≤ b ∧ b ≤ 0x39 then some (b.toNat - 0x30)
  else if 0x41 ≤ b ∧ b ≤ 0x46 then some (b.toNat - 0x41 + 10)
  else if 0x61 ≤ b ∧ b ≤ 0x66 then some (b.toNat - 0x61 + 10)
  else none

/-- Four hexadecimal digits. -/
def readHex : Bytes → Option (ℕ × Bytes)
  | a :: b :: c :: d :: s =>
      match hexValue a, hexValue b, hexValue c, hexValue d with
      | some a, some b, some c, some d => some (a * 4096 + b * 256 + c * 16 + d, s)
      | _, _, _, _ => none
  | _ => none

/-- The second half of a surrogate pair: its number, behind `\u`. -/
def readLow : Bytes → Option (ℕ × Bytes)
  | a :: b :: s => if a = backslash ∧ b = 0x75 then readHex s else none
  | _ => none

/-- What follows `\u`: a character, or the two halves of one. -/
def readUnicode (s : Bytes) : Option (Bytes × Bytes) :=
  match readHex s with
  | none => none
  | some (n, s) =>
      if 0xD800 ≤ n ∧ n < 0xDC00 then
        match readLow s with
        | none => none
        | some (low, s) =>
            if 0xDC00 ≤ low ∧ low < 0xE000 then
              some (String.utf8EncodeChar
                (Char.ofNat (0x10000 + (n - 0xD800) * 0x400 + (low - 0xDC00))), s)
            else none
      else if 0xDC00 ≤ n ∧ n < 0xE000 then none
      else some (String.utf8EncodeChar (Char.ofNat n), s)

/-- The byte for which a letter stands behind a backslash. -/
def unescape (b : UInt8) : Option UInt8 :=
  if b = quote ∨ b = backslash ∨ b = 0x2F then some b
  else if b = 0x62 then some 0x08
  else if b = 0x66 then some 0x0C
  else if b = 0x6E then some 0x0A
  else if b = 0x72 then some 0x0D
  else if b = 0x74 then some 0x09
  else none

/-- What follows a backslash. -/
def readEscape : Bytes → Option (Bytes × Bytes)
  | [] => none
  | b :: s => if b = 0x75 then readUnicode s else (unescape b).map fun c => ([c], s)

/-- The next part of a string: bytes of its value, or its end. -/
def readPart : Bytes → Option (Option Bytes × Bytes)
  | [] => none
  | b :: s =>
      if b = quote then some (none, s)
      else if b = backslash then (readEscape s).map fun p => (some p.1, p.2)
      else if b < 0x20 then none
      else some (some [b], s)

/-- A string, part by part. -/
def readParts : ℕ → Bytes → Option (Bytes × Bytes)
  | 0, _ => none
  | fuel + 1, s =>
      match readPart s with
      | none => none
      | some (none, rest) => some ([], rest)
      | some (some bytes, rest) => (readParts fuel rest).map fun p => (bytes ++ p.1, p.2)

/-- What follows the quotation mark that opens a string. -/
def readString (s : Bytes) : Option (Bytes × Bytes) := readParts (s.length + 1) s

/-- The digits of a number, which begin with 0 only if they are 0. -/
def readNat (s : Bytes) : Option (ℕ × Bytes) :=
  let digits := s.takeWhile isDigit
  if digits = [] ∨ digits.head? = some 0x30 ∧ digits ≠ [0x30] then none
  else some (ofNumeral (fun b => b.toNat - 0x30) 10 digits, s.dropWhile isDigit)

/-- An integer. -/
def readNumber : Bytes → Option (ℤ × Bytes)
  | [] => none
  | b :: s =>
      if b = 0x2D then (readNat s).map fun p => (-(p.1 : ℤ), p.2)
      else (readNat (b :: s)).map fun p => ((p.1 : ℤ), p.2)

/-- The rest of a word. -/
def readWord (word : Bytes) (j : Json) (s : Bytes) : Option (Json × Bytes) :=
  if word <+: s then some (j, s.drop word.length) else none

mutual

/-- A value. -/
def readValue : ℕ → Bytes → Option (Json × Bytes)
  | 0, _ => none
  | fuel + 1, s =>
      match space s with
      | [] => none
      | b :: s =>
          if b = quote then (readString s).map fun p => (.string p.1, p.2)
          else if b = 0x5B then
            match expect 0x5D s with
            | some s => some (.array [], s)
            | none => (readElements fuel s).map fun p => (.array p.1, p.2)
          else if b = 0x7B then
            match expect 0x7D s with
            | some s => some (.object [], s)
            | none => (readMembers fuel s).map fun p => (.object p.1, p.2)
          else if b = 0x6E then readWord [0x75, 0x6C, 0x6C] .null s
          else if b = 0x74 then readWord [0x72, 0x75, 0x65] (.bool true) s
          else if b = 0x66 then readWord [0x61, 0x6C, 0x73, 0x65] (.bool false) s
          else (readNumber (b :: s)).map fun p => (.number p.1, p.2)

/-- The elements of an array, up to its end. -/
def readElements : ℕ → Bytes → Option (List Json × Bytes)
  | 0, _ => none
  | fuel + 1, s =>
      match readValue fuel s with
      | none => none
      | some (j, s) =>
          match expect 0x2C s with
          | some s => (readElements fuel s).map fun p => (j :: p.1, p.2)
          | none => (expect 0x5D s).map fun s => ([j], s)

/-- The members of an object, up to its end. -/
def readMembers : ℕ → Bytes → Option (List (Bytes × Json) × Bytes)
  | 0, _ => none
  | fuel + 1, s =>
      match (expect quote s).bind readString with
      | none => none
      | some (key, s) =>
          match (expect 0x3A s).bind (readValue fuel) with
          | none => none
          | some (j, s) =>
              match expect 0x2C s with
              | some s => (readMembers fuel s).map fun p => ((key, j) :: p.1, p.2)
              | none => (expect 0x7D s).map fun s => ([(key, j)], s)

end

/-- A text that holds a value and nothing else. -/
def read (s : Bytes) : Option Json :=
  match readValue (2 * s.length + 1) s with
  | none => none
  | some (j, rest) => if space rest = [] then some j else none

/-! ## The parts of a string -/

/-- A string that needs no escape. -/
def Plain (s : Bytes) : Prop := ∀ b ∈ s, 0x20 ≤ b ∧ b ≠ quote ∧ b ≠ backslash

instance (s : Bytes) : Decidable (Plain s) := List.decidableBAll _ s

/-- **A part of a string and the bytes it stands for**: a byte itself, an escaped quotation mark, or
another escape, which is longer than what it stands for. -/
inductive Part : Bytes → Bytes → Prop
  | byte (b : UInt8) (h : Plain [b]) : Part [b] [b]
  | quoted : Part [backslash, quote] [quote]
  | escape {t x : Bytes} (hquote : quote ∉ t) (hlength : x.length < t.length) : Part t x

/-- A quote is no hexadecimal digit. -/
theorem hexValue_quote : hexValue quote = none := by decide

/-- Four digits are read, and no quote is one of them. -/
theorem readHex_spec {s r : Bytes} {n : ℕ} (h : readHex s = some (n, r)) :
    ∃ t, s = t ++ r ∧ t.length = 4 ∧ quote ∉ t := by
  match s with
  | [] => exact absurd h (by simp [readHex])
  | [_] => exact absurd h (by simp [readHex])
  | [_, _] => exact absurd h (by simp [readHex])
  | [_, _, _] => exact absurd h (by simp [readHex])
  | a :: b :: c :: d :: s =>
      rw [readHex] at h
      -- every one of the four is a digit, and a quotation mark is none
      have hdigit : ∀ {x : UInt8} {v : ℕ}, hexValue x = some v → quote ≠ x := by
        intro x v hx heq
        rw [← heq, hexValue_quote] at hx
        exact absurd hx (by simp)
      cases ha : hexValue a with
      | none => rw [ha] at h; exact absurd h (by simp)
      | some va =>
          cases hb : hexValue b with
          | none => rw [ha, hb] at h; exact absurd h (by simp)
          | some vb =>
              cases hc : hexValue c with
              | none => rw [ha, hb, hc] at h; exact absurd h (by simp)
              | some vc =>
                  cases hd : hexValue d with
                  | none => rw [ha, hb, hc, hd] at h; exact absurd h (by simp)
                  | some vd =>
                      rw [ha, hb, hc, hd] at h
                      obtain ⟨-, rfl⟩ := Prod.mk.inj (Option.some.inj h)
                      refine ⟨[a, b, c, d], rfl, rfl, ?_⟩
                      simp [hdigit ha, hdigit hb, hdigit hc, hdigit hd]

/-- Reading the second half of a pair goes over no quote. -/
theorem readLow_spec {s r : Bytes} {n : ℕ} (h : readLow s = some (n, r)) :
    ∃ t, s = t ++ r ∧ quote ∉ t := by
  match s with
  | [] => exact absurd h (by simp [readLow])
  | [_] => exact absurd h (by simp [readLow])
  | a :: b :: s =>
      rw [readLow] at h
      by_cases hab : a = backslash ∧ b = 0x75
      · rw [if_pos hab] at h
        obtain ⟨t, rfl, -, hquote⟩ := readHex_spec h
        obtain ⟨rfl, rfl⟩ := hab
        refine ⟨backslash :: 0x75 :: t, rfl, ?_⟩
        simp only [List.mem_cons, hquote, or_false]
        decide
      · rw [if_neg hab] at h
        exact absurd h (by simp)

/-- A character takes at most four bytes. -/
theorem length_encodeChar_le (c : Char) : (String.utf8EncodeChar c).length ≤ 4 := by
  rw [String.length_utf8EncodeChar]
  exact c.utf8Size_le_four

/-- A unicode escape is no shorter than the character it stands for. -/
theorem readUnicode_spec {s r x : Bytes} (h : readUnicode s = some (x, r)) :
    ∃ t, s = t ++ r ∧ x.length ≤ t.length ∧ quote ∉ t := by
  rw [readUnicode] at h
  cases hhex : readHex s with
  | none => rw [hhex] at h; exact absurd h (by simp)
  | some p =>
      obtain ⟨n, s'⟩ := p
      obtain ⟨t, rfl, hlength, hquote⟩ := readHex_spec hhex
      simp only [hhex] at h
      -- a high surrogate needs the low one behind it
      by_cases hhigh : 0xD800 ≤ n ∧ n < 0xDC00
      · rw [if_pos hhigh] at h
        cases hlow : readLow s' with
        | none => rw [hlow] at h; exact absurd h (by simp)
        | some q =>
            obtain ⟨low, s''⟩ := q
            obtain ⟨t', rfl, hquote'⟩ := readLow_spec hlow
            simp only [hlow] at h
            split at h
            · obtain ⟨rfl, rfl⟩ := Prod.mk.inj (Option.some.inj h)
              refine ⟨t ++ t', by simp, ?_, by simp [hquote, hquote']⟩
              have hle := length_encodeChar_le
                (Char.ofNat (0x10000 + (n - 0xD800) * 0x400 + (low - 0xDC00)))
              rw [List.length_append]
              omega
            · exact absurd h (by simp)
      · rw [if_neg hhigh] at h
        split at h
        · exact absurd h (by simp)
        · obtain ⟨rfl, rfl⟩ := Prod.mk.inj (Option.some.inj h)
          exact ⟨t, rfl, hlength ▸ length_encodeChar_le _, hquote⟩

/-- **What `readPart` reads is a part.** -/
theorem readPart_spec {s r x : Bytes} (h : readPart s = some (some x, r)) :
    ∃ t, s = t ++ r ∧ Part t x := by
  -- A quote ends the string, a backslash begins an escape, and any other byte stands for itself.
  cases s with
  | nil => exact absurd h (by simp [readPart])
  | cons b s =>
      rw [readPart] at h
      by_cases hquote : b = quote
      · rw [if_pos hquote] at h
        exact absurd h (by simp)
      · rw [if_neg hquote] at h
        by_cases hback : b = backslash
        · rw [if_pos hback, Option.map_eq_some_iff] at h
          obtain ⟨⟨x', r'⟩, hescape, heq⟩ := h
          obtain ⟨hx, rfl⟩ := Prod.mk.inj heq
          obtain rfl := Option.some.inj hx
          cases s with
          | nil => exact absurd hescape (by simp [readEscape])
          | cons e s =>
              rw [readEscape] at hescape
              -- `\u` and four digits, and everything else a single letter
              by_cases hu : e = 0x75
              · rw [if_pos hu] at hescape
                obtain ⟨t, rfl, hlength, ht⟩ := readUnicode_spec hescape
                refine ⟨b :: e :: t, rfl, .escape ?_ ?_⟩
                · rw [hback, hu]
                  simp only [List.mem_cons, ht, or_false]
                  decide
                · simp only [List.length_cons]
                  omega
              · rw [if_neg hu, Option.map_eq_some_iff] at hescape
                obtain ⟨c, hc, heq⟩ := hescape
                obtain ⟨rfl, rfl⟩ := Prod.mk.inj heq
                refine ⟨[b, e], rfl, ?_⟩
                by_cases he : e = quote
                · rw [he, unescape, if_pos (Or.inl rfl)] at hc
                  rw [hback, he, ← Option.some.inj hc]
                  exact .quoted
                · exact .escape (by simp [Ne.symm hquote, Ne.symm he]) (by simp)
        · rw [if_neg hback] at h
          by_cases hlt : b < 0x20
          · rw [if_pos hlt] at h
            exact absurd h (by simp)
          · rw [if_neg hlt] at h
            obtain ⟨hx, rfl⟩ := Prod.mk.inj (Option.some.inj h)
            obtain rfl := Option.some.inj hx
            refine ⟨[b], rfl, .byte b ?_⟩
            intro a ha
            rw [List.mem_singleton] at ha
            rw [ha]
            exact ⟨UInt8.not_lt.mp hlt, hquote, hback⟩

/-- A part of a string has a byte. -/
theorem Part.length_pos {t x : Bytes} (h : Part t x) : 0 < t.length := by
  cases h with
  | byte b h => simp
  | quoted => simp
  | escape hquote hlength => omega

/-- A string ends at a quotation mark. -/
theorem readPart_end {s r : Bytes} (h : readPart s = some (none, r)) : s = quote :: r := by
  cases s with
  | nil => exact absurd h (by simp [readPart])
  | cons b s =>
      rw [readPart] at h
      by_cases hquote : b = quote
      · rw [if_pos hquote] at h
        obtain ⟨-, rfl⟩ := Prod.mk.inj (Option.some.inj h)
        rw [hquote]
      · rw [if_neg hquote] at h
        split at h
        · rw [Option.map_eq_some_iff] at h
          obtain ⟨p, -, heq⟩ := h
          exact absurd (Prod.mk.inj heq).1 (by simp)
        · split at h
          · exact absurd h (by simp)
          · exact absurd (Prod.mk.inj (Option.some.inj h)).1 (by simp)

/-- Reading a part makes the text shorter. -/
theorem readPart_length_lt {s r : Bytes} {x : Option Bytes} (h : readPart s = some (x, r)) :
    r.length < s.length := by
  cases x with
  | some x =>
      obtain ⟨t, rfl, hpart⟩ := readPart_spec h
      have hpos := hpart.length_pos
      rw [List.length_append]
      omega
  | none => simp [readPart_end h]

/-- More fuel than bytes is enough, and all the same. -/
theorem readParts_congr {fuel fuel' : ℕ} {s : Bytes} (h : s.length < fuel) (h' : s.length < fuel') :
    readParts fuel s = readParts fuel' s := by
  induction fuel generalizing s fuel' with
  | zero => omega
  | succ fuel ih =>
      obtain ⟨fuel', rfl⟩ : ∃ n, fuel' = n + 1 := ⟨fuel' - 1, by omega⟩
      rw [readParts, readParts]
      cases hpart : readPart s with
      | none => rfl
      | some p =>
          obtain ⟨x, rest⟩ := p
          have hlt := readPart_length_lt hpart
          cases x with
          | none => rfl
          | some x =>
              simp only
              rw [ih (by omega) (show rest.length < fuel' by omega)]

/-- The closing quote ends the string. -/
theorem readString_of_end {s r : Bytes} (h : readPart s = some (none, r)) :
    readString s = some ([], r) := by
  rw [readString, readParts, h]

/-- A string with a part that is none is not read. -/
theorem readString_of_none {s : Bytes} (h : readPart s = none) : readString s = none := by
  rw [readString, readParts, h]

/-- A part that is read stands in front of the others. -/
theorem readString_of_part {s r x : Bytes} (h : readPart s = some (some x, r)) :
    readString s = (readString r).map fun p => (x ++ p.1, p.2) := by
  have hlt := readPart_length_lt h
  rw [readString, readParts, h]
  simp only
  rw [readParts_congr hlt (Nat.lt_succ_self _)]
  rfl

/-- A quote in place of a part is the end of the string. -/
theorem readPart_quote (s : Bytes) : readPart (quote :: s) = some (none, s) := by
  rw [readPart, if_pos rfl]

/-- Bytes that need no escape are read as they stand. -/
theorem readString_append {s : Bytes} (h : Plain s) (r : Bytes) :
    readString (s ++ r) = (readString r).map fun p => (s ++ p.1, p.2) := by
  induction s with
  | nil => simp
  | cons b s ih =>
      obtain ⟨hge, hquote, hback⟩ := h b (List.mem_cons_self ..)
      have hpart : readPart (b :: (s ++ r)) = some (some [b], s ++ r) := by
        rw [readPart, if_neg hquote, if_neg hback, if_neg (UInt8.not_lt.mpr hge)]
      rw [List.cons_append, readString_of_part hpart, ih fun b hb => h b (List.mem_cons_of_mem _ hb),
        Option.map_map]
      rfl

/-- **A string without escapes is read as it stands.** -/
theorem readString_plain {s : Bytes} (h : Plain s) (r : Bytes) :
    readString (s ++ quote :: r) = some (s, r) := by
  rw [readString_append h, readString_of_end (readPart_quote r), Option.map_some, List.append_nil]

/-- A part that begins before the first quotation mark ends before it, or is that quotation mark
escaped. -/
theorem Part.split {t x c r rest : Bytes} (h : Part t x) (hc : quote ∉ c)
    (heq : c ++ quote :: rest = t ++ r) :
    (∃ c', c = t ++ c' ∧ r = c' ++ quote :: rest) ∨ (c = [backslash] ∧ t = [backslash, quote]) := by
  -- The text in front of the quotation mark has no quote, so the part lies in it or is the escaped
  -- mark.
  cases h with
  | byte b h =>
      cases c with
      | nil => exact absurd (List.cons.inj heq).1.symm (h b (List.mem_singleton_self b)).2.1
      | cons a c =>
          obtain ⟨rfl, rfl⟩ := List.cons.inj heq
          exact .inl ⟨c, rfl, rfl⟩
  | quoted =>
      cases c with
      | nil => exact absurd (List.cons.inj heq).1 (by decide)
      | cons a c =>
          obtain rfl : a = backslash := (List.cons.inj heq).1
          cases c with
          | nil => exact .inr ⟨rfl, rfl⟩
          | cons a c =>
              obtain ⟨rfl, -⟩ := List.cons.inj (List.cons.inj heq).2
              exact absurd (by simp) hc
  | escape hquote hlength =>
      refine .inl ?_
      rcases List.append_eq_append_iff.mp heq with ⟨m, rfl, hm⟩ | ⟨m, rfl, hm⟩
      · -- `t` reaches past the quotation mark only if it is in it
        cases m with
        | nil => exact ⟨[], by simp, by simpa using hm.symm⟩
        | cons a m =>
            obtain ⟨rfl, -⟩ := List.cons.inj hm
            exact absurd (by simp) hquote
      · exact ⟨m, rfl, hm⟩

/-- **What is read of a text up to its first quotation mark**: the string ends there, and it is no
longer than the text and as long only where the text needs no escape; or it goes on there, and has
an earlier quotation mark. -/
theorem readString_split {c rest v r : Bytes} (hc : quote ∉ c)
    (h : readString (c ++ quote :: rest) = some (v, r)) :
    (r = rest ∧ v.length ≤ c.length ∧ (v.length = c.length → Plain c ∧ v = c)) ∨
      ∃ v₁ v₂, v = v₁ ++ quote :: v₂ ∧ v₁.length < c.length := by
  -- Induction on the text in front of the quotation mark, part by part.
  induction hn : c.length using Nat.strongRecOn generalizing c v with
  | ind n ih =>
      cases hpart : readPart (c ++ quote :: rest) with
      | none => rw [readString_of_none hpart] at h; exact absurd h (by simp)
      | some p =>
          obtain ⟨x, s⟩ := p
          cases x with
          | none =>
              have hend := readPart_end hpart
              rw [readString_of_end hpart] at h
              obtain ⟨rfl, rfl⟩ := Prod.mk.inj (Option.some.inj h)
              cases c with
              | nil => exact .inl ⟨(List.cons.inj hend).2.symm, Nat.zero_le _, fun _ => ⟨by simp [Plain], rfl⟩⟩
              | cons b c => exact absurd (by simp [(List.cons.inj hend).1]) hc
          | some x =>
              rw [readString_of_part hpart, Option.map_eq_some_iff] at h
              obtain ⟨⟨v', r'⟩, hread, heq⟩ := h
              obtain ⟨rfl, rfl⟩ := Prod.mk.inj heq
              simp only
              obtain ⟨t, hsplit, hshape⟩ := readPart_spec hpart
              have hpos := hshape.length_pos
              rcases hshape.split hc hsplit with ⟨c', rfl, rfl⟩ | ⟨rfl, rfl⟩
              · -- a part before the quotation mark, and then the rest of the text
                rw [List.length_append] at hn
                have hc' : quote ∉ c' := fun hmem => hc (List.mem_append_right _ hmem)
                -- a part stands for at most as many bytes as it has, and for as many only if it is
                -- plain
                have hle : x.length ≤ t.length ∧ (x.length = t.length → Plain t ∧ x = t) := by
                  cases hshape with
                  | byte b h => exact ⟨Nat.le_refl _, fun _ => ⟨h, rfl⟩⟩
                  | quoted => exact absurd (by simp) hc
                  | escape hquote hlength => exact ⟨hlength.le, fun h => absurd h hlength.ne⟩
                rcases ih c'.length (by omega) hc' hread rfl with
                  ⟨rfl, hlength, hplain⟩ | ⟨v₁, v₂, rfl, hlength⟩
                · refine .inl ⟨rfl, by rw [List.length_append]; omega, fun heq => ?_⟩
                  rw [List.length_append] at heq
                  obtain ⟨ht, rfl⟩ := hle.2 (by omega)
                  obtain ⟨hplain, rfl⟩ := hplain (by omega)
                  exact ⟨fun b hb => (List.mem_append.mp hb).elim (ht b) (hplain b), rfl⟩
                · exact .inr ⟨x ++ v₁, v₂, by simp, by rw [List.length_append]; omega⟩
              · -- the quotation mark itself, escaped
                cases hshape with
                | quoted => exact .inr ⟨[], v', rfl, by rw [← hn]; simp⟩
                | escape hquote hlength => exact absurd (by simp) hquote

/-- **A text that stands between quotation marks is read as it stands exactly if it needs no
escape.** -/
theorem plain_of_readString {s rest r : Bytes} (h : readString (s ++ quote :: rest) = some (s, r)) :
    Plain s ∧ r = rest := by
  by_cases hs : quote ∈ s
  · -- up to the first quotation mark of the text itself
    obtain ⟨c, d, rfl, hc⟩ := List.eq_append_cons_of_mem hs
    rw [List.append_assoc, List.cons_append] at h
    rcases readString_split hc h with ⟨-, hlength, -⟩ | ⟨v₁, v₂, heq, hlength⟩
    · simp only [List.length_append, List.length_cons] at hlength
      omega
    · -- a quotation mark of the value before the first of the text
      have hmem : quote ∈ (c ++ quote :: d).take (v₁.length + 1) := by
        rw [heq, List.take_append]
        simp
      rw [List.take_append_of_le_length (by omega)] at hmem
      exact absurd (List.mem_of_mem_take hmem) hc
  · rcases readString_split hs h with ⟨rfl, -, hplain⟩ | ⟨v₁, v₂, heq, -⟩
    · exact ⟨(hplain rfl).1, rfl⟩
    · exact absurd (by rw [heq]; simp) hs

/-! ## Numbers -/

/-- A digit is none of the other bytes. -/
theorem ne_of_isDigit {b c : UInt8} (hb : isDigit b = true) (hc : isDigit c = false) : b ≠ c := by
  rintro rfl
  rw [hc] at hb
  exact absurd hb (by decide)

/-- A digit is no white space. -/
theorem isSpace_of_isDigit {b : UInt8} (hb : isDigit b = true) : isSpace b = false := by
  have hne : ∀ c, isDigit c = false → b ≠ c := fun c => ne_of_isDigit hb
  simp [isSpace, hne 0x20 (by decide), hne 0x09 (by decide), hne 0x0A (by decide),
    hne 0x0D (by decide)]

/-- A digit is no control character. -/
theorem printable_of_isDigit {b : UInt8} (hb : isDigit b = true) : 0x20 ≤ b := by
  rw [isDigit, Bool.and_eq_true, decide_eq_true_eq] at hb
  exact UInt8.le_trans (by decide) hb.1

/-- Behind a number there is no digit. -/
def NoDigit (s : Bytes) : Prop := ∀ b ∈ s.head?, isDigit b = false

/-- Nothing begins with no digit. -/
theorem noDigit_nil : NoDigit [] := by simp [NoDigit]

/-- What begins with another byte begins with no digit. -/
theorem noDigit_cons {b : UInt8} {s : Bytes} (h : isDigit b = false) : NoDigit (b :: s) := by
  simpa [NoDigit] using h

/-- A number is written in digits. -/
theorem isDigit_of_mem_digits (n : ℕ) : ∀ b ∈ digits n, isDigit b = true :=
  forall_mem_numeral (by omega) (by decide) n

/-- Only 0 begins with 0. -/
theorem head?_digits {n : ℕ} (hn : 0 < n) : (digits n).head? ≠ some 0x30 := by
  induction n using Nat.strongRecOn with
  | ind n ih =>
      by_cases hlt : n < 10
      · rw [digits, numeral_of_lt hlt]
        have hdigit : ∀ d < 10, 0 < d → UInt8.ofNat (Nat.digitChar d).toNat ≠ 0x30 := by decide
        simpa using hdigit n hlt hn
      · have hne : digits (n / 10) ≠ [] := numeral_ne_nil 10 _
        have hsplit : digits n = digits (n / 10) ++ [UInt8.ofNat (Nat.digitChar (n % 10)).toNat] :=
          numeral_of_le (by omega) (by omega)
        rw [hsplit, List.head?_append_of_ne_nil _ hne]
        exact ih (n / 10) (by omega) (by omega)

/-- A number is read back up to the first byte that is no digit. -/
theorem readNat_digits (n : ℕ) {s : Bytes} (hs : NoDigit s) :
    readNat (digits n ++ s) = some (n, s) := by
  have hall := isDigit_of_mem_digits n
  have htake : (digits n ++ s).takeWhile isDigit = digits n := by
    rw [List.takeWhile_append_of_pos hall]
    cases s with
    | nil => simp
    | cons b s => rw [List.takeWhile_cons_of_neg (by simp [hs b rfl]), List.append_nil]
  have hdrop : (digits n ++ s).dropWhile isDigit = s := by
    rw [List.dropWhile_append_of_pos hall]
    cases s with
    | nil => rfl
    | cons b s => rw [List.dropWhile_cons_of_neg (by simp [hs b rfl])]
  have hne : digits n ≠ [] := numeral_ne_nil 10 n
  have hzero : ¬ (digits n = [] ∨ (digits n).head? = some 0x30 ∧ digits n ≠ [0x30]) := by
    rintro (h | ⟨hhead, h⟩)
    · exact hne h
    · rcases Nat.eq_zero_or_pos n with rfl | hpos
      · exact h rfl
      · exact head?_digits hpos hhead
  have hvalue : ofNumeral (fun b : UInt8 => b.toNat - 0x30) 10 (digits n) = n :=
    ofNumeral_numeral (by omega) (by decide) n
  simp only [readNat, htake, hdrop, hvalue]
  rw [if_neg hzero]

/-- The first byte of a number. -/
theorem decimal_eq_cons (n : ℤ) :
    ∃ b s, decimal n = b :: s ∧ (b = 0x2D ∨ isDigit b = true) := by
  rw [decimal]
  split
  · exact ⟨_, _, rfl, .inl rfl⟩
  · cases hdigits : digits n.natAbs with
    | nil => exact absurd hdigits (numeral_ne_nil 10 _)
    | cons b s =>
        exact ⟨b, s, rfl, .inr (isDigit_of_mem_digits n.natAbs b (by rw [hdigits]; simp))⟩

/-- **An integer is read back.** -/
theorem readNumber_decimal (n : ℤ) {s : Bytes} (hs : NoDigit s) :
    readNumber (decimal n ++ s) = some (n, s) := by
  by_cases hn : n < 0
  · rw [decimal, if_pos hn, List.cons_append, readNumber, if_pos rfl, readNat_digits _ hs]
    simp only [Option.map_some, Option.some.injEq, Prod.mk.injEq, and_true]
    omega
  · have hread := readNat_digits n.natAbs hs
    have hall := isDigit_of_mem_digits n.natAbs
    rw [decimal, if_neg hn]
    cases hdigits : digits n.natAbs with
    | nil => exact absurd hdigits (numeral_ne_nil 10 _)
    | cons b t =>
        rw [hdigits] at hread hall
        have hb : b ≠ 0x2D := fun h => absurd (hall b (List.mem_cons_self ..)) (by rw [h]; decide)
        rw [List.cons_append, readNumber, if_neg hb, ← List.cons_append, hread]
        simp only [Option.map_some, Option.some.injEq, Prod.mk.injEq, and_true]
        omega

/-! ## Tokens -/

/-- No white space stands before a byte that is none. -/
theorem space_cons {b : UInt8} (hb : isSpace b = false) (s : Bytes) : space (b :: s) = b :: s := by
  rw [space, List.dropWhile_cons_of_neg (by simp [hb])]

/-- The byte expected is taken. -/
theorem expect_self {b : UInt8} (hb : isSpace b = false) (s : Bytes) :
    expect b (b :: s) = some s := by
  rw [expect, space_cons hb]
  simp

/-- Another one is not. -/
theorem expect_ne {a b : UInt8} (hb : isSpace b = false) (h : b ≠ a) (s : Bytes) :
    expect a (b :: s) = none := by
  rw [expect, space_cons hb]
  simp [h]

/-- A byte that may begin a value. -/
def Opens (b : UInt8) : Prop := isSpace b = false ∧ b ≠ 0x5D

instance (b : UInt8) : Decidable (Opens b) := inferInstanceAs (Decidable (_ ∧ _))

/-- What the text of a value begins with. -/
theorem write_eq_cons (escape : Bytes → Bytes) (j : Json) :
    ∃ b s, write escape j = b :: s ∧ Opens b := by
  cases j with
  | null => exact ⟨_, _, by rw [write], by decide⟩
  | bool b => cases b <;> exact ⟨_, _, by rw [write], by decide⟩
  | number n =>
      obtain ⟨b, s, heq, hb⟩ := decimal_eq_cons n
      refine ⟨b, s, by rw [write, heq], ?_⟩
      rcases hb with rfl | hb
      · decide
      · exact ⟨isSpace_of_isDigit hb, ne_of_isDigit hb (by decide)⟩
  | string s => exact ⟨_, _, by rw [write], by decide⟩
  | array js => exact ⟨_, _, by rw [write], by decide⟩
  | object members => exact ⟨_, _, by rw [write], by decide⟩

/-! ## What is written and read -/

/-- The reader undoes what the writer makes of a string. -/
def Undone (escape : Bytes → Bytes) (s : Bytes) : Prop :=
  ∀ r, readString (escape s ++ quote :: r) = some (s, r)

variable {escape : Bytes → Bytes}

/-- A word is read as the value it stands for. -/
theorem readWord_append (word : Bytes) (j : Json) (s : Bytes) :
    readWord word j (word ++ s) = some (j, s) := by
  rw [readWord, if_pos (List.prefix_append word s), List.drop_left]

/-- What the text of an array that is not empty begins with. -/
theorem expect_writeElements (j : Json) (js : List Json) (s : Bytes) :
    expect 0x5D (writeElements escape (j :: js) ++ s) = none := by
  obtain ⟨b, t, heq, hspace, hne⟩ := write_eq_cons escape j
  rw [writeElements, heq, List.cons_append, List.cons_append]
  exact expect_ne hspace hne _

/-- The members of an object do not begin with its closing brace. -/
theorem expect_writeMembers (member : Bytes × Json) (members : List (Bytes × Json)) (s : Bytes) :
    expect 0x7D (writeMembers escape (member :: members) ++ s) = none := by
  rw [writeMembers, List.cons_append]
  exact expect_ne (by decide) (by decide) _

/-- What the readers make of texts for which the fuel is enough. -/
structure ReadsBack (escape : Bytes → Bytes) (fuel : ℕ) : Prop where
  value : ∀ j : Json, j.All (Undone escape) → ∀ s, NoDigit s →
    2 * (write escape j).length ≤ fuel → readValue fuel (write escape j ++ s) = some (j, s)
  elements : ∀ j js, AllElements (Undone escape) (j :: js) → ∀ s,
    2 * (writeElements escape (j :: js)).length < fuel →
      readElements fuel (writeElements escape (j :: js) ++ 0x5D :: s) = some (j :: js, s)
  members : ∀ member members, AllMembers (Undone escape) (member :: members) → ∀ s,
    2 * (writeMembers escape (member :: members)).length < fuel →
      readMembers fuel (writeMembers escape (member :: members) ++ 0x7D :: s)
        = some (member :: members, s)

/-- A byte that begins a number begins no other token. -/
theorem readValue_number {b : UInt8} (hb : b = 0x2D ∨ isDigit b = true) (fuel : ℕ) (s : Bytes) :
    readValue (fuel + 1) (b :: s) = (readNumber (b :: s)).map fun p => (.number p.1, p.2) := by
  have hspace : isSpace b = false := by
    rcases hb with rfl | hb
    · decide
    · exact isSpace_of_isDigit hb
  have hne : ∀ c, c ≠ 0x2D → isDigit c = false → b ≠ c := by
    intro c hminus hc
    rcases hb with rfl | hb
    · exact hminus.symm
    · exact ne_of_isDigit hb hc
  rw [readValue, space_cons hspace]
  simp only
  rw [if_neg (hne quote (by decide) (by decide)), if_neg (hne 0x5B (by decide) (by decide)),
    if_neg (hne 0x7B (by decide) (by decide)), if_neg (hne 0x6E (by decide) (by decide)),
    if_neg (hne 0x74 (by decide) (by decide)), if_neg (hne 0x66 (by decide) (by decide))]

/-- `null` is read back. -/
theorem readValue_null (fuel : ℕ) (s : Bytes) :
    readValue (fuel + 1) (write escape .null ++ s) = some (.null, s) := by
  rw [write, List.cons_append, readValue, space_cons (by decide)]
  exact readWord_append [0x75, 0x6C, 0x6C] .null s

/-- A boolean is read back. -/
theorem readValue_bool (b : Bool) (fuel : ℕ) (s : Bytes) :
    readValue (fuel + 1) (write escape (.bool b) ++ s) = some (.bool b, s) := by
  cases b with
  | true =>
      rw [write, List.cons_append, readValue, space_cons (by decide)]
      exact readWord_append [0x72, 0x75, 0x65] (.bool true) s
  | false =>
      rw [write, List.cons_append, readValue, space_cons (by decide)]
      exact readWord_append [0x61, 0x6C, 0x73, 0x65] (.bool false) s

/-- A number is read back. -/
theorem readValue_decimal (n : ℤ) (fuel : ℕ) {s : Bytes} (hs : NoDigit s) :
    readValue (fuel + 1) (write escape (.number n) ++ s) = some (.number n, s) := by
  obtain ⟨b, t, hhead, hb⟩ := decimal_eq_cons n
  have hread := readNumber_decimal n hs
  rw [hhead, List.cons_append] at hread
  rw [write, hhead, List.cons_append, readValue_number hb, hread]
  rfl

/-- A quote begins a string. -/
theorem readValue_quote (fuel : ℕ) (s : Bytes) :
    readValue (fuel + 1) (quote :: s) = (readString s).map fun p => (.string p.1, p.2) := by
  rw [readValue, space_cons (by decide)]
  rfl

/-- An opening bracket begins the elements of an array that is not empty. -/
theorem readValue_array (fuel : ℕ) {s : Bytes} (h : expect 0x5D s = none) :
    readValue (fuel + 1) (0x5B :: s) = (readElements fuel s).map fun p => (.array p.1, p.2) := by
  rw [readValue, space_cons (by decide)]
  simp only [h]
  rfl

/-- An opening brace begins the members of an object that is not empty. -/
theorem readValue_object (fuel : ℕ) {s : Bytes} (h : expect 0x7D s = none) :
    readValue (fuel + 1) (0x7B :: s) = (readMembers fuel s).map fun p => (.object p.1, p.2) := by
  rw [readValue, space_cons (by decide)]
  simp only [h]
  rfl

/-- An empty array and an empty object. -/
theorem readValue_empty (fuel : ℕ) (s : Bytes) :
    readValue (fuel + 1) (write escape (.array []) ++ s) = some (.array [], s) ∧
      readValue (fuel + 1) (write escape (.object []) ++ s) = some (.object [], s) := by
  constructor
  · rw [write, writeElements, List.cons_append, readValue, space_cons (by decide)]
    rfl
  · rw [write, writeMembers, List.cons_append, readValue, space_cons (by decide)]
    rfl

/-- A value is read back with one unit of fuel more. -/
theorem ReadsBack.value_succ {fuel : ℕ} (ih : ReadsBack escape fuel) (j : Json)
    (h : j.All (Undone escape)) (s : Bytes) (hs : NoDigit s)
    (hfuel : 2 * (write escape j).length ≤ fuel + 1) :
    readValue (fuel + 1) (write escape j ++ s) = some (j, s) := by
  -- Strings are read back by assumption; arrays and objects with the fuel that is left.
  cases j with
  | null => exact readValue_null fuel s
  | bool b => exact readValue_bool b fuel s
  | number n => exact readValue_decimal n fuel hs
  | string v =>
      rw [write, List.cons_append, List.append_assoc, List.singleton_append, readValue_quote, h s]
      rfl
  | array js =>
      cases js with
      | nil => exact (readValue_empty fuel s).1
      | cons j js =>
          rw [write] at hfuel ⊢
          simp only [List.length_cons, List.length_append, List.length_nil] at hfuel
          rw [List.cons_append, List.append_assoc, List.singleton_append,
            readValue_array fuel (expect_writeElements j js _), ih.elements j js h s (by omega)]
          rfl
  | object members =>
      cases members with
      | nil => exact (readValue_empty fuel s).2
      | cons member members =>
          rw [write] at hfuel ⊢
          simp only [List.length_cons, List.length_append, List.length_nil] at hfuel
          rw [List.cons_append, List.append_assoc, List.singleton_append,
            readValue_object fuel (expect_writeMembers member members _),
            ih.members member members h s (by omega)]
          rfl

/-- So are the elements of an array. -/
theorem ReadsBack.elements_succ {fuel : ℕ} (ih : ReadsBack escape fuel) (j : Json) (js : List Json)
    (h : AllElements (Undone escape) (j :: js)) (s : Bytes)
    (hfuel : 2 * (writeElements escape (j :: js)).length < fuel + 1) :
    readElements (fuel + 1) (writeElements escape (j :: js) ++ 0x5D :: s) = some (j :: js, s) := by
  cases js with
  | nil =>
      rw [writeElements] at hfuel ⊢
      simp only [List.isEmpty_nil, if_true, List.append_nil] at hfuel ⊢
      rw [readElements, ih.value j h.1 _ (noDigit_cons (by decide)) (by omega)]
      simp only
      rw [expect_ne (by decide) (by decide), expect_self (by decide)]
      rfl
  | cons k js =>
      rw [writeElements] at hfuel ⊢
      simp only [List.isEmpty_cons, Bool.false_eq_true, if_false, List.length_append,
        List.length_cons] at hfuel
      simp only [List.isEmpty_cons, Bool.false_eq_true, if_false, List.append_assoc,
        List.cons_append]
      rw [readElements, ih.value j h.1 _ (noDigit_cons (by decide)) (by omega)]
      simp only
      rw [expect_self (by decide)]
      simp only
      rw [ih.elements k js h.2 s (by omega)]
      rfl

/-- So are the members of an object. -/
theorem ReadsBack.members_succ {fuel : ℕ} (ih : ReadsBack escape fuel) (member : Bytes × Json)
    (members : List (Bytes × Json)) (h : AllMembers (Undone escape) (member :: members)) (s : Bytes)
    (hfuel : 2 * (writeMembers escape (member :: members)).length < fuel + 1) :
    readMembers (fuel + 1) (writeMembers escape (member :: members) ++ 0x7D :: s)
      = some (member :: members, s) := by
  obtain ⟨key, j⟩ := member
  obtain ⟨hkey, hj, hmembers⟩ := h
  -- The last member is followed by the closing brace, any other by a comma.
  cases members with
  | nil =>
      rw [writeMembers] at hfuel ⊢
      simp only [List.isEmpty_nil, if_true, List.append_nil, List.length_cons, List.length_append]
        at hfuel
      simp only [List.isEmpty_nil, if_true, List.append_nil, List.append_assoc, List.cons_append]
      rw [readMembers, expect_self (by decide), Option.bind_some, hkey]
      simp only
      rw [expect_self (by decide), Option.bind_some,
        ih.value j hj _ (noDigit_cons (by decide)) (by omega)]
      simp only
      rw [expect_ne (by decide) (by decide), expect_self (by decide)]
      rfl
  | cons member members =>
      rw [writeMembers] at hfuel ⊢
      simp only [List.isEmpty_cons, Bool.false_eq_true, if_false, List.length_append,
        List.length_cons] at hfuel
      simp only [List.isEmpty_cons, Bool.false_eq_true, if_false, List.append_assoc,
        List.cons_append]
      rw [readMembers, expect_self (by decide), Option.bind_some, hkey]
      simp only
      rw [expect_self (by decide), Option.bind_some,
        ih.value j hj _ (noDigit_cons (by decide)) (by omega)]
      simp only
      rw [expect_self (by decide)]
      simp only
      rw [ih.members member members hmembers s (by omega)]
      rfl

/-- **The readers undo the writers**; the induction is on the fuel, over the three of them at once.
-/
theorem readsBack (escape : Bytes → Bytes) (fuel : ℕ) : ReadsBack escape fuel := by
  induction fuel with
  | zero =>
      refine ⟨fun j _ s _ hfuel => ?_, fun j js _ s hfuel => absurd hfuel (Nat.not_lt_zero _),
        fun member members _ s hfuel => absurd hfuel (Nat.not_lt_zero _)⟩
      obtain ⟨b, t, hhead, -⟩ := write_eq_cons escape j
      rw [hhead, List.length_cons] at hfuel
      omega
  | succ fuel ih => exact ⟨ih.value_succ, ih.elements_succ, ih.members_succ⟩

/-- **A value is read back from its text.** -/
theorem read_write {j : Json} (h : j.All (Undone escape)) : read (write escape j) = some j := by
  have hvalue := (readsBack escape (2 * (write escape j).length + 1)).value j h [] noDigit_nil
    (by omega)
  rw [List.append_nil] at hvalue
  rw [read, hvalue]
  rfl

/-! ## Without escapes -/

/-- What has been read if the values themselves were, where nothing is escaped: no string needed an
escape, and the rest is what stands behind them. -/
structure PlainlyRead (fuel : ℕ) : Prop where
  value : ∀ (j : Json) (s r : Bytes), NoDigit s →
    readValue fuel (write id j ++ s) = some (j, r) → j.All Plain ∧ r = s
  elements : ∀ (j : Json) (js : List Json) (s r : Bytes),
    readElements fuel (writeElements id (j :: js) ++ 0x5D :: s) = some (j :: js, r) →
      AllElements Plain (j :: js) ∧ r = s
  members : ∀ (member : Bytes × Json) (members : List (Bytes × Json)) (s r : Bytes),
    readMembers fuel (writeMembers id (member :: members) ++ 0x7D :: s)
        = some (member :: members, r) →
      AllMembers Plain (member :: members) ∧ r = s

/-- A value read back has plain strings only, with one unit of fuel more. -/
theorem PlainlyRead.value_succ {fuel : ℕ} (ih : PlainlyRead fuel) (j : Json) (s r : Bytes)
    (hs : NoDigit s) (h : readValue (fuel + 1) (write id j ++ s) = some (j, r)) :
    j.All Plain ∧ r = s := by
  -- Strings are where the fact comes from; arrays and objects pass it on with less fuel.
  cases j with
  | null =>
      rw [readValue_null] at h
      exact ⟨trivial, (Prod.mk.inj (Option.some.inj h)).2.symm⟩
  | bool b =>
      rw [readValue_bool] at h
      exact ⟨trivial, (Prod.mk.inj (Option.some.inj h)).2.symm⟩
  | number n =>
      rw [readValue_decimal n fuel hs] at h
      exact ⟨trivial, (Prod.mk.inj (Option.some.inj h)).2.symm⟩
  | string v =>
      rw [write, List.cons_append, List.append_assoc, List.singleton_append, readValue_quote,
        Option.map_eq_some_iff] at h
      obtain ⟨⟨v', r'⟩, hread, heq⟩ := h
      obtain ⟨hv, rfl⟩ := Prod.mk.inj heq
      obtain rfl := Json.string.inj hv
      exact plain_of_readString hread
  | array js =>
      cases js with
      | nil =>
          rw [(readValue_empty fuel s).1] at h
          exact ⟨trivial, (Prod.mk.inj (Option.some.inj h)).2.symm⟩
      | cons j js =>
          rw [write, List.cons_append, List.append_assoc, List.singleton_append,
            readValue_array fuel (expect_writeElements j js _), Option.map_eq_some_iff] at h
          obtain ⟨⟨js', r'⟩, hread, heq⟩ := h
          obtain ⟨hjs, rfl⟩ := Prod.mk.inj heq
          obtain rfl := Json.array.inj hjs
          exact ih.elements j js s r' hread
  | object members =>
      cases members with
      | nil =>
          rw [(readValue_empty fuel s).2] at h
          exact ⟨trivial, (Prod.mk.inj (Option.some.inj h)).2.symm⟩
      | cons member members =>
          rw [write, List.cons_append, List.append_assoc, List.singleton_append,
            readValue_object fuel (expect_writeMembers member members _),
            Option.map_eq_some_iff] at h
          obtain ⟨⟨members', r'⟩, hread, heq⟩ := h
          obtain ⟨hmembers, rfl⟩ := Prod.mk.inj heq
          obtain rfl := Json.object.inj hmembers
          exact ih.members member members s r' hread

/-- What `readElements` reads begins with a value, and then comes the end or a comma. -/
theorem readElements_cons {fuel : ℕ} {s r : Bytes} {j : Json} {js : List Json}
    (h : readElements (fuel + 1) s = some (j :: js, r)) :
    ∃ s', readValue fuel s = some (j, s') ∧
      ((js = [] ∧ expect 0x2C s' = none ∧ expect 0x5D s' = some r) ∨
        ∃ t, expect 0x2C s' = some t ∧ readElements fuel t = some (js, r)) := by
  rw [readElements] at h
  cases hvalue : readValue fuel s with
  | none => rw [hvalue] at h; exact absurd h (by simp)
  | some p =>
      obtain ⟨j', s'⟩ := p
      simp only [hvalue] at h
      cases hcomma : expect 0x2C s' with
      | none =>
          simp only [hcomma, Option.map_eq_some_iff] at h
          obtain ⟨t, hend, heq⟩ := h
          obtain ⟨hlist, rfl⟩ := Prod.mk.inj heq
          obtain ⟨rfl, rfl⟩ := List.cons.inj hlist
          exact ⟨s', rfl, .inl ⟨rfl, hcomma, hend⟩⟩
      | some t =>
          simp only [hcomma, Option.map_eq_some_iff] at h
          obtain ⟨⟨js', r'⟩, hrest, heq⟩ := h
          obtain ⟨hlist, rfl⟩ := Prod.mk.inj heq
          obtain ⟨rfl, rfl⟩ := List.cons.inj hlist
          exact ⟨s', rfl, .inr ⟨t, hcomma, hrest⟩⟩

/-- So have the elements of an array read back. -/
theorem PlainlyRead.elements_succ {fuel : ℕ} (ih : PlainlyRead fuel) (j : Json) (js : List Json)
    (s r : Bytes)
    (h : readElements (fuel + 1) (writeElements id (j :: js) ++ 0x5D :: s) = some (j :: js, r)) :
    AllElements Plain (j :: js) ∧ r = s := by
  obtain ⟨s', hvalue, hrest⟩ := readElements_cons h
  -- The last element is followed by the closing bracket, any other by a comma.
  cases js with
  | nil =>
      rw [writeElements] at hvalue
      simp only [List.isEmpty_nil, if_true, List.append_nil] at hvalue
      obtain ⟨hplain, rfl⟩ := ih.value j _ _ (noDigit_cons (by decide)) hvalue
      rcases hrest with ⟨-, -, hend⟩ | ⟨t, hcomma, -⟩
      · rw [expect_self (by decide)] at hend
        exact ⟨⟨hplain, trivial⟩, (Option.some.inj hend).symm⟩
      · rw [expect_ne (by decide) (by decide)] at hcomma
        exact absurd hcomma (by simp)
  | cons k js =>
      rw [writeElements] at hvalue
      simp only [List.isEmpty_cons, Bool.false_eq_true, if_false, List.append_assoc,
        List.cons_append] at hvalue
      obtain ⟨hplain, rfl⟩ := ih.value j _ _ (noDigit_cons (by decide)) hvalue
      rcases hrest with ⟨hnil, -⟩ | ⟨t, hcomma, hread⟩
      · exact absurd hnil (by simp)
      · rw [expect_self (by decide)] at hcomma
        obtain rfl := Option.some.inj hcomma
        obtain ⟨hplains, rfl⟩ := ih.elements k js s r hread
        exact ⟨⟨hplain, hplains⟩, rfl⟩

/-- What `readMembers` reads begins with a key and a value, and then comes the end or a comma. -/
theorem readMembers_cons {fuel : ℕ} {s r key : Bytes} {j : Json} {members : List (Bytes × Json)}
    (h : readMembers (fuel + 1) s = some ((key, j) :: members, r)) :
    ∃ t s' s'', (expect quote s).bind readString = some (key, t) ∧
      expect 0x3A t = some s' ∧ readValue fuel s' = some (j, s'') ∧
      ((members = [] ∧ expect 0x2C s'' = none ∧ expect 0x7D s'' = some r) ∨
        ∃ u, expect 0x2C s'' = some u ∧ readMembers fuel u = some (members, r)) := by
  rw [readMembers] at h
  cases hkey : (expect quote s).bind readString with
  | none => rw [hkey] at h; exact absurd h (by simp)
  | some p =>
      obtain ⟨key', t⟩ := p
      simp only [hkey] at h
      cases hcolon : expect 0x3A t with
      | none => rw [hcolon] at h; exact absurd h (by simp)
      | some s' =>
          rw [hcolon, Option.bind_some] at h
          cases hvalue : readValue fuel s' with
          | none => rw [hvalue] at h; exact absurd h (by simp)
          | some q =>
              obtain ⟨j', s''⟩ := q
              simp only [hvalue] at h
              cases hcomma : expect 0x2C s'' with
              | none =>
                  simp only [hcomma, Option.map_eq_some_iff] at h
                  obtain ⟨u, hend, heq⟩ := h
                  obtain ⟨hlist, rfl⟩ := Prod.mk.inj heq
                  obtain ⟨hmember, rfl⟩ := List.cons.inj hlist
                  obtain ⟨rfl, rfl⟩ := Prod.mk.inj hmember
                  exact ⟨t, s', s'', rfl, hcolon, hvalue, .inl ⟨rfl, hcomma, hend⟩⟩
              | some u =>
                  simp only [hcomma, Option.map_eq_some_iff] at h
                  obtain ⟨⟨members', r'⟩, hrest, heq⟩ := h
                  obtain ⟨hlist, rfl⟩ := Prod.mk.inj heq
                  obtain ⟨hmember, rfl⟩ := List.cons.inj hlist
                  obtain ⟨rfl, rfl⟩ := Prod.mk.inj hmember
                  exact ⟨t, s', s'', rfl, hcolon, hvalue, .inr ⟨u, hcomma, hrest⟩⟩

/-- So have the members of an object read back. -/
theorem PlainlyRead.members_succ {fuel : ℕ} (ih : PlainlyRead fuel) (member : Bytes × Json)
    (members : List (Bytes × Json)) (s r : Bytes)
    (h : readMembers (fuel + 1) (writeMembers id (member :: members) ++ 0x7D :: s)
      = some (member :: members, r)) :
    AllMembers Plain (member :: members) ∧ r = s := by
  obtain ⟨key, j⟩ := member
  obtain ⟨t, s', s'', hkey, hcolon, hvalue, hrest⟩ := readMembers_cons h
  rw [writeMembers, List.cons_append, List.append_assoc, expect_self (by decide), Option.bind_some,
    List.cons_append] at hkey
  obtain ⟨hplainKey, rfl⟩ := plain_of_readString hkey
  rw [List.cons_append, expect_self (by decide)] at hcolon
  obtain rfl := Option.some.inj hcolon
  cases members with
  | nil =>
      simp only [List.isEmpty_nil, if_true, List.append_nil] at hvalue
      obtain ⟨hplain, rfl⟩ := ih.value j _ _ (noDigit_cons (by decide)) hvalue
      rcases hrest with ⟨-, -, hend⟩ | ⟨u, hcomma, -⟩
      · rw [expect_self (by decide)] at hend
        exact ⟨⟨hplainKey, hplain, trivial⟩, (Option.some.inj hend).symm⟩
      · rw [expect_ne (by decide) (by decide)] at hcomma
        exact absurd hcomma (by simp)
  | cons member members =>
      simp only [List.isEmpty_cons, Bool.false_eq_true, if_false, List.append_assoc,
        List.cons_append] at hvalue
      obtain ⟨hplain, rfl⟩ := ih.value j _ _ (noDigit_cons (by decide)) hvalue
      rcases hrest with ⟨hnil, -⟩ | ⟨u, hcomma, hread⟩
      · exact absurd hnil (by simp)
      · rw [expect_self (by decide)] at hcomma
        obtain rfl := Option.some.inj hcomma
        obtain ⟨hplains, rfl⟩ := ih.members member members s r hread
        exact ⟨⟨hplainKey, hplain, hplains⟩, rfl⟩

/-- What is written without escaping and read back has plain strings only. -/
theorem plainlyRead (fuel : ℕ) : PlainlyRead fuel := by
  induction fuel with
  | zero =>
      refine ⟨fun j s r _ h => ?_, fun j js s r h => ?_, fun member members s r h => ?_⟩
      · exact absurd h (by simp [readValue])
      · exact absurd h (by simp [readElements])
      · exact absurd h (by simp [readMembers])
  | succ fuel ih => exact ⟨ih.value_succ, ih.elements_succ, ih.members_succ⟩

/-- **Without escapes a value is read back exactly if no string in it needs one.** -/
theorem read_write_id_iff (j : Json) : read (write id j) = some j ↔ j.All Plain := by
  constructor
  · intro h
    rw [read] at h
    cases hvalue : readValue (2 * (write id j).length + 1) (write id j) with
    | none => rw [hvalue] at h; exact absurd h (by simp)
    | some p =>
        obtain ⟨k, r⟩ := p
        simp only [hvalue] at h
        split at h
        · obtain rfl := Option.some.inj h
          have hback := (plainlyRead _).value k [] r noDigit_nil (by rw [List.append_nil]; exact hvalue)
          exact hback.1
        · exact absurd h (by simp)
  · intro h
    exact read_write (All.imp (fun s hs => readString_plain hs) j h)

/-! ## The bytes of a text -/

/-- A number is written without control characters. -/
theorem printable_digits (n : ℕ) : ∀ b ∈ digits n, 0x20 ≤ b :=
  forall_mem_numeral (by omega) (by decide) n

/-- So is one with a sign. -/
theorem printable_decimal (n : ℤ) : ∀ b ∈ decimal n, 0x20 ≤ b := by
  rw [decimal]
  split
  · intro b hb
    rcases List.mem_cons.mp hb with rfl | hb
    · decide
    · exact printable_digits _ b hb
  · exact printable_digits _

/-- What is made of a string has no control character in it. -/
def Printable (escape : Bytes → Bytes) (s : Bytes) : Prop := ∀ b ∈ escape s, 0x20 ≤ b

mutual

/-- **A text has a control character only where one has been left in a string**: it is one line. -/
theorem printable_write : ∀ j : Json, j.All (Printable escape) → ∀ b ∈ write escape j, 0x20 ≤ b
  | .null, _ => by rw [write]; simp
  | .bool true, _ => by rw [write]; simp
  | .bool false, _ => by rw [write]; simp
  | .number n, _ => by rw [write]; exact printable_decimal n
  | .string s, hj => by
      intro b hb
      rw [write, List.mem_cons, List.mem_append, List.mem_singleton] at hb
      rcases hb with rfl | hb | rfl
      · decide
      · exact hj b hb
      · decide
  | .array js, hj => by
      intro b hb
      rw [write, List.mem_cons, List.mem_append, List.mem_singleton] at hb
      rcases hb with rfl | hb | rfl
      · decide
      · exact printable_writeElements js hj b hb
      · decide
  | .object members, hj => by
      intro b hb
      rw [write, List.mem_cons, List.mem_append, List.mem_singleton] at hb
      rcases hb with rfl | hb | rfl
      · decide
      · exact printable_writeMembers members hj b hb
      · decide

/-- So is an array, if its strings are. -/
theorem printable_writeElements :
    ∀ js : List Json, AllElements (Printable escape) js → ∀ b ∈ writeElements escape js, 0x20 ≤ b
  | [], _ => by simp [writeElements]
  | j :: js, ⟨hj, hjs⟩ => by
      intro b hb
      rw [writeElements, List.mem_append] at hb
      rcases hb with hb | hb
      · exact printable_write j hj b hb
      · cases js with
        | nil => exact absurd hb (by simp)
        | cons k js =>
            rcases List.mem_cons.mp hb with rfl | hb
            · decide
            · exact printable_writeElements (k :: js) hjs b hb

/-- So is an object, if its strings are. -/
theorem printable_writeMembers :
    ∀ members : List (Bytes × Json), AllMembers (Printable escape) members →
      ∀ b ∈ writeMembers escape members, 0x20 ≤ b
  | [], _ => by simp [writeMembers]
  | (key, j) :: members, ⟨hkey, hj, hmembers⟩ => by
      intro b hb
      rw [writeMembers, List.mem_cons, List.mem_append, List.mem_cons, List.mem_cons,
        List.mem_append] at hb
      rcases hb with rfl | hb | rfl | rfl | hb | hb
      · decide
      · exact hkey b hb
      · decide
      · decide
      · exact printable_write j hj b hb
      · cases members with
        | nil => exact absurd hb (by simp)
        | cons member members =>
            rcases List.mem_cons.mp hb with rfl | hb
            · decide
            · exact printable_writeMembers (member :: members) hmembers b hb

end

end Json

end NetworkLib
