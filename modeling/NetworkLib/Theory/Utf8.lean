import NetworkLib.Theory.NetworkOrder

/-! # UTF-8

The bytes of a text (`encode`) and which bytes are a text (`Valid`). A character takes one to four
bytes: the shapes are given from the code point (`encodeChar_one` to `encodeChar_four`) and from the
bytes (`exists_char_one` to `exists_char_four`). -/

namespace NetworkLib.Utf8

/-- The bytes of a text. -/
def encode (cs : List Char) : Bytes := cs.flatMap String.utf8EncodeChar

/-- Some bytes are a text. -/
def Valid (s : Bytes) : Prop := ∃ cs, s = encode cs

@[simp] theorem encode_nil : encode [] = [] := rfl

@[simp] theorem encode_cons (c : Char) (cs : List Char) :
    encode (c :: cs) = String.utf8EncodeChar c ++ encode cs := List.flatMap_cons

/-- No bytes are valid. -/
theorem valid_nil : Valid [] := ⟨[], rfl⟩

/-- A character in front of valid bytes. -/
theorem Valid.cons {s : Bytes} (c : Char) (h : Valid s) : Valid (String.utf8EncodeChar c ++ s) := by
  obtain ⟨cs, rfl⟩ := h
  exact ⟨c :: cs, rfl⟩

/-- Valid bytes behind valid ones. -/
theorem Valid.append {s t : Bytes} (hs : Valid s) (ht : Valid t) : Valid (s ++ t) := by
  obtain ⟨cs, rfl⟩ := hs
  obtain ⟨ds, rfl⟩ := ht
  exact ⟨cs ++ ds, List.flatMap_append.symm⟩

/-! ## One character -/

/-- A byte of a character that is not its first. -/
def Continues (b : UInt8) : Prop := 0x80 ≤ b.toNat ∧ b.toNat ≤ 0xBF

/-- A character of one byte. -/
theorem encodeChar_one {c : Char} (h : c.toNat < 0x80) :
    String.utf8EncodeChar c = [UInt8.ofNat c.toNat] := by
  have hle : c.val.toNat ≤ 0x7f := Nat.le_of_lt_succ h
  rw [String.utf8EncodeChar]
  simp only [if_pos hle]
  rfl

/-- A character of two bytes. -/
theorem encodeChar_two {c : Char} (h : 0x80 ≤ c.toNat) (h' : c.toNat < 0x800) :
    String.utf8EncodeChar c
      = [UInt8.ofNat (0xC0 + c.toNat / 64), UInt8.ofNat (0x80 + c.toNat % 64)] := by
  change 0x80 ≤ c.val.toNat at h
  change c.val.toNat < 0x800 at h'
  change _ = [UInt8.ofNat (0xC0 + c.val.toNat / 64), UInt8.ofNat (0x80 + c.val.toNat % 64)]
  rw [String.utf8EncodeChar]
  simp only [if_neg (show ¬ c.val.toNat ≤ 0x7f by omega),
    if_pos (show c.val.toNat ≤ 0x7ff by omega)]
  rw [Nat.mod_eq_of_lt (show c.val.toNat / 64 < 0x20 by omega), Nat.add_comm 0xC0,
    Nat.add_comm 0x80]

/-- A character of three bytes. -/
theorem encodeChar_three {c : Char} (h : 0x800 ≤ c.toNat) (h' : c.toNat < 0x10000) :
    String.utf8EncodeChar c
      = [UInt8.ofNat (0xE0 + c.toNat / 4096), UInt8.ofNat (0x80 + c.toNat / 64 % 64),
          UInt8.ofNat (0x80 + c.toNat % 64)] := by
  change 0x800 ≤ c.val.toNat at h
  change c.val.toNat < 0x10000 at h'
  change _ = [UInt8.ofNat (0xE0 + c.val.toNat / 4096), UInt8.ofNat (0x80 + c.val.toNat / 64 % 64),
    UInt8.ofNat (0x80 + c.val.toNat % 64)]
  rw [String.utf8EncodeChar]
  simp only [if_neg (show ¬ c.val.toNat ≤ 0x7f by omega),
    if_neg (show ¬ c.val.toNat ≤ 0x7ff by omega), if_pos (show c.val.toNat ≤ 0xffff by omega)]
  rw [Nat.mod_eq_of_lt (show c.val.toNat / 4096 < 0x10 by omega), Nat.add_comm 0xE0,
    Nat.add_comm 0x80, Nat.add_comm 0x80]

/-- A character of four bytes. -/
theorem encodeChar_four {c : Char} (h : 0x10000 ≤ c.toNat) :
    String.utf8EncodeChar c
      = [UInt8.ofNat (0xF0 + c.toNat / 262144), UInt8.ofNat (0x80 + c.toNat / 4096 % 64),
          UInt8.ofNat (0x80 + c.toNat / 64 % 64), UInt8.ofNat (0x80 + c.toNat % 64)] := by
  have hvalid : c.val.toNat < 0x110000 := by
    rcases c.valid with h | ⟨-, h⟩ <;> omega
  change 0x10000 ≤ c.val.toNat at h
  change _ = [UInt8.ofNat (0xF0 + c.val.toNat / 262144), UInt8.ofNat (0x80 + c.val.toNat / 4096 % 64),
    UInt8.ofNat (0x80 + c.val.toNat / 64 % 64), UInt8.ofNat (0x80 + c.val.toNat % 64)]
  rw [String.utf8EncodeChar]
  simp only [if_neg (show ¬ c.val.toNat ≤ 0x7f by omega),
    if_neg (show ¬ c.val.toNat ≤ 0x7ff by omega), if_neg (show ¬ c.val.toNat ≤ 0xffff by omega)]
  rw [Nat.mod_eq_of_lt (show c.val.toNat / 262144 < 0x08 by omega), Nat.add_comm 0xF0,
    Nat.add_comm 0x80, Nat.add_comm 0x80, Nat.add_comm 0x80]

/-- Every byte of a character of more than one has its first bit set. -/
theorem le_of_mem_encodeChar {c : Char} (h : 0x80 ≤ c.toNat) {b : UInt8}
    (hb : b ∈ String.utf8EncodeChar c) : 0x80 ≤ b := by
  have hlt : c.val.toNat < 0x110000 := by
    rcases c.valid with h | ⟨-, h⟩ <;> omega
  change c.toNat < 0x110000 at hlt
  have hge : ∀ n, 0x80 ≤ n → n < 256 → 0x80 ≤ UInt8.ofNat n := by
    intro n hn hn'
    rw [UInt8.le_iff_toNat_le, UInt8.toNat_ofNat', Nat.mod_eq_of_lt hn']
    exact hn
  by_cases htwo : c.toNat < 0x800
  · rw [encodeChar_two h htwo] at hb
    simp only [List.mem_cons, List.not_mem_nil, or_false] at hb
    rcases hb with rfl | rfl <;> exact hge _ (by omega) (by omega)
  · by_cases hthree : c.toNat < 0x10000
    · rw [encodeChar_three (by omega) hthree] at hb
      simp only [List.mem_cons, List.not_mem_nil, or_false] at hb
      rcases hb with rfl | rfl | rfl <;> exact hge _ (by omega) (by omega)
    · rw [encodeChar_four (by omega)] at hb
      simp only [List.mem_cons, List.not_mem_nil, or_false] at hb
      rcases hb with rfl | rfl | rfl | rfl <;> exact hge _ (by omega) (by omega)

/-- The character of a valid code point has that code point. -/
theorem toNat_ofNat {n : ℕ} (h : n.isValidChar) : (Char.ofNat n).toNat = n := by
  rw [Char.ofNat, dif_pos h]
  rfl

/-- Every code point is below 0x110000. -/
theorem toNat_lt (c : Char) : c.toNat < 0x110000 := by
  have hvalid : c.val.toNat < 0x110000 := by
    rcases c.valid with h | ⟨-, h⟩ <;> omega
  exact hvalid

/-- A number within a byte. -/
theorem ofNat_eq_of_toNat_eq {n : ℕ} {b : UInt8} (h : n = b.toNat) : UInt8.ofNat n = b := by
  rw [h, UInt8.ofNat_toNat]

/-- A byte below 128 is a character. -/
theorem exists_char_one {a : UInt8} (ha : a.toNat < 0x80) :
    ∃ c : Char, c.toNat = a.toNat ∧ String.utf8EncodeChar c = [a] := by
  have hn : (Char.ofNat a.toNat).toNat = a.toNat := toNat_ofNat (Or.inl (by omega))
  refine ⟨Char.ofNat a.toNat, hn, ?_⟩
  rw [encodeChar_one (by omega), hn, UInt8.ofNat_toNat]

/-- Two bytes that are a character. -/
theorem exists_char_two {a b : UInt8} (ha : 0xC2 ≤ a.toNat) (ha' : a.toNat ≤ 0xDF)
    (hb : Continues b) :
    ∃ c : Char, c.toNat = (a.toNat - 0xC0) * 64 + (b.toNat - 0x80) ∧
      String.utf8EncodeChar c = [a, b] := by
  obtain ⟨hb, hb'⟩ := hb
  have hn := toNat_ofNat (n := (a.toNat - 0xC0) * 64 + (b.toNat - 0x80)) (Or.inl (by omega))
  refine ⟨_, hn, ?_⟩
  rw [encodeChar_two (by omega) (by omega), hn, ofNat_eq_of_toNat_eq (b := a) (by omega),
    ofNat_eq_of_toNat_eq (b := b) (by omega)]

/-- Three bytes that are a character, unless the code point is written in fewer or is half a
surrogate pair. -/
theorem exists_char_three {a b d : UInt8} (ha : 0xE0 ≤ a.toNat) (ha' : a.toNat ≤ 0xEF)
    (hlow : a.toNat = 0xE0 → 0xA0 ≤ b.toNat) (hpair : a.toNat = 0xED → b.toNat ≤ 0x9F)
    (hb : Continues b) (hd : Continues d) :
    ∃ c : Char, c.toNat
        = (a.toNat - 0xE0) * 4096 + (b.toNat - 0x80) * 64 + (d.toNat - 0x80) ∧
      0x800 ≤ c.toNat ∧ String.utf8EncodeChar c = [a, b, d] := by
  obtain ⟨hb, hb'⟩ := hb
  obtain ⟨hd, hd'⟩ := hd
  have hvalid :
      ((a.toNat - 0xE0) * 4096 + (b.toNat - 0x80) * 64 + (d.toNat - 0x80)).isValidChar := by
    rw [Nat.isValidChar]
    omega
  have hn := toNat_ofNat hvalid
  have hge : 0x800 ≤ (Char.ofNat
      ((a.toNat - 0xE0) * 4096 + (b.toNat - 0x80) * 64 + (d.toNat - 0x80))).toNat := by omega
  refine ⟨_, hn, hge, ?_⟩
  rw [encodeChar_three hge (by omega), hn, ofNat_eq_of_toNat_eq (b := a) (by omega),
    ofNat_eq_of_toNat_eq (b := b) (by omega), ofNat_eq_of_toNat_eq (b := d) (by omega)]

/-- Four bytes that are a character, unless the code point is written in fewer or is none. -/
theorem exists_char_four {a b d e : UInt8} (ha : 0xF0 ≤ a.toNat) (ha' : a.toNat ≤ 0xF4)
    (hlow : a.toNat = 0xF0 → 0x90 ≤ b.toNat) (hhigh : a.toNat = 0xF4 → b.toNat ≤ 0x8F)
    (hb : Continues b) (hd : Continues d) (he : Continues e) :
    ∃ c : Char, c.toNat = (a.toNat - 0xF0) * 262144 + (b.toNat - 0x80) * 4096
          + (d.toNat - 0x80) * 64 + (e.toNat - 0x80) ∧
      0x10000 ≤ c.toNat ∧ String.utf8EncodeChar c = [a, b, d, e] := by
  obtain ⟨hb, hb'⟩ := hb
  obtain ⟨hd, hd'⟩ := hd
  obtain ⟨he, he'⟩ := he
  have hvalid : ((a.toNat - 0xF0) * 262144 + (b.toNat - 0x80) * 4096 + (d.toNat - 0x80) * 64
      + (e.toNat - 0x80)).isValidChar := by
    rw [Nat.isValidChar]
    omega
  have hn := toNat_ofNat hvalid
  have hge : 0x10000 ≤ (Char.ofNat ((a.toNat - 0xF0) * 262144 + (b.toNat - 0x80) * 4096
      + (d.toNat - 0x80) * 64 + (e.toNat - 0x80))).toNat := by omega
  refine ⟨_, hn, hge, ?_⟩
  rw [encodeChar_four hge, hn, ofNat_eq_of_toNat_eq (b := a) (by omega),
    ofNat_eq_of_toNat_eq (b := b) (by omega), ofNat_eq_of_toNat_eq (b := d) (by omega),
    ofNat_eq_of_toNat_eq (b := e) (by omega)]

/-- The text of characters below 128. -/
theorem valid_of_forall_lt {s : Bytes} (h : ∀ b ∈ s, b.toNat < 0x80) : Valid s := by
  induction s with
  | nil => exact valid_nil
  | cons b s ih =>
      obtain ⟨c, -, hc⟩ := exists_char_one (h b (List.mem_cons_self ..))
      have hs := ih fun b hb => h b (List.mem_cons_of_mem _ hb)
      have happend := hs.cons c
      rwa [hc] at happend

/-- ASCII is valid. -/
theorem valid_of_all {s : Bytes} (h : s.all (·.toNat < 0x80) = true) : Valid s := by
  apply valid_of_forall_lt
  simpa using h

end NetworkLib.Utf8
