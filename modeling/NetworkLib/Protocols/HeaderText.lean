import NetworkLib.Proto.StreamEnvelope
import NetworkLib.Theory.Search

/-! # Header text

The C++ library functions the header parsers are built from, with their throwing preconditions
(`substr`, `stoi`), and what the HTTP and the WebSocket parser do with one `Name: value` line. -/

namespace NetworkLib

/-- `isspace`, in the "C" locale. -/
def isSpace (b : UInt8) : Bool := b = 32 || (9 ≤ b && b ≤ 13)

/-- `isdigit`. -/
def isDigit (b : UInt8) : Bool := 48 ≤ b && b ≤ 57

/-- The strings successive `>>` extractions take from a stream. -/
def streamWords (line : Bytes) : List Bytes := (line.splitOnP isSpace).filter (· ≠ [])

/-- `substr(pos)`; `none` when it throws `std::out_of_range`. -/
def substr (s : Bytes) (pos : ℕ) : Option Bytes := if pos ≤ s.length then some (s.drop pos) else none

/-- The number a string of digits stands for. -/
def ofDigits (digits : Bytes) : ℕ := digits.foldl (fun n b => 10 * n + (b.toNat - 48)) 0

/-- The number at the front of a string: leading white space, a sign, and as many digits as follow;
`none` when there is no digit. -/
def strtol (s : Bytes) : Option ℤ :=
  let s := s.dropWhile isSpace
  let (negative, s) : Bool × Bytes :=
    match s with
    | 45 :: s => (true, s)
    | 43 :: s => (false, s)
    | s => (false, s)
  let digits := s.takeWhile isDigit
  if digits.isEmpty then none
  else some (if negative then -ofDigits digits else ofDigits digits)

/-- A decimal numeral. -/
def IsNumeral (value : Bytes) : Prop := value ≠ [] ∧ ∀ b ∈ value, isDigit b = true

instance (value : Bytes) : Decidable (IsNumeral value) := inferInstanceAs (Decidable (_ ∧ _))

/-- What holds of all bytes. -/
theorem forall_byte {P : UInt8 → Prop} (h : ∀ n < 256, P (UInt8.ofNat n)) (b : UInt8) : P b := by
  have hb := h b.toNat b.toNat_lt
  rwa [UInt8.ofNat_toNat] at hb

/-- A digit is no white space and no sign. -/
theorem isDigit_front : ∀ b : UInt8, isDigit b = true → isSpace b = false ∧ b ≠ 45 ∧ b ≠ 43 := by
  apply forall_byte
  decide +kernel

/-- A numeral is read behind white space, up to what is no digit. -/
theorem strtol_numeral {front digits back : Bytes} (hfront : ∀ b ∈ front, isSpace b = true)
    (hdigits : IsNumeral digits) (hback : ∀ b ∈ back, isDigit b = false) :
    strtol (front ++ digits ++ back) = some (ofDigits digits : ℤ) := by
  obtain ⟨hne, hall⟩ := hdigits
  obtain ⟨d, ds, rfl⟩ := List.exists_cons_of_ne_nil hne
  obtain ⟨hspace, hminus, hplus⟩ := isDigit_front d (hall d List.mem_cons_self)
  have hdrop : (front ++ (d :: ds) ++ back).dropWhile isSpace = d :: ds ++ back := by
    rw [List.append_assoc, List.dropWhile_append_of_pos hfront, List.cons_append,
      List.dropWhile_cons_of_neg (by rw [hspace]; exact Bool.false_ne_true)]
  have htake : (d :: ds ++ back).takeWhile isDigit = d :: ds := by
    have hback' : back.takeWhile isDigit = [] := by
      cases back with
      | nil => rfl
      | cons b back =>
          rw [List.takeWhile_cons_of_neg]
          rw [hback b List.mem_cons_self]
          exact Bool.false_ne_true
    rw [List.takeWhile_append_of_pos hall, hback', List.append_nil]
  have hempty : (d :: ds).isEmpty = false := rfl
  rw [strtol, hdrop, List.cons_append]
  simp only
  -- there is no sign
  split
  · next heq => exact absurd (List.cons.inj heq).1 hminus
  · next heq => exact absurd (List.cons.inj heq).1 hplus
  · rw [← List.cons_append, htake, hempty]
    rfl

/-- `std::stoi`; `none` when it throws `std::invalid_argument` (no digit) or `std::out_of_range`
(not an `int`). -/
def stoi (s : Bytes) : Option ℤ :=
  (strtol s).bind fun value => if -2 ^ 31 ≤ value ∧ value < 2 ^ 31 then some value else none

/-- A number that `stoi` reads is an `int`. -/
theorem stoi_lt {s : Bytes} {value : ℤ} (h : stoi s = some value) : value < 2 ^ 31 := by
  obtain ⟨v, -, hv⟩ := Option.bind_eq_some_iff.mp h
  split at hv
  · next hrange =>
      cases hv
      exact hrange.2
  · cases hv

/-- An `int` assigned to a 64-bit `size_t`. -/
def toSize (value : ℤ) : ℕ := (value % 2 ^ 64).toNat

/-- A length that fits an `int` is its own `size_t`. -/
theorem toSize_natCast {n : ℕ} (h : (n : ℤ) < 2 ^ 31) : toSize n = n := by
  unfold toSize
  omega

/-- The colon that ends a header name. -/
def colon : UInt8 := 58

/-- What both header parsers do with one line: cut it at the first colon, skip one more byte, drop a
final CR and store the value; `none` when `substr` throws. -/
def storeHeader (headers : StringMap) (line : Bytes) : Option StringMap :=
  match search [colon] line with
  | none => some headers
  | some i =>
      let key := line.take i
      match substr line (i + 2) with
      | none => none
      | some val =>
          let val := if val.getLast? = some 13 then val.dropLast else val
          some (headers.insert key val)

/-- The first colon of the line is its last byte. -/
def EndsAtColon (line : Bytes) : Prop := search [colon] line = some (line.length - 1)

instance (line : Bytes) : Decidable (EndsAtColon line) := inferInstanceAs (Decidable (_ = _))

/-- A line that ends at its first colon is the only kind whose value is out of range. -/
theorem storeHeader_eq_none_iff {headers : StringMap} {line : Bytes} :
    storeHeader headers line = none ↔ EndsAtColon line := by
  unfold storeHeader EndsAtColon
  cases hi : search [colon] line with
  | none => simp
  | some i =>
      have hlen : i + 1 ≤ line.length := search_add_length_le hi
      rw [Option.some_inj]
      by_cases hpos : i + 2 ≤ line.length
      · simp only [substr, if_pos hpos, reduceCtorEq, false_iff]
        omega
      · simp only [substr, if_neg hpos, true_iff]
        omega

/-- The map after a line that does not throw. -/
def withHeader (headers : StringMap) (line : Bytes) : StringMap :=
  (storeHeader headers line).getD headers

/-- A line that does not end at its colon is stored without an exception. -/
theorem storeHeader_of_not_endsAtColon {headers : StringMap} {line : Bytes}
    (h : ¬ EndsAtColon line) : storeHeader headers line = some (withHeader headers line) := by
  cases hs : storeHeader headers line with
  | none => exact absurd (storeHeader_eq_none_iff.mp hs) h
  | some m => rw [withHeader, hs, Option.getD_some]

/-- In front of the first colon there is none. -/
theorem colon_not_mem_take {line : Bytes} {i : ℕ} (h : search [colon] line = some i) :
    colon ∉ line.take i := by
  have hnone := search_eq_none_iff.mp (search_take_self h (List.cons_ne_nil _ _))
  intro hmem
  obtain ⟨front, back, hsplit⟩ := List.append_of_mem hmem
  exact hnone ⟨front, back, by rw [hsplit, List.append_assoc, List.singleton_append]⟩

/-- The first colon of a line ends the name. -/
theorem search_colon {name : Bytes} (hname : colon ∉ name) (rest : Bytes) :
    search [colon] (name ++ colon :: rest) = some name.length := by
  have hsearch : search [colon] (name ++ [colon] ++ rest) = some name.length :=
    search_line name rest hname
  rwa [List.append_assoc, List.singleton_append] at hsearch

/-- A `Name: value` line is not one that throws. -/
theorem not_endsAtColon_field {name value : Bytes} (hname : colon ∉ name) :
    ¬ EndsAtColon (name ++ colon :: 32 :: value) := by
  rw [EndsAtColon, search_colon hname, Option.some_inj]
  simp only [List.length_append, List.length_cons]
  omega

/-- A value as it is stored, without a final CR. -/
def withoutCR (value : Bytes) : Bytes :=
  if value.getLast? = some 13 then value.dropLast else value

/-- A value keeps its end exactly if that is no carriage return. -/
theorem withoutCR_eq_self_iff {value : Bytes} :
    withoutCR value = value ↔ value.getLast? ≠ some 13 := by
  unfold withoutCR
  split
  · next h =>
      refine ⟨fun heq => ?_, fun hne => absurd h hne⟩
      have hlen := congrArg List.length heq
      have hpos := List.length_pos_of_mem (List.mem_of_getLast? h)
      rw [List.length_dropLast] at hlen
      omega
  · next h => exact ⟨fun _ => h, fun _ => rfl⟩

/-- A value loses its end at most. -/
theorem withoutCR_isPrefix (value : Bytes) : withoutCR value <+: value := by
  unfold withoutCR
  split
  · exact List.dropLast_prefix value
  · exact List.prefix_rfl

/-- A `Name: value` line stores the value under the name. -/
theorem withHeader_field (headers : StringMap) {name : Bytes} (hname : colon ∉ name)
    (value : Bytes) :
    withHeader headers (name ++ colon :: 32 :: value) = headers.insert name (withoutCR value) := by
  have hdrop : (name ++ colon :: 32 :: value).drop (name.length + 2) = value := by
    rw [List.drop_append, List.drop_eq_nil_of_le (by omega), List.nil_append, Nat.add_sub_cancel_left]
    rfl
  have hle : name.length + 2 ≤ (name ++ colon :: 32 :: value).length := by
    simp only [List.length_append, List.length_cons]
    omega
  simp only [withHeader, storeHeader, search_colon hname, substr, if_pos hle, hdrop,
    List.take_left, Option.getD_some]
  rfl

end NetworkLib
