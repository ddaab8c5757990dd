import Mathlib.Tactic

/-! # Numerals

A number written in a base, one digit a symbol (`numeral`), and read back (`ofNumeral`). The symbols
are those of `Nat.toDigits` under an encoding; a reader is given by the value it takes each symbol
for. Any reader that knows the digits of the base reads back the number written
(`ofNumeral_numeral`). -/

namespace NetworkLib

variable {α : Type*} (encode : Char → α) (value : α → ℕ)

/-- The digits of a number in a base, most significant first. -/
def numeral (base n : ℕ) : List α := (Nat.toDigits base n).map encode

/-- The number a list of digits stands for. -/
def ofNumeral (base : ℕ) (digits : List α) : ℕ :=
  digits.foldl (fun n digit => base * n + value digit) 0

variable {encode value} {base : ℕ}

/-- One digit more at the end. -/
theorem ofNumeral_concat (digits : List α) (digit : α) :
    ofNumeral value base (digits ++ [digit]) = base * ofNumeral value base digits + value digit := by
  rw [ofNumeral, List.foldl_append, List.foldl_cons, List.foldl_nil, ofNumeral]

/-- Every number has a digit. -/
theorem numeral_ne_nil (base n : ℕ) : numeral encode base n ≠ [] := by
  rw [numeral, Ne, List.map_eq_nil_iff]
  exact Nat.toDigits_ne_nil

/-- A number below the base is one digit. -/
theorem numeral_of_lt {n : ℕ} (h : n < base) : numeral encode base n = [encode n.digitChar] := by
  rw [numeral, Nat.toDigits_of_lt_base h, List.map_singleton]

/-- The last digit comes off the end. -/
theorem numeral_of_le (hbase : 1 < base) {n : ℕ} (h : base ≤ n) :
    numeral encode base n = numeral encode base (n / base) ++ [encode (n % base).digitChar] := by
  rw [numeral, numeral, Nat.toDigits_of_base_le hbase h, List.map_append, List.map_singleton]

/-- What holds of every digit of the base holds of every symbol of a numeral. -/
theorem forall_mem_numeral {P : α → Prop} (hbase : 1 < base)
    (hP : ∀ d < base, P (encode d.digitChar)) (n : ℕ) : ∀ a ∈ numeral encode base n, P a := by
  induction n using Nat.strongRecOn with
  | ind n ih =>
      intro a ha
      by_cases hn : n < base
      · rw [numeral_of_lt hn, List.mem_singleton] at ha
        rw [ha]
        exact hP n hn
      · rw [numeral_of_le hbase (Nat.le_of_not_lt hn), List.mem_append, List.mem_singleton] at ha
        rcases ha with ha | rfl
        · exact ih (n / base) (Nat.div_lt_self (by omega) hbase) a ha
        · exact hP _ (Nat.mod_lt n (by omega))

/-- **A number written and read back.** -/
theorem ofNumeral_numeral (hbase : 1 < base) (hvalue : ∀ d < base, value (encode d.digitChar) = d)
    (n : ℕ) : ofNumeral value base (numeral encode base n) = n := by
  induction n using Nat.strongRecOn with
  | ind n ih =>
      by_cases hn : n < base
      · rw [numeral_of_lt hn]
        simpa [ofNumeral] using hvalue n hn
      · rw [numeral_of_le hbase (Nat.le_of_not_lt hn), ofNumeral_concat,
          ih (n / base) (Nat.div_lt_self (by omega) hbase), hvalue _ (Nat.mod_lt n (by omega))]
        exact Nat.div_add_mod n base

/-- Different numbers are written differently. -/
theorem toDigits_injective : Function.Injective (Nat.toDigits 10) := by
  intro m n h
  have hread : ∀ k, ofNumeral (fun c : Char => c.toNat - 48) 10 (numeral id 10 k) = k :=
    ofNumeral_numeral (by omega) (by decide)
  rw [← hread m, ← hread n, numeral, numeral, h]

/-- The same of the texts. -/
theorem natRepr_injective : Function.Injective Nat.repr := by
  intro m n h
  exact toDigits_injective (String.ofList_injective h)

end NetworkLib
