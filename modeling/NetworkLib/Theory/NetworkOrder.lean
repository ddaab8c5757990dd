import Mathlib.Tactic

/-! # Network byte order

Byte strings as lists of `UInt8`, and the big-endian encoding of a natural number in `k` bytes with
its inverse. `htonl`/`ntohl` are the 32-bit case. -/

namespace NetworkLib

/-- A byte string. -/
abbrev Bytes := List UInt8

/-- The big-endian encoding of `n` modulo `256 ^ k` in `k` bytes. -/
def bigEndian : ℕ → ℕ → Bytes
  | 0, _ => []
  | k + 1, n => UInt8.ofNat (n / 256 ^ k) :: bigEndian k n

/-- The number a byte string encodes, most significant byte first. -/
def ofBigEndian : Bytes → ℕ
  | [] => 0
  | b :: bs => b.toNat * 256 ^ bs.length + ofBigEndian bs

@[simp] theorem length_bigEndian (k n : ℕ) : (bigEndian k n).length = k := by
  induction k with
  | zero => rfl
  | succ k ih => rw [bigEndian, List.length_cons, ih]

@[simp] theorem ofBigEndian_nil : ofBigEndian [] = 0 := rfl

theorem ofBigEndian_cons (b : UInt8) (bs : Bytes) :
    ofBigEndian (b :: bs) = b.toNat * 256 ^ bs.length + ofBigEndian bs := rfl

/-- A string of `k` bytes encodes a number below `256 ^ k`. -/
theorem ofBigEndian_lt (bs : Bytes) : ofBigEndian bs < 256 ^ bs.length := by
  induction bs with
  | nil => simp
  | cons b bs ih =>
      rw [ofBigEndian_cons, List.length_cons, pow_succ]
      have hb : b.toNat ≤ 255 := Nat.le_of_lt_succ b.toNat_lt
      calc b.toNat * 256 ^ bs.length + ofBigEndian bs
          < b.toNat * 256 ^ bs.length + 256 ^ bs.length := by omega
        _ = (b.toNat + 1) * 256 ^ bs.length := by ring
        _ ≤ 256 * 256 ^ bs.length := Nat.mul_le_mul_right _ (by omega)
        _ = 256 ^ bs.length * 256 := Nat.mul_comm _ _

/-- Decoding an encoding gives the number modulo `256 ^ k`. -/
theorem ofBigEndian_bigEndian_mod (k n : ℕ) : ofBigEndian (bigEndian k n) = n % 256 ^ k := by
  induction k with
  | zero => simp [bigEndian, Nat.mod_one]
  | succ k ih =>
      rw [bigEndian, ofBigEndian_cons, length_bigEndian, ih, UInt8.toNat_ofNat',
        Nat.mul_comm, Nat.add_comm, ← Nat.mod_mul, pow_succ 256 k]

/-- **Encoding is inverted by decoding** on the numbers that fit. -/
theorem ofBigEndian_bigEndian {k n : ℕ} (h : n < 256 ^ k) : ofBigEndian (bigEndian k n) = n := by
  rw [ofBigEndian_bigEndian_mod, Nat.mod_eq_of_lt h]

/-- A 32-bit integer as the four bytes put on the wire. -/
def htonl (x : UInt32) : Bytes := bigEndian 4 x.toNat

/-- The 32-bit integer four received bytes stand for. -/
def ntohl (bs : Bytes) : UInt32 := UInt32.ofNat (ofBigEndian bs)

@[simp] theorem length_htonl (x : UInt32) : (htonl x).length = 4 := length_bigEndian 4 _

@[simp] theorem ntohl_htonl (x : UInt32) : ntohl (htonl x) = x := by
  have hx : x.toNat < 256 ^ 4 := x.toNat_lt
  rw [ntohl, htonl, ofBigEndian_bigEndian hx, UInt32.ofNat_toNat]

/-- Four bytes lose nothing in a 32-bit integer. -/
theorem toNat_ntohl {bs : Bytes} (h : bs.length ≤ 4) : (ntohl bs).toNat = ofBigEndian bs := by
  have hlt : ofBigEndian bs < 2 ^ 32 :=
    (ofBigEndian_lt bs).trans_le (Nat.pow_le_pow_right (by omega) h)
  exact UInt32.toNat_ofNat_of_lt' hlt

end NetworkLib
