import NetworkLib.Theory.NetworkOrder

/-! # Prefix integers

Natural numbers of any size that begin in the low `n` bits of a byte. A number below `2 ^ n - 1`
fits there; for any other these bits are all ones, and what is left follows in groups of seven bits,
least significant first, each in a byte whose highest bit says that another one follows.
`decode_encode` reads a number back, whatever the other bits of the first byte are and whatever
follows. -/

namespace NetworkLib.PrefixInteger

/-! ## Groups of seven bits -/

/-- A number in groups of seven bits. -/
def groups (v : ℕ) : Bytes :=
  if v < 128 then [UInt8.ofNat v] else UInt8.ofNat (v % 128 + 128) :: groups (v / 128)

/-- Read a number in groups of seven bits: the number, and what follows it. -/
def readGroups : Bytes → Option (ℕ × Bytes)
  | [] => none
  | b :: bs =>
      if b.toNat < 128 then some (b.toNat, bs)
      else (readGroups bs).map fun p => (b.toNat % 128 + 128 * p.1, p.2)

/-- A number below 128 is one group. -/
theorem groups_of_lt {v : ℕ} (h : v < 128) : groups v = [UInt8.ofNat v] := by
  rw [groups, if_pos h]

/-- A larger one has its low seven bits in front, marked to go on. -/
theorem groups_of_le {v : ℕ} (h : 128 ≤ v) :
    groups v = UInt8.ofNat (v % 128 + 128) :: groups (v / 128) := by
  rw [groups, if_neg (Nat.not_lt.mpr h)]

/-- **Groups are read back**, whatever follows them. -/
theorem readGroups_groups (v : ℕ) (rest : Bytes) :
    readGroups (groups v ++ rest) = some (v, rest) := by
  induction hn : v using Nat.strongRecOn generalizing v with
  | ind n ih =>
      subst hn
      rcases Nat.lt_or_ge v 128 with h | h
      · have hbyte : (UInt8.ofNat v).toNat = v := by
          rw [UInt8.toNat_ofNat']
          omega
        rw [groups_of_lt h, List.singleton_append, readGroups, if_pos (by rwa [hbyte]), hbyte]
      · have hbyte : (UInt8.ofNat (v % 128 + 128)).toNat = v % 128 + 128 := by
          rw [UInt8.toNat_ofNat']
          omega
        rw [groups_of_le h, List.cons_append, readGroups, hbyte, if_neg (by omega),
          ih (v / 128) (by omega) (v / 128) rfl, Option.map_some]
        congr 2
        omega

/-- What is read is taken off the front. -/
theorem readGroups_length {bs rest : Bytes} {v : ℕ} (h : readGroups bs = some (v, rest)) :
    rest.length < bs.length := by
  induction bs generalizing v with
  | nil => cases h
  | cons b bs ih =>
      rw [readGroups] at h
      split at h
      · cases h
        exact Nat.lt_succ_self _
      · obtain ⟨⟨w, rest'⟩, hread, heq⟩ := Option.map_eq_some_iff.mp h
        cases heq
        exact (ih hread).trans (Nat.lt_succ_self _)

/-! ## The prefix -/

/-- The byte `b`, whose low `n` bits are clear, with these bits set to `v`. -/
def withLow (b : UInt8) (v : ℕ) : UInt8 := b ||| UInt8.ofNat v

/-- A number that begins in the low `n` bits of `b`. -/
def encode (n : ℕ) (b : UInt8) (v : ℕ) : Bytes :=
  if v < 2 ^ n - 1 then [withLow b v] else withLow b (2 ^ n - 1) :: groups (v - (2 ^ n - 1))

/-- Read a number that begins in the low `n` bits of the first byte: the number, and what follows.
-/
def decode (n : ℕ) : Bytes → Option (ℕ × Bytes)
  | [] => none
  | b :: bs =>
      if b.toNat % 2 ^ n < 2 ^ n - 1 then some (b.toNat % 2 ^ n, bs)
      else (readGroups bs).map fun p => (2 ^ n - 1 + p.1, p.2)

/-- Reading an integer takes a byte at least. -/
theorem decode_length {n v : ℕ} {bs rest : Bytes} (h : decode n bs = some (v, rest)) :
    rest.length < bs.length := by
  cases bs with
  | nil => cases h
  | cons b bs =>
      rw [decode] at h
      split at h
      · cases h
        exact Nat.lt_succ_self _
      · obtain ⟨⟨w, rest'⟩, hread, heq⟩ := Option.map_eq_some_iff.mp h
        cases heq
        exact (readGroups_length hread).trans (Nat.lt_succ_self _)

variable {n v : ℕ} {b : UInt8}

/-- Setting the low bits adds to the byte. -/
theorem toNat_withLow (hn : n ≤ 8) (hb : b.toNat % 2 ^ n = 0) (hv : v < 2 ^ n) :
    (withLow b v).toNat = b.toNat + v := by
  have hpow : 2 ^ n ≤ 2 ^ 8 := Nat.pow_le_pow_right (by omega) hn
  have hbyte : (UInt8.ofNat v).toNat = v := by
    rw [UInt8.toNat_ofNat']
    omega
  have hmul : b.toNat = 2 ^ n * (b.toNat / 2 ^ n) := by
    have := Nat.div_add_mod b.toNat (2 ^ n)
    omega
  rw [withLow, UInt8.toNat_or, hbyte, hmul, ← Nat.two_pow_add_eq_or_of_lt hv]

/-- The low bits are the number, and the other bits stay as they are. -/
theorem withLow_bits (hn : n ≤ 8) (hb : b.toNat % 2 ^ n = 0) (hv : v < 2 ^ n) :
    (withLow b v).toNat % 2 ^ n = v ∧ (withLow b v).toNat / 2 ^ n = b.toNat / 2 ^ n := by
  obtain ⟨k, hk⟩ := Nat.dvd_of_mod_eq_zero hb
  rw [toNat_withLow hn hb hv, hk]
  refine ⟨?_, ?_⟩
  · rw [Nat.mul_add_mod, Nat.mod_eq_of_lt hv]
  · rw [Nat.mul_add_div (by positivity), Nat.div_eq_of_lt hv, Nat.mul_div_cancel_left k (by positivity),
      Nat.add_zero]

/-- **A prefix integer is read back**, whatever follows it. -/
theorem decode_encode (hn : n ≤ 8) (hb : b.toNat % 2 ^ n = 0) (v : ℕ) (rest : Bytes) :
    decode n (encode n b v ++ rest) = some (v, rest) := by
  have hpos : 0 < 2 ^ n := by positivity
  rw [encode]
  split
  · next hv =>
      rw [List.singleton_append, decode, (withLow_bits hn hb (by omega)).1, if_pos hv]
  · -- all ones in the prefix: the rest of the number follows
    next hv =>
      rw [List.cons_append, decode, (withLow_bits hn hb (by omega)).1, if_neg (Nat.lt_irrefl _),
        readGroups_groups, Option.map_some]
      congr 2
      omega

example : decode 5 [0x1F, 0x9A, 0x0A] = some (1337, []) := by decide

/-- The first byte keeps its other bits. -/
theorem encode_eq_cons (hn : n ≤ 8) (hb : b.toNat % 2 ^ n = 0) (v : ℕ) :
    ∃ first more, encode n b v = first :: more ∧ first.toNat / 2 ^ n = b.toNat / 2 ^ n := by
  have hpos : 0 < 2 ^ n := by positivity
  rw [encode]
  split
  · exact ⟨_, _, rfl, (withLow_bits hn hb (by omega)).2⟩
  · exact ⟨_, _, rfl, (withLow_bits hn hb (by omega)).2⟩

end NetworkLib.PrefixInteger
