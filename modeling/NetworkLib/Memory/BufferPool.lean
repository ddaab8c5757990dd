import NetworkLib.Memory.Buffer

/-! # Vectors of bytes and their pool

`BufferPool` keeps the vectors of destroyed buffers for new ones. A vector it hands out is cleared:
its size is zero, whatever its capacity, while a vector made anew has the size asked for.

Storage comes from an allocator that may refuse it. -/

namespace NetworkLib

/-- `std::vector<char>::max_size()`. -/
def maxSize : ℕ := 2 ^ 63 - 1

/-- What the allocator answers when it is asked for storage: how much more than that it gives, or
none at all (`std::bad_alloc`). -/
abbrev Grant := Option ℕ

/-- A `std::vector<char>`. -/
structure CharVector where
  elems : Bytes
  capacity : ℕ
  length_le : elems.length ≤ capacity
  capacity_le : capacity ≤ maxSize

namespace CharVector

/-- `size()`. -/
def size (v : CharVector) : ℕ := v.elems.length

/-- No vector is larger than the largest. -/
theorem size_le_maxSize (v : CharVector) : v.size ≤ maxSize := v.length_le.trans v.capacity_le

/-- A vector without storage, as a vector that was moved from is. -/
def empty : CharVector where
  elems := []
  capacity := 0
  length_le := le_rfl
  capacity_le := Nat.zero_le _

/-- A vector in new storage for `n` elements, which are those of `elems` and then zeros; `none` if
it throws, `std::length_error` or `std::bad_alloc`. -/
def allocate (elems : Bytes) (n : ℕ) (grant : Grant) : Option CharVector :=
  if h : n ≤ maxSize then
    grant.map fun extra =>
      { elems := elems.takeD n 0
        capacity := min (n + extra) maxSize
        length_le := by
          rw [List.takeD_length]
          exact Nat.le_min.mpr ⟨Nat.le_add_right _ _, h⟩
        capacity_le := Nat.min_le_right _ _ }
  else none

/-- `std::vector<char>(size)`. -/
def ofSize (size : ℕ) (grant : Grant) : Option CharVector := allocate [] size grant

/-- `resize(n)`: new elements are zeros, and storage is asked for beyond the capacity only. -/
def resize (v : CharVector) (n : ℕ) (grant : Grant) : Option CharVector :=
  if h : n ≤ v.capacity then
    some { v with
      elems := v.elems.takeD n 0
      length_le := by rwa [List.takeD_length] }
  else allocate v.elems n grant

/-- `clear()`. -/
def clear (v : CharVector) : CharVector := { v with elems := [], length_le := Nat.zero_le _ }

/-- `memcpy` to the elements from `offset` on. -/
def write (v : CharVector) (offset : ℕ) (data : Bytes) : CharVector :=
  { v with
    elems := (v.elems.take offset ++ data ++ v.elems.drop (offset + data.length)).take v.size
    length_le := (List.length_take_le _ _).trans v.length_le }

/-- `std::search` between two offsets: the offset where the pattern begins, or `last`. -/
def search (v : CharVector) (first last : ℕ) (pat : Bytes) : ℕ :=
  match NetworkLib.search pat ((v.elems.drop first).take (last - first)) with
  | some i => first + i
  | none => last

/-- Padding leaves the elements that were there. -/
theorem take_takeD {k n : ℕ} {elems : Bytes} (hn : k ≤ n) (hk : k ≤ elems.length) (pad : UInt8) :
    (elems.takeD n pad).take k = elems.take k := by
  induction k generalizing n elems with
  | zero => rfl
  | succ k ih =>
      obtain ⟨n, rfl⟩ : ∃ m, n = m + 1 := ⟨n - 1, by omega⟩
      cases elems with
      | nil => cases hk
      | cons a elems =>
          rw [List.takeD_succ, List.take_succ_cons, List.take_succ_cons, List.tail_cons,
            ih (Nat.le_of_succ_le_succ hn) (Nat.le_of_succ_le_succ hk)]
          rfl

/-- An allocation has the elements given, and zeros behind them. -/
theorem elems_of_allocate {elems : Bytes} {n : ℕ} {grant : Grant} {v : CharVector}
    (h : allocate elems n grant = some v) : v.elems = elems.takeD n 0 := by
  unfold allocate at h
  split at h
  · obtain ⟨extra, -, rfl⟩ := Option.map_eq_some_iff.mp h
    rfl
  · cases h

/-- **What `resize` makes of the elements**, if it does not throw. -/
theorem elems_of_resize {v v' : CharVector} {n : ℕ} {grant : Grant}
    (h : v.resize n grant = some v') : v'.elems = v.elems.takeD n 0 := by
  unfold resize at h
  split at h
  · cases h
    rfl
  · exact elems_of_allocate h

/-- A vector that was resized has the size asked for. -/
theorem size_of_resize {v v' : CharVector} {n : ℕ} {grant : Grant}
    (h : v.resize n grant = some v') : v'.size = n := by
  rw [size, elems_of_resize h, List.takeD_length]

/-- Making a vector smaller does not throw. -/
theorem resize_isSome_of_le {v : CharVector} {n : ℕ} (h : n ≤ v.size) (grant : Grant) :
    (v.resize n grant).isSome := by
  rw [resize, dif_pos (h.trans v.length_le)]
  rfl

/-- `resize` does not throw if the allocator gives storage. -/
theorem resize_isSome {v : CharVector} {n : ℕ} (h : n ≤ maxSize) {grant : Grant}
    (hgrant : grant.isSome) : (v.resize n grant).isSome := by
  unfold resize
  split
  · rfl
  · rw [allocate, dif_pos h, Option.isSome_map]
    exact hgrant

/-- A write that ends within the elements overwrites just these. -/
theorem elems_write {v : CharVector} {offset : ℕ} {data : Bytes}
    (h : offset + data.length ≤ v.size) : (v.write offset data).elems
      = v.elems.take offset ++ data ++ v.elems.drop (offset + data.length) := by
  rw [size] at h
  apply List.take_of_length_le
  simp only [List.length_append, List.length_take, List.length_drop, size]
  omega

/-- Writing within a vector keeps its size. -/
theorem size_write {v : CharVector} {offset : ℕ} {data : Bytes}
    (h : offset + data.length ≤ v.size) : (v.write offset data).size = v.size := by
  rw [size, elems_write h]
  rw [size] at h ⊢
  simp only [List.length_append, List.length_take, List.length_drop]
  omega

end CharVector

/-- `constants::limits::kMaxConnectionPoolSize`. -/
def kMaxConnectionPoolSize : ℕ := 100000

/-- `BufferPool::pool_`, its back last. -/
abbrev BufferPool := List CharVector

namespace BufferPool

/-- `Acquire`: the vector, unless it throws, and what is left in the pool. A vector taken from the
pool that is too small is dropped. -/
def acquire (pool : BufferPool) (size : ℕ) (grant : Grant) : Option CharVector × BufferPool :=
  match pool.getLast? with
  | none => (CharVector.ofSize size grant, pool)
  | some buf =>
      if size ≤ buf.capacity then (some buf.clear, pool.dropLast)
      else (CharVector.ofSize size grant, pool.dropLast)

/-- `Release`. -/
def release (pool : BufferPool) (buffer : CharVector) : BufferPool :=
  if pool.length < kMaxConnectionPoolSize then pool ++ [buffer] else pool

end BufferPool

end NetworkLib
