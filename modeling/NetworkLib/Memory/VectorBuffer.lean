import NetworkLib.Memory.BufferPool

/-! # The I/O buffer as it is stored

A `Buffer` keeps its bytes in a vector, between a reader and a writer index. `Queues b q` says that
the representation is in order and that the readable bytes are `q`; every operation keeps it, with
`q` what the operation makes of a byte queue, except for `EnsureWritableBytes(n)` when
`writer_index_ + n` is no `std::size_t` (`queues_ensureWritableBytes_iff`). -/

namespace NetworkLib

/-- The value of an expression of type `std::size_t`. -/
def sizeT (n : ℕ) : ℕ := n % 2 ^ 64

/-- What fits in 64 bits is kept. -/
theorem sizeT_of_lt {n : ℕ} (h : n < 2 ^ 64) : sizeT n = n := Nat.mod_eq_of_lt h

/-- A difference that is not negative. -/
theorem sizeT_sub {m n : ℕ} (h : n ≤ m) (hm : m < 2 ^ 64) : sizeT (m + 2 ^ 64 - n) = m - n := by
  rw [sizeT]
  omega

/-- `class Buffer`. -/
structure VectorBuffer where
  buffer : CharVector
  readerIndex : ℕ := 0
  writerIndex : ℕ := 0

namespace VectorBuffer

variable (b : VectorBuffer)

/-- A buffer that was moved from. -/
def moved : VectorBuffer := { buffer := .empty }

/-- `ReadableBytes`. -/
def readableBytes : ℕ := sizeT (b.writerIndex + 2 ^ 64 - b.readerIndex)

/-- `WritableBytes`. -/
def writableBytes : ℕ := sizeT (b.buffer.size + 2 ^ 64 - b.writerIndex)

/-- The elements from `Peek()` on. -/
def peek : Bytes := b.buffer.elems.drop b.readerIndex

/-- The readable bytes. -/
def readable : Bytes := b.peek.take b.readableBytes

/-- `HasWritten`. -/
def hasWritten (len : ℕ) : VectorBuffer := { b with writerIndex := sizeT (b.writerIndex + len) }

/-- `RetrieveAll`. -/
def retrieveAll : VectorBuffer := { b with readerIndex := 0, writerIndex := 0 }

/-- `Retrieve`. -/
def retrieve (len : ℕ) : VectorBuffer :=
  if len < b.readableBytes then { b with readerIndex := sizeT (b.readerIndex + len) }
  else b.retrieveAll

/-- `MakeSpace`: grow the vector, or move the readable bytes to its front. -/
def makeSpace (len : ℕ) (grant : Grant) : Option VectorBuffer :=
  if sizeT (b.writableBytes + b.readerIndex) < len then
    (b.buffer.resize (sizeT (b.writerIndex + len)) grant).map fun buffer => { b with buffer }
  else
    some
      { buffer := b.buffer.write 0 (b.peek.take (b.writerIndex - b.readerIndex))
        readerIndex := 0
        writerIndex := b.readableBytes }

/-- `EnsureWritableBytes`; `none` if it throws, which changes nothing. -/
def ensureWritableBytes (len : ℕ) (grant : Grant) : Option VectorBuffer :=
  if b.writableBytes < len then b.makeSpace len grant else some b

/-- `Append`; `none` if it throws, which changes nothing. -/
def append (data : Bytes) (grant : Grant) : Option VectorBuffer :=
  (b.ensureWritableBytes data.length grant).map fun b =>
    { b with buffer := b.buffer.write b.writerIndex data }.hasWritten data.length

/-- `FindCRLF`: an offset in the vector, or `none` for the null pointer. -/
def findCRLF : Option ℕ :=
  let crlf := b.buffer.search b.readerIndex b.writerIndex Buffer.kCRLF
  if crlf = b.writerIndex then none else some crlf

/-! ## The representation -/

/-- **The buffer is a queue of the bytes `q`**: its indices are in order, and the readable bytes are
`q`. -/
structure Queues (b : VectorBuffer) (q : Bytes) : Prop where
  reader_le : b.readerIndex ≤ b.writerIndex
  writer_le : b.writerIndex ≤ b.buffer.size
  readable_eq : b.readable = q

variable {b : VectorBuffer} {q : Bytes}

/-- With the indices in order, the readable bytes are those between them. -/
theorem readableBytes_eq (hr : b.readerIndex ≤ b.writerIndex) (hw : b.writerIndex ≤ b.buffer.size) :
    b.readableBytes = b.writerIndex - b.readerIndex := by
  have hsize : b.buffer.size ≤ 2 ^ 63 - 1 := b.buffer.size_le_maxSize
  exact sizeT_sub hr (by omega)

/-- With the write index inside, the writable bytes are those behind it. -/
theorem writableBytes_eq (hw : b.writerIndex ≤ b.buffer.size) :
    b.writableBytes = b.buffer.size - b.writerIndex := by
  have hsize : b.buffer.size ≤ 2 ^ 63 - 1 := b.buffer.size_le_maxSize
  exact sizeT_sub hw (by omega)

namespace Queues

/-- The same of a buffer that is a queue. -/
theorem readableBytes_eq (h : b.Queues q) : b.readableBytes = b.writerIndex - b.readerIndex :=
  VectorBuffer.readableBytes_eq h.reader_le h.writer_le

/-- The same of a buffer that is a queue. -/
theorem writableBytes_eq (h : b.Queues q) : b.writableBytes = b.buffer.size - b.writerIndex :=
  VectorBuffer.writableBytes_eq h.writer_le

/-- The readable bytes are the queue. -/
theorem peek_take (h : b.Queues q) : b.peek.take (b.writerIndex - b.readerIndex) = q := by
  rw [← h.readableBytes_eq]
  exact h.readable_eq

/-- `ReadableBytes` is the length of the queue. -/
theorem length_eq (h : b.Queues q) : q.length = b.writerIndex - b.readerIndex := by
  have hw := h.writer_le
  rw [CharVector.size] at hw
  rw [← h.peek_take, peek, List.length_take, List.length_drop]
  omega

/-- There are as many as the queue is long. -/
theorem readableBytes_eq_length (h : b.Queues q) : b.readableBytes = q.length := by
  rw [h.readableBytes_eq, h.length_eq]

/-- What `Peek` points to begins with the queue. -/
theorem peek_eq (h : b.Queues q) : ∃ rest, b.peek = q ++ rest := by
  refine ⟨b.peek.drop (b.writerIndex - b.readerIndex), ?_⟩
  conv_lhs => rw [← List.take_append_drop (b.writerIndex - b.readerIndex) b.peek, h.peek_take]

/-- There are elements up to the reader index. -/
theorem length_take_reader (h : b.Queues q) :
    (b.buffer.elems.take b.readerIndex).length = b.readerIndex :=
  List.length_take_of_le (h.reader_le.trans h.writer_le)

/-- The writer index lies behind the queue. -/
theorem writer_eq (h : b.Queues q) : b.writerIndex = b.readerIndex + q.length := by
  rw [h.length_eq, Nat.add_sub_cancel' h.reader_le]

/-- The elements up to the writer index are those before the reader index, and the queue. -/
theorem take_writer (h : b.Queues q) :
    b.buffer.elems.take b.writerIndex = b.buffer.elems.take b.readerIndex ++ q := by
  have hsplit : b.writerIndex = b.readerIndex + (b.writerIndex - b.readerIndex) := by
    have hr := h.reader_le
    omega
  rw [← h.peek_take, peek, hsplit, List.take_add, ← hsplit]

end Queues

/-- **A representation by its elements**: if they begin with some bytes up to the reader index, and
then `q` up to the writer index, then the buffer is a queue of `q`. -/
theorem queues_of_elems (front rest : Bytes) (helems : b.buffer.elems = front ++ q ++ rest)
    (hr : b.readerIndex = front.length) (hw : b.writerIndex = front.length + q.length) :
    b.Queues q := by
  have hle : b.readerIndex ≤ b.writerIndex := by omega
  have hsize : b.writerIndex ≤ b.buffer.size := by
    rw [CharVector.size, helems, hw, List.length_append, List.length_append]
    omega
  refine ⟨hle, hsize, ?_⟩
  rw [readable, VectorBuffer.readableBytes_eq hle hsize, peek, helems, hr, List.append_assoc,
    List.drop_left, hw, Nat.add_sub_cancel_left, List.take_left]

/-- A buffer whose indices are both zero is an empty queue. -/
theorem queues_nil (v : CharVector) : ({ buffer := v } : VectorBuffer).Queues [] :=
  queues_of_elems [] v.elems rfl rfl rfl

/-- After `RetrieveAll` the queue is empty. -/
theorem queues_retrieveAll : b.retrieveAll.Queues [] := queues_nil b.buffer

/-- **`Retrieve`** drops bytes from the front of the queue. -/
theorem Queues.retrieve (h : b.Queues q) (len : ℕ) : (b.retrieve len).Queues (q.drop len) := by
  have hsize : b.buffer.size ≤ 2 ^ 63 - 1 := b.buffer.size_le_maxSize
  have hlength := h.length_eq
  have hr := h.reader_le
  have hw := h.writer_le
  unfold VectorBuffer.retrieve
  rw [h.readableBytes_eq_length]
  split
  · next hlt =>
      have hindex : sizeT (b.readerIndex + len) = b.readerIndex + len := sizeT_of_lt (by omega)
      rw [hindex]
      refine queues_of_elems (b.buffer.elems.take b.readerIndex ++ q.take len)
        (b.buffer.elems.drop b.writerIndex) ?_ ?_ ?_
      · rw [List.append_assoc (b.buffer.elems.take b.readerIndex), List.take_append_drop,
          ← h.take_writer, List.take_append_drop]
      · rw [List.length_append, h.length_take_reader, List.length_take, Nat.min_eq_left (by omega)]
      · rw [List.length_append, h.length_take_reader, Nat.add_assoc, ← List.length_append,
          List.take_append_drop, ← h.writer_eq]
  · next hge =>
      rw [List.drop_eq_nil_of_le (Nat.le_of_not_lt hge)]
      exact queues_retrieveAll

/-! ## Making space -/

/-- The vector grows: the elements are kept. -/
theorem Queues.grow (h : b.Queues q) {n : ℕ} {grant : Grant} {v : CharVector}
    (hn : b.writerIndex ≤ n) (hv : b.buffer.resize n grant = some v) :
    ({ b with buffer := v } : VectorBuffer).Queues q := by
  have htake : v.elems.take b.writerIndex = b.buffer.elems.take b.writerIndex := by
    rw [CharVector.elems_of_resize hv, CharVector.take_takeD hn h.writer_le]
  refine queues_of_elems (b.buffer.elems.take b.readerIndex) (v.elems.drop b.writerIndex) ?_ h.length_take_reader.symm ?_
  · rw [← h.take_writer, ← htake, List.take_append_drop]
  · rw [h.length_take_reader, ← h.writer_eq]

/-- The queue is moved to the front of the vector. -/
theorem Queues.compact (h : b.Queues q) :
    ({ buffer := b.buffer.write 0 (b.peek.take (b.writerIndex - b.readerIndex)), readerIndex := 0,
       writerIndex := b.readableBytes } : VectorBuffer).Queues q := by
  have hlength := h.length_eq
  have hw := h.writer_le
  refine queues_of_elems [] (b.buffer.elems.drop q.length) ?_ rfl ?_
  · rw [h.peek_take, CharVector.elems_write (by omega), List.take_zero, Nat.zero_add]
  · rw [h.readableBytes_eq_length, List.length_nil, Nat.zero_add]

/-- The sum that `MakeSpace` takes for the new size is a `std::size_t`. -/
def Fits (b : VectorBuffer) (n : ℕ) : Prop := b.writerIndex + n < 2 ^ 64

instance (b : VectorBuffer) (n : ℕ) : Decidable (b.Fits n) := inferInstanceAs (Decidable (_ < _))

/-- **`EnsureWritableBytes`** keeps the queue and leaves enough space, if the sum does not overflow.
-/
theorem Queues.ensureWritableBytes (h : b.Queues q) {n : ℕ} (hn : b.Fits n) {grant : Grant}
    {b' : VectorBuffer} (hb' : b.ensureWritableBytes n grant = some b') :
    b'.Queues q ∧ n ≤ b'.buffer.size - b'.writerIndex := by
  have hsize : b.buffer.size ≤ 2 ^ 63 - 1 := b.buffer.size_le_maxSize
  have hw := h.writer_le
  have hr := h.reader_le
  unfold VectorBuffer.ensureWritableBytes at hb'
  rw [h.writableBytes_eq] at hb'
  split at hb'
  · next hshort =>
      unfold makeSpace at hb'
      -- the space behind and in front together decides between growing and moving
      have htotal : sizeT (b.writableBytes + b.readerIndex)
          = b.buffer.size - b.writerIndex + b.readerIndex := by
        rw [h.writableBytes_eq]
        exact sizeT_of_lt (by omega)
      rw [htotal] at hb'
      split at hb'
      · obtain ⟨v, hv, rfl⟩ := Option.map_eq_some_iff.mp hb'
        rw [sizeT_of_lt hn] at hv
        refine ⟨h.grow (Nat.le_add_right _ _) hv, ?_⟩
        simp only [CharVector.size_of_resize hv]
        omega
      · cases hb'
        refine ⟨h.compact, ?_⟩
        have hlength := h.length_eq
        simp only [h.peek_take, h.readableBytes_eq_length]
        rw [CharVector.size_write (by omega)]
        omega
  · cases hb'
    exact ⟨h, by omega⟩

/-- If the sum overflows, the vector is cut off in front of the writer index. -/
theorem Queues.ensure_overflow (h : b.Queues q) {n : ℕ} (hlt : n < 2 ^ 64) (hn : ¬ b.Fits n)
    (grant : Grant) : ∃ b', b.ensureWritableBytes n grant = some b' ∧
      b'.buffer.size < b'.writerIndex := by
  have hsize : b.buffer.size ≤ 2 ^ 63 - 1 := b.buffer.size_le_maxSize
  have hw := h.writer_le
  have hr := h.reader_le
  rw [Fits] at hn
  have hsum : sizeT (b.writerIndex + n) = b.writerIndex + n - 2 ^ 64 := by
    rw [sizeT]
    omega
  have htotal : sizeT (b.writableBytes + b.readerIndex) < n := by
    rw [h.writableBytes_eq, sizeT_of_lt (by omega)]
    omega
  have hsome : (b.buffer.resize (sizeT (b.writerIndex + n)) grant).isSome :=
    CharVector.resize_isSome_of_le (by omega) grant
  obtain ⟨v, hv⟩ := Option.isSome_iff_exists.mp hsome
  refine ⟨{ b with buffer := v }, ?_, ?_⟩
  · rw [VectorBuffer.ensureWritableBytes, if_pos (by rw [h.writableBytes_eq]; omega), makeSpace,
      if_pos htotal, hv]
    rfl
  · simp only [CharVector.size_of_resize hv]
    omega

/-- `EnsureWritableBytes` returns if the allocator gives storage, for a size a vector can have. -/
theorem ensure_isSome {n : ℕ} (hn : b.writerIndex + n ≤ maxSize)
    {grant : Grant} (hgrant : grant.isSome) : (b.ensureWritableBytes n grant).isSome := by
  have hmax : maxSize = 2 ^ 63 - 1 := rfl
  unfold VectorBuffer.ensureWritableBytes makeSpace
  split
  · split
    · rw [Option.isSome_map]
      refine CharVector.resize_isSome ?_ hgrant
      rw [sizeT_of_lt (by omega)]
      exact hn
    · rfl
  · rfl

/-- Making space does not move the writer index up. -/
theorem Queues.ensure_writerIndex_le (h : b.Queues q) {n : ℕ} {grant : Grant} {b' : VectorBuffer}
    (hb' : b.ensureWritableBytes n grant = some b') : b'.writerIndex ≤ b.writerIndex := by
  unfold VectorBuffer.ensureWritableBytes makeSpace at hb'
  split at hb'
  · split at hb'
    · obtain ⟨v, -, rfl⟩ := Option.map_eq_some_iff.mp hb'
      exact le_rfl
    · cases hb'
      simp only [h.readableBytes_eq]
      exact Nat.sub_le _ _
  · cases hb'
    exact le_rfl

/-- **`Append`** puts the data at the back of the queue. -/
theorem Queues.append (h : b.Queues q) {data : Bytes} (hdata : data.length ≤ maxSize) {grant : Grant}
    {b' : VectorBuffer} (hb' : b.append data grant = some b') : b'.Queues (q ++ data) := by
  have hmax : maxSize = 2 ^ 63 - 1 := rfl
  have hsize : b.buffer.size ≤ maxSize := b.buffer.size_le_maxSize
  have hw := h.writer_le
  obtain ⟨b₁, hb₁, rfl⟩ := Option.map_eq_some_iff.mp hb'
  have hfits : b.Fits data.length := by
    rw [Fits]
    omega
  obtain ⟨hqueue, hspace⟩ := h.ensureWritableBytes hfits hb₁
  have hsize₁ : b₁.buffer.size ≤ maxSize := b₁.buffer.size_le_maxSize
  have hw₁ := hqueue.writer_le
  have hend : b₁.writerIndex + data.length ≤ b₁.buffer.size := by omega
  have hindex : sizeT (b₁.writerIndex + data.length) = b₁.writerIndex + data.length :=
    sizeT_of_lt (by omega)
  refine queues_of_elems (b₁.buffer.elems.take b₁.readerIndex)
    (b₁.buffer.elems.drop (b₁.writerIndex + data.length)) ?_
    hqueue.length_take_reader.symm ?_
  · rw [hasWritten, CharVector.elems_write hend, hqueue.take_writer]
    simp only [List.append_assoc]
  · rw [hqueue.length_take_reader, List.length_append, ← Nat.add_assoc, ← hqueue.writer_eq]
    exact hindex

/-- `Append` moves the writer index up by no more than the length of the data. -/
theorem Queues.append_writerIndex_le (h : b.Queues q) {data : Bytes} {grant : Grant}
    {b' : VectorBuffer} (hb' : b.append data grant = some b') :
    b'.writerIndex ≤ b.writerIndex + data.length := by
  obtain ⟨b₁, hb₁, rfl⟩ := Option.map_eq_some_iff.mp hb'
  have hle := h.ensure_writerIndex_le hb₁
  have hmod : sizeT (b₁.writerIndex + data.length) ≤ b₁.writerIndex + data.length :=
    Nat.mod_le _ _
  exact hmod.trans (Nat.add_le_add_right hle _)

/-- `Append` returns if the allocator gives storage, for a size a vector can have. -/
theorem append_isSome {data : Bytes} (hdata : b.writerIndex + data.length ≤ maxSize) {grant : Grant}
    (hgrant : grant.isSome) : (b.append data grant).isSome := by
  rw [append, Option.isSome_map]
  exact ensure_isSome hdata hgrant

/-- `Retrieve` does not move the writer index up. -/
theorem retrieve_writerIndex_le (len : ℕ) : (b.retrieve len).writerIndex ≤ b.writerIndex := by
  unfold retrieve
  split
  · exact le_rfl
  · exact Nat.zero_le _

/-! ## CR LF -/

/-- **`FindCRLF`** finds the first CR LF inside the readable bytes. -/
theorem Queues.findCRLF (h : b.Queues q) :
    b.findCRLF = (Buffer.findCRLF q).map (b.readerIndex + ·) := by
  have hlength := h.length_eq
  have hsearch : search Buffer.kCRLF
      ((b.buffer.elems.drop b.readerIndex).take (b.writerIndex - b.readerIndex))
        = Buffer.findCRLF q := by
    rw [← h.peek_take]
    rfl
  unfold VectorBuffer.findCRLF
  simp only [CharVector.search, hsearch]
  cases hfound : Buffer.findCRLF q with
  | none => exact if_pos rfl
  | some i =>
      have hend := Buffer.findCRLF_add_two_le hfound
      exact if_neg (by simp only; omega)

end VectorBuffer

end NetworkLib
