import NetworkLib.Memory.VectorBuffer
import NetworkLib.Memory.ByteQueue
import NetworkLib.Protocols.Grpc.GrpcCodec
import NetworkLib.Theory.HeaderFraming

/-! # The gRPC codec on a stream

A reader of length-prefixed messages appends what it receives to a `Buffer` and then calls
`GrpcCodec::Decode` until it returns false. The messages of a stream are read back, however the
stream is cut into pieces and whatever the buffer does to make room for them (`decode_stream`). -/

namespace NetworkLib.GrpcCodec

open Loop

/-! ## Messages -/

/-- The headers of length-prefixed messages. -/
def format : HeaderFormat where
  size := kHeaderSize
  size_pos := by decide
  announced header := (ntohl ((header.drop 1).take 4)).toNat

/-- The payload and the flag of a message as it is read. -/
def ofMessage (m : Bytes × Bytes) : Bytes × Bool := (m.2, decide (m.1.getD 0 0 ≠ 0))

/-- The header and the payload of a message as it is written. -/
def toMessage (m : Bytes × Bool) : Bytes × Bytes :=
  ((if m.2 then 1 else 0) :: htonl (UInt32.ofNat m.1.length), m.1)

/-- The bytes of some messages, one after another. -/
def encodeAll (ms : List (Bytes × Bool)) : Bytes := ms.flatMap fun m => encode m.1 m.2

/-- The encoded messages are those of the header format. -/
theorem encodeAll_eq_wire (ms : List (Bytes × Bool)) :
    encodeAll ms = HeaderFormat.wire (ms.map toMessage) := by
  rw [encodeAll, HeaderFormat.wire, List.flatMap_map]
  rfl

@[simp] theorem ofMessage_toMessage (m : Bytes × Bool) : ofMessage (toMessage m) = m := by
  obtain ⟨payload, compressed⟩ := m
  cases compressed <;> rfl

/-- A message whose length fits in four bytes is one of the header format. -/
theorem isMessage_toMessage {m : Bytes × Bool} (h : m.1.length < 2 ^ 32) :
    format.IsMessage (toMessage m) := by
  constructor
  · simp [toMessage, format, kHeaderSize]
  · simp only [format, toMessage, List.drop_one, List.tail_cons]
    rw [List.take_of_length_le (by rw [length_htonl]), ntohl_htonl, UInt32.toNat_ofNat_of_lt' h]

/-- `Decode` takes the message at the front of the readable bytes. -/
theorem decode_eq (q : Bytes) : decode q =
    if format.Incomplete q then (none, q) else (some (ofMessage (format.first q)), format.rest q) := by
  have hannounced : format.announced (q.take format.size) = (ntohl ((q.drop 1).take 4)).toNat := by
    have htake : ((q.take kHeaderSize).drop 1).take 4 = (q.drop 1).take 4 := by
      rw [List.drop_take, List.take_take]
      rfl
    simp only [format, htake]
  have hflag : (q.take kHeaderSize).getD 0 0 = q.getD 0 0 := by
    cases q <;> rfl
  unfold decode
  by_cases hshort : q.length < kHeaderSize
  · rw [if_pos hshort, if_pos (.inl hshort)]
  · rw [if_neg hshort]
    by_cases hpart : q.length < kHeaderSize + (ntohl ((q.drop 1).take 4)).toNat
    · have hincomplete : format.Incomplete q := .inr (by rwa [hannounced])
      rw [if_pos hincomplete]
      exact if_pos hpart
    · have hcomplete : ¬ format.Incomplete q := by
        rw [HeaderFormat.Incomplete, hannounced]
        exact not_or.mpr ⟨hshort, hpart⟩
      rw [if_neg hcomplete, ofMessage, HeaderFormat.first, HeaderFormat.rest, hannounced]
      simp only [if_neg hpart, Buffer.retrieve_eq_drop]
      rw [show format.size = kHeaderSize from rfl, hflag]

/-! ## The buffer as it is stored -/

/-- `Decode` on the buffer as it is stored. -/
def decodeStored (buf : VectorBuffer) : Option (Bytes × Bool) × VectorBuffer :=
  if buf.readableBytes < kHeaderSize then (none, buf)
  else
    let data := buf.peek
    let length := (ntohl ((data.drop 1).take 4)).toNat
    if buf.readableBytes < sizeT (kHeaderSize + length) then (none, buf)
    else
      (some ((data.drop kHeaderSize).take length, decide (data.getD 0 0 ≠ 0)),
        buf.retrieve (sizeT (kHeaderSize + length)))

/-- **`Decode` on the stored buffer is `Decode` on its readable bytes**, and leaves it alone when it
returns false. -/
theorem decodeStored_spec {b : VectorBuffer} {q : Bytes} (h : b.Queues q) :
    (decodeStored b).1 = (decode q).1 ∧ (decodeStored b).2.Queues (decode q).2 ∧
      ((decodeStored b).1 = none → (decodeStored b).2 = b) ∧
      (decodeStored b).2.writerIndex ≤ b.writerIndex := by
  obtain ⟨rest, hpeek⟩ := h.peek_eq
  unfold decodeStored decode
  rw [h.readableBytes_eq_length, hpeek]
  by_cases hshort : q.length < kHeaderSize
  · rw [if_pos hshort, if_pos hshort]
    exact ⟨rfl, h, fun _ => rfl, le_rfl⟩
  · rw [if_neg hshort, if_neg hshort]
    have hsize : kHeaderSize = 5 := rfl
    -- The span behind the readable bytes is not looked at, and the length does not wrap.
    have hlength : ((q ++ rest).drop 1).take 4 = (q.drop 1).take 4 := by
      rw [List.drop_append_of_le_length (by omega), List.take_append_of_le_length]
      rw [List.length_drop]
      omega
    have hflag : (q ++ rest).getD 0 0 = q.getD 0 0 := by
      rw [List.getD_eq_getElem?_getD, List.getElem?_append_left (by omega),
        ← List.getD_eq_getElem?_getD]
    have hlt := (ntohl ((q.drop 1).take 4)).toNat_lt
    have hsum : sizeT (kHeaderSize + (ntohl ((q.drop 1).take 4)).toNat)
        = kHeaderSize + (ntohl ((q.drop 1).take 4)).toNat := sizeT_of_lt (by omega)
    simp only [hlength, hflag, hsum]
    split
    · exact ⟨rfl, h, fun _ => rfl, le_rfl⟩
    · next hwhole =>
        have hpayload : ((q ++ rest).drop kHeaderSize).take (ntohl ((q.drop 1).take 4)).toNat
            = (q.drop kHeaderSize).take (ntohl ((q.drop 1).take 4)).toNat := by
          rw [List.drop_append_of_le_length (by omega), List.take_append_of_le_length]
          rw [List.length_drop]
          omega
        rw [hpayload, Buffer.retrieve_eq_drop]
        refine ⟨rfl, h.retrieve _, ?_, VectorBuffer.retrieve_writerIndex_le _⟩
        intro hnone
        cases hnone

variable {b : VectorBuffer} {q : Bytes}

/-- `Decode` returns false, and leaves the buffer alone. -/
theorem decodeStored_incomplete (h : b.Queues q) (hinc : format.Incomplete q) :
    decodeStored b = (none, b) := by
  obtain ⟨hresult, -, hkeep, -⟩ := decodeStored_spec h
  have hnone : (decodeStored b).1 = none := by
    rw [hresult, decode_eq, if_pos hinc]
  generalize decodeStored b = r at hnone hkeep ⊢
  obtain ⟨result, buf⟩ := r
  simp only at hnone hkeep
  rw [hnone, hkeep hnone]

/-- `Decode` returns true, and takes the message at the front. -/
theorem decodeStored_complete (h : b.Queues q) (hinc : ¬ format.Incomplete q) :
    ∃ b', decodeStored b = (some (ofMessage (format.first q)), b') ∧
      b'.Queues (format.rest q) ∧ b'.writerIndex ≤ b.writerIndex := by
  obtain ⟨hresult, hqueue, -, hindex⟩ := decodeStored_spec h
  rw [decode_eq, if_neg hinc] at hresult hqueue
  generalize decodeStored b = r at hresult hqueue hindex ⊢
  obtain ⟨result, buf⟩ := r
  have hsome : result = some (ofMessage (format.first q)) := hresult
  exact ⟨buf, Prod.ext hsome rfl, hqueue, hindex⟩

/-! ## The reader -/

/-- The messages decoded so far, and the buffer. -/
abbrev Reader := List (Bytes × Bool) × VectorBuffer

/-- What becomes of the loop when `Decode` has returned. -/
def decoded (ms : List (Bytes × Bool)) : Option (Bytes × Bool) × VectorBuffer → Turn Reader
  | (none, buf) => .leave (ms, buf)
  | (some m, buf) => .again (ms ++ [m], buf)

/-- One turn of `while (Decode(buf, payload, compressed))`. -/
def turn (r : Reader) : Turn Reader := decoded r.1 (decodeStored r.2)

/-- Append the pieces to the buffer one after another, and decode after each until `Decode` returns
false; every `Append` returns. -/
inductive Reads : Reader → List (Block × Grant) → Reader → Prop
  | nil (r : Reader) : Reads r [] r
  | cons {r r' r'' : Reader} {piece : Block} {grant : Grant} {pieces : List (Block × Grant)}
      {buf : VectorBuffer} (happend : r.2.append piece.1 grant = some buf)
      (hdecode : Exits turn (r.1, buf) r') (hreads : Reads r' pieces r'') :
      Reads r ((piece, grant) :: pieces) r''

/-- The bytes of some pieces. -/
def pieceBytes (pieces : List (Block × Grant)) : Bytes := pieces.flatMap fun piece => piece.1.1

/-- What a reader of whole messages makes of the readable bytes. -/
def consumer : Consumer (List (Bytes × Bool)) UInt8 :=
  format.consumer (fun _ => false) fun ms m => ms ++ [ofMessage m]

/-- The consumer takes the first message, if it is complete. -/
theorem consumer_next (ms : List (Bytes × Bool)) (q : Bytes) : consumer.next (ms, q) =
    if format.Incomplete q then none
    else some (ms ++ [ofMessage (format.first q)], format.rest q) := by
  simp only [consumer, HeaderFormat.consumer, HeaderFormat.next, Bool.false_eq_true, false_or]

/-- Messages that are read one by one. -/
theorem foldl_ofMessage (decoded ms : List (Bytes × Bool)) :
    (ms.map toMessage).foldl (fun ms m => ms ++ [ofMessage m]) decoded = decoded ++ ms := by
  induction ms generalizing decoded with
  | nil => exact (List.append_nil decoded).symm
  | cons m ms ih =>
      rw [List.map_cons, List.foldl_cons, ih, ofMessage_toMessage, List.append_assoc]
      rfl

/-- **The decoding loop takes all whole messages** out of the readable bytes. -/
theorem exits_drain (h : b.Queues q) (ms : List (Bytes × Bool)) :
    ∃ b', Exits turn (ms, b) ((consumer.drain (ms, q)).1, b') ∧
      b'.Queues (consumer.drain (ms, q)).2 ∧ b'.writerIndex ≤ b.writerIndex := by
  induction hn : q.length using Nat.strongRecOn generalizing b q ms with
  | _ n ih =>
      have hnext := consumer_next ms q
      by_cases hinc : format.Incomplete q
      · rw [if_pos hinc] at hnext
        have hturn : turn (ms, b) = .leave (ms, b) :=
          congrArg (decoded ms) (decodeStored_incomplete h hinc)
        rw [Consumer.drain_of_none hnext]
        exact ⟨b, Exits.leave hturn, h, le_rfl⟩
      · rw [if_neg hinc] at hnext
        obtain ⟨b₁, hdecode, hqueue, hindex⟩ := decodeStored_complete h hinc
        have hturn : turn (ms, b) = .again (ms ++ [ofMessage (format.first q)], b₁) :=
          congrArg (decoded ms) hdecode
        have hlt : (format.rest q).length < n := hn ▸ HeaderFormat.length_rest_lt hinc
        obtain ⟨b', hexits, hqueue', hindex'⟩ :=
          ih _ hlt hqueue (ms ++ [ofMessage (format.first q)]) rfl
        rw [Consumer.drain_of_some hnext]
        exact ⟨b', (exits_again_iff hturn).mpr hexits, hqueue', hindex'.trans hindex⟩

/-- **Reading pieces is feeding them to the consumer.** -/
theorem Reads.feedAll {r r' : Reader} {pieces : List (Block × Grant)} (h : Reads r pieces r')
    {q : Bytes} (hq : r.2.Queues q) :
    r'.1 = (consumer.feedAll (r.1, q) (pieces.map fun piece => piece.1.1)).1 ∧
      r'.2.Queues (consumer.feedAll (r.1, q) (pieces.map fun piece => piece.1.1)).2 := by
  induction h generalizing q with
  | nil r => exact ⟨rfl, hq⟩
  | @cons r r' r'' piece grant pieces buf happend hdecode _ ih =>
      obtain ⟨b', hexits, hqueue, -⟩ := exits_drain (hq.append piece.2 happend) r.1
      obtain rfl := hdecode.unique hexits
      rw [List.map_cons, Consumer.feedAll_cons]
      exact ih hqueue

/-- **The reader gets through**, if the allocator gives storage and all that is read fits into a
vector. -/
theorem exists_reads {r : Reader} (hq : r.2.Queues q) {pieces : List (Block × Grant)}
    (hgrants : ∀ piece ∈ pieces, piece.2.isSome)
    (hsize : r.2.writerIndex + (pieceBytes pieces).length ≤ maxSize) : ∃ r', Reads r pieces r' := by
  induction pieces generalizing r q with
  | nil => exact ⟨r, .nil r⟩
  | cons piece pieces ih =>
      obtain ⟨piece, grant⟩ := piece
      have hlength : (pieceBytes ((piece, grant) :: pieces)).length
          = piece.1.length + (pieceBytes pieces).length := by
        rw [pieceBytes, List.flatMap_cons, List.length_append]
        rfl
      have hfits : r.2.writerIndex + piece.1.length ≤ maxSize := by omega
      obtain ⟨buf, happend⟩ := Option.isSome_iff_exists.mp
        (VectorBuffer.append_isSome hfits (hgrants _ List.mem_cons_self))
      have hindex := hq.append_writerIndex_le happend
      obtain ⟨b', hexits, hqueue, hindex'⟩ := exits_drain (hq.append piece.2 happend) r.1
      obtain ⟨r'', hreads⟩ := ih (r := ((consumer.drain (r.1, q ++ piece.1)).1, b')) hqueue
        (fun piece' hpiece' => hgrants piece' (List.mem_cons_of_mem _ hpiece')) (by simp only; omega)
      exact ⟨r'', .cons happend hexits hreads⟩

/-- What is left when `Decode` has returned: the same readable bytes if it returns false, and if it
returns true the bytes behind the header and the payload. -/
def Left (readable : Bytes) : Option (Bytes × Bool) × VectorBuffer → Prop
  | (none, b') => b'.readable = readable
  | (some m, b') => kHeaderSize + m.1.length ≤ readable.length ∧
      b'.readable = readable.drop (kHeaderSize + m.1.length)

/-- **What one call of `Decode` removes.** -/
theorem left_decodeStored (h : b.Queues q) : Left b.readable (decodeStored b) := by
  by_cases hinc : format.Incomplete q
  · rw [decodeStored_incomplete h hinc]
    rfl
  · obtain ⟨b', hdecode, hqueue, -⟩ := decodeStored_complete h hinc
    obtain ⟨⟨-, hlength⟩, -⟩ := HeaderFormat.first_rest hinc
    simp only [HeaderFormat.Incomplete, not_or, not_lt] at hinc
    have hsize : (ofMessage (format.first q)).1.length = format.announced (q.take format.size) :=
      hlength.symm
    rw [hdecode]
    simp only [Left, hqueue.readable_eq, h.readable_eq, hsize]
    exact ⟨hinc.2, rfl⟩

/-- **The codec reads back a stream of messages.** For messages of less than 2³² bytes, and every
way of appending their encodings to a buffer in pieces: the messages decoded are exactly these, in
order, and nothing is left; the decoding loop ends after every piece, and all pieces are read if
there is storage for them; and every call of `Decode` removes what it decoded, or nothing. -/
theorem decode_stream (hb : b.Queues []) {ms : List (Bytes × Bool)}
    (hms : ∀ m ∈ ms, m.1.length < 2 ^ 32) {pieces : List (Block × Grant)}
    (hpieces : pieceBytes pieces = encodeAll ms) :
    (∀ r, Reads ([], b) pieces r → r.1 = ms ∧ r.2.Queues []) ∧
      (∀ done piece grant todo r buf, pieces = done ++ (piece, grant) :: todo →
        Reads ([], b) done r → r.2.append piece.1 grant = some buf →
        ∃ r', Exits turn (r.1, buf) r') ∧
      ((∀ piece ∈ pieces, piece.2.isSome) →
        b.writerIndex + (pieceBytes pieces).length ≤ maxSize → ∃ r, Reads ([], b) pieces r) ∧
      ∀ buf q, VectorBuffer.Queues buf q → Left buf.readable (decodeStored buf) := by
  refine ⟨?_, ?_, exists_reads (r := ([], b)) hb, fun buf q => left_decodeStored⟩
  · intro r hreads
    obtain ⟨hdecoded, hqueue⟩ := hreads.feedAll hb
    -- every cutting ends where the one-shot reading does
    have hempty : format.Incomplete [] := .inl (show (0 : ℕ) < 5 by decide)
    have hwait : consumer.next (([] : List (Bytes × Bool)), []) = none := by
      rw [consumer_next, if_pos hempty]
    have hmessages : ∀ m ∈ ms.map toMessage, format.IsMessage m := by
      intro m hm
      obtain ⟨m', hm', rfl⟩ := List.mem_map.mp hm
      exact isMessage_toMessage (hms m' hm')
    have hsplit : format.split (encodeAll ms) = (ms.map toMessage, []) := by
      have hsplit := HeaderFormat.split_wire hmessages hempty
      rwa [List.append_nil, ← encodeAll_eq_wire] at hsplit
    have hall : consumer.feedAll ([], []) (pieces.map fun piece => piece.1.1) = (ms, []) := by
      have hbytes : (pieces.map fun piece => piece.1.1).flatten = encodeAll ms := hpieces
      rw [Consumer.feedAll_eq_drain hwait, List.nil_append, hbytes, consumer,
        HeaderFormat.drain_eq _ _ (fun _ => rfl), hsplit, foldl_ofMessage, List.nil_append]
    rw [hall] at hdecoded hqueue
    exact ⟨hdecoded, hqueue⟩
  · intro done piece grant todo r buf _ hreads happend
    obtain ⟨-, hqueue⟩ := hreads.feedAll hb
    obtain ⟨b', hexits, -, -⟩ := exits_drain (hqueue.append piece.2 happend) r.1
    exact ⟨_, hexits⟩

/-- Two messages in three pieces, the first cut inside its header. -/
def threePieces : List (Block × Grant) :=
  [(⟨[1, 0], by decide⟩, some 0), (⟨[0, 0, 2, 7], by decide⟩, some 0),
    (⟨[8, 0, 0, 0, 0, 0], by decide⟩, some 0)]

/-- The two messages are read back from the three pieces. -/
theorem decode_stream_three :
    (∀ r, Reads ([], { buffer := .empty }) threePieces r →
        r.1 = [([7, 8], true), ([], false)] ∧ r.2.Queues []) ∧
      ∃ r, Reads ([], { buffer := .empty }) threePieces r :=
  have hbytes : pieceBytes threePieces = encodeAll [([7, 8], true), ([], false)] := by decide
  have hall := decode_stream (VectorBuffer.queues_nil .empty) (by decide) hbytes
  ⟨hall.1, hall.2.2.1 (by decide) (by decide)⟩

end NetworkLib.GrpcCodec
