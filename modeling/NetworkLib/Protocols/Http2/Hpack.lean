import NetworkLib.Theory.Loop
import NetworkLib.Proto.StreamEnvelope

/-! # Header compression

`HpackEncoder` writes three fields as indices of the static table and all others as literals without
indexing. A `std::map` of headers is given by its entries, in the order of the keys. -/

namespace NetworkLib.Http2.HpackEncoder

open Loop

/-- `out.back() |= b`. -/
def orBack (out : Bytes) (b : UInt8) : Bytes := out.dropLast ++ [out.getLastD 0 ||| b]

/-- One turn of the loop of `EncodeInteger`, over the bytes written and the value left. -/
def turn : Bytes × ℕ → Turn (Bytes × ℕ)
  | (out, value) =>
      if 128 ≤ value then .again (out ++ [UInt8.ofNat (value % 128 + 128)], value / 128)
      else .leave (out, value)

/-- `EncodeInteger`. -/
def encodeInteger (out : Bytes) (value : UInt32) (n : ℕ) : Bytes :=
  let mask := 2 ^ n - 1
  if value.toNat < mask then orBack out (UInt8.ofNat value.toNat)
  else
    let (out, value) := run turn Prod.snd (orBack out (UInt8.ofNat mask), value.toNat - mask)
    out ++ [UInt8.ofNat value]

/-- `EncodeString`. -/
def encodeString (out str : Bytes) : Bytes :=
  encodeInteger (out ++ [0]) (UInt32.ofNat str.length) 7 ++ str

/-- The body of the loop of `Encode`. -/
def encodeField (buffer : Bytes) (field : Bytes × Bytes) : Bytes :=
  let (name, value) := field
  if name = bytesOf ":method" ∧ value = bytesOf "POST" then buffer ++ [0x80 ||| 3]
  else if name = bytesOf ":scheme" ∧ value = bytesOf "http" then buffer ++ [0x80 ||| 6]
  else if name = bytesOf ":status" ∧ value = bytesOf "200" then buffer ++ [0x80 ||| 8]
  else if name = bytesOf ":path" then encodeString (buffer ++ [4]) value
  else if name = bytesOf ":authority" then encodeString (buffer ++ [1]) value
  -- the branch for `content-type` does the same
  else encodeString (encodeString (buffer ++ [0]) name) value

/-- `Encode`. -/
def encode (headers : List (Bytes × Bytes)) : Bytes := headers.foldl encodeField []

/-- Setting bits of the last byte leaves bytes. -/
theorem orBack_ne_nil (out : Bytes) (b : UInt8) : orBack out b ≠ [] := by
  simp [orBack]

/-- An integer is encoded in bytes. -/
theorem encodeInteger_ne_nil (out : Bytes) (value : UInt32) (n : ℕ) :
    encodeInteger out value n ≠ [] := by
  unfold encodeInteger
  simp only
  split
  · exact orBack_ne_nil _ _
  · simp

/-- So is a string. -/
theorem encodeString_ne_nil (out str : Bytes) : encodeString out str ≠ [] := by
  simp [encodeString, encodeInteger_ne_nil]

/-- Every field writes something. -/
theorem encodeField_ne_nil (buffer : Bytes) (field : Bytes × Bytes) :
    encodeField buffer field ≠ [] := by
  obtain ⟨name, value⟩ := field
  unfold encodeField
  simp only
  split_ifs
  · simp
  · simp
  · simp
  · exact encodeString_ne_nil _ _
  · exact encodeString_ne_nil _ _
  · exact encodeString_ne_nil _ _

/-- A block with a field is not empty. -/
theorem encode_ne_nil {headers : List (Bytes × Bytes)} (h : headers ≠ []) :
    encode headers ≠ [] := by
  induction headers using List.reverseRecOn with
  | nil => exact absurd rfl h
  | append_singleton headers field _ =>
      rw [encode, List.foldl_append]
      exact encodeField_ne_nil _ _

end NetworkLib.Http2.HpackEncoder
