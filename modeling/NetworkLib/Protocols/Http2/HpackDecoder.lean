import NetworkLib.Protocols.Http2.Hpack
import NetworkLib.Theory.PrefixInteger

/-! # Header blocks decoded

A decoder of RFC 7541 for what `HpackEncoder` may write: fields of the static table, literals
without indexing, and strings that are not Huffman coded, with an empty dynamic table. It reads
every encoded block as the fields it was made of (`hpack_decodable`). -/

namespace NetworkLib.Http2

open Loop

namespace HpackDecoder

/-- The static table of RFC 7541, from index 1 on. -/
def staticTable : List (Bytes × Bytes) :=
  [(":authority", ""), (":method", "GET"), (":method", "POST"), (":path", "/"),
    (":path", "/index.html"), (":scheme", "http"), (":scheme", "https"), (":status", "200"),
    (":status", "204"), (":status", "206"), (":status", "304"), (":status", "400"),
    (":status", "404"), (":status", "500"), ("accept-charset", ""),
    ("accept-encoding", "gzip, deflate"), ("accept-language", ""), ("accept-ranges", ""),
    ("accept", ""), ("access-control-allow-origin", ""), ("age", ""), ("allow", ""),
    ("authorization", ""), ("cache-control", ""), ("content-disposition", ""),
    ("content-encoding", ""), ("content-language", ""), ("content-length", ""),
    ("content-location", ""), ("content-range", ""), ("content-type", ""), ("cookie", ""),
    ("date", ""), ("etag", ""), ("expect", ""), ("expires", ""), ("from", ""), ("host", ""),
    ("if-match", ""), ("if-modified-since", ""), ("if-none-match", ""), ("if-range", ""),
    ("if-unmodified-since", ""), ("last-modified", ""), ("link", ""), ("location", ""),
    ("max-forwards", ""), ("proxy-authenticate", ""), ("proxy-authorization", ""), ("range", ""),
    ("referer", ""), ("refresh", ""), ("retry-after", ""), ("server", ""), ("set-cookie", ""),
    ("strict-transport-security", ""), ("transfer-encoding", ""), ("user-agent", ""), ("vary", ""),
    ("via", ""), ("www-authenticate", "")].map fun p => (bytesOf p.1, bytesOf p.2)

example : staticTable.length = 61 := by decide

/-- The table entry of an index; 0 is none, and behind the static table there is nothing. -/
def lookup (index : ℕ) : Option (Bytes × Bytes) := if index = 0 then none else staticTable[index - 1]?

/-- A string literal: its length, in seven bits below the Huffman flag, and its bytes. -/
def decodeString (bs : Bytes) : Option (Bytes × Bytes) :=
  if 128 ≤ (bs.headD 0).toNat then none
  else
    match PrefixInteger.decode 7 bs with
    | none => none
    | some (length, rest) =>
        if length ≤ rest.length then some (rest.take length, rest.drop length) else none

/-- The name of a literal: the one of a table entry, or a string behind index 0. -/
def decodeName (bs : Bytes) : Option (Bytes × Bytes) :=
  match PrefixInteger.decode 4 bs with
  | none => none
  | some (index, rest) =>
      if index = 0 then decodeString rest else (lookup index).map fun f => (f.1, rest)

/-- A field of the table. -/
def decodeIndexed (bs : Bytes) : Option ((Bytes × Bytes) × Bytes) :=
  match PrefixInteger.decode 7 bs with
  | none => none
  | some (index, rest) => (lookup index).map fun f => (f, rest)

/-- A literal field. -/
def decodeLiteral (bs : Bytes) : Option ((Bytes × Bytes) × Bytes) :=
  match decodeName bs with
  | none => none
  | some (name, rest) => (decodeString rest).map fun p => ((name, p.1), p.2)

/-- One field, and what follows it. The highest bits of the first byte tell how it is represented: 1
by an index, 0000 by a literal without indexing. -/
def decodeField (bs : Bytes) : Option ((Bytes × Bytes) × Bytes) :=
  if 128 ≤ (bs.headD 0).toNat then decodeIndexed bs
  else if (bs.headD 0).toNat < 16 then decodeLiteral bs
  else none

example : decodeField ([0x04, 0x0C] ++ bytesOf "/sample/path")
    = some ((bytesOf ":path", bytesOf "/sample/path"), []) := by decide

/-- A string takes bytes. -/
theorem decodeString_length {bs str rest : Bytes} (h : decodeString bs = some (str, rest)) :
    rest.length < bs.length := by
  unfold decodeString at h
  split at h
  · cases h
  · split at h
    · cases h
    · next hdecode =>
        split at h
        · cases h
          rw [List.length_drop]
          have := PrefixInteger.decode_length hdecode
          omega
        · cases h

/-- So does a name. -/
theorem decodeName_length {bs name rest : Bytes} (h : decodeName bs = some (name, rest)) :
    rest.length < bs.length := by
  unfold decodeName at h
  split at h
  · cases h
  · next hdecode =>
      have hlt := PrefixInteger.decode_length hdecode
      split at h
      · exact (decodeString_length h).trans hlt
      · obtain ⟨f, -, heq⟩ := Option.map_eq_some_iff.mp h
        cases heq
        exact hlt

/-- A field takes bytes off the front. -/
theorem decodeField_length {bs rest : Bytes} {field : Bytes × Bytes}
    (h : decodeField bs = some (field, rest)) : rest.length < bs.length := by
  unfold decodeField at h
  split at h
  · unfold decodeIndexed at h
    split at h
    · cases h
    · next hdecode =>
        obtain ⟨f, -, heq⟩ := Option.map_eq_some_iff.mp h
        cases heq
        exact PrefixInteger.decode_length hdecode
  · split at h
    · unfold decodeLiteral at h
      split at h
      · cases h
      · next hname =>
          obtain ⟨p, hvalue, heq⟩ := Option.map_eq_some_iff.mp h
          cases heq
          exact (decodeString_length hvalue).trans (decodeName_length hname)
    · cases h

/-- The fields of a block, if it consists of fields. -/
def decode (bs : Bytes) : Option (List (Bytes × Bytes)) :=
  if bs = [] then some []
  else
    match _h : decodeField bs with
    | none => none
    | some (field, rest) => (decode rest).map (field :: ·)
termination_by bs.length
decreasing_by exact decodeField_length ‹_›

/-- Of no bytes there are no fields. -/
theorem decode_nil : decode [] = some [] := by rw [decode, if_pos rfl]

/-- The first field is decoded off the front. -/
theorem decode_of_field {bs rest : Bytes} {field : Bytes × Bytes}
    (h : decodeField bs = some (field, rest)) : decode bs = (decode rest).map (field :: ·) := by
  have hne : bs ≠ [] := List.ne_nil_of_length_pos (Nat.zero_lt_of_lt (decodeField_length h))
  rw [decode, if_neg hne]
  split
  · next h' => rw [h] at h'; cases h'
  · next h' => rw [h] at h'; cases h'; rfl

/-! ## Representations read back -/

/-- A string literal as it is to be encoded. -/
def stringLiteral (str : Bytes) : Bytes := PrefixInteger.encode 7 0 str.length ++ str

/-- **A string literal is read back**, whatever follows it. -/
theorem decodeString_stringLiteral (str rest : Bytes) :
    decodeString (stringLiteral str ++ rest) = some (str, rest) := by
  have hclear : (0 : UInt8).toNat % 2 ^ 7 = 0 := rfl
  have hdecode := PrefixInteger.decode_encode (by omega) hclear str.length (str ++ rest)
  obtain ⟨first, more, hfirst, hhigh⟩ := PrefixInteger.encode_eq_cons (by omega) hclear str.length
  have hraw : first.toNat < 128 := by
    have hzero : first.toNat / 2 ^ 7 = 0 := hhigh
    omega
  rw [hfirst] at hdecode
  rw [stringLiteral, hfirst, List.append_assoc, decodeString, List.cons_append, List.headD_cons,
    if_neg (Nat.not_le.mpr hraw), ← List.cons_append, hdecode]
  simp only
  rw [if_pos (by rw [List.length_append]; omega), List.take_left, List.drop_left]

/-- A byte with its highest bit set is an index. -/
theorem decodeField_indexed (index : ℕ) (h : index < 127) {f : Bytes × Bytes}
    (hf : lookup index = some f) (rest : Bytes) :
    decodeField (UInt8.ofNat (128 + index) :: rest) = some (f, rest) := by
  have hbyte : (UInt8.ofNat (128 + index)).toNat = 128 + index := by
    rw [UInt8.toNat_ofNat']
    omega
  have hdecode : PrefixInteger.decode 7 (UInt8.ofNat (128 + index) :: rest) = some (index, rest) := by
    rw [PrefixInteger.decode, hbyte]
    have hmod : (128 + index) % 2 ^ 7 = index := by omega
    rw [hmod, if_pos (by omega)]
  rw [decodeField, List.headD_cons, hbyte, if_pos (by omega), decodeIndexed, hdecode]
  simp only
  rw [hf]
  rfl

/-- A literal whose name is the one of a table entry. -/
theorem decodeField_tableName (index : ℕ) (h : index < 15) (h0 : index ≠ 0) {f : Bytes × Bytes}
    (hf : lookup index = some f) (value rest : Bytes) :
    decodeField (UInt8.ofNat index :: (stringLiteral value ++ rest)) = some ((f.1, value), rest) := by
  have hbyte : (UInt8.ofNat index).toNat = index := by
    rw [UInt8.toNat_ofNat']
    omega
  have hname : decodeName (UInt8.ofNat index :: (stringLiteral value ++ rest))
      = some (f.1, stringLiteral value ++ rest) := by
    have hmod : index % 2 ^ 4 = index := by omega
    rw [decodeName, PrefixInteger.decode, hbyte, hmod, if_pos (by omega)]
    simp only
    rw [if_neg h0, hf]
    rfl
  rw [decodeField, List.headD_cons, hbyte, if_neg (by omega), if_pos (by omega), decodeLiteral, hname]
  simp only
  rw [decodeString_stringLiteral]
  rfl

/-- A literal with a name of its own. -/
theorem decodeField_newName (name value rest : Bytes) :
    decodeField (0 :: (stringLiteral name ++ (stringLiteral value ++ rest)))
      = some ((name, value), rest) := by
  have hname : decodeName (0 :: (stringLiteral name ++ (stringLiteral value ++ rest)))
      = some (name, stringLiteral value ++ rest) := by
    rw [← decodeString_stringLiteral name]
    rfl
  have hfirst : decodeField (0 :: (stringLiteral name ++ (stringLiteral value ++ rest)))
      = decodeLiteral (0 :: (stringLiteral name ++ (stringLiteral value ++ rest))) := rfl
  rw [hfirst, decodeLiteral, hname]
  simp only
  rw [decodeString_stringLiteral]
  rfl

end HpackDecoder

namespace HpackEncoder

open HpackDecoder

/-! ## What the encoder writes -/

/-- Bits are set in the last byte. -/
theorem orBack_concat (front : Bytes) (b c : UInt8) :
    orBack (front ++ [b]) c = front ++ [b ||| c] := by
  rw [orBack, List.dropLast_concat, List.getLastD_concat]

/-- Every turn makes the rest of the integer smaller. -/
theorem turn_rank (p q : Bytes × ℕ) (h : turn p = .again q) : q.2 < p.2 := by
  obtain ⟨out, value⟩ := p
  rw [turn] at h
  split at h
  · next hvalue =>
      cases h
      exact Nat.div_lt_self (by omega) (by omega)
  · cases h

/-- The loop of `EncodeInteger` writes groups of seven bits. -/
theorem run_turn (out : Bytes) (value : ℕ) :
    (run turn Prod.snd (out, value)).1 ++ [UInt8.ofNat (run turn Prod.snd (out, value)).2]
      = out ++ PrefixInteger.groups value := by
  induction hn : value using Nat.strongRecOn generalizing out value with
  | ind n ih =>
      subst hn
      rcases Nat.lt_or_ge value 128 with h | h
      · have hturn : turn (out, value) = .leave (out, value) := by
          rw [turn, if_neg (Nat.not_le.mpr h)]
        rw [run_of_leave _ hturn, PrefixInteger.groups_of_lt h]
      · have hturn : turn (out, value)
            = .again (out ++ [UInt8.ofNat (value % 128 + 128)], value / 128) := by
          rw [turn, if_pos h]
        rw [run_of_again _ turn_rank hturn, ih (value / 128) (by omega) _ _ rfl,
          PrefixInteger.groups_of_le h, List.append_assoc, List.singleton_append]

/-- **`EncodeInteger` writes a prefix integer** into the last byte and behind it. -/
theorem encodeInteger_eq (front : Bytes) (b : UInt8) (value : UInt32) (n : ℕ) :
    encodeInteger (front ++ [b]) value n = front ++ PrefixInteger.encode n b value.toNat := by
  rw [encodeInteger, PrefixInteger.encode]
  split
  · rw [orBack_concat, PrefixInteger.withLow]
  · simp only
    rw [orBack_concat, run_turn, PrefixInteger.withLow, List.append_assoc, List.singleton_append]

/-- A string is encoded as the literal of HPACK. -/
theorem encodeString_eq {str : Bytes} (h : str.length < 2 ^ 32) (out : Bytes) :
    encodeString out str = out ++ stringLiteral str := by
  rw [encodeString, encodeInteger_eq, UInt32.toNat_ofNat_of_lt' h, List.append_assoc, stringLiteral]

/-- **Every field is read back** from what is written for it. -/
theorem encodeField_spec {field : Bytes × Bytes} (hname : field.1.length < 2 ^ 32)
    (hvalue : field.2.length < 2 ^ 32) :
    ∃ bytes, (∀ buffer, encodeField buffer field = buffer ++ bytes) ∧
      ∀ rest, decodeField (bytes ++ rest) = some (field, rest) := by
  obtain ⟨name, value⟩ := field
  simp only [encodeField, encodeString_eq hname, encodeString_eq hvalue]
  -- three fields are indices, two names are in the table, and all others are written out
  split
  · next h =>
      obtain ⟨rfl, rfl⟩ := h
      exact ⟨[0x80 ||| 3], fun _ => rfl, decodeField_indexed 3 (by decide) rfl⟩
  · split
    · next h =>
        obtain ⟨rfl, rfl⟩ := h
        exact ⟨[0x80 ||| 6], fun _ => rfl, decodeField_indexed 6 (by decide) rfl⟩
    · split
      · next h =>
          obtain ⟨rfl, rfl⟩ := h
          exact ⟨[0x80 ||| 8], fun _ => rfl, decodeField_indexed 8 (by decide) rfl⟩
      · split
        · next h =>
            subst h
            refine ⟨4 :: stringLiteral value, fun buffer => ?_, fun rest => ?_⟩
            · rw [List.append_assoc, List.singleton_append]
            · exact decodeField_tableName 4 (by decide) (by decide) rfl value rest
        · split
          · next h =>
              subst h
              refine ⟨1 :: stringLiteral value, fun buffer => ?_, fun rest => ?_⟩
              · rw [List.append_assoc, List.singleton_append]
              · exact decodeField_tableName 1 (by decide) (by decide) rfl value rest
          · refine ⟨0 :: (stringLiteral name ++ stringLiteral value), fun buffer => ?_,
              fun rest => ?_⟩
            · rw [List.append_assoc, List.append_assoc, List.singleton_append]
            · rw [List.cons_append, List.append_assoc]
              exact decodeField_newName name value rest

/-- A block of fields is read back. -/
theorem foldl_encodeField {headers : List (Bytes × Bytes)}
    (h : ∀ field ∈ headers, field.1.length < 2 ^ 32 ∧ field.2.length < 2 ^ 32) :
    ∃ block, (∀ buffer, headers.foldl encodeField buffer = buffer ++ block) ∧
      decode block = some headers := by
  induction headers with
  | nil => exact ⟨[], fun buffer => (List.append_nil buffer).symm, decode_nil⟩
  | cons field headers ih =>
      obtain ⟨hname, hvalue⟩ := h field List.mem_cons_self
      obtain ⟨bytes, hbytes, hfield⟩ := encodeField_spec hname hvalue
      obtain ⟨block, hblock, hdecode⟩ := ih fun f hf => h f (List.mem_cons_of_mem _ hf)
      refine ⟨bytes ++ block, fun buffer => ?_, ?_⟩
      · rw [List.foldl_cons, hbytes, hblock, List.append_assoc]
      · rw [decode_of_field (hfield block), hdecode]
        rfl

end HpackEncoder

/-- **Header blocks are decodable.** A decoder of RFC 7541 reads what `Encode` writes for a map,
whole, as the entries of the map in order. What `EncodeInteger` writes into the clear low `n` bits
of a byte and behind it is read as its value, whatever follows; the other bits of the byte stay as
they were. -/
theorem hpack_decodable :
    (∀ headers : List (Bytes × Bytes),
      (∀ field ∈ headers, field.1.length < 2 ^ 32 ∧ field.2.length < 2 ^ 32) →
      HpackDecoder.decode (HpackEncoder.encode headers) = some headers) ∧
    ∀ (front : Bytes) (b : UInt8) (value : UInt32) (n : ℕ), n ≤ 8 → b.toNat % 2 ^ n = 0 →
      ∃ first more, HpackEncoder.encodeInteger (front ++ [b]) value n = front ++ first :: more ∧
        first.toNat / 2 ^ n = b.toNat / 2 ^ n ∧
        ∀ rest, PrefixInteger.decode n (first :: more ++ rest) = some (value.toNat, rest) := by
  constructor
  · intro headers h
    obtain ⟨block, hblock, hdecode⟩ := HpackEncoder.foldl_encodeField h
    rw [HpackEncoder.encode, hblock, List.nil_append, hdecode]
  · intro front b value n hn hb
    obtain ⟨first, more, hencode, hhigh⟩ := PrefixInteger.encode_eq_cons hn hb value.toNat
    refine ⟨first, more, ?_, hhigh, fun rest => ?_⟩
    · rw [HpackEncoder.encodeInteger_eq, hencode]
    · rw [← hencode]
      exact PrefixInteger.decode_encode hn hb value.toNat rest

/-- A field of the static table, one with a name from it and one with a name of its own; and the
length 1337 in five bits of a byte. -/
theorem hpack_decodable_request :
    let headers := [(bytesOf ":method", bytesOf "POST"), (bytesOf ":path", bytesOf "/a"),
      (bytesOf "te", bytesOf "trailers")]
    HpackDecoder.decode (HpackEncoder.encode headers) = some headers ∧
      ∃ first more, HpackEncoder.encodeInteger ([] ++ [0xE0]) 1337 5 = [] ++ first :: more ∧
        first.toNat / 2 ^ 5 = (0xE0 : UInt8).toNat / 2 ^ 5 ∧
        ∀ rest, PrefixInteger.decode 5 (first :: more ++ rest) = some ((1337 : UInt32).toNat, rest) :=
  ⟨hpack_decodable.1 _ (by decide), hpack_decodable.2 [] 0xE0 1337 5 (by decide) (by decide)⟩

end NetworkLib.Http2
