import NetworkLib.Memory.Buffer
import NetworkLib.Protocols.HeaderText
import NetworkLib.Theory.Numerals
import Mathlib.Data.List.TakeWhile

/-! # HTTP/1.1 responses

A reader of HTTP/1.1 responses, as the standard describes one: a status line, header fields up to an
empty line, and a body which is chunked, or has the announced length, or goes on until the
connection ends. It says what is well formed; nothing here is taken from the server or its
client. -/

namespace NetworkLib

/-- A response: its status, its header fields by lower-case name, and its body. -/
structure HttpResponse where
  status : ℕ
  fields : List (Bytes × Bytes)
  body : Bytes
  deriving DecidableEq

namespace HttpResponse

/-! ## Lines and fields -/

/-- The first line, without its CR LF, and what follows it. -/
def splitLine (bs : Bytes) : Option (Bytes × Bytes) :=
  (search Buffer.kCRLF bs).map fun i => (bs.take i, bs.drop (i + 2))

/-- A line without a CR is split off at its CR LF. -/
theorem splitLine_line {line : Bytes} (h : (13 : UInt8) ∉ line) (rest : Bytes) :
    splitLine (line ++ Buffer.kCRLF ++ rest) = some (line, rest) := by
  rw [splitLine, show search Buffer.kCRLF (line ++ Buffer.kCRLF ++ rest) = some line.length from
    search_line line rest h, Option.map_some, List.append_assoc, List.take_left, ← List.append_assoc,
    show line.length + 2 = (line ++ Buffer.kCRLF).length by simp [Buffer.kCRLF], List.drop_left]

/-- A line takes bytes. -/
theorem length_of_splitLine {bs line rest : Bytes} (h : splitLine bs = some (line, rest)) :
    rest.length < bs.length := by
  obtain ⟨i, hi, hsplit⟩ := Option.map_eq_some_iff.mp h
  have hle : i + 2 ≤ bs.length := search_add_length_le hi
  cases hsplit
  rw [List.length_drop]
  omega

/-- An ASCII letter in lower case. -/
def toLower (b : UInt8) : UInt8 := if 65 ≤ b && b ≤ 90 then b + 32 else b

/-- A byte that may stand in a field name. -/
def isTokenChar (b : UInt8) : Bool := 33 ≤ b && b ≤ 126 && b ∉ bytesOf "\"(),/:;<=>?@[\\]\x7b\x7d"

/-- The optional white space around a field value. -/
def isBlank (b : UInt8) : Bool := b = 32 || b = 9

/-- A field value without the white space around it. -/
def trim (value : Bytes) : Bytes :=
  ((value.dropWhile isBlank).reverse.dropWhile isBlank).reverse

/-- A field line: a name of token characters, a colon, and the value without the white space around
it. -/
def fieldOf (line : Bytes) : Option (Bytes × Bytes) :=
  match search [colon] line with
  | none => none
  | some i =>
      let name := line.take i
      if name ≠ [] ∧ name.all isTokenChar then
        some (name.map toLower, trim (line.drop (i + 1)))
      else none

/-- The field lines up to the empty line, and what follows it. -/
def readFields (bs : Bytes) : Option (List (Bytes × Bytes) × Bytes) :=
  match _h : splitLine bs with
  | none => none
  | some (line, rest) =>
      if line = [] then some ([], rest)
      else
        match fieldOf line with
        | none => none
        | some field => (readFields rest).map fun p => (field :: p.1, p.2)
termination_by bs.length
decreasing_by exact length_of_splitLine ‹_›

/-- A blank line ends the fields. -/
theorem readFields_empty (rest : Bytes) : readFields (Buffer.kCRLF ++ rest) = some ([], rest) := by
  have hline : splitLine (Buffer.kCRLF ++ rest) = some ([], rest) :=
    splitLine_line (List.not_mem_nil) rest
  rw [readFields]
  split
  · next h => rw [hline] at h; cases h
  · next h => rw [hline] at h; cases h; rfl

/-- The first field is read off the front. -/
theorem readFields_line {line : Bytes} {field : Bytes × Bytes} (hline : (13 : UInt8) ∉ line)
    (hne : line ≠ []) (hfield : fieldOf line = some field) (rest : Bytes) :
    readFields (line ++ Buffer.kCRLF ++ rest)
      = (readFields rest).map fun p => (field :: p.1, p.2) := by
  have hsplit := splitLine_line hline rest
  rw [readFields]
  split
  · next h => rw [hsplit] at h; cases h
  · next h =>
      rw [hsplit] at h
      cases h
      rw [if_neg hne, hfield]

/-! ## Bodies -/

/-- The value of a hexadecimal digit. -/
def hexValue (b : UInt8) : Option ℕ :=
  if 48 ≤ b && b ≤ 57 then some (b.toNat - 48)
  else if 97 ≤ b && b ≤ 102 then some (b.toNat - 87)
  else if 65 ≤ b && b ≤ 70 then some (b.toNat - 55)
  else none

/-- The size in a chunk's first line, which an extension may follow. -/
def chunkSize (line : Bytes) : Option ℕ :=
  let digits := line.takeWhile fun b => (hexValue b).isSome
  let extension := line.dropWhile fun b => (hexValue b).isSome
  if digits ≠ [] ∧ (extension.head?.all fun b => b = 59 || isBlank b) then
    some (ofNumeral (fun b => (hexValue b).getD 0) 16 digits)
  else none

/-- The chunks up to the last one and its trailer: their data, and what follows. -/
def readChunks (bs : Bytes) : Option (Bytes × Bytes) :=
  match _h : splitLine bs with
  | none => none
  | some (line, rest) =>
      match chunkSize line with
      | none => none
      | some 0 => (readFields rest).map fun p => ([], p.2)
      | some (n + 1) =>
          if Buffer.kCRLF <+: rest.drop (n + 1) then
            (readChunks (rest.drop (n + 3))).map fun p => (rest.take (n + 1) ++ p.1, p.2)
          else none
termination_by bs.length
decreasing_by
  have hlt := length_of_splitLine ‹_›
  rw [List.length_drop]
  omega

/-- The first chunk is read off the front. -/
theorem readChunks_line {line : Bytes} (hline : (13 : UInt8) ∉ line) (rest : Bytes) :
    readChunks (line ++ Buffer.kCRLF ++ rest) =
      match chunkSize line with
      | none => none
      | some 0 => (readFields rest).map fun p => ([], p.2)
      | some (n + 1) =>
          if Buffer.kCRLF <+: rest.drop (n + 1) then
            (readChunks (rest.drop (n + 3))).map fun p => (rest.take (n + 1) ++ p.1, p.2)
          else none := by
  have hsplit := splitLine_line hline rest
  rw [readChunks]
  split
  · next h => rw [hsplit] at h; cases h
  · next h => rw [hsplit] at h; cases h; rfl

/-- A chunk whose first line announces its data is read off, whatever follows. -/
theorem readChunks_chunk {line data : Bytes} (hline : (13 : UInt8) ∉ line)
    (hsize : chunkSize line = some data.length) (hdata : data ≠ []) (rest : Bytes) :
    readChunks (line ++ Buffer.kCRLF ++ data ++ Buffer.kCRLF ++ rest)
      = (readChunks rest).map fun p => (data ++ p.1, p.2) := by
  obtain ⟨n, hn⟩ := Nat.exists_eq_add_one_of_ne_zero fun h => hdata (List.eq_nil_of_length_eq_zero h)
  have hdrop : (data ++ (Buffer.kCRLF ++ rest)).drop (n + 1) = Buffer.kCRLF ++ rest := by
    rw [← hn, List.drop_left]
  have hrest : (data ++ (Buffer.kCRLF ++ rest)).drop (n + 3) = rest := by
    rw [show n + 3 = (n + 1) + 2 from rfl, ← List.drop_drop, hdrop]
    rfl
  rw [List.append_assoc, List.append_assoc, readChunks_line hline, hsize, hn]
  simp only [hdrop, hrest, List.prefix_append, if_true]
  rw [← hn, List.take_left]

/-- **The last chunk ends the body.** -/
theorem readChunks_last (rest : Bytes) :
    readChunks (bytesOf "0\r\n\r\n" ++ rest) = some ([], rest) := by
  rw [show bytesOf "0\r\n\r\n" ++ rest = bytesOf "0" ++ Buffer.kCRLF ++ (Buffer.kCRLF ++ rest) from rfl,
    readChunks_line (by decide), show chunkSize (bytesOf "0") = some 0 by decide]
  simp only [readFields_empty, Option.map_some]

/-- The body of a response with these fields, and what follows it. -/
def readBody (fields : List (Bytes × Bytes)) (bs : Bytes) : Option (Bytes × Bytes) :=
  match fields.lookup (bytesOf "transfer-encoding") with
  | some coding => if coding.map toLower = bytesOf "chunked" then readChunks bs else none
  | none =>
      match fields.lookup (bytesOf "content-length") with
      | some digits =>
          let len := ofDigits digits
          if digits ≠ [] ∧ digits.all isDigit ∧ len ≤ bs.length then
            some (bs.take len, bs.drop len)
          else none
      | none => some (bs, [])

/-! ## Responses -/

/-- The status in a status line: `HTTP/1.1`, three digits, and a reason. -/
def statusOf (line : Bytes) : Option ℕ :=
  let status := (line.drop 9).take 3
  if bytesOf "HTTP/1.1 " <+: line ∧ status.all isDigit ∧ (line.drop 12).head? = some 32 then
    some (ofDigits status)
  else none

/-- One response, and what follows it. -/
def read (bs : Bytes) : Option (HttpResponse × Bytes) := do
  let (line, rest) ← splitLine bs
  let status ← statusOf line
  let (fields, rest) ← readFields rest
  let (body, rest) ← readBody fields rest
  return ({ status, fields, body }, rest)

/-- A response is read part by part: its line, its fields and its body. -/
theorem read_eq {line block rest : Bytes} {status : ℕ} {fields : List (Bytes × Bytes)}
    (hline : (13 : UInt8) ∉ line) (hstatus : statusOf line = some status)
    (hfields : readFields block = some (fields, rest)) :
    read (line ++ Buffer.kCRLF ++ block)
      = (readBody fields rest).map fun p => (⟨status, fields, p.1⟩, p.2) := by
  rw [read, splitLine_line hline]
  simp only [Option.bind_eq_bind, Option.bind_some, hstatus, hfields]
  cases readBody fields rest <;> rfl

/-- The bytes are one response, the whole of it and nothing else. -/
def Complete (bs body : Bytes) : Prop := ∃ r, read bs = some (r, []) ∧ r.body = body

end HttpResponse

end NetworkLib
