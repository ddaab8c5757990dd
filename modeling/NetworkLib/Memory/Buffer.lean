import NetworkLib.Theory.NetworkOrder
import NetworkLib.Theory.Search

/-! # The I/O buffer

A `Buffer` is seen by its clients as the byte string between its reader and writer index: `Peek` and
`ReadableBytes` read that string, `Append` extends it at the back and `Retrieve` drops from its
front. The model keeps the readable bytes only. -/

namespace NetworkLib

/-- The readable bytes of a `Buffer`, from the reader index to the writer index. -/
abbrev Buffer := Bytes

namespace Buffer

/-- `Append`: the readable bytes grow at the back. -/
def append (buf : Buffer) (data : Bytes) : Buffer := buf ++ data

/-- `Retrieve`: drop `len` bytes from the front; asking for all of them, or for more, resets both
indices. -/
def retrieve (buf : Buffer) (len : ℕ) : Buffer := if len < buf.length then buf.drop len else []

/-- `RetrieveAll`. -/
def retrieveAll (_ : Buffer) : Buffer := []

/-- The carriage return and line feed bytes. -/
def kCRLF : Bytes := [13, 10]

/-- `FindCRLF`: the offset of the first CR LF inside the readable bytes. -/
def findCRLF (buf : Buffer) : Option ℕ := search kCRLF buf

/-- The CR LF lines complete in a byte string, without their CR LF. -/
def lines (bs : Bytes) : List Bytes := delimited 13 [10] bs

/-- Without a CRLF there is no line. -/
theorem lines_of_none {buf : Buffer} (h : findCRLF buf = none) : lines buf = [] :=
  delimited_of_none h

/-- The first line ends at the first CRLF. -/
theorem lines_of_some {buf : Buffer} {i : ℕ} (h : findCRLF buf = some i) :
    lines buf = buf.take i :: lines (buf.drop (i + 2)) := delimited_of_some h

@[simp] theorem append_eq (buf : Buffer) (data : Bytes) : append buf data = buf ++ data := rfl

@[simp] theorem retrieve_eq_drop (buf : Buffer) (len : ℕ) : retrieve buf len = buf.drop len := by
  unfold retrieve
  split
  · rfl
  · next h => exact (List.drop_eq_nil_of_le (Nat.le_of_not_lt h)).symm

/-- A CR LF found leaves room for itself. -/
theorem findCRLF_add_two_le {buf : Buffer} {i : ℕ} (h : findCRLF buf = some i) :
    i + 2 ≤ buf.length := search_add_length_le h

/-- A CR LF found stays the first one when more bytes are appended. -/
theorem findCRLF_append {buf : Buffer} {i : ℕ} (data : Bytes) (h : findCRLF buf = some i) :
    findCRLF (buf ++ data) = some i := search_append data h

/-- A line without a CR LF ends at its CR LF. -/
theorem findCRLF_line {line : Bytes} (h : ¬ kCRLF <:+: line) (rest : Bytes) :
    findCRLF (line ++ kCRLF ++ rest) = some line.length :=
  search_line_pair (by decide) (search_eq_none_iff.mpr h) rest

/-- The bytes in front of the first CR LF hold none. -/
theorem crlf_not_infix_take {buf : Buffer} {i : ℕ} (h : findCRLF buf = some i) :
    ¬ kCRLF <:+: buf.take i := search_eq_none_iff.mp (search_take_self h (by decide))

/-- There is no CRLF without a carriage return. -/
theorem crlf_not_infix_of_not_mem {line : Bytes} (h : (13 : UInt8) ∉ line) :
    ¬ kCRLF <:+: line := fun hcrlf => h (hcrlf.subset List.mem_cons_self)

end Buffer

end NetworkLib
