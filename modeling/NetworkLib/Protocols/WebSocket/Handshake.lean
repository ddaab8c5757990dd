import NetworkLib.Memory.Buffer
import NetworkLib.Protocols.HeaderText

/-! # The WebSocket handshake

How the upgrade request is found in the input buffer and read, and what `Handshake` makes of its
headers. The search for its end is a `strstr`: it stops at a NUL byte and not at the end of the
readable bytes, so it is given the memory from the reader index on. -/

namespace NetworkLib

/-- `strstr`, on the memory the pointer points into. -/
def strstr (memory needle : Bytes) : Option ℕ := search needle (memory.takeWhile (· ≠ 0))

/-- A match inside the readable bytes is one of theirs. -/
theorem search_of_strstr {buf beyond needle : Bytes} {i : ℕ}
    (h : strstr (buf ++ beyond) needle = some i) (hi : i + needle.length ≤ buf.length) :
    search needle buf = some i := by
  have htake : search needle (((buf ++ beyond).takeWhile (· ≠ 0)).take (i + needle.length))
      = some i := search_take h le_rfl
  have hfront : ((buf ++ beyond).takeWhile (· ≠ 0)).take (i + needle.length) <+: buf := by
    refine List.prefix_of_prefix_length_le
      ((List.take_prefix _ _).trans (List.takeWhile_prefix _)) (List.prefix_append buf beyond) ?_
    exact (List.length_take_le _ _).trans hi
  obtain ⟨rest, hrest⟩ := hfront
  rw [← hrest]
  exact search_append rest htake

/-- A match among bytes without a NUL is found, whatever follows them. -/
theorem strstr_of_search {buf needle : Bytes} {i : ℕ} (hnul : (0 : UInt8) ∉ buf) (beyond : Bytes)
    (h : search needle buf = some i) : strstr (buf ++ beyond) needle = some i := by
  have hall : ∀ b ∈ buf, decide (b ≠ 0) = true := by
    intro b hb
    rw [decide_eq_true_eq]
    rintro rfl
    exact hnul hb
  rw [strstr, List.takeWhile_append_of_pos hall]
  exact search_append _ h

/-- The lines `std::getline` takes from a string one after another. -/
def getlines (s : Bytes) : List Bytes :=
  let lines := s.splitOn 10
  if lines.getLast? = some [] then lines.dropLast else lines

namespace Handshake

/-- The end of the upgrade request. -/
def headerEnd : Bytes := Buffer.kCRLF ++ Buffer.kCRLF

/-- The bytes in front of the end of the upgrade request, once it is found in the memory from the
reader index on. -/
def headerStr (memory : Bytes) : Option Bytes := (strstr memory headerEnd).map fun i => memory.take i

/-- The lines read as headers: those before a line that is a lone CR. -/
def headerLines (header : Bytes) : List Bytes := (getlines header).takeWhile (· ≠ [13])

/-- Read the headers; `none` when `substr` throws. -/
def readHeaders (header : Bytes) : Option StringMap := (headerLines header).foldlM storeHeader ∅

def kGuid : Bytes := bytesOf "258EAFA5-E914-47DA-95CA-C5AB0DC85B11"

/-- `Process`: the accept value, or `none` without a `Sec-WebSocket-Key`. The function `digest` is
SHA-1 followed by Base64. -/
def process (digest : Bytes → Bytes) (headers : StringMap) : Option Bytes :=
  (headers.lookup (bytesOf "Sec-WebSocket-Key")).map fun key => digest (key ++ kGuid)

/-- `GenerateResponse`. -/
def generateResponse (acceptKey : Bytes) : Bytes :=
  bytesOf "HTTP/1.1 101 Switching Protocols\r\nUpgrade: websocket\r\nConnection: Upgrade\r\n" ++
    bytesOf "Sec-WebSocket-Accept: " ++ acceptKey ++ bytesOf "\r\n\r\n"

/-- Reading headers throws exactly when some line ends at its first colon. -/
theorem foldlM_storeHeader_eq_none_iff (headers : StringMap) (lines : List Bytes) :
    lines.foldlM storeHeader headers = none ↔ ∃ line ∈ lines, EndsAtColon line := by
  induction lines generalizing headers with
  | nil => simp
  | cons line lines ih =>
      rw [List.foldlM_cons, Option.bind_eq_bind, List.exists_mem_cons_iff]
      cases hs : storeHeader headers line with
      | none => simp [storeHeader_eq_none_iff.mp hs]
      | some m =>
          have hline : ¬ EndsAtColon line := fun he => by
            rw [storeHeader_eq_none_iff.mpr he] at hs
            cases hs
          rw [Option.bind_some, ih, or_iff_right hline]

/-- The headers throw exactly if a line of them ends at its colon. -/
theorem readHeaders_eq_none_iff (header : Bytes) :
    readHeaders header = none ↔ ∃ line ∈ headerLines header, EndsAtColon line :=
  foldlM_storeHeader_eq_none_iff ∅ _

end Handshake

end NetworkLib
