import NetworkLib.Protocols.HeaderFields
import NetworkLib.Protocols.WebSocket.Handler

/-! # WebSocket upgrade requests

What an upgrade request has to say, read off its header lines as the protocol describes them, and
what `OnMessage` makes of it. `Handshake::Process` asks for one thing only, a field that is spelled
`Sec-WebSocket-Key`, and its caller stops at a NUL byte and throws on a line that ends at its colon.
So a request is validated exactly when it can be read, and that one field is there if and only if
the request is an upgrade request (`validated_iff`). -/

namespace NetworkLib

open HttpResponse (toLower trim)

/-- The head of a request: the bytes in front of its first empty line. -/
structure RequestHead where
  text : Bytes
  complete : search Handshake.headerEnd (text ++ Handshake.headerEnd) = some text.length

namespace RequestHead

variable (head : RequestHead)

/-- The bytes of the head, with the empty line. -/
def bytes : Bytes := head.text ++ Handshake.headerEnd

/-- The request line and the header lines. -/
def lines : List Bytes := Buffer.lines (head.text ++ Buffer.kCRLF)

/-- The header fields with a name, in any letter case; the name is given in lower case. -/
def named (name : Bytes) : List (Bytes × Bytes) := fieldsNamed name head.lines.tail

/-- The members of a comma-separated list, in lower case and without the blanks around them. -/
def members (value : Bytes) : List Bytes :=
  (value.splitOn 44).map fun member => (trim member).map toLower

/-- **The request is a valid upgrade request.** -/
def Valid : Prop :=
  (head.lines.headD []).takeWhile (· ≠ 32) = bytesOf "GET" ∧
    (∃ field ∈ head.named (bytesOf "upgrade"), bytesOf "websocket" ∈ members field.2) ∧
    (∃ field ∈ head.named (bytesOf "connection"), bytesOf "upgrade" ∈ members field.2) ∧
    (∃ field ∈ head.named (bytesOf "sec-websocket-version"), trim field.2 = bytesOf "13") ∧
    head.named (bytesOf "sec-websocket-key") ≠ []

instance : Decidable head.Valid := inferInstanceAs (Decidable (_ ∧ _))

/-- The handshake can read the head: no NUL byte ends it early, and no line throws. -/
def Legible : Prop :=
  (0 : UInt8) ∉ head.text ∧ ∀ line ∈ Handshake.headerLines head.text, ¬ EndsAtColon line

instance : Decidable head.Legible := inferInstanceAs (Decidable (_ ∧ _))

/-- Some line of the head is a field spelled `Sec-WebSocket-Key`. -/
def Keyed : Prop :=
  ∃ field ∈ fieldsOf (Handshake.headerLines head.text), field.1 = bytesOf "Sec-WebSocket-Key"

instance : Decidable head.Keyed := inferInstanceAs (Decidable (∃ _ ∈ _, _))

end RequestHead

namespace Handshake

variable {head : RequestHead}

/-- Without a NUL byte the head is found, whatever follows it. -/
theorem headerStr_bytes (hnul : (0 : UInt8) ∉ head.text) (more : Bytes) :
    headerStr (head.bytes ++ more) = some head.text := by
  have hnul' : (0 : UInt8) ∉ head.bytes := by
    rw [RequestHead.bytes, List.mem_append, not_or]
    exact ⟨hnul, by decide⟩
  rw [headerStr, strstr_of_search hnul' more head.complete, Option.map_some, RequestHead.bytes,
    List.append_assoc, List.take_left]

/-- A NUL byte hides the end of the head. -/
theorem headerStr_eq_none (hnul : (0 : UInt8) ∈ head.text) (more : Bytes) :
    headerStr (head.bytes ++ more) = none := by
  have hshort : ¬ (head.text.takeWhile (· ≠ 0)).length = head.text.length := by
    intro hlen
    have hall : head.text.takeWhile (· ≠ 0) = head.text :=
      (List.takeWhile_prefix _).eq_of_length hlen
    rw [← hall] at hnul
    simpa using List.mem_takeWhile_imp hnul
  rw [headerStr, strstr, RequestHead.bytes, List.append_assoc, List.takeWhile_append,
    if_neg hshort, Option.map_eq_none_iff]
  by_contra hfound
  -- a match in front of the NUL byte would be an earlier empty line
  obtain ⟨i, hi⟩ := Option.ne_none_iff_exists'.mp hfound
  have hle := search_add_length_le hi
  have hfirst := search_append (head.text.dropWhile (· ≠ 0) ++ headerEnd) hi
  rw [← List.append_assoc, List.takeWhile_append_dropWhile, head.complete, Option.some_inj] at hfirst
  have hprefix := (List.takeWhile_prefix (p := (· ≠ 0)) (l := head.text)).length_le
  have hfour : headerEnd.length = 4 := rfl
  omega

/-- Header lines that do not throw are stored one after another. -/
theorem foldlM_storeHeader_eq {lines : List Bytes} (h : ∀ line ∈ lines, ¬ EndsAtColon line)
    (headers : StringMap) :
    lines.foldlM storeHeader headers = some (lines.foldl withHeader headers) := by
  induction lines generalizing headers with
  | nil => rfl
  | cons line lines ih =>
      rw [List.foldlM_cons, storeHeader_of_not_endsAtColon (h line List.mem_cons_self)]
      exact ih (fun line' hline' => h line' (List.mem_cons_of_mem _ hline')) _

/-- **`Process` asks for the key only.** -/
theorem process_isSome_iff (digest : Bytes → Bytes) (hlegible : head.Legible) :
    (process digest ((headerLines head.text).foldl withHeader ∅)).isSome ↔ head.Keyed := by
  rw [process, Option.isSome_map, lookup_foldl_withHeader hlegible.2, Option.isSome_map,
    List.getLast?_isSome, RequestHead.Keyed, ne_eq, List.filter_eq_nil_iff]
  simp

end Handshake

namespace WebSocketHandler

variable {σ : Type*} (digest : Bytes → Bytes) (h : ProtocolHandler σ)

/-- The connection is answered with `101 Switching Protocols` and is marked as upgraded. -/
def Upgrades (s : Session σ) (r : Session σ × WebSocketHandler × Buffer) : Prop :=
  r.2.1.isUpgraded = true ∧
    ∃ acceptKey, r.1.calls = s.calls ++ [.send (Handshake.generateResponse acceptKey)]

/-- The connection is answered with `400 Bad Request` and is closed. -/
def Refuses (s : Session σ) (r : Session σ × WebSocketHandler × Buffer) : Prop :=
  r.2.1.isUpgraded = false ∧
    r.1.calls = s.calls ++ [.send (bytesOf "HTTP/1.1 400 Bad Request\r\n\r\n"), .forceClose]

/-- **The request is validated**: it is upgraded if it is a valid upgrade request, and refused
otherwise. -/
def Validated (head : RequestHead) (s : Session σ) (r : Session σ × WebSocketHandler × Buffer) :
    Prop :=
  (Upgrades s r ↔ head.Valid) ∧ (¬ head.Valid → Refuses s r)

variable {head : RequestHead}

/-- A head with a NUL byte is waited on for ever. -/
theorem onHandshake_nul (hnul : (0 : UInt8) ∈ head.text) (s : Session σ) (w : WebSocketHandler)
    (rest beyond : Bytes) :
    onHandshake digest (s, w, head.bytes ++ rest) beyond = (s, w, head.bytes ++ rest) := by
  simp only [onHandshake, List.append_assoc, Handshake.headerStr_eq_none hnul]

/-- What is left of the buffer when the head has been retrieved. -/
theorem retrieve_bytes (head : RequestHead) (rest : Bytes) :
    Buffer.retrieve (head.bytes ++ rest) (head.text.length + 4) = rest := by
  have hlen : head.text.length + 4 = head.bytes.length := by
    rw [RequestHead.bytes, List.length_append]
    rfl
  rw [Buffer.retrieve_eq_drop, hlen, List.drop_left]

/-- A line that ends at its first colon throws. -/
theorem onHandshake_throws (hnul : (0 : UInt8) ∉ head.text)
    (hcolon : ∃ line ∈ Handshake.headerLines head.text, EndsAtColon line) (s : Session σ)
    (w : WebSocketHandler) (rest beyond : Bytes) :
    onHandshake digest (s, w, head.bytes ++ rest) beyond
      = ({ s with thrown := some .stdException }, w, rest) := by
  have hread := (Handshake.readHeaders_eq_none_iff head.text).mpr hcolon
  simp only [onHandshake, List.append_assoc, Handshake.headerStr_bytes hnul, hread, retrieve_bytes]

/-- A head with a key is answered. -/
theorem onHandshake_keyed (hlegible : head.Legible) (hkeyed : head.Keyed) (s : Session σ)
    (w : WebSocketHandler) (rest beyond : Bytes) :
    ∃ acceptKey, onHandshake digest (s, w, head.bytes ++ rest) beyond
      = (s.push [.send (Handshake.generateResponse acceptKey)], { w with isUpgraded := true },
          rest) := by
  have hread : Handshake.readHeaders head.text = _ :=
    Handshake.foldlM_storeHeader_eq hlegible.2 ∅
  obtain ⟨key, hkey⟩ := Option.isSome_iff_exists.mp
    ((Handshake.process_isSome_iff digest hlegible).mpr hkeyed)
  refine ⟨key, ?_⟩
  simp only [onHandshake, List.append_assoc, Handshake.headerStr_bytes hlegible.1, hread, hkey,
    retrieve_bytes]

/-- A head without a key is refused. -/
theorem onHandshake_unkeyed (hlegible : head.Legible) (hkeyed : ¬ head.Keyed) (s : Session σ)
    (w : WebSocketHandler) (rest beyond : Bytes) :
    onHandshake digest (s, w, head.bytes ++ rest) beyond
      = (s.push [.send (bytesOf "HTTP/1.1 400 Bad Request\r\n\r\n"), .forceClose], w, rest) := by
  have hread : Handshake.readHeaders head.text = _ :=
    Handshake.foldlM_storeHeader_eq hlegible.2 ∅
  have hkey : Handshake.process digest
      ((Handshake.headerLines head.text).foldl withHeader ∅) = none := by
    rw [← Option.not_isSome_iff_eq_none, Handshake.process_isSome_iff digest hlegible]
    exact hkeyed
  simp only [onHandshake, List.append_assoc, Handshake.headerStr_bytes hlegible.1, hread, hkey,
    retrieve_bytes]

/-- A call that answers nothing validates no request. -/
theorem not_validated_of_calls {s : Session σ} {r : Session σ × WebSocketHandler × Buffer}
    (hcalls : r.1.calls = s.calls) : ¬ Validated head s r := by
  rintro ⟨hup, hrefuse⟩
  by_cases hvalid : head.Valid
  · obtain ⟨-, acceptKey, hsend⟩ := hup.mpr hvalid
    rw [hcalls] at hsend
    simp at hsend
  · have hsend := (hrefuse hvalid).2
    rw [hcalls] at hsend
    simp at hsend

/-- **When upgrade requests are validated**: exactly when the head can be read, and has a field
spelled `Sec-WebSocket-Key` if and only if it is a valid upgrade request. -/
theorem validated_iff (head : RequestHead) (s : Session σ) (parser : FrameParser)
    (rest beyond : Bytes) :
    Validated head s (onMessage digest h (s, { parser }, head.bytes ++ rest) beyond) ↔
      head.Legible ∧ (head.Keyed ↔ head.Valid) := by
  have honMessage : onMessage digest h (s, { parser }, head.bytes ++ rest) beyond
      = onHandshake digest (s.enter, { parser }, head.bytes ++ rest) beyond := rfl
  rw [honMessage]
  -- A NUL byte cuts the text, a line that ends at its colon throws, and else the key alone decides.
  by_cases hnul : (0 : UInt8) ∈ head.text
  · rw [onHandshake_nul digest hnul]
    exact iff_of_false (not_validated_of_calls rfl) fun hall => hall.1.1 hnul
  by_cases hcolon : ∃ line ∈ Handshake.headerLines head.text, EndsAtColon line
  · rw [onHandshake_throws digest hnul hcolon]
    refine iff_of_false (not_validated_of_calls rfl) fun hall => ?_
    obtain ⟨line, hline, hends⟩ := hcolon
    exact hall.1.2 line hline hends
  have hlegible : head.Legible := ⟨hnul, fun line hline hends => hcolon ⟨line, hline, hends⟩⟩
  rw [and_iff_right hlegible]
  by_cases hkeyed : head.Keyed
  · obtain ⟨acceptKey, hr⟩ := onHandshake_keyed digest hlegible hkeyed s.enter { parser } rest beyond
    have hup : Upgrades s (onHandshake digest (s.enter, { parser }, head.bytes ++ rest) beyond) := by
      rw [hr]
      exact ⟨rfl, acceptKey, rfl⟩
    rw [Validated, iff_true_left hup, iff_true_left hkeyed]
    exact ⟨And.left, fun hvalid => ⟨hvalid, fun hinvalid => absurd hvalid hinvalid⟩⟩
  · have hr := onHandshake_unkeyed digest hlegible hkeyed s.enter { parser } rest beyond
    have hrefuse : Refuses s (onHandshake digest (s.enter, { parser }, head.bytes ++ rest) beyond) := by
      rw [hr]
      exact ⟨rfl, rfl⟩
    have hup : ¬ Upgrades s (onHandshake digest (s.enter, { parser }, head.bytes ++ rest) beyond) := by
      rintro ⟨hflag, -⟩
      rw [hrefuse.1] at hflag
      cases hflag
    rw [Validated, iff_false_left hup, iff_false_left hkeyed]
    exact ⟨And.left, fun hinvalid => ⟨hinvalid, fun _ => hrefuse⟩⟩

/-- A valid upgrade request that spells its header names in lower case. -/
def lowerCaseHead : RequestHead where
  text := bytesOf "GET / HTTP/1.1\r\nHost: a\r\nupgrade: websocket\r\nconnection: Upgrade\r\n" ++
    bytesOf "sec-websocket-version: 13\r\nsec-websocket-key: dGhl"
  complete := by decide +kernel

/-- The request is valid, and is refused. -/
theorem validated_fails_on_lower_case :
    let s : Session Unit := { app := () }
    lowerCaseHead.Valid ∧
      ¬ Validated lowerCaseHead s (onMessage id {} (s, {}, lowerCaseHead.bytes) []) := by
  have hvalid : lowerCaseHead.Valid := by decide +kernel
  refine ⟨hvalid, fun hall => ?_⟩
  have hflag := (hall.1.mpr hvalid).1
  revert hflag
  decide +kernel

end WebSocketHandler

end NetworkLib
