import NetworkLib.Client.WebSocketProtocol
import NetworkLib.Protocols.WebSocket.Framing
import NetworkLib.Protocols.WebSocket.Handler

/-! # The two WebSocket encoders and the frame parser

`WebSocketStreamContext::Write` and `WebSocketClientProtocol::Send` write a text frame each, with a
length encoder of their own, and `FrameParser` reads both. The server writes the 64-bit length least
significant byte first, and the parser refuses what it reads there (`write_parsesTo_iff`). The
client keeps seven bits of any length, so the parser takes its codes 126 and 127 for extended
lengths, and the frame ends too early for every longer payload (`send_parsesTo_iff`). -/

namespace NetworkLib

namespace FrameParser

/-- A fresh parser, given the bytes in one piece, returns the frame and has consumed them all. -/
def ParsesTo (bytes : Bytes) (frame : Frame) : Prop :=
  (parse bytes {}).2 = some (bytes.length, frame)

instance (bytes : Bytes) (frame : Frame) : Decidable (ParsesTo bytes frame) :=
  inferInstanceAs (Decidable (_ = _))

/-- The bytes of a frame of the wire parse to the frame. -/
theorem parsesTo_wire (f : WireFrame) : ParsesTo f.wire f.frame := by
  obtain ⟨q, hq⟩ := parse_wire (p := {}) rfl f []
  rw [List.append_nil] at hq
  rw [ParsesTo, hq]

/-- A refused length stops the length stage. -/
theorem parseLength_refused {data : Bytes} {p : FrameParser} {offset : ℕ}
    (hs : p.state = .kPayloadLength) (hneeded : p.bytesNeeded = 8)
    (hlen : 8 ≤ data.length - offset)
    (hbig : 1024 * 1024 * 1024 < ofBigEndian ((data.drop offset).take 8)) :
    parseLength data p offset = (p, none) := by
  rw [parseLength, if_pos hs, hneeded, if_neg (Nat.not_lt.mpr hlen), if_neg (by norm_num)]
  simp only [if_pos hbig, ite_self]

/-- **A frame that announces more than 1 GiB is not parsed.** -/
theorem parse_refused {p : FrameParser} (hp : p.state = .kHeader) {byte1 byte2 : UInt8}
    (hcode : byte2 &&& 0x7F = 127) {length rest : Bytes} (hlen : length.length = 8)
    (hbig : 1024 * 1024 * 1024 < ofBigEndian length) :
    (parse (byte1 :: byte2 :: (length ++ rest)) p).2 = none := by
  rw [parse_of_header hp (by simp)]
  simp only [List.getD_cons_zero, List.getD_cons_succ, parseRest]
  have hstate : (p.withHeader byte1 byte2).state = .kPayloadLength := by
    simp [withHeader, hcode]
  have hneeded : (p.withHeader byte1 byte2).bytesNeeded = 8 := by
    simp [withHeader, hcode]
  have htake : ((byte1 :: byte2 :: (length ++ rest)).drop 2).take 8 = length := by
    rw [← hlen]
    exact List.take_left
  rw [parseLength_refused hstate hneeded (by simp [hlen]) (by rw [htake]; exact hbig)]

end FrameParser

/-! ## The server's encoder -/

namespace WebSocketStreamContext

open FrameParser

/-- A payload below 64 KiB is sent as the frame of the wire. -/
theorem textFrame_eq_wire {payload : Bytes} (h : payload.length < 65536) :
    textFrame payload
      = WireFrame.wire ⟨true, 1, none, payload, h.le.trans (by decide)⟩ := by
  have hbits : (0x81 : UInt8) = 0x80 ||| 1 := by decide
  simp only [textFrame, WireFrame.wire, WireFrame.byte1, WireFrame.byte2, WireFrame.extended,
    WireFrame.lenCode, WireFrame.key, WireFrame.body, if_pos h]
  by_cases h126 : payload.length < 126
  · rw [if_pos h126, if_pos h126, if_pos h126]
    simp [hbits]
  · rw [if_neg h126, if_neg h126, if_neg h126]
    simp [hbits, bigEndian, Nat.shiftRight_eq_div_pow]

/-- From 64 KiB on the length is written least significant byte first, and is read as more than
1 GiB. -/
theorem lt_ofBigEndian_length {len : ℕ} (hlo : 65536 ≤ len) (hhi : len < 2 ^ 32) :
    1024 * 1024 * 1024
      < ofBigEndian ((List.range 8).map fun k => UInt8.ofNat (len >>> (8 * k))) := by
  have hbyte (k : ℕ) : (UInt8.ofNat (len >>> (8 * k))).toNat = len / 2 ^ (8 * k) % 256 := by
    rw [UInt8.toNat_ofNat', Nat.shiftRight_eq_div_pow]
  simp only [List.range, List.range.loop, List.map_cons, List.map_nil, ofBigEndian_cons,
    ofBigEndian_nil, hbyte, List.length_cons, List.length_nil]
  -- the third and the fourth byte are read as multiples of `2 ^ 40` and `2 ^ 32`
  have hhigh : 1 ≤ len / 2 ^ (8 * 2) % 256 + len / 2 ^ (8 * 3) % 256 := by omega
  generalize len / 2 ^ (8 * 2) % 256 = b2 at hhigh ⊢
  generalize len / 2 ^ (8 * 3) % 256 = b3 at hhigh ⊢
  norm_num
  omega

/-- Such a frame is not parsed. -/
theorem parse_textFrame_long {payload : Bytes} (hlo : 65536 ≤ payload.length)
    (hhi : payload.length < 2 ^ 32) : (parse (textFrame payload) {}).2 = none := by
  have hread := lt_ofBigEndian_length hlo hhi
  have hframe : textFrame payload
      = (0x81 : UInt8) :: 127 :: (((List.range 8).map fun k => UInt8.ofNat (payload.length >>> (8 * k)))
          ++ payload) := by
    simp only [textFrame, if_neg (show ¬ payload.length < 126 by omega),
      if_neg (show ¬ payload.length < 65536 by omega), List.cons_append]
  rw [hframe]
  exact parse_refused (p := {}) rfl (by decide) (by simp) hread

/-- Either overload of `Write` sends the text frame of its data. -/
theorem sentBytes_onConn {call : ContextCall} (hcall : call ≠ .close) :
    sentBytes (onConn call) = textFrame call.data := by
  cases call with
  | write msg =>
      rw [onConn, sentBytes_send]
      cases hpayload : msg.payload <;>
        simp [ContextCall.data, StreamEnvelope.getPayload, hpayload]
  | writeString data => exact sentBytes_send _
  | close => exact absurd rfl hcall

/-- The frame a context call means to send. -/
def meant (call : ContextCall) : Frame where
  fin := true
  opcode := OpCode.kText
  masked := false
  payload := call.data

/-- From 65536 bytes on, a payload does not parse to what was meant. -/
theorem not_parsesTo_long {call : ContextCall} (hcall : call ≠ .close)
    (hlo : 65536 ≤ call.data.length) (hhi : call.data.length ≤ 1024 * 1024 * 1024) :
    ¬ ParsesTo (sentBytes (onConn call)) (meant call) := by
  intro hparse
  rw [sentBytes_onConn hcall, ParsesTo, parse_textFrame_long hlo (by omega)] at hparse
  cases hparse

/-- **The server's encoder and the parser agree exactly below 64 KiB.** -/
theorem write_parsesTo_iff {call : ContextCall} (hcall : call ≠ .close)
    (h : call.data.length ≤ 1024 * 1024 * 1024) :
    ParsesTo (sentBytes (onConn call)) (meant call) ↔ call.data.length < 65536 := by
  constructor
  · intro hparse
    by_contra hlong
    exact not_parsesTo_long hcall (by omega) h hparse
  · intro hshort
    rw [sentBytes_onConn hcall, textFrame_eq_wire hshort]
    exact parsesTo_wire _

/-- The string `hi`. -/
theorem write_parsesTo_iff_hi :
    ParsesTo (sentBytes (onConn (.writeString [104, 105]))) (meant (.writeString [104, 105])) ↔
      (ContextCall.writeString [104, 105]).data.length < 65536 :=
  write_parsesTo_iff (by decide) (by decide)

/-- The frame of 65536 bytes `a`, the shortest one with a 64-bit length, is not read. -/
theorem write_fails_at_64_KiB :
    let call := ContextCall.writeString (List.replicate 65536 97)
    call.data.length ≤ 1024 * 1024 * 1024 ∧
      ¬ ParsesTo (sentBytes (onConn call)) (meant call) := by
  have hdata : (ContextCall.writeString (List.replicate 65536 97)).data.length = 65536 :=
    List.length_replicate
  refine ⟨by omega, not_parsesTo_long ?_ (by omega) (by omega)⟩
  intro h
  cases h

end WebSocketStreamContext

/-! ## The client's encoder -/

namespace WebSocketClientProtocol

open FrameParser

/-- Masking with the zero key changes nothing. -/
theorem applyMask_zero (payload : Bytes) : applyMask [0, 0, 0, 0] payload = payload := by
  unfold applyMask
  refine List.ext_getElem (by simp) fun i _ _ => ?_
  have hkey : ([0, 0, 0, 0] : Bytes).getD (i % 4) 0 = 0 := by
    have hlt : i % 4 < 4 := Nat.mod_lt i (by omega)
    interval_cases i % 4 <;> rfl
  rw [List.getElem_mapIdx, hkey, UInt8.xor_zero]

/-- The frame the client means to send. -/
def meant (envelope : StreamEnvelope) : Frame where
  fin := true
  opcode := OpCode.kText
  masked := true
  payload := envelope.getPayload.data

/-- The length byte is seven bits of the length under the mask bit. -/
theorem sentBytes_send_eq (envelope : StreamEnvelope) :
    sentBytes (send envelope)
      = 0x81 :: (0x80 ||| UInt8.ofNat (envelope.getPayload.data.length % 128)) ::
          ([0, 0, 0, 0] ++ envelope.getPayload.data) := by
  have hbits : UInt8.ofNat envelope.getPayload.data.length &&& 0x7F
      = UInt8.ofNat (envelope.getPayload.data.length % 128) := by
    have hmask : (0x7F : UInt8).toNat = 2 ^ 7 - 1 := rfl
    apply UInt8.toNat_inj.mp
    rw [UInt8.toNat_and, hmask, Nat.and_two_pow_sub_one_eq_mod, UInt8.toNat_ofNat',
      UInt8.toNat_ofNat']
    omega
  rw [send, sentBytes_send, hbits]
  rfl

/-- With a length code below 126 the parser takes as many payload bytes as the code says. -/
theorem parse_short_code {payload : Bytes} (h : payload.length % 128 < 126) :
    ∃ q, parse (0x81 :: (0x80 ||| UInt8.ofNat (payload.length % 128)) :: ([0, 0, 0, 0] ++ payload)) {}
      = (q, some (6 + payload.length % 128,
          { fin := true, opcode := OpCode.kText, masked := true,
            payload := payload.take (payload.length % 128) })) := by
  have hle : payload.length % 128 ≤ payload.length := Nat.mod_le _ _
  have htake : (payload.take (payload.length % 128)).length = payload.length % 128 :=
    List.length_take_of_le hle
  have hbits : (0x81 : UInt8) = 0x80 ||| 1 := by decide
  -- The low seven bits of the length announce a shorter frame, which is parsed from the same bytes.
  set f : WireFrame := ⟨true, 1, some ⟨[0, 0, 0, 0], rfl⟩, payload.take (payload.length % 128),
    by omega⟩ with hf
  have hwire : f.wire = 0x81 :: (0x80 ||| UInt8.ofNat (payload.length % 128)) ::
      ([0, 0, 0, 0] ++ payload.take (payload.length % 128)) := by
    simp only [hf, WireFrame.wire, WireFrame.byte1, WireFrame.byte2, WireFrame.extended,
      WireFrame.lenCode, WireFrame.key, WireFrame.body, htake, if_pos h]
    simp [hbits, applyMask_zero]
  obtain ⟨q, hq⟩ := parse_wire (p := {}) rfl f (payload.drop (payload.length % 128))
  refine ⟨q, ?_⟩
  have hlen : f.wire.length = 6 + payload.length % 128 := by
    rw [hwire]
    simp only [List.length_cons, List.length_append, htake, List.length_nil]
    omega
  rw [hlen, hwire, List.cons_append, List.cons_append, List.append_assoc,
    List.take_append_drop] at hq
  exact hq

/-- With the codes 126 and 127 the parser passes over more than the four bytes of the key. -/
theorem lt_of_parse_long_code {payload : Bytes} (h : 126 ≤ payload.length % 128) {n : ℕ}
    {frame : Frame}
    (hparse : (parse (0x81 :: (0x80 ||| UInt8.ofNat (payload.length % 128)) ::
      ([0, 0, 0, 0] ++ payload)) {}).2 = some (n, frame)) : 6 + frame.payload.length < n := by
  have htwo : 2 ≤ ((0x81 : UInt8) :: (0x80 ||| UInt8.ofNat (payload.length % 128)) ::
      ([0, 0, 0, 0] ++ payload)).length := by simp
  rw [parse_of_header rfl htwo] at hparse
  simp only [List.getD_cons_zero, List.getD_cons_succ] at hparse
  set p : FrameParser :=
    ({} : FrameParser).withHeader 0x81 (0x80 ||| UInt8.ofNat (payload.length % 128)) with hp
  have hover : 4 < p.overhead := by
    have hcode : payload.length % 128 = 126 ∨ payload.length % 128 = 127 := by omega
    rcases hcode with hcode | hcode
    · rw [hp, hcode]
      decide
    · rw [hp, hcode]
      decide
  have hstate : p.state ≠ .kHeader := withHeader_state _ _ _
  obtain ⟨q, hq, -⟩ | ⟨q, n', frame', hq, -, -, hn⟩ := parseRest_spec _ hstate htwo
  · rw [hq] at hparse
    cases hparse
  · rw [hq] at hparse
    cases hparse
    omega

/-- **The client's encoder and the parser agree exactly up to 125 bytes.** -/
theorem send_parsesTo_iff (envelope : StreamEnvelope) :
    ParsesTo (sentBytes (send envelope)) (meant envelope) ↔
      envelope.getPayload.data.length ≤ 125 := by
  have hsent := sentBytes_send_eq envelope
  have hlen : (sentBytes (send envelope)).length = 6 + envelope.getPayload.data.length := by
    rw [hsent]
    simp only [List.length_cons, List.length_append, List.length_nil]
    omega
  rw [ParsesTo, hlen, hsent, meant]
  generalize envelope.getPayload.data = payload
  by_cases hcode : payload.length % 128 < 126
  · obtain ⟨q, hq⟩ := parse_short_code hcode
    rw [hq, Option.some_inj, Prod.mk.injEq]
    constructor
    · rintro ⟨hn, -⟩
      omega
    · intro hshort
      have hmod : payload.length % 128 = payload.length := Nat.mod_eq_of_lt (by omega)
      exact ⟨by rw [hmod], by rw [hmod, List.take_length]⟩
  · refine iff_of_false (fun hparse => ?_) (by omega)
    exact absurd (lt_of_parse_long_code (by omega) hparse) (lt_irrefl _)

/-- An envelope of 126 bytes `a`: the parser takes the key for the extended length, and an empty
frame. -/
theorem send_fails_at_126 :
    let envelope : StreamEnvelope := { payload := some { data := List.replicate 126 97 } }
    ¬ ParsesTo (sentBytes (send envelope)) (meant envelope) := by
  decide +kernel

end WebSocketClientProtocol

end NetworkLib
