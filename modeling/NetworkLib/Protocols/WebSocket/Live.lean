import NetworkLib.Protocols.WebSocket.FrameParser

/-! # What a frame parser still needs

Between two calls most members of `FrameParser` are left over from earlier frames. `live` keeps what
its state still reads; two parsers with the same live part parse alike (`drive_live`). -/

namespace NetworkLib.FrameParser

open Loop

/-- The header bits of a frame. -/
def headerBits (frame : Frame) : Frame := { frame with payload := [] }

/-- The part of a parser its state still reads. -/
def live (p : FrameParser) : FrameParser :=
  match p.state with
  | .kHeader => {}
  | .kPayloadLength =>
      { state := .kPayloadLength, currentFrame := headerBits p.currentFrame,
        bytesNeeded := p.bytesNeeded }
  | .kMaskKey =>
      { state := .kMaskKey, currentFrame := headerBits p.currentFrame,
        payloadLength := p.payloadLength }
  | .kPayload =>
      { state := .kPayload, currentFrame := headerBits p.currentFrame,
        payloadLength := p.payloadLength,
        maskKey := if p.currentFrame.masked then p.maskKey else [] }

/-- The state is live. -/
theorem live_state (p : FrameParser) : p.live.state = p.state := by
  cases h : p.state <;> simp [live, h]

/-- The length of a frame is set in the same way. -/
theorem withLength_live {p q : FrameParser} (h : headerBits p.currentFrame = headerBits q.currentFrame)
    (length : ℕ) : (p.withLength length).live = (q.withLength length).live := by
  have hmasked : p.currentFrame.masked = q.currentFrame.masked := by
    simpa [headerBits] using congrArg Frame.masked h
  cases hm : q.currentFrame.masked <;> simp [withLength, live, hmasked, hm, h]

/-- Two parsers with the same live part stay alike. -/
theorem withHeader_live (p q : FrameParser) (byte1 byte2 : UInt8) :
    (p.withHeader byte1 byte2).live = (q.withHeader byte1 byte2).live := by
  unfold withHeader
  simp only
  split_ifs
  · rfl
  · rfl
  · apply withLength_live
    rfl

/-- So is the header read. -/
theorem parseHeader_live {p q : FrameParser} (h : p.live = q.live) (data : Bytes) :
    (parseHeader data p).1.live = (parseHeader data q).1.live ∧
      (parseHeader data p).2 = (parseHeader data q).2 := by
  have hs : p.state = q.state := by rw [← live_state p, h, live_state]
  unfold parseHeader
  rw [hs]
  split_ifs
  · exact ⟨h, rfl⟩
  · exact ⟨withHeader_live p q _ _, rfl⟩
  · exact ⟨h, rfl⟩

/-- So is the length. -/
theorem parseLength_live {p q : FrameParser} (h : p.live = q.live) (data : Bytes) (offset : ℕ) :
    (parseLength data p offset).1.live = (parseLength data q offset).1.live ∧
      (parseLength data p offset).2 = (parseLength data q offset).2 := by
  have hs : p.state = q.state := by rw [← live_state p, h, live_state]
  by_cases hl : q.state = .kPayloadLength
  · have hlive := h
    simp only [live, hs, hl, mk.injEq, true_and] at hlive
    obtain ⟨hbits, hneeded⟩ : headerBits p.currentFrame = headerBits q.currentFrame ∧
        p.bytesNeeded = q.bytesNeeded := by simpa using hlive
    unfold parseLength
    rw [hs, if_pos hl, if_pos hl, hneeded]
    split_ifs
    · exact ⟨h, rfl⟩
    · exact ⟨withLength_live hbits _, rfl⟩
    · simp only
      split_ifs
      · exact ⟨h, rfl⟩
      · exact ⟨h, rfl⟩
      · exact ⟨withLength_live hbits _, rfl⟩
  · rw [parseLength_of_ne hl, parseLength_of_ne (hs ▸ hl)]
    exact ⟨h, rfl⟩

/-- So is the mask key. -/
theorem parseMaskKey_live {p q : FrameParser} (h : p.live = q.live) (data : Bytes) (offset : ℕ) :
    (parseMaskKey data p offset).1.live = (parseMaskKey data q offset).1.live ∧
      (parseMaskKey data p offset).2 = (parseMaskKey data q offset).2 := by
  have hs : p.state = q.state := by rw [← live_state p, h, live_state]
  by_cases hm : q.state = .kMaskKey
  · have hlive := h
    simp only [live, hs, hm] at hlive
    obtain ⟨hbits, hlength⟩ : headerBits p.currentFrame = headerBits q.currentFrame ∧
        p.payloadLength = q.payloadLength := by simpa using hlive
    have hmasked : p.currentFrame.masked = q.currentFrame.masked := by
      simpa [headerBits] using congrArg Frame.masked hbits
    unfold parseMaskKey
    rw [hs, if_pos hm, if_pos hm]
    split_ifs
    · exact ⟨h, rfl⟩
    · exact ⟨by simp [live, hbits, hlength, hmasked], rfl⟩
  · rw [parseMaskKey_of_ne hm, parseMaskKey_of_ne (hs ▸ hm)]
    exact ⟨h, rfl⟩

/-- So is the payload. -/
theorem parsePayload_live {p q : FrameParser} (h : p.live = q.live) (data : Bytes) (offset : ℕ) :
    (parsePayload data p offset).1.live = (parsePayload data q offset).1.live ∧
      (parsePayload data p offset).2 = (parsePayload data q offset).2 := by
  have hs : p.state = q.state := by rw [← live_state p, h, live_state]
  by_cases hp : q.state = .kPayload
  · have hlive := h
    simp only [live, hs, hp] at hlive
    obtain ⟨hbits, hlength, hkey⟩ : headerBits p.currentFrame = headerBits q.currentFrame ∧
        p.payloadLength = q.payloadLength ∧
          (if p.currentFrame.masked then p.maskKey else [])
            = if q.currentFrame.masked then q.maskKey else [] := by simpa using hlive
    have hmasked : p.currentFrame.masked = q.currentFrame.masked := by
      simpa [headerBits] using congrArg Frame.masked hbits
    have hframe (payload : Bytes) : ({ p.currentFrame with payload } : Frame)
        = { q.currentFrame with payload } := by
      simpa [headerBits] using hbits
    have hpayload (payload : Bytes) :
        (if p.currentFrame.masked then applyMask p.maskKey payload else payload)
          = if q.currentFrame.masked then applyMask q.maskKey payload else payload := by
      rw [hmasked] at hkey ⊢
      cases hm : q.currentFrame.masked with
      | false => rfl
      | true =>
          rw [hm, if_pos rfl, if_pos rfl] at hkey
          rw [hkey]
    unfold parsePayload
    rw [hs, if_pos hp, if_pos hp, hlength]
    by_cases hlen : data.length - offset < q.payloadLength
    · rw [if_pos hlen, if_pos hlen]
      exact ⟨h, rfl⟩
    · rw [if_neg hlen, if_neg hlen]
      simp only [hpayload]
      -- both are back in the header state, where nothing is live
      refine ⟨rfl, ?_⟩
      rw [Option.some_inj, Prod.mk.injEq]
      exact ⟨rfl, hframe _⟩
  · have hp' : p.state ≠ .kPayload := hs ▸ hp
    rw [parsePayload, if_neg hp', parsePayload, if_neg hp]
    exact ⟨h, rfl⟩

/-- **Two parsers with the same live part parse alike.** -/
theorem parse_live {p q : FrameParser} (h : p.live = q.live) (data : Bytes) :
    (parse data p).1.live = (parse data q).1.live ∧ (parse data p).2 = (parse data q).2 := by
  -- The four steps of `Parse`: each gives the same result, so both calls go on or both wait.
  obtain ⟨h1, hr1⟩ := parseHeader_live h data
  unfold parse
  generalize parseHeader data p = x at h1 hr1
  generalize parseHeader data q = y at h1 hr1
  obtain ⟨p1, r1⟩ := x
  obtain ⟨q1, _⟩ := y
  cases hr1
  cases r1 with
  | none => exact ⟨h1, rfl⟩
  | some o1 =>
      obtain ⟨h2, hr2⟩ := parseLength_live h1 data o1
      simp only [parseRest]
      generalize parseLength data p1 o1 = x at h2 hr2
      generalize parseLength data q1 o1 = y at h2 hr2
      obtain ⟨p2, r2⟩ := x
      obtain ⟨q2, _⟩ := y
      cases hr2
      cases r2 with
      | none => exact ⟨h2, rfl⟩
      | some o2 =>
          obtain ⟨h3, hr3⟩ := parseMaskKey_live h2 data o2
          simp only
          generalize parseMaskKey data p2 o2 = x at h3 hr3
          generalize parseMaskKey data q2 o2 = y at h3 hr3
          obtain ⟨p3, r3⟩ := x
          obtain ⟨q3, _⟩ := y
          cases hr3
          cases r3 with
          | none => exact ⟨h3, rfl⟩
          | some o3 => exact parsePayload_live h3 data o3

variable {τ : Type*} {act : τ → ℕ → Frame → τ × Bool}

/-- Two states of the frame loop that differ in dead parts of the parser only. -/
def SameLive (x y : τ × FrameParser × Buffer) : Prop :=
  x.1 = y.1 ∧ x.2.1.live = y.2.1.live ∧ x.2.2 = y.2.2

/-- **A turn does the same for the same live parts.** -/
theorem turn_live {x y : τ × FrameParser × Buffer} (h : SameLive x y) :
    (turn act x).Rel SameLive (turn act y) := by
  obtain ⟨t, p, buf⟩ := x
  obtain ⟨_, q, _⟩ := y
  obtain ⟨rfl, hlive, rfl⟩ : t = _ ∧ p.live = q.live ∧ buf = _ := h
  obtain ⟨hp, hr⟩ := parse_live hlive buf
  simp only [turn]
  by_cases hbuf : buf.length = 0
  · rw [if_pos hbuf, if_pos hbuf]
    exact .leave ⟨rfl, hlive, rfl⟩
  · rw [if_neg hbuf, if_neg hbuf]
    generalize parse buf p = x at hp hr
    generalize parse buf q = y at hp hr
    obtain ⟨p', r⟩ := x
    obtain ⟨q', _⟩ := y
    cases hr
    cases r with
    | none => exact .leave ⟨rfl, hp, rfl⟩
    | some consumedFrame =>
        obtain ⟨consumed, frame⟩ := consumedFrame
        simp only
        rcases act t consumed frame with ⟨t', _ | _⟩
        · exact .again ⟨rfl, hp, rfl⟩
        · exact .leave ⟨rfl, hp, rfl⟩

/-- **The frame loop does not see the dead parts of the parser.** -/
theorem drive_live {t : τ} {p q : FrameParser} (h : p.live = q.live) (buf : Buffer) :
    SameLive (drive act (t, p, buf)) (drive act (t, q, buf)) :=
  run_rel turn_rank turn_rank (fun _ _ => turn_live) ⟨rfl, h, rfl⟩

end NetworkLib.FrameParser
