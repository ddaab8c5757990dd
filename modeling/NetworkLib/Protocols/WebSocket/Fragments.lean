import NetworkLib.Protocols.WebSocket.Reads

/-! # Fragmented messages

A text or binary message may be sent in several frames: the first has the data opcode, the others
are continuations, only the last has FIN set, and Ping and Pong frames may stand between them. The
frame loop looks at the opcode alone. It passes the first frame on at once and skips the
continuations, so that a message is reassembled exactly when it was not fragmented
(`reassembled_iff`). -/

namespace NetworkLib

open FrameParser

/-- A part of a message, of at most 1 GiB. -/
structure Fragment where
  maskKey : Option MaskKey
  payload : Bytes
  payload_le : payload.length ≤ 1024 * 1024 * 1024

/-- The frame of a fragment. -/
def Fragment.frame (g : Fragment) (fin : Bool) (opcode : Fin 16) : WireFrame :=
  ⟨fin, opcode, g.maskKey, g.payload, g.payload_le⟩

/-- A Ping or a Pong frame. -/
abbrev PingPong := { f : WireFrame // f.opcode = WireFrame.kPing ∨ f.opcode = WireFrame.kPong }

/-- A text or binary message in fragments, each after the first with the control frames in front of
it. -/
structure FragmentedMessage where
  opcode : Fin 16
  isData : opcode = WireFrame.kText ∨ opcode = WireFrame.kBinary
  first : Fragment
  rest : List (List PingPong × Fragment)

namespace FragmentedMessage

/-- The continuation frames with the control frames between them. -/
def continuations : List (List PingPong × Fragment) → List WireFrame
  | [] => []
  | (controls, g) :: rest =>
      controls.map Subtype.val ++ g.frame rest.isEmpty WireFrame.kContinuation ::
        continuations rest

variable (msg : FragmentedMessage)

/-- The first frame of the message. -/
def firstFrame : WireFrame := msg.first.frame msg.rest.isEmpty msg.opcode

/-- The frames of the message. -/
def frames : List WireFrame := msg.firstFrame :: continuations msg.rest

/-- The data of the message. -/
def payload : Bytes := msg.first.payload ++ msg.rest.flatMap fun part => part.2.payload

/-- No continuation and no control frame is a data or a Close frame. -/
theorem opcode_of_mem_continuations {rest : List (List PingPong × Fragment)} {f : WireFrame}
    (hf : f ∈ continuations rest) : ¬ f.IsData ∧ f.opcode ≠ WireFrame.kClose := by
  have hopcode : ∀ opcode : Fin 16, opcode = WireFrame.kContinuation ∨
      opcode = WireFrame.kPing ∨ opcode = WireFrame.kPong →
      ¬ (opcode = WireFrame.kText ∨ opcode = WireFrame.kBinary) ∧ opcode ≠ WireFrame.kClose := by
    decide
  apply hopcode
  induction rest with
  | nil => cases hf
  | cons part rest ih =>
      rw [continuations, List.mem_append, List.mem_cons] at hf
      rcases hf with hf | rfl | hf
      · obtain ⟨control, -, rfl⟩ := List.mem_map.mp hf
        exact .inr control.2
      · exact .inl rfl
      · exact ih hf

/-- None of the later frames is a data frame. -/
theorem dataFrames_continuations (rest : List (List PingPong × Fragment)) :
    dataFrames (continuations rest) = [] := by
  refine List.filter_eq_nil_iff.mpr fun f hf => ?_
  simpa using (opcode_of_mem_continuations hf).1

/-- The first frame is a data frame. -/
theorem firstFrame_isData : msg.firstFrame.IsData := msg.isData

/-- No frame of a message is a Close frame. -/
theorem opcode_of_mem_frames {f : WireFrame} (hf : f ∈ msg.frames) : f.opcode ≠ WireFrame.kClose := by
  have hdata : ∀ opcode : Fin 16, opcode = WireFrame.kText ∨ opcode = WireFrame.kBinary →
      opcode ≠ WireFrame.kClose := by decide
  rcases List.mem_cons.mp hf with rfl | hf
  · exact hdata _ msg.isData
  · exact (opcode_of_mem_continuations hf).2

/-- Of the frames of a message the first is the only data frame. -/
theorem dataFrames_frames : dataFrames msg.frames = [msg.firstFrame] := by
  rw [frames, dataFrames_cons, if_pos msg.firstFrame_isData, dataFrames_continuations]

end FragmentedMessage

namespace WebSocketHandler

variable {σ : Type*} (digest : Bytes → Bytes) (h : ProtocolHandler σ)

/-- **The message is reassembled**: however its frames are grouped into reads, nothing is passed on
before the read with its last frame, and then one request with all its data. -/
def Reassembled (p : Session σ × WebSocketHandler × Buffer) (msg : FragmentedMessage) : Prop :=
  ∀ (groups : List (List WireFrame × Bytes)) (last : List WireFrame × Bytes),
    groups.flatMap Prod.fst ++ last.1 = msg.frames → last.1 ≠ [] →
      let before := receiveAll digest h p (groups.map fun g => ((wires g.1).flatten, g.2))
      let after := receive digest h before ((wires last.1).flatten, last.2)
      before.1.dispatched = p.1.dispatched ∧
        after.1.dispatched = p.1.dispatched ++ [envelope { payload := msg.payload }]

variable {digest h}

variable (digest) in
/-- A part of a message, read on its own, is handled. -/
theorem receive_part {p : Session σ × WebSocketHandler × Buffer} (hp : AtBoundary p [])
    {msg : FragmentedMessage} {part : List WireFrame} (hpart : part <:+: msg.frames)
    (hallows : h.checkRateLimit p.1.consumed = true) (beyond : Bytes) :
    (receive digest h p ((wires part).flatten, beyond)).1.dispatched
      = p.1.dispatched ++ heard h part := by
  have hdata : (dataFrames part).length ≤ 1 := by
    have hlen := (hpart.sublist.filter fun f => decide f.IsData).length_le
    have hone : (dataFrames msg.frames).length = 1 := by
      rw [msg.dataFrames_frames, List.length_singleton]
    exact hlen.trans_eq hone
  refine (receive_admitted digest (h := h) hp part ?_ ?_ beyond).2.2
  · exact fun f hf => msg.opcode_of_mem_frames (hpart.subset hf)
  · intro k hk
    rw [List.nil_append] at hk
    obtain rfl : k = 0 := by omega
    exact hallows

/-- When one request is passed on for a message, the stream handler is set and the rate limiter has
admitted it. -/
theorem admitted_of_reassembled {p : Session σ × WebSocketHandler × Buffer} (hp : AtBoundary p [])
    {msg : FragmentedMessage} (hall : Reassembled digest h p msg) :
    h.streamHandler.isSome = true ∧ h.checkRateLimit p.1.consumed = true := by
  obtain ⟨-, hafter⟩ := hall [] (msg.frames, []) rfl (List.cons_ne_nil _ _)
  obtain ⟨left, -, hconsumed⟩ := receive_wires digest h hp msg.frames []
  rw [List.nil_append, msg.dataFrames_frames, List.length_singleton] at hconsumed
  have ht := tally_receive digest (tally_refl (h := h) p.1)
    ((wires msg.frames).flatten, [])
  obtain ⟨hallows, hhandler⟩ := ht.admitted (n := 1) (by omega) <| by
    rw [← List.length_singleton (a := envelope { payload := msg.payload }), ← List.length_append]
    exact (congrArg List.length hafter).ge
  exact ⟨hhandler one_ne_zero, hallows 0 Nat.zero_lt_one⟩

/-- The first frame is heard as a request with its own payload. -/
theorem heard_firstFrame (hhandler : h.streamHandler.isSome) (msg : FragmentedMessage) :
    heard h [msg.firstFrame] = [envelope { payload := msg.first.payload }] := by
  rw [heard, if_pos hhandler, dataFrames_cons, if_pos msg.firstFrame_isData]
  rfl

/-- **When messages are reassembled**: exactly when they are not fragmented, the stream handler is
set and the rate limiter admits them. -/
theorem reassembled_iff {p : Session σ × WebSocketHandler × Buffer} (hp : AtBoundary p [])
    (msg : FragmentedMessage) :
    Reassembled digest h p msg ↔
      msg.rest = [] ∧ h.streamHandler.isSome = true ∧ h.checkRateLimit p.1.consumed = true := by
  constructor
  · intro hall
    obtain ⟨hhandler, hallows⟩ := admitted_of_reassembled hp hall
    refine ⟨?_, hhandler, hallows⟩
    by_contra hrest
    -- the first fragment, read on its own, is passed on at once
    have hparts : [msg.firstFrame] ++ FragmentedMessage.continuations msg.rest = msg.frames := rfl
    have hmore : FragmentedMessage.continuations msg.rest ≠ [] := by
      obtain ⟨part, rest, hcons⟩ := List.exists_cons_of_ne_nil hrest
      rw [hcons, FragmentedMessage.continuations]
      simp
    obtain ⟨hbefore, -⟩ := hall [([msg.firstFrame], [])]
      (FragmentedMessage.continuations msg.rest, []) hparts hmore
    have hfirst := receive_part digest hp
      (List.infix_append [] [msg.firstFrame] (FragmentedMessage.continuations msg.rest)) hallows []
    rw [heard_firstFrame hhandler] at hfirst
    have hself := hbefore.symm.trans hfirst
    simp at hself
  · rintro ⟨hrest, hhandler, hallows⟩ groups last hsplit hlast
    have hframes : msg.frames = [msg.firstFrame] := by
      rw [FragmentedMessage.frames, hrest]
      rfl
    have hpayload : msg.payload = msg.first.payload := by
      rw [FragmentedMessage.payload, hrest, List.flatMap_nil, List.append_nil]
    rw [hframes, List.append_eq_singleton_iff] at hsplit
    obtain ⟨hgroups, hlast'⟩ | ⟨-, hnil⟩ := hsplit
    · obtain ⟨hboundary, hconsumed, hdispatched⟩ :=
        receiveAll_admitted digest (h := h) hp groups
          (by rw [hgroups]; exact fun f hf => absurd hf List.not_mem_nil)
          (by rw [hgroups]; exact fun k hk => absurd hk (Nat.not_lt_zero k))
      rw [hgroups] at hconsumed hdispatched
      have hnone : heard h [] = [] := by
        rw [heard]
        split <;> rfl
      rw [hnone, List.append_nil] at hdispatched
      refine ⟨hdispatched, ?_⟩
      rw [hlast']
      have hinfix : [msg.firstFrame] <:+: msg.frames := ⟨[], [], hframes.symm⟩
      refine (receive_part digest hboundary hinfix ?_ last.2).trans ?_
      · rw [hconsumed]
        exact hallows
      · rw [hdispatched, heard_firstFrame hhandler, hpayload]
    · exact absurd hnil hlast

/-- A connection that has just been upgraded. -/
def upgraded : Session ℕ × WebSocketHandler × Buffer := ({ app := 0 }, { isUpgraded := true }, [])

/-- The text `hi` in one frame is reassembled, and in two frames it is not. -/
theorem reassembled_iff_whole :
    let whole : FragmentedMessage := ⟨1, .inl rfl, ⟨none, [104, 105], by decide⟩, []⟩
    let fragmented : FragmentedMessage :=
      ⟨1, .inl rfl, ⟨none, [104], by decide⟩, [([], ⟨none, [105], by decide⟩)]⟩
    let h : ProtocolHandler ℕ := { streamHandler := some WebSocketServer.count }
    Reassembled id h upgraded whole ∧ ¬ Reassembled id h upgraded fragmented := by
  intro whole fragmented h
  refine ⟨(reassembled_iff ⟨rfl, rfl, rfl, rfl⟩ whole).mpr ⟨rfl, rfl, rfl⟩, fun hall => ?_⟩
  have hrest := ((reassembled_iff ⟨rfl, rfl, rfl, rfl⟩ fragmented).mp hall).1
  exact List.cons_ne_nil _ _ hrest

/-- The text `hi` in two frames: `h` is passed on before `i` has been read. -/
theorem reassembly_fails_on_two_fragments :
    let msg : FragmentedMessage :=
      ⟨1, .inl rfl, ⟨none, [104], by decide⟩, [([], ⟨none, [105], by decide⟩)]⟩
    ¬ Reassembled id { streamHandler := some WebSocketServer.count } upgraded msg := by
  intro msg hall
  have hbefore := (hall [([msg.firstFrame], [])]
    (FragmentedMessage.continuations msg.rest, []) rfl (List.cons_ne_nil _ _)).1
  revert hbefore
  decide

end WebSocketHandler

end NetworkLib
