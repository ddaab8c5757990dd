import NetworkLib.Protocols.WebSocket.Framing
import NetworkLib.Protocols.WebSocket.Isolation

/-! # Reads of one WebSocket connection

One connection with a handler of its own: `OnMessage` is called after each read. Of the whole frames
it handles (`FrameParser.handle`) the data frames are counted by the rate limiter and dispatched,
and those that are left in the buffer when the loop is left early are handled by the next call. -/

namespace NetworkLib

open Loop

namespace FrameParser

variable {τ : Type*} {act : τ → ℕ → Frame → τ × Bool}

/-- The loop leaves an empty buffer. -/
theorem drive_nil (t : τ) (p : FrameParser) : drive act (t, p, []) = (t, p, []) :=
  run_of_leave _ (by rw [turn, if_pos List.length_nil])

end FrameParser

namespace WireFrame

/-! The values of `OpCode`, as the four bits that a frame has for them. -/

abbrev kContinuation : Fin 16 := 0

abbrev kText : Fin 16 := 1

abbrev kBinary : Fin 16 := 2

abbrev kClose : Fin 16 := 8

abbrev kPing : Fin 16 := 9

abbrev kPong : Fin 16 := 10

/-- A text or a binary frame. -/
def IsData (f : WireFrame) : Prop := f.opcode = kText ∨ f.opcode = kBinary

instance : DecidablePred IsData := fun _ => inferInstanceAs (Decidable (_ ∨ _))

end WireFrame

/-- The text and binary frames among some frames. -/
def dataFrames (frames : List WireFrame) : List WireFrame := frames.filter WireFrame.IsData

@[simp] theorem dataFrames_append (frames frames' : List WireFrame) :
    dataFrames (frames ++ frames') = dataFrames frames ++ dataFrames frames' :=
  List.filter_append _ _

/-- The first frame is a data frame or not. -/
theorem dataFrames_cons (f : WireFrame) (frames : List WireFrame) :
    dataFrames (f :: frames) = if f.IsData then f :: dataFrames frames else dataFrames frames := by
  by_cases hf : f.IsData
  · rw [if_pos hf]
    exact List.filter_cons_of_pos (by simpa using hf)
  · rw [if_neg hf]
    exact List.filter_cons_of_neg (by simpa using hf)

/-- The opcodes `onFrame` looks at. -/
theorem opcode_frame (f : WireFrame) :
    (f.frame.opcode = OpCode.kText ∨ f.frame.opcode = OpCode.kBinary ↔ f.IsData) ∧
      (f.frame.opcode = OpCode.kClose ↔ f.opcode = WireFrame.kClose) := by
  have hopcode : ∀ opcode : Fin 16,
      (UInt8.ofNat opcode = OpCode.kText ∨ UInt8.ofNat opcode = OpCode.kBinary ↔
          opcode = WireFrame.kText ∨ opcode = WireFrame.kBinary) ∧
        (UInt8.ofNat opcode = OpCode.kClose ↔ opcode = WireFrame.kClose) := by
    decide
  exact hopcode f.opcode

namespace WebSocketHandler

open FrameParser

variable {σ : Type*} {digest : Bytes → Bytes} {h : ProtocolHandler σ}

/-! ## One frame -/

/-- The requests the stream handler is passed for some frames, when it is passed all of them. -/
def heard (h : ProtocolHandler σ) (frames : List WireFrame) : List StreamEnvelope :=
  if h.streamHandler.isSome then (dataFrames frames).map fun f => envelope f.frame else []

/-- A data frame the rate limiter admits is dispatched. -/
theorem onFrame_admitted {s : Session σ} {f : WireFrame} (hf : f.IsData)
    (hallows : h.checkRateLimit s.consumed = true) (consumed : ℕ) :
    ∃ s', onFrame h s consumed f.frame = (s', false) ∧ s'.consumed = s.consumed + 1 ∧
      s'.dispatched = s.dispatched ++ heard h [f] := by
  have hheard : heard h [f] = if h.streamHandler.isSome then [envelope f.frame] else [] := by
    rw [heard, dataFrames_cons, if_pos hf]
    rfl
  rw [onFrame, if_pos ((opcode_frame f).1.mpr hf), if_pos hallows, hheard]
  cases hhandler : h.streamHandler with
  | none => exact ⟨s.consume, rfl, rfl, (List.append_nil _).symm⟩
  | some handler =>
      simp only
      split
      · exact ⟨_, rfl, rfl, rfl⟩
      · exact ⟨_, rfl, rfl, rfl⟩

/-- A data frame the rate limiter refuses ends the call. -/
theorem onFrame_refused {s : Session σ} {f : WireFrame} (hf : f.IsData)
    (hrefuse : ¬ h.checkRateLimit s.consumed = true) (consumed : ℕ) :
    onFrame h s consumed f.frame = (s.consume.push [.forceClose], true) := by
  rw [onFrame, if_pos ((opcode_frame f).1.mpr hf), if_neg hrefuse]

/-- Of the other frames only a Close frame does anything. -/
theorem onFrame_control {f : WireFrame} (hf : ¬ f.IsData) (s : Session σ) (consumed : ℕ) :
    onFrame h s consumed f.frame
      = if f.opcode = WireFrame.kClose then (s.push [.forceClose], true) else (s, false) := by
  rw [onFrame, if_neg (mt (opcode_frame f).1.mp hf)]
  by_cases hclose : f.opcode = WireFrame.kClose
  · rw [if_pos ((opcode_frame f).2.mpr hclose), if_pos hclose]
  · rw [if_neg (mt (opcode_frame f).2.mp hclose), if_neg hclose]

/-- The rate limiter is asked once for each data frame. -/
theorem onFrame_consumed (s : Session σ) (f : WireFrame) (consumed : ℕ) :
    (onFrame h s consumed f.frame).1.consumed = s.consumed + (dataFrames [f]).length := by
  rw [dataFrames_cons]
  by_cases hf : f.IsData
  · rw [if_pos hf]
    by_cases hallows : h.checkRateLimit s.consumed = true
    · obtain ⟨s', hs', hconsumed, -⟩ := onFrame_admitted hf hallows consumed
      rw [hs', hconsumed]
      rfl
    · rw [onFrame_refused hf hallows]
      rfl
  · rw [if_neg hf, onFrame_control hf]
    split <;> rfl

/-- Since `s₀` no more requests have been passed on than the rate limiter has admitted, and none
without a stream handler. -/
structure Tally (h : ProtocolHandler σ) (s₀ s : Session σ) : Prop where
  consumed : s₀.consumed ≤ s.consumed
  dispatched : s.dispatched.length ≤ s₀.dispatched.length +
    ((List.range' s₀.consumed (s.consumed - s₀.consumed)).filter h.checkRateLimit).length
  unheard : h.streamHandler = none → s.dispatched = s₀.dispatched

variable {s₀ : Session σ}

/-- Before any frame nothing is to be counted. -/
theorem tally_refl (s : Session σ) : Tally h s s := ⟨le_rfl, Nat.le_add_right _ _, fun _ => rfl⟩

/-- The calls admitted among one more. -/
theorem length_admitted_succ (c n : ℕ) :
    ((List.range' c (n + 1)).filter h.checkRateLimit).length
      = ((List.range' c n).filter h.checkRateLimit).length
        + if h.checkRateLimit (c + n) = true then 1 else 0 := by
  rw [List.range'_1_concat, List.filter_append, List.length_append]
  cases hallows : h.checkRateLimit (c + n) <;> simp [hallows]

/-- One more call, and one more request if the call was admitted. -/
theorem Tally.succ {s s' : Session σ} (ht : Tally h s₀ s) (hconsumed : s'.consumed = s.consumed + 1)
    (hdispatched : s'.dispatched.length
      ≤ s.dispatched.length + if h.checkRateLimit s.consumed = true then 1 else 0)
    (hunheard : h.streamHandler = none → s'.dispatched = s.dispatched) : Tally h s₀ s' := by
  have hle := ht.consumed
  have hspan : s'.consumed - s₀.consumed = s.consumed - s₀.consumed + 1 := by omega
  have hlast : s₀.consumed + (s.consumed - s₀.consumed) = s.consumed := by omega
  refine ⟨by omega, ?_, fun hnone => (hunheard hnone).trans (ht.unheard hnone)⟩
  rw [hspan, length_admitted_succ, hlast]
  have := ht.dispatched
  omega

/-- One frame keeps the tally. -/
theorem tally_onFrame {s : Session σ} (ht : Tally h s₀ s) (consumed : ℕ) (frame : Frame) :
    Tally h s₀ (onFrame h s consumed frame).1 := by
  have hconsume : Tally h s₀ s.consume := ht.succ rfl (Nat.le_add_right _ _) fun _ => rfl
  unfold onFrame
  split
  · split
    · next hallows =>
        split
        · next handler hhandler =>
            have hinvoke : Tally h s₀ (s.consume.invoke handler
                (fun calls => calls.flatMap WebSocketStreamContext.onConn)
                (envelope frame) {}).1 := by
              refine ht.succ rfl ?_ fun hnone => ?_
              · rw [if_pos hallows, Session.invoke_dispatched, List.length_append]
                exact le_rfl
              · rw [hhandler] at hnone
                cases hnone
            simp only
            split
            · exact ⟨hinvoke.consumed, hinvoke.dispatched, hinvoke.unheard⟩
            · exact hinvoke
        · exact hconsume
    · exact ⟨hconsume.consumed, hconsume.dispatched, hconsume.unheard⟩
  · split
    · exact ⟨ht.consumed, ht.dispatched, ht.unheard⟩
    · exact ht

/-- When as many requests have been passed on as calls can have been made, the rate limiter has
admitted every call and the stream handler is set. -/
theorem Tally.admitted {s : Session σ} (ht : Tally h s₀ s) {n : ℕ}
    (hn : s.consumed ≤ s₀.consumed + n) (hall : s₀.dispatched.length + n ≤ s.dispatched.length) :
    (∀ k < n, h.checkRateLimit (s₀.consumed + k) = true) ∧ (n ≠ 0 → h.streamHandler.isSome) := by
  have hcount := (List.length_filter_le h.checkRateLimit
    (List.range' s₀.consumed (s.consumed - s₀.consumed))).trans_eq List.length_range'
  have hle := ht.dispatched
  have hlow := ht.consumed
  obtain rfl : n = s.consumed - s₀.consumed := by omega
  constructor
  · have hfilter : (List.range' s₀.consumed (s.consumed - s₀.consumed)).filter h.checkRateLimit
        = List.range' s₀.consumed (s.consumed - s₀.consumed) :=
      List.filter_sublist.eq_of_length (by rw [List.length_range']; omega)
    intro k hk
    refine List.filter_eq_self.mp hfilter _ (List.mem_range'_1.mpr ⟨?_, ?_⟩) <;> omega
  · intro hne
    by_contra hnone
    rw [ht.unheard (Option.not_isSome_iff_eq_none.mp hnone)] at hall
    omega

/-! ## Several frames -/

/-- What is heard of some frames, and of more behind them. -/
theorem heard_append (frames frames' : List WireFrame) :
    heard h (frames ++ frames') = heard h frames ++ heard h frames' := by
  unfold heard
  split
  · rw [dataFrames_append, List.map_append]
  · rfl

/-- **When every data frame is admitted and no frame is a Close frame**, the loop handles them all
and passes the data frames on in their order. -/
theorem handle_admitted {s : Session σ} {frames : List WireFrame}
    (hopen : ∀ f ∈ frames, f.opcode ≠ WireFrame.kClose)
    (hallows : ∀ k < (dataFrames frames).length, h.checkRateLimit (s.consumed + k) = true) :
    ∃ s', handle (onFrame h) s frames = (s', none) ∧
      s'.consumed = s.consumed + (dataFrames frames).length ∧
      s'.dispatched = s.dispatched ++ heard h frames := by
  -- Induction on the frames; each data frame costs the limiter one question.
  induction frames generalizing s with
  | nil =>
      refine ⟨s, rfl, rfl, ?_⟩
      rw [heard]
      split <;> exact (List.append_nil _).symm
  | cons f frames ih =>
      have hsplit : f :: frames = [f] ++ frames := rfl
      rw [hsplit, dataFrames_append, List.length_append] at hallows
      rw [hsplit, heard_append, dataFrames_append, List.length_append]
      obtain ⟨s₁, hs₁, hconsumed₁, hdispatched₁⟩ : ∃ s₁,
          onFrame h s f.wire.length f.frame = (s₁, false) ∧
            s₁.consumed = s.consumed + (dataFrames [f]).length ∧
            s₁.dispatched = s.dispatched ++ heard h [f] := by
        by_cases hf : f.IsData
        · have hone : (dataFrames [f]).length = 1 := by
            rw [dataFrames_cons, if_pos hf]
            rfl
          obtain ⟨s₁, hs₁, hconsumed₁, hdispatched₁⟩ :=
            onFrame_admitted hf (hallows 0 (by omega)) f.wire.length
          exact ⟨s₁, hs₁, by rw [hone, hconsumed₁], hdispatched₁⟩
        · have hnone : dataFrames [f] = [] := by
            rw [dataFrames_cons, if_neg hf]
            rfl
          refine ⟨s, ?_, by rw [hnone]; rfl, by simp [heard, hnone]⟩
          rw [onFrame_control hf, if_neg (hopen f List.mem_cons_self)]
      obtain ⟨s', hs', hconsumed, hdispatched⟩ :=
        ih (s := s₁) (fun f' hf' => hopen f' (List.mem_cons_of_mem _ hf'))
          fun k hk => by
            rw [hconsumed₁, Nat.add_assoc]
            exact hallows _ (by omega)
      refine ⟨s', ?_, by omega, ?_⟩
      · rw [List.singleton_append, handle, hs₁]
        exact hs'
      · rw [hdispatched, hdispatched₁, List.append_assoc]

/-- The rate limiter is asked at most once for each data frame, and not yet for those left unread.
-/
theorem handle_consumed (h : ProtocolHandler σ) (s : Session σ) (frames : List WireFrame) :
    (handle (onFrame h) s frames).1.consumed
        + (dataFrames ((handle (onFrame h) s frames).2.getD [])).length
      = s.consumed + (dataFrames frames).length := by
  induction frames generalizing s with
  | nil => rfl
  | cons f frames ih =>
      have hone := onFrame_consumed (h := h) s f f.wire.length
      have hsplit : dataFrames (f :: frames) = dataFrames [f] ++ dataFrames frames :=
        dataFrames_append [f] frames
      rw [hsplit, List.length_append, handle]
      split
      · next s₁ hframe =>
          simp only [hframe] at hone
          simp only [Option.getD_some]
          omega
      · next s₁ hframe =>
          simp only [hframe] at hone
          have := ih s₁
          omega

/-! ## The reads of a connection -/

variable (digest h) in
/-- `OnMessage` called after one more read, given with the memory behind the readable bytes. No call
follows an exception that has left one, or the refusal of the connection. -/
def receive (p : Session σ × WebSocketHandler × Buffer) (read : Bytes × Bytes) :
    Session σ × WebSocketHandler × Buffer :=
  if p.1.thrown.isSome ∨ p.2.1.isUpgraded = false ∧ ConnCall.forceClose ∈ p.1.calls then p
  else onMessage digest h (p.1, p.2.1, Buffer.append p.2.2 read.1) read.2

variable (digest h) in
/-- `OnMessage` called after each of several reads. -/
def receiveAll (p : Session σ × WebSocketHandler × Buffer) (reads : List (Bytes × Bytes)) :
    Session σ × WebSocketHandler × Buffer := reads.foldl (receive digest h) p

/-- The connection is upgraded, and stands at a frame boundary with some whole frames unread. -/
structure AtBoundary (p : Session σ × WebSocketHandler × Buffer) (left : List WireFrame) : Prop where
  upgraded : p.2.1.isUpgraded = true
  state : p.2.1.parser.state = .kHeader
  thrown : p.1.thrown = none
  buffer : p.2.2 = (wires left).flatten

/-- On an upgraded connection a read runs the frame loop. -/
theorem receive_upgraded {p : Session σ × WebSocketHandler × Buffer}
    (hup : p.2.1.isUpgraded = true) (hthrown : p.1.thrown = none) (read : Bytes × Bytes) :
    receive digest h p read = onFrames h (p.1.enter, p.2.1, p.2.2 ++ read.1) := by
  rw [receive, if_neg (by simp [hup, hthrown]), onMessage, if_pos hup, Buffer.append_eq]

variable (digest) in
/-- **A read of whole frames** when no frame is a Close frame and every data frame is admitted: all
of them are handled. -/
theorem receive_admitted {p : Session σ × WebSocketHandler × Buffer} {left : List WireFrame}
    (hp : AtBoundary p left) (frames : List WireFrame)
    (hopen : ∀ f ∈ left ++ frames, f.opcode ≠ WireFrame.kClose)
    (hallows : ∀ k < (dataFrames (left ++ frames)).length,
      h.checkRateLimit (p.1.consumed + k) = true) (beyond : Bytes) :
    let r := receive digest h p ((wires frames).flatten, beyond)
    AtBoundary r [] ∧ r.1.consumed = p.1.consumed + (dataFrames (left ++ frames)).length ∧
      r.1.dispatched = p.1.dispatched ++ heard h (left ++ frames) := by
  obtain ⟨s', hs', hconsumed, hdispatched⟩ := handle_admitted (s := p.1.enter) hopen hallows
  obtain ⟨q, hq, hdrive⟩ := drive_handle (onFrame h) hp.state p.1.enter (left ++ frames) []
  simp only [hs', drive_nil, List.append_nil, flatten_wires_append, ← hp.buffer] at hdrive
  have hthrown : s'.thrown = none := by
    have hnone := onFrames_thrown (h := h) p.1.enter p.2.1 (p.2.2 ++ (wires frames).flatten)
    rwa [onFrames, hdrive] at hnone
  simp only [receive_upgraded hp.upgraded hp.thrown, onFrames, hdrive]
  exact ⟨⟨hp.upgraded, hq, hthrown, rfl⟩, hconsumed, hdispatched⟩

variable (digest h) in
/-- **A read of whole frames**, whatever they are: the connection stands at a frame boundary again,
and the rate limiter has been asked once for each data frame that is not left unread. -/
theorem receive_wires {p : Session σ × WebSocketHandler × Buffer} {left : List WireFrame}
    (hp : AtBoundary p left) (frames : List WireFrame) (beyond : Bytes) :
    let r := receive digest h p ((wires frames).flatten, beyond)
    ∃ left', AtBoundary r left' ∧ r.1.consumed + (dataFrames left').length
      = p.1.consumed + (dataFrames (left ++ frames)).length := by
  obtain ⟨q, hq, hdrive⟩ := drive_handle (onFrame h) hp.state p.1.enter (left ++ frames) []
  have hcount := handle_consumed h p.1.enter (left ++ frames)
  rw [List.append_nil, flatten_wires_append, ← hp.buffer] at hdrive
  have hthrown := onFrames_thrown (h := h) p.1.enter p.2.1 (p.2.2 ++ (wires frames).flatten)
  rw [onFrames, hdrive] at hthrown
  simp only [receive_upgraded hp.upgraded hp.thrown, onFrames, hdrive]
  generalize handle (onFrame h) p.1.enter (left ++ frames) = handled at hcount hthrown ⊢
  obtain ⟨s', _ | rest⟩ := handled
  · simp only [drive_nil] at hthrown ⊢
    exact ⟨[], ⟨hp.upgraded, hq, hthrown, rfl⟩, hcount⟩
  · exact ⟨rest, ⟨hp.upgraded, hq, hthrown, List.append_nil _⟩, hcount⟩

/-- The handshake counts as no frame. -/
theorem tally_onHandshake {s : Session σ} (ht : Tally h s₀ s) (w : WebSocketHandler) (buf : Buffer)
    (beyond : Bytes) : Tally h s₀ (onHandshake digest (s, w, buf) beyond).1 := by
  simp only [onHandshake]
  rcases Handshake.headerStr (buf ++ beyond) with _ | header
  · exact ⟨ht.consumed, ht.dispatched, ht.unheard⟩
  · simp only
    rcases Handshake.readHeaders header with _ | headers
    · exact ⟨ht.consumed, ht.dispatched, ht.unheard⟩
    · simp only
      rcases Handshake.process digest headers with _ | key
      · exact ⟨ht.consumed, ht.dispatched, ht.unheard⟩
      · exact ⟨ht.consumed, ht.dispatched, ht.unheard⟩

variable (digest) in
/-- A read keeps the tally. -/
theorem tally_receive {p : Session σ × WebSocketHandler × Buffer} (ht : Tally h s₀ p.1)
    (read : Bytes × Bytes) : Tally h s₀ (receive digest h p read).1 := by
  unfold receive
  split
  · exact ht
  · have hs : Tally h s₀ p.1.enter := ⟨ht.consumed, ht.dispatched, ht.unheard⟩
    rw [onMessage]
    split
    · exact drive_invariant (P := Tally h s₀) (fun _ consumed frame ht => tally_onFrame ht consumed frame)
        hs _ _
    · exact tally_onHandshake hs _ _ _

variable (digest) in
/-- The count is kept along some reads. -/
theorem tally_receiveAll {p : Session σ × WebSocketHandler × Buffer} (ht : Tally h s₀ p.1)
    (reads : List (Bytes × Bytes)) : Tally h s₀ (receiveAll digest h p reads).1 := by
  induction reads generalizing p with
  | nil => exact ht
  | cons read reads ih => exact ih (tally_receive digest ht read)

variable (digest) in
/-- **Reads of whole frames**, all open and admitted. -/
theorem receiveAll_admitted {p : Session σ × WebSocketHandler × Buffer} (hp : AtBoundary p [])
    (groups : List (List WireFrame × Bytes))
    (hopen : ∀ f ∈ groups.flatMap Prod.fst, f.opcode ≠ WireFrame.kClose)
    (hallows : ∀ k < (dataFrames (groups.flatMap Prod.fst)).length,
      h.checkRateLimit (p.1.consumed + k) = true) :
    let r := receiveAll digest h p (groups.map fun g => ((wires g.1).flatten, g.2))
    AtBoundary r [] ∧
      r.1.consumed = p.1.consumed + (dataFrames (groups.flatMap Prod.fst)).length ∧
      r.1.dispatched = p.1.dispatched ++ heard h (groups.flatMap Prod.fst) := by
  induction groups generalizing p with
  | nil =>
      refine ⟨hp, rfl, ?_⟩
      simp [receiveAll, heard, dataFrames]
  | cons g groups ih =>
      rw [List.flatMap_cons, dataFrames_append, List.length_append] at hallows
      rw [List.flatMap_cons] at hopen
      obtain ⟨hr, hconsumed, hdispatched⟩ := receive_admitted digest (h := h) hp g.1
        (fun f hf => hopen f (List.mem_append_left _ hf))
        (fun k hk => hallows k (by rw [List.nil_append] at hk; omega)) g.2
      rw [List.nil_append] at hconsumed hdispatched
      obtain ⟨hrs, hconsumeds, hdispatcheds⟩ := ih hr
        (fun f hf => hopen f (List.mem_append_right _ hf))
        (fun k hk => by
          rw [hconsumed, Nat.add_assoc]
          exact hallows _ (by omega))
      refine ⟨hrs, hconsumeds.trans ?_, hdispatcheds.trans ?_⟩
      · rw [hconsumed, List.flatMap_cons, dataFrames_append, List.length_append, Nat.add_assoc]
      · rw [hdispatched, List.flatMap_cons, heard_append, List.append_assoc]

variable (digest h) in
/-- **Reads of whole frames**, whatever they are. -/
theorem receiveAll_wires {p : Session σ × WebSocketHandler × Buffer} {left : List WireFrame}
    (hp : AtBoundary p left) (groups : List (List WireFrame × Bytes)) :
    let r := receiveAll digest h p (groups.map fun g => ((wires g.1).flatten, g.2))
    ∃ left', AtBoundary r left' ∧ r.1.consumed + (dataFrames left').length
      = p.1.consumed + (dataFrames (left ++ groups.flatMap Prod.fst)).length := by
  induction groups generalizing p left with
  | nil => exact ⟨left, hp, by rw [List.flatMap_nil, List.append_nil]; rfl⟩
  | cons g groups ih =>
      obtain ⟨left₁, hr, hconsumed⟩ := receive_wires digest h hp g.1 g.2
      obtain ⟨left', hrs, hconsumeds⟩ := ih hr
      refine ⟨left', hrs, hconsumeds.trans ?_⟩
      simp only [List.flatMap_cons, dataFrames_append, List.length_append] at hconsumed ⊢
      omega

end WebSocketHandler

end NetworkLib
