import NetworkLib.Client.GrpcProtocol

/-! # Input of the gRPC client

`OnDataReceived` takes a frame when it is there whole, so with a message handler that does not throw
it is the consumer of HTTP/2's header format: in any cutting it handles the frames of the bytes
received. -/

namespace NetworkLib.GrpcClientProtocol

open Loop Http2

variable {σ : Type*} {pb : Protobuf} {f : MessageHandler σ}

/-- Handle a frame. -/
def handleMessage (pb : Protobuf) (handler : Option (MessageHandler σ))
    (p : ClientSession σ × List ConnCall) (m : Bytes × Bytes) : ClientSession σ × List ConnCall :=
  let header := FrameHeader.ofBytes m.1
  if header.type = FrameType.settings then
    (p.1, if header.flags &&& 0x1 = 0 then p.2 ++ [.send ack] else p.2)
  else if header.type = FrameType.data then (handleData pb handler p.1 m.2, p.2)
  else p

/-- The consumer of the frames a client receives. -/
def reader (pb : Protobuf) (handler : Option (MessageHandler σ)) :
    Consumer (ClientSession σ × List ConnCall) UInt8 :=
  format.consumer (fun _ => false) (handleMessage pb handler)

variable (pb) in
/-- A payload is handled without an exception when the handler throws none. -/
theorem handleData_thrown (hf : MessageHandler.NoThrow f) {s : ClientSession σ}
    (hs : s.thrown = none) (payloadBuf : Buffer) :
    (handleData pb (some f) s payloadBuf).thrown = none := by
  unfold handleData
  split
  · exact hs
  · split
    · exact hs
    · exact hf _ _

/-- So is a frame. -/
theorem handleMessage_thrown (hf : MessageHandler.NoThrow f) {p : ClientSession σ × List ConnCall}
    (hp : p.1.thrown = none) (m : Bytes × Bytes) :
    (handleMessage pb (some f) p m).1.thrown = none := by
  simp only [handleMessage]
  split
  · exact hp
  · split
    · exact handleData_thrown pb hf hp _
    · exact hp

/-- The loop waits for a whole frame. -/
theorem turn_of_incomplete {p : ClientSession σ × List ConnCall} {buf : Buffer}
    (h : format.Incomplete buf) : turn pb (some f) (p, buf) = .leave (p, buf) := by
  obtain ⟨s, calls⟩ := p
  by_cases hshort : buf.length < 9
  · simp only [turn, if_pos hshort]
  · have hlen : ¬ 9 + (FrameHeader.ofBytes (buf.take 9)).length ≤ buf.length :=
      not_le.mpr (h.resolve_left hshort)
    simp only [turn, if_neg hshort, if_neg hlen]

/-- The loop handles the frame at the front, when it is there whole. -/
theorem turn_of_complete (hf : MessageHandler.NoThrow f) {p : ClientSession σ × List ConnCall}
    (hp : p.1.thrown = none) {buf : Buffer} (h : ¬ format.Incomplete buf) :
    turn pb (some f) (p, buf)
      = .again (handleMessage pb (some f) p (format.first buf), format.rest buf) := by
  obtain ⟨s, calls⟩ := p
  obtain ⟨hshort, hlen⟩ := not_or.mp h
  have hshort' : ¬ buf.length < 9 := hshort
  have hlen' : 9 + (FrameHeader.ofBytes (buf.take 9)).length ≤ buf.length := not_lt.mp hlen
  change turn pb (some f) ((s, calls), buf)
    = .again (handleMessage pb (some f) (s, calls)
        (buf.take 9, (buf.drop 9).take (FrameHeader.ofBytes (buf.take 9)).length),
      buf.drop (9 + (FrameHeader.ofBytes (buf.take 9)).length))
  simp only [turn, if_neg hshort', if_pos hlen', handleMessage, Buffer.retrieve_eq_drop]
  by_cases hsettings : (FrameHeader.ofBytes (buf.take 9)).type = FrameType.settings
  · simp only [if_pos hsettings]
  · by_cases hdata : (FrameHeader.ofBytes (buf.take 9)).type = FrameType.data
    · have hthrown := handleData_thrown pb hf hp
        ((buf.drop 9).take (FrameHeader.ofBytes (buf.take 9)).length)
      simp only [if_neg hsettings, if_pos hdata, hthrown, Option.isSome_none, Bool.false_eq_true,
        if_false]
    · simp only [if_neg hsettings, if_neg hdata]

/-- Every turn that goes round takes bytes. -/
theorem turn_rank (p q : (ClientSession σ × List ConnCall) × Buffer)
    (h : turn pb (some f) p = .again q) : q.2.length < p.2.length := by
  obtain ⟨⟨s, calls⟩, buf⟩ := p
  simp only [turn] at h
  split at h
  · cases h
  · split at h
    · next hshort hlen =>
        have hdrop : (Buffer.retrieve buf (9 + (FrameHeader.ofBytes (buf.take 9)).length)).length
            < buf.length := by
          rw [Buffer.retrieve_eq_drop, List.length_drop]
          omega
        split at h
        · cases h
          exact hdrop
        · split at h
          · split at h
            · cases h
            · cases h
              exact hdrop
          · cases h
            exact hdrop
    · cases h

/-- **The loop of `OnDataReceived` is the consumer.** -/
theorem onDataReceived_eq (hf : MessageHandler.NoThrow f)
    {p : (ClientSession σ × List ConnCall) × Buffer} (hp : p.1.1.thrown = none) :
    onDataReceived pb (some f) p = (reader pb (some f)).drain p := by
  obtain ⟨⟨s, calls⟩, buf⟩ := p
  have hs : ({ s with thrown := none } : ClientSession σ) = s := by rw [← hp]
  rw [onDataReceived, hs]
  refine Consumer.run_eq_drain
    (P := fun p : (ClientSession σ × List ConnCall) × Buffer => p.1.1.thrown = none)
    turn_rank ?_ hp ?_
  · rintro ⟨p, buf⟩ q hp hnext
    simp only [reader, HeaderFormat.consumer, HeaderFormat.next] at hnext
    split at hnext
    · cases hnext
    · next hwhole =>
        cases hnext
        exact ⟨turn_of_complete hf hp fun h => hwhole (.inr h), handleMessage_thrown hf hp _⟩
  · intro hthrown
    have hwait := (reader pb (some f)).next_drain ((s, calls), buf)
    generalize (reader pb (some f)).drain ((s, calls), buf) = q at hwait hthrown ⊢
    obtain ⟨p, rest⟩ := q
    simp only [reader, HeaderFormat.consumer, HeaderFormat.next] at hwait
    split at hwait
    · next h => exact turn_of_incomplete (h.resolve_left (by simp))
    · cases hwait

/-- **In any cutting, the client handles the frames of the bytes received.** -/
theorem receiveAll_eq (hf : MessageHandler.NoThrow f) (s : ClientSession σ) (hs : s.thrown = none)
    (reads : List Bytes) :
    (receiveAll pb (some f) ((s, []), []) reads).1
      = (format.split reads.flatten).1.foldl (handleMessage pb (some f)) (s, []) := by
  -- Call by call the client feeds its reader, as long as the handler throws nothing.
  have hfeed (reads : List Bytes) {p : (ClientSession σ × List ConnCall) × Buffer}
      (hp : p.1.1.thrown = none) :
      receiveAll pb (some f) p reads = (reader pb (some f)).feedAll p reads := by
    induction reads generalizing p with
    | nil => rfl
    | cons read reads ih =>
        have honData : onDataReceived pb (some f) (p.1, Buffer.append p.2 read)
            = (reader pb (some f)).feed p read := onDataReceived_eq hf hp
        have hthrown : ((reader pb (some f)).feed p read).1.1.thrown = none := by
          rw [Consumer.feed]
          refine Consumer.drain_induction
            (P := fun p : (ClientSession σ × List ConnCall) × Bytes => p.1.1.thrown = none) ?_ hp
          rintro ⟨p, buf⟩ q hp hnext
          simp only [reader, HeaderFormat.consumer, HeaderFormat.next] at hnext
          split at hnext
          · cases hnext
          · cases hnext
            exact handleMessage_thrown hf hp _
        rw [Consumer.feedAll_cons, ← ih hthrown]
        simp only [receiveAll, List.foldl_cons, honData]
  have hempty : format.Incomplete [] := .inl (show (0 : ℕ) < 9 by decide)
  have hwait : (reader pb (some f)).next ((s, []), []) = none := by
    simp only [reader, HeaderFormat.consumer, HeaderFormat.next]
    exact if_pos (.inr hempty)
  rw [hfeed reads hs, Consumer.feedAll_eq_drain hwait, List.nil_append, reader,
    HeaderFormat.drain_eq _ _ fun _ => rfl]

end NetworkLib.GrpcClientProtocol
