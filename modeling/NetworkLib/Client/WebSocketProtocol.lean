import NetworkLib.Client.ClientSession
import NetworkLib.Memory.Buffer
import NetworkLib.Protocols.WebSocket.Handshake
import NetworkLib.Theory.Pacing

/-! # The WebSocket client protocol

`WebSocketClientProtocol`. Until the answer to its upgrade request is there, `OnDataReceived` looks
for a phrase of it, with a `strstr` that does not stop at the end of the readable bytes; then each
call takes at most one frame. -/

namespace NetworkLib

namespace WebSocketClientProtocol

variable {σ : Type*}

/-- `Send`: one text frame, masked with the zero key. The length is cut to seven bits. -/
def send (envelope : StreamEnvelope) : List ConnCall :=
  let payload := envelope.getPayload.data
  [.send ([0x81, 0x80 ||| (UInt8.ofNat payload.length &&& 0x7F), 0, 0, 0, 0] ++ payload)]

/-- The phrase by which the client knows that the connection is upgraded. -/
def switchingProtocols : Bytes := bytesOf "101 Switching Protocols"

/-- The message at the front of the buffer and the bytes it takes there, once they are all
readable. The extended lengths are not read. -/
def parseFrame (buf : Buffer) : Option (Bytes × ℕ) :=
  match buf with
  | _ :: b2 :: _ =>
      let len := (b2 &&& 0x7F).toNat
      -- the two bytes of an extended length are skipped and not read
      let headerLen := if len = 126 then 4 else 2
      if headerLen + len ≤ buf.length then
        some ((buf.drop headerLen).take len, headerLen + len)
      else none
  | _ => none

/-- The envelope of a message. -/
def envelope (msg : Bytes) : StreamEnvelope where
  header := some { messageType := bytesOf "websocket.message" }
  payload := some { data := msg }

/-- `OnDataReceived`, over the session, `upgraded_` and the input buffer, given the memory behind
the readable bytes. A handler that throws leaves the buffer as it is. -/
def onDataReceived (handler : Option (MessageHandler σ)) (p : ClientSession σ × Bool × Buffer)
    (beyond : Bytes) : ClientSession σ × Bool × Buffer :=
  let (s, upgraded, buf) := p
  if upgraded then
    -- one frame for each call
    match parseFrame buf with
    | none => (s, true, buf)
    | some (msg, size) =>
        let s := s.deliver handler (envelope msg)
        if s.thrown.isSome then (s, true, buf) else (s, true, Buffer.retrieve buf size)
  -- what has come behind the response is thrown away with it
  else if (strstr (buf ++ beyond) switchingProtocols).isSome then (s, true, Buffer.retrieveAll buf)
  else (s, false, buf)

/-- `OnDataReceived` called after each read, given with the memory behind the readable bytes, until
an exception leaves a call. -/
def receiveAll (handler : Option (MessageHandler σ)) (p : ClientSession σ × Bool × Buffer)
    (reads : List (Bytes × Bytes)) : ClientSession σ × Bool × Buffer :=
  reads.foldl (fun p read =>
    if p.1.thrown.isSome then p
    else onDataReceived handler (p.1, p.2.1, Buffer.append p.2.2 read.1) read.2) p

/-! ## The frames the client reads -/

/-- What the client reads as a frame with this message: two bytes, the second of which gives its
length, two more if that is 126, and the message. -/
def IsFrame (msg frame : Bytes) : Prop :=
  ∃ b1 b2 ext, frame = b1 :: b2 :: (ext ++ msg) ∧ (b2 &&& 0x7F).toNat = msg.length ∧
    ext.length = if msg.length = 126 then 2 else 0

/-- A frame at the front of the buffer is taken, whatever follows it. -/
theorem parseFrame_frame {msg frame : Bytes} (h : IsFrame msg frame) (rest : Bytes) :
    parseFrame (frame ++ rest) = some (msg, frame.length) := by
  obtain ⟨b1, b2, ext, rfl, hlen, hext⟩ := h
  have hsize : (if msg.length = 126 then 4 else 2) = ext.length + 2 := by
    rw [hext]
    split <;> rfl
  have hdrop : (b1 :: b2 :: (ext ++ (msg ++ rest))).drop (ext.length + 2) = msg ++ rest := by
    rw [List.drop_succ_cons, List.drop_succ_cons, List.drop_left]
  have hfits : ext.length + 2 + msg.length ≤ (b1 :: b2 :: (ext ++ (msg ++ rest))).length := by
    simp only [List.length_cons, List.length_append]
    omega
  rw [List.cons_append, List.cons_append, List.append_assoc, parseFrame]
  simp only [hlen, hsize, hdrop, List.take_left, if_pos hfits]
  congr 2
  simp only [List.length_cons, List.length_append]
  omega

/-- **What is taken is a frame.** -/
theorem isFrame_of_parseFrame {buf : Buffer} {msg : Bytes} {size : ℕ}
    (h : parseFrame buf = some (msg, size)) :
    ∃ frame rest, buf = frame ++ rest ∧ frame.length = size ∧ IsFrame msg frame := by
  unfold parseFrame at h
  split at h
  · next b1 b2 rest =>
      set len := (b2 &&& 0x7F).toNat with hlen
      -- two bytes of header, and two more for the longer form of the length
      have hsize : (if len = 126 then 4 else 2) = (if len = 126 then 2 else 0) + 2 := by
        split <;> rfl
      simp only [hsize, List.drop_succ_cons, List.length_cons] at h
      generalize hext : (if len = 126 then 2 else 0) = ext at h
      split at h
      · next hfits =>
          cases h
          have hmsg : ((rest.drop ext).take len).length = len := by
            rw [List.length_take, List.length_drop]
            omega
          have htake : (rest.take ext).length = ext := by
            rw [List.length_take]
            omega
          refine ⟨b1 :: b2 :: (rest.take ext ++ (rest.drop ext).take len),
            (rest.drop ext).drop len, ?_, ?_, b1, b2, rest.take ext, rfl, ?_, ?_⟩
          · rw [List.cons_append, List.cons_append, List.append_assoc, List.take_append_drop,
              List.take_append_drop]
          · simp only [List.length_cons, List.length_append, hmsg, htake]
            omega
          · rw [hmsg]
          · rw [hmsg, htake, hext]
      · cases h
  · cases h

/-- Frames as items of the input. -/
def frames : Splitter UInt8 Bytes where
  first buf := (parseFrame buf).map fun p => (p.1, buf.drop p.2)
  length_lt := by
    intro s msg rest h
    obtain ⟨⟨msg, size⟩, hparse, hp⟩ := Option.map_eq_some_iff.mp h
    obtain ⟨frame, rest, rfl, rfl, b1, b2, ext, rfl, -, -⟩ := isFrame_of_parseFrame hparse
    cases hp
    rw [List.drop_left, List.length_append]
    simp
  first_append := by
    intro s msg rest c h
    obtain ⟨⟨msg, size⟩, hparse, hp⟩ := Option.map_eq_some_iff.mp h
    obtain ⟨frame, rest, rfl, rfl, hframe⟩ := isFrame_of_parseFrame hparse
    cases hp
    rw [List.append_assoc, parseFrame_frame hframe, Option.map_some, List.drop_left,
      List.drop_left]

/-- A frame that the client takes is read off the front. -/
theorem frames_first {msg frame : Bytes} (h : IsFrame msg frame) (rest : Bytes) :
    frames.first (frame ++ rest) = some (msg, rest) := by
  show (parseFrame (frame ++ rest)).map _ = _
  rw [parseFrame_frame h, Option.map_some, List.drop_left]

/-- **Frames one after another are the items of the input.** -/
theorem items_frames {msgs : List Bytes} {fs : List Bytes} (h : List.Forall₂ IsFrame msgs fs)
    (rest : Bytes) : frames.items (fs.flatten ++ rest) = msgs ++ frames.items rest := by
  induction h with
  | nil => rfl
  | cons hframe _ ih =>
      rw [List.flatten_cons, List.append_assoc, Splitter.items_of_some (frames_first hframe _), ih]
      rfl

/-- The input begins with the frames of its first items. -/
theorem exists_frames {msgs : List Bytes} {buf : Buffer} (h : msgs <+: frames.items buf) :
    ∃ fs rest, List.Forall₂ IsFrame msgs fs ∧ buf = fs.flatten ++ rest := by
  induction msgs generalizing buf with
  | nil => exact ⟨[], buf, .nil, rfl⟩
  | cons msg msgs ih =>
      cases hfirst : frames.first buf with
      | none =>
          rw [Splitter.items_of_none hfirst, List.prefix_nil] at h
          cases h
      | some p =>
          obtain ⟨msg', rest⟩ := p
          rw [Splitter.items_of_some hfirst, List.cons_prefix_cons] at h
          obtain ⟨rfl, h⟩ := h
          obtain ⟨⟨msg', size⟩, hparse, hp⟩ := Option.map_eq_some_iff.mp hfirst
          obtain ⟨frame, behind, rfl, rfl, hframe⟩ := isFrame_of_parseFrame hparse
          cases hp
          rw [List.drop_left] at h
          obtain ⟨fs, rest, hfs, rfl⟩ := ih h
          exact ⟨frame :: fs, rest, .cons hframe hfs,
            by rw [List.flatten_cons, List.append_assoc]⟩

end WebSocketClientProtocol

end NetworkLib
