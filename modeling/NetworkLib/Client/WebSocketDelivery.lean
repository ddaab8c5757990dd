import NetworkLib.Client.WebSocketProtocol
import NetworkLib.Protocols.WebSocket.Handler

/-! # WebSocket messages from the server to the client

The client drops what it has read when it finds the phrase that says the connection is upgraded, and
from then on takes one frame a read. -/

namespace NetworkLib

namespace WebSocketClientProtocol

/-! ## Before the upgrade -/

/-- The bytes received up to the read on which the phrase is found, and the reads after it. -/
def afterUpgrade (received : Bytes) :
    List (Bytes × Bytes) → Option (Bytes × List (Bytes × Bytes))
  | [] => none
  | (read, beyond) :: reads =>
      if (strstr (received ++ read ++ beyond) switchingProtocols).isSome then
        some (received ++ read, reads)
      else afterUpgrade (received ++ read) reads

variable {received : Bytes} {reads later : List (Bytes × Bytes)}

/-- No byte comes twice or gets lost between the two. -/
theorem afterUpgrade_append {bs : Bytes} (h : afterUpgrade received reads = some (bs, later)) :
    bs ++ (later.map Prod.fst).flatten = received ++ (reads.map Prod.fst).flatten := by
  induction reads generalizing received with
  | nil => cases h
  | cons read reads ih =>
      rw [List.map_cons, List.flatten_cons, ← List.append_assoc]
      rw [afterUpgrade] at h
      split at h
      · cases h
        rfl
      · exact ih h

/-- What the answer to an upgrade request begins with. -/
def statusLine : Bytes := bytesOf "HTTP/1.1 101 Switching Protocols"

/-- **The phrase is found.** -/
theorem exists_afterUpgrade (hne : reads ≠ [])
    (h : statusLine <+: received ++ (reads.map Prod.fst).flatten) :
    ∃ bs later, afterUpgrade received reads = some (bs, later) := by
  induction reads generalizing received with
  | nil => exact absurd rfl hne
  | cons read reads ih =>
      obtain ⟨read, beyond⟩ := read
      rw [List.map_cons, List.flatten_cons, ← List.append_assoc] at h
      by_cases hfound : (strstr (received ++ read ++ beyond) switchingProtocols).isSome
      · exact ⟨received ++ read, reads, by rw [afterUpgrade, if_pos hfound]⟩
      · rw [afterUpgrade, if_neg hfound]
        refine ih ?_ h
        rintro rfl
        -- the last read brings the whole status line
        obtain ⟨rest, hrest⟩ := h
        rw [List.map_nil, List.flatten_nil, List.append_nil] at hrest
        have hsearch : search switchingProtocols statusLine = some 9 := by decide
        have hstrstr := strstr_of_search (by decide) (rest ++ beyond) hsearch
        rw [← List.append_assoc, hrest] at hstrstr
        exact hfound (by rw [hstrstr, Option.isSome_some])

variable {τ : Type*} {g : MessageHandler τ} {s : ClientSession τ}

/-- The last read comes after all the others. -/
theorem receiveAll_snoc (handler : Option (MessageHandler τ)) (p : ClientSession τ × Bool × Buffer)
    (reads : List (Bytes × Bytes)) (read : Bytes × Bytes) :
    receiveAll handler p (reads ++ [read]) =
      if (receiveAll handler p reads).1.thrown.isSome then receiveAll handler p reads
      else onDataReceived handler ((receiveAll handler p reads).1, (receiveAll handler p reads).2.1,
        Buffer.append (receiveAll handler p reads).2.2 read.1) read.2 := by
  rw [receiveAll, List.foldl_append]
  rfl

/-- From the read after the one that brings the phrase on, the client reads frames. -/
theorem receiveAll_waiting (hs : s.thrown = none) {bs : Bytes}
    (h : afterUpgrade received reads = some (bs, later)) :
    receiveAll (some g) (s, false, received) reads = receiveAll (some g) (s, true, []) later := by
  induction reads generalizing received with
  | nil => cases h
  | cons read reads ih =>
      obtain ⟨read, beyond⟩ := read
      have hstep : receiveAll (some g) (s, false, received) ((read, beyond) :: reads)
          = receiveAll (some g)
              (onDataReceived (some g) (s, false, received ++ read) beyond) reads := by
        rw [receiveAll, List.foldl_cons, hs]
        rfl
      rw [afterUpgrade] at h
      rw [hstep, onDataReceived]
      by_cases hfound : (strstr (received ++ read ++ beyond) switchingProtocols).isSome
      · rw [if_pos hfound] at h
        cases h
        simp only [Bool.false_eq_true, if_false, if_pos hfound, Buffer.retrieveAll]
      · rw [if_neg hfound] at h
        simp only [Bool.false_eq_true, if_false, if_neg hfound]
        exact ih h

/-! ## After the upgrade -/

/-- **After the upgrade the frames are taken one a read.** -/
theorem receiveAll_upgraded (hg : g.NoThrow) (hs : s.thrown = none)
    (reads : List (Bytes × Bytes)) :
    ∃ app, receiveAll (some g) (s, true, []) reads =
      ({ app, delivered := s.delivered ++ (frames.paced (reads.map Prod.fst)).1.map envelope },
        true, (frames.paced (reads.map Prod.fst)).2) := by
  induction reads using List.reverseRecOn with
  | nil =>
      refine ⟨s.app, ?_⟩
      obtain ⟨app, delivered, thrown⟩ := s
      cases hs
      simp [receiveAll, Splitter.paced]
  | append_singleton reads read ih =>
      obtain ⟨app, hreads⟩ := ih
      rw [receiveAll_snoc, hreads, List.map_append, List.map_singleton, Splitter.paced_snoc]
      generalize frames.paced (reads.map Prod.fst) = paced
      simp only [Option.isSome_none, Bool.false_eq_true, if_false, onDataReceived, if_true,
        Buffer.append_eq]
      have hfirst : frames.first (paced.2 ++ read.1)
          = (parseFrame (paced.2 ++ read.1)).map fun p => (p.1, (paced.2 ++ read.1).drop p.2) := rfl
      rw [hfirst]
      cases parseFrame (paced.2 ++ read.1) with
      | none => exact ⟨app, rfl⟩
      | some p =>
          obtain ⟨msg, size⟩ := p
          refine ⟨(g app (envelope msg)).1, ?_⟩
          simp [ClientSession.deliver, hg app (envelope msg)]

/-! ## The frames of the server -/

/-- A byte without its top bit. -/
theorem toNat_ofNat_and (n : ℕ) (hn : n < 128) : (UInt8.ofNat n &&& 0x7F).toNat = n := by
  have hall : ∀ n < 128, (UInt8.ofNat n &&& 0x7F).toNat = n := by decide
  exact hall n hn

open WebSocketStreamContext (textFrame)

/-- A payload of at most 126 bytes goes out as a frame the client reads. -/
theorem isFrame_textFrame {payload : Bytes} (h : payload.length ≤ 126) :
    IsFrame payload (textFrame payload) := by
  rcases Nat.lt_or_eq_of_le h with hlt | heq
  · refine ⟨0x81, UInt8.ofNat payload.length, [], ?_, toNat_ofNat_and _ (by omega), ?_⟩
    · simp only [textFrame, if_pos hlt]
      rfl
    · rw [if_neg (by omega)]
      rfl
  · refine ⟨0x81, 126, [UInt8.ofNat (126 >>> 8), UInt8.ofNat 126], ?_, ?_, ?_⟩
    · simp only [textFrame, heq]
      rfl
    · rw [heq]
      decide
    · rw [if_pos heq]
      rfl

/-- A longer one does not: whatever follows it, the client does not find it there. -/
theorem length_le_of_isFrame {payload frame rest rest' : Bytes} (h : IsFrame payload frame)
    (heq : frame ++ rest = textFrame payload ++ rest') : payload.length ≤ 126 := by
  obtain ⟨b1, b2, ext, rfl, hlen, -⟩ := h
  by_contra hlong
  by_cases hmedium : payload.length < 65536
  · simp only [textFrame, if_neg (show ¬ payload.length < 126 by omega), if_pos hmedium,
      List.cons_append, List.cons.injEq] at heq
    rw [heq.2.1] at hlen
    have h126 : ((126 : UInt8) &&& 0x7F).toNat = 126 := by decide
    omega
  · simp only [textFrame, if_neg (show ¬ payload.length < 126 by omega), if_neg hmedium,
      List.cons_append, List.cons.injEq] at heq
    rw [heq.2.1] at hlen
    have h127 : ((127 : UInt8) &&& 0x7F).toNat = 127 := by decide
    omega

/-- How long a frame is that the client takes. -/
theorem length_of_isFrame {payload frame : Bytes} (h : IsFrame payload frame) :
    frame.length = payload.length + (if payload.length = 126 then 4 else 2) := by
  obtain ⟨b1, b2, ext, rfl, -, hext⟩ := h
  simp only [List.length_cons, List.length_append, hext]
  split <;> omega

/-- If the client finds the payloads in the frames of the server, none has more than 126 bytes. -/
theorem length_le_of_frames {payloads fs : List Bytes} (h : List.Forall₂ IsFrame payloads fs)
    {rest rest' : Bytes} (heq : fs.flatten ++ rest = payloads.flatMap textFrame ++ rest') :
    ∀ payload ∈ payloads, payload.length ≤ 126 := by
  induction h with
  | nil => exact fun payload hpayload => absurd hpayload List.not_mem_nil
  | cons hframe _ ih =>
      rw [List.flatten_cons, List.flatMap_cons, List.append_assoc, List.append_assoc] at heq
      have hle := length_le_of_isFrame hframe heq
      have hlength := (length_of_isFrame hframe).trans
        (length_of_isFrame (isFrame_textFrame hle)).symm
      rw [List.forall_mem_cons]
      exact ⟨hle, ih (List.append_inj heq hlength).2⟩

/-- **The payloads are there for the client to read**: the bytes begin with frames of theirs, and
the reads come in time for them and for no other frame. -/
def Readable (payloads reads : List Bytes) : Prop :=
  (∃ fs rest, List.Forall₂ IsFrame payloads fs ∧ reads.flatten = fs.flatten ++ rest) ∧
    frames.InTime payloads.length reads ∧ ¬ frames.InTime (payloads.length + 1) reads

/-- Frames read at the pace of the reads are all the payloads exactly if these are readable. -/
theorem paced_eq_iff_readable {payloads reads : List Bytes} :
    (frames.paced reads).1 = payloads ↔ Readable payloads reads := by
  rw [Splitter.paced_eq_iff]
  refine and_congr_left fun _ => ⟨exists_frames, ?_⟩
  rintro ⟨fs, rest, hfs, hbytes⟩
  rw [hbytes, items_frames hfs]
  exact List.prefix_append _ _

/-- **Reads of just the frames of the server** are readable if no payload has more than 126 bytes
and the reads come in time. -/
theorem readable_iff_of_frames {payloads reads : List Bytes}
    (h : reads.flatten = payloads.flatMap textFrame) :
    Readable payloads reads ↔
      (∀ payload ∈ payloads, payload.length ≤ 126) ∧ frames.InTime payloads.length reads := by
  constructor
  · rintro ⟨⟨fs, rest, hfs, hbytes⟩, htime, -⟩
    rw [h, ← List.append_nil (payloads.flatMap textFrame)] at hbytes
    exact ⟨length_le_of_frames hfs hbytes.symm, htime⟩
  · rintro ⟨hshort, htime⟩
    have hfs : List.Forall₂ IsFrame payloads (payloads.map textFrame) := by
      rw [List.forall₂_map_right_iff, List.forall₂_same]
      exact fun payload hpayload => isFrame_textFrame (hshort payload hpayload)
    have hbytes : reads.flatten = (payloads.map textFrame).flatten ++ [] := by
      rw [h, List.append_nil, List.flatMap_def]
    refine ⟨⟨_, [], hfs, hbytes⟩, htime, fun hmore => ?_⟩
    -- in the end there are no more frames than payloads
    have hend := hmore reads.length le_rfl
    rw [List.take_length, hbytes, items_frames hfs, Splitter.items_nil] at hend
    simp at hend

/-- What the server sends for the writes of a stream handler. -/
theorem sentBytes_writes {calls : List ContextCall} (h : .close ∉ calls) :
    sentBytes (calls.flatMap WebSocketStreamContext.onConn)
      = (calls.map ContextCall.data).flatMap textFrame := by
  induction calls with
  | nil => rfl
  | cons call calls ih =>
      rw [List.mem_cons, not_or] at h
      rw [List.flatMap_cons, sentBytes_append, ih h.2, List.map_cons, List.flatMap_cons]
      congr 1
      cases call with
      | write msg =>
          rw [WebSocketStreamContext.onConn, ContextCall.data, StreamEnvelope.getPayload,
            sentBytes_send]
          cases msg.payload <;> rfl
      | writeString data => exact sentBytes_send _
      | close => exact absurd rfl h.1

/-- The answer to an upgrade request begins with the status line. -/
theorem statusLine_isPrefix (key : Bytes) : statusLine <+: Handshake.generateResponse key := by
  rw [Handshake.generateResponse, List.append_assoc, List.append_assoc]
  exact (show statusLine <+: bytesOf
    "HTTP/1.1 101 Switching Protocols\r\nUpgrade: websocket\r\nConnection: Upgrade\r\n" by
      decide).trans (List.prefix_append _ _)

end WebSocketClientProtocol

open WebSocketClientProtocol in
/-- **WebSocket messages from the server to the client.** There is a read on which the client finds
that it is upgraded. The client delivers the payloads, each once and in order, exactly if they are
there for it to read in the reads after that one; and if that read ends with the answer, this is so
exactly if no payload has more than 126 bytes and the reads come in time for them. -/
theorem websocket_delivery_iff {τ : Type*} (key : Bytes) {calls : List ContextCall}
    (hcalls : .close ∉ calls) {g : MessageHandler τ} (hg : g.NoThrow) (app : τ)
    {reads : List (Bytes × Bytes)}
    (hreads : (reads.map Prod.fst).flatten = Handshake.generateResponse key
      ++ sentBytes (calls.flatMap WebSocketStreamContext.onConn)) :
    ∃ received later, afterUpgrade [] reads = some (received, later) ∧
      ((receiveAll (some g) ({ app }, false, []) reads).1.delivered.map
          (fun m => m.getPayload.data) = calls.map ContextCall.data ↔
        Readable (calls.map ContextCall.data) (later.map Prod.fst)) ∧
      (received = Handshake.generateResponse key →
        (Readable (calls.map ContextCall.data) (later.map Prod.fst) ↔
          (∀ payload ∈ calls.map ContextCall.data, payload.length ≤ 126) ∧
            frames.InTime calls.length (later.map Prod.fst))) := by
  -- The stream begins with the status line, so some read completes the upgrade.
  have hstatus : statusLine <+: [] ++ (reads.map Prod.fst).flatten := by
    rw [List.nil_append, hreads]
    exact (statusLine_isPrefix key).trans (List.prefix_append _ _)
  have hne : reads ≠ [] := by
    rintro rfl
    exact absurd (List.prefix_nil.mp hstatus) (by decide)
  obtain ⟨received, later, hafter⟩ := exists_afterUpgrade hne hstatus
  refine ⟨received, later, hafter, ?_, fun hreceived => ?_⟩
  -- behind the upgrade each read takes one frame at most
  · obtain ⟨app', hrun⟩ := receiveAll_upgraded hg (show ({ app } : ClientSession τ).thrown = none
      from rfl) later
    have hdata : (fun m : StreamEnvelope => m.getPayload.data) ∘ envelope = id := rfl
    rw [receiveAll_waiting rfl hafter, hrun, List.nil_append, List.map_map, hdata, List.map_id,
      paced_eq_iff_readable]
  · have hbytes := afterUpgrade_append hafter
    rw [List.nil_append, hreads, hreceived, List.append_cancel_left_eq, sentBytes_writes hcalls]
      at hbytes
    rw [readable_iff_of_frames hbytes, List.length_map]

open WebSocketClientProtocol in
/-- Two payloads, in reads cut inside the second frame. -/
theorem websocket_delivery_iff_two :
    let key := bytesOf "k"
    let calls := [ContextCall.writeString (bytesOf "a"), ContextCall.writeString (bytesOf "bc")]
    let second := WebSocketStreamContext.textFrame (bytesOf "bc")
    let reads := [(Handshake.generateResponse key, []),
      (WebSocketStreamContext.textFrame (bytesOf "a") ++ second.take 3, []), (second.drop 3, [])]
    ∃ received later, afterUpgrade [] reads = some (received, later) ∧
      ((receiveAll (some ignore) ({ app := () }, false, []) reads).1.delivered.map
          (fun m => m.getPayload.data) = calls.map ContextCall.data ↔
        Readable (calls.map ContextCall.data) (later.map Prod.fst)) ∧
      (received = Handshake.generateResponse key →
        (Readable (calls.map ContextCall.data) (later.map Prod.fst) ↔
          (∀ payload ∈ calls.map ContextCall.data, payload.length ≤ 126) ∧
            frames.InTime calls.length (later.map Prod.fst))) := by
  intro key calls second reads
  exact websocket_delivery_iff key (by decide) noThrow_ignore () rfl

open WebSocketClientProtocol in
/-- Of two frames in the last read only the first is delivered. -/
theorem websocket_delivery_fails_on_shared_read :
    ¬ ∀ (key : Bytes) (calls : List ContextCall), .close ∉ calls →
      ∀ reads : List (Bytes × Bytes), (reads.map Prod.fst).flatten = Handshake.generateResponse key
        ++ sentBytes (calls.flatMap WebSocketStreamContext.onConn) →
      (receiveAll (some ignore) ({ app := () }, false, []) reads).1.delivered.map
        (fun m => m.getPayload.data) = calls.map ContextCall.data := by
  intro h
  have hdelivered := h (bytesOf "k") [.writeString (bytesOf "a"), .writeString (bytesOf "b")]
    (by decide) [(Handshake.generateResponse (bytesOf "k"), []),
      (WebSocketStreamContext.textFrame (bytesOf "a")
        ++ WebSocketStreamContext.textFrame (bytesOf "b"), [])] rfl
  revert hdelivered
  decide

end NetworkLib
