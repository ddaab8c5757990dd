import NetworkLib.Protocols.WebSocket.Reads
import NetworkLib.Protocols.WebSocket.Upgrade

/-! # The bytes behind the upgrade request

The handshake branch of `OnMessage` returns without a look at the bytes behind the request. Frames
that come with the request in one read stay in the buffer until another read comes, so that they are
all dispatched exactly when none of them did, or another read follows (`allDispatched_iff`). -/

namespace NetworkLib

open FrameParser

/-- A frame that carries data. -/
abbrev DataFrame := { f : WireFrame // f.IsData }

/-- The frames as they are sent. -/
def sentFrames (frames : List DataFrame) : List WireFrame := frames.map Subtype.val

/-- All the frames sent are data frames. -/
theorem dataFrames_sentFrames (frames : List DataFrame) :
    dataFrames (sentFrames frames) = sentFrames frames := by
  refine List.filter_eq_self.mpr fun f hf => ?_
  obtain ⟨d, -, rfl⟩ := List.mem_map.mp hf
  simpa using d.2

/-- None of them is a Close frame. -/
theorem opcode_ne_of_mem_sentFrames {frames : List DataFrame} {f : WireFrame}
    (hf : f ∈ sentFrames frames) : f.opcode ≠ WireFrame.kClose := by
  obtain ⟨d, -, rfl⟩ := List.mem_map.mp hf
  rcases d.2 with hd | hd
  · rw [hd]
    decide
  · rw [hd]
    decide

namespace WebSocketHandler

variable {σ : Type*} (digest : Bytes → Bytes) (h : ProtocolHandler σ)

/-- The reads of a connection: the request head with some frames behind it, and then groups of
frames, each with the memory behind the readable bytes. -/
def upgradeReads (head : RequestHead) (first : List DataFrame × Bytes)
    (groups : List (List DataFrame × Bytes)) : List (Bytes × Bytes) :=
  (head.bytes ++ (wires (sentFrames first.1)).flatten, first.2) ::
    groups.map fun g => ((wires (sentFrames g.1)).flatten, g.2)

/-- **Every frame is dispatched, once and in order**, by the last of the reads. -/
def AllDispatched (app : σ) (head : RequestHead) (first : List DataFrame × Bytes)
    (groups : List (List DataFrame × Bytes)) : Prop :=
  (receiveAll digest h ({ app }, {}, []) (upgradeReads head first groups)).1.dispatched
    = (first.1 ++ groups.flatMap Prod.fst).map fun f => envelope f.val.frame

instance (app : σ) (head : RequestHead) (first : List DataFrame × Bytes)
    (groups : List (List DataFrame × Bytes)) :
    Decidable (AllDispatched digest h app head first groups) :=
  inferInstanceAs (Decidable (_ = _))

variable {digest h}

/-- The first read of a connection is one for the handshake. -/
theorem receive_first (app : σ) (read : Bytes × Bytes) :
    receive digest h ({ app }, {}, []) read = onHandshake digest ({ app }, {}, read.1) read.2 := by
  rw [receive, if_neg (by simp), onMessage]
  rfl

/-! ## Requests that are not accepted -/

/-- After an exception or a refusal there are no more calls. -/
theorem receiveAll_of_over {p : Session σ × WebSocketHandler × Buffer}
    (hover : p.1.thrown.isSome ∨ p.2.1.isUpgraded = false ∧ ConnCall.forceClose ∈ p.1.calls)
    (reads : List (Bytes × Bytes)) : receiveAll digest h p reads = p := by
  induction reads with
  | nil => rfl
  | cons read reads ih =>
      have hreceive : receive digest h p read = p := if_pos hover
      rw [receiveAll, List.foldl_cons, hreceive]
      exact ih

/-- A head with a NUL byte is never found, whatever is read. -/
theorem receiveAll_nul {head : RequestHead} (hnul : (0 : UInt8) ∈ head.text) {s : Session σ}
    (hthrown : s.thrown = none) (hcalls : s.calls = []) (more : Bytes)
    (reads : List (Bytes × Bytes)) :
    (receiveAll digest h (s, {}, head.bytes ++ more) reads).1 = s := by
  induction reads generalizing more with
  | nil => rfl
  | cons read reads ih =>
      have henter : s.enter = s := by
        rw [Session.enter, ← hthrown]
      have hreceive : receive digest h (s, {}, head.bytes ++ more) read
          = (s, {}, head.bytes ++ (more ++ read.1)) := by
        rw [receive, if_neg (by simp [hthrown, hcalls]), onMessage]
        simp only [Bool.false_eq_true, if_false, henter, Buffer.append_eq, List.append_assoc]
        exact onHandshake_nul digest hnul s {} (more ++ read.1) read.2
      rw [receiveAll, List.foldl_cons, hreceive]
      exact ih (more ++ read.1)

/-- A request that is not accepted is followed by no dispatch. -/
theorem dispatched_of_not_accepted {head : RequestHead} (hrefused : ¬ (head.Legible ∧ head.Keyed))
    (app : σ) (first : List DataFrame × Bytes) (groups : List (List DataFrame × Bytes)) :
    (receiveAll digest h ({ app }, {}, []) (upgradeReads head first groups)).1.dispatched = [] := by
  rw [receiveAll, upgradeReads, List.foldl_cons, receive_first, ← receiveAll]
  by_cases hnul : (0 : UInt8) ∈ head.text
  · rw [onHandshake_nul digest hnul, receiveAll_nul hnul rfl rfl]
  · by_cases hcolon : ∃ line ∈ Handshake.headerLines head.text, EndsAtColon line
    · rw [onHandshake_throws digest hnul hcolon, receiveAll_of_over (.inl rfl)]
    · have hlegible : head.Legible :=
        ⟨hnul, fun line hline hends => hcolon ⟨line, hline, hends⟩⟩
      have hkeyed : ¬ head.Keyed := fun hkeyed => hrefused ⟨hlegible, hkeyed⟩
      rw [onHandshake_unkeyed digest hlegible hkeyed,
        receiveAll_of_over (.inr ⟨rfl, by simp [Session.push]⟩)]
      rfl

/-! ## Requests that are accepted -/

variable (digest h) in
/-- The call that upgrades the connection leaves the frames behind the request unread. -/
theorem receive_accepted {head : RequestHead} (hlegible : head.Legible) (hkeyed : head.Keyed)
    (app : σ) (first : List DataFrame × Bytes) :
    let r := receive digest h ({ app }, {}, [])
      (head.bytes ++ (wires (sentFrames first.1)).flatten, first.2)
    AtBoundary r (sentFrames first.1) ∧ r.1.consumed = 0 ∧ r.1.dispatched = [] := by
  obtain ⟨acceptKey, hr⟩ := onHandshake_keyed digest hlegible hkeyed { app } {}
    (wires (sentFrames first.1)).flatten first.2
  rw [receive_first, hr]
  exact ⟨⟨rfl, rfl, rfl, rfl⟩, rfl, rfl⟩

/-- With a stream handler the frames are heard as the requests of their payloads. -/
theorem heard_sentFrames (hhandler : h.streamHandler.isSome) (frames : List DataFrame) :
    heard h (sentFrames frames) = frames.map fun f => envelope f.val.frame := by
  rw [heard, if_pos hhandler, dataFrames_sentFrames, sentFrames, List.map_map]
  rfl

/-- Some frames sent, and more behind them. -/
theorem sentFrames_append (frames frames' : List DataFrame) :
    sentFrames (frames ++ frames') = sentFrames frames ++ sentFrames frames' := List.map_append

/-- The groups, as groups of frames of the wire. -/
theorem flatMap_sentFrames (groups : List (List DataFrame × Bytes)) :
    (groups.map fun g => (sentFrames g.1, g.2)).flatMap Prod.fst
      = sentFrames (groups.flatMap Prod.fst) := by
  rw [List.flatMap_map, sentFrames, List.map_flatMap]
  rfl

variable (digest) in
/-- No more requests are dispatched than frames are sent; when as many are, the stream handler is
set and the rate limiter has admitted them all. -/
theorem admitted_of_dispatched {first : List DataFrame × Bytes}
    (groups : List (List DataFrame × Bytes)) {p : Session σ × WebSocketHandler × Buffer}
    {app : σ} (hp : AtBoundary p (sentFrames first.1)) (hconsumed : p.1.consumed = 0)
    (ht : Tally h { app } p.1) :
    let sent := first.1 ++ groups.flatMap Prod.fst
    let r := receiveAll digest h p (groups.map fun g => ((wires (sentFrames g.1)).flatten, g.2))
    r.1.dispatched.length ≤ sent.length ∧ (r.1.dispatched.length = sent.length →
      (∀ k < sent.length, h.checkRateLimit k = true) ∧ (sent ≠ [] → h.streamHandler.isSome)) := by
  intro sent r
  have htally : Tally h { app } r.1 := tally_receiveAll digest ht _
  have hcount : r.1.consumed ≤ sent.length := by
    obtain ⟨left, -, hcount⟩ := receiveAll_wires digest h hp
      (groups.map fun g => (sentFrames g.1, g.2))
    rw [List.map_map, flatMap_sentFrames, ← sentFrames_append, dataFrames_sentFrames, sentFrames,
      List.length_map, hconsumed] at hcount
    have hr : r.1.consumed + (dataFrames left).length = 0 + sent.length := hcount
    omega
  have hadmitted : r.1.dispatched.length ≤ 0 +
      ((List.range' 0 (r.1.consumed - 0)).filter h.checkRateLimit).length := htally.dispatched
  have hfilter := (List.length_filter_le h.checkRateLimit
    (List.range' 0 (r.1.consumed - 0))).trans_eq List.length_range'
  refine ⟨by omega, fun hlen => ?_⟩
  obtain ⟨hall, hhandler⟩ := htally.admitted (n := sent.length) (by simpa using hcount)
    (by simpa using hlen.ge)
  exact ⟨fun k hk => by simpa using hall k hk, fun hne => hhandler (by simpa using hne)⟩

variable (digest) in
/-- The next read takes the frames left behind the request with it, and the others follow. -/
theorem dispatched_of_admitted {first : List DataFrame × Bytes} {g : List DataFrame × Bytes}
    {groups : List (List DataFrame × Bytes)} {p : Session σ × WebSocketHandler × Buffer}
    (hp : AtBoundary p (sentFrames first.1)) (hconsumed : p.1.consumed = 0)
    (hhandler : h.streamHandler.isSome)
    (hallows : ∀ k < (first.1 ++ (g :: groups).flatMap Prod.fst).length,
      h.checkRateLimit k = true) :
    (receiveAll digest h p
        ((g :: groups).map fun g => ((wires (sentFrames g.1)).flatten, g.2))).1.dispatched
      = p.1.dispatched
        ++ (first.1 ++ (g :: groups).flatMap Prod.fst).map fun f => envelope f.val.frame := by
  have hopen {frames : List DataFrame} : ∀ f ∈ sentFrames frames, f.opcode ≠ WireFrame.kClose :=
    fun f hf => opcode_ne_of_mem_sentFrames hf
  have hlen (frames : List DataFrame) : (dataFrames (sentFrames frames)).length = frames.length := by
    rw [dataFrames_sentFrames, sentFrames, List.length_map]
  rw [List.flatMap_cons, ← List.append_assoc, List.length_append] at hallows
  -- The first read still holds frames of the read that upgraded; the others begin at a frame.
  obtain ⟨hr, hconsumed', hdispatched⟩ := receive_admitted digest (h := h) hp (sentFrames g.1)
    (by rw [← sentFrames_append]; exact hopen)
    (fun k hk => by
      rw [← sentFrames_append, hlen] at hk
      rw [hconsumed, Nat.zero_add]
      exact hallows k (by omega)) g.2
  rw [← sentFrames_append, hlen, hconsumed, Nat.zero_add] at hconsumed'
  obtain ⟨-, -, hdispatcheds⟩ := receiveAll_admitted digest (h := h) hr
    (groups.map fun g => (sentFrames g.1, g.2)) (by rw [flatMap_sentFrames]; exact hopen)
    (fun k hk => by
      rw [flatMap_sentFrames, hlen] at hk
      rw [hconsumed']
      exact hallows _ (by omega))
  rw [List.map_map, flatMap_sentFrames, heard_sentFrames hhandler, hdispatched, ← sentFrames_append,
    heard_sentFrames hhandler] at hdispatcheds
  rw [List.flatMap_cons, ← List.append_assoc, List.map_append, ← List.append_assoc]
  exact hdispatcheds

/-- A valid upgrade request. -/
def upgradeHead : RequestHead where
  text := bytesOf "GET / HTTP/1.1\r\nHost: a\r\nUpgrade: websocket\r\nConnection: Upgrade\r\n" ++
    bytesOf "Sec-WebSocket-Version: 13\r\nSec-WebSocket-Key: dGhl"
  complete := by decide +kernel

end WebSocketHandler

end NetworkLib
