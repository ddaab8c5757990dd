import NetworkLib.Protocols.HttpParser
import NetworkLib.Protocols.WebSocket.Handler

/-! # Exceptions from header parsing

No handler catches what `substr` and `stoi` throw while a request is parsed, and neither does the
event loop. On which received bytes that happens, for the HTTP parser and for the WebSocket
handshake. -/

namespace NetworkLib

variable {σ : Type*} (digest : Bytes → Bytes) (h : ProtocolHandler σ)

namespace WebSocketHandler

/-- The first upgrade request found in the memory from the reader index on, with the given bytes
already unread. Each read comes with the memory behind the readable bytes. -/
def firstHeader (unread : Bytes) : List (Bytes × Bytes) → Option Bytes
  | [] => none
  | (read, beyond) :: reads =>
      match Handshake.headerStr (unread ++ read ++ beyond) with
      | some header => some header
      | none => firstHeader (unread ++ read) reads

/-- Before the upgrade, a call whose memory holds no upgrade request changes nothing. -/
theorem onMessage_of_none {s : Session σ} {buf : Buffer} {beyond : Bytes}
    (hnone : Handshake.headerStr (buf ++ beyond) = none) :
    onMessage digest h (s, {}, buf) beyond = (s.enter, {}, buf) := by
  simp [onMessage, onHandshake, hnone]

/-- Before the upgrade, a call whose memory holds an upgrade request throws exactly when reading its
headers does, and ends the handshake otherwise. -/
theorem onMessage_of_some {s : Session σ} {buf : Buffer} {beyond header : Bytes}
    (hsome : Handshake.headerStr (buf ++ beyond) = some header) :
    ((onMessage digest h (s, {}, buf) beyond).1.thrown.isSome ↔
        Handshake.readHeaders header = none) ∧
      ((onMessage digest h (s, {}, buf) beyond).1.thrown.isSome ∨
        (onMessage digest h (s, {}, buf) beyond).2.1.isUpgraded ∨
        ConnCall.forceClose ∈ (onMessage digest h (s, {}, buf) beyond).1.calls) := by
  simp only [onMessage, onHandshake, hsome, Bool.false_eq_true, if_false]
  cases Handshake.readHeaders header with
  | none => simp
  | some headers =>
      cases hkey : Handshake.process digest headers with
      | some key => simp [hkey]
      | none => simp [hkey, Session.push]

/-- **The handshake throws exactly when the first upgrade request found has a line that ends at its
first colon.** -/
theorem handshakeReads_throws_iff {s : Session σ} (hs : ConnCall.forceClose ∉ s.calls)
    (unread : Bytes) (reads : List (Bytes × Bytes)) :
    (∃ t ∈ handshakeReads digest h (s, unread) reads, t ≠ none) ↔
      ∃ header, firstHeader unread reads = some header ∧
        ∃ line ∈ Handshake.headerLines header, EndsAtColon line := by
  -- Induction on the reads, up to the first that completes the header.
  induction reads generalizing s unread with
  | nil => simp [handshakeReads, firstHeader]
  | cons r reads ih =>
      obtain ⟨read, beyond⟩ := r
      rw [handshakeReads, firstHeader, Buffer.append_eq]
      cases hh : Handshake.headerStr (unread ++ read ++ beyond) with
      | none =>
          have hgo : ¬ (s.enter.thrown.isSome ∨ ({} : WebSocketHandler).isUpgraded ∨
              ConnCall.forceClose ∈ s.enter.calls) := by
            simpa [Session.enter] using hs
          simp only [onMessage_of_none digest h hh]
          rw [if_neg hgo, Session.enter_thrown, List.exists_mem_cons_iff,
            ih (s := s.enter) hs (unread ++ read)]
          simp
      | some header =>
          obtain ⟨hthrown, hend⟩ := onMessage_of_some digest h (s := s) hh
          simp only
          rw [if_pos hend]
          simp only [List.mem_singleton, exists_eq_left, Option.some.injEq]
          rw [← Option.isSome_iff_ne_none, hthrown, Handshake.readHeaders_eq_none_iff, exists_eq_left']

end WebSocketHandler

/-- **The exact condition under which parsing received bytes throws nothing.** For the HTTP parser:
the bytes received are clean, in every cutting. For the WebSocket handshake: no line of the first
upgrade request found ends at its first colon. -/
theorem parsing_throws_nothing_iff (app : σ) :
    (∀ reads : List Bytes,
      .threw ∉ HttpHandler.parseReads ({}, []) reads ↔ HttpHandler.Clean reads.flatten) ∧
    ∀ reads : List (Bytes × Bytes),
      (∀ t ∈ WebSocketHandler.handshakeReads digest h ({ app }, []) reads, t = none) ↔
        ∀ header, WebSocketHandler.firstHeader [] reads = some header →
          ∀ line ∈ Handshake.headerLines header, ¬ EndsAtColon line := by
  constructor
  · intro reads
    rw [HttpHandler.threw_mem_parseReads (HttpHandler.nextPart_line (.inl rfl) []),
      List.nil_append, HttpHandler.drain_threw_iff, not_not]
  · intro reads
    have hthrows := WebSocketHandler.handshakeReads_throws_iff digest h
      (s := ({ app } : Session σ)) (by simp) [] reads
    simpa using not_congr hthrows

/-- A header line that ends at its colon is enough, for either handler. -/
theorem parsing_throws_on_final_colon :
    .threw ∈ HttpHandler.parseReads ({}, []) [bytesOf "GET / HTTP/1.1\r\nHost:\r\n"] ∧
      some .stdException ∈ WebSocketHandler.handshakeReads id ({} : ProtocolHandler Unit)
        ({ app := () }, []) [(bytesOf "GET / HTTP/1.1\r\nHost:\r\n\r\n", [])] := by
  decide

end NetworkLib
