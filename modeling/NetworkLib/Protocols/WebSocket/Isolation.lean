import NetworkLib.Theory.Trace
import NetworkLib.Protocols.WebSocket.Handler
import NetworkLib.Protocols.WebSocket.Live

/-! # One WebSocket handler for many connections

`Server::Init` creates one `WebSocketHandler` per configured protocol, and the accept callback calls
it for every accepted connection. A run interleaves the `OnConnection` and `OnMessage` calls of all
connections on the handler's one set of members. Beside them the model keeps, for each connection,
the members as that connection's own last call left them (`own`). -/

namespace NetworkLib

variable {σ : Type*}

/-- A connection, as the handler finds it. -/
structure WebSocketConn (σ : Type*) where
  accepted : Bool := false
  session : Session σ
  input : Buffer := []

namespace WebSocketConn

/-- `IsConnected` on an accepted connection; nothing but `ForceClose` ends one here. -/
def isConnected (c : WebSocketConn σ) : Bool :=
  c.accepted && decide (ConnCall.forceClose ∉ c.session.calls)

end WebSocketConn

namespace WebSocketHandler

variable {digest : Bytes → Bytes} {h : ProtocolHandler σ}

/-- The handshake leaves the parser alone, and depends on the members in no other way than through
what it returns. -/
theorem onHandshake_alike {s : Session σ} {w w' : WebSocketHandler} {buf : Buffer}
    {beyond beyond' : Bytes} (hflag : w.isUpgraded = w'.isUpgraded)
    (hheader : Handshake.headerStr (buf ++ beyond) = Handshake.headerStr (buf ++ beyond')) :
    let r := onHandshake digest (s, w, buf) beyond
    let r' := onHandshake digest (s, w', buf) beyond'
    r.1 = r'.1 ∧ r.2.2 = r'.2.2 ∧ r.2.1.isUpgraded = r'.2.1.isUpgraded ∧
      r.2.1.parser = w.parser ∧ r'.2.1.parser = w'.parser := by
  simp only [onHandshake, ← hheader]
  rcases Handshake.headerStr (buf ++ beyond) with _ | header
  · exact ⟨rfl, rfl, hflag, rfl, rfl⟩
  · simp only
    rcases Handshake.readHeaders header with _ | headers
    · exact ⟨rfl, rfl, hflag, rfl, rfl⟩
    · simp only
      rcases Handshake.process digest headers with _ | key
      · exact ⟨rfl, rfl, hflag, rfl, rfl⟩
      · exact ⟨rfl, rfl, rfl, rfl, rfl⟩

variable (digest) in
/-- **What `OnMessage` depends on.** With the same flag, and then the same live part of the parser
or the same request found, it does the same to the connection and leaves the same behind. -/
theorem onMessage_alike (h : ProtocolHandler σ) (s : Session σ) {w w' : WebSocketHandler}
    (buf : Buffer) (beyond beyond' : Bytes) (hflag : w.isUpgraded = w'.isUpgraded)
    (halike : if w.isUpgraded then w.parser.live = w'.parser.live
      else Handshake.headerStr (buf ++ beyond) = Handshake.headerStr (buf ++ beyond')) :
    let r := onMessage digest h (s, w, buf) beyond
    let r' := onMessage digest h (s, w', buf) beyond'
    r.1 = r'.1 ∧ r.2.2 = r'.2.2 ∧ r.2.1.isUpgraded = r'.2.1.isUpgraded ∧
      if w.isUpgraded then r.2.1.parser.live = r'.2.1.parser.live
      else r.2.1.parser = w.parser ∧ r'.2.1.parser = w'.parser := by
  cases hw : w.isUpgraded with
  | true =>
      have hw' : w'.isUpgraded = true := hflag ▸ hw
      rw [hw, if_pos rfl] at halike
      obtain ⟨hsession, hlive, hrest⟩ :
          FrameParser.SameLive (FrameParser.drive (onFrame h) (s.enter, w.parser, buf))
            (FrameParser.drive (onFrame h) (s.enter, w'.parser, buf)) :=
        FrameParser.drive_live halike buf
      simp only [onMessage, onFrames, hw, hw', if_true]
      exact ⟨hsession, hrest, trivial, hlive⟩
  | false =>
      have hw' : w'.isUpgraded = false := hflag ▸ hw
      rw [hw, if_neg Bool.false_ne_true] at halike
      simp only [onMessage, hw, hw', Bool.false_eq_true, if_false]
      exact onHandshake_alike hflag halike

/-- A frame is handled without an exception of its own. -/
theorem onFrame_thrown (s : Session σ) (consumed : ℕ) (frame : Frame) :
    (onFrame h s consumed frame).1.thrown = s.thrown := by
  unfold onFrame
  split
  · split
    · split
      · simp only
        split <;> rfl
      · rfl
    · rfl
  · split <;> rfl

/-- The connection calls made before a frame stay the first ones. -/
theorem onFrame_calls (s : Session σ) (consumed : ℕ) (frame : Frame) :
    s.calls <+: (onFrame h s consumed frame).1.calls := by
  unfold onFrame
  split
  · split
    · split
      · simp only
        split
        · exact (List.prefix_append _ _).trans (List.prefix_append _ _)
        · exact List.prefix_append _ _
      · exact List.prefix_rfl
    · exact List.prefix_append _ _
  · split
    · exact List.prefix_append _ _
    · exact List.prefix_rfl

/-- Nothing leaves the frame branch. -/
theorem onFrames_thrown (s : Session σ) (w : WebSocketHandler) (buf : Buffer) :
    (onFrames h (s, w, buf)).1.thrown = s.thrown :=
  FrameParser.drive_invariant (P := fun t : Session σ => t.thrown = s.thrown)
    (fun _ _ _ ht => (onFrame_thrown _ _ _).trans ht) rfl w.parser buf

/-- The connection calls made before some frames stay the first ones. -/
theorem onFrames_calls (s : Session σ) (w : WebSocketHandler) (buf : Buffer) :
    s.calls <+: (onFrames h (s, w, buf)).1.calls :=
  FrameParser.drive_invariant (P := fun t : Session σ => s.calls <+: t.calls)
    (fun _ _ _ ht => ht.trans (onFrame_calls _ _ _)) List.prefix_rfl w.parser buf

/-- The handshake branch either throws while it reads the headers of the request found, or throws
nothing. -/
theorem onHandshake_thrown {s : Session σ} {w : WebSocketHandler} {buf : Buffer} {beyond : Bytes}
    (hs : s.thrown = none) (hread : ∀ header, Handshake.headerStr (buf ++ beyond) = some header →
      Handshake.readHeaders header ≠ none) :
    (onHandshake digest (s, w, buf) beyond).1.thrown = none := by
  simp only [onHandshake]
  cases hh : Handshake.headerStr (buf ++ beyond) with
  | none => exact hs
  | some header =>
      obtain ⟨headers, hheaders⟩ := Option.ne_none_iff_exists'.mp (hread header hh)
      simp only [hheaders]
      split <;> exact hs

variable (digest) in
/-- The handshake branch dispatches nothing, and sets the flag only when it sends a response. -/
theorem onHandshake_response (s : Session σ) {w : WebSocketHandler} (hw : w.isUpgraded = false)
    (buf : Buffer) (beyond : Bytes) :
    let r := onHandshake digest (s, w, buf) beyond
    r.1.dispatched = s.dispatched ∧ s.calls <+: r.1.calls ∧ (r.2.1.isUpgraded = true →
      ∃ key, r.1.calls = s.calls ++ [.send (Handshake.generateResponse key)]) := by
  simp only [onHandshake]
  rcases Handshake.headerStr (buf ++ beyond) with _ | header
  · exact ⟨rfl, List.prefix_rfl, by simp [hw]⟩
  · simp only
    rcases Handshake.readHeaders header with _ | headers
    · exact ⟨rfl, List.prefix_rfl, by simp [hw]⟩
    · simp only
      rcases Handshake.process digest headers with _ | key
      · exact ⟨rfl, List.prefix_append _ _, by simp [hw]⟩
      · exact ⟨rfl, List.prefix_append _ _, fun _ => ⟨key, rfl⟩⟩

variable (digest) in
/-- The connection calls made before a read stay the first ones. -/
theorem onMessage_calls (s : Session σ) (w : WebSocketHandler) (buf : Buffer) (beyond : Bytes) :
    s.calls <+: (onMessage digest h (s, w, buf) beyond).1.calls := by
  cases hw : w.isUpgraded with
  | true =>
      simp only [onMessage, hw, if_true]
      exact onFrames_calls s.enter w buf
  | false =>
      simp only [onMessage, hw, Bool.false_eq_true, if_false]
      exact (onHandshake_response digest s.enter hw buf beyond).2.1

end WebSocketHandler

/-- A handler and the connections it serves. -/
structure WebSocketServer (σ : Type*) where
  handler : WebSocketHandler := {}
  conns : ℕ → WebSocketConn σ
  /-- The members as the connection's own last call left them; the handshake leaves the parser. -/
  own : ℕ → WebSocketHandler := fun _ => {}
  /-- An exception has left `OnMessage`, and with it `EventLoop::Run`. -/
  down : Bool := false

namespace WebSocketServer

/-- A call on the handler. -/
inductive Event where
  /-- `OnConnection` for a connection just accepted. -/
  | accept (a : ℕ)
  /-- `OnMessage` for a connection that has read `read`; behind its readable bytes lies `beyond`. -/
  | message (a : ℕ) (read beyond : Bytes)

/-- No connection is accepted yet. The application keeps one state for each connection. -/
def start (init : ℕ → σ) : WebSocketServer σ := { conns := fun a => { session := { app := init a } } }

/-- Accept the connection `a`. -/
def accept (s : WebSocketServer σ) (a : ℕ) : WebSocketServer σ :=
  if (s.conns a).accepted then s
  else
    { s with
      handler := s.handler.onConnection
      conns := Function.update s.conns a { s.conns a with accepted := true }
      own := Function.update s.own a (s.own a).onConnection }

variable (digest : Bytes → Bytes) (f : Option (StreamHandler σ))

/-- Handle a read of the connection `a`. Rate limiting is switched off. -/
def message (s : WebSocketServer σ) (a : ℕ) (read beyond : Bytes) : WebSocketServer σ :=
  if (s.conns a).isConnected then
    let (session, w, input) :=
      WebSocketHandler.onMessage digest { streamHandler := f }
        ((s.conns a).session, s.handler, Buffer.append (s.conns a).input read) beyond
    -- the handler is one object for all connections
    { handler := w
      conns := Function.update s.conns a { s.conns a with session, input }
      own := Function.update s.own a
        { isUpgraded := w.isUpgraded
          parser := if s.handler.isUpgraded then w.parser else (s.own a).parser }
      down := session.thrown.isSome }
  else s

/-- One call on the handler. -/
def step (s : WebSocketServer σ) (e : Event) : WebSocketServer σ :=
  if s.down then s
  else
    match e with
    | .accept a => s.accept a
    | .message a read beyond => s.message digest f a read beyond

/-- The connection's own part of a run: its calls, with its own bytes only. -/
def ownEvent (a : ℕ) : Event → Option Event
  | .accept b => if b = a then some (.accept b) else none
  | .message b read _ => if b = a then some (.message b read []) else none

/-- An event in which the other connections do not reach `a`. An event of `a` finds the flag, and
past the upgrade what the parser still needs, as `a` itself left them; before the upgrade, the
memory behind the readable bytes decides nothing. An event of another connection does not throw. -/
def Undisturbed (a : ℕ) (s : WebSocketServer σ) : Event → Prop
  | .accept _ => True
  | .message b read beyond =>
      s.down = false → (s.conns b).isConnected = true →
        if b = a then
          s.handler.isUpgraded = (s.own a).isUpgraded ∧
            if s.handler.isUpgraded then s.handler.parser.live = (s.own a).parser.live
            else Handshake.headerStr ((s.conns a).input ++ read ++ beyond)
              = Handshake.headerStr ((s.conns a).input ++ read)
        else
          s.handler.isUpgraded = false → ∀ header,
            Handshake.headerStr ((s.conns b).input ++ read ++ beyond) = some header →
              Handshake.readHeaders header ≠ none

/-! ## A run and its part for one connection -/

/-- A state of a run, and the state of the run of `a`'s own events. -/
structure Alone (a : ℕ) (s t : WebSocketServer σ) : Prop where
  conn : s.conns a = t.conns a
  flag : (s.own a).isUpgraded = t.handler.isUpgraded
  live : (s.own a).parser.live = t.handler.parser.live
  down : s.down = t.down

variable {digest f} {a b : ℕ} {s t : WebSocketServer σ}

/-- The two runs start alike. -/
theorem alone_start (a : ℕ) (init : ℕ → σ) : Alone a (start init) (start init) :=
  ⟨rfl, rfl, rfl, rfl⟩

/-- They stay alike when the connection is accepted. -/
theorem Alone.accept (h : Alone a s t) : Alone a (s.accept a) (t.accept a) := by
  unfold WebSocketServer.accept
  rw [h.conn]
  split
  · exact h
  · exact ⟨by simp, by simp [WebSocketHandler.onConnection],
      by simpa [WebSocketHandler.onConnection] using h.live, h.down⟩

/-- And when another one is. -/
theorem Alone.accept_other (h : Alone a s t) (hb : b ≠ a) : Alone a (s.accept b) t := by
  unfold WebSocketServer.accept
  split
  · exact h
  · refine ⟨?_, ?_, ?_, h.down⟩
    · simpa [Function.update_of_ne hb.symm] using h.conn
    · simpa [Function.update_of_ne hb.symm] using h.flag
    · simpa [Function.update_of_ne hb.symm] using h.live

/-- They stay alike on a read of the connection that is left undisturbed. -/
theorem Alone.message (h : Alone a s t) {read beyond : Bytes} (hup : s.down = false)
    (hu : Undisturbed a s (.message a read beyond)) :
    Alone a (s.message digest f a read beyond) (t.message digest f a read []) := by
  unfold WebSocketServer.message
  rw [← h.conn]
  by_cases hc : (s.conns a).isConnected = true
  · rw [if_pos hc, if_pos hc]
    have hown := hu hup hc
    rw [if_pos rfl] at hown
    obtain ⟨hflag, hown⟩ := hown
    -- what `OnMessage` reads of the handler is the same for both servers
    have halike : if s.handler.isUpgraded then s.handler.parser.live = t.handler.parser.live
        else Handshake.headerStr ((s.conns a).input ++ read ++ beyond)
          = Handshake.headerStr ((s.conns a).input ++ read ++ []) := by
      rwa [List.append_nil, ← h.live]
    have hafter := WebSocketHandler.onMessage_alike digest { streamHandler := f }
      (s.conns a).session ((s.conns a).input ++ read) beyond [] (hflag.trans h.flag) halike
    simp only [Buffer.append_eq]
    generalize WebSocketHandler.onMessage digest { streamHandler := f }
      ((s.conns a).session, s.handler, (s.conns a).input ++ read) beyond = r at hafter ⊢
    generalize WebSocketHandler.onMessage digest { streamHandler := f }
      ((s.conns a).session, t.handler, (s.conns a).input ++ read) [] = r' at hafter ⊢
    obtain ⟨hsession, hrest, hflag', hlive⟩ := hafter
    refine ⟨by simp [hsession, hrest], by simpa using hflag', ?_, by simp [hsession]⟩
    cases hw : s.handler.isUpgraded with
    | true => simpa [hw] using hlive
    | false =>
        rw [hw, if_neg Bool.false_ne_true] at hlive
        simpa [hlive.2] using h.live
  · rw [if_neg hc, if_neg hc]
    exact h

/-- And on a read of another one that disturbs nothing. -/
theorem Alone.message_other (h : Alone a s t) (hb : b ≠ a) {read beyond : Bytes}
    (hup : s.down = false) (hu : Undisturbed a s (.message b read beyond)) :
    Alone a (s.message digest f b read beyond) t := by
  unfold WebSocketServer.message
  by_cases hc : (s.conns b).isConnected = true
  · rw [if_pos hc]
    have hread := hu hup hc
    rw [if_neg hb] at hread
    have hthrown : (WebSocketHandler.onMessage digest { streamHandler := f }
        ((s.conns b).session, s.handler, Buffer.append (s.conns b).input read) beyond).1.thrown
          = none := by
      cases hw : s.handler.isUpgraded with
      | true =>
          simp only [WebSocketHandler.onMessage, hw, if_true]
          exact WebSocketHandler.onFrames_thrown _ _ _
      | false =>
          simp only [WebSocketHandler.onMessage, hw, Bool.false_eq_true, if_false]
          exact WebSocketHandler.onHandshake_thrown rfl (hread hw)
    refine ⟨?_, ?_, ?_, ?_⟩
    · simpa [Function.update_of_ne hb.symm] using h.conn
    · simpa [Function.update_of_ne hb.symm] using h.flag
    · simpa [Function.update_of_ne hb.symm] using h.live
    · rw [← h.down, hup]
      exact Option.isSome_eq_false_iff.mpr (by rw [hthrown]; rfl)
  · rw [if_neg hc]
    exact h

/-- An event of `a` is an event of the run of `a` alone. -/
theorem alone_step_own {e d : Event} (h : Alone a s t) (hu : Undisturbed a s e)
    (hown : ownEvent a e = some d) : Alone a (step digest f s e) (step digest f t d) := by
  unfold step
  rw [← h.down]
  by_cases hdown : s.down = true
  · rw [if_pos hdown, if_pos hdown]
    exact h
  · rw [if_neg hdown, if_neg hdown]
    cases e with
    | accept b =>
        obtain ⟨rfl, rfl⟩ : b = a ∧ d = .accept b := by simpa [ownEvent, eq_comm] using hown
        exact h.accept
    | message b read beyond =>
        obtain ⟨rfl, rfl⟩ : b = a ∧ d = .message b read [] := by
          simpa [ownEvent, eq_comm] using hown
        exact h.message (by simpa using hdown) hu

/-- An event of another connection is none. -/
theorem alone_step_other {e : Event} (h : Alone a s t) (hu : Undisturbed a s e)
    (hown : ownEvent a e = none) : Alone a (step digest f s e) t := by
  unfold step
  by_cases hdown : s.down = true
  · rw [if_pos hdown]
    exact h
  · rw [if_neg hdown]
    cases e with
    | accept b => exact h.accept_other (by simpa [ownEvent] using hown)
    | message b read beyond =>
        exact h.message_other (by simpa [ownEvent] using hown) (by simpa using hdown) hu

/-- **Along a run that leaves `a` undisturbed, it is as if `a` were alone.** -/
theorem alone_run {es : List Event} (h : Alone a s t)
    (hu : Trace.Always (step digest f) (Undisturbed a) s es) :
    Alone a (Trace.run (step digest f) s es)
      (Trace.run (step digest f) t (es.filterMap (ownEvent a))) :=
  Trace.run_filterMap (fun _ _ _ _ => alone_step_own) (fun _ _ _ => alone_step_other) h hu

/-! ## Frames only after the handshake -/

/-- The connection is not upgraded by an event of its own, and nothing of it was dispatched. -/
def Waiting (a : ℕ) (s : WebSocketServer σ) : Prop :=
  (s.own a).isUpgraded = false ∧ (s.conns a).session.dispatched = []

variable (digest f) in
/-- The handshake of `a` succeeds on a read: the handler, not upgraded, answers the request found
with `key`, and is upgraded. -/
structure Handshakes (a : ℕ) (s : WebSocketServer σ) (read beyond key : Bytes) : Prop where
  flag : s.handler.isUpgraded = false
  waiting : Waiting a s
  upgraded : (step digest f s (.message a read beyond)).handler.isUpgraded = true
  answer : ((step digest f s (.message a read beyond)).conns a).session.calls
    = (s.conns a).session.calls ++ [.send (Handshake.generateResponse key)]

/-- A connection accepted leaves the others waiting, and waits itself. -/
theorem Waiting.accept (h : Waiting a s) (b : ℕ) : Waiting a (s.accept b) := by
  unfold WebSocketServer.accept
  split
  · exact h
  · by_cases hb : b = a
    · subst hb
      exact ⟨by simp [WebSocketHandler.onConnection], by simpa using h.2⟩
    · simpa [Waiting, Function.update_of_ne (Ne.symm hb)] using h

/-- So does a read of another one. -/
theorem Waiting.message_other (h : Waiting a s) (hb : b ≠ a) (read beyond : Bytes) :
    Waiting a (s.message digest f b read beyond) := by
  unfold WebSocketServer.message
  split
  · simpa [Waiting, Function.update_of_ne hb.symm] using h
  · exact h

/-- A read after which the connection does not wait any more is its handshake. -/
theorem Waiting.message_own (h : Waiting a s) {read beyond : Bytes} (hup : s.down = false)
    (hu : Undisturbed a s (.message a read beyond))
    (hafter : ¬ Waiting a (s.message digest f a read beyond)) :
    ∃ key, Handshakes digest f a s read beyond key := by
  have hstep : step digest f s (.message a read beyond) = s.message digest f a read beyond :=
    if_neg (by rw [hup]; exact Bool.false_ne_true)
  have hc : (s.conns a).isConnected = true := by
    by_contra hc
    rw [message, if_neg hc] at hafter
    exact hafter h
  have hown := hu hup hc
  rw [if_pos rfl] at hown
  have hflag : s.handler.isUpgraded = false := hown.1.trans h.1
  have honMessage : WebSocketHandler.onMessage digest { streamHandler := f }
      ((s.conns a).session, s.handler, Buffer.append (s.conns a).input read) beyond
      = WebSocketHandler.onHandshake digest
        ((s.conns a).session.enter, s.handler, Buffer.append (s.conns a).input read) beyond := by
    simp only [WebSocketHandler.onMessage, hflag, Bool.false_eq_true, if_false]
  obtain ⟨hdispatched, -, hresponse⟩ := WebSocketHandler.onHandshake_response digest
    (s.conns a).session.enter hflag (Buffer.append (s.conns a).input read) beyond
  simp only [Waiting, message, if_pos hc, honMessage, Function.update_self] at hafter
  rw [hdispatched] at hafter
  -- nothing was dispatched, so that it is the flag that has changed
  have hupgraded := Bool.of_not_eq_false fun hfalse => hafter ⟨hfalse, h.2⟩
  obtain ⟨key, hkey⟩ := hresponse hupgraded
  refine ⟨key, hflag, h, ?_, ?_⟩
  · rw [hstep, message, if_pos hc, honMessage]
    exact hupgraded
  · simp only [hstep, message, if_pos hc, honMessage, Function.update_self]
    exact hkey

/-- **An event after which the connection does not wait any more** is its handshake. -/
theorem handshakes_of_not_waiting {e : Event} (h : Waiting a s) (hu : Undisturbed a s e)
    (hafter : ¬ Waiting a (step digest f s e)) :
    ∃ read beyond key, e = .message a read beyond ∧ Handshakes digest f a s read beyond key := by
  unfold step at hafter
  by_cases hdown : s.down = true
  · rw [if_pos hdown] at hafter
    exact absurd h hafter
  · rw [if_neg hdown] at hafter
    cases e with
    | accept b => exact absurd (h.accept b) hafter
    | message b read beyond =>
        by_cases hb : b = a
        · subst hb
          obtain ⟨key, hkey⟩ := h.message_own (by simpa using hdown) hu hafter
          exact ⟨read, beyond, key, rfl, hkey⟩
        · exact absurd (h.message_other hb read beyond) hafter

/-- The calls on a connection stay the first ones. -/
theorem calls_step (a : ℕ) (s : WebSocketServer σ) (e : Event) :
    (s.conns a).session.calls <+: ((step digest f s e).conns a).session.calls := by
  unfold step
  split
  · exact List.prefix_rfl
  · cases e with
    | accept b =>
        simp only [accept]
        split
        · exact List.prefix_rfl
        · by_cases hb : b = a
          · subst hb
            simp
          · simp [Function.update_of_ne (Ne.symm hb)]
    | message b read beyond =>
        simp only [message]
        split
        · by_cases hb : b = a
          · subst hb
            simpa using WebSocketHandler.onMessage_calls digest (s.conns b).session s.handler
              (Buffer.append (s.conns b).input read) beyond
          · simp [Function.update_of_ne (Ne.symm hb)]
        · exact List.prefix_rfl

/-- Along a run too. -/
theorem calls_run (a : ℕ) (s : WebSocketServer σ) (es : List Event) :
    (s.conns a).session.calls <+: ((Trace.run (step digest f) s es).conns a).session.calls := by
  induction es generalizing s with
  | nil => exact List.prefix_rfl
  | cons e es ih => exact (calls_step a s e).trans (ih _)

/-- **A connection of which something was dispatched has had its handshake.** -/
theorem exists_handshake {es : List Event} (hs : Waiting a s)
    (h : Trace.Always (step digest f) (Undisturbed a) s es)
    (hne : ((Trace.run (step digest f) s es).conns a).session.dispatched ≠ []) :
    ∃ before read beyond after key, es = before ++ .message a read beyond :: after ∧
      Handshakes digest f a (Trace.run (step digest f) s before) read beyond key ∧
      ((Trace.run (step digest f) s before).conns a).session.calls
          ++ [.send (Handshake.generateResponse key)]
        <+: ((Trace.run (step digest f) s es).conns a).session.calls := by
  obtain ⟨before, e, after, rfl, hbefore, hafter⟩ := Trace.exists_break hs fun h => hne h.2
  rw [Trace.always_append] at h
  obtain ⟨read, beyond, key, rfl, hkey⟩ := handshakes_of_not_waiting hbefore h.2.1 hafter
  refine ⟨before, read, beyond, after, key, rfl, hkey, ?_⟩
  rw [Trace.run_append, Trace.run_cons, ← hkey.answer]
  exact calls_run a _ after

/-- **Isolation under the condition.** In a run whose every event leaves `a` undisturbed, the
session of `a` (the messages dispatched, the calls on its connection, the state of its application)
is the one of the run of `a`'s own events alone; so it is the same in every such run with the same
events of `a`. And a message is dispatched only after the handshake of `a`: a read of its own on
which the handler has answered its request and was upgraded. -/
theorem isolation_of_undisturbed (digest : Bytes → Bytes) (f : Option (StreamHandler σ))
    (init : ℕ → σ) (a : ℕ) (es : List Event)
    (h : Trace.Always (step digest f) (Undisturbed a) (start init) es) :
    let s := Trace.run (step digest f) (start init) es
    (s.conns a).session =
        ((Trace.run (step digest f) (start init) (es.filterMap (ownEvent a))).conns a).session ∧
      (∀ es' : List Event, es'.filterMap (ownEvent a) = es.filterMap (ownEvent a) →
        Trace.Always (step digest f) (Undisturbed a) (start init) es' →
          ((Trace.run (step digest f) (start init) es').conns a).session = (s.conns a).session) ∧
      ((s.conns a).session.dispatched ≠ [] →
        ∃ before read beyond after key, es = before ++ .message a read beyond :: after ∧
          Handshakes digest f a (Trace.run (step digest f) (start init) before) read beyond key ∧
          ((Trace.run (step digest f) (start init) before).conns a).session.calls
              ++ [.send (Handshake.generateResponse key)]
            <+: (s.conns a).session.calls) := by
  have halone := alone_run (alone_start a init) h
  refine ⟨congrArg WebSocketConn.session halone.conn, ?_, ?_⟩
  · intro es' hes' h'
    have halone' := alone_run (alone_start a init) h'
    rw [halone.conn, halone'.conn, hes']
  · exact exists_handshake ⟨rfl, rfl⟩ h

/-! ## Two connections -/

/-- An upgrade request. -/
def upgradeRequest : Bytes := bytesOf "GET / HTTP/1.1\r\nSec-WebSocket-Key: a\r\n\r\n"

/-- Application code that counts its messages. -/
def count : StreamHandler ℕ := fun app _ resp => { app := app + 1, resp }

/-- Two connections, of which the second sends something else before the first one's handshake. -/
theorem isolation_of_undisturbed_handshake :
    let es : List Event := [.accept 0, .accept 1, .message 1 [71] [], .message 0 upgradeRequest [],
      .message 0 (WebSocketStreamContext.textFrame [97]) []]
    let s := Trace.run (step id (some count)) (start fun _ => 0) es
    (s.conns 0).session =
        ((Trace.run (step id (some count)) (start fun _ => 0)
          (es.filterMap (ownEvent 0))).conns 0).session ∧
      (∀ es' : List Event, es'.filterMap (ownEvent 0) = es.filterMap (ownEvent 0) →
        Trace.Always (step id (some count)) (Undisturbed 0) (start fun _ => 0) es' →
          ((Trace.run (step id (some count)) (start fun _ => 0) es').conns 0).session
            = (s.conns 0).session) ∧
      ((s.conns 0).session.dispatched ≠ [] →
        ∃ before read beyond after key, es = before ++ .message 0 read beyond :: after ∧
          Handshakes id (some count) 0
            (Trace.run (step id (some count)) (start fun _ => 0) before) read beyond key ∧
          ((Trace.run (step id (some count)) (start fun _ => 0) before).conns 0).session.calls
              ++ [.send (Handshake.generateResponse key)]
            <+: (s.conns 0).session.calls) := by
  refine isolation_of_undisturbed id (some count) (fun _ => 0) 0 _
    ⟨trivial, trivial, ?_, ?_, ?_, trivial⟩
  · intro _ _ _ header hheader
    exact absurd hheader (by decide +revert +kernel)
  · exact fun _ _ => by decide
  · exact fun _ _ => by decide

/-- **One handshake opens every connection.** After the handshake of connection 0, the frame sent on
connection 1, which has sent no request and been sent no response, is dispatched. -/
theorem isolation_fails_on_foreign_handshake :
    let run := Trace.run (step id (some count)) (start fun _ => 0)
    let es : List Event := [.accept 0, .accept 1, .message 0 upgradeRequest [],
      .message 1 (WebSocketStreamContext.textFrame [97]) []]
    ((run es).conns 1).session.dispatched
        ≠ ((run (es.filterMap (ownEvent 1))).conns 1).session.dispatched ∧
      ((run es).conns 1).session.dispatched ≠ [] ∧ ((run es).conns 1).session.calls = [] := by
  decide

end WebSocketServer

end NetworkLib
