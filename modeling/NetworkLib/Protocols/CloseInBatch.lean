import NetworkLib.Protocols.Receivers

/-! # Closing the connection inside a batch

A stream handler may close its connection while it processes one of several messages in the input
buffer. The loops of the framed TCP, the RPC and the WebSocket handler do not look at the connection
again, and go on with the messages behind it (`no_dispatch_after_close_iff`). -/

namespace NetworkLib

open Loop LengthPrefix

namespace Receiver

variable {S ρ σ : Type*} (R : Receiver S ρ σ)

/-- The stream handler closes the connection while it processes the `i`-th message. -/
def Closes (p : S) (i : ℕ) : Prop := ∃ run, (R.runs p)[i]? = some run ∧ .close ∈ run.calls

/-- **No dispatch after the handler closed the connection**, in a call on `p` during which the
states `During p` are seen. -/
def StopsAtClose (During : S → S → Prop) (p : S) : Prop :=
  ∀ i, R.Closes p i → ∀ j, i < j → j < (R.messages p).length →
    ∀ q, During p q → ¬ R.Passed p q j

/-- Every message on which the stream handler closes the connection is the last one in the input, or
the stream handler throws an exception there that leaves `OnMessage`. -/
def ClosesLast (p : S) : Prop :=
  ∀ i run, (R.runs p)[i]? = some run → .close ∈ run.calls →
    i + 1 = (R.messages p).length ∨ R.escapes run = true

variable {R}

/-- A message has a run, or one before it is the last. -/
theorem length_runs_le (p : S) : (R.runs p).length ≤ (R.messages p).length := by
  have hle : (R.runs p).length ≤ ((R.messages p).map Prod.fst).length := length_outcomes_le _ _
  rwa [List.length_map] at hle

/-- Behind a run that does not escape the next message has one. -/
theorem succ_lt_length_runs {p : S} {i : ℕ} {run : HandlerRun σ} (hrun : (R.runs p)[i]? = some run)
    (hstays : R.escapes run = false) (hi : i + 1 < (R.messages p).length) :
    i + 1 < (R.runs p).length := by
  have hlt := (List.getElem?_eq_some_iff.mp hrun).1
  by_contra hlast
  have hlen : i + 1 = (R.runs p).length := by omega
  -- the runs are fewer than the messages, so the last of them escapes
  have hesc : ¬ ∀ o ∈ R.runs p, R.escapes o = false := fun hall => by
    have hall : (R.runs p).length = ((R.messages p).map Prod.fst).length := length_outcomes hall
    rw [List.length_map] at hall
    omega
  push Not at hesc
  obtain ⟨o, ho, hoesc⟩ := hesc
  obtain ⟨k, hk⟩ := List.getElem?_of_mem ho
  have hklast : k + 1 = (R.runs p).length :=
    succ_eq_length_of_escapes hk (by simpa using hoesc)
  obtain rfl : k = i := by omega
  obtain rfl : o = run := Option.some.inj (hk.symm.trans hrun)
  exact hoesc hstays

/-- **A handler that passes on exactly the messages with a run stops at a close** exactly when every
such message is the last. -/
theorem stopsAtClose_iff {During : S → S → Prop} {p : S}
    (h : ∀ j, j < (R.messages p).length →
      ((∃ q, During p q ∧ R.Passed p q j) ↔ j < (R.runs p).length)) :
    R.StopsAtClose During p ↔ R.ClosesLast p := by
  constructor
  · intro hstops i run hrun hclose
    by_contra hnot
    obtain ⟨hlast, hstays⟩ := not_or.mp hnot
    have hlt := (List.getElem?_eq_some_iff.mp hrun).1
    have hle := length_runs_le (R := R) p
    have hnext := succ_lt_length_runs hrun (by simpa using hstays) (by omega)
    obtain ⟨q, hq, hpassed⟩ := (h (i + 1) (by omega)).mpr hnext
    exact hstops i ⟨run, hrun, hclose⟩ (i + 1) (Nat.lt_succ_self i) (by omega) q hq hpassed
  · rintro hlast i ⟨run, hrun, hclose⟩ j hij hj q hq hpassed
    have hjlt := (h j hj).mp ⟨q, hq, hpassed⟩
    rcases hlast i run hrun hclose with hend | hesc
    · omega
    · have hlen : i + 1 = (R.runs p).length := succ_eq_length_of_escapes hrun hesc
      omega

end Receiver

variable {σ : Type*}

/-- The states seen during a call of the framed TCP handler. -/
def TcpHandler.During (pb : Protobuf) (h : ProtocolHandler σ) (p q : Session σ × Buffer) : Prop :=
  Visits (turn pb h) ({ p.1 with thrown := none }, p.2) q

/-- The states seen during a call of the RPC handler. -/
def RpcHandler.During (pb : Protobuf) (h : ProtocolHandler σ) (p q : Session σ × Buffer) : Prop :=
  Visits (turn pb h) (p.1.enter, p.2) q

/-- The states seen during a call of the WebSocket handler on an upgraded connection. -/
def WebSocketHandler.During (h : ProtocolHandler σ) (p q : Session σ × WebSocketHandler × Buffer) :
    Prop :=
  p.2.1.isUpgraded = true ∧
    Visits (FrameParser.turn (onFrame h)) (p.1.enter, p.2.1.parser, p.2.2)
      (q.1, q.2.1.parser, q.2.2)

/-! ## A call ends in a state seen during it -/

/-- The end of `OnMessage` is a point during it. -/
theorem TcpHandler.during_of_onMessage {pb : Protobuf} {limiter : Option (ℕ → Bool)}
    {f : StreamHandler σ} {p q : Session σ × Buffer} (h : (receiver pb limiter f).OnMessage p q) :
    During pb (.streaming limiter f) p q := .inr ((exits_iff_run_eq _ turn_rank).mpr h)

/-- The end of `OnMessage` is a point during it. -/
theorem RpcHandler.during_of_onMessage {pb : Protobuf} {limiter : Option (ℕ → Bool)}
    {f : StreamHandler σ} {p q : Session σ × Buffer} (h : (receiver pb limiter f).OnMessage p q) :
    During pb (.streaming limiter f) p q := .inr h

/-- The end of `OnMessage` is a point during it. -/
theorem WebSocketHandler.during_of_onMessage {limiter : Option (ℕ → Bool)} {f : StreamHandler σ}
    {digest : Bytes → Bytes} {beyond : Bytes} {p q : Session σ × WebSocketHandler × Buffer}
    (hup : p.2.1.isUpgraded = true) (h : (receiver limiter f digest beyond).OnMessage p q) :
    During (.streaming limiter f) p q := by
  obtain ⟨s, ⟨up, parser⟩, buf⟩ := p
  obtain rfl : up = true := hup
  obtain rfl := h
  exact ⟨rfl, .inr ((exits_iff_run_eq _ FrameParser.turn_rank).mpr rfl)⟩

/-! ## The three handlers -/

section Handlers

variable (pb : Protobuf) (limiter : Option (ℕ → Bool)) (f : StreamHandler σ)

/-- The handler stops at a close exactly if the close comes with the last message. -/
theorem TcpHandler.stopsAtClose_iff (p : Session σ × Buffer) :
    (receiver pb limiter f).StopsAtClose (During pb (.streaming limiter f)) p ↔
      (receiver pb limiter f).ClosesLast p := by
  refine Receiver.stopsAtClose_iff fun j hj => ?_
  exact (dispatches pb (h := .streaming limiter f) rfl).visits_iff
    (s := ({ p.1 with thrown := none }, p.2)) (not_not.mpr rfl) hj

/-- The handler stops at a close exactly if the close comes with the last message. -/
theorem RpcHandler.stopsAtClose_iff (p : Session σ × Buffer) :
    (receiver pb limiter f).StopsAtClose (During pb (.streaming limiter f)) p ↔
      (receiver pb limiter f).ClosesLast p := by
  refine Receiver.stopsAtClose_iff fun j hj => ?_
  exact (dispatches pb (h := .streaming limiter f) rfl).visits_iff
    (s := (p.1.enter, p.2)) (not_not.mpr rfl) hj

/-- The handler stops at a close exactly if the close comes with the last message. -/
theorem WebSocketHandler.stopsAtClose_iff (digest : Bytes → Bytes) (beyond : Bytes)
    (p : Session σ × WebSocketHandler × Buffer) :
    (receiver limiter f digest beyond).StopsAtClose (During (.streaming limiter f)) p ↔
      (receiver limiter f digest beyond).ClosesLast p := by
  refine Receiver.stopsAtClose_iff fun j hj => ?_
  obtain ⟨s, ⟨up, parser⟩, buf⟩ := p
  cases up with
  | false =>
      -- before the upgrade there is no message
      have hnone : (receiver limiter f digest beyond).reader.next
          (s.consumed, ({ isUpgraded := false, parser } : WebSocketHandler), buf) = none := rfl
      have hmessages : (receiver limiter f digest beyond).messages
          (s, ({ isUpgraded := false, parser } : WebSocketHandler), buf) = [] :=
        Reader.messages_of_none hnone
      rw [hmessages] at hj
      exact absurd hj (Nat.not_lt_zero j)
  | true =>
      have hloop := (dispatches (h := .streaming limiter f) rfl beyond).visits_iff
        (s := (s.enter, parser, buf)) (not_not.mpr rfl) hj
      refine Iff.trans ⟨?_, ?_⟩ hloop
      · rintro ⟨⟨s', w', buf'⟩, ⟨-, hvisits⟩, hpassed⟩
        exact ⟨_, hvisits, hpassed⟩
      · rintro ⟨⟨s', parser', buf'⟩, hvisits, hpassed⟩
        exact ⟨(s', { isUpgraded := true, parser := parser' }, buf'), ⟨rfl, hvisits⟩, hpassed⟩

/-- **When nothing is dispatched after the handler closed the connection**: the message on which it
does so is the last one in the buffer, or it throws there an exception that leaves `OnMessage`. -/
theorem no_dispatch_after_close_iff (digest : Bytes → Bytes) (beyond : Bytes) :
    (∀ p, (TcpHandler.receiver pb limiter f).StopsAtClose
        (TcpHandler.During pb (.streaming limiter f)) p ↔
      (TcpHandler.receiver pb limiter f).ClosesLast p) ∧
    (∀ p, (RpcHandler.receiver pb limiter f).StopsAtClose
        (RpcHandler.During pb (.streaming limiter f)) p ↔
      (RpcHandler.receiver pb limiter f).ClosesLast p) ∧
    (∀ p, (WebSocketHandler.receiver limiter f digest beyond).StopsAtClose
        (WebSocketHandler.During (.streaming limiter f)) p ↔
      (WebSocketHandler.receiver limiter f digest beyond).ClosesLast p) :=
  ⟨TcpHandler.stopsAtClose_iff pb limiter f, RpcHandler.stopsAtClose_iff pb limiter f,
    WebSocketHandler.stopsAtClose_iff limiter f digest beyond⟩

end Handlers

/-- Two frames in one buffer, and a stream handler that closes the connection at every message: the
TCP handler passes the second frame on as well. -/
theorem dispatch_after_close :
    let pb := Protobuf.shortPayload
    let f : StreamHandler ℕ := fun n _ resp => { app := n + 1, resp, calls := [.close] }
    let buf := frames (([[1], [2]] : List Bytes).map fun data =>
      pb.serializeAsString { payload := some { data } })
    ¬ (TcpHandler.receiver pb none f).StopsAtClose (TcpHandler.During pb (.streaming none f))
      ({ app := 0 }, buf) := by
  intro pb f buf
  rw [TcpHandler.stopsAtClose_iff]
  intro hlast
  have hfirst : TcpHandler.next pb (.streaming none f) (0, buf)
      = some (some { payload := some { data := [1] } }, (1, buf.drop 9)) := by decide
  have hsecond : TcpHandler.next pb (.streaming none f) (1, buf.drop 9)
      = some (some { payload := some { data := [2] } }, (2, [])) := by decide
  have hend : TcpHandler.next pb (.streaming none f) (2, []) = none := by decide
  clear_value buf
  have hmessages : (TcpHandler.receiver pb none f).messages ({ app := 0 }, buf)
      = [({ payload := some { data := [1] } }, (1, buf.drop 9)),
        ({ payload := some { data := [2] } }, (2, []))] := by
    refine (Reader.messages_of_message hfirst).trans (congrArg _ ?_)
    exact (Reader.messages_of_message hsecond).trans (congrArg _ (Reader.messages_of_none hend))
  have hrun : ((TcpHandler.receiver pb none f).runs ({ app := 0 }, buf))[0]?
      = some { app := 1, resp := {}, calls := [.close] } := by
    rw [Receiver.runs, hmessages]
    rfl
  rcases hlast 0 _ hrun (List.mem_singleton_self _) with hlen | hesc
  · rw [hmessages] at hlen
    cases hlen
  · cases hesc

end NetworkLib
