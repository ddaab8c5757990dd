import NetworkLib.Theory.Trace
import NetworkLib.Core.Reactor

/-! # The reactor's connection registry

`connections_` is exact when it holds the open connections and no other, each under its descriptor,
and the gauge counts them. The disconnect callback looks the connection up under the descriptor
`HandleClose` has just replaced by -1, and a connection that ends in its handshake is stored all
the same, so the registry stays exact exactly as long as no connection is disconnected
(`registry_exact_iff`). -/

namespace NetworkLib

open Relation

namespace Connection

variable {σ : Type*} {os : Os} {c c' : Connection σ}

/-! ## What moves do to the descriptor and to the disconnect callback -/

/-- A move keeps the descriptor, or it closes it. -/
theorem Move.fd (h : Move os c c') : c'.fd = c.fd ∨ c'.fd = -1 := by
  cases h with
  | plain h =>
      obtain ⟨-, hfd⟩ | ⟨-, -, hfd⟩ | ⟨-, -, hfd⟩ := h.state_cases
      · exact .inl hfd
      · exact .inl hfd
      · exact .inr hfd
  | connecting => exact .inl rfl
  | connected => exact .inl rfl
  | connectCallback => exact .inl rfl

/-- **An open connection has kept its descriptor.** -/
theorem Moves.fd (h : Moves os c c') (hc : c.Paired) (hopen : c'.state ≠ .kDisconnected) :
    c'.fd = c.fd := by
  have hfd : c'.fd = c.fd ∨ c'.fd = -1 := by
    refine invariant_of_moves (P := fun d => d.fd = c.fd ∨ d.fd = -1) ?_ h (.inl rfl)
    intro a b hab ha
    obtain hb | hb := hab.fd
    · rwa [hb]
    · exact .inr hb
  have hpos : 0 ≤ c'.fd := (h.paired hc).mpr hopen
  omega

/-- What one move adds to the log; it calls the disconnect callback only when it disconnects. -/
theorem Move.newLog (h : Move os c c') : ∃ l, c'.log = c.log ++ l ∧
    (.disconnectCallback ∈ l → c.state ≠ .kDisconnected ∧ c'.state = .kDisconnected) := by
  -- A move logs one effect or none; only closing logs the callback.
  have hsingle {d : Connection σ} (e : Effect) (he : e ≠ .disconnectCallback)
      (hd : d.log = c.log ++ [e]) : ∃ l, d.log = c.log ++ l ∧
        (.disconnectCallback ∈ l → c.state ≠ .kDisconnected ∧ d.state = .kDisconnected) :=
    ⟨_, hd, fun hmem => absurd (List.mem_singleton.mp hmem).symm he⟩
  have hnone {d : Connection σ} (hd : d.log = c.log) : ∃ l, d.log = c.log ++ l ∧
      (.disconnectCallback ∈ l → c.state ≠ .kDisconnected ∧ d.state = .kDisconnected) :=
    ⟨[], by rw [hd, List.append_nil], by simp⟩
  cases h with
  | plain h =>
      cases h with
      | out h =>
          cases h with
          | send data =>
              obtain ⟨-, hlog | ⟨written, hlog⟩⟩ := send_log os c none data
              · exact hsingle _ (by simp) hlog
              · exact ⟨_, hlog, by simp⟩
          | shutdown =>
              obtain hs | ⟨-, hs | ⟨-, hs⟩⟩ := shutdown_cases c
              · exact hnone (by rw [hs])
              · exact hnone (by rw [hs])
              · exact hsingle .shutdown (by simp) (by rw [hs]; rfl)
          | close hs => exact ⟨_, rfl, fun _ => ⟨hs, rfl⟩⟩
          | closeNotify hs app =>
              exact ⟨_, List.append_assoc .., fun _ => ⟨hs, rfl⟩⟩
          | write => exact hsingle _ (by simp) rfl
          | disarm =>
              obtain ⟨_, _, hmodify⟩ := modifyFd_eq os c {}
              exact hnone (by rw [hmodify])
      | read => exact hsingle _ (by simp) rfl
      | eof => exact hsingle _ (by simp) rfl
      | messageCallback => exact hsingle _ (by simp) rfl
      | onMessage => exact hsingle _ (by simp) rfl
  | connecting => exact hnone rfl
  | connected => exact hnone rfl
  | connectCallback => exact hsingle _ (by simp) rfl

/-- **The disconnect callback is called only by what disconnects the connection.** -/
theorem Moves.disconnectCallback (h : Moves os c c') (hc : c.Paired)
    (hcall : .disconnectCallback ∈ c'.log.drop c.log.length) :
    c.state ≠ .kDisconnected ∧ c'.state = .kDisconnected := by
  let P (d : Connection σ) : Prop := (d.Paired ∧ (c.state = .kDisconnected → d.state = .kDisconnected)) ∧
    ∃ l, d.log = c.log ++ l ∧
      (.disconnectCallback ∈ l → c.state ≠ .kDisconnected ∧ d.state = .kDisconnected)
  have hP : P c' := by
    refine invariant_of_moves (P := P) ?_ h ⟨⟨hc, id⟩, [], (List.append_nil _).symm, by simp⟩
    rintro a b hab ⟨⟨hpaired, hstay⟩, l, hl, hmem⟩
    have hkeep (ha : a.state = .kDisconnected) : b.state = .kDisconnected :=
      (hab.disconnected ⟨hpaired, ha⟩).2
    obtain ⟨l', hl', hmem'⟩ := hab.newLog
    refine ⟨⟨hab.paired hpaired, fun hs => hkeep (hstay hs)⟩, l ++ l', ?_, ?_⟩
    · rw [hl', hl, List.append_assoc]
    · intro hin
      obtain hin | hin := List.mem_append.mp hin
      · exact ⟨(hmem hin).1, hkeep (hmem hin).2⟩
      · exact ⟨fun hs => (hmem' hin).1 (hstay hs), (hmem' hin).2⟩
  obtain ⟨-, l, hl, hmem⟩ := hP
  rw [hl, List.drop_left] at hcall
  exact hmem hcall

end Connection

/-- A system whose sockets take nothing. -/
def Os.idle : Os := ⟨fun _ => .wouldBlock, fun _ => true⟩

namespace Reactor

variable {os : ℕ → Os} {r : Reactor}

/-! ## The invariants -/

/-- **The registry is exact**: it holds the open connections, each under its descriptor, and the
gauge has their number. -/
structure Exact (r : Reactor) : Prop where
  registry : ∀ (fd : ℤ) (id : ℕ), r.connections.lookup fd = some id ↔
    ∃ a, r.accepted[id]? = some a ∧ a.conn.state ≠ .kDisconnected ∧ a.conn.fd = fd
  gauge : ∀ v, r.gauge = some v → v = r.size

/-- Every connection has an open descriptor exactly while it is not disconnected. -/
def Paired (r : Reactor) : Prop := ∀ a ∈ r.accepted, a.conn.Paired

/-- A reactor that has accepted nothing. -/
def fresh (ddosProtection : DdosProtection) (tlsContext : Option TlsContext) (ports : List ℕ) :
    Reactor :=
  { ddosProtection, tlsContext, ports }

/-! ## What one event does -/

variable (os) in
/-- The connection an event reaches, and what the event makes of it. -/
def touch (r : Reactor) : Event → Option (ℕ × Accepted × Connection Unit)
  | .accept .. => none
  | .client id onMessage e =>
      match r.accepted[id]? with
      | none => none
      | some a =>
          if a.conn.interest.isSome then
            some (id, a, a.conn.clientCallback (os id) Connection.serverCallbacks onMessage e)
          else none
  | .call id x =>
      match r.accepted[id]? with
      | none => none
      | some a => some (id, a, a.conn.call (os id) Connection.serverCallbacks x)

variable (os) in
/-- The event disconnects a connection from the address `ip`: one that was open, or the one it
accepts. -/
def Disconnects (r : Reactor) (ip : String) (e : Event) : Prop :=
  (∃ fd sslNew io, e = .accept fd ip sslNew io ∧ ¬ r.InUse fd ∧
    r.ddosProtection.connCounts ip < r.ddosProtection.config.maxConnPerIp ∧
      (newConnection (os r.accepted.length) fd (r.createSsl sslNew) io).state = .kDisconnected) ∨
  ∃ id a c, r.touch os e = some (id, a, c) ∧ a.ip = ip ∧ a.conn.state ≠ .kDisconnected ∧
    c.state = .kDisconnected

/-- The limiter after an admission. -/
def admitted (r : Reactor) (ip : String) : Reactor :=
  { r with
    ddosProtection := { r.ddosProtection with
      connCounts := Function.update r.ddosProtection.connCounts ip
        (r.ddosProtection.connCounts ip + 1) } }

/-- What the connection is that an event reaches. -/
theorem touch_spec {e : Event} {id : ℕ} {a : Accepted} {c : Connection Unit}
    (h : r.touch os e = some (id, a, c)) :
    r.accepted[id]? = some a ∧ Connection.Moves (os id) a.conn c := by
  unfold touch at h
  split at h
  · cases h
  · next id' onMessage e' =>
      split at h
      · cases h
      · next a' ha =>
          split at h
          · cases h
            exact ⟨ha, Connection.moves_clientCallback _ _ _ _ _⟩
          · cases h
  · next id' x =>
      split at h
      · cases h
      · next a' ha =>
          cases h
          exact ⟨ha, (Connection.outMoves_call _ _ _ _).moves⟩

/-- **What one event does**: nothing, or it admits a client, or it reaches a connection. -/
theorem step_cases (r : Reactor) (e : Event) :
    (r.step os e = r ∧ ∀ ip, ¬ r.Disconnects os ip e) ∨
      (∃ fd ip sslNew io, e = .accept fd ip sslNew io ∧ ¬ r.InUse fd ∧
        r.ddosProtection.connCounts ip < r.ddosProtection.config.maxConnPerIp ∧
          r.step os e = (r.admitted ip).accept os fd ip sslNew io) ∨
      ∃ id a c, r.touch os e = some (id, a, c) ∧ r.step os e = r.update id a c := by
  cases e with
  | accept fd ip sslNew io =>
      by_cases hfd : r.InUse fd
      · -- a descriptor in use is not handed out again
        refine .inl ⟨if_pos hfd, ?_⟩
        rintro ip' (⟨_, _, _, he, hfd', -⟩ | ⟨_, _, _, h, -⟩)
        · cases he
          exact hfd' hfd
        · cases h
      · by_cases hmax : r.ddosProtection.config.maxConnPerIp ≤ r.ddosProtection.connCounts ip
        · -- the address has reached its limit
          refine .inl ⟨?_, ?_⟩
          · simp only [step, if_neg hfd, onAccept, DdosProtection.allowConnection, if_pos hmax]
          · rintro ip' (⟨_, _, _, he, -, hlt, -⟩ | ⟨_, _, _, h, -⟩)
            · cases he
              exact absurd hlt (not_lt.mpr hmax)
            · cases h
        · refine .inr (.inl ⟨fd, ip, sslNew, io, rfl, hfd, not_le.mp hmax, ?_⟩)
          simp only [step, if_neg hfd, onAccept, DdosProtection.allowConnection, if_neg hmax]
          rfl
  | client id onMessage e =>
      -- an event of a descriptor that is no longer registered is lost
      cases ha : r.accepted[id]? with
      | none =>
          refine .inl ⟨by simp only [step, ha], ?_⟩
          rintro ip (⟨_, _, _, he, -⟩ | ⟨_, _, _, h, -⟩)
          · cases he
          · simp [touch, ha] at h
      | some a =>
          by_cases hin : a.conn.interest.isSome = true
          · exact .inr (.inr ⟨id, a, a.conn.clientCallback (os id) Connection.serverCallbacks onMessage e,
              by simp only [touch, ha, hin, if_true], by simp only [step, ha, hin, if_true]⟩)
          · refine .inl ⟨by simp only [step, ha, hin, if_false, Bool.false_eq_true], ?_⟩
            rintro ip (⟨_, _, _, he, -⟩ | ⟨_, _, _, h, -⟩)
            · cases he
            · simp [touch, ha, hin] at h
  | call id x =>
      cases ha : r.accepted[id]? with
      | none =>
          refine .inl ⟨by simp only [step, ha], ?_⟩
          rintro ip (⟨_, _, _, he, -⟩ | ⟨_, _, _, h, -⟩)
          · cases he
          · simp [touch, ha] at h
      | some a =>
          exact .inr (.inr ⟨id, a, a.conn.call (os id) Connection.serverCallbacks x,
            by simp only [touch, ha], by simp only [step, ha]⟩)

/-! ## The registry along a run -/

/-- A new connection is open or closed as its state says, on the descriptor it was accepted on. -/
theorem newConnection_spec (os : Os) (fd : ℕ) (ssl : Option SslCtx) (io : Io) :
    (newConnection os fd ssl io).Paired ∧
      ((newConnection os fd ssl io).state ≠ .kDisconnected →
        (newConnection os fd ssl io).fd = fd) := by
  unfold newConnection
  simp only
  split
  · have hmoves := Connection.moves_setSsl os {} (({ app := (), fd } : Connection Unit).setConnected) io
    have hpaired : Connection.Paired
        ({ ({ app := (), fd } : Connection Unit).setConnected with state := .kHandshaking }) := by
      simp [Connection.Paired, Connection.setConnected]
    exact ⟨hmoves.paired hpaired, hmoves.fd hpaired⟩
  · exact ⟨by simp [Connection.Paired, Connection.setConnected], fun _ => rfl⟩

@[simp] theorem addFd_state (c : Connection Unit) : (addFd c).state = c.state := by
  unfold addFd
  split <;> rfl

@[simp] theorem addFd_fd (c : Connection Unit) : (addFd c).fd = c.fd := by
  unfold addFd
  split <;> rfl

/-- An event of a connection changes this connection alone. -/
theorem update_accepted (r : Reactor) (id : ℕ) (a : Accepted) (c : Connection Unit) :
    (r.update id a c).accepted = r.accepted.set id { a with conn := c } := by
  unfold update
  simp only
  split
  · rfl
  · rfl

/-- Every event keeps descriptors and states in step. -/
theorem paired_step (hr : r.Paired) (e : Event) : (r.step os e).Paired := by
  obtain ⟨h, -⟩ | ⟨fd, ip, sslNew, io, -, -, -, h⟩ | ⟨id, a, c, htouch, h⟩ := step_cases r e
  · rwa [h]
  · rw [h]
    intro b hb
    obtain hb | hb := List.mem_append.mp hb
    · exact hr b hb
    · rw [List.mem_singleton.mp hb]
      have hnew := (newConnection_spec (os (r.admitted ip).accepted.length) fd
        ((r.admitted ip).createSsl sslNew) io).1
      simpa [Connection.Paired] using hnew
  · rw [h]
    obtain ⟨ha, hmoves⟩ := touch_spec htouch
    intro b hb
    rw [update_accepted] at hb
    obtain hb | rfl := List.mem_or_eq_of_mem_set hb
    · exact hr b hb
    · exact hmoves.paired (hr a (List.mem_of_getElem? ha))

/-- What is added behind a list is found nowhere else. -/
theorem getElem?_concat_of_ne {α : Type*} (l : List α) (x : α) {i : ℕ} (h : i ≠ l.length) :
    (l ++ [x])[i]? = l[i]? := by
  obtain hlt | hgt := Nat.lt_or_gt_of_ne h
  · exact List.getElem?_append_left hlt
  · rw [List.getElem?_eq_none (by simp; omega), List.getElem?_eq_none (by omega)]

/-- The registry stays exact when a new connection is stored, exactly if that is open. -/
theorem exact_accept (hr : r.Exact) {fd : ℕ} (hfd : ¬ r.InUse fd) (ip : String) (sslNew : Bool)
    (io : Io) :
    (r.accept os fd ip sslNew io).Exact ↔
      (newConnection (os r.accepted.length) fd (r.createSsl sslNew) io).state
        ≠ .kDisconnected := by
  have hlast : (r.accept os fd ip sslNew io).accepted[r.accepted.length]? =
      some ⟨addFd (newConnection (os r.accepted.length) fd (r.createSsl sslNew) io), ip,
        r.createSsl sslNew⟩ := List.getElem?_concat_length
  have hconnections : (r.accept os fd ip sslNew io).connections
      = r.connections.insert (fd : ℤ) r.accepted.length := rfl
  constructor
  -- the entry of the new descriptor is that of the new connection
  · intro h
    have hlookup : (r.accept os fd ip sslNew io).connections.lookup (fd : ℤ)
        = some r.accepted.length := Finmap.lookup_insert _
    obtain ⟨a, ha, hopen, -⟩ := (h.registry _ _).mp hlookup
    rw [hlast] at ha
    cases ha
    rwa [addFd_state] at hopen
  · intro hopen
    refine ⟨fun fd' id => ?_, ?_⟩
    · by_cases hid : id = r.accepted.length
      · -- the new connection
        rw [hid, hlast, hconnections]
        constructor
        · intro h
          by_cases hfd' : fd' = fd
          · exact ⟨_, rfl, by rwa [addFd_state],
              by rw [addFd_fd, hfd', (newConnection_spec _ _ _ _).2 hopen]⟩
          · rw [Finmap.lookup_insert_of_ne _ hfd'] at h
            obtain ⟨a, ha, -⟩ := (hr.registry _ _).mp h
            rw [List.getElem?_eq_none le_rfl] at ha
            cases ha
        · rintro ⟨a, ha, -, hafd⟩
          cases ha
          rw [addFd_fd, (newConnection_spec _ _ _ _).2 hopen] at hafd
          rw [← hafd]
          exact Finmap.lookup_insert _
      · -- a connection accepted before; none of them has the new descriptor
        have hold : (r.accept os fd ip sslNew io).accepted[id]? = r.accepted[id]? :=
          getElem?_concat_of_ne _ _ hid
        rw [hold, hconnections]
        by_cases hfd' : fd' = fd
        · rw [hfd', Finmap.lookup_insert]
          constructor
          · intro h
            exact absurd (Option.some.inj h).symm hid
          · rintro ⟨a, ha, -, hafd⟩
            exact absurd ⟨a, List.mem_of_getElem? ha, hafd⟩ hfd
        · rw [Finmap.lookup_insert_of_ne _ hfd']
          exact hr.registry fd' id
    · rintro v ⟨⟩
      rfl

/-- The registry stays exact when an event reaches a connection, exactly if the event does not
disconnect it. -/
theorem exact_update (hpaired : r.Paired) (hr : r.Exact) {id : ℕ} {a : Accepted}
    {c : Connection Unit} (ha : r.accepted[id]? = some a)
    (hmoves : Connection.Moves (os id) a.conn c) :
    (r.update id a c).Exact ↔
      ¬ (a.conn.state ≠ .kDisconnected ∧ c.state = .kDisconnected) := by
  have hapaired := hpaired a (List.mem_of_getElem? ha)
  have hself : (r.update id a c).accepted[id]? = some { a with conn := c } := by
    rw [update_accepted, List.getElem?_set_self (List.getElem?_eq_some_iff.mp ha).1]
  constructor
  · -- the entry stays under the old descriptor
    rintro h ⟨hopen, hclosed⟩
    have hold : r.connections.lookup a.conn.fd = some id :=
      (hr.registry _ _).mpr ⟨a, ha, hopen, rfl⟩
    have hne : a.conn.fd ≠ c.fd := by
      intro hfd
      have hpos := hapaired.mpr hopen
      rw [hfd] at hpos
      exact (hmoves.paired hapaired).mp hpos hclosed
    have hnew : (r.update id a c).connections.lookup a.conn.fd = some id := by
      unfold update
      simp only
      split
      · rw [← hold]
        exact Finmap.lookup_erase_ne hne
      · exact hold
    obtain ⟨b, hb, hbopen, -⟩ := (h.registry _ _).mp hnew
    rw [hself] at hb
    cases hb
    exact hbopen hclosed
  · intro hnot
    -- the connection was not closed, so the callback that erases it was not called
    have hcallback : .disconnectCallback ∉ c.log.drop a.conn.log.length :=
      fun h => hnot (hmoves.disconnectCallback hapaired h)
    have hupdate : r.update id a c = { r with accepted := r.accepted.set id { a with conn := c } } :=
      if_neg hcallback
    rw [hupdate] at hself ⊢
    refine ⟨fun fd id' => ?_, hr.gauge⟩
    by_cases hid : id = id'
    · subst hid
      rw [hself]
      refine (hr.registry fd id).trans ⟨?_, ?_⟩
      · rintro ⟨b, hb, hopen, hfd⟩
        rw [ha] at hb
        cases hb
        have hcopen : c.state ≠ .kDisconnected := fun h => hnot ⟨hopen, h⟩
        exact ⟨_, rfl, hcopen, by rw [← hfd, ← hmoves.fd hapaired hcopen]⟩
      · rintro ⟨b, hb, hopen, hfd⟩
        cases hb
        exact ⟨a, ha, fun h => hopen (hmoves.disconnected hapaired h),
          by rw [← hfd, ← hmoves.fd hapaired hopen]⟩
    · rw [List.getElem?_set_ne hid]
      exact hr.registry fd id'

/-- **One event keeps the registry exact exactly when it disconnects no connection.** -/
theorem exact_step_iff (hpaired : r.Paired) (hr : r.Exact) (e : Event) :
    (r.step os e).Exact ↔ ∀ ip, ¬ r.Disconnects os ip e := by
  obtain ⟨h, hnot⟩ | ⟨fd, ip, sslNew, io, rfl, hfd, hlt, h⟩ | ⟨id, a, c, htouch, h⟩ :=
    step_cases r e
  · rw [h]
    exact iff_of_true hr hnot
  · rw [h, exact_accept (r := r.admitted ip) ⟨hr.registry, hr.gauge⟩ hfd]
    constructor
    · rintro hopen ip' (⟨_, _, _, he, -, -, hclosed⟩ | ⟨_, _, _, htouch, -⟩)
      · cases he
        exact hopen hclosed
      · cases htouch
    · intro hnot hclosed
      exact hnot ip (.inl ⟨fd, sslNew, io, rfl, hfd, hlt, hclosed⟩)
  · obtain ⟨ha, hmoves⟩ := touch_spec htouch
    rw [h, exact_update hpaired hr ha hmoves]
    constructor
    · rintro hnot ip (⟨_, _, _, rfl, -⟩ | ⟨_, _, _, htouch', -, hopen, hclosed⟩)
      · cases htouch
      · rw [htouch] at htouch'
        cases htouch'
        exact hnot ⟨hopen, hclosed⟩
    · rintro hnot ⟨hopen, hclosed⟩
      exact hnot a.ip (.inr ⟨id, a, c, htouch, rfl, hopen, hclosed⟩)

variable (os) in
/-- **The registry and the gauge are exact after every event of a run exactly when no event
disconnects a connection.** -/
theorem registry_exact_iff (ddosProtection : DdosProtection) (tlsContext : Option TlsContext)
    (ports : List ℕ) (es : List Event) :
    Trace.Always (step os) (fun r e => (r.step os e).Exact)
        (fresh ddosProtection tlsContext ports) es ↔
      Trace.Always (step os) (fun r e => ∀ ip, ¬ r.Disconnects os ip e)
        (fresh ddosProtection tlsContext ports) es := by
  refine Trace.always_congr (I := fun r => r.Paired ∧ r.Exact) ?_ ?_ ?_
  · rintro r e ⟨hpaired, hr⟩
    exact exact_step_iff hpaired hr e
  · rintro r e ⟨hpaired, -⟩ hr
    exact ⟨paired_step hpaired e, hr⟩
  · refine ⟨by simp [Paired, fresh], ⟨fun fd id => ?_, by simp [fresh]⟩⟩
    simp [fresh]

/-- An accept followed by an end of file: the registry keeps the connection. -/
def acceptThenEof : List Event :=
  [.accept 5 "192.0.2.1" true {},
    .client 0 (fun _ rest => ((), rest, [])) { input := some { reads := [.bytes []] } }]

/-- The registry is not exact after an end of file. -/
theorem registry_exact_fails_on_eof :
    ¬ Trace.Always (step fun _ => Os.idle) (fun r e => (r.step (fun _ => Os.idle) e).Exact) {}
      acceptThenEof := by
  rintro ⟨-, hexact, -⟩
  have hstored : (Trace.run (step fun _ => Os.idle) {} acceptThenEof).connections.lookup 5
      = some 0 := by
    decide
  have hclosed : ((Trace.run (step fun _ => Os.idle) {} acceptThenEof).accepted[0]?).map
      (fun a => a.conn.state) = some .kDisconnected := by
    decide
  obtain ⟨a, ha, hopen, -⟩ := (hexact.registry 5 0).mp hstored
  rw [show (Trace.run (step fun _ => Os.idle) {} acceptThenEof).accepted[0]? = some a from ha]
    at hclosed
  exact hopen (Option.some.inj hclosed)

end Reactor

end NetworkLib
