import NetworkLib.Core.Registry

/-! # The limit on connections per address

`conn_counts_` is raised by every admission and lowered by nothing. It therefore counts the
connections an address has ever made (`admits_iff_everFrom`), and it counts the open ones exactly as
long as none of them is disconnected (`counts_live_iff`). -/

namespace NetworkLib.Reactor

variable {os : ℕ → Os} {r : Reactor}

/-- The open connections from an address. -/
def liveFrom (r : Reactor) (ip : String) : ℕ :=
  r.accepted.countP fun a => a.ip = ip ∧ a.conn.state ≠ .kDisconnected

/-- The connections ever accepted from an address. -/
def everFrom (r : Reactor) (ip : String) : ℕ := r.accepted.countP fun a => a.ip = ip

/-- `conn_counts_` counts the connections ever accepted. -/
def Counted (r : Reactor) : Prop := ∀ ip, r.ddosProtection.connCounts ip = r.everFrom ip

variable (os) in
/-- The event makes a connection. -/
def Admits (r : Reactor) (e : Event) : Prop := r.accepted.length < (r.step os e).accepted.length

variable (os) in
/-- **The limit on an address counts its open connections**: after the event `conn_counts_` has
their number, and a client the event brings is admitted when fewer than the maximum are open. -/
def CountsLive (ip : String) (r : Reactor) (e : Event) : Prop :=
  (r.step os e).ddosProtection.connCounts ip = (r.step os e).liveFrom ip ∧
    ∀ fd sslNew io, e = .accept fd ip sslNew io → ¬ r.InUse fd →
      (r.Admits os e ↔ (r.liveFrom ip : ℤ) < r.ddosProtection.config.maxConnPerIp)

/-! ## What one event does to the counts -/

/-- Counting after one element of a list is replaced. -/
theorem countP_set_add {α : Type*} {l : List α} {i : ℕ} {a : α} (ha : l[i]? = some a) (b : α)
    (p : α → Bool) :
    (l.set i b).countP p + (if p a then 1 else 0) = l.countP p + if p b then 1 else 0 := by
  obtain ⟨hi, hget⟩ := List.getElem?_eq_some_iff.mp ha
  rw [List.countP_set hi, hget]
  by_cases hp : p a = true
  · have hpos : 0 < l.countP p := List.countP_pos_iff.mpr ⟨a, List.mem_of_getElem? ha, hp⟩
    simp only [hp, if_true]
    omega
  · simp only [hp, if_false, Bool.false_eq_true]
    omega

/-- An event of a connection leaves the counts of addresses alone. -/
theorem update_ddosProtection (r : Reactor) (id : ℕ) (a : Accepted) (c : Connection Unit) :
    (r.update id a c).ddosProtection = r.ddosProtection := by
  unfold update
  simp only
  split
  · rfl
  · rfl

/-- It accepts nothing. -/
theorem update_everFrom {id : ℕ} {a : Accepted} (ha : r.accepted[id]? = some a)
    (c : Connection Unit) (ip : String) : (r.update id a c).everFrom ip = r.everFrom ip := by
  have hcount := countP_set_add ha { a with conn := c } fun a => a.ip = ip
  unfold everFrom
  rw [update_accepted]
  simp only at hcount
  omega

/-- Reaching a connection lowers the number of open ones exactly when it disconnects one. -/
theorem update_liveFrom (hpaired : r.Paired) {id : ℕ} {a : Accepted} {c : Connection Unit}
    (ha : r.accepted[id]? = some a) (hmoves : Connection.Moves (os id) a.conn c) (ip : String) :
    (r.update id a c).liveFrom ip
      + (if a.ip = ip ∧ a.conn.state ≠ .kDisconnected ∧ c.state = .kDisconnected then 1 else 0)
      = r.liveFrom ip := by
  have hcount := countP_set_add ha { a with conn := c }
    fun a => a.ip = ip ∧ a.conn.state ≠ .kDisconnected
  have hstay := hmoves.disconnected (hpaired a (List.mem_of_getElem? ha))
  unfold liveFrom
  rw [update_accepted]
  by_cases hip : a.ip = ip
  · by_cases hopen : a.conn.state = .kDisconnected
    · simp only [hip, hopen, hstay hopen] at hcount ⊢
      simpa using hcount
    · by_cases hc : c.state = .kDisconnected
      · simp [hip, hopen, hc] at hcount ⊢
        omega
      · simp [hip, hopen, hc] at hcount ⊢
        omega
  · simp [hip] at hcount ⊢
    omega

/-- A new connection raises the number accepted from its address. -/
theorem accept_everFrom (r : Reactor) (fd : ℕ) (ip ip' : String) (sslNew : Bool) (io : Io) :
    (r.accept os fd ip sslNew io).everFrom ip' = r.everFrom ip' + if ip = ip' then 1 else 0 := by
  simp only [everFrom, accept, List.countP_append, List.countP_singleton, decide_eq_true_eq]

/-- It raises the number open from its address unless it is closed at once. -/
theorem accept_liveFrom (r : Reactor) (fd : ℕ) (ip ip' : String) (sslNew : Bool) (io : Io) :
    (r.accept os fd ip sslNew io).liveFrom ip' = r.liveFrom ip' + if ip = ip' ∧
      (newConnection (os r.accepted.length) fd (r.createSsl sslNew) io).state ≠ .kDisconnected
      then 1 else 0 := by
  simp only [liveFrom, accept, List.countP_append, List.countP_singleton, decide_eq_true_eq,
    addFd_state]

@[simp] theorem admitted_connCounts (r : Reactor) (ip ip' : String) :
    (r.admitted ip).ddosProtection.connCounts ip'
      = r.ddosProtection.connCounts ip' + if ip = ip' then 1 else 0 := by
  by_cases h : ip = ip'
  · subst h
    simp [admitted]
  · simp [admitted, h, Ne.symm h]

/-- A client on a free descriptor is admitted below the limit. -/
theorem admits_accept_iff {fd : ℕ} (hfd : ¬ r.InUse fd) (ip : String) (sslNew : Bool) (io : Io) :
    r.Admits os (.accept fd ip sslNew io) ↔
      r.ddosProtection.connCounts ip < r.ddosProtection.config.maxConnPerIp := by
  unfold Admits
  simp only [step, if_neg hfd, onAccept, DdosProtection.allowConnection]
  by_cases hmax : r.ddosProtection.config.maxConnPerIp ≤ r.ddosProtection.connCounts ip
  · simp only [if_pos hmax]
    exact iff_of_false (lt_irrefl _) (not_lt.mpr hmax)
  · simp only [if_neg hmax]
    exact iff_of_true (by simp [accept]) (not_le.mp hmax)

/-- Every event keeps the count of all connections. -/
theorem counted_step (hr : r.Counted) (e : Event) : (r.step os e).Counted := by
  intro ip'
  obtain ⟨h, -⟩ | ⟨fd, ip, sslNew, io, -, -, -, h⟩ | ⟨id, a, c, htouch, h⟩ := step_cases r e
  · rw [h]
    exact hr ip'
  · have hold : (r.admitted ip).everFrom ip' = r.everFrom ip' := rfl
    have hcounts : ((r.admitted ip).accept os fd ip sslNew io).ddosProtection
        = (r.admitted ip).ddosProtection := rfl
    rw [h, accept_everFrom, hcounts, admitted_connCounts, hr ip', hold]
    push_cast
    rfl
  · obtain ⟨ha, -⟩ := touch_spec htouch
    rw [h, update_ddosProtection, update_everFrom ha]
    exact hr ip'

/-- The configuration stays. -/
theorem config_step (r : Reactor) (e : Event) :
    (r.step os e).ddosProtection.config = r.ddosProtection.config := by
  obtain ⟨h, -⟩ | ⟨fd, ip, sslNew, io, -, -, -, h⟩ | ⟨id, a, c, -, h⟩ := step_cases r e
  · rw [h]
  · rw [h]
    rfl
  · rw [h, update_ddosProtection]

/-- The count of an address follows its open connections through an event exactly when the event
disconnects none of them. -/
theorem connCounts_step_iff (hpaired : r.Paired) {ip : String}
    (hr : r.ddosProtection.connCounts ip = r.liveFrom ip) (e : Event) :
    (r.step os e).ddosProtection.connCounts ip = (r.step os e).liveFrom ip ↔
      ¬ r.Disconnects os ip e := by
  obtain ⟨h, hnot⟩ | ⟨fd, ip', sslNew, io, rfl, hfd, hlt, h⟩ | ⟨id, a, c, htouch, h⟩ :=
    step_cases r e
  · rw [h]
    exact iff_of_true hr (hnot ip)
  · -- an admitted connection is counted at once, also if its constructor closes it
    have hcounts : ((r.admitted ip').accept os fd ip' sslNew io).ddosProtection
        = (r.admitted ip').ddosProtection := rfl
    have hold : (r.admitted ip').liveFrom ip = r.liveFrom ip := rfl
    -- the event disconnects exactly when the constructor does
    have hdisconnects : r.Disconnects os ip (.accept fd ip' sslNew io) ↔ ip' = ip ∧
        (newConnection (os r.accepted.length) fd (r.createSsl sslNew) io).state
          = .kDisconnected := by
      constructor
      · rintro (⟨_, _, _, he, -, -, hclosed⟩ | ⟨_, _, _, htouch, -⟩)
        · cases he
          exact ⟨rfl, hclosed⟩
        · cases htouch
      · rintro ⟨rfl, hclosed⟩
        exact .inl ⟨fd, sslNew, io, rfl, hfd, hlt, hclosed⟩
    rw [h, accept_liveFrom, hcounts, admitted_connCounts, hr, hold, hdisconnects]
    change _ + (if ip' = ip then 1 else 0) = ((_ + if ip' = ip ∧
      (newConnection (os r.accepted.length) fd (r.createSsl sslNew) io).state ≠ _ then 1 else 0 : ℕ) : ℤ) ↔ _
    by_cases hip : ip' = ip
    · by_cases hclosed : (newConnection (os r.accepted.length) fd (r.createSsl sslNew) io).state
          = .kDisconnected
      · simp [hip, hclosed]
      · simp [hip, hclosed]
    · simp [hip]
  · -- a connection that goes on is never taken off the count
    obtain ⟨ha, hmoves⟩ := touch_spec htouch
    have hlive := update_liveFrom hpaired ha hmoves ip
    have hdisconnects : r.Disconnects os ip e ↔
        a.ip = ip ∧ a.conn.state ≠ .kDisconnected ∧ c.state = .kDisconnected := by
      constructor
      · rintro (⟨_, _, _, rfl, -⟩ | ⟨_, _, _, htouch', hd⟩)
        · cases htouch
        · rw [htouch] at htouch'
          cases htouch'
          exact hd
      · exact fun hd => .inr ⟨id, a, c, htouch, hd⟩
    rw [h, update_ddosProtection, hr, ← hlive, hdisconnects]
    split
    · next hd => simp [hd]
    · next hd => simp [hd]

/-- **One event keeps the count of the open connections exactly when it disconnects none.** -/
theorem countsLive_step_iff (hpaired : r.Paired) {ip : String}
    (hr : r.ddosProtection.connCounts ip = r.liveFrom ip) (e : Event) :
    r.CountsLive os ip e ↔ ¬ r.Disconnects os ip e := by
  unfold CountsLive
  rw [connCounts_step_iff hpaired hr]
  refine and_iff_left ?_
  rintro fd sslNew io rfl hfd
  rw [admits_accept_iff hfd, hr]

/-! ## Runs -/

variable (os) in
/-- **The limiter counts connections ever made**: along every run, a client on a free descriptor is
admitted exactly when its address has had fewer connections than the maximum so far. -/
theorem admits_iff_everFrom (config : DdosConfig) (tlsContext : Option TlsContext)
    (ports : List ℕ) (es : List Event) {fd : ℕ} (ip : String) (sslNew : Bool) (io : Io)
    (hfd : ¬ (Trace.run (step os) (fresh { config } tlsContext ports) es).InUse fd) :
    (Trace.run (step os) (fresh { config } tlsContext ports) es).Admits os
        (.accept fd ip sslNew io) ↔
      ((Trace.run (step os) (fresh { config } tlsContext ports) es).everFrom ip : ℤ)
        < config.maxConnPerIp := by
  have hcounted : (Trace.run (step os) (fresh { config } tlsContext ports) es).Counted :=
    Trace.run_preserves (I := Counted) (fun _ e hr => counted_step hr e) (fun _ => rfl) es
  have hconfig : (Trace.run (step os) (fresh { config } tlsContext ports) es).ddosProtection.config
      = config :=
    Trace.run_preserves (I := fun r => r.ddosProtection.config = config)
      (fun r e hr => (config_step r e).trans hr) rfl es
  rw [admits_accept_iff hfd, hcounted ip, hconfig]

variable (os) in
/-- **The limit on an address counts its open connections along a run exactly when no event of the
run disconnects one of them.** -/
theorem counts_live_iff (config : DdosConfig) (tlsContext : Option TlsContext) (ports : List ℕ)
    (ip : String) (es : List Event) :
    Trace.Always (step os) (CountsLive os ip) (fresh { config } tlsContext ports) es ↔
      Trace.Always (step os) (fun r e => ¬ r.Disconnects os ip e)
        (fresh { config } tlsContext ports) es := by
  refine Trace.always_congr
    (I := fun r => r.Paired ∧ r.ddosProtection.connCounts ip = r.liveFrom ip) ?_ ?_ ?_
  · rintro r e ⟨hpaired, hr⟩
    exact countsLive_step_iff hpaired hr e
  · rintro r e ⟨hpaired, -⟩ hlive
    exact ⟨paired_step hpaired e, hlive.1⟩
  · exact ⟨by simp [Paired, fresh], rfl⟩

/-- An address limited to one connection is refused when its only connection has reached the end of
file: `conn_counts_` no longer counts its open connections, of which there are none. -/
theorem counts_live_fails_after_eof :
    ¬ Trace.Always (step fun _ => Os.idle) (CountsLive (fun _ => Os.idle) "192.0.2.1")
        (fresh { config := { maxConnPerIp := 1 } } none []) acceptThenEof ∧
      (Trace.run (step fun _ => Os.idle) (fresh { config := { maxConnPerIp := 1 } } none [])
        acceptThenEof).liveFrom "192.0.2.1" = 0 ∧
      ¬ (Trace.run (step fun _ => Os.idle) (fresh { config := { maxConnPerIp := 1 } } none [])
        acceptThenEof).Admits (fun _ => Os.idle) (.accept 6 "192.0.2.1" true {}) := by
  refine ⟨?_, by decide, by unfold Admits; decide⟩
  rintro ⟨-, hlive, -⟩
  have hcount : (Trace.run (step fun _ => Os.idle)
      (fresh { config := { maxConnPerIp := 1 } } none [])
      acceptThenEof).ddosProtection.connCounts "192.0.2.1" = 1 := by
    decide
  have hopen : (Trace.run (step fun _ => Os.idle)
      (fresh { config := { maxConnPerIp := 1 } } none []) acceptThenEof).liveFrom "192.0.2.1"
        = 0 := by
    decide
  have hsame : (1 : ℤ) = ((0 : ℕ) : ℤ) := hcount.symm.trans (hlive.1.trans (congrArg _ hopen))
  exact absurd hsame (by decide)

end NetworkLib.Reactor
