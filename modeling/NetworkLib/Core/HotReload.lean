import NetworkLib.Core.ConnectionLimit
import NetworkLib.Core.Server

/-! # Hot reload

`ReloadConfig` puts a new `DdosProtection` into the reactor, with limits of its own making. `Init`
sets the limit on connections per address to 1000 and `ReloadConfig` leaves it at the default of
100, so a reload never installs the limits of a fresh start. The new object counts no connection, so
it forgets every client that has ever been accepted (`reload_never_agrees`). -/

namespace NetworkLib

namespace Server

/-- `SetDdosConfig` as `ReloadConfig` calls it. -/
def reloadDdosConfig (cfg : RateLimiterConfig) : DdosConfig :=
  if cfg.perIpEnabled then { rateLimitPerIp := cfg.perIpRequestsPerSecond } else {}

/-- `ReloadConfig`, of a server whose `Init` has made the reactor. -/
def reloadConfig (s : Server) (newConf : ServerConfig) (ssl : OpenSsl) : Server :=
  let reactor := s.reactor.setDdosConfig (reloadDdosConfig newConf.rateLimiter)
  let tlsContext :=
    if newConf.ssl.enabled then
      reactor.tlsContext.map fun t =>
        (t.reloadCertificates ssl newConf.ssl.certFile newConf.ssl.keyFile).1
    else reactor.tlsContext
  { s with reactor := { reactor with tlsContext } }

/-- The server after some events of its reactor. -/
def after (s : Server) (os : ℕ → Os) (es : List Reactor.Event) : Server :=
  { s with reactor := Trace.run (Reactor.step os) s.reactor es }

/-- **A hot reload is as good as a fresh start**: the limits are those of the server started with
the new configuration, and no address is counted otherwise than before. -/
def ReloadAgrees (running reloaded fresh : Server) : Prop :=
  reloaded.reactor.ddosProtection.config = fresh.reactor.ddosProtection.config ∧
    ∀ ip, reloaded.reactor.ddosProtection.connCounts ip
      = running.reactor.ddosProtection.connCounts ip

/-! ## The reactor that `Init` makes -/

variable {s s' : Server} {cfg : ServerConfig} {P : ProtocolConfig} {o : Outcome}

/-- The reactor has accepted nothing, under the limits `config`. -/
def Unused (config : DdosConfig) (s : Server) : Prop :=
  ∃ tlsContext ports, s.reactor = Reactor.fresh { config } tlsContext ports

variable {config : DdosConfig}

/-- A listener for datagrams leaves the reactor unused. -/
theorem unused_listenUdp {port : ℕ} {message : String} (hs : Unused config s)
    (h : s.listenUdp port message o = .ok s') : Unused config s' := by
  unfold listenUdp at h
  split at h
  · cases h
  · cases h
    exact hs

/-- So does a listener for streams. -/
theorem unused_listen {l : Listener} {tls : Option TlsContext} {message : String}
    (hs : Unused config s) (h : s.listen l tls message o = .ok s') : Unused config s' := by
  obtain ⟨tlsContext, ports, hreactor⟩ := hs
  unfold listen at h
  split at h
  · cases h
  · next reactor hregister =>
      cases h
      unfold Reactor.registerServer at hregister
      split at hregister
      · cases hregister
      · cases hregister
        exact ⟨tls, ports ++ [l.port], by rw [hreactor]; rfl⟩

/-- So does an entry of the protocol list. -/
theorem unused_register (hs : Unused config s) (h : s.register cfg P o = .ok s') :
    Unused config s' := by
  unfold register at h
  split at h
  · cases h
    exact hs
  · split at h
    · cases h
    · split at h
      · exact unused_listenUdp hs h
      · split at h
        · cases h
        · exact unused_listen hs h

/-- So do all of them. -/
theorem unused_registerAll {ps : List (ProtocolConfig × Outcome)} (hs : Unused config s)
    (h : s.registerAll cfg ps = .ok s') : Unused config s' := by
  induction ps generalizing s with
  | nil =>
      cases h
      exact hs
  | cons p ps ih =>
      unfold registerAll at h
      split at h
      · cases h
      · next t ht => exact ih (unused_register hs ht) h

/-- So does the listener of the legacy port. -/
theorem unused_registerLegacy {tls : Option TlsContext} (hs : Unused config s)
    (h : s.registerLegacy cfg tls o = .ok s') : Unused config s' := by
  unfold registerLegacy at h
  split at h
  · exact unused_listenUdp hs h
  · split at h
    · cases h
    · exact unused_listen hs h

/-- **`Init` makes a reactor that has accepted nothing**, with the limits of the configuration. -/
theorem unused_init {loopFailure : Option ResultError} {ssl : OpenSsl} {o : ℕ → Outcome}
    (h : s.init cfg loopFailure ssl o = .ok s') : Unused (ddosConfig cfg.rateLimiter) s' := by
  have hnew : Unused (ddosConfig cfg.rateLimiter) { s with
      reactor := ({} : Reactor).setDdosConfig (ddosConfig cfg.rateLimiter)
      listeners := []
      udpPorts := [] } := ⟨none, [], rfl⟩
  unfold init at h
  split at h
  · cases h
  · simp only at h
    split at h
    · cases h
    · split at h
      · exact unused_registerLegacy hnew h
      · exact unused_registerAll hnew h

/-! ## What a reload does -/

theorem reloadConfig_ddosProtection (s : Server) (newConf : ServerConfig) (ssl : OpenSsl) :
    (s.reloadConfig newConf ssl).reactor.ddosProtection
      = { config := reloadDdosConfig newConf.rateLimiter } := rfl

/-- The two functions agree on the requests per second, and never on the connections. -/
theorem reloadDdosConfig_spec (cfg : RateLimiterConfig) :
    (reloadDdosConfig cfg).rateLimitPerIp = (ddosConfig cfg).rateLimitPerIp ∧
      (reloadDdosConfig cfg).maxConnPerIp = 100 ∧ (ddosConfig cfg).maxConnPerIp = 1000 := by
  unfold reloadDdosConfig ddosConfig
  split
  · exact ⟨rfl, rfl, rfl⟩
  · exact ⟨rfl, rfl, rfl⟩

/-- The counts of a running server are those of the connections ever accepted. -/
theorem counted_after (hs : Unused config s) (os : ℕ → Os) (es : List Reactor.Event) :
    (s.after os es).reactor.Counted := by
  obtain ⟨tlsContext, ports, hreactor⟩ := hs
  refine Trace.run_preserves (I := Reactor.Counted) (fun _ e hr => Reactor.counted_step hr e) ?_ es
  rw [hreactor]
  exact fun _ => rfl

/-- **A hot reload never agrees with a fresh start.** Whatever the two configurations are and
whatever has happened in between, the limits on connections differ; the limits on requests are the
same; and the counts are kept only where no connection was ever accepted. -/
theorem reload_never_agrees {old new : ServerConfig} {ssl ssl' : OpenSsl} {o o' : ℕ → Outcome}
    {loopFailure loopFailure' : Option ResultError} {running fresh : Server}
    (hold : s.init old loopFailure ssl o = .ok running)
    (hnew : s'.init new loopFailure' ssl' o' = .ok fresh)
    (os : ℕ → Os) (es : List Reactor.Event) (sslReload : OpenSsl) :
    ¬ ReloadAgrees (running.after os es) ((running.after os es).reloadConfig new sslReload) fresh ∧
      ((running.after os es).reloadConfig new sslReload).reactor.ddosProtection.config.rateLimitPerIp
        = fresh.reactor.ddosProtection.config.rateLimitPerIp ∧
      ((∀ ip, ((running.after os es).reloadConfig new sslReload).reactor.ddosProtection.connCounts ip
          = (running.after os es).reactor.ddosProtection.connCounts ip) ↔
        (running.after os es).reactor.accepted = []) := by
  obtain ⟨hrate, hreload, hinit⟩ := reloadDdosConfig_spec new.rateLimiter
  obtain ⟨tlsContext, ports, hfresh⟩ := unused_init hnew
  have hconfig : fresh.reactor.ddosProtection.config = ddosConfig new.rateLimiter := by
    rw [hfresh]
    rfl
  have hcounted := counted_after (unused_init hold) os es
  refine ⟨?_, ?_, ?_⟩
  · rintro ⟨hsame, -⟩
    rw [reloadConfig_ddosProtection, hconfig] at hsame
    have hlimits := congrArg DdosConfig.maxConnPerIp hsame
    rw [hreload, hinit] at hlimits
    exact absurd hlimits (by decide)
  · rw [reloadConfig_ddosProtection, hconfig]
    exact hrate
  · rw [reloadConfig_ddosProtection]
    constructor
    · intro hkept
      rw [List.eq_nil_iff_forall_not_mem]
      intro a ha
      -- its address was counted, and is not any more
      have hzero : (0 : ℤ) = (running.after os es).reactor.everFrom a.ip :=
        (hkept a.ip).trans (hcounted a.ip)
      have hpos : 0 < (running.after os es).reactor.everFrom a.ip :=
        List.countP_pos_iff.mpr ⟨a, ha, by simp⟩
      omega
    · intro hnone ip
      rw [hcounted ip, Reactor.everFrom, hnone]
      rfl

/-- A server with one client connected, reloaded with its own configuration: other limits, and the
client is not counted any more. -/
theorem reload_forgets_client :
    ∃ running, Server.init {} {} none {} (fun _ => {}) = .ok running ∧
      ¬ ReloadAgrees (running.after (fun _ => Os.idle) [.accept 7 "192.0.2.1" false {}])
        ((running.after (fun _ => Os.idle) [.accept 7 "192.0.2.1" false {}]).reloadConfig {} {})
        running ∧
      (running.after (fun _ => Os.idle)
        [.accept 7 "192.0.2.1" false {}]).reactor.ddosProtection.connCounts "192.0.2.1" = 1 ∧
      ((running.after (fun _ => Os.idle)
        [.accept 7 "192.0.2.1" false {}]).reloadConfig {} {}).reactor.ddosProtection.connCounts
          "192.0.2.1" = 0 := by
  refine ⟨_, rfl, ?_, by decide, rfl⟩
  rintro ⟨hsame, -⟩
  have hlimits := congrArg DdosConfig.maxConnPerIp hsame
  exact absurd hlimits (by decide)

/-- A server with one client connected, reloaded with a configuration that sets another limit on
requests: it differs from a fresh start, and a client was forgotten. -/
theorem reload_never_agrees_other_limit :
    let new : ServerConfig := { rateLimiter := { perIpRequestsPerSecond := 7 } }
    let es : List Reactor.Event := [.accept 7 "192.0.2.1" false {}]
    ∃ running fresh, Server.init {} {} none {} (fun _ => {}) = .ok running ∧
      Server.init {} new none {} (fun _ => {}) = .ok fresh ∧
      let used := running.after (fun _ => Os.idle) es
      ¬ ReloadAgrees used (used.reloadConfig new {}) fresh ∧
        (used.reloadConfig new {}).reactor.ddosProtection.config.rateLimitPerIp
          = fresh.reactor.ddosProtection.config.rateLimitPerIp ∧
        ((∀ ip, (used.reloadConfig new {}).reactor.ddosProtection.connCounts ip
            = used.reactor.ddosProtection.connCounts ip) ↔ used.reactor.accepted = []) := by
  intro new es
  obtain ⟨running, h⟩ : ∃ running, Server.init {} {} none {} (fun _ => {}) = .ok running := ⟨_, rfl⟩
  obtain ⟨fresh, h'⟩ : ∃ fresh, Server.init {} new none {} (fun _ => {}) = .ok fresh := ⟨_, rfl⟩
  exact ⟨running, fresh, h, h', reload_never_agrees h h' (fun _ => Os.idle) es {}⟩

end Server

end NetworkLib
