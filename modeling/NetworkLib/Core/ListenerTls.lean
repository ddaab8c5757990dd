import NetworkLib.Core.Registry
import NetworkLib.Core.Server

/-! # TLS of a listener

Every `RegisterServer` stores its context in the one `tls_context_` of the reactor, which the accept
callbacks of all listeners read. After `Init` it is the context of the last stream listener of the
protocol list, and every connection gets that one (`tls_per_listener_iff`). -/

namespace NetworkLib

/-- The entry gets a listener for streams of bytes. -/
def ProtocolConfig.Listens (P : ProtocolConfig) : Prop := P.enabled = true ∧ P.type ≠ "udp"

instance (P : ProtocolConfig) : Decidable P.Listens :=
  inferInstanceAs (Decidable (P.enabled = true ∧ P.type ≠ "udp"))

/-- The last entry of a protocol list that gets a listener for streams of bytes. -/
def lastListener (ps : List ProtocolConfig) : Option ProtocolConfig :=
  (ps.filter fun P => P.Listens).getLast?

/-- The context that is to be used for an entry. -/
def SslConfig.ctx (ssl : SslConfig) : Option SslCtx :=
  if ssl.enabled then
    some { method := .kServer, certificate := ssl.certFile, privateKey := ssl.keyFile }
  else none

/-- **TLS is decided by the entry**, for a connection accepted in state `r` on its port: it runs
over TLS with the entry's certificate if the entry asks for TLS, and else in plaintext; if it asks
for TLS and there is no `SSL` object, the connection is refused. -/
def TlsAsConfigured (P : ProtocolConfig) (sslNew : Bool) (r r' : Reactor) : Prop :=
  if P.ssl.enabled = true ∧ sslNew = false then r'.accepted = r.accepted
  else ∃ a, r'.accepted = r.accepted ++ [a] ∧ (a.ssl.isSome ↔ P.ssl.enabled = true) ∧
    ∀ ctx, a.ssl = some ctx → ctx.certificate = some P.ssl.certFile

/-- What `P` asks for is what the last listener `L` gets. -/
def Matches (P L : ProtocolConfig) (sslNew : Bool) : Prop :=
  if P.ssl.enabled = true then
    sslNew = true ∧ L.ssl.enabled = true ∧ L.ssl.certFile = P.ssl.certFile
  else ¬ (sslNew = true ∧ L.ssl.enabled = true)

/-! ## The context after `Init` -/

namespace Server

variable {cfg : ServerConfig} {s s' : Server} {P : ProtocolConfig} {o : Outcome}

/-- An initialised context is the one configured. -/
theorem initTls_ok {ssl : OpenSsl} {c : SslConfig} {message : String} {tls : Option TlsContext}
    (h : initTls ssl c message = .ok tls) (sslNew : Bool) :
    (tls.bind fun t => t.createSsl sslNew) = if sslNew then c.ctx else none := by
  unfold initTls at h
  split at h
  · next henabled =>
      split at h
      · next t ht =>
          cases h
          simp only [Option.bind_some, TlsContext.createSsl, TlsContext.init_server ht,
            SslConfig.ctx, henabled, if_true]
      · cases h
  · next henabled =>
      cases h
      simp [SslConfig.ctx, henabled]

/-- A listener for datagrams leaves the reactor alone. -/
theorem listenUdp_ok {port : ℕ} {message : String} (h : s.listenUdp port message o = .ok s') :
    s'.reactor = s.reactor := by
  unfold listenUdp at h
  split at h
  · cases h
  · cases h
    rfl

/-- A listener for streams leaves its own context in the reactor. -/
theorem listen_ok {l : Listener} {tls : Option TlsContext} {message : String}
    (h : s.listen l tls message o = .ok s') : s'.reactor.tlsContext = tls := by
  unfold listen Reactor.registerServer at h
  cases hf : o.failure with
  | some f => simp [hf] at h
  | none =>
      simp only [hf] at h
      cases h
      rfl

/-- **What the registration of one entry does to the context**: an entry that gets a stream listener
replaces it by its own, any other leaves it. -/
theorem register_ok (h : s.register cfg P o = .ok s') (sslNew : Bool) :
    s'.reactor.createSsl sslNew =
      if P.Listens then if sslNew then P.ssl.ctx else none else s.reactor.createSsl sslNew := by
  unfold register at h
  split at h
  · next hdisabled =>
      cases h
      rw [if_neg]
      rintro ⟨henabled, -⟩
      simp [henabled] at hdisabled
  · next henabled =>
      split at h
      · cases h
      · next tls htls =>
          split at h
          · next hudp =>
              rw [if_neg fun hl => hl.2 hudp, Reactor.createSsl, listenUdp_ok h]
              rfl
          · next hudp =>
              split at h
              · cases h
              · rw [if_pos ⟨by simpa using henabled, hudp⟩, Reactor.createSsl, listen_ok h,
                  ← initTls_ok htls sslNew]
                cases tls <;> rfl

/-- Registering a list of entries leaves the context of the last one with a stream listener. -/
theorem registerAll_ok {ps : List (ProtocolConfig × Outcome)} (h : s.registerAll cfg ps = .ok s')
    (sslNew : Bool) :
    s'.reactor.createSsl sslNew =
      match lastListener (ps.map Prod.fst) with
      | none => s.reactor.createSsl sslNew
      | some L => if sslNew then L.ssl.ctx else none := by
  induction ps generalizing s with
  | nil =>
      cases h
      rfl
  | cons p ps ih =>
      obtain ⟨P, o⟩ := p
      unfold registerAll at h
      split at h
      · cases h
      · next t ht =>
          rw [ih h, register_ok ht]
          by_cases hP : P.Listens
          · simp only [lastListener, List.map_cons, List.filter_cons, hP, decide_true, if_true]
            rw [List.getLast?_cons]
            cases (List.filter (fun P => decide P.Listens) (ps.map Prod.fst)).getLast? <;> rfl
          · simp only [lastListener, List.map_cons, List.filter_cons, hP, decide_false, if_false,
              Bool.false_eq_true]

/-- **The context after `Init`** is that of the last stream listener of the protocol list. -/
theorem init_ok {loopFailure : Option ResultError} {ssl : OpenSsl} {o : ℕ → Outcome}
    {L : ProtocolConfig} (h : s.init cfg loopFailure ssl o = .ok s')
    (hL : lastListener cfg.protocolList = some L) (sslNew : Bool) :
    s'.reactor.createSsl sslNew = if sslNew then L.ssl.ctx else none := by
  unfold init at h
  split at h
  · cases h
  · simp only at h
    split at h
    · cases h
    · split at h
      · next hnil =>
          rw [hnil] at hL
          cases hL
      · rw [registerAll_ok h, List.map_fst_zip (by simp), hL]

end Server

/-! ## Connections -/

namespace Reactor

variable {os : ℕ → Os}

/-- No event changes the context. -/
theorem tlsContext_step (r : Reactor) (e : Event) : (r.step os e).tlsContext = r.tlsContext := by
  obtain ⟨h, -⟩ | ⟨fd, ip, sslNew, io, -, -, -, h⟩ | ⟨id, a, c, -, h⟩ := step_cases r e
  · rw [h]
  · rw [h]
    rfl
  · rw [h]
    unfold update
    simp only
    split
    · rfl
    · rfl

variable (os) in
/-- An accept stores a connection with the `SSL` object that the context gives. -/
theorem accept_ssl (r : Reactor) (fd : ℕ) (ip : String) (sslNew : Bool) (io : Io)
    (Q : Option SslCtx → Prop) :
    (∃ a, (r.accept os fd ip sslNew io).accepted = r.accepted ++ [a] ∧ Q a.ssl) ↔
      Q (r.createSsl sslNew) := by
  constructor
  · rintro ⟨a, ha, hQ⟩
    obtain rfl := List.singleton_inj.mp (List.append_cancel_left ha)
    exact hQ
  · intro hQ
    exact ⟨_, rfl, hQ⟩

/-- A connection is as entry `P` has it when the context is that of a listener `L` that matches. -/
theorem accept_tls_iff {r : Reactor} {P L : ProtocolConfig} {sslNew : Bool}
    (hctx : r.createSsl sslNew = if sslNew then L.ssl.ctx else none) (fd : ℕ) (ip : String)
    (io : Io) :
    TlsAsConfigured P sslNew r (r.accept os fd ip sslNew io) ↔ Matches P L sslNew := by
  have hssl := accept_ssl os r fd ip sslNew io fun ssl =>
    (ssl.isSome ↔ P.ssl.enabled = true) ∧ ∀ ctx, ssl = some ctx → ctx.certificate = P.ssl.certFile
  unfold TlsAsConfigured Matches
  rw [hssl, hctx]
  by_cases hP : P.ssl.enabled = true
  · cases sslNew with
    | false =>
        rw [if_pos ⟨hP, rfl⟩, if_pos hP]
        refine iff_of_false (fun h => ?_) (fun h => Bool.false_ne_true h.1)
        exact absurd (congrArg List.length h) (by simp [accept])
    | true =>
        rw [if_neg (by simp), if_pos hP]
        by_cases hL : L.ssl.enabled = true
        · simp [SslConfig.ctx, hL, hP]
        · simp [SslConfig.ctx, hL, hP]
  · rw [if_neg fun h => hP h.1, if_neg hP]
    cases sslNew with
    | false => simp [hP]
    | true =>
        by_cases hL : L.ssl.enabled = true
        · simp [SslConfig.ctx, hL, hP]
        · simp [SslConfig.ctx, hL, hP]

end Reactor

/-- The last listener of a list with a listener in it. -/
theorem exists_lastListener {ps : List ProtocolConfig} {P : ProtocolConfig} (hP : P ∈ ps)
    (hlistens : P.Listens) : ∃ L, lastListener ps = some L := by
  have hmem : P ∈ ps.filter fun P => P.Listens :=
    List.mem_filter.mpr ⟨hP, decide_eq_true hlistens⟩
  exact ⟨_, List.getLast?_eq_some_getLast (List.ne_nil_of_mem hmem)⟩

/-- **TLS of a listener.** After `Init`, and whatever has happened since, a connection accepted on
the port of entry `P` is served as `P` says exactly if `P` matches the last stream listener of the
list. -/
theorem tls_per_listener_iff {s s' : Server} {cfg : ServerConfig}
    {loopFailure : Option ResultError} {ssl : OpenSsl} {o : ℕ → Outcome}
    (h : s.init cfg loopFailure ssl o = .ok s') {P : ProtocolConfig}
    (hP : P ∈ cfg.protocolList) (hlistens : P.Listens) (os : ℕ → Os) (es : List Reactor.Event)
    (fd : ℕ) (ip : String) (sslNew : Bool) (io : Io) :
    ∃ L, lastListener cfg.protocolList = some L ∧
      (TlsAsConfigured P sslNew (Trace.run (Reactor.step os) s'.reactor es)
          ((Trace.run (Reactor.step os) s'.reactor es).accept os fd ip sslNew io) ↔
        Matches P L sslNew) := by
  obtain ⟨L, hL⟩ := exists_lastListener hP hlistens
  have htls : (Trace.run (Reactor.step os) s'.reactor es).tlsContext = s'.reactor.tlsContext :=
    Trace.run_preserves (I := fun r => r.tlsContext = s'.reactor.tlsContext)
      (fun r e hr => (Reactor.tlsContext_step r e).trans hr) rfl es
  refine ⟨L, hL, Reactor.accept_tls_iff ?_ fd ip io⟩
  rw [Reactor.createSsl, htls]
  exact Server.init_ok h hL sslNew

/-- A TLS listener for HTTP. -/
def httpsEntry : ProtocolConfig :=
  { type := "http", port := 8443, ssl := { enabled := true, certFile := "a.pem", keyFile := "a.key" } }

/-- A listener without TLS. -/
def tcpEntry : ProtocolConfig := { type := "tcp", port := 9000 }

/-- A second TLS listener, with the same certificate. -/
def rpcsEntry : ProtocolConfig :=
  { type := "rpc", port := 8444, ssl := { enabled := true, certFile := "a.pem", keyFile := "a.key" } }

/-- A TLS listener in front of others, the last of which has the same certificate, gets it: seen on
the second client. -/
theorem tls_per_listener_iff_same_files :
    let cfg : ServerConfig := { protocolList := [httpsEntry, tcpEntry, rpcsEntry] }
    ∃ s', Server.init {} cfg none {} (fun _ => {}) = .ok s' ∧
      ∃ L, lastListener cfg.protocolList = some L ∧ Matches httpsEntry L true ∧
        let r := Trace.run (Reactor.step fun _ => Os.idle) s'.reactor
          [.accept 6 "192.0.2.2" false {}]
        TlsAsConfigured httpsEntry true r (r.accept (fun _ => Os.idle) 7 "192.0.2.1" true {}) := by
  intro cfg
  obtain ⟨s', hs'⟩ : ∃ s', Server.init {} cfg none {} (fun _ => {}) = .ok s' := ⟨_, rfl⟩
  obtain ⟨L, hL, hiff⟩ := tls_per_listener_iff hs' (List.mem_cons_self (l := [tcpEntry, rpcsEntry]))
    (by decide) (fun _ => Os.idle) [.accept 6 "192.0.2.2" false {}] 7 "192.0.2.1" true {}
  have hlast : lastListener cfg.protocolList = some rpcsEntry := by decide
  have hmatches : Matches httpsEntry L true := by
    rw [show L = rpcsEntry from Option.some_inj.mp (hL.symm.trans hlast)]
    exact ⟨rfl, rfl, rfl⟩
  exact ⟨s', hs', L, hL, hmatches, hiff.mpr hmatches⟩

/-- A TLS listener followed by one without TLS serves its clients in plaintext. -/
theorem tls_per_listener_fails_before_plaintext :
    ∃ s', Server.init {} { protocolList := [httpsEntry, tcpEntry] } none {} (fun _ => {}) = .ok s' ∧
      ¬ TlsAsConfigured httpsEntry true s'.reactor
        (s'.reactor.accept (fun _ => Os.idle) 7 "192.0.2.1" true {}) := by
  refine ⟨_, rfl, ?_⟩
  rw [Reactor.accept_tls_iff (L := tcpEntry) rfl]
  unfold Matches
  decide

end NetworkLib
