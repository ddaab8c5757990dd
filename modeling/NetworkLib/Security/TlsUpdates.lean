import NetworkLib.Security.TlsContext
import NetworkLib.Theory.Trace

/-! # Updates of a TLS context

Calls of `Init`, `ReloadCertificates` and `CreateSsl` on one `TlsContext` in server mode, with any
outcomes of the OpenSSL calls they make. A `SSL_CTX` is told from others by the call that has made
it, so that a context that has been replaced is not taken for the one before it even if it was
loaded from the same files.

`ReloadCertificates` builds a context of its own and puts it in place when nothing has failed;
`Init` frees the context in use before it has another, and loads the new one where it is in use. So
an update is **all or nothing** exactly if no `Init` fails over a context (`allOrNothing_iff`). -/

namespace NetworkLib.TlsContext

/-- A call in server mode, with the outcomes of the OpenSSL calls it may make. -/
inductive Call where
  | init (ssl : OpenSsl) (certPath keyPath : String)
  | reloadCertificates (ssl : OpenSsl) (certPath keyPath : String)
  | createSsl (sslNew : Bool)
  deriving DecidableEq, Repr

/-- What a call returns: the result of an update, or the context of the `SSL` object made, with the
number of the call that has made the context. -/
inductive Reply where
  | updated (error : Option ResultError)
  | ssl (ctx : Option (ℕ × SslCtx))
  deriving DecidableEq, Repr

/-- A `TlsContext` and the calls it has served. -/
structure Session where
  context : TlsContext := {}
  /-- How many calls it has served. -/
  calls : ℕ := 0
  /-- The number of the call that has made the context in use. -/
  madeBy : ℕ := 0
  /-- The updates that have returned success: the number of each, its certificate and its key. -/
  updates : List (ℕ × String × String) := []

namespace Session

/-- The context that `CreateSsl` uses. -/
def current (s : Session) : Option (ℕ × SslCtx) := s.context.ctx.map fun ctx => (s.madeBy, ctx)

/-- The session after an update that has returned `error`, with the context it has left and the
number of the call that has made that. -/
def updated (s : Session) (context : TlsContext) (madeBy : ℕ) (error : Option ResultError)
    (certPath keyPath : String) : Session where
  context := context
  calls := s.calls + 1
  madeBy := madeBy
  updates := if error = none then s.updates ++ [(s.calls, certPath, keyPath)] else s.updates

/-- A call is served. `Init` makes a context of its own in any case, `ReloadCertificates` puts one
in place if it succeeds. -/
def serve (s : Session) : Call → Session × Reply
  | .init ssl certPath keyPath =>
      let result := TlsContext.init ssl .kServer certPath keyPath
      (s.updated result.1 s.calls result.2 certPath keyPath, .updated result.2)
  | .reloadCertificates ssl certPath keyPath =>
      let result := TlsContext.reloadCertificates ssl s.context certPath keyPath
      (s.updated result.1 (if result.2 = none then s.calls else s.madeBy) result.2 certPath keyPath,
        .updated result.2)
  | .createSsl sslNew =>
      ({ s with calls := s.calls + 1 },
        .ssl ((TlsContext.createSsl s.context sslNew).map fun ctx => (s.madeBy, ctx)))

/-- The session after a call. -/
def step (s : Session) (call : Call) : Session := (s.serve call).1

/-- **An update that fails leaves the context in use as it was.** -/
def FailsWhole (s : Session) (call : Call) : Prop :=
  ∀ error, (s.serve call).2 = .updated (some error) → (s.step call).current = s.current

/-- **An `SSL` object that is handed out has a context into which one successful update has loaded a
certificate and the key that matches it.** -/
def HandsOutMatched (s : Session) (call : Call) : Prop :=
  ∀ n ctx, (s.serve call).2 = .ssl (some (n, ctx)) →
    ∃ certPath keyPath, (n, certPath, keyPath) ∈ s.updates ∧
      ctx.certificate = some certPath ∧ ctx.privateKey = some keyPath

/-- The checks of `Init` in server mode: the context is made, both paths are given, both files can
be loaded, and the key matches. -/
def Passes (ssl : OpenSsl) (certPath keyPath : String) : Prop :=
  ssl.newCtx ∧ ¬ certPath.isEmpty ∧ ¬ keyPath.isEmpty ∧
    ssl.useCertificate ∧ ssl.usePrivateKey ∧ ssl.checkPrivateKey

/-- The call is no `Init` that fails over a context or with one: it passes all its checks, or it
fails to make a context while there is none. -/
def Harmless (s : Session) : Call → Prop
  | .init ssl certPath keyPath =>
      Passes ssl certPath keyPath ∨ ¬ ssl.newCtx ∧ s.context.ctx = none
  | _ => True

/-! ## One call -/

variable {s : Session} {call : Call}

/-- What holds while every failed update has left the context as it was. -/
structure Valid (s : Session) : Prop where
  madeBy_lt : s.context.ctx.isSome → s.madeBy < s.calls
  matched : ∀ ctx ∈ s.context.ctx, ∃ certPath keyPath, (s.madeBy, certPath, keyPath) ∈ s.updates ∧
    ctx = { method := .kServer, certificate := some certPath, privateKey := some keyPath }

/-- A context without files is valid. -/
theorem valid_init : Valid {} where
  madeBy_lt := fun h => by cases h
  matched := fun ctx h => by cases h

end Session

/-- A context is loaded exactly if OpenSSL takes the certificate and the key, and they match. -/
theorem load_eq_none_iff (ssl : OpenSsl) (certPath keyPath noCertificate noKey mismatch : String)
    (ctx : SslCtx) :
    (load ssl certPath keyPath noCertificate noKey mismatch ctx).2 = none ↔
      ssl.useCertificate ∧ ssl.usePrivateKey ∧ ssl.checkPrivateKey := by
  rw [load]
  by_cases hc : ssl.useCertificate = true
  · by_cases hk : ssl.usePrivateKey = true
    · by_cases hm : ssl.checkPrivateKey = true
      · simp [hc, hk, hm]
      · simp [hc, hk, hm]
    · simp [hc, hk]
  · simp [hc]

/-- What `Init` leaves where it cannot make a context. -/
theorem init_of_not_newCtx {ssl : OpenSsl} (h : ¬ ssl.newCtx) (certPath keyPath : String) :
    init ssl .kServer certPath keyPath =
      ({ ctx := none, mode := .kServer }, some ⟨Errors.kInternal, "Failed to create SSL_CTX"⟩) := by
  rw [init, if_pos (by simpa using h)]

/-- What `Init` leaves otherwise: a context, and success exactly if it passes its checks. -/
theorem init_of_newCtx {ssl : OpenSsl} (h : ssl.newCtx) (certPath keyPath : String) :
    (init ssl .kServer certPath keyPath).1.ctx.isSome ∧
      ((init ssl .kServer certPath keyPath).2 = none ↔ Session.Passes ssl certPath keyPath) := by
  rw [init, if_neg (by simpa using h), Session.Passes]
  by_cases hempty : (certPath.isEmpty || keyPath.isEmpty) = true
  · rw [if_pos hempty]
    refine ⟨rfl, iff_of_false (fun hnone => by cases hnone) ?_⟩
    rintro ⟨-, hcert, hkey, -⟩
    rcases (Bool.or_eq_true _ _).mp hempty with hempty | hempty
    · exact hcert hempty
    · exact hkey hempty
  · have hgiven : ¬ certPath.isEmpty ∧ ¬ keyPath.isEmpty := by
      rw [Bool.or_eq_true, not_or] at hempty
      exact hempty
    rw [if_neg hempty]
    refine ⟨rfl, ?_⟩
    rw [load_eq_none_iff]
    constructor
    · intro hloaded
      exact ⟨h, hgiven.1, hgiven.2, hloaded⟩
    · rintro ⟨-, -, -, hloaded⟩
      exact hloaded

namespace Session

/-- The context in use after an `Init` is its own. -/
theorem current_init (s : Session) (ssl : OpenSsl) (certPath keyPath : String) :
    (s.step (.init ssl certPath keyPath)).current
      = (TlsContext.init ssl .kServer certPath keyPath).1.ctx.map fun ctx => (s.calls, ctx) := rfl

/-- **An `Init` is all or nothing exactly if it passes its checks, or fails to make a context while
there is none.** -/
theorem failsWhole_init_iff (hs : Valid s) (ssl : OpenSsl) (certPath keyPath : String) :
    s.FailsWhole (.init ssl certPath keyPath) ↔ s.Harmless (.init ssl certPath keyPath) := by
  have hreply : (s.serve (.init ssl certPath keyPath)).2
      = .updated (TlsContext.init ssl .kServer certPath keyPath).2 := rfl
  rw [FailsWhole, Harmless, current_init, current, hreply]
  by_cases hnew : ssl.newCtx
  · obtain ⟨hsome, hnone⟩ := init_of_newCtx hnew certPath keyPath
    obtain ⟨ctx, hctx⟩ := Option.isSome_iff_exists.mp hsome
    rw [or_iff_left (fun hfail => hfail.1 hnew), ← hnone, hctx]
    cases herror : (TlsContext.init ssl .kServer certPath keyPath).2 with
    | none => exact iff_of_true (fun error h => by cases h) rfl
    | some error =>
        refine iff_of_false ?_ (fun h => by cases h)
        intro hwhole
        have hsame := hwhole error rfl
        -- the context is new, the one before it was not
        rw [Option.map_some] at hsame
        obtain ⟨old, hold, hpair⟩ := Option.map_eq_some_iff.mp hsame.symm
        have hlt := hs.madeBy_lt (by rw [hold]; rfl)
        rw [Prod.mk.injEq] at hpair
        omega
  · have hfail : ¬ Passes ssl certPath keyPath := fun hpass => hnew hpass.1
    rw [init_of_not_newCtx hnew, or_iff_right hfail, and_iff_right hnew]
    constructor
    · intro hwhole
      have hsame := hwhole _ rfl
      rw [Option.map_none] at hsame
      exact Option.map_eq_none_iff.mp hsame.symm
    · intro hnone error _
      rw [hnone]
      rfl

/-- A reload that fails leaves everything as it was, one that succeeds puts its certificate and its
key in place. -/
theorem step_reload (s : Session) (ssl : OpenSsl) (certPath keyPath : String) :
    (∃ error, (s.serve (.reloadCertificates ssl certPath keyPath)).2 = .updated (some error) ∧
      s.step (.reloadCertificates ssl certPath keyPath) = { s with calls := s.calls + 1 }) ∨
    ∃ mode, (s.serve (.reloadCertificates ssl certPath keyPath)).2 = .updated none ∧
      s.step (.reloadCertificates ssl certPath keyPath) =
        { context := ⟨some ⟨.kServer, some certPath, some keyPath⟩, mode⟩
          calls := s.calls + 1
          madeBy := s.calls
          updates := s.updates ++ [(s.calls, certPath, keyPath)] } := by
  have hspec := reloadCertificates_spec ssl s.context certPath keyPath
  cases hreload : TlsContext.reloadCertificates ssl s.context certPath keyPath with
  | mk context result =>
      rw [hreload] at hspec
      have hserve : s.serve (.reloadCertificates ssl certPath keyPath)
          = (s.updated context (if result = none then s.calls else s.madeBy) result certPath keyPath,
            .updated result) := by
        rw [serve, hreload]
      rw [step, hserve]
      cases result with
      | some error =>
          refine .inl ⟨error, rfl, ?_⟩
          rw [if_neg (by simp), updated, if_neg (by simp), hspec]
      | none =>
          refine .inr ⟨context.mode, rfl, ?_⟩
          rw [if_pos rfl, updated, if_pos rfl, ← hspec]

/-- `CreateSsl` hands out what is in use, which is valid. -/
theorem handsOutMatched (hs : Valid s) (call : Call) : s.HandsOutMatched call := by
  cases call with
  | init ssl certPath keyPath =>
      -- only `CreateSsl` hands a context out
      intro n ctx h
      cases h
  | reloadCertificates ssl certPath keyPath =>
      intro n ctx h
      cases h
  | createSsl sslNew =>
      intro n ctx h
      have hmap : (TlsContext.createSsl s.context sslNew).map (fun ctx => (s.madeBy, ctx))
          = some (n, ctx) := by
        injection h
      obtain ⟨ctx', hctx', hpair⟩ := Option.map_eq_some_iff.mp hmap
      rw [Prod.mk.injEq] at hpair
      obtain ⟨rfl, rfl⟩ := hpair
      have huse : s.context.ctx = some ctx' := by
        rw [TlsContext.createSsl] at hctx'
        split at hctx'
        · cases hctx'
        · next ctx hctx =>
            split at hctx'
            · cases hctx'
              exact hctx
            · cases hctx'
      obtain ⟨certPath, keyPath, hupdate, hmatched⟩ := hs.matched ctx' huse
      exact ⟨certPath, keyPath, hupdate, by rw [hmatched], by rw [hmatched]⟩

/-- A call is all or nothing exactly if it is harmless. -/
theorem failsWhole_iff (hs : Valid s) (call : Call) : s.FailsWhole call ↔ s.Harmless call := by
  cases call with
  | init ssl certPath keyPath => exact failsWhole_init_iff hs ssl certPath keyPath
  | reloadCertificates ssl certPath keyPath =>
      refine iff_of_true ?_ trivial
      intro error herror
      rcases step_reload s ssl certPath keyPath with ⟨-, -, hkept⟩ | ⟨mode, hreply, -⟩
      · rw [hkept]
        rfl
      · rw [hreply] at herror
        cases herror
  | createSsl sslNew =>
      refine iff_of_true ?_ trivial
      intro error herror
      cases herror

/-- A harmless call leaves a valid session. -/
theorem valid_step (hs : Valid s) (h : s.Harmless call) : Valid (s.step call) := by
  cases call with
  | init ssl certPath keyPath =>
      -- `Init` passes every step, or fails at the first one
      rcases h with hpass | ⟨hnew, hnone⟩
      · have hresult : (TlsContext.init ssl .kServer certPath keyPath).2 = none :=
          (init_of_newCtx hpass.1 certPath keyPath).2.mpr hpass
        have hctx := init_server (Prod.ext rfl hresult)
        have hstep : s.step (.init ssl certPath keyPath) =
            { context := (TlsContext.init ssl .kServer certPath keyPath).1
              calls := s.calls + 1
              madeBy := s.calls
              updates := s.updates ++ [(s.calls, certPath, keyPath)] } := by
          rw [step, serve, updated, if_pos hresult]
        rw [hstep]
        refine ⟨fun _ => Nat.lt_succ_self _, ?_⟩
        intro ctx hmem
        rw [hctx, Option.mem_some_iff] at hmem
        exact ⟨certPath, keyPath, List.mem_append_right _ List.mem_cons_self, hmem.symm⟩
      · have hnothing : (s.step (.init ssl certPath keyPath)).context.ctx = none := by
          rw [step, serve, updated, init_of_not_newCtx hnew]
        refine ⟨?_, ?_⟩
        · intro hsome
          rw [hnothing] at hsome
          cases hsome
        · intro ctx hmem
          rw [hnothing] at hmem
          cases hmem
  | reloadCertificates ssl certPath keyPath =>
      -- the context in use is kept, or a complete one is put in its place
      rcases step_reload s ssl certPath keyPath with ⟨-, -, hkept⟩ | ⟨mode, -, hput⟩
      · rw [hkept]
        exact ⟨fun hsome => (hs.madeBy_lt hsome).trans (Nat.lt_succ_self _), hs.matched⟩
      · rw [hput]
        refine ⟨fun _ => Nat.lt_succ_self _, ?_⟩
        intro ctx hmem
        rw [Option.mem_some_iff] at hmem
        exact ⟨certPath, keyPath, List.mem_append_right _ List.mem_cons_self, hmem.symm⟩
  | createSsl sslNew =>
      exact ⟨fun hsome => (hs.madeBy_lt hsome).trans (Nat.lt_succ_self _), hs.matched⟩

/-! ## Runs -/

/-- **Updates are all or nothing, and only matched certificates and keys are handed out, exactly if
every `Init` is harmless.** -/
theorem allOrNothing_iff (calls : List Call) :
    Trace.Always step (fun s call => s.FailsWhole call ∧ s.HandsOutMatched call) {} calls ↔
      Trace.Always step Harmless {} calls := by
  apply Trace.always_congr (I := Valid)
  · intro s call hs
    rw [and_iff_left (handsOutMatched hs call)]
    exact failsWhole_iff hs call
  · intro s call hs h
    exact valid_step hs ((failsWhole_iff hs call).mp h.1)
  · exact valid_init

/-- A second `Init` cannot load its certificate: the context that was good is gone, and `CreateSsl`
hands out an object without certificate and key. -/
theorem failed_init_hands_out_nothing_loaded :
    ¬ Trace.Always step (fun s call => s.FailsWhole call ∧ s.HandsOutMatched call) {}
        [.init {} "server.crt" "server.key",
          .init { useCertificate := false } "new.crt" "new.key", .createSsl true] ∧
      ((Trace.run step {} [.init {} "server.crt" "server.key",
        .init { useCertificate := false } "new.crt" "new.key"]).serve (.createSsl true)).2
      = .ssl (some (1, { method := .kServer })) := by
  refine ⟨?_, by decide⟩
  rintro ⟨-, ⟨hwhole, -⟩, -⟩
  have hkept := hwhole ⟨Errors.kConfigError, "Failed to load certificate file"⟩ (by decide)
  exact absurd hkept (by decide)

end Session

end NetworkLib.TlsContext
