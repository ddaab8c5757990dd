import Mathlib.Data.List.Basic

/-! # TLS contexts

`TlsContext` owns an `SSL_CTX`. The outcome of every OpenSSL call comes from outside (`OpenSsl`). -/

namespace NetworkLib

/-- The error of a `Result<void>`. -/
structure ResultError where
  code : ℕ
  message : String
  deriving DecidableEq, Repr

namespace Errors

def kNotFound : ℕ := 4
def kInternal : ℕ := 100
def kConnectionFailed : ℕ := 200
def kConfigError : ℕ := 400

end Errors

/-- `SslMode`. -/
inductive SslMode where
  | kServer
  | kClient
  deriving DecidableEq, Repr

/-- An `SSL_CTX`: its method, and the certificate and the private key loaded into it. -/
structure SslCtx where
  method : SslMode
  certificate : Option String := none
  privateKey : Option String := none
  deriving DecidableEq, Repr

/-- The outcomes of the OpenSSL calls one operation may make. -/
structure OpenSsl where
  /-- `SSL_CTX_new` returns a context. -/
  newCtx : Bool := true
  /-- `SSL_CTX_use_certificate_chain_file` succeeds. -/
  useCertificate : Bool := true
  /-- `SSL_CTX_use_PrivateKey_file` succeeds. -/
  usePrivateKey : Bool := true
  /-- `SSL_CTX_check_private_key` succeeds. -/
  checkPrivateKey : Bool := true
  deriving DecidableEq, Repr

/-- A `TlsContext`. -/
structure TlsContext where
  ctx : Option SslCtx := none
  mode : SslMode := .kServer
  deriving DecidableEq, Repr

namespace TlsContext

/-- Load a certificate and its key into a context, with the messages of the two failures and of the
mismatch. -/
def load (ssl : OpenSsl) (certPath keyPath noCertificate noKey mismatch : String) (ctx : SslCtx) :
    SslCtx × Option ResultError :=
  if !ssl.useCertificate then (ctx, some ⟨Errors.kConfigError, noCertificate⟩)
  else if !ssl.usePrivateKey then
    ({ ctx with certificate := some certPath }, some ⟨Errors.kConfigError, noKey⟩)
  else
    ({ ctx with certificate := some certPath, privateKey := some keyPath },
      if !ssl.checkPrivateKey then some ⟨Errors.kConfigError, mismatch⟩ else none)

/-- `Init`: the context afterwards, also of a failure, and the error if it failed. -/
def init (ssl : OpenSsl) (mode : SslMode) (certPath keyPath : String) :
    TlsContext × Option ResultError :=
  if !ssl.newCtx then
    ({ ctx := none, mode }, some ⟨Errors.kInternal, "Failed to create SSL_CTX"⟩)
  else
    match mode with
    | .kServer =>
        if certPath.isEmpty || keyPath.isEmpty then
          ({ ctx := some { method := mode }, mode },
            some ⟨Errors.kConfigError, "Server mode requires certificate and key files"⟩)
        else
          let (ctx, error) := load ssl certPath keyPath "Failed to load certificate file"
            "Failed to load private key file" "Private key does not match certificate"
            { method := mode }
          ({ ctx := some ctx, mode }, error)
    | .kClient =>
        if !certPath.isEmpty && !keyPath.isEmpty then
          let (ctx, error) := load ssl certPath keyPath "Failed to load client certificate file"
            "Failed to load client private key file"
            "Client private key does not match certificate" { method := mode }
          ({ ctx := some ctx, mode }, error)
        else ({ ctx := some { method := mode }, mode }, none)

/-- `CreateSsl`: the context of the `SSL` object made, given whether `SSL_new` makes one. -/
def createSsl (t : TlsContext) (sslNew : Bool) : Option SslCtx :=
  match t.ctx with
  | none => none
  | some ctx => if sslNew then some ctx else none

/-- `ReloadCertificates`: the new certificate is loaded into a context of its own, which takes the
place of the old one if nothing fails. -/
def reloadCertificates (ssl : OpenSsl) (t : TlsContext) (certPath keyPath : String) :
    TlsContext × Option ResultError :=
  if t.mode ≠ .kServer then
    (t, some ⟨Errors.kConfigError, "Certificate reload is only supported in server mode"⟩)
  else if !ssl.newCtx then (t, some ⟨Errors.kInternal, "Failed to create temp SSL_CTX"⟩)
  else
    match load ssl certPath keyPath "Failed to load new certificate"
        "Failed to load new private key" "New private key mismatch" { method := .kServer } with
    | (_, some e) => (t, some e)
    | (ctx, none) => ({ t with ctx := some ctx }, none)

/-- A context that is loaded has the files it was loaded with. -/
theorem load_eq {ssl : OpenSsl} {certPath keyPath noCertificate noKey mismatch : String}
    {ctx ctx' : SslCtx}
    (h : load ssl certPath keyPath noCertificate noKey mismatch ctx = (ctx', none)) :
    ctx' = { ctx with certificate := certPath, privateKey := keyPath } := by
  unfold load at h
  by_cases hc : ssl.useCertificate = true
  · by_cases hk : ssl.usePrivateKey = true
    · simp only [hc, hk, Bool.not_true, Bool.false_eq_true, if_false, Prod.mk.injEq] at h
      exact h.1.symm
    · simp [hc, hk] at h
  · simp [hc] at h

/-- **A server context that was initialised holds the certificate and the key it was given.** -/
theorem init_server {ssl : OpenSsl} {certPath keyPath : String} {t : TlsContext}
    (h : init ssl .kServer certPath keyPath = (t, none)) :
    t.ctx = some { method := .kServer, certificate := certPath, privateKey := keyPath } := by
  unfold init at h
  by_cases hnew : ssl.newCtx = true
  · simp only [hnew, Bool.not_true, Bool.false_eq_true, if_false] at h
    by_cases hempty : (certPath.isEmpty || keyPath.isEmpty) = true
    · rw [if_pos hempty] at h
      simp at h
    · rw [if_neg hempty, Prod.mk.injEq] at h
      rw [← h.1]
      exact congrArg some (load_eq (Prod.ext rfl h.2))
  · simp [hnew] at h

/-- **A reload that fails leaves the context as it was**; one that succeeds serves the new
certificate and key. -/
theorem reloadCertificates_spec (ssl : OpenSsl) (t : TlsContext) (certPath keyPath : String) :
    match reloadCertificates ssl t certPath keyPath with
    | (t', some _) => t' = t
    | (t', none) =>
        t'.ctx = some { method := .kServer, certificate := certPath, privateKey := keyPath } := by
  unfold reloadCertificates
  split
  · next h =>
      split at h
      · cases h
        rfl
      · split at h
        · cases h
          rfl
        · split at h
          · cases h
            rfl
          · cases h
  · next h =>
      split at h
      · cases h
      · split at h
        · cases h
        · split at h
          · cases h
          · next hload =>
              cases h
              exact congrArg some (load_eq hload)

end TlsContext

end NetworkLib
