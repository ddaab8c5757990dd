import Mathlib.Data.Finmap
import NetworkLib.Core.ClientCallback
import NetworkLib.Security.DdosProtection
import NetworkLib.Security.TlsContext

/-! # The reactor

`Reactor` accepts connections, keeps them in `connections_` by descriptor, and counts them in the
`active_connections` gauge. The model keeps every connection ever made, in order, so that
`connections_` maps a descriptor to the number of the connection stored for it. -/

namespace NetworkLib

/-- A connection the reactor has made. -/
structure Accepted where
  conn : Connection Unit
  ip : String
  /-- The context its `SSL` object was made from, if it has one. -/
  ssl : Option SslCtx := none

/-- `Reactor`, with the connections it has made. -/
structure Reactor where
  ddosProtection : DdosProtection := {}
  tlsContext : Option TlsContext := none
  /-- The ports registered, in order. -/
  ports : List ℕ := []
  accepted : List Accepted := []
  /-- `connections_`. -/
  connections : Finmap fun _ : ℤ => ℕ := ∅
  /-- The last value stored in the gauge. -/
  gauge : Option ℤ := none

namespace Reactor

/-- `connections_.size()`. -/
def size (r : Reactor) : ℕ := r.connections.keys.card

/-- `SetDdosConfig`. -/
def setDdosConfig (r : Reactor) (config : DdosConfig) : Reactor :=
  { r with ddosProtection := { config } }

/-- `EventLoop::AddFd` of a new connection; `epoll_ctl` refuses a closed descriptor. -/
def addFd (c : Connection Unit) : Connection Unit :=
  if 0 ≤ c.fd then { c with interest := some {} } else c

/-- The connection made for a client: marked connected and, when there is an `SSL` object, in the
middle of its handshake or past it. No callback is installed yet. -/
def newConnection (os : Os) (fd : ℕ) (ssl : Option SslCtx) (io : Io) : Connection Unit :=
  let conn := ({ app := (), fd } : Connection Unit).setConnected
  if ssl.isSome then conn.setSsl os {} io else conn

/-- The `SSL` object the accept callback asks `tls_context_` for. -/
def createSsl (r : Reactor) (sslNew : Bool) : Option SslCtx :=
  match r.tlsContext with
  | none => none
  | some t => t.createSsl sslNew

/-- The descriptor belongs to an open connection. -/
def InUse (r : Reactor) (fd : ℕ) : Prop := ∃ a ∈ r.accepted, a.conn.fd = fd

instance (r : Reactor) (fd : ℕ) : Decidable (r.InUse fd) :=
  inferInstanceAs (Decidable (∃ a ∈ r.accepted, a.conn.fd = fd))

variable (os : ℕ → Os)

/-- The accept callback, past `accept4` and the check of the address. -/
def accept (r : Reactor) (fd : ℕ) (ip : String) (sslNew : Bool) (io : Io) : Reactor :=
  let ssl := r.createSsl sslNew
  let id := r.accepted.length
  let conn := newConnection (os id) fd ssl io
  let connections := r.connections.insert (fd : ℤ) id
  { r with
    accepted := r.accepted ++ [{ conn := addFd conn, ip, ssl }]
    connections
    gauge := some connections.keys.card }

/-- The accept callback on a new client. -/
def onAccept (r : Reactor) (fd : ℕ) (ip : String) (sslNew : Bool) (io : Io) : Reactor :=
  match r.ddosProtection.allowConnection ip with
  | (ddosProtection, false) => { r with ddosProtection }
  | (ddosProtection, true) => { r with ddosProtection }.accept os fd ip sslNew io

/-- The disconnect callback, on the connection as `HandleClose` has left it. -/
def onDisconnect (r : Reactor) (c : Connection Unit) : Reactor :=
  { r with
    gauge := some (r.size - 1)
    connections := r.connections.erase c.fd }

/-- Store what an operation has made of connection `id`, and call the disconnect callback if the
operation did. -/
def update (r : Reactor) (id : ℕ) (a : Accepted) (c : Connection Unit) : Reactor :=
  let r' := { r with accepted := r.accepted.set id { a with conn := c } }
  if .disconnectCallback ∈ c.log.drop a.conn.log.length then r'.onDisconnect c else r'

/-- What happens to the reactor. -/
inductive Event where
  /-- A client on a descriptor, with its address; whether `SSL_new` makes an object; and what the
  handshake brings. -/
  | accept (fd : ℕ) (ip : String) (sslNew : Bool) (io : Io)
  /-- The callback of connection `id`, with what its protocol handler does. -/
  | client (id : ℕ) (onMessage : OnMessage Unit) (e : ClientEvent)
  /-- Application code calls on connection `id` in the loop's thread. -/
  | call (id : ℕ) (x : ConnCall)

/-- One event. The operating system does not hand out a descriptor in use, and events come for
registered descriptors only. -/
def step (r : Reactor) : Event → Reactor
  -- the kernel does not hand out a descriptor that is open
  | .accept fd ip sslNew io => if r.InUse fd then r else r.onAccept os fd ip sslNew io
  | .client id onMessage e =>
      match r.accepted[id]? with
      | none => r
      | some a =>
          -- only a registered descriptor has events
          if a.conn.interest.isSome then
            r.update id a (a.conn.clientCallback (os id) Connection.serverCallbacks onMessage e)
          else r
  | .call id x =>
      match r.accepted[id]? with
      | none => r
      | some a => r.update id a (a.conn.call (os id) Connection.serverCallbacks x)

end Reactor

end NetworkLib
