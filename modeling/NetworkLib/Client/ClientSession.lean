import NetworkLib.Protocols.Handler

/-! # Client protocol sessions

What `OnDataReceived` of a client protocol reads and changes beside the input buffer. -/

namespace NetworkLib

/-- The application state behind the message handler, the messages delivered to it so far, and the
exception it threw in the last call, if any. -/
structure ClientSession (σ : Type*) where
  app : σ
  delivered : List StreamEnvelope := []
  thrown : Option Thrown := none

/-- A message handler that never throws. -/
def MessageHandler.NoThrow {σ : Type*} (f : MessageHandler σ) : Prop := ∀ app msg, (f app msg).2 = none

/-- A message handler that does nothing. -/
def ignore : MessageHandler Unit := fun app _ => (app, none)

/-- A handler that ignores its messages does not throw. -/
theorem noThrow_ignore : MessageHandler.NoThrow ignore := fun _ _ => rfl

/-- `if (handler) handler(msg)`. -/
def ClientSession.deliver {σ : Type*} (s : ClientSession σ) (handler : Option (MessageHandler σ))
    (msg : StreamEnvelope) : ClientSession σ :=
  match handler with
  | none => s
  | some f =>
      let (app, thrown) := f s.app msg
      { app, delivered := s.delivered ++ [msg], thrown }

end NetworkLib
