import NetworkLib.Protocols.Handler
import NetworkLib.Theory.Search
import NetworkLib.Theory.Trace

/-! # The scenario engine of the super client

`ScenarioEngine::Execute` goes through the steps of a scenario in proto mode, while the thread of
the event loop calls the message handler for every envelope that comes in. The handler puts the
payload into `received_data` and sets `message_received`; an `expect` waits for the flag, compares
and resets it. Both hold the mutex, so that what they do under it is one step here; time passes
between the steps, and the server answers every envelope with the same one. -/

namespace NetworkLib.ScenarioEngine

/-! ## Scenarios -/

/-- The `action` of a step. -/
inductive Action where
  | connect
  | send
  | expect
  | disconnect
  | loop
  /-- Any other text, which `Execute` passes over. -/
  | other
  deriving DecidableEq, Repr

/-- `Step`. -/
structure Step where
  action : Action
  data : Bytes := []
  count : ℤ := 0
  subSteps : List Step := []

/-- A turn of the script thread. -/
inductive Command where
  | connect
  | send (data : Bytes)
  | expect (data : Bytes)
  | disconnect
  deriving DecidableEq

/-- What a step does inside a loop: only sending and expecting are known there. -/
def Step.subCommand (sub : Step) : Option Command :=
  match sub.action with
  | .send => some (.send sub.data)
  | .expect => some (.expect sub.data)
  | _ => none

/-- What a step does, a loop turn by turn. -/
def Step.commands (step : Step) : List Command :=
  match step.action with
  | .connect => [.connect]
  | .send => [.send step.data]
  | .expect => [.expect step.data]
  | .disconnect => [.disconnect]
  | .loop => (List.replicate step.count.toNat (step.subSteps.filterMap Step.subCommand)).flatten
  | .other => []

/-- What `execute_steps` does, one after another. -/
def commands (steps : List Step) : List Command := steps.flatMap Step.commands

/-! ## The two threads -/

/-- What the handler leaves for the script thread: `received_data` and `message_received`. -/
structure Slot where
  receivedData : Bytes := []
  messageReceived : Bool := false
  deriving DecidableEq

/-- The message handler. The data of an envelope without a payload are those of the one before. -/
def onMessage : MessageHandler Slot := fun slot env =>
  ({ receivedData := if env.payload.isSome then env.getPayload.data else slot.receivedData
     messageReceived := true }, none)

/-- The envelope that a `send` sends. -/
def envelope (data : Bytes) : StreamEnvelope :=
  (({} : StreamEnvelope).mutableHeader fun header =>
    { header with messageType := bytesOf "test_msg" }).setData data

/-- A reply on its way, with the time at which its envelope was sent. -/
structure Reply where
  envelope : StreamEnvelope
  sentAt : ℕ
  deriving DecidableEq

/-- What `Execute` has found when it returns. -/
inductive Report where
  | passed
  /-- `Failed to connect`. -/
  | notConnected
  /-- `Timeout waiting for data`. -/
  | timeout
  /-- `Mismatch!`. -/
  | mismatch
  deriving DecidableEq, Repr

/-- What `Execute` returns. -/
def Report.result : Report → Bool
  | .passed => true
  | _ => false

/-- How long an `expect` waits, in nanoseconds. -/
def waitTime : ℕ := 5 * 10 ^ 9

/-- The two threads and the replies between them. -/
structure State where
  todo : List Command
  /-- The end of the wait that the script thread is in. -/
  deadline : Option ℕ := none
  connected : Bool := false
  now : ℕ := 0
  onTheWay : List Reply := []
  slot : Slot := {}
  report : Option Report := none
  deriving DecidableEq

/-- The beginning of `Execute`. -/
def start (steps : List Step) : State := { todo := commands steps }

namespace State

/-- `Client::Send`, of which the result is not looked at. -/
def send (s : State) (data : Bytes) : State :=
  if s.connected then { s with onTheWay := s.onTheWay ++ [⟨envelope data, s.now⟩] } else s

/-- An `expect`, from when it has the mutex until it gives it back. It tests the flag in front of
the wait, and whenever it wakes up, at the deadline too. -/
def expect (s : State) (data : Bytes) (rest : List Command) : State :=
  if s.slot.messageReceived then
    if search data s.slot.receivedData = none then { s with report := some .mismatch }
    else
      { s with todo := rest, deadline := none, slot := { s.slot with messageReceived := false } }
  else
    match s.deadline with
    | none => { s with deadline := some (s.now + waitTime) }
    | some deadline => if deadline ≤ s.now then { s with report := some .timeout } else s

/-- A turn of the script thread; `connects` says what `Connect` returns if it is called. -/
def script (s : State) (connects : Bool) : State :=
  match s.todo with
  | [] => { s with report := some .passed }
  | .connect :: rest =>
      if connects then { s with connected := true, todo := rest }
      else { s with report := some .notConnected }
  | .send data :: rest => { s.send data with todo := rest }
  | .expect data :: rest => s.expect data rest
  -- the loop is stopped, and what has not come in is lost
  | .disconnect :: rest => { s with connected := false, onTheWay := [], todo := rest }

/-- The loop thread calls the handler for the next reply. -/
def callback (s : State) : State :=
  match s.onTheWay with
  | [] => s
  | reply :: rest => { s with onTheWay := rest, slot := (onMessage s.slot reply.envelope).1 }

end State

/-- What happens next. -/
inductive Event where
  | script (connects : Bool)
  | callback
  | elapse (duration : ℕ)
  deriving DecidableEq

/-- A step of either thread, or of the clock. -/
def step (s : State) : Event → State
  | .script connects => if s.report.isSome then s else s.script connects
  | .callback => if s.report.isSome then s else s.callback
  | .elapse duration => { s with now := s.now + duration }

/-- Every reply is handed over in less than the time that an `expect` waits. -/
def InTime (s : State) : Event → Prop
  | .elapse duration => ∀ reply ∈ s.onTheWay, s.now + duration < reply.sentAt + waitTime
  | _ => True

instance (s : State) : (e : Event) → Decidable (InTime s e)
  | .elapse duration =>
      inferInstanceAs (Decidable (∀ reply ∈ s.onTheWay, s.now + duration < reply.sentAt + waitTime))
  | .script _ => .isTrue trivial
  | .callback => .isTrue trivial

end NetworkLib.ScenarioEngine
