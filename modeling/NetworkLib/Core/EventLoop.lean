import NetworkLib.Theory.Heap
import NetworkLib.Core.Connection

/-! # The event loop

`EventLoop` keeps a record for every registered descriptor in `handlers_`, and hands the poller a
raw pointer to it, which comes back with every event. A record lives as long as `handlers_` or the
`Run` that calls its callback holds it. The model numbers the registrations, so that a registration
can be told from a later one of the same descriptor. -/

namespace NetworkLib

/-- An `EventHandler`. -/
structure EventHandler where
  fd : ℤ
  events : Interest
  /-- Whether its callback can be called. -/
  callback : Bool
  /-- Which registration it was made for. -/
  registration : ℕ
  deriving DecidableEq

/-- `EventLoop`. -/
structure EventLoop where
  /-- The memory the handlers live in. -/
  heap : Heap EventHandler := Heap.empty
  /-- `handlers_`. -/
  handlers : ℤ → Option ℕ := fun _ => none
  /-- The handler whose callback `Run` is calling. -/
  held : Option ℕ := none
  /-- Registrations made so far. -/
  registrations : ℕ := 0
  /-- The callbacks called, with their flags. -/
  delivered : List (ℕ × ℕ) := []

/-- What a callback does to the event loop. -/
inductive LoopCall where
  /-- `AddFd`, with what `epoll_ctl` answers and the handle the allocator wants. -/
  | addFd (fd : ℤ) (events : Interest) (callback added : Bool) (wanted : ℕ)
  | modifyFd (fd : ℤ) (events : Interest)
  | removeFd (fd : ℤ)
  deriving DecidableEq

namespace EventLoop

/-- `handlers_` no longer holds a handler: it is freed unless `Run` holds it. -/
def release (s : EventLoop) (h : ℕ) : EventLoop :=
  if s.held = some h then s else { s with heap := s.heap.free h }

/-- `AddFd`. When `epoll_ctl` fails, the new handler is freed at once. -/
def addFd (s : EventLoop) (fd : ℤ) (events : Interest) (callback added : Bool) (wanted : ℕ) :
    EventLoop :=
  if added then
    let s' := { s with
      heap := s.heap.alloc wanted { fd, events, callback, registration := s.registrations }
      handlers := Function.update s.handlers fd (some (s.heap.place wanted))
      registrations := s.registrations + 1 }
    -- the map entry is overwritten, and the record it held is freed
    match s.handlers fd with
    | none => s'
    | some old => s'.release old
  else s

/-- `ModifyFd`. The record is changed even when `epoll_ctl` fails. -/
def modifyFd (s : EventLoop) (fd : ℤ) (events : Interest) : EventLoop :=
  match s.handlers fd with
  | none => s
  | some h => { s with heap := s.heap.modify h fun r => { r with events } }

/-- `RemoveFd`. -/
def removeFd (s : EventLoop) (fd : ℤ) : EventLoop :=
  match s.handlers fd with
  | none => s
  | some h => ({ s with handlers := Function.update s.handlers fd none } : EventLoop).release h

/-- A call on the event loop. -/
def call (s : EventLoop) : LoopCall → EventLoop
  | .addFd fd events callback added wanted => s.addFd fd events callback added wanted
  | .modifyFd fd events => s.modifyFd fd events
  | .removeFd fd => s.removeFd fd

/-- `Run` no longer holds a handler: it is freed unless `handlers_` holds it. -/
def letGo (s : EventLoop) (h : ℕ) : EventLoop :=
  match s.heap.cell h with
  | none => { s with held := none }
  | some r =>
      if s.handlers r.fd = some h then { s with held := none }
      else { s with held := none, heap := s.heap.free h }

/-- An event of a batch: the pointer and the flags that `Poll` returns, the record the pointer led
to at that time, and what the callback does if it is called. -/
structure Event where
  data : ℕ
  flags : ℕ
  polled : EventHandler
  script : List LoopCall

/-- What becomes of an event. -/
inductive Outcome where
  /-- `Run` reads a record that has been freed. -/
  | dangling
  | dropped
  /-- The callback of this registration is called. -/
  | delivered (registration : ℕ)
  deriving DecidableEq

/-- The handler `Run` finds for an event: the one of the descriptor that the record names. -/
def find (s : EventLoop) (ev : Event) : Option ℕ :=
  match s.heap.cell ev.data with
  | none => none
  | some raw => s.handlers raw.fd

/-- What becomes of an event in `Run`. -/
def outcome (s : EventLoop) (ev : Event) : Outcome :=
  -- the pointer of the event is followed before it is looked up
  if (s.heap.cell ev.data).isNone then .dangling
  else
    match s.find ev with
    | none => .dropped
    | some h =>
        match s.heap.cell h with
        | none => .dangling
        | some handler => if handler.callback then .delivered handler.registration else .dropped

/-- The flags `Run` passes on: `EPOLLIN`, `EPOLLOUT`, `EPOLLERR` and `EPOLLHUP`. -/
def passed (flags : ℕ) : ℕ := flags &&& (0x001 ||| 0x004 ||| 0x008 ||| 0x010)

/-- One turn of the loop of `Run` over a batch. -/
def step (s : EventLoop) (ev : Event) : EventLoop :=
  match s.find ev with
  | none => s
  | some h =>
      match s.heap.cell h with
      | none => s
      | some handler =>
          if handler.callback then
            (ev.script.foldl call
              -- the record is held while its callback runs, and let go behind it
              { s with
                held := some h
                delivered := s.delivered ++ [(handler.registration, passed ev.flags)] }).letGo h
          else s

/-- What the poller has ready: a descriptor, its flags, and what its callback does if called. -/
structure Ready where
  fd : ℤ
  flags : ℕ
  script : List LoopCall

/-- `Poll`: every ready descriptor that is registered brings the pointer it was registered with. -/
def poll (s : EventLoop) (ready : List Ready) : List Event :=
  ready.filterMap fun r =>
    (s.handlers r.fd).bind fun h =>
      (s.heap.cell h).map fun polled => { data := h, flags := r.flags, polled, script := r.script }

end EventLoop

end NetworkLib
