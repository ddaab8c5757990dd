import NetworkLib.Theory.Trace

/-! # Services over byte streams

A **service** keeps a state, answers the requests of any number of clients, and may publish messages
to them on its own account; what it publishes is posted as tasks, which run later. At the *message
level* requests and messages are handed over whole (`Exchange`). At the *wire level* (`Wires`) there
is a stream each way between every client and the service; what has arrived of a stream waits in a
buffer, and in a turn a side takes one message off the front of its buffer, if there is a whole one.

Code whose two readers take whole messages off their buffers (`Reads`) makes the wire level
**refine** the message level, whatever the sizes in which the streams arrive and the order in which
the parties take their turns (`wires_refine`). -/

namespace NetworkLib.Service

variable {ι ρ τ α β π δ : Type*}

/-! ## The message level -/

/-- What a service and its clients do with whole messages. -/
structure Protocol (ι ρ τ α β π : Type*) where
  /-- Answer a request of the client `i`. -/
  serve : ρ → ι → α → ρ × List β
  /-- The messages posted for a publication, each with the client it goes to. -/
  publish : ρ → π → List (ι × β)
  /-- What a client makes of a message. -/
  hear : τ → β → τ

/-- What is under way between one client and the service. -/
structure Line (τ α β : Type*) where
  client : τ
  /-- Requests not served yet. -/
  asked : List α := []
  /-- Messages not heard yet. -/
  unheard : List β := []

/-- The state at the message level. -/
structure Exchange (ι ρ τ α β : Type*) where
  app : ρ
  /-- The messages posted and not sent yet, in order. -/
  tasks : List (ι × β) := []
  line : ι → Line τ α β

/-- A step at the message level. -/
inductive Act (ι α π : Type*) where
  | request (i : ι) (m : α)
  | serve (i : ι)
  | publish (p : π)
  | task
  | hear (i : ι)

/-- What comes from outside: the requests and the publications. -/
inductive Input (ι α π : Type*) where
  | request (i : ι) (m : α)
  | publish (p : π)

/-- The input of a step. -/
def Act.input : Act ι α π → List (Input ι α π)
  | .request i m => [.request i m]
  | .publish p => [.publish p]
  | _ => []

variable [DecidableEq ι]

/-- Change one line. -/
def Exchange.setLine (x : Exchange ι ρ τ α β) (i : ι) (l : Line τ α β) : Exchange ι ρ τ α β :=
  { x with line := Function.update x.line i l }

/-- One step at the message level. -/
def Exchange.step (P : Protocol ι ρ τ α β π) (x : Exchange ι ρ τ α β) :
    Act ι α π → Exchange ι ρ τ α β
  | .request i m => x.setLine i { x.line i with asked := (x.line i).asked ++ [m] }
  | .serve i =>
      match (x.line i).asked with
      | [] => x
      | m :: rest =>
          let (app, replies) := P.serve x.app i m
          { x.setLine i { x.line i with
              asked := rest
              unheard := (x.line i).unheard ++ replies } with app }
  | .publish p => { x with tasks := x.tasks ++ P.publish x.app p }
  | .task =>
      match x.tasks with
      | [] => x
      | (i, b) :: rest =>
          { x.setLine i { x.line i with unheard := (x.line i).unheard ++ [b] } with tasks := rest }
  | .hear i =>
      match (x.line i).unheard with
      | [] => x
      | b :: rest =>
          x.setLine i { x.line i with client := P.hear (x.line i).client b, unheard := rest }

section Steps

variable {P : Protocol ι ρ τ α β π} {x : Exchange ι ρ τ α β} {i : ι}

/-- Where nothing was asked nothing is served. -/
theorem Exchange.step_serve_nil (h : (x.line i).asked = []) : x.step P (.serve i) = x := by
  simp only [step, h]

/-- Serving takes the first request and sends its answers. -/
theorem Exchange.step_serve_cons {m : α} {rest : List α} (h : (x.line i).asked = m :: rest) :
    x.step P (.serve i) = { x.setLine i { x.line i with
      asked := rest
      unheard := (x.line i).unheard ++ (P.serve x.app i m).2 } with
        app := (P.serve x.app i m).1 } := by
  simp only [step, h]

/-- Where no task waits nothing is sent. -/
theorem Exchange.step_task_nil (h : x.tasks = []) : x.step P .task = x := by
  simp only [step, h]

/-- A task sends its answer to its own client. -/
theorem Exchange.step_task_cons {b : β} {rest : List (ι × β)} (h : x.tasks = (i, b) :: rest) :
    x.step P .task = { x.setLine i { x.line i with unheard := (x.line i).unheard ++ [b] } with
      tasks := rest } := by
  simp only [step, h]

/-- Where nothing was sent nothing is heard. -/
theorem Exchange.step_hear_nil (h : (x.line i).unheard = []) : x.step P (.hear i) = x := by
  simp only [step, h]

/-- Hearing takes the first answer. -/
theorem Exchange.step_hear_cons {b : β} {rest : List β} (h : (x.line i).unheard = b :: rest) :
    x.step P (.hear i)
      = x.setLine i { x.line i with client := P.hear (x.line i).client b, unheard := rest } := by
  simp only [step, h]

/-- A line after a change of the line `i`. -/
theorem Exchange.setLine_line (x : Exchange ι ρ τ α β) (i : ι) (l : Line τ α β) (j : ι) :
    (x.setLine i l).line j = if i = j then l else x.line j := by
  by_cases hj : i = j
  · subst hj
    rw [if_pos rfl]
    exact Function.update_self ..
  · rw [if_neg hj]
    exact Function.update_of_ne (Ne.symm hj) ..

end Steps

/-! ## The wire level -/

/-- The code of a service and its clients, by what it reads and writes. -/
structure Code (ι ρ τ α π δ : Type*) where
  /-- What a client writes for a request. -/
  send : α → List δ
  /-- Take one request off the front of the buffer, serve it and write, or wait. -/
  serverTurn : ι → ρ → List δ → Option ((ρ × List δ) × List δ)
  /-- The writes posted for a publication. -/
  publish : ρ → π → List (ι × List δ)
  /-- Take one message off the front of the buffer, or wait. -/
  clientTurn : τ → List δ → Option (τ × List δ)

/-- The two streams between one client and the service. -/
structure Link (τ δ : Type*) where
  client : τ
  toServer : List δ := []
  /-- What has arrived at the service and is not read yet. -/
  arrived : List δ := []
  toClient : List δ := []
  /-- What has been received by the client and is not read yet. -/
  received : List δ := []

/-- The state at the wire level. -/
structure Wires (ι ρ τ δ : Type*) where
  app : ρ
  tasks : List (ι × List δ) := []
  link : ι → Link τ δ

/-- A step at the wire level. -/
inductive Event (ι α π : Type*) where
  | request (i : ι) (m : α)
  /-- Up to `n` elements arrive at the service. -/
  | arrive (i : ι) (n : ℕ)
  | turn (i : ι)
  | publish (p : π)
  | task
  /-- Up to `n` elements are received by the client. -/
  | receive (i : ι) (n : ℕ)
  | clientTurn (i : ι)

/-- The input of a step. -/
def Event.input : Event ι α π → List (Input ι α π)
  | .request i m => [.request i m]
  | .publish p => [.publish p]
  | _ => []

/-- Change one link. -/
def Wires.setLink (w : Wires ι ρ τ δ) (i : ι) (l : Link τ δ) : Wires ι ρ τ δ :=
  { w with link := Function.update w.link i l }

/-- One step at the wire level. -/
def Wires.step (C : Code ι ρ τ α π δ) (w : Wires ι ρ τ δ) : Event ι α π → Wires ι ρ τ δ
  | .request i m => w.setLink i { w.link i with toServer := (w.link i).toServer ++ C.send m }
  | .arrive i n =>
      w.setLink i { w.link i with
        toServer := (w.link i).toServer.drop n
        arrived := (w.link i).arrived ++ (w.link i).toServer.take n }
  | .turn i =>
      match C.serverTurn i w.app (w.link i).arrived with
      | none => w
      | some ((app, written), rest) =>
          { w.setLink i { w.link i with
              arrived := rest
              toClient := (w.link i).toClient ++ written } with app }
  | .publish p => { w with tasks := w.tasks ++ C.publish w.app p }
  | .task =>
      match w.tasks with
      | [] => w
      | (i, written) :: rest =>
          { w.setLink i { w.link i with toClient := (w.link i).toClient ++ written } with
            tasks := rest }
  | .receive i n =>
      w.setLink i { w.link i with
        toClient := (w.link i).toClient.drop n
        received := (w.link i).received ++ (w.link i).toClient.take n }
  | .clientTurn i =>
      match C.clientTurn (w.link i).client (w.link i).received with
      | none => w
      | some (client, rest) => w.setLink i { w.link i with client, received := rest }

/-! ## Readers of whole messages -/

/-- The reader `turn` takes one whole message off the front of a buffer, and waits at a part of one.
-/
structure Reads {σ γ μ : Type*} (encode : μ → List δ) (Good : μ → Prop) (result : σ → μ → γ)
    (turn : σ → List δ → Option (γ × List δ)) : Prop where
  whole : ∀ s m rest, Good m → turn s (encode m ++ rest) = some (result s m, rest)
  part : ∀ s m bs, Good m → bs <+: encode m → bs ≠ encode m → turn s bs = none
  nil : ∀ s, turn s [] = none

section Reads

variable {σ γ μ : Type*} {encode : μ → List δ} {Good : μ → Prop} {result : σ → μ → γ}
  {turn : σ → List δ → Option (γ × List δ)}

/-- **In front of a stream of messages a reader takes the first of them or waits.** -/
theorem Reads.front (h : Reads encode Good result turn) {ms : List μ} (hms : ∀ m ∈ ms, Good m)
    {buf rest : List δ} (hstream : buf ++ rest = ms.flatMap encode) (s : σ) :
    turn s buf = none ∨ ∃ m ms' buf', ms = m :: ms' ∧ turn s buf = some (result s m, buf') ∧
      buf' ++ rest = ms'.flatMap encode := by
  cases ms with
  | nil =>
      have hbuf : buf = [] := (List.append_eq_nil_iff.mp hstream).1
      rw [hbuf]
      exact .inl (h.nil s)
  | cons m ms =>
      rw [List.flatMap_cons] at hstream
      have hm := hms m List.mem_cons_self
      rcases Nat.lt_or_ge buf.length (encode m).length with hlt | hge
      · -- the buffer ends inside the first message
        have hfront : buf <+: encode m :=
          List.prefix_of_prefix_length_le ⟨rest, hstream⟩ (List.prefix_append _ _) hlt.le
        exact .inl (h.part s m buf hm hfront fun heq => absurd hlt (by rw [heq]; exact lt_irrefl _))
      · obtain ⟨buf', rfl⟩ : encode m <+: buf :=
          List.prefix_of_prefix_length_le (List.prefix_append _ _) ⟨rest, hstream⟩ hge
        rw [List.append_assoc] at hstream
        exact .inr ⟨m, ms, buf', rfl, h.whole s m buf' hm, List.append_cancel_left hstream⟩

/-- **A reader that waits behind the whole stream has read all of it.** -/
theorem Reads.eq_nil_of_waits (h : Reads encode Good result turn) {ms : List μ}
    (hms : ∀ m ∈ ms, Good m) {s : σ} (hwaits : turn s (ms.flatMap encode) = none) : ms = [] := by
  cases ms with
  | nil => rfl
  | cons m ms =>
      rw [List.flatMap_cons, h.whole s m _ (hms m List.mem_cons_self)] at hwaits
      cases hwaits

end Reads

/-! ## The refinement -/

/-- The code carries the messages of the protocol: requests are what `send` writes, messages are
written by `wire`, and both sides read whole ones. -/
structure Carries (P : Protocol ι ρ τ α β π) (C : Code ι ρ τ α π δ) (wire : β → List δ)
    (Good : α → Prop) (Fits : β → Prop) (Sound : π → Prop) : Prop where
  server : ∀ i, Reads C.send Good
    (fun r m => ((P.serve r i m).1, (P.serve r i m).2.flatMap wire)) (C.serverTurn i)
  client : Reads wire Fits P.hear C.clientTurn
  publish_eq : ∀ r p, C.publish r p = (P.publish r p).map fun t => (t.1, wire t.2)
  serve_fits : ∀ r i m, Good m → ∀ b ∈ (P.serve r i m).2, Fits b
  publish_fits : ∀ r p, Sound p → ∀ t ∈ P.publish r p, Fits t.2

/-- One link carries what is under way on a line. -/
structure Link.Holds (send : α → List δ) (wire : β → List δ) (Good : α → Prop) (Fits : β → Prop)
    (k : Link τ δ) (l : Line τ α β) : Prop where
  client : k.client = l.client
  asked : k.arrived ++ k.toServer = l.asked.flatMap send
  unheard : k.received ++ k.toClient = l.unheard.flatMap wire
  good : ∀ m ∈ l.asked, Good m
  fits : ∀ b ∈ l.unheard, Fits b

/-- The wires hold what is under way at the message level. -/
structure Wires.Holds (send : α → List δ) (wire : β → List δ) (Good : α → Prop) (Fits : β → Prop)
    (w : Wires ι ρ τ δ) (x : Exchange ι ρ τ α β) : Prop where
  app : w.app = x.app
  tasks : w.tasks = x.tasks.map fun t => (t.1, wire t.2)
  fits : ∀ t ∈ x.tasks, Fits t.2
  link : ∀ i, (w.link i).Holds send wire Good Fits (x.line i)

section Refinement

variable {P : Protocol ι ρ τ α β π} {C : Code ι ρ τ α π δ} {wire : β → List δ} {Good : α → Prop}
  {Fits : β → Prop} {Sound : π → Prop} {w : Wires ι ρ τ δ} {x : Exchange ι ρ τ α β}

/-- Changing one link together with its line. -/
theorem Wires.Holds.set (h : w.Holds C.send wire Good Fits x) (i : ι) {k : Link τ δ}
    {l : Line τ α β} (hkl : k.Holds C.send wire Good Fits l) :
    (w.setLink i k).Holds C.send wire Good Fits (x.setLine i l) where
  app := h.app
  tasks := h.tasks
  fits := h.fits
  link j := by
    simp only [Wires.setLink, Exchange.setLine, Function.update_apply]
    split
    · exact hkl
    · exact h.link j

/-- Changing one link alone. -/
theorem Wires.Holds.setLink (h : w.Holds C.send wire Good Fits x) (i : ι) {k : Link τ δ}
    (hk : k.Holds C.send wire Good Fits (x.line i)) :
    (w.setLink i k).Holds C.send wire Good Fits x where
  app := h.app
  tasks := h.tasks
  fits := h.fits
  link j := by
    simp only [Wires.setLink, Function.update_apply]
    split
    · next hj => rw [hj]; exact hk
    · exact h.link j

/-- What a step posts for a publication. -/
def Exchange.posting (P : Protocol ι ρ τ α β π) (x : Exchange ι ρ τ α β) :
    Act ι α π → List (ι × β)
  | .publish p => P.publish x.app p
  | _ => []

/-- What a step posts for a publication, at the wire level. -/
def Wires.posting (P : Protocol ι ρ τ α β π) (w : Wires ι ρ τ δ) : Event ι α π → List (ι × β)
  | .publish p => P.publish w.app p
  | _ => []

/-- The inputs that the code carries. -/
def Input.Carried (Good : α → Prop) (Sound : π → Prop) : Input ι α π → Prop
  | .request _ m => Good m
  | .publish p => Sound p

omit [DecidableEq ι] in
/-- A request among the inputs is one of the events. -/
theorem Event.mem_of_request {es : List (Event ι α π)} {i : ι} {m : α}
    (h : Input.request i m ∈ es.flatMap Event.input) : Event.request i m ∈ es := by
  obtain ⟨e, he, hinput⟩ := List.mem_flatMap.mp h
  cases e with
  | request j m' =>
      cases List.mem_singleton.mp hinput
      exact he
  | publish p => cases List.mem_singleton.mp hinput
  | arrive j n => cases hinput
  | turn j => cases hinput
  | task => cases hinput
  | receive j n => cases hinput
  | clientTurn j => cases hinput

omit [DecidableEq ι] in
/-- The inputs of a run are carried when its requests and its publications are. -/
theorem carried_of_events {es : List (Event ι α π)}
    (hrequest : ∀ i m, Event.request i m ∈ es → Good m)
    (hpublish : ∀ p, Event.publish p ∈ es → Sound p) :
    ∀ input ∈ es.flatMap Event.input, input.Carried Good Sound := by
  intro input hinput
  obtain ⟨e, he, hinput⟩ := List.mem_flatMap.mp hinput
  cases e with
  | request i m =>
      rw [List.mem_singleton.mp hinput]
      exact hrequest i m he
  | publish p =>
      rw [List.mem_singleton.mp hinput]
      exact hpublish p he
  | arrive i n => cases hinput
  | turn i => cases hinput
  | task => cases hinput
  | receive i n => cases hinput
  | clientTurn i => cases hinput

/-- **Every step at the wire level is a step at the message level, or none.** -/
theorem Wires.Holds.step (hC : Carries P C wire Good Fits Sound)
    (h : w.Holds C.send wire Good Fits x) (e : Event ι α π)
    (he : ∀ input ∈ e.input, input.Carried Good Sound) :
    ∃ as : List (Act ι α π),
      (w.step C e).Holds C.send wire Good Fits (Trace.run (Exchange.step P) x as) ∧
      as.flatMap Act.input = e.input ∧
      Trace.outputs (Exchange.step P) (Exchange.posting P) x as = w.posting P e := by
  -- One case for each event; a turn that takes nothing is matched by no act of the exchange.
  cases e with
  | request i m =>
      have hm : Good m := he _ List.mem_cons_self
      have hi := h.link i
      refine ⟨[Act.request i m], h.set i ⟨hi.client, ?_, hi.unheard, ?_, hi.fits⟩, rfl, rfl⟩
      · show (w.link i).arrived ++ ((w.link i).toServer ++ C.send m) = _
        rw [← List.append_assoc, hi.asked, List.flatMap_append, List.flatMap_singleton]
      · intro m' hm'
        rcases List.mem_append.mp hm' with hm' | hm'
        · exact hi.good m' hm'
        · rwa [List.mem_singleton.mp hm']
  | arrive i n =>
      -- the bytes move from the wire to the buffer, so their sum stays
      have hi := h.link i
      refine ⟨[], h.setLink i ⟨hi.client, ?_, hi.unheard, hi.good, hi.fits⟩, rfl, rfl⟩
      show ((w.link i).arrived ++ (w.link i).toServer.take n) ++ (w.link i).toServer.drop n = _
      rw [List.append_assoc, List.take_append_drop, hi.asked]
  | turn i =>
      have hi := h.link i
      rcases (hC.server i).front hi.good hi.asked w.app with
        hnone | ⟨m, ms, buf, hasked, hsome, hrest⟩
      · refine ⟨[], ?_, rfl, rfl⟩
        rw [Wires.step, hnone]
        exact h
      · -- the service reads the first request whole
        rw [h.app] at hsome
        have hgood := hi.good
        rw [hasked] at hgood
        refine ⟨[Act.serve i], ?_, rfl, rfl⟩
        rw [Wires.step, h.app, hsome, Trace.run_cons, Trace.run_nil,
          Exchange.step_serve_cons hasked]
        have hset := h.set i (k := { w.link i with
            arrived := buf
            toClient := (w.link i).toClient ++ (P.serve x.app i m).2.flatMap wire })
          (l := { x.line i with
            asked := ms
            unheard := (x.line i).unheard ++ (P.serve x.app i m).2 })
          { client := hi.client
            asked := hrest
            unheard := by
              show (w.link i).received ++ ((w.link i).toClient ++ _) = _
              rw [← List.append_assoc, hi.unheard, List.flatMap_append]
            good := fun m' hm' => hgood m' (List.mem_cons_of_mem _ hm')
            fits := fun b hb => (List.mem_append.mp hb).elim (hi.fits b)
              (hC.serve_fits x.app i m (hgood m List.mem_cons_self) b) }
        exact ⟨rfl, hset.tasks, hset.fits, hset.link⟩
  | publish p =>
      have hposting : Trace.outputs (Exchange.step P) (Exchange.posting P) x [Act.publish p]
          = w.posting P (.publish p) := by
        simp only [Trace.outputs_cons, Trace.outputs_nil, Exchange.posting, Wires.posting, h.app,
          List.append_nil]
      refine ⟨[Act.publish p], ⟨h.app, ?_, ?_, h.link⟩, rfl, hposting⟩
      · show w.tasks ++ C.publish w.app p = List.map _ (x.tasks ++ P.publish x.app p)
        rw [h.tasks, h.app, hC.publish_eq, List.map_append]
      · intro t ht
        rcases List.mem_append.mp ht with ht | ht
        · exact h.fits t ht
        · exact hC.publish_fits x.app p (he _ List.mem_cons_self) t ht
  | task =>
      have htasks := h.tasks
      cases ht : x.tasks with
      | nil =>
          rw [ht, List.map_nil] at htasks
          refine ⟨[], ?_, rfl, rfl⟩
          rw [Wires.step, htasks]
          exact h
      | cons t rest =>
          obtain ⟨i, b⟩ := t
          rw [ht, List.map_cons] at htasks
          have hfits := h.fits
          rw [ht] at hfits
          have hi := h.link i
          refine ⟨[Act.task], ?_, rfl, rfl⟩
          rw [Wires.step, htasks, Trace.run_cons, Trace.run_nil, Exchange.step_task_cons ht]
          have hset := h.set i (k := { w.link i with toClient := (w.link i).toClient ++ wire b })
            (l := { x.line i with unheard := (x.line i).unheard ++ [b] })
            { client := hi.client
              asked := hi.asked
              unheard := by
                show (w.link i).received ++ ((w.link i).toClient ++ wire b) = _
                rw [← List.append_assoc, hi.unheard, List.flatMap_append, List.flatMap_singleton]
              good := hi.good
              fits := fun b' hb' => (List.mem_append.mp hb').elim (hi.fits b') fun hb' =>
                List.mem_singleton.mp hb' ▸ hfits (i, b) List.mem_cons_self }
          exact ⟨hset.app, rfl, fun t ht => hfits t (List.mem_cons_of_mem _ ht), hset.link⟩
  | receive i n =>
      have hi := h.link i
      refine ⟨[], h.setLink i ⟨hi.client, hi.asked, ?_, hi.good, hi.fits⟩, rfl, rfl⟩
      show ((w.link i).received ++ (w.link i).toClient.take n) ++ (w.link i).toClient.drop n = _
      rw [List.append_assoc, List.take_append_drop, hi.unheard]
  | clientTurn i =>
      have hi := h.link i
      rcases hC.client.front hi.fits hi.unheard (w.link i).client with
        hnone | ⟨b, bs, buf, hunheard, hsome, hrest⟩
      · refine ⟨[], ?_, rfl, rfl⟩
        rw [Wires.step, hnone]
        exact h
      -- the client reads the first answer whole
      · have hfits := hi.fits
        rw [hunheard] at hfits
        refine ⟨[Act.hear i], ?_, rfl, rfl⟩
        rw [Wires.step, hsome, Trace.run_cons, Trace.run_nil, Exchange.step_hear_cons hunheard]
        refine h.set i ⟨?_, hi.asked, hrest, hi.good,
          fun b' hb' => hfits b' (List.mem_cons_of_mem _ hb')⟩
        show P.hear (w.link i).client b = P.hear (x.line i).client b
        rw [hi.client]

/-- The wires before anything was sent. -/
def Wires.start (app : ρ) (client : ι → τ) : Wires ι ρ τ δ where
  app := app
  link i := { client := client i }

/-- The message level before anything was sent. -/
def Exchange.start (app : ρ) (client : ι → τ) : Exchange ι ρ τ α β where
  app := app
  line i := { client := client i }

omit [DecidableEq ι] in
/-- At the start nothing is on its way. -/
theorem Wires.holds_start (app : ρ) (client : ι → τ) :
    (Wires.start app client : Wires ι ρ τ δ).Holds C.send wire Good Fits
      (Exchange.start app client : Exchange ι ρ τ α β) where
  app := rfl
  tasks := rfl
  fits _ ht := absurd ht List.not_mem_nil
  link _ := ⟨rfl, rfl, rfl, fun _ hm => absurd hm List.not_mem_nil,
    fun _ hb => absurd hb List.not_mem_nil⟩

/-- What the steps of a run post for its publications, at the wire level. -/
def Wires.posted (P : Protocol ι ρ τ α β π) (C : Code ι ρ τ α π δ) (w : Wires ι ρ τ δ)
    (es : List (Event ι α π)) : List (ι × β) :=
  Trace.outputs (Wires.step C) (Wires.posting P) w es

/-- What the steps of a run post for its publications, at the message level. -/
def Exchange.posted (P : Protocol ι ρ τ α β π) (x : Exchange ι ρ τ α β) (as : List (Act ι α π)) :
    List (ι × β) :=
  Trace.outputs (Exchange.step P) (Exchange.posting P) x as

/-- The refinement along a run, from any two states that correspond. -/
theorem Wires.Holds.run (hC : Carries P C wire Good Fits Sound)
    (h : w.Holds C.send wire Good Fits x) {es : List (Event ι α π)}
    (hes : ∀ input ∈ es.flatMap Event.input, input.Carried Good Sound) :
    ∃ as : List (Act ι α π),
      (Trace.run (Wires.step C) w es).Holds C.send wire Good Fits
          (Trace.run (Exchange.step P) x as) ∧
        as.flatMap Act.input = es.flatMap Event.input ∧ x.posted P as = w.posted P C es := by
  induction es generalizing w x with
  | nil => exact ⟨[], h, rfl, rfl⟩
  | cons e es ih =>
      rw [List.flatMap_cons] at hes
      obtain ⟨as, hholds, hinput, hposted⟩ :=
        h.step hC e fun input hinput => hes input (List.mem_append_left _ hinput)
      obtain ⟨as', hholds', hinput', hposted'⟩ :=
        ih hholds fun input hinput => hes input (List.mem_append_right _ hinput)
      refine ⟨as ++ as', ?_, ?_, ?_⟩
      · rw [Trace.run_cons, Trace.run_append]
        exact hholds'
      · rw [List.flatMap_append, List.flatMap_cons, hinput, hinput']
      · rw [Exchange.posted, Trace.outputs_append, hposted, Wires.posted, Trace.outputs_cons]
        exact congrArg (w.posting P e ++ ·) hposted'

/-- **The wire level refines the message level**, along every run: in any order of the steps and any
cutting of the streams, the service and the clients have done what they do at the message level on
the same input, and the service has posted the same. -/
theorem wires_refine (hC : Carries P C wire Good Fits Sound) (app : ρ) (client : ι → τ)
    {es : List (Event ι α π)} (hes : ∀ input ∈ es.flatMap Event.input, input.Carried Good Sound) :
    ∃ as : List (Act ι α π),
      (Trace.run (Wires.step C) (.start app client) es).Holds C.send wire Good Fits
          (Trace.run (Exchange.step P) (.start app client) as) ∧
        as.flatMap Act.input = es.flatMap Event.input ∧
        (Exchange.start app client).posted P as = (Wires.start app client).posted P C es :=
  (Wires.holds_start app client).run hC hes

omit [DecidableEq ι] in
/-- **When nothing is on its way to the service and it waits, it has served every request.** -/
theorem Wires.Holds.served (hC : Carries P C wire Good Fits Sound)
    (h : w.Holds C.send wire Good Fits x) {i : ι} (hempty : (w.link i).toServer = [])
    (hwaits : C.serverTurn i w.app (w.link i).arrived = none) : (x.line i).asked = [] := by
  have hi := h.link i
  have hasked := hi.asked
  rw [hempty, List.append_nil] at hasked
  rw [hasked] at hwaits
  exact (hC.server i).eq_nil_of_waits hi.good hwaits

omit [DecidableEq ι] in
/-- **When nothing is on its way to a client and it waits, it has heard everything.** -/
theorem Wires.Holds.heard (hC : Carries P C wire Good Fits Sound)
    (h : w.Holds C.send wire Good Fits x) {i : ι} (hempty : (w.link i).toClient = [])
    (hwaits : C.clientTurn (w.link i).client (w.link i).received = none) :
    (x.line i).unheard = [] := by
  have hi := h.link i
  have hunheard := hi.unheard
  rw [hempty, List.append_nil] at hunheard
  rw [hunheard] at hwaits
  exact hC.client.eq_nil_of_waits hi.fits hwaits

end Refinement

end NetworkLib.Service
