import NetworkLib.Theory.Service

/-! # Runs of a service

What the clients of a service see along a run, in any order of the steps and any cutting of the
streams. They see a sequential machine (`wires_linearised`); where publications can be told from
answers, a client hears those posted for it in order, each once (`wires_published`), and where the
answers have a shape that the requests tell, those to its own requests in order, each once
(`wires_answered`). -/

namespace NetworkLib.Service

variable {ι ρ τ α β π δ : Type*} [DecidableEq ι]

/-! ## What is said to a client

The clients log what they hear. What has been said to a client is what it has logged and what is
still under way to it. -/

section Said

variable {P : Protocol ι ρ τ α β π} {log : τ → List β} {x : Exchange ι ρ τ α β}

/-- The messages said on a line: those that the client has heard, and those it has not. -/
def Line.said (log : τ → List β) (l : Line τ α β) : List β := log l.client ++ l.unheard

/-- The messages that a step says to the client `i`. -/
def Exchange.saying (P : Protocol ι ρ τ α β π) (x : Exchange ι ρ τ α β) (a : Act ι α π) (i : ι) :
    List β :=
  match a with
  | .serve j =>
      match (x.line j).asked with
      | [] => []
      | m :: _ => if j = i then (P.serve x.app j m).2 else []
  | .task =>
      match x.tasks with
      | [] => []
      | (j, b) :: _ => if j = i then [b] else []
  | .request _ _ => []
  | .publish _ => []
  | .hear _ => []

section Saying

variable {i j : ι}

/-- Where nothing was asked serving says nothing. -/
theorem Exchange.saying_serve_nil (h : (x.line j).asked = []) : x.saying P (.serve j) i = [] := by
  simp only [saying, h]

/-- Serving says its answers to the client that asked. -/
theorem Exchange.saying_serve_cons {m : α} {rest : List α} (h : (x.line j).asked = m :: rest) :
    x.saying P (.serve j) i = if j = i then (P.serve x.app j m).2 else [] := by
  simp only [saying, h]

/-- Where no task waits nothing is said. -/
theorem Exchange.saying_task_nil (h : x.tasks = []) : x.saying P .task i = [] := by
  simp only [saying, h]

/-- A task says its answer to its own client. -/
theorem Exchange.saying_task_cons {b : β} {rest : List (ι × β)} (h : x.tasks = (j, b) :: rest) :
    x.saying P .task i = if j = i then [b] else [] := by
  simp only [saying, h]

end Saying

/-- **A step says its messages behind those said before.** -/
theorem Exchange.said_step (hlog : ∀ t b, log (P.hear t b) = log t ++ [b]) (x : Exchange ι ρ τ α β)
    (a : Act ι α π) (i : ι) :
    ((x.step P a).line i).said log = (x.line i).said log ++ x.saying P a i := by
  -- what a change of the line `j` says
  have hset : ∀ (j : ι) (l : Line τ α β) (bs : List β), l.said log = (x.line j).said log ++ bs →
      ((x.setLine j l).line i).said log
        = (x.line i).said log ++ if j = i then bs else [] := by
    intro j l bs hl
    rw [setLine_line]
    by_cases hj : j = i
    · subst hj
      rw [if_pos rfl, if_pos rfl, hl]
    · rw [if_neg hj, if_neg hj, List.append_nil]
  have hsame : ∀ (j : ι) (l : Line τ α β), l.said log = (x.line j).said log →
      ((x.setLine j l).line i).said log = (x.line i).said log ++ [] := by
    intro j l hl
    rw [hset j l [] (by rw [hl, List.append_nil]), ite_self]
  cases a with
  | request j m =>
      refine hsame j _ ?_
      rfl
  | serve j =>
      cases hasked : (x.line j).asked with
      | nil =>
          rw [step_serve_nil hasked, saying_serve_nil hasked, List.append_nil]
      | cons m rest =>
          rw [step_serve_cons hasked, saying_serve_cons hasked]
          refine hset j _ _ ?_
          rw [Line.said, Line.said, List.append_assoc]
  | publish p => exact (List.append_nil _).symm
  | task =>
      cases htasks : x.tasks with
      | nil =>
          rw [step_task_nil htasks, saying_task_nil htasks, List.append_nil]
      | cons t rest =>
          obtain ⟨j, b⟩ := t
          rw [step_task_cons htasks, saying_task_cons htasks]
          refine hset j _ _ ?_
          rw [Line.said, Line.said, List.append_assoc]
  | hear j =>
      cases hunheard : (x.line j).unheard with
      | nil =>
          rw [step_hear_nil hunheard]
          exact (List.append_nil _).symm
      | cons b rest =>
          rw [step_hear_cons hunheard]
          refine hsame j _ ?_
          rw [Line.said, Line.said, hlog, hunheard, List.append_assoc, List.singleton_append]

end Said

/-! ## The order of service

The service serves one request at a time. So the clients see a sequential machine, which is fed some
interleaving of their requests. -/

/-- The requests of the client `i` in some input. -/
def requestsOf (i : ι) (inputs : List (Input ι α π)) : List α :=
  inputs.filterMap fun
    | .request j m => if j = i then some m else none
    | .publish _ => none

@[simp] theorem requestsOf_append (i : ι) (inputs inputs' : List (Input ι α π)) :
    requestsOf i (inputs ++ inputs') = requestsOf i inputs ++ requestsOf i inputs' :=
  List.filterMap_append

/-- A client's requests are those among the inputs. -/
theorem mem_requestsOf {i : ι} {m : α} {inputs : List (Input ι α π)} :
    m ∈ requestsOf i inputs ↔ Input.request i m ∈ inputs := by
  rw [requestsOf, List.mem_filterMap]
  constructor
  · rintro ⟨input, hinput, heq⟩
    cases input with
    | request j m' =>
        simp only [Option.ite_none_right_eq_some, Option.some.injEq] at heq
        obtain ⟨rfl, rfl⟩ := heq
        exact hinput
    | publish p => cases heq
  · intro hinput
    exact ⟨_, hinput, if_pos rfl⟩

/-- The elements of a list of pairs that are for `i`. -/
def partFor (i : ι) (ts : List (ι × β)) : List β :=
  ts.filterMap fun t => if t.1 = i then some t.2 else none

/-- A client's part of two lists. -/
theorem partFor_append (i : ι) (ts ts' : List (ι × β)) :
    partFor i (ts ++ ts') = partFor i ts ++ partFor i ts' := List.filterMap_append

/-- The first pair is in a client's part if it is for that client. -/
theorem partFor_cons (i j : ι) (b : β) (ts : List (ι × β)) :
    partFor i ((j, b) :: ts) = (if j = i then [b] else []) ++ partFor i ts := by
  by_cases hj : j = i <;> simp [partFor, hj]

/-- What is in a client's part is in the list for that client. -/
theorem mem_partFor {i : ι} {b : β} {ts : List (ι × β)} : b ∈ partFor i ts ↔ (i, b) ∈ ts := by
  induction ts with
  | nil => simp [partFor]
  | cons t ts ih =>
      obtain ⟨j, b'⟩ := t
      rw [partFor_cons, List.mem_append, ih, List.mem_cons, Prod.mk.injEq]
      by_cases hj : j = i
      · simp [hj]
      · simp [hj, Ne.symm hj]

/-- The requests in some input, each with the client it comes from. -/
def requestPairs (inputs : List (Input ι α π)) : List (ι × α) :=
  inputs.filterMap fun
    | .request i m => some (i, m)
    | .publish _ => none

/-- A client's part of the requests is its own requests. -/
theorem partFor_requestPairs (i : ι) (inputs : List (Input ι α π)) :
    partFor i (requestPairs inputs) = requestsOf i inputs := by
  rw [partFor, requestPairs, requestsOf, List.filterMap_filterMap]
  congr 1
  funext input
  cases input <;> rfl

/-- **A list whose parts are fronts of those of another one** is, up to the order, a part of it. -/
theorem subperm_of_partFor {ts ts' : List (ι × β)} (h : ∀ i, partFor i ts <+: partFor i ts') :
    ts.Subperm ts' := by
  classical
  have hcount : ∀ (i : ι) (b : β) (ts : List (ι × β)),
      ts.count (i, b) = (partFor i ts).count b := by
    intro i b ts
    induction ts with
    | nil => rfl
    | cons t ts ih =>
        obtain ⟨j, b'⟩ := t
        rw [List.count_cons, ih, partFor_cons, List.count_append, Nat.add_comm]
        by_cases hj : j = i
        · by_cases hb : b' = b <;> simp [hj, hb]
        · simp [hj]
  refine List.subperm_ext_iff.mpr ?_
  rintro ⟨i, b⟩ -
  rw [hcount, hcount]
  exact (h i).sublist.count_le b

section Served

variable {P : Protocol ι ρ τ α β π} {log : τ → List β}

/-- The state of the service after some requests, one after another. -/
def Protocol.after (P : Protocol ι ρ τ α β π) (r : ρ) (served : List (ι × α)) : ρ :=
  served.foldl (fun r t => (P.serve r t.1 t.2).1) r

/-- The request that a step serves, if it serves one. -/
def Exchange.serving (x : Exchange ι ρ τ α β) : Act ι α π → List (ι × α)
  | .serve j =>
      match (x.line j).asked with
      | [] => []
      | m :: _ => [(j, m)]
  | _ => []

omit [DecidableEq ι] in
/-- Where nothing was asked no request is taken. -/
theorem Exchange.serving_nil {x : Exchange ι ρ τ α β} {j : ι} (h : (x.line j).asked = []) :
    x.serving (.serve j : Act ι α π) = [] := by
  simp only [serving, h]

omit [DecidableEq ι] in
/-- Serving takes the first request of the line. -/
theorem Exchange.serving_cons {x : Exchange ι ρ τ α β} {j : ι} {m : α} {rest : List α}
    (h : (x.line j).asked = m :: rest) : x.serving (.serve j : Act ι α π) = [(j, m)] := by
  simp only [serving, h]

/-- The requests that a run serves, in order. -/
def Exchange.served (P : Protocol ι ρ τ α β π) (x : Exchange ι ρ τ α β) (as : List (Act ι α π)) :
    List (ι × α) :=
  Trace.outputs (Exchange.step P) Exchange.serving x as

/-- The application changes by the requests that are taken. -/
theorem Exchange.app_step (x : Exchange ι ρ τ α β) (a : Act ι α π) :
    (x.step P a).app = P.after x.app (x.serving a) := by
  cases a with
  | serve j =>
      cases hasked : (x.line j).asked with
      | nil => rw [step_serve_nil hasked, serving_nil hasked]; rfl
      | cons m rest => rw [step_serve_cons hasked, serving_cons hasked]; rfl
  | task =>
      cases htasks : x.tasks with
      | nil => rw [step_task_nil htasks]; rfl
      | cons t rest => rw [step_task_cons htasks]; rfl
  | hear j =>
      cases hunheard : (x.line j).unheard with
      | nil => rw [step_hear_nil hunheard]; rfl
      | cons b rest => rw [step_hear_cons hunheard]; rfl
  | request j m => rfl
  | publish p => rfl

/-- A client's requests are served in order, and none is forgotten. -/
theorem Exchange.asked_step (x : Exchange ι ρ τ α β) (a : Act ι α π) (i : ι) :
    partFor i (x.serving a) ++ ((x.step P a).line i).asked
      = (x.line i).asked ++ requestsOf i a.input := by
  -- steps that do not touch the requests of a line
  have hsame : ∀ (j : ι) (l : Line τ α β), l.asked = (x.line j).asked →
      ((x.setLine j l).line i).asked = (x.line i).asked := by
    intro j l hl
    rw [setLine_line]
    by_cases hj : j = i
    · subst hj
      rw [if_pos rfl, hl]
    · rw [if_neg hj]
  cases a with
  | request j m =>
      show ((x.setLine j _).line i).asked = _
      rw [setLine_line]
      by_cases hj : j = i
      · subst hj
        simp [requestsOf, Act.input]
      · simp [requestsOf, Act.input, hj]
  | serve j =>
      cases hasked : (x.line j).asked with
      | nil =>
          rw [step_serve_nil hasked, serving_nil hasked]
          exact (List.append_nil _).symm
      | cons m rest =>
          rw [step_serve_cons hasked, serving_cons hasked]
          show _ ++ ((x.setLine j _).line i).asked = _ ++ []
          rw [setLine_line, partFor_cons]
          by_cases hj : j = i
          · subst hj
            rw [if_pos rfl, if_pos rfl, hasked, List.append_nil]
            rfl
          · rw [if_neg hj, if_neg hj, List.append_nil]
            rfl
  | publish p => exact (List.append_nil _).symm
  | task =>
      cases htasks : x.tasks with
      | nil =>
          rw [step_task_nil htasks]
          exact (List.append_nil _).symm
      | cons t rest =>
          obtain ⟨j, b⟩ := t
          rw [step_task_cons htasks]
          show ((x.setLine j _).line i).asked = (x.line i).asked ++ []
          rw [List.append_nil]
          apply hsame
          rfl
  | hear j =>
      cases hunheard : (x.line j).unheard with
      | nil =>
          rw [step_hear_nil hunheard]
          exact (List.append_nil _).symm
      | cons b rest =>
          rw [step_hear_cons hunheard]
          show ((x.setLine j _).line i).asked = (x.line i).asked ++ []
          rw [List.append_nil]
          apply hsame
          rfl

/-- What a step says is an answer to the request it serves, or was posted. -/
theorem Exchange.mem_saying {x : Exchange ι ρ τ α β} {a : Act ι α π} {i : ι} {b : β}
    (hb : b ∈ x.saying P a i) :
    (∃ m, x.serving a = [(i, m)] ∧ b ∈ (P.serve x.app i m).2) ∨ (i, b) ∈ x.tasks := by
  -- Only serving and a task say something.
  cases a with
  | serve j =>
      cases hasked : (x.line j).asked with
      | nil =>
          rw [saying_serve_nil hasked] at hb
          cases hb
      | cons m rest =>
          rw [saying_serve_cons hasked] at hb
          by_cases hj : j = i
          · subst hj
            rw [if_pos rfl] at hb
            exact .inl ⟨m, serving_cons hasked, hb⟩
          · rw [if_neg hj] at hb
            cases hb
  | task =>
      cases htasks : x.tasks with
      | nil =>
          rw [saying_task_nil htasks] at hb
          cases hb
      | cons t rest =>
          obtain ⟨j, b'⟩ := t
          rw [saying_task_cons htasks] at hb
          by_cases hj : j = i
          · subst hj
            rw [if_pos rfl] at hb
            rw [List.mem_singleton.mp hb]
            exact .inr List.mem_cons_self
          · rw [if_neg hj] at hb
            cases hb
  | request j m => cases hb
  | publish p => cases hb
  | hear j => cases hb

/-- The tasks after a step were there before, or are posted by it. -/
theorem Exchange.mem_tasks_step {x : Exchange ι ρ τ α β} {a : Act ι α π} {t : ι × β}
    (ht : t ∈ (x.step P a).tasks) : t ∈ x.tasks ∨ t ∈ x.posting P a := by
  cases a with
  | publish p => exact List.mem_append.mp ht
  | serve j =>
      cases hasked : (x.line j).asked with
      | nil => rw [step_serve_nil hasked] at ht; exact .inl ht
      | cons m rest => rw [step_serve_cons hasked] at ht; exact .inl ht
  | task =>
      cases htasks : x.tasks with
      | nil =>
          rw [step_task_nil htasks, htasks] at ht
          cases ht
      | cons t' rest =>
          rw [step_task_cons htasks] at ht
          exact .inl (List.mem_cons_of_mem _ ht)
  | hear j =>
      cases hunheard : (x.line j).unheard with
      | nil => rw [step_hear_nil hunheard] at ht; exact .inl ht
      | cons b rest => rw [step_hear_cons hunheard] at ht; exact .inl ht
  | request j m => exact .inl ht

/-- **The state of the service is that of a sequential machine.** -/
theorem Exchange.app_run (x : Exchange ι ρ τ α β) (as : List (Act ι α π)) :
    (Trace.run (Exchange.step P) x as).app = P.after x.app (x.served P as) := by
  induction as generalizing x with
  | nil => rfl
  | cons a as ih =>
      rw [Trace.run_cons, ih, x.app_step, served, served, Trace.outputs_cons, Protocol.after,
        Protocol.after, Protocol.after, List.foldl_append]

/-- Every request is served or still waits, in its order. -/
theorem Exchange.asked_run (x : Exchange ι ρ τ α β) (as : List (Act ι α π)) (i : ι) :
    partFor i (x.served P as) ++ ((Trace.run (Exchange.step P) x as).line i).asked
      = (x.line i).asked ++ requestsOf i (as.flatMap Act.input) := by
  induction as generalizing x with
  | nil => simp [served, partFor, requestsOf]
  | cons a as ih =>
      have hserved : x.served P (a :: as) = x.serving a ++ (x.step P a).served P as := rfl
      rw [Trace.run_cons, hserved, partFor_append, List.append_assoc, ih, ← List.append_assoc,
        x.asked_step, List.append_assoc, List.flatMap_cons, requestsOf_append]

/-- What is said to a client in a run answers one of its requests, in the state that the requests
served before it have led to, or was posted for it. -/
theorem Exchange.mem_said_run (hlog : ∀ t b, log (P.hear t b) = log t ++ [b])
    (x : Exchange ι ρ τ α β) (as : List (Act ι α π)) {i : ι} {b : β}
    (hb : b ∈ ((Trace.run (Exchange.step P) x as).line i).said log) :
    b ∈ (x.line i).said log ∨
      (∃ before m rest, x.served P as = before ++ (i, m) :: rest ∧
        b ∈ (P.serve (P.after x.app before) i m).2) ∨
      (i, b) ∈ x.tasks ∨ (i, b) ∈ x.posted P as := by
  -- Induction on the acts: what is said at the first one answers the request that it serves, or was
  -- a task.
  induction as generalizing x with
  | nil => exact .inl hb
  | cons a as ih =>
      have hserved : x.served P (a :: as) = x.serving a ++ (x.step P a).served P as := rfl
      have hposted : x.posted P (a :: as) = x.posting P a ++ (x.step P a).posted P as := rfl
      rcases ih (x.step P a) hb with hb | ⟨before, m, rest, hrun, hb⟩ | hb | hb
      · rw [x.said_step hlog] at hb
        rcases List.mem_append.mp hb with hb | hb
        · exact .inl hb
        · rcases mem_saying hb with ⟨m, hserving, hb⟩ | hb
          · refine .inr (.inl ⟨[], m, (x.step P a).served P as, ?_, hb⟩)
            rw [hserved, hserving]
            rfl
          · exact .inr (.inr (.inl hb))
      -- said later, with one request more in front
      · refine .inr (.inl ⟨x.serving a ++ before, m, rest, ?_, ?_⟩)
        · rw [hserved, hrun, List.append_assoc]
        · rw [Protocol.after, List.foldl_append]
          rw [x.app_step] at hb
          exact hb
      · rcases mem_tasks_step hb with hb | hb
        · exact .inr (.inr (.inl hb))
        · exact .inr (.inr (.inr (hposted ▸ List.mem_append_left _ hb)))
      · exact .inr (.inr (.inr (hposted ▸ List.mem_append_right _ hb)))

variable {C : Code ι ρ τ α π δ} {wire : β → List δ} {Good : α → Prop} {Fits : β → Prop}
  {Sound : π → Prop}

/-- **The clients see a sequential machine.** In every run at the wire level there is an order of
service of which the part of every client is a front of its requests. The state of the service is
the one that this order leads to, and everything that a client has heard answers one of its requests
in the state that the requests before it have led to, or was posted for it. When nothing is on its
way to the service and it waits, all requests of that client have been served. -/
theorem wires_linearised (hC : Carries P C wire Good Fits Sound)
    (hlog : ∀ t b, log (P.hear t b) = log t ++ [b]) (app : ρ) (client : ι → τ)
    (hclient : ∀ i, log (client i) = []) {es : List (Event ι α π)}
    (hes : ∀ input ∈ es.flatMap Event.input, input.Carried Good Sound) :
    let w := Trace.run (Wires.step C) (.start app client) es
    ∃ served : List (ι × α), w.app = P.after app served ∧
      ∀ i, partFor i served <+: requestsOf i (es.flatMap Event.input) ∧
        ((w.link i).toServer = [] → C.serverTurn i w.app (w.link i).arrived = none →
          partFor i served = requestsOf i (es.flatMap Event.input)) ∧
        ∀ b ∈ log (w.link i).client,
          (∃ before m rest, served = before ++ (i, m) :: rest ∧
            b ∈ (P.serve (P.after app before) i m).2) ∨
          (i, b) ∈ (Wires.start app client).posted P C es := by
  intro w
  -- The run of the bytes refines one of whole messages, and what is asked for is read off there.
  obtain ⟨as, hholds, hinput, hposted⟩ := wires_refine hC app client hes
  set x₀ : Exchange ι ρ τ α β := .start app client with hx₀
  refine ⟨x₀.served P as, hholds.app.trans (x₀.app_run as), fun i => ⟨?_, ?_, ?_⟩⟩
  -- what was served is a front of what was asked
  · have hasked := x₀.asked_run (P := P) as i
    rw [hinput] at hasked
    exact ⟨_, hasked⟩
  · intro hempty hwaits
    have hasked := x₀.asked_run (P := P) as i
    rw [hinput, hholds.served hC hempty hwaits, List.append_nil] at hasked
    exact hasked
  · intro b hb
    have hsaid : b ∈ ((Trace.run (Exchange.step P) x₀ as).line i).said log := by
      rw [(hholds.link i).client] at hb
      exact List.mem_append_left _ hb
    rcases x₀.mem_said_run hlog as hsaid with hb | hb | hb | hb
    · have hnone : (x₀.line i).said log = [] := by
        rw [Line.said, hx₀, Exchange.start, hclient, List.append_nil]
      rw [hnone] at hb
      cases hb
    · exact .inl hb
    · cases hb
    · exact .inr (hposted ▸ hb)

end Served

/-! ## Publications in order

Where publications have a shape and answers have none, the shapes that a client has heard are those
of what was posted for it, in order. -/

section Published

variable {P : Protocol ι ρ τ α β π} {γ : Type*} {shape : β → Option γ} {log : τ → List β}

/-- The answers of a protocol have no shape, and the clients log what they hear. -/
structure Announced (P : Protocol ι ρ τ α β π) (shape : β → Option γ) (log : τ → List β) :
    Prop where
  serve : ∀ r i m, ∀ b ∈ (P.serve r i m).2, shape b = none
  hear : ∀ t b, log (P.hear t b) = log t ++ [b]

/-- The shapes of what has been said to the client `i`, and of what is posted for it. -/
def Exchange.announced (shape : β → Option γ) (log : τ → List β) (x : Exchange ι ρ τ α β) (i : ι) :
    List γ :=
  (((x.line i).said log) ++ partFor i x.tasks).filterMap shape

/-- A step adds the shapes of what it posts. -/
theorem Exchange.announced_step (hP : Announced P shape log) (x : Exchange ι ρ τ α β)
    (a : Act ι α π) (i : ι) :
    (x.step P a).announced shape log i
      = x.announced shape log i ++ (partFor i (x.posting P a)).filterMap shape := by
  rw [announced, announced, x.said_step hP.hear]
  cases a with
  | request j m =>
      show (((x.line i).said log ++ []) ++ partFor i x.tasks).filterMap shape = _ ++ []
      rw [List.append_nil, List.append_nil]
  | serve j =>
      cases hasked : (x.line j).asked with
      | nil =>
          rw [step_serve_nil hasked, saying_serve_nil hasked, List.append_nil]
          exact (List.append_nil _).symm
      | cons m rest =>
          have hnone : (P.serve x.app j m).2.filterMap shape = [] :=
            List.filterMap_eq_nil_iff.mpr fun b hb => hP.serve x.app j m b hb
          have hadded : (if j = i then (P.serve x.app j m).2 else []).filterMap shape = [] := by
            split
            · exact hnone
            · rfl
          rw [step_serve_cons hasked, saying_serve_cons hasked]
          show (((x.line i).said log ++ _) ++ partFor i x.tasks).filterMap shape = _ ++ []
          rw [List.filterMap_append, List.filterMap_append, hadded, List.append_nil,
            List.append_nil, List.filterMap_append]
  | publish p =>
      show (((x.line i).said log ++ []) ++ partFor i (x.tasks ++ P.publish x.app p)).filterMap shape
        = _ ++ (partFor i (P.publish x.app p)).filterMap shape
      rw [List.append_nil, partFor_append, ← List.append_assoc, List.filterMap_append (l := _ ++ _)]
  | task =>
      cases htasks : x.tasks with
      | nil =>
          rw [step_task_nil htasks, saying_task_nil htasks, List.append_nil, htasks]
          exact (List.append_nil _).symm
      | cons t rest =>
          obtain ⟨j, b⟩ := t
          -- the message moves from what is posted to what has been said
          rw [step_task_cons htasks, saying_task_cons htasks, partFor_cons, List.append_assoc]
          exact (List.append_nil _).symm
  | hear j =>
      cases hunheard : (x.line j).unheard with
      | nil =>
          rw [step_hear_nil hunheard]
          show (((x.line i).said log ++ []) ++ _).filterMap shape = _ ++ []
          rw [List.append_nil, List.append_nil]
      | cons b rest =>
          rw [step_hear_cons hunheard]
          show (((x.line i).said log ++ []) ++ partFor i x.tasks).filterMap shape = _ ++ []
          rw [List.append_nil, List.append_nil]

/-- **Publications in order.** -/
theorem Exchange.announced_run (hP : Announced P shape log) (x : Exchange ι ρ τ α β)
    (as : List (Act ι α π)) (i : ι) :
    (Trace.run (Exchange.step P) x as).announced shape log i
      = x.announced shape log i ++ (partFor i (x.posted P as)).filterMap shape := by
  induction as generalizing x with
  | nil => simp [posted, partFor]
  | cons a as ih =>
      have hposted : x.posted P (a :: as) = x.posting P a ++ (x.step P a).posted P as := rfl
      rw [Trace.run_cons, ih, x.announced_step hP, hposted, partFor_append,
        List.filterMap_append, List.append_assoc]

variable {C : Code ι ρ τ α π δ} {wire : β → List δ} {Good : α → Prop} {Fits : β → Prop}
  {Sound : π → Prop}

/-- **Publications in order, at the wire level.** In every run the publications that a client has
heard are the first of those posted for it, in order, each once; and when no task is left, nothing
is on its way to the client and it waits, they are all. -/
theorem wires_published (hC : Carries P C wire Good Fits Sound) (hP : Announced P shape log)
    (app : ρ) (client : ι → τ) {es : List (Event ι α π)}
    (hes : ∀ input ∈ es.flatMap Event.input, input.Carried Good Sound) (i : ι)
    (hclient : log (client i) = []) :
    let w := Trace.run (Wires.step C) (.start app client) es
    let all := (partFor i ((Wires.start app client).posted P C es)).filterMap shape
    (log (w.link i).client).filterMap shape <+: all ∧
      (w.tasks = [] → (w.link i).toClient = [] →
        C.clientTurn (w.link i).client (w.link i).received = none →
        (log (w.link i).client).filterMap shape = all) := by
  intro w all
  obtain ⟨as, hholds, -, hposted⟩ := wires_refine hC app client hes
  have hrun := Exchange.announced_run hP (Exchange.start app client : Exchange ι ρ τ α β) as i
  have hstart : (Exchange.start app client : Exchange ι ρ τ α β).announced shape log i = [] := by
    simp [Exchange.announced, Line.said, Exchange.start, hclient, partFor]
  rw [hstart, List.nil_append, hposted, Exchange.announced, Line.said, List.append_assoc,
    List.filterMap_append, ← (hholds.link i).client] at hrun
  refine ⟨⟨_, hrun⟩, fun htasks htoClient hclient => ?_⟩
  have hnone : (Trace.run (Exchange.step P) (Exchange.start app client) as).tasks = [] := by
    have := hholds.tasks
    rwa [htasks, eq_comm, List.map_eq_nil_iff] at this
  rw [hholds.heard hC htoClient hclient, hnone, List.nil_append, partFor, List.filterMap_nil,
    List.filterMap_nil, List.append_nil] at hrun
  exact hrun

end Published

/-! ## Answers in order

Where answers have a shape and publications have none, the shapes that a client has heard are those
of the answers to its own requests, in order, each in the state that the requests served before it
have led to. -/

section Answers

variable {P : Protocol ι ρ τ α β π} {γ : Type*} {shape : β → Option γ} {expected : ι → α → List γ}
  {log : τ → List β}

/-- The answers to the client `i` when some requests are served one after another. -/
def Protocol.answers (P : Protocol ι ρ τ α β π) (i : ι) : ρ → List (ι × α) → List β
  | _, [] => []
  | r, (j, m) :: served =>
      (if j = i then (P.serve r j m).2 else []) ++ P.answers i (P.serve r j m).1 served

/-- The answers to some requests, and then those to others in the state they have led to. -/
theorem Protocol.answers_append (i : ι) (r : ρ) (served served' : List (ι × α)) :
    P.answers i r (served ++ served')
      = P.answers i r served ++ P.answers i (P.after r served) served' := by
  induction served generalizing r with
  | nil => rfl
  | cons t served ih =>
      obtain ⟨j, m⟩ := t
      rw [List.cons_append, Protocol.answers, Protocol.answers, ih, List.append_assoc]
      rfl

/-- The messages posted are publications. -/
theorem Exchange.tasks_step (hpublish : ∀ r p, ∀ t ∈ P.publish r p, shape t.2 = none)
    {x : Exchange ι ρ τ α β} (htasks : ∀ t ∈ x.tasks, shape t.2 = none) (a : Act ι α π) :
    ∀ t ∈ (x.step P a).tasks, shape t.2 = none := by
  intro t ht
  rcases mem_tasks_step ht with ht | ht
  · exact htasks t ht
  · cases a with
    | publish p => exact hpublish x.app p t ht
    | request j m => cases ht
    | serve j => cases ht
    | task => cases ht
    | hear j => cases ht

/-- What a step says, and has a shape, answers the request that it serves. -/
theorem Exchange.saying_shapes {x : Exchange ι ρ τ α β} (htasks : ∀ t ∈ x.tasks, shape t.2 = none)
    (a : Act ι α π) (i : ι) :
    (x.saying P a i).filterMap shape = (P.answers i x.app (x.serving a)).filterMap shape := by
  cases a with
  | serve j =>
      cases hasked : (x.line j).asked with
      | nil => rw [saying_serve_nil hasked, serving_nil hasked]; rfl
      | cons m rest =>
          rw [saying_serve_cons hasked, serving_cons hasked, Protocol.answers, Protocol.answers,
            List.append_nil]
  | task =>
      cases ht : x.tasks with
      | nil => rw [saying_task_nil ht]; rfl
      | cons t rest =>
          obtain ⟨j, b⟩ := t
          have hb : shape b = none := htasks (j, b) (ht ▸ List.mem_cons_self)
          rw [saying_task_cons ht]
          by_cases hj : j = i
          · rw [if_pos hj, List.filterMap_cons_none hb]
            rfl
          · rw [if_neg hj]
            rfl
  | request j m => rfl
  | publish p => rfl
  | hear j => rfl

/-- **Answers in order.** Along every run at the message level, the shapes said to a client are
those of the answers to its requests in the order of service. -/
theorem Exchange.said_served (hlog : ∀ t b, log (P.hear t b) = log t ++ [b])
    (hpublish : ∀ r p, ∀ t ∈ P.publish r p, shape t.2 = none) (x : Exchange ι ρ τ α β)
    (htasks : ∀ t ∈ x.tasks, shape t.2 = none) (as : List (Act ι α π)) (i : ι) :
    (((Trace.run (Exchange.step P) x as).line i).said log).filterMap shape
      = ((x.line i).said log).filterMap shape
        ++ (P.answers i x.app (x.served P as)).filterMap shape := by
  induction as generalizing x with
  | nil => exact (List.append_nil _).symm
  | cons a as ih =>
      have hserved : x.served P (a :: as) = x.serving a ++ (x.step P a).served P as := rfl
      rw [Trace.run_cons, ih (x.step P a) (x.tasks_step hpublish htasks a), x.said_step hlog,
        List.filterMap_append, saying_shapes htasks, hserved, Protocol.answers_append,
        List.filterMap_append, ← x.app_step, List.append_assoc]

variable {C : Code ι ρ τ α π δ} {wire : β → List δ} {Good : α → Prop} {Fits : β → Prop}
  {Sound : π → Prop}

/-- **Answers in order, at the wire level.** In every run there is an order of service of which the
part of every client is a front of its requests, and all of them when nothing is on its way to the
service and it waits. The state of the service is the one that this order leads to, and the answers
that a client has heard are the first of those to its own requests in that order, each once; when
nothing is on its way to the client and it waits, they are all. -/
theorem wires_served (hC : Carries P C wire Good Fits Sound)
    (hlog : ∀ t b, log (P.hear t b) = log t ++ [b])
    (hpublish : ∀ r p, ∀ t ∈ P.publish r p, shape t.2 = none) (app : ρ) (client : ι → τ)
    {es : List (Event ι α π)} (hes : ∀ input ∈ es.flatMap Event.input, input.Carried Good Sound) :
    let w := Trace.run (Wires.step C) (.start app client) es
    ∃ served : List (ι × α), w.app = P.after app served ∧
      ∀ i, partFor i served <+: requestsOf i (es.flatMap Event.input) ∧
        ((w.link i).toServer = [] → C.serverTurn i w.app (w.link i).arrived = none →
          partFor i served = requestsOf i (es.flatMap Event.input)) ∧
        (log (client i) = [] →
          (log (w.link i).client).filterMap shape <+: (P.answers i app served).filterMap shape ∧
          ((w.link i).toClient = [] → C.clientTurn (w.link i).client (w.link i).received = none →
            (log (w.link i).client).filterMap shape = (P.answers i app served).filterMap shape)) := by
  intro w
  obtain ⟨as, hholds, hinput, -⟩ := wires_refine hC app client hes
  set x₀ : Exchange ι ρ τ α β := .start app client with hx₀
  refine ⟨x₀.served P as, hholds.app.trans (x₀.app_run as), fun i => ?_⟩
  -- What was asked is served or waits, and what was said is heard or on its way.
  have hasked := x₀.asked_run (P := P) as i
  rw [hinput] at hasked
  refine ⟨⟨_, hasked⟩, fun htoServer hserver => ?_, fun hclient => ?_⟩
  · rw [hholds.served hC htoServer hserver, List.append_nil] at hasked
    exact hasked
  · have hsaid := x₀.said_served (P := P) hlog hpublish (fun _ ht => absurd ht List.not_mem_nil) as i
    have hstart : (x₀.line i).said log = [] := by
      rw [Line.said, hx₀, Exchange.start, hclient, List.append_nil]
    rw [hstart, List.filterMap_nil, List.nil_append, Line.said, List.filterMap_append,
      ← (hholds.link i).client] at hsaid
    refine ⟨⟨_, hsaid⟩, fun htoClient hclient => ?_⟩
    rw [hholds.heard hC htoClient hclient, List.filterMap_nil, List.append_nil] at hsaid
    exact hsaid

/-- The answers of a protocol have shapes that are known from the requests, publications have none,
and the clients log what they hear. -/
structure Shaped (P : Protocol ι ρ τ α β π) (shape : β → Option γ) (expected : ι → α → List γ)
    (log : τ → List β) : Prop where
  serve : ∀ r i m, (P.serve r i m).2.filterMap shape = expected i m
  publish : ∀ r p, ∀ t ∈ P.publish r p, shape t.2 = none
  hear : ∀ t b, log (P.hear t b) = log t ++ [b]

/-- The shapes of the answers to a client are those known from its requests, whatever else is
served. -/
theorem Shaped.answers (hP : Shaped P shape expected log) (i : ι) (r : ρ) (served : List (ι × α)) :
    (P.answers i r served).filterMap shape = (partFor i served).flatMap (expected i) := by
  induction served generalizing r with
  | nil => rfl
  | cons t served ih =>
      obtain ⟨j, m⟩ := t
      rw [Protocol.answers, List.filterMap_append, ih, partFor_cons, List.flatMap_append]
      by_cases hj : j = i
      · subst hj
        rw [if_pos rfl, if_pos rfl, hP.serve, List.flatMap_singleton]
      · rw [if_neg hj, if_neg hj, List.filterMap_nil, List.flatMap_nil]

/-- **Answers of a known shape.** In every run the answers that a client has heard are
the first of those to its own requests, in order, each once, whatever the other clients do and the
service publishes; and when nothing is on its way and both sides wait, they are all. -/
theorem wires_answered (hC : Carries P C wire Good Fits Sound) (hP : Shaped P shape expected log)
    (app : ρ) (client : ι → τ) {es : List (Event ι α π)}
    (hes : ∀ input ∈ es.flatMap Event.input, input.Carried Good Sound) (i : ι)
    (hclient : log (client i) = []) :
    let w := Trace.run (Wires.step C) (.start app client) es
    let all := (requestsOf i (es.flatMap Event.input)).flatMap (expected i)
    (log (w.link i).client).filterMap shape <+: all ∧
      ((w.link i).toServer = [] → C.serverTurn i w.app (w.link i).arrived = none →
        (w.link i).toClient = [] → C.clientTurn (w.link i).client (w.link i).received = none →
        (log (w.link i).client).filterMap shape = all) := by
  intro w all
  obtain ⟨served, -, hserved⟩ := wires_served hC hP.hear hP.publish app client hes
  obtain ⟨hfront, hall, hheard⟩ := hserved i
  obtain ⟨hfirst, hrest⟩ := hheard hclient
  rw [hP.answers] at hfirst hrest
  refine ⟨hfirst.trans ?_, fun htoServer hserver htoClient hclient => ?_⟩
  · obtain ⟨rest, hrest⟩ := hfront
    exact ⟨rest.flatMap (expected i), by rw [← List.flatMap_append, hrest]⟩
  · rw [hrest htoClient hclient, hall htoServer hserver]

end Answers

end NetworkLib.Service
