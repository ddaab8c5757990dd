import NetworkLib.Core.Closing
import NetworkLib.Theory.Trace

/-! # The outcome of a connect

A connect that does not complete at once is completed by the first event, and its outcome is
reported through the connect callback, which the application waits for. Every way out of
`kConnecting` through `HandleWrite` or `HandleError` reports it; `HandleClose` does not, so that the
outcome is lost when the connection is closed, or reads the end of file, before `HandleWrite` has
run. -/

namespace NetworkLib.Connection

open Relation

variable {σ : Type*} {os : Os} {cb : Callbacks σ} {c c' : Connection σ}

/-- The outcomes reported through the connect callback. -/
def outcomes (log : List Effect) : List Bool :=
  log.filterMap fun
    | .connectCallback success => some success
    | _ => none

@[simp] theorem outcomes_append (log log' : List Effect) :
    outcomes (log ++ log') = outcomes log ++ outcomes log' := List.filterMap_append ..

/-- How the read loop of a connecting connection ends. -/
inductive ReadEnd where
  /-- It would block. -/
  | waits
  /-- At the end of file, or because the message callback closes. -/
  | closes
  /-- With an error. -/
  | fails
  deriving DecidableEq

/-- How the read loop ends, from the application state, the input buffer and the results of the
reads. -/
def readEnd (message : Option (σ → Buffer → σ × Buffer × List ConnCall)) :
    σ → Buffer → List ReadResult → ReadEnd
  | _, _, [] => .waits
  | _, _, .wouldBlock :: _ => .waits
  | _, _, .error :: _ => .fails
  | app, buf, .bytes data :: rs =>
      if data.length = 0 then .closes
      else
        match message with
        | none => readEnd message app (Buffer.append buf data) rs
        | some f =>
            let (app, buf, calls) := f app (Buffer.append buf data)
            -- the callback may close the connection it is called on
            if .forceClose ∈ calls then .closes else readEnd message app buf rs

/-- The outcome an operation reports. -/
def outcome (cb : Callbacks σ) (c : Connection σ) (op : Operation) : Option Bool :=
  if c.state = .kConnecting then
    match op with
    | .handleWrite io => some (!io.soError)
    | .handleError => some false
    | .handleRead io =>
        -- only `HandleError` calls the connect callback
        if readEnd cb.message c.app c.inputBuffer io.reads = .fails then some false else none
    | _ => none
  else none

/-- An operation that closes a connecting connection without an outcome: `HandleClose` or
`ForceClose`, or a `HandleRead` that ends with one of them. -/
def Silent (cb : Callbacks σ) (c : Connection σ) (op : Operation) : Prop :=
  c.state = .kConnecting ∧
    match op with
    | .handleClose => True
    | .call x => x = .forceClose
    | .handleRead io => readEnd cb.message c.app c.inputBuffer io.reads = .closes
    | _ => False

/-! ## What one operation reports -/

/-- A plain move reports nothing. -/
theorem PlainMove.outcomes (h : PlainMove os c c') :
    Connection.outcomes c'.log = Connection.outcomes c.log := by
  -- One case for each move: none of the effects it logs is a call of the connect callback.
  cases h with
  | out h =>
      cases h with
      | send data =>
          obtain ⟨-, h | ⟨_, h⟩⟩ := send_log os c none data
          · rw [h, outcomes_append]
            exact List.append_nil _
          · rw [h, outcomes_append]
            exact List.append_nil _
      | shutdown =>
          obtain h | ⟨-, h | ⟨-, h⟩⟩ := shutdown_cases c
          · rw [h]
          · rw [h]
          · rw [h, push_log, outcomes_append]
            exact List.append_nil _
      | close =>
          simp only [closeFd, outcomes_append]
          split <;> exact List.append_nil _
      | closeNotify =>
          simp only [closeFd, push_log, outcomes_append]
          split <;> simp [Connection.outcomes]
      | write =>
          simp only [writeOut, outcomes_append]
          exact List.append_nil _
      | disarm =>
          obtain ⟨_, _, h⟩ := modifyFd_eq os c {}
          rw [h]
  | read => exact (outcomes_append _ _).trans (List.append_nil _)
  | eof => exact (outcomes_append _ _).trans (List.append_nil _)
  | messageCallback => exact (outcomes_append _ _).trans (List.append_nil _)
  | onMessage => exact (outcomes_append _ _).trans (List.append_nil _)

/-- Plain moves report no outcome of a connect. -/
theorem PlainMoves.outcomes (h : PlainMoves os c c') :
    Connection.outcomes c'.log = Connection.outcomes c.log := by
  induction h with
  | refl => rfl
  | tail _ hbc ih => exact hbc.outcomes.trans ih

/-- The connect callback reports once. -/
theorem notifyConnect_outcomes {f : σ → Bool → σ × List ConnCall} (hf : cb.connect = some f)
    (c : Connection σ) (success : Bool) :
    outcomes (c.notifyConnect os cb success).log = outcomes c.log ++ [success] := by
  rw [notifyConnect, hf]
  have hcalls := outMoves_foldl (outMoves_call os cb) (f c.app success).2
    ({ c with app := (f c.app success).1 }.push (.connectCallback success))
  exact hcalls.plain.outcomes.trans (outcomes_append _ _)

/-- `HandleError` reports a failure while connecting. -/
theorem handleError_outcomes {f : σ → Bool → σ × List ConnCall} (hf : cb.connect = some f)
    (hs : c.state = .kConnecting) :
    outcomes (c.handleError os cb).log = outcomes c.log ++ [false] := by
  rw [handleError, if_neg (by rw [hs]; exact nofun), if_pos hs,
    (outMoves_handleClose os cb _).plain.outcomes, notifyConnect_outcomes hf]

/-- `Send` does not touch the application. -/
theorem send_app (os : Os) (c : Connection σ) (sender : Option ℕ) (data : Bytes) :
    (c.send os sender data).app = c.app := by
  obtain ⟨d, hd, hsend⟩ := send_cases os c sender data
  have happ : d.app = c.app := by
    obtain rfl | ⟨-, -, rfl⟩ := hd
    · rfl
    · rfl
  rw [hsend]
  split
  · obtain ⟨_, _, hmodify⟩ := modifyFd_eq os d { epollOut := true }
    rw [hmodify]
    exact happ
  · exact happ

/-- Calls on a connecting connection: they close it if `ForceClose` is among them, and otherwise
leave its state, its application state and its input buffer as they are. -/
theorem foldl_call (os : Os) (cb : Callbacks σ) (calls : List ConnCall) (hp : c.Paired)
    (hs : c.state = .kConnecting) :
    if .forceClose ∈ calls then (calls.foldl (call os cb) c).state = .kDisconnected
    else (calls.foldl (call os cb) c).state = .kConnecting ∧
      (calls.foldl (call os cb) c).app = c.app ∧
      (calls.foldl (call os cb) c).inputBuffer = c.inputBuffer := by
  induction calls generalizing c with
  | nil => simpa using hs
  | cons x calls ih =>
      cases x with
      | send data =>
          have hstate := (send_state os c none data).1
          have hrest := ih ((OutMoves.moves (.single (.send c data))).paired hp)
            (hstate.trans hs)
          rw [send_app, (send_log os c none data).1] at hrest
          simpa [call] using hrest
      | shutdown =>
          have hsame : c.shutdown = c := if_neg (by rw [hs]; exact nofun)
          have hrest := ih hp hs
          simpa [call, hsame] using hrest
      | forceClose =>
          rw [if_pos List.mem_cons_self]
          have hclosed : (c.handleClose os cb).Paired :=
            (outMoves_handleClose os cb c).moves.paired hp
          exact (outMoves_foldl (outMoves_call os cb) calls _).moves.disconnected hclosed
            (handleClose_state c)

/-- The loop of reads does nothing on a disconnected connection. -/
theorem readLoop_of_disconnected (hs : c.state = .kDisconnected) (rs : List ReadResult) :
    c.readLoop os cb rs = c := by
  cases rs with
  | nil => rfl
  | cons r rs => exact if_pos hs

/-- What the message callback does to a connecting connection: it reports nothing, and the
connection stays as it is unless the callback closes it. -/
theorem notifyMessage_connecting (os : Os) {g} (hm : cb.message = some g) (hp : c.Paired)
    (hs : c.state = .kConnecting) {app : σ} {buf : Buffer} {calls : List ConnCall}
    (hg : g c.app c.inputBuffer = (app, buf, calls)) :
    outcomes (c.notifyMessage os cb).log = outcomes c.log ∧
      if .forceClose ∈ calls then (c.notifyMessage os cb).state = .kDisconnected
      else (c.notifyMessage os cb).Paired ∧ (c.notifyMessage os cb).state = .kConnecting ∧
        (c.notifyMessage os cb).app = app ∧ (c.notifyMessage os cb).inputBuffer = buf := by
  set e := ({ c with app, inputBuffer := buf }.push .messageCallback : Connection σ) with he
  have hnotify : c.notifyMessage os cb = calls.foldl (call os cb) e := by
    rw [notifyMessage, hm]
    simp only [hg]
    rfl
  have hcalls := foldl_call os cb (c := e) calls hp hs
  have hmoves := outMoves_foldl (outMoves_call os cb) calls e
  have helog : outcomes e.log = outcomes c.log := (outcomes_append _ _).trans (List.append_nil _)
  rw [hnotify]
  refine ⟨hmoves.plain.outcomes.trans helog, ?_⟩
  split at hcalls
  · next hclose =>
      rw [if_pos hclose]
      exact hcalls
  · next hclose =>
      rw [if_neg hclose]
      exact ⟨hmoves.moves.paired (show e.Paired from hp), hcalls⟩

/-- What a read that is passed to the message callback does to a connecting connection: the callback
closes it, or the loop goes on with what the callback leaves. -/
theorem read_connecting (os : Os) (cb : Callbacks σ) (hp : c.Paired) (hs : c.state = .kConnecting)
    {data : Bytes} (hdata : data.length ≠ 0) (rs : List ReadResult) :
    let d := ({ c with inputBuffer := Buffer.append c.inputBuffer data }.push (.read data) :
      Connection σ).notifyMessage os cb
    outcomes d.log = outcomes c.log ∧
      (d.state = .kDisconnected ∧
          readEnd cb.message c.app c.inputBuffer (.bytes data :: rs) = .closes ∨
        (d.Paired ∧ d.state = .kConnecting) ∧
          readEnd cb.message c.app c.inputBuffer (.bytes data :: rs)
            = readEnd cb.message d.app d.inputBuffer rs) := by
  set e := ({ c with inputBuffer := Buffer.append c.inputBuffer data }.push (.read data) :
    Connection σ)
  have helog : outcomes e.log = outcomes c.log := (outcomes_append _ _).trans (List.append_nil _)
  intro d
  -- Without a message callback nothing is called; with one, its calls decide.
  cases hm : cb.message with
  | none =>
      have hsame : d = e := by
        show e.notifyMessage os cb = e
        rw [notifyMessage, hm]
      rw [hsame]
      exact ⟨helog, .inr ⟨⟨hp, hs⟩, if_neg hdata⟩⟩
  | some g =>
      rcases hg : g e.app e.inputBuffer with ⟨app, buf, calls⟩
      have hend : readEnd (some g) c.app c.inputBuffer (.bytes data :: rs)
          = if .forceClose ∈ calls then .closes else readEnd (some g) app buf rs := by
        have hg' : g c.app (Buffer.append c.inputBuffer data) = (app, buf, calls) := hg
        simp only [readEnd, if_neg hdata, hg']
      obtain ⟨hlog, hcalls⟩ := notifyMessage_connecting os hm (c := e) hp hs hg
      refine ⟨hlog.trans helog, ?_⟩
      rw [hend]
      split at hcalls
      · next hclose => exact .inl ⟨hcalls, if_pos hclose⟩
      · next hclose =>
          obtain ⟨hpaired, hstate, happ, hbuf⟩ := hcalls
          exact .inr ⟨⟨hpaired, hstate⟩, by rw [if_neg hclose, happ, hbuf]⟩

/-- What a read loop does to a connecting connection. -/
theorem readLoop_connecting (os : Os) {f : σ → Bool → σ × List ConnCall} (hf : cb.connect = some f)
    (rs : List ReadResult) (hp : c.Paired) (hs : c.state = .kConnecting) :
    match readEnd cb.message c.app c.inputBuffer rs with
    | .waits => (c.readLoop os cb rs).state = .kConnecting ∧
        outcomes (c.readLoop os cb rs).log = outcomes c.log
    | .closes => (c.readLoop os cb rs).state = .kDisconnected ∧
        outcomes (c.readLoop os cb rs).log = outcomes c.log
    | .fails => (c.readLoop os cb rs).state = .kDisconnected ∧
        outcomes (c.readLoop os cb rs).log = outcomes c.log ++ [false] := by
  have hne : c.state ≠ .kDisconnected := by
    rw [hs]
    exact nofun
  -- Induction on the results of `Read`; the connection stays as it is until one ends the loop.
  induction rs generalizing c with
  | nil => exact ⟨hs, rfl⟩
  | cons r rs ih =>
      cases r with
      | wouldBlock =>
          have hloop : c.readLoop os cb (.wouldBlock :: rs) = c := if_neg hne
          rw [hloop]
          exact ⟨hs, rfl⟩
      | error =>
          have hloop : c.readLoop os cb (.error :: rs) = c.handleError os cb := if_neg hne
          rw [hloop]
          exact ⟨handleError_state c, handleError_outcomes hf hs⟩
      | bytes data =>
          by_cases hdata : data.length = 0
          -- the peer has closed
          · have hloop : c.readLoop os cb (.bytes data :: rs)
                = (c.push (.read [])).handleClose os cb := (if_neg hne).trans (if_pos hdata)
            have hend : readEnd cb.message c.app c.inputBuffer (.bytes data :: rs) = .closes :=
              if_pos hdata
            rw [hloop, hend]
            refine ⟨handleClose_state _, ?_⟩
            rw [(outMoves_handleClose os cb _).plain.outcomes, push_log, outcomes_append]
            exact List.append_nil _
          · -- the message callback runs, and the loop goes on unless it closes
            have hloop : c.readLoop os cb (.bytes data :: rs)
                = (({ c with inputBuffer := Buffer.append c.inputBuffer data }.push (.read data) :
                    Connection σ).notifyMessage os cb).readLoop os cb rs :=
              (if_neg hne).trans (if_neg hdata)
            obtain ⟨hlog, hcases⟩ := read_connecting os cb hp hs hdata rs
            rw [hloop, ← hlog]
            rcases hcases with ⟨hstate, hend⟩ | ⟨⟨hpaired, hstate⟩, hend⟩
            · rw [hend, readLoop_of_disconnected hstate]
              exact ⟨hstate, rfl⟩
            · rw [hend]
              exact ih hpaired hstate (by rw [hstate]; exact nofun)

/-- A connect that has succeeded: the state is set, the callback is told, and what is left of
`HandleWrite` follows. -/
theorem connected_outcomes (os : Os) {f : σ → Bool → σ × List ConnCall} (hf : cb.connect = some f)
    (c : Connection σ) :
    let d := ({ c with state := .kConnected } : Connection σ).notifyConnect os cb true
    outcomes d.log = outcomes c.log ++ [true] ∧ d.Settled := by
  intro d
  refine ⟨notifyConnect_outcomes hf _ true, ?_⟩
  have hmoves : PlainMoves os (({ c with state := .kConnected, app := (f c.app true).1 } :
      Connection σ).push (.connectCallback true)) d := by
    have hcalls := outMoves_foldl (outMoves_call os cb) (f c.app true).2
      (({ c with state := .kConnected, app := (f c.app true).1 } : Connection σ).push
        (.connectCallback true))
    have hd : d = (f c.app true).2.foldl (call os cb)
        (({ c with state := .kConnected, app := (f c.app true).1 } : Connection σ).push
          (.connectCallback true)) := by
      show notifyConnect os cb _ true = _
      rw [notifyConnect, hf]
    rw [hd]
    exact hcalls.plain
  exact hmoves.settled ⟨nofun, nofun⟩

/-- What an operation does to a connecting connection: it stays connecting, or it leaves with an
outcome, or it is disconnected in silence. -/
theorem perform_connecting (os : Os) {f : σ → Bool → σ × List ConnCall} (hf : cb.connect = some f)
    (hp : c.Paired) (hs : c.state = .kConnecting) (op : Operation) :
    outcomes (c.perform os cb op).log = outcomes c.log ++ (outcome cb c op).toList ∧
    ((c.perform os cb op).state = .kConnecting ∧ outcome cb c op = none ∧ ¬ Silent cb c op ∨
      (c.perform os cb op).Settled ∧ outcome cb c op ≠ none ∧ ¬ Silent cb c op ∨
      (c.perform os cb op).state = .kDisconnected ∧ outcome cb c op = none ∧ Silent cb c op) := by
  have hne : c.state ≠ .kDisconnected := by
    rw [hs]
    exact nofun
  have hsettled {d : Connection σ} (h : d.state = .kDisconnected) : d.Settled := by
    unfold Settled
    rw [h]
    exact ⟨nofun, nofun⟩
  unfold outcome Silent
  rw [if_pos hs]
  cases op with
  | handleRead io =>
      -- `HandleRead` does not look at `kConnecting`, and its loop may end the connection
      have hread : c.perform os cb (.handleRead io) = c.readLoop os cb io.reads :=
        (if_neg hne).trans (if_neg (by rw [hs]; exact nofun))
      have hloop := readLoop_connecting os hf io.reads hp hs
      rw [hread]
      dsimp only
      generalize readEnd cb.message c.app c.inputBuffer io.reads = e at hloop ⊢
      cases e with
      | waits => exact ⟨by simpa using hloop.2, .inl ⟨hloop.1, rfl, by simp⟩⟩
      | closes => exact ⟨by simpa using hloop.2, .inr (.inr ⟨hloop.1, rfl, hs, rfl⟩)⟩
      | fails => exact ⟨hloop.2, .inr (.inl ⟨hsettled hloop.1, nofun, by simp⟩)⟩
  | handleWrite io =>
      -- `HandleWrite` decides the connect by `SO_ERROR`
      have hwrite : c.perform os cb (.handleWrite io) = _ := (if_neg hne).trans (if_pos hs)
      rw [hwrite]
      dsimp only
      generalize io.soError = failed
      cases failed with
      | true =>
          rw [if_pos rfl]
          exact ⟨handleError_outcomes hf hs,
            .inr (.inl ⟨hsettled (handleError_state c), nofun, fun h => h.2⟩)⟩
      | false =>
          obtain ⟨hlog, hconnected⟩ := connected_outcomes os hf c
          have hflush := (outMoves_flush os cb hconnected io).plain
          rw [if_neg nofun]
          exact ⟨hflush.outcomes.trans hlog,
            .inr (.inl ⟨hflush.settled hconnected, nofun, fun h => h.2⟩)⟩
  | handleClose =>
      -- closed in silence
      refine ⟨?_, .inr (.inr ⟨handleClose_state c, rfl, hs, trivial⟩)⟩
      rw [Option.toList_none, List.append_nil]
      exact (outMoves_handleClose os cb c).plain.outcomes
  | handleError =>
      exact ⟨handleError_outcomes hf hs,
        .inr (.inl ⟨hsettled (handleError_state c), nofun, fun h => h.2⟩)⟩
  | call x =>
      have hlog : outcomes (c.call os cb x).log = outcomes c.log :=
        (outMoves_call os cb c x).plain.outcomes
      rw [Option.toList_none, List.append_nil]
      refine ⟨hlog, ?_⟩
      cases x with
      | send data =>
          exact .inl ⟨(send_state os c none data).1.trans hs, rfl, fun h => by cases h.2⟩
      | shutdown =>
          have hsame : c.shutdown = c := if_neg (by rw [hs]; exact nofun)
          exact .inl ⟨(congrArg Connection.state hsame).trans hs, rfl, fun h => by cases h.2⟩
      | forceClose => exact .inr (.inr ⟨handleClose_state c, rfl, hs, rfl⟩)

/-- An operation on a settled connection reports nothing. -/
theorem perform_settled (os : Os) (cb : Callbacks σ) (hc : c.Settled) (op : Operation) :
    outcomes (c.perform os cb op).log = outcomes c.log ∧ (c.perform os cb op).Settled :=
  have hmoves := plainMoves_perform os cb hc op
  ⟨hmoves.outcomes, hmoves.settled hc⟩

/-! ## Runs -/

/-- What every operation keeps: a connecting connection has reported nothing, and a settled one at
most one outcome. -/
structure Reporting (c : Connection σ) : Prop where
  paired : c.Paired
  phase : c.state = .kConnecting ∧ outcomes c.log = [] ∨ c.Settled ∧ (outcomes c.log).length ≤ 1

/-- One operation keeps the account of what was reported. -/
theorem Reporting.perform {f : σ → Bool → σ × List ConnCall} (hf : cb.connect = some f)
    (hc : c.Reporting) (op : Operation) : (c.perform os cb op).Reporting := by
  refine ⟨(moves_perform os cb c op).paired hc.paired, ?_⟩
  rcases hc.phase with ⟨hs, hnone⟩ | ⟨hsettled, hle⟩
  · obtain ⟨hlog, hcases⟩ := perform_connecting os hf hc.paired hs op
    rw [hlog, hnone, List.nil_append]
    rcases hcases with ⟨hs', hout, -⟩ | ⟨hs', -⟩ | ⟨hs', hout, -⟩
    · exact .inl ⟨hs', by rw [hout]; rfl⟩
    · exact .inr ⟨hs', by cases outcome cb c op <;> simp⟩
    · refine .inr ⟨?_, by rw [hout]; exact Nat.zero_le 1⟩
      unfold Settled
      rw [hs']
      exact ⟨nofun, nofun⟩
  · obtain ⟨hlog, hsettled'⟩ := perform_settled os cb hsettled op
    exact .inr ⟨hsettled', hlog ▸ hle⟩

/-- A connection on which `Connect` returned `Success`. -/
theorem reporting_connect (os : Os) {f : σ → Bool → σ × List ConnCall} (hf : cb.connect = some f)
    (hfd : 0 ≤ c.fd) (hlog : outcomes c.log = []) {r : ConnectResult} (hr : r ≠ .invalid) :
    (c.connect os cb r).Reporting ∧
      (outcomes (c.connect os cb r).log = if r = .done then [true] else []) := by
  cases r with
  | invalid => exact absurd rfl hr
  | inProgress =>
      have hconnect : c.connect os cb .inProgress = { c with state := .kConnecting } :=
        if_neg (not_lt.mpr hfd)
      rw [hconnect]
      exact ⟨⟨iff_of_true hfd nofun, .inl ⟨rfl, hlog⟩⟩, hlog⟩
  | done =>
      have hconnect : c.connect os cb .done
          = ({ c with state := .kConnected } : Connection σ).notifyConnect os cb true :=
        if_neg (not_lt.mpr hfd)
      obtain ⟨hout, hsettled⟩ := connected_outcomes os hf c
      rw [hlog, List.nil_append] at hout
      have hpaired : ({ c with state := .kConnected } : Connection σ).Paired :=
        iff_of_true hfd nofun
      rw [hconnect]
      exact ⟨⟨(moves_notifyConnect os cb _ true).paired hpaired,
        .inr ⟨hsettled, by rw [hout]; exact Nat.le_refl 1⟩⟩, hout⟩

/-- So do some operations. -/
theorem Reporting.performAll {f : σ → Bool → σ × List ConnCall} (hf : cb.connect = some f)
    (hc : c.Reporting) (ops : List Operation) : (c.performAll os cb ops).Reporting :=
  Trace.run_preserves (fun _ op hc => hc.perform hf op) hc ops

/-- A success is reported by a `HandleWrite` that finds the connect completed. -/
theorem success_of_outcome {op : Operation} (h : outcome cb c op = some true) :
    c.state = .kConnecting ∧ ∃ io, op = .handleWrite io ∧ io.soError = false := by
  unfold outcome at h
  split at h
  · next hs =>
      refine ⟨hs, ?_⟩
      cases op with
      | handleWrite io =>
          refine ⟨io, rfl, ?_⟩
          simpa using h
      | handleRead io =>
          dsimp only at h
          split at h <;> cases h
      | handleClose => cases h
      | handleError => cases h
      | call x => cases h
  · cases h

/-- What one more operation of a run reports. -/
theorem outcomes_perform {f : σ → Bool → σ × List ConnCall} (hf : cb.connect = some f)
    (hc : c.Reporting) (op : Operation) :
    outcomes (c.perform os cb op).log = outcomes c.log ++ (outcome cb c op).toList := by
  rcases hc.phase with ⟨hs, -⟩ | ⟨hsettled, -⟩
  · exact (perform_connecting os hf hc.paired hs op).1
  · have hnone : outcome cb c op = none := if_neg hsettled.1
    rw [hnone, Option.toList_none, List.append_nil]
    exact (perform_settled os cb hsettled op).1

/-- A run that reports a success has completed the connect in a `HandleWrite`. -/
theorem success_reported {f : σ → Bool → σ × List ConnCall} (hf : cb.connect = some f)
    (hc : c.Reporting) {ops : List Operation}
    (htrue : true ∈ outcomes (c.performAll os cb ops).log) :
    true ∈ outcomes c.log ∨ ∃ ops₁ io ops₂, ops = ops₁ ++ .handleWrite io :: ops₂ ∧
      (c.performAll os cb ops₁).state = .kConnecting ∧ io.soError = false := by
  induction ops using List.reverseRecOn with
  | nil => exact .inl htrue
  | append_singleton ops op ih =>
      have hlast : c.performAll os cb (ops ++ [op]) = (c.performAll os cb ops).perform os cb op :=
        List.foldl_append
      rw [hlast, outcomes_perform hf (hc.performAll hf ops), List.mem_append] at htrue
      rcases htrue with htrue | htrue
      · rcases ih htrue with h | ⟨ops₁, io, ops₂, rfl, h⟩
        · exact .inl h
        · exact .inr ⟨ops₁, io, ops₂ ++ [op], by simp, h⟩
      · obtain ⟨hs, io, rfl, hio⟩ := success_of_outcome (Option.mem_toList.mp htrue)
        exact .inr ⟨ops, io, [], rfl, hs, hio⟩

/-- **A run without silent operations reports an outcome before it leaves `kConnecting`**, and only
such a run. -/
theorem reported_iff {f : σ → Bool → σ × List ConnCall} (hf : cb.connect = some f)
    (hc : c.Reporting) (hstart : c.Settled → outcomes c.log ≠ []) (ops : List Operation) :
    Trace.Always (perform os cb) (fun c op => ¬ Silent cb c op) c ops ↔
      ∀ ops₁ ops₂, ops = ops₁ ++ ops₂ → (c.performAll os cb ops₁).state = .kDisconnected →
        outcomes (c.performAll os cb ops₁).log ≠ [] := by
  constructor
  · intro hloud ops₁ ops₂ heq hs
    rw [heq, Trace.always_append] at hloud
    -- along the run a settled connection has reported its outcome
    have hkept : (c.performAll os cb ops₁).Reporting ∧ ((c.performAll os cb ops₁).Settled →
        outcomes (c.performAll os cb ops₁).log ≠ []) := by
      refine Trace.run_invariant (I := fun c : Connection σ => c.Reporting ∧
        (c.Settled → outcomes c.log ≠ [])) ?_ ⟨hc, hstart⟩ hloud.1
      rintro c op ⟨hc, hreported⟩ hsilent
      refine ⟨hc.perform hf op, fun hsettled' => ?_⟩
      rw [outcomes_perform hf hc]
      rcases hc.phase with ⟨hs, -⟩ | ⟨hsettled, -⟩
      · obtain ⟨-, ⟨hs', -⟩ | ⟨-, hout, -⟩ | ⟨-, -, hsil⟩⟩ := perform_connecting os hf hc.paired hs op
        · exact absurd hs' hsettled'.1
        · obtain ⟨success, hsuccess⟩ := Option.ne_none_iff_exists'.mp hout
          rw [hsuccess]
          simp
        · exact absurd hsil hsilent
      · exact List.append_ne_nil_of_left_ne_nil (hreported hsettled) _
    refine hkept.2 ?_
    unfold Settled
    rw [hs]
    exact ⟨nofun, nofun⟩
  · intro hreported
    by_contra hsilent
    -- the first silent operation leads to a state that nobody is told about
    obtain ⟨ops₁, op, ops₂, rfl, hop⟩ := Trace.exists_of_not_always hsilent
    rw [not_not] at hop
    have hkept : (c.performAll os cb ops₁).Reporting := hc.performAll hf ops₁
    have hlast : c.performAll os cb (ops₁ ++ [op]) = (c.performAll os cb ops₁).perform os cb op :=
      List.foldl_append
    rcases hkept.phase with ⟨hs, hnone⟩ | ⟨hsettled, -⟩
    · obtain ⟨hlog, ⟨-, -, h⟩ | ⟨-, -, h⟩ | ⟨hs', hout, -⟩⟩ :=
        perform_connecting os hf hkept.paired hs op
      · exact h hop
      · exact h hop
      · refine hreported (ops₁ ++ [op]) ops₂ (by simp) (by rw [hlast]; exact hs') ?_
        rw [hlast, hlog, hnone, hout]
        rfl
    · exact hsettled.1 hop.1

/-- **The outcome of a connect.** In every run of a connection on which `Connect` returned
`Success`, with a connect callback installed: the callback is called at most once; it is called with
`true` only when the connect completed, at once or in a `HandleWrite` that found no error; and the
connection never reaches `kDisconnected` without its having been called if and only if no operation
closes it in silence while it is connecting. -/
theorem connect_outcome_iff (os : Os) {cb : Callbacks σ} {f : σ → Bool → σ × List ConnCall}
    (hf : cb.connect = some f) {c : Connection σ} (hfd : 0 ≤ c.fd) (hlog : outcomes c.log = [])
    {r : ConnectResult} (hr : r ≠ .invalid) (ops : List Operation) :
    let run := (c.connect os cb r).performAll os cb
    (outcomes (run ops).log).length ≤ 1 ∧
    (true ∈ outcomes (run ops).log → r = .done ∨ ∃ ops₁ io ops₂,
      ops = ops₁ ++ .handleWrite io :: ops₂ ∧ (run ops₁).state = .kConnecting ∧
        io.soError = false) ∧
    (Trace.Always (perform os cb) (fun c op => ¬ Silent cb c op) (c.connect os cb r) ops ↔
      ∀ ops₁ ops₂, ops = ops₁ ++ ops₂ → (run ops₁).state = .kDisconnected →
        outcomes (run ops₁).log ≠ []) := by
  intro run
  obtain ⟨hc, hout⟩ := reporting_connect os hf hfd hlog hr
  refine ⟨?_, fun htrue => ?_, reported_iff hf hc (fun hsettled => ?_) ops⟩
  · rcases (hc.performAll hf ops : (run ops).Reporting).phase with ⟨-, h⟩ | ⟨-, h⟩
    · rw [h]
      exact Nat.zero_le 1
    · exact h
  · rcases success_reported hf hc htrue with h | h
    · rw [hout] at h
      split at h
      · next hdone => exact .inl hdone
      · cases h
    · exact .inr h
  · rcases hc.phase with ⟨hs, -⟩ | ⟨-, -⟩
    · exact absurd hs hsettled.1
    · rw [hout]
      split
      · exact nofun
      · next hdone =>
          -- a connect that is in progress is not settled
          cases r with
          | invalid => exact absurd rfl hr
          | done => exact absurd rfl hdone
          | inProgress =>
              have hconnect : c.connect os cb .inProgress = { c with state := .kConnecting } :=
                if_neg (not_lt.mpr hfd)
              rw [hconnect] at hsettled
              exact absurd rfl hsettled.1

/-- The callbacks of a client, as far as the connect goes: the outcome is kept as the application
state. -/
def clientCallbacks : Callbacks (Option Bool) where
  connect := some fun _ success => (some success, [])

/-- A connect refused later on, with `EPOLLERR` and `EPOLLHUP` coming behind the writable event. -/
theorem connect_outcome_iff_refused :
    let os : Os := { write := fun _ => .accepted 0, modify := fun _ => true }
    let c : Connection (Option Bool) := { app := none, fd := 5 }
    let run := (c.connect os clientCallbacks .inProgress).performAll os clientCallbacks
    let ops : List Operation := [.handleRead {}, .handleWrite { soError := true }, .handleError]
    (outcomes (run ops).log).length ≤ 1 ∧ ∀ ops₁ ops₂, ops = ops₁ ++ ops₂ →
      (run ops₁).state = .kDisconnected → outcomes (run ops₁).log ≠ [] := by
  intro os c run ops
  have hf : clientCallbacks.connect = some fun _ success => (some success, []) := rfl
  have hr : ConnectResult.inProgress ≠ .invalid := nofun
  obtain ⟨honce, -, hiff⟩ := connect_outcome_iff os hf (c := c) (by decide) rfl hr ops
  refine ⟨honce, hiff.mp ⟨?_, ?_, ?_, trivial⟩⟩
  · rintro ⟨-, h⟩
    cases h
  · exact fun h => h.2
  · exact fun h => h.2

/-- A peer that accepts and closes at once: the first event brings `EPOLLIN` with `EPOLLOUT`,
`HandleRead` comes first and reads the end of file, and nothing is ever reported. -/
theorem connect_outcome_fails_on_eof :
    ¬ ∀ (os : Os) (cb : Callbacks (Option Bool)) (c : Connection (Option Bool)) (ops : List Operation),
      cb.connect.isSome → 0 ≤ c.fd → outcomes c.log = [] →
      let c' := (c.connect os cb .inProgress).performAll os cb ops
      c'.state = .kDisconnected → outcomes c'.log ≠ [] := by
  intro hall
  exact hall { write := fun _ => .accepted 0, modify := fun _ => true } clientCallbacks
    { app := none, fd := 5 } [.handleRead { reads := [.bytes []] }, .handleWrite {}] rfl (by decide) rfl
    (by decide) (by decide)

end NetworkLib.Connection
