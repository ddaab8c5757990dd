import NetworkLib.Core.Closing
import NetworkLib.Core.OutputStream

/-! # Shutting down with output pending

`Shutdown` half-closes the socket when nothing is left to write, and otherwise only notes that the
connection is disconnecting. No code takes the half-close up again when the output has been written,
and `Send` goes on buffering, so that a shutdown is graceful exactly if it finds nothing to write
and nothing is sent after it. -/

namespace NetworkLib.Connection

open Relation

variable {σ : Type*} {os : Os} {cb : Callbacks σ} {c c' : Connection σ}

/-- What a graceful shutdown asks of a state between two operations: the socket was half-closed only
when everything sent so far had been written, nothing was accepted for sending after that, and it
was half-closed once if the connection is disconnecting with nothing left to write. -/
structure Graceful (c : Connection σ) : Prop where
  flushed : ∀ before after, c.log = before ++ .shutdown :: after →
    wire before = (sends before).flatMap Prod.snd ∧ (sends after).flatMap Prod.snd = []
  once : c.state = .kDisconnecting → c.outputBuffer = [] → c.log.count .shutdown = 1

/-- Nothing was sent between two states of a connection. -/
def SendsNothing (c c' : Connection σ) : Prop :=
  ∀ later, c'.log = c.log ++ later → (sends later).flatMap Prod.snd = []

/-- A connection that is not connected is not half-closed by any move. -/
theorem PlainMove.log_of_not_connected (h : PlainMove os c c') (hs : c.state ≠ .kConnected) :
    ∃ later, c'.log = c.log ++ later ∧ .shutdown ∉ later := by
  cases h with
  | out h =>
      cases h with
      | send data => exact ⟨_, send_log_of_not_connected os hs none data, by simp⟩
      | shutdown =>
          have hsame : c.shutdown = c := if_neg hs
          exact ⟨[], by rw [hsame, List.append_nil], List.not_mem_nil⟩
      | close =>
          refine ⟨_, rfl, ?_⟩
          split <;> simp
      | closeNotify =>
          refine ⟨_, List.append_assoc .., ?_⟩
          split <;> simp
      | write => exact ⟨_, rfl, by simp⟩
      | disarm =>
          obtain ⟨_, _, h⟩ := modifyFd_eq os c {}
          exact ⟨[], by rw [h, List.append_nil], List.not_mem_nil⟩
  | read => exact ⟨_, rfl, by simp⟩
  | eof => exact ⟨_, rfl, by simp⟩
  | messageCallback => exact ⟨_, rfl, by simp⟩
  | onMessage hs' => exact absurd hs' hs

/-- Nor by some moves. -/
theorem PlainMoves.log_of_not_connected (h : PlainMoves os c c') (hs : c.state ≠ .kConnected) :
    ∃ later, c'.log = c.log ++ later ∧ .shutdown ∉ later := by
  induction h with
  | refl => exact ⟨[], (List.append_nil _).symm, List.not_mem_nil⟩
  | tail hab hbc ih =>
      obtain ⟨later, hlater, hnone⟩ := ih
      obtain ⟨later', hlater', hnone'⟩ :=
        PlainMove.log_of_not_connected hbc (PlainMoves.not_connected hab hs)
      refine ⟨later ++ later', by rw [hlater', hlater, List.append_assoc], ?_⟩
      rw [List.mem_append]
      exact not_or_intro hnone hnone'

/-- `Shutdown` of a connected connection. -/
theorem shutdown_of_connected (hs : c.state = .kConnected) :
    c.shutdown.state = .kDisconnecting ∧
      c.shutdown.log = if c.outputBuffer = [] then c.log ++ [.shutdown] else c.log := by
  unfold shutdown
  rw [if_pos hs]
  by_cases hout : c.outputBuffer = []
  · rw [if_pos (by rw [hout]; rfl), if_pos hout]
    exact ⟨rfl, rfl⟩
  · rw [if_neg (fun h => hout (List.length_eq_zero_iff.mp h)), if_neg hout]
    exact ⟨rfl, rfl⟩

/-- **When a shutdown is graceful.** Let `Shutdown` be called on a connected connection. Whatever is
performed after that, and whatever the callbacks call in turn, consists of plain moves; and in every
state reached by such moves the shutdown is graceful if it found nothing left to write and nothing
was sent after it. When the connection is disconnecting with nothing left to write, it is graceful
only then. -/
theorem graceful_iff (os : Os) (hs : c.state = .kConnected) (hintact : c.Intact)
    (hlog : .shutdown ∉ c.log) :
    (∀ (cb : Callbacks σ) (ops : List Operation),
      PlainMoves os c.shutdown (c.shutdown.performAll os cb ops)) ∧
    ∀ c', PlainMoves os c.shutdown c' →
      (c.outputBuffer = [] ∧ SendsNothing c c' → c'.Graceful) ∧
      (c'.state = .kDisconnecting → c'.outputBuffer = [] →
        (c'.Graceful ↔ c.outputBuffer = [] ∧ SendsNothing c c')) := by
  obtain ⟨hstate, hdown⟩ := shutdown_of_connected hs
  have hsettled : c.shutdown.Settled := by
    unfold Settled
    rw [hstate]
    exact ⟨nofun, nofun⟩
  refine ⟨fun cb ops => plainMoves_performAll os cb hsettled ops, fun c' hmoves => ?_⟩
  obtain ⟨later, hlater, hnone⟩ := hmoves.log_of_not_connected (by rw [hstate]; exact nofun)
  rw [hdown] at hlater
  -- with nothing to write the half-close is done at once, and is the last of it
  have hgraceful : c.outputBuffer = [] ∧ SendsNothing c c' → c'.Graceful := by
    rintro ⟨hout, hquiet⟩
    rw [if_pos hout, List.append_assoc, List.singleton_append] at hlater
    refine ⟨fun before after hsplit => ?_, fun _ _ => ?_⟩
    · rw [hlater] at hsplit
      obtain ⟨rfl, -, rfl⟩ := (List.append_cons_inj_of_notMem hlog hnone).mp hsplit
      have hsent := hquiet _ hlater
      rw [Intact, hout, List.append_nil] at hintact
      exact ⟨hintact, hsent⟩
    · rw [hlater, List.count_append, List.count_cons_self, List.count_eq_zero.mpr hlog,
        List.count_eq_zero.mpr hnone]
  refine ⟨hgraceful, fun hs' hout' => ⟨fun h => ?_, hgraceful⟩⟩
  -- the one half-close can only be that of the call itself
  have honce := h.once hs' hout'
  by_cases hout : c.outputBuffer = []
  · rw [if_pos hout, List.append_assoc, List.singleton_append] at hlater
    refine ⟨hout, fun later' hlater' => ?_⟩
    rw [hlater, List.append_cancel_left_eq] at hlater'
    rw [← hlater']
    exact (h.flushed _ _ hlater).2
  · rw [if_neg hout] at hlater
    rw [hlater, List.count_append, List.count_eq_zero.mpr hlog,
      List.count_eq_zero.mpr hnone] at honce
    cases honce

/-- A connection that has sent two bytes and flushed them, and reads one more after its shutdown. -/
theorem graceful_iff_flushed :
    let os : Os := { write := fun _ => .accepted 0, modify := fun _ => true }
    let c : Connection Unit :=
      { app := (), fd := 5, state := .kConnected, log := [.send none [1, 2], .write [1, 2]] }
    (c.shutdown.performAll os {} [.handleWrite {}, .handleRead { reads := [.bytes [7]] }]).Graceful := by
  intro os c
  obtain ⟨hmoves, hgraceful⟩ := graceful_iff os (c := c) rfl rfl (by decide)
  refine (hgraceful _ (hmoves {} _)).1 ⟨rfl, ?_⟩
  intro later hlater
  have hlog : (c.shutdown.performAll os {} [.handleWrite {}, .handleRead { reads := [.bytes [7]] }]).log
      = c.log ++ [.shutdown, .read [7]] := by decide
  rw [hlog, List.append_cancel_left_eq] at hlater
  rw [← hlater]
  rfl

/-- `Shutdown` with one byte left to write, which the next `HandleWrite` writes: the connection is
disconnecting with nothing left to write, and is never half-closed. -/
theorem graceful_fails_with_pending_output :
    ¬ ∀ (os : Os) (cb : Callbacks Unit) (c : Connection Unit) (ops : List Operation),
      c.state = .kConnected → c.Intact → .shutdown ∉ c.log →
      (c.shutdown.performAll os cb ops).Graceful := by
  intro hall
  have hgraceful := hall { write := fun _ => .accepted 0, modify := fun _ => true } {}
    { app := (), fd := 5, state := .kConnected, outputBuffer := [1], log := [.send none [1]] }
    [.handleWrite {}] rfl rfl (by decide)
  exact absurd (hgraceful.once (by decide) (by decide)) (by decide)

end NetworkLib.Connection
