import Mathlib.Logic.Function.Basic
import Mathlib.Data.List.Basic

/-! # Machines that answer, and one such machine for every key

A machine answers each request and goes on to another state; the **transcript** of a run lists the
requests with their answers. Where the state is a table of such machines, and a request for a key is
served by the machine of that key, the requests for one key and their answers are what that machine
alone makes of them (`transcript_own`). -/

namespace NetworkLib.Keyed

variable {κ σ τ α β : Type*}

/-- The requests of a run with their answers. -/
def transcript (step : σ → α → σ × β) : σ → List α → List (α × β)
  | _, [] => []
  | s, a :: as => (a, (step s a).2) :: transcript step (step s a).1 as

@[simp] theorem transcript_nil (step : σ → α → σ × β) (s : σ) : transcript step s [] = [] := rfl

@[simp] theorem transcript_cons (step : σ → α → σ × β) (s : σ) (a : α) (as : List α) :
    transcript step s (a :: as) = (a, (step s a).2) :: transcript step (step s a).1 as := rfl

/-- **Two machines with equal answers in related states have equal transcripts.** -/
theorem transcript_congr {step : σ → α → σ × β} {step' : τ → α → τ × β} {R : σ → τ → Prop}
    (hstep : ∀ s t a, R s t → (step s a).2 = (step' t a).2 ∧ R (step s a).1 (step' t a).1)
    {s : σ} {t : τ} (h : R s t) (as : List α) : transcript step s as = transcript step' t as := by
  induction as generalizing s t with
  | nil => rfl
  | cons a as ih =>
      obtain ⟨hanswer, hnext⟩ := hstep s t a h
      rw [transcript_cons, transcript_cons, hanswer, ih hnext]

variable [DecidableEq κ]

/-- A request for a key is served by the machine of that key. -/
def serve (step : σ → α → σ × β) (m : κ → σ) (request : κ × α) : (κ → σ) × β :=
  (Function.update m request.1 (step (m request.1) request.2).1,
    (step (m request.1) request.2).2)

/-- The requests for one key. -/
def own (k : κ) (requests : List (κ × α)) : List α :=
  requests.filterMap fun request => if request.1 = k then some request.2 else none

/-- The part of a transcript that is about one key. -/
def ownTranscript (k : κ) (entries : List ((κ × α) × β)) : List (α × β) :=
  entries.filterMap fun entry => if entry.1.1 = k then some (entry.1.2, entry.2) else none

/-- A key's own request is the first of its requests. -/
theorem own_cons_self (k : κ) (a : α) (requests : List (κ × α)) :
    own k ((k, a) :: requests) = a :: own k requests :=
  List.filterMap_cons_some (if_pos rfl)

/-- The request of another key is none of them. -/
theorem own_cons_of_ne {k : κ} {request : κ × α} (h : request.1 ≠ k) (requests : List (κ × α)) :
    own k (request :: requests) = own k requests :=
  List.filterMap_cons_none (if_neg h)

/-- The same of the requests with their answers. -/
theorem ownTranscript_cons_self (k : κ) (a : α) (b : β) (entries : List ((κ × α) × β)) :
    ownTranscript k (((k, a), b) :: entries) = (a, b) :: ownTranscript k entries :=
  List.filterMap_cons_some (if_pos rfl)

/-- The same of an entry of another key. -/
theorem ownTranscript_cons_of_ne {k : κ} {entry : (κ × α) × β} (h : entry.1.1 ≠ k)
    (entries : List ((κ × α) × β)) :
    ownTranscript k (entry :: entries) = ownTranscript k entries :=
  List.filterMap_cons_none (if_neg h)

/-- A key's requests are some of all, in their order. -/
theorem own_sublist (k : κ) (requests : List (κ × α)) :
    (own k requests).Sublist (requests.map Prod.snd) := by
  induction requests with
  | nil => exact List.Sublist.slnil
  | cons request requests ih =>
      obtain ⟨k', a⟩ := request
      by_cases h : k' = k
      · rw [h, own_cons_self, List.map_cons]
        exact ih.cons_cons a
      · rw [own_cons_of_ne h, List.map_cons]
        exact ih.cons a

/-- The requests for the other keys may as well not be there. -/
theorem own_filter (k : κ) (requests : List (κ × α)) :
    own k (requests.filter fun request => request.1 = k) = own k requests := by
  induction requests with
  | nil => rfl
  | cons request requests ih =>
      obtain ⟨k', a⟩ := request
      by_cases h : k' = k
      · rw [List.filter_cons_of_pos (by simpa using h), h, own_cons_self, own_cons_self, ih]
      · rw [List.filter_cons_of_neg (by simpa using h), own_cons_of_ne h, ih]

/-- **The answers to one key do not depend on the requests for the others.** -/
theorem transcript_own (step : σ → α → σ × β) (k : κ) (m : κ → σ) (requests : List (κ × α)) :
    ownTranscript k (transcript (serve step) m requests)
      = transcript step (m k) (own k requests) := by
  induction requests generalizing m with
  | nil => rfl
  | cons request requests ih =>
      obtain ⟨k', a⟩ := request
      rw [transcript_cons]
      by_cases h : k' = k
      · subst h
        rw [ownTranscript_cons_self, own_cons_self, transcript_cons, ih]
        simp only [serve, Function.update_self]
      · rw [ownTranscript_cons_of_ne h, own_cons_of_ne h, ih]
        simp only [serve, Function.update_of_ne (Ne.symm h)]

end NetworkLib.Keyed
