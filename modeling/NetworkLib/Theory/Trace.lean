import Mathlib.Tactic

/-! # Runs of a state machine

A deterministic machine is a function `step : σ → ε → σ`, and a **run** is a fold of it over a list
of events. `Always step P s es` says that `P` holds of every event together with the state it finds.
From what one step preserves, the rules below give what a whole run preserves: an invariant, a
simulation of a machine that sees only some of the events, the exchange of one condition for another
along a run, and a verdict on the run that its last state shows. -/

namespace NetworkLib.Trace

variable {σ ε : Type*}

/-- The state after the events. -/
def run (step : σ → ε → σ) (s : σ) (es : List ε) : σ := es.foldl step s

/-- Every event meets the condition `P`, in the state it finds. -/
def Always (step : σ → ε → σ) (P : σ → ε → Prop) : σ → List ε → Prop
  | _, [] => True
  | s, e :: es => P s e ∧ Always step P (step s e) es

variable {step : σ → ε → σ} {P Q : σ → ε → Prop} {s : σ}

@[simp] theorem run_nil (s : σ) : run step s [] = s := rfl

@[simp] theorem run_cons (s : σ) (e : ε) (es : List ε) :
    run step s (e :: es) = run step (step s e) es := rfl

/-- A run may be taken in two parts. -/
theorem run_append (s : σ) (es es' : List ε) :
    run step s (es ++ es') = run step (run step s es) es' := List.foldl_append

/-- A condition that always holds. -/
theorem always_true (es : List ε) : Always step (fun _ _ => True) s es := by
  induction es generalizing s with
  | nil => trivial
  | cons e es ih => exact ⟨trivial, ih⟩

/-- A condition that holds of every event in any state. -/
theorem always_of_forall {es : List ε} (h : ∀ s, ∀ e ∈ es, P s e) : Always step P s es := by
  induction es generalizing s with
  | nil => trivial
  | cons e es ih =>
      exact ⟨h s e List.mem_cons_self, ih fun s e he => h s e (List.mem_cons_of_mem _ he)⟩

@[simp] theorem always_nil (s : σ) : Always step P s [] := trivial

@[simp] theorem always_cons (s : σ) (e : ε) (es : List ε) :
    Always step P s (e :: es) ↔ P s e ∧ Always step P (step s e) es := Iff.rfl

/-- So may what holds at every step. -/
theorem always_append (s : σ) (es es' : List ε) :
    Always step P s (es ++ es') ↔ Always step P s es ∧ Always step P (run step s es) es' := by
  induction es generalizing s with
  | nil => simp
  | cons e es ih => rw [List.cons_append, always_cons, always_cons, run_cons, ih, and_assoc]

/-- **Rule of invariants.** -/
theorem run_invariant {I : σ → Prop} (hstep : ∀ s e, I s → P s e → I (step s e)) {es : List ε}
    (hs : I s) (hP : Always step P s es) : I (run step s es) := by
  induction es generalizing s with
  | nil => exact hs
  | cons e es ih => exact ih (hstep s e hs hP.1) hP.2

/-- The rule of invariants without a condition on the events. -/
theorem run_preserves {I : σ → Prop} (hstep : ∀ s e, I s → I (step s e)) (hs : I s)
    (es : List ε) : I (run step s es) := by
  induction es generalizing s with
  | nil => exact hs
  | cons e es ih => exact ih (hstep s e hs)

/-- **Rule of exchange.** When, in the states satisfying an invariant that `P` and `Q` each carry
along, an event meets `P` exactly if it meets `Q`, then so do all events of a run. -/
theorem always_congr {I : σ → Prop} (hiff : ∀ s e, I s → (P s e ↔ Q s e))
    (hstep : ∀ s e, I s → P s e → I (step s e)) {es : List ε} (hs : I s) :
    Always step P s es ↔ Always step Q s es := by
  induction es generalizing s with
  | nil => rfl
  | cons e es ih =>
      rw [always_cons, always_cons]
      constructor
      · rintro ⟨he, hes⟩
        exact ⟨(hiff s e hs).mp he, (ih (hstep s e hs he)).mp hes⟩
      · rintro ⟨he, hes⟩
        have he' := (hiff s e hs).mpr he
        exact ⟨he', (ih (hstep s e hs he')).mpr hes⟩

/-- **Rule of verdicts.** When the events that meet `P` keep a state good, the first one that does
not makes it bad, and a bad state stays bad, the state after a run tells whether all events of the
run met `P`. -/
theorem run_verdict {I G B : σ → Prop} (hI : ∀ s e, I s → I (step s e))
    (hgood : ∀ s e, I s → G s → P s e → G (step s e))
    (hbreak : ∀ s e, I s → G s → ¬ P s e → B (step s e))
    (hbad : ∀ s e, I s → B s → B (step s e)) (hs : I s) (hG : G s) (es : List ε) :
    Always step P s es ∧ G (run step s es) ∨ ¬ Always step P s es ∧ B (run step s es) := by
  induction es generalizing s with
  | nil => exact .inl ⟨trivial, hG⟩
  | cons e es ih =>
      rw [always_cons, run_cons]
      by_cases he : P s e
      · rcases ih (hI s e hs) (hgood s e hs hG he) with ⟨hes, hgood⟩ | ⟨hes, hbad⟩
        · exact .inl ⟨⟨he, hes⟩, hgood⟩
        · exact .inr ⟨fun h => hes h.2, hbad⟩
      · -- broken here, whatever follows
        have hstay := run_preserves (I := fun s => I s ∧ B s)
          (fun s e h => ⟨hI s e h.1, hbad s e h.1 h.2⟩) ⟨hI s e hs, hbreak s e hs hG he⟩ es
        exact .inr ⟨fun h => he h.1, hstay.2⟩

/-- The first event that breaks a condition. -/
theorem exists_of_not_always {es : List ε} (h : ¬ Always step P s es) :
    ∃ es₁ e es₂, es = es₁ ++ e :: es₂ ∧ ¬ P (run step s es₁) e := by
  induction es generalizing s with
  | nil => exact absurd trivial h
  | cons e es ih =>
      by_cases he : P s e
      · obtain ⟨es₁, e', es₂, rfl, he'⟩ := ih fun hes => h ⟨he, hes⟩
        exact ⟨e :: es₁, e', es₂, rfl, he'⟩
      · exact ⟨[], e, es, rfl, he⟩

/-- **Rule of the first change.** Where a property that held is lost, some event has broken it. -/
theorem exists_break {I : σ → Prop} {es : List ε} (hs : I s) (h : ¬ I (run step s es)) :
    ∃ es₁ e es₂, es = es₁ ++ e :: es₂ ∧ I (run step s es₁) ∧ ¬ I (step (run step s es₁) e) := by
  induction es generalizing s with
  | nil => exact absurd hs h
  | cons e es ih =>
      by_cases he : I (step s e)
      · obtain ⟨es₁, e', es₂, rfl, hbefore, hafter⟩ := ih he h
        exact ⟨e :: es₁, e', es₂, rfl, hbefore, hafter⟩
      · exact ⟨[], e, es, rfl, hs, he⟩

/-- **Rule of consequence along a run.** -/
theorem always_of_invariant {I : σ → Prop} (himp : ∀ s e, I s → P s e → Q s e)
    (hstep : ∀ s e, I s → P s e → I (step s e)) {es : List ε} (hs : I s)
    (hP : Always step P s es) : Always step Q s es := by
  induction es generalizing s with
  | nil => trivial
  | cons e es ih => exact ⟨himp s e hs hP.1, ih (hstep s e hs hP.1) hP.2⟩

variable {τ δ : Type*} {step' : τ → δ → τ} {keep : ε → Option δ} {t : τ}

/-- **Rule of simulation by a part of the events.** The second machine sees `d` for the events that
`keep` maps to `some d`, and nothing for the others. -/
theorem run_filterMap {R : σ → τ → Prop}
    (hkeep : ∀ s t e d, R s t → P s e → keep e = some d → R (step s e) (step' t d))
    (hskip : ∀ s t e, R s t → P s e → keep e = none → R (step s e) t) {es : List ε} (hR : R s t)
    (hP : Always step P s es) : R (run step s es) (run step' t (es.filterMap keep)) := by
  induction es generalizing s t with
  | nil => exact hR
  | cons e es ih =>
      cases hk : keep e with
      | none =>
          rw [List.filterMap_cons_none hk]
          exact ih (hskip s t e hR hP.1 hk) hP.2
      | some d =>
          rw [List.filterMap_cons_some hk]
          exact ih (hkeep s t e d hR hP.1 hk) hP.2

/-! ## What a run puts out -/

section Outputs

variable {γ : Type*} {out : σ → ε → List γ}

/-- What the steps of a run put out, in order. -/
def outputs (step : σ → ε → σ) (out : σ → ε → List γ) : σ → List ε → List γ
  | _, [] => []
  | s, e :: es => out s e ++ outputs step out (step s e) es

@[simp] theorem outputs_nil (s : σ) : outputs step out s [] = [] := rfl

@[simp] theorem outputs_cons (s : σ) (e : ε) (es : List ε) :
    outputs step out s (e :: es) = out s e ++ outputs step out (step s e) es := rfl

/-- So may what comes out. -/
theorem outputs_append (s : σ) (es es' : List ε) :
    outputs step out s (es ++ es') = outputs step out s es ++ outputs step out (run step s es) es' := by
  induction es generalizing s with
  | nil => rfl
  | cons e es ih => rw [List.cons_append, outputs_cons, outputs_cons, run_cons, ih, List.append_assoc]

/-- What is put out is put out by one of the steps. -/
theorem exists_of_mem_outputs {c : γ} {es : List ε} (h : c ∈ outputs step out s es) :
    ∃ s', ∃ e ∈ es, c ∈ out s' e := by
  induction es generalizing s with
  | nil => exact absurd h List.not_mem_nil
  | cons e es ih =>
      rcases List.mem_append.mp h with h | h
      · exact ⟨s, e, List.mem_cons_self, h⟩
      · obtain ⟨s', e', he', hc⟩ := ih h
        exact ⟨s', e', List.mem_cons_of_mem _ he', hc⟩

end Outputs

end NetworkLib.Trace
