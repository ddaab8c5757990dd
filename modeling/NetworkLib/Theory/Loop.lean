import Mathlib.Logic.Relation
import Mathlib.Tactic

/-! # Loops with an explicit exit

A `while` loop whose body may also leave by `break`, `return` or an exception is a function
`body : σ → Turn σ`: one turn either goes round again in a new state or leaves the loop in a final
one. `iterate body fuel` runs at most `fuel` turns; a loop **exits** when some fuel is enough
(`Exits`), and a loop whose turns lower a `rank : σ → ℕ` always does, so it has a total form
`run body rank`. -/

namespace NetworkLib.Loop

variable {σ : Type*}

/-- The outcome of one turn of a loop: another turn in a new state, or the exit in a final one. -/
inductive Turn (σ : Type*) where
  /-- The turn completed and the loop condition is evaluated again. -/
  | again (s : σ)
  /-- The loop is left, by its condition, a `break`, a `return` or an exception. -/
  | leave (s : σ)
  deriving DecidableEq, Repr

/-- Run a loop for at most `fuel` turns: its final state, or `none` when the fuel runs out first. -/
def iterate (body : σ → Turn σ) : ℕ → σ → Option σ
  | 0, _ => none
  | fuel + 1, s =>
      match body s with
      | .leave t => some t
      | .again t => iterate body fuel t

/-- The loop started in `s` terminates, in state `t`. -/
def Exits (body : σ → Turn σ) (s t : σ) : Prop := ∃ fuel, iterate body fuel s = some t

/-- The state `t` is at the head of some turn of the loop started in `s`. -/
def Reaches (body : σ → Turn σ) : σ → σ → Prop :=
  Relation.ReflTransGen fun s t => body s = .again t

variable {body : σ → Turn σ} {s t u : σ}

/-- A body that leaves ends the iteration. -/
theorem iterate_succ_leave (h : body s = .leave t) (fuel : ℕ) :
    iterate body (fuel + 1) s = some t := by
  rw [iterate, h]

/-- A body that does not takes one unit of fuel. -/
theorem iterate_succ_again (h : body s = .again t) (fuel : ℕ) :
    iterate body (fuel + 1) s = iterate body fuel t := by
  rw [iterate, h]

/-- More fuel does not change a result. -/
theorem iterate_mono {n m : ℕ} (hnm : n ≤ m) (h : iterate body n s = some t) :
    iterate body m s = some t := by
  induction n generalizing s m with
  | zero => simp [iterate] at h
  | succ n ih =>
      obtain ⟨m, rfl⟩ : ∃ k, m = k + 1 := ⟨m - 1, by omega⟩
      cases hb : body s with
      | leave r =>
          rw [iterate_succ_leave hb] at h ⊢
          exact h
      | again r =>
          rw [iterate_succ_again hb] at h ⊢
          exact ih (by omega) h

/-- A loop has at most one final state. -/
theorem Exits.unique (ht : Exits body s t) (hu : Exits body s u) : t = u := by
  obtain ⟨n, hn⟩ := ht
  obtain ⟨m, hm⟩ := hu
  have hn' := iterate_mono (le_max_left n m) hn
  rw [iterate_mono (le_max_right n m) hm] at hn'
  exact (Option.some.inj hn').symm

/-- A loop whose body leaves exits. -/
theorem Exits.leave (h : body s = .leave t) : Exits body s t := ⟨1, iterate_succ_leave h 0⟩

/-- A turn that goes round again changes nothing about where the loop exits. -/
theorem exits_again_iff (h : body s = .again t) : Exits body s u ↔ Exits body t u := by
  constructor
  · rintro ⟨fuel, hf⟩
    cases fuel with
    | zero => simp [iterate] at hf
    | succ fuel => exact ⟨fuel, by rwa [iterate_succ_again h] at hf⟩
  · rintro ⟨fuel, hf⟩
    exact ⟨fuel + 1, by rwa [iterate_succ_again h]⟩

/-- It exits in that state alone. -/
theorem exits_leave_iff (h : body s = .leave t) : Exits body s u ↔ u = t :=
  ⟨fun hu => hu.unique (.leave h), fun hu => hu ▸ .leave h⟩

/-- A loop exits from the last of the states its turns reach. -/
theorem exits_iff_reaches : Exits body s t ↔ ∃ u, Reaches body s u ∧ body u = .leave t := by
  constructor
  · rintro ⟨fuel, hf⟩
    induction fuel generalizing s with
    | zero => simp [iterate] at hf
    | succ fuel ih =>
        cases hb : body s with
        | leave r =>
            rw [iterate_succ_leave hb] at hf
            exact ⟨s, .refl, by rw [hb, Option.some.inj hf]⟩
        | again r =>
            rw [iterate_succ_again hb] at hf
            obtain ⟨u, hu, hleave⟩ := ih hf
            exact ⟨u, .head hb hu, hleave⟩
  · rintro ⟨u, hu, hleave⟩
    induction hu using Relation.ReflTransGen.head_induction_on with
    | refl => exact .leave hleave
    | head hb _ ih => exact (exits_again_iff hb).mpr ih

/-- **Rule of invariants for the turns of a loop.** -/
theorem Reaches.invariant {P : σ → Prop} (hstep : ∀ s t, P s → body s = .again t → P t)
    (h : Reaches body s t) (hs : P s) : P t := by
  induction h with
  | refl => exact hs
  | tail _ hb ih => exact hstep _ _ ih hb

/-- A loop that comes back to a state never exits from it: the same turns repeat for ever. -/
theorem not_exits_of_again_self (h : body s = .again s) : ¬ Exits body s t := by
  rintro ⟨fuel, hf⟩
  induction fuel with
  | zero => simp [iterate] at hf
  | succ fuel ih => exact ih (by rwa [iterate_succ_again h] at hf)

/-- **Rule of ranked termination.** When every turn that goes round lowers `rank`, fuel
`rank s + 1` is enough. -/
theorem iterate_isSome_of_rank (rank : σ → ℕ)
    (hrank : ∀ s t, body s = .again t → rank t < rank s) {fuel : ℕ} (hfuel : rank s < fuel) :
    (iterate body fuel s).isSome := by
  induction fuel generalizing s with
  | zero => omega
  | succ fuel ih =>
      cases hb : body s with
      | leave r => rw [iterate_succ_leave hb]; rfl
      | again r =>
          rw [iterate_succ_again hb]
          have := hrank s r hb
          exact ih (by omega)

/-- The final state of a loop ranked by `rank`. -/
def run (body : σ → Turn σ) (rank : σ → ℕ) (s : σ) : σ :=
  (iterate body (rank s + 1) s).getD s

/-- A ranked loop exits in `run body rank s`. -/
theorem exits_run (rank : σ → ℕ) (hrank : ∀ s t, body s = .again t → rank t < rank s) (s : σ) :
    Exits body s (run body rank s) := by
  have hsome := iterate_isSome_of_rank rank hrank (Nat.lt_succ_self (rank s))
  obtain ⟨t, ht⟩ := Option.isSome_iff_exists.mp hsome
  refine ⟨rank s + 1, ?_⟩
  rw [run, ht, Option.getD_some]

/-- Running a body that leaves gives the state it leaves in. -/
theorem run_of_leave (rank : σ → ℕ) (h : body s = .leave t) : run body rank s = t := by
  rw [run, iterate_succ_leave h, Option.getD_some]

/-- Running one that does not goes on from the next state. -/
theorem run_of_again (rank : σ → ℕ) (hrank : ∀ s t, body s = .again t → rank t < rank s)
    (h : body s = .again t) : run body rank s = run body rank t :=
  ((exits_again_iff h).mp (exits_run rank hrank s)).unique (exits_run rank hrank t)

/-- A ranked loop exits in `run body rank s` only. -/
theorem exits_iff_run_eq (rank : σ → ℕ) (hrank : ∀ s t, body s = .again t → rank t < rank s) :
    Exits body s t ↔ run body rank s = t :=
  ⟨fun ht => (exits_run rank hrank s).unique ht, fun ht => ht ▸ exits_run rank hrank s⟩

/-- **Rule of invariants for one execution of a ranked loop.** An invariant of the turns that go
round, which every exit turns into `Q`, gives `Q` of the final state. -/
theorem run_induction (rank : σ → ℕ) (hrank : ∀ s t, body s = .again t → rank t < rank s)
    {P Q : σ → Prop} (hagain : ∀ s t, P s → body s = .again t → P t)
    (hleave : ∀ s t, P s → body s = .leave t → Q t) (s : σ) (hs : P s) :
    Q (run body rank s) := by
  induction hn : rank s using Nat.strongRecOn generalizing s with
  | _ n ih =>
      cases hb : body s with
      | leave t =>
          rw [run_of_leave rank hb]
          exact hleave s t hs hb
      | again t =>
          rw [run_of_again rank hrank hb]
          exact ih (rank t) (hn ▸ hrank s t hb) t (hagain s t hs hb) rfl

/-! ## States seen during an execution -/

/-- The state `t` is seen during the loop started in `s`: at the head of a turn, or at the end. -/
def Visits (body : σ → Turn σ) (s t : σ) : Prop := Reaches body s t ∨ Exits body s t

/-- The states visited are this one and those visited from the next. -/
theorem visits_again_iff (h : body s = .again t) : Visits body s u ↔ u = s ∨ Visits body t u := by
  rw [Visits, Visits, exits_again_iff h]
  constructor
  · rintro (hreaches | hexits)
    · rcases hreaches.cases_head with rfl | ⟨v, hv, hrest⟩
      · exact .inl rfl
      · rw [h] at hv
        cases hv
        exact .inr (.inl hrest)
    · exact .inr (.inr hexits)
  · rintro (rfl | hreaches | hexits)
    · exact .inl .refl
    · exact .inl (.head h hreaches)
    · exact .inr hexits

/-- At the end they are this one and the one left in. -/
theorem visits_leave_iff (h : body s = .leave t) : Visits body s u ↔ u = s ∨ u = t := by
  rw [Visits, exits_leave_iff h]
  refine or_congr_left ⟨fun hreaches => ?_, fun heq => heq ▸ .refl⟩
  rcases hreaches.cases_head with rfl | ⟨v, hv, -⟩
  · rfl
  · rw [h] at hv
    cases hv

/-- What is not so yet is seen later. -/
theorem exists_visits_again_iff {P : σ → Prop} (h : body s = .again t) (hs : ¬ P s) :
    (∃ u, Visits body s u ∧ P u) ↔ ∃ u, Visits body t u ∧ P u := by
  refine exists_congr fun u => ?_
  rw [visits_again_iff h, or_and_right]
  apply or_iff_right
  rintro ⟨rfl, hu⟩
  exact hs hu

/-- Then a property this state lacks is met in the one left in. -/
theorem exists_visits_leave_iff {P : σ → Prop} (h : body s = .leave t) (hs : ¬ P s) :
    (∃ u, Visits body s u ∧ P u) ↔ P t := by
  constructor
  · rintro ⟨u, hu, hP⟩
    rcases (visits_leave_iff h).mp hu with rfl | rfl
    · exact absurd hP hs
    · exact hP
  · intro hP
    exact ⟨t, (visits_leave_iff h).mpr (.inr rfl), hP⟩

/-! ## Two loops in lockstep -/

variable {τ : Type*} {body' : τ → Turn τ} {R : σ → τ → Prop}

/-- Two outcomes of a turn agree up to `R`. -/
inductive Turn.Rel (R : σ → τ → Prop) : Turn σ → Turn τ → Prop where
  | again {s : σ} {t : τ} : R s t → Rel R (.again s) (.again t)
  | leave {s : σ} {t : τ} : R s t → Rel R (.leave s) (.leave t)

/-- **Rule of simulation for one execution.** When `R` carries over every turn, it holds of the
final states. -/
theorem run_rel {rank : σ → ℕ} {rank' : τ → ℕ}
    (hrank : ∀ s t, body s = .again t → rank t < rank s)
    (hrank' : ∀ s t, body' s = .again t → rank' t < rank' s)
    (hstep : ∀ s t, R s t → (body s).Rel R (body' t)) {s : σ} {t : τ} (h : R s t) :
    R (run body rank s) (run body' rank' t) := by
  -- Induction on the rank of the first loop; both turn, or both are left.
  induction hn : rank s using Nat.strongRecOn generalizing s t with
  | _ n ih =>
      have hrel := hstep s t h
      cases hb : body s with
      | leave u =>
          cases hb' : body' t with
          | leave v =>
              rw [hb, hb'] at hrel
              cases hrel with
              | leave huv =>
                  rw [run_of_leave rank hb, run_of_leave rank' hb']
                  exact huv
          | again v =>
              rw [hb, hb'] at hrel
              cases hrel
      | again u =>
          cases hb' : body' t with
          | leave v =>
              rw [hb, hb'] at hrel
              cases hrel
          | again v =>
              rw [hb, hb'] at hrel
              cases hrel with
              | again huv =>
                  rw [run_of_again rank hrank hb, run_of_again rank' hrank' hb']
                  exact ih (rank u) (hn ▸ hrank s u hb) huv rfl

end NetworkLib.Loop
