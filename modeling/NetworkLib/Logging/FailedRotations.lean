import NetworkLib.Logging.FileSink
import NetworkLib.Theory.Slots
import NetworkLib.Theory.Trace

/-! # Rotations that fail

`Rotate` once more, with a filesystem in which every `remove` and every `rename` can throw. The
handler swallows the exception where it is thrown, so that the backups stay as far as they got; the
log file is as large as before, and the next `Write` rotates again. An attempt that fails moves the
backups without losing any, but for `path.N`, which it removes first. So they outlast attempts that
fail as long as at most one of these attempts finds a `path.N` (`backupsKept_iff`). -/

namespace NetworkLib.FileSink

variable {ε : Type*}

/-- Which operations throw during a rotation. -/
structure Faults where
  /-- The `remove` of the oldest backup. -/
  remove : Bool := false
  /-- The `rename` of the backup with this number. -/
  rename : ℕ → Bool := fun _ => false
  /-- The `rename` of the log file. -/
  current : Bool := false

section

variable (c : Config ε) (faults : Faults)

/-- The loop of `Rotate`, from `i` down to 1: the files it leaves, and whether it went through. -/
def shiftWith (fs : FileSystem) : ℕ → FileSystem × Bool
  | 0 => (fs, true)
  | i + 1 =>
      if fs.exists' (backup c (i + 1)) then
        -- what is thrown here leaves the backups above already shifted
        if faults.rename (i + 1) then (fs, false)
        else shiftWith ((fs.rename (backup c (i + 1)) (backup c (i + 2))).getD fs) i
      else shiftWith fs i

/-- The last renaming of `Rotate`, which throws as well where there is no log file. -/
def renameCurrentWith (fs : FileSystem) : FileSystem × Bool :=
  if faults.current then (fs, false)
  else ((fs.rename c.path (backup c 1)).getD fs, fs.exists' c.path)

/-- The try block of `Rotate` from its loop on. -/
def shiftAllWith (fs : FileSystem) : FileSystem × Bool :=
  let shifted := shiftWith c faults fs (c.maxBackups - 1).toNat
  if shifted.2 then renameCurrentWith c faults shifted.1 else shifted

/-- The try block of `Rotate`, with its handler. -/
def renameFilesWith (fs : FileSystem) : FileSystem × Bool :=
  let oldest := backup c c.maxBackups.toNat
  if 0 < c.maxBackups ∧ fs.exists' oldest then
    if faults.remove then (fs, false) else shiftAllWith c faults (fs.remove oldest)
  else shiftAllWith c faults fs

/-- `Rotate`. -/
def rotateWith (s : FileSink) : FileSink :=
  let s := s.close
  open' c { s with fs := (renameFilesWith c faults s.fs).1 }

end

section

variable (c : Config ε)

/-- `Write`, with the faults of its rotation. -/
def writeWith (s : FileSink) (w : ε × Faults) : FileSink :=
  let s := if Rotates c s then rotateWith c w.2 s else s
  { s with
    fs := if s.isOpen then s.fs.append c.path (line c w.1) else s.fs
    currentSize := s.currentSize + (c.format w.1).length + 1 }

/-- The backups, from `path.1` to `path.N`. -/
def backups (fs : FileSystem) : List Bytes :=
  Slots.listing (fun i => fs (file c i)) c.maxBackups.toNat

/-- If `Write` rotates the files, the log file does not get to be `path.1`. -/
def Fails (s : FileSink) (w : ε × Faults) : Prop :=
  Rotates c s → (renameFilesWith c w.2 s.fs).2 = false

/-- `Write` rotates the files, there is a `path.N`, and to remove it does not fail. -/
def RemovesOldest (s : FileSink) (w : ε × Faults) : Prop :=
  Rotates c s ∧ s.fs.exists' (backup c c.maxBackups.toNat) ∧ w.2.remove = false

instance (s : FileSink) (w : ε × Faults) : Decidable (RemovesOldest c s w) :=
  inferInstanceAs (Decidable (_ ∧ _ ∧ _))

/-- How many times a run removes a `path.N`. -/
def removals (s : FileSink) : List (ε × Faults) → ℕ
  | [] => 0
  | w :: ws => (if RemovesOldest c s w then 1 else 0) + removals (writeWith c s w) ws

end

/-- All backups are there, in the same order, but for the oldest at most. -/
def Kept (before after : List Bytes) : Prop := after = before ∨ after = before.dropLast

instance (before after : List Bytes) : Decidable (Kept before after) :=
  inferInstanceAs (Decidable (_ ∨ _))

variable {c : Config ε} {faults : Faults}

/-! ## Without faults -/

/-- Without a fault in a rename, all backups are shifted. -/
theorem shiftWith_eq (hrename : ∀ i, faults.rename i = false) (fs : FileSystem) (k : ℕ) :
    shiftWith c faults fs k = (shift c fs k, true) := by
  induction k generalizing fs with
  | zero => rfl
  | succ k ih =>
      rw [shiftWith, shift, hrename]
      split
      · exact ih _
      · exact ih _

/-- **Without faults it is the sink as it was.** -/
theorem writeWith_default (s : FileSink) (entry : ε) : writeWith c s (entry, {}) = write c s entry := by
  have hshift : ∀ fs k, shiftWith c {} fs k = (shift c fs k, true) := shiftWith_eq fun _ => rfl
  have hrename : ∀ fs, (renameFilesWith c {} fs).1 = renameFiles c fs := by
    intro fs
    rw [renameFilesWith, renameFiles]
    split <;> simp [shiftAllWith, hshift, renameCurrentWith]
  have hrotate : rotateWith c {} s = rotate c s := by
    rw [rotateWith, rotate, hrename]
  rw [writeWith, write, hrotate]

/-! ## One attempt -/

/-- **The loop moves backups and loses none**, wherever it stops. -/
theorem backups_shiftWith (fs : FileSystem) (k : ℕ) (hk : k + 1 ≤ c.maxBackups.toNat)
    (hfree : fs (file c (k + 1)) = none) :
    backups c (shiftWith c faults fs k).1 = backups c fs := by
  -- Induction on the backups still to move, from the highest number down.
  induction k generalizing fs with
  | zero => rfl
  | succ k ih =>
      rw [shiftWith]
      split
      · split
        · rfl
        · -- the backup moves to the free place behind it, and leaves its own one free
          have hmoved := rename_getD fs (file c (k + 1)) (file c (k + 2))
          rw [hfree, Option.or_none] at hmoved
          rw [← file_succ, ← file_succ, ih _ (by omega)]
          · apply Slots.listing_move (i := k + 1) (by omega) hk hfree
            · rw [hmoved, if_pos rfl]
            · rw [hmoved, if_neg (file_injective.ne (by omega)), if_pos rfl]
            · intro j _ hj hj'
              rw [hmoved, if_neg (file_injective.ne hj'), if_neg (file_injective.ne hj)]
          · rw [hmoved, if_neg (file_injective.ne (by omega)), if_pos rfl]
      · next hnone =>
          apply ih _ (by omega)
          rw [FileSystem.exists', Bool.not_eq_true, Option.isSome_eq_false_iff,
            Option.isNone_iff_eq_none] at hnone
          exact hnone

/-- The same of the loop and a last renaming that fails. -/
theorem backups_shiftAllWith {fs : FileSystem} (hbackups : 1 ≤ c.maxBackups)
    (hfree : fs (file c c.maxBackups.toNat) = none) (hfails : (shiftAllWith c faults fs).2 = false) :
    backups c (shiftAllWith c faults fs).1 = backups c fs := by
  obtain ⟨k, hk⟩ : ∃ k : ℕ, c.maxBackups.toNat = k + 1 := ⟨c.maxBackups.toNat - 1, by omega⟩
  have hloop : (c.maxBackups - 1).toNat = k := by omega
  rw [hk] at hfree
  have hshifted : backups c (shiftWith c faults fs k).1 = backups c fs :=
    backups_shiftWith fs k hk.ge hfree
  rw [shiftAllWith, hloop] at hfails ⊢
  split
  · next hthrough =>
      rw [if_pos hthrough, renameCurrentWith] at hfails
      rw [renameCurrentWith]
      split
      · exact hshifted
      · next hcurrent =>
          rw [if_neg hcurrent, FileSystem.exists', Option.isSome_eq_false_iff,
            Option.isNone_iff_eq_none] at hfails
          rw [FileSystem.rename, hfails]
          exact hshifted
  · exact hshifted

/-- **An attempt that fails loses the oldest backup at most**, and that only if it is `path.N`. -/
theorem backups_renameFilesWith {fs : FileSystem} (hbackups : 1 ≤ c.maxBackups)
    (hfails : (renameFilesWith c faults fs).2 = false) :
    ∃ lost, backups c fs = backups c (renameFilesWith c faults fs).1 ++ lost ∧
      lost.length =
        if fs.exists' (backup c c.maxBackups.toNat) ∧ faults.remove = false then 1 else 0 := by
  obtain ⟨k, hk⟩ : ∃ k : ℕ, c.maxBackups.toNat = k + 1 := ⟨c.maxBackups.toNat - 1, by omega⟩
  rw [renameFilesWith] at hfails ⊢
  by_cases hexists : fs.exists' (backup c c.maxBackups.toNat) = true
  · have hcond : 0 < c.maxBackups ∧ fs.exists' (backup c c.maxBackups.toNat) = true :=
      ⟨by omega, hexists⟩
    rw [if_pos hcond] at hfails ⊢
    cases hremove : faults.remove with
    | true => exact ⟨[], by simp⟩
    | false =>
        rw [hremove] at hfails
        rw [if_neg Bool.false_ne_true] at hfails ⊢
        -- the file is gone before the loop begins, which then finds the place free
        have hname : backup c c.maxBackups.toNat = file c (k + 1) := by rw [hk, file_succ]
        have hremoved : ∀ j, fs.remove (backup c c.maxBackups.toNat) (file c j)
            = if j = k + 1 then none else fs (file c j) := by
          intro j
          rw [FileSystem.remove, hname, Function.update_apply]
          simp only [file_injective.eq_iff]
        have hsame := backups_shiftAllWith hbackups (by rw [hremoved, hk, if_pos rfl]) hfails
        refine ⟨(fs (file c (k + 1))).toList, ?_, ?_⟩
        · rw [hsame, backups, backups, hk]
          apply Slots.listing_free
          · rw [← hk, hremoved, if_pos hk]
          · intro j _ hj
            rw [← hk, hremoved, if_neg (by omega)]
        · rw [if_pos ⟨hexists, rfl⟩]
          rw [FileSystem.exists', hname] at hexists
          rw [Option.length_toList, if_pos hexists]
  · have hcond : ¬ (0 < c.maxBackups ∧ fs.exists' (backup c c.maxBackups.toNat) = true) :=
      fun h => hexists h.2
    rw [if_neg hcond] at hfails ⊢
    rw [if_neg fun h => hexists h.1]
    refine ⟨[], ?_, rfl⟩
    rw [List.append_nil, backups_shiftAllWith hbackups ?_ hfails]
    rw [FileSystem.exists', Bool.not_eq_true, Option.isSome_eq_false_iff,
      Option.isNone_iff_eq_none] at hexists
    rw [hk, file_succ, ← hk, hexists]

/-! ## Runs -/

/-- To open the log file, or to write to it, is nothing to the backups. -/
theorem backups_update (fs : FileSystem) (content : Option Bytes) :
    backups c (Function.update fs c.path content) = backups c fs := by
  apply Slots.listing_congr
  intro i hi _
  obtain ⟨j, rfl⟩ : ∃ j, i = j + 1 := ⟨i - 1, by omega⟩
  exact Function.update_of_ne (file_succ_ne_path j) _ _

/-- A write leaves the backups that its rotation leaves. -/
theorem backups_writeWith (s : FileSink) (w : ε × Faults) :
    backups c (writeWith c s w).fs =
      backups c (if Rotates c s then (renameFilesWith c w.2 s.fs).1 else s.fs) := by
  have hwritten : ∀ t : FileSink,
      backups c (if t.isOpen then t.fs.append c.path (line c w.1) else t.fs) = backups c t.fs := by
    intro t
    split
    · exact backups_update _ _
    · rfl
  rw [writeWith]
  split
  · rw [hwritten]
    exact backups_update _ _
  · exact hwritten s

/-- **What a run of writes loses** whose attempts to rotate all fail: as many of the oldest backups
as it finds files `path.N` and removes them. -/
theorem backups_run (hbackups : 1 ≤ c.maxBackups) (s : FileSink) (ws : List (ε × Faults))
    (hfails : Trace.Always (writeWith c) (Fails c) s ws) :
    ∃ lost, backups c s.fs = backups c (Trace.run (writeWith c) s ws).fs ++ lost ∧
      lost.length = removals c s ws := by
  induction ws generalizing s with
  | nil => exact ⟨[], by simp [removals]⟩
  | cons w ws ih =>
      obtain ⟨lost, hlost, hlength⟩ := ih _ hfails.2
      rw [Trace.run_cons, removals]
      rw [backups_writeWith] at hlost
      by_cases hrotates : Rotates c s
      · -- what this attempt loses is behind what the later ones lose
        rw [if_pos hrotates] at hlost
        obtain ⟨first, hfirst, hone⟩ := backups_renameFilesWith hbackups (hfails.1 hrotates)
        refine ⟨lost ++ first, ?_, ?_⟩
        · rw [hfirst, hlost, List.append_assoc]
        · rw [List.length_append, hone, hlength, Nat.add_comm]
          simp only [RemovesOldest, hrotates, true_and]
      · rw [if_neg hrotates] at hlost
        refine ⟨lost, hlost, ?_⟩
        rw [hlength, if_neg fun h => hrotates h.1, Nat.zero_add]

/-- An attempt that fails at the log file alone leaves every backup one further on, and no `path.1`.
-/
theorem renameFilesWith_current {fs : FileSystem} (hbackups : 1 ≤ c.maxBackups)
    (hremove : faults.remove = false) (hrename : ∀ i, faults.rename i = false)
    (hcurrent : faults.current = true) {j : ℕ} (hj : 1 ≤ j) (hN : j ≤ c.maxBackups.toNat) :
    (renameFilesWith c faults fs).1 (file c j) = if j = 1 then none else fs (file c (j - 1)) := by
  obtain ⟨k, hk⟩ : ∃ k : ℕ, c.maxBackups.toNat = k + 1 := ⟨c.maxBackups.toNat - 1, by omega⟩
  have hloop : (c.maxBackups - 1).toNat = k := by omega
  have hshift : ∀ fs' : FileSystem, (∀ i ≤ k, fs' (file c i) = fs (file c i)) →
      fs' (file c (k + 1)) = none →
      (shiftAllWith c faults fs').1 (file c j) = if j = 1 then none else fs (file c (j - 1)) := by
    intro fs' hsame hfree
    rw [shiftAllWith, hloop, shiftWith_eq hrename, if_pos rfl, renameCurrentWith, if_pos hcurrent]
    dsimp only
    rw [shift_spec fs' k hfree, if_neg (by omega)]
    split
    · rfl
    · exact hsame (j - 1) (by omega)
  rw [renameFilesWith, hremove, hk, ← file_succ]
  split
  · rw [if_neg Bool.false_ne_true]
    apply hshift
    · intro i hi
      exact Function.update_of_ne (file_injective.ne (by omega)) _ _
    · exact Function.update_self _ _ _
  · next hnone =>
      apply hshift fs fun _ _ => rfl
      rw [not_and, FileSystem.exists', Bool.not_eq_true, Option.isSome_eq_false_iff,
        Option.isNone_iff_eq_none] at hnone
      exact hnone (by omega)

/-- **What attempts lose that all fail at the log file alone**: each of them the backup with the
highest number, so that of `N` numbers the first `N - k` are left after `k` attempts. -/
theorem backups_run_current (hbackups : 1 ≤ c.maxBackups) (s : FileSink) (ws : List (ε × Faults))
    (hfails : Trace.Always (writeWith c) (fun s w => Rotates c s ∧ w.2.remove = false ∧
      (∀ i, w.2.rename i = false) ∧ w.2.current = true) s ws) :
    backups c (Trace.run (writeWith c) s ws).fs
      = Slots.listing (fun i => s.fs (file c i)) (c.maxBackups.toNat - ws.length) := by
  -- Induction on the failed attempts: each moves every backup up by one, and nothing into the first
  -- place.
  induction ws generalizing s with
  | nil => rfl
  | cons w ws ih =>
      obtain ⟨hrotates, hremove, hrename, hcurrent⟩ := hfails.1
      rw [Trace.run_cons, ih _ hfails.2, List.length_cons]
      have hmoved : ∀ i, 1 ≤ i → i ≤ c.maxBackups.toNat →
          (writeWith c s w).fs (file c i) = if i = 1 then none else s.fs (file c (i - 1)) := by
        intro i hi hN
        have hne : file c i ≠ c.path := by
          rw [← file_zero c]
          exact file_injective.ne (by omega)
        rw [← renameFilesWith_current hbackups hremove hrename hcurrent hi hN, writeWith,
          if_pos hrotates]
        exact (Function.update_of_ne hne _ _).trans (Function.update_of_ne hne _ _)
      cases hleft : c.maxBackups.toNat - ws.length with
      | zero =>
          -- the last backup has been pushed out before
          rw [Nat.sub_add_eq, hleft]
          rfl
      | succ n =>
          rw [Nat.sub_add_eq, hleft, Nat.add_sub_cancel]
          apply Slots.listing_shift
          · exact (hmoved 1 le_rfl (by omega)).trans (if_pos rfl)
          · intro i hi hin
            exact (hmoved (i + 1) (by omega) (by omega)).trans (if_neg (by omega))

/-- Of a list, its front is all but the last at most. -/
theorem kept_append_iff (after lost : List Bytes) : Kept (after ++ lost) after ↔ lost.length ≤ 1 := by
  constructor
  · rintro (h | h)
    · have hlength := congrArg List.length h
      rw [List.length_append] at hlength
      omega
    · have hlength := congrArg List.length h
      rw [List.length_dropLast, List.length_append] at hlength
      omega
  · intro h
    rcases Nat.le_one_iff_eq_zero_or_eq_one.mp h with h | h
    · rw [List.length_eq_zero_iff] at h
      rw [h, List.append_nil]
      exact .inl rfl
    · obtain ⟨content, rfl⟩ := List.length_eq_one_iff.mp h
      exact .inr List.dropLast_concat.symm

/-- **When the backups outlast attempts that fail.** For every sink and all files, let the writes of
a run have their attempts to rotate fail, each at any of its operations. All the backups are there
afterwards, in the same order, but for the oldest at most, if and only if at most one of the
attempts finds a `path.N` and removes it. -/
theorem backupsKept_iff (hbackups : 1 ≤ c.maxBackups) (s : FileSink) (ws : List (ε × Faults))
    (hfails : Trace.Always (writeWith c) (Fails c) s ws) :
    Kept (backups c s.fs) (backups c (Trace.run (writeWith c) s ws).fs) ↔ removals c s ws ≤ 1 := by
  obtain ⟨lost, hlost, hlength⟩ := backups_run hbackups s ws hfails
  rw [hlost, kept_append_iff, hlength]

/-- **Attempts that fail at the log file alone** leave all the backups but for the oldest at most,
if and only if at most one of the backups with the highest numbers, as many as there are attempts,
exists at the beginning. -/
theorem backupsKept_current_iff (hbackups : 1 ≤ c.maxBackups) (s : FileSink) (ws : List (ε × Faults))
    (hfails : Trace.Always (writeWith c) (fun s w => Rotates c s ∧ w.2.remove = false ∧
      (∀ i, w.2.rename i = false) ∧ w.2.current = true) s ws) :
    Kept (backups c s.fs) (backups c (Trace.run (writeWith c) s ws).fs) ↔
      ((List.range' (c.maxBackups.toNat - ws.length + 1) (min ws.length c.maxBackups.toNat)).countP
        fun i => (s.fs (file c i)).isSome) ≤ 1 := by
  obtain ⟨lost, hlost, hlength⟩ := Slots.listing_beyond (fun i => s.fs (file c i))
    (Nat.sub_le c.maxBackups.toNat ws.length)
  have hcount : c.maxBackups.toNat - (c.maxBackups.toNat - ws.length)
      = min ws.length c.maxBackups.toNat := by omega
  rw [hcount] at hlength
  rw [backups_run_current hbackups s ws hfails, backups, hlost, kept_append_iff, hlength]

/-- One backup of three, and three attempts that fail at the log file: the backup is moved to
`log.2` and to `log.3`, and is the oldest when the last attempt removes it. -/
theorem backupsKept_iff_three :
    let c : Config Bytes := ⟨"log", 1, 3, id⟩
    let fs : FileSystem := Function.update (Function.update (fun _ => none)
      "log" (some [1])) "log.1" (some [2])
    let s := create c fs
    let ws : List (Bytes × Faults) :=
      [([3], { current := true }), ([4], { current := true }), ([5], { current := true })]
    (Trace.run (writeWith c) s (ws.take 2)).fs "log.3" = some [2] ∧ removals c s ws = 1 ∧
      Kept (backups c s.fs) (backups c (Trace.run (writeWith c) s ws).fs) := by
  intro c fs s ws
  have hremovals : removals c s ws = 1 := by decide
  refine ⟨by decide, hremovals, ?_⟩
  refine (backupsKept_iff (c := c) (by decide) s ws ⟨?_, ?_, ?_, trivial⟩).mpr hremovals.le
  · intro _
    decide
  · intro _
    decide
  · intro _
    decide

/-- Two backups of two, and two attempts that fail at the log file: the first removes `log.2` and
moves `log.1` to its place, and the second removes that. -/
theorem backups_lost :
    let c : Config Bytes := ⟨"log", 1, 2, id⟩
    let fs : FileSystem := Function.update (Function.update (Function.update (fun _ => none)
      "log" (some [1])) "log.1" (some [2])) "log.2" (some [3])
    let s := create c fs
    let ws : List (Bytes × Faults) := [([4], { current := true }), ([5], { current := true })]
    Trace.Always (writeWith c) (Fails c) s ws ∧ backups c s.fs = [[2], [3]] ∧
      backups c (Trace.run (writeWith c) s ws).fs = [] ∧
      ¬ Kept (backups c s.fs) (backups c (Trace.run (writeWith c) s ws).fs) := by
  intro c fs s ws
  refine ⟨⟨?_, ?_, trivial⟩, by decide, by decide, by decide⟩
  · intro _
    decide
  · intro _
    decide

end NetworkLib.FileSink
