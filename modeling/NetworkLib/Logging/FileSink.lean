import NetworkLib.Theory.NetworkOrder
import NetworkLib.Theory.Numerals
import NetworkLib.Theory.Segments

/-! # The file sink

`FileSink`: a log file with backups. `Write` rotates the files once the log file has reached
`rotation_size_`, and appends a line. The filesystem is a map from names to contents; its operations
do what they should, and `rename` alone fails, where there is no source. The text of an entry
(`LogFormatter::Format`) is a parameter.

Seen through the file names, the log is one list of lines cut into segments: `path` holds the newest
segment, `path.1` the one before it, and so on to `path.N` (`Shows`). Rotating the files starts a
new segment (`shows_write`). -/

namespace NetworkLib

/-- The files by name. -/
abbrev FileSystem := String → Option Bytes

namespace FileSystem

/-- `std::filesystem::exists`. -/
def exists' (fs : FileSystem) (name : String) : Bool := (fs name).isSome

/-- `std::filesystem::remove`. -/
def remove (fs : FileSystem) (name : String) : FileSystem := Function.update fs name none

/-- `std::filesystem::rename`, which replaces the destination. It throws where there is no source.
-/
def rename (fs : FileSystem) (src dst : String) : Option FileSystem :=
  (fs src).map fun content => Function.update (Function.update fs src none) dst (some content)

/-- Opening a file at its end creates it if it does not exist. -/
def openApp (fs : FileSystem) (name : String) : FileSystem :=
  Function.update fs name (some ((fs name).getD []))

/-- `std::filesystem::file_size`. -/
def fileSize (fs : FileSystem) (name : String) : ℕ := ((fs name).getD []).length

/-- Bytes written at the end of a file. -/
def append (fs : FileSystem) (name : String) (bytes : Bytes) : FileSystem :=
  Function.update fs name (some ((fs name).getD [] ++ bytes))

end FileSystem

namespace FileSink

/-- What `LoggerConfig` sets for the sink. -/
structure Config (ε : Type*) where
  /-- `file_path`. -/
  path : String
  /-- `rotation_size`. -/
  rotationSize : ℕ
  /-- `max_backups`. -/
  maxBackups : ℤ
  /-- `LogFormatter::Format`. -/
  format : ε → Bytes

end FileSink

/-- `FileSink`, and the files it works on. -/
structure FileSink where
  fs : FileSystem
  /-- `file_.is_open()`. -/
  isOpen : Bool := false
  /-- `current_size_`. -/
  currentSize : ℕ := 0

namespace FileSink

variable {ε : Type*} (c : Config ε)

/-- The name of a backup. -/
def backup (i : ℕ) : String := c.path ++ "." ++ toString i

/-- The line that is written for an entry. -/
def line (entry : ε) : Bytes := c.format entry ++ [10]

/-- `Open`. -/
def open' (s : FileSink) : FileSink :=
  let fs := s.fs.openApp c.path
  { fs, isOpen := true, currentSize := fs.fileSize c.path }

/-- `Close`. -/
def close (s : FileSink) : FileSink := { s with isOpen := false }

/-- The loop of `Rotate`, from `i` down to 1: every backup that exists is renamed to the next. -/
def shift (fs : FileSystem) : ℕ → FileSystem
  | 0 => fs
  | i + 1 =>
      -- the source exists, so the renaming does not throw
      let fs := if fs.exists' (backup c (i + 1)) then
        (fs.rename (backup c (i + 1)) (backup c (i + 2))).getD fs else fs
      shift fs i

/-- The try block of `Rotate`, with its handler: the last renaming alone can throw. -/
def renameFiles (fs : FileSystem) : FileSystem :=
  let oldest := backup c c.maxBackups.toNat
  let fs := if 0 < c.maxBackups ∧ fs.exists' oldest then fs.remove oldest else fs
  let fs := shift c fs (c.maxBackups - 1).toNat
  (fs.rename c.path (backup c 1)).getD fs

/-- `Rotate`. -/
def rotate (s : FileSink) : FileSink :=
  let s := s.close
  open' c { s with fs := renameFiles c s.fs }

/-- `Write` begins with `Rotate`. -/
def Rotates (s : FileSink) : Prop := 0 < c.rotationSize ∧ c.rotationSize ≤ s.currentSize

instance (s : FileSink) : Decidable (Rotates c s) := inferInstanceAs (Decidable (_ ∧ _))

/-- `Write`. -/
def write (s : FileSink) (entry : ε) : FileSink :=
  let s := if Rotates c s then rotate c s else s
  { s with
    fs := if s.isOpen then s.fs.append c.path (line c entry) else s.fs
    currentSize := s.currentSize + (c.format entry).length + 1 }

/-- The sink that the constructor makes. -/
def create (fs : FileSystem) : FileSink := open' c { fs }

/-- The sink after it has written some entries. -/
def run (s : FileSink) (entries : List ε) : FileSink := entries.foldl (write c) s

/-- How many entries had been written before each rotation, where `written` were before the run. -/
def rotations (s : FileSink) (written : ℕ) : List ε → List ℕ
  | [] => []
  | entry :: entries =>
      (if Rotates c s then [written] else []) ++ rotations (write c s entry) (written + 1) entries

/-! ## The names -/

/-- The log file and its backups: the file with number `i`. -/
def file (i : ℕ) : String := if i = 0 then c.path else backup c i

@[simp] theorem file_zero : file c 0 = c.path := rfl

@[simp] theorem file_succ (i : ℕ) : file c (i + 1) = backup c (i + 1) := rfl

variable {c}

/-- A backup is not the log file. -/
theorem backup_ne_path (i : ℕ) : backup c i ≠ c.path := by
  intro h
  have hlength := congrArg String.length h
  simp only [backup, String.length_append] at hlength
  have hdot : ".".length = 1 := rfl
  omega

/-- Nor is it under its number. -/
theorem file_succ_ne_path (i : ℕ) : file c (i + 1) ≠ c.path := backup_ne_path (i + 1)

/-- Different numbers are different files. -/
theorem file_injective : Function.Injective (file c) := by
  intro i j h
  cases i with
  | zero =>
      cases j with
      | zero => rfl
      | succ j => exact absurd h.symm (backup_ne_path (j + 1))
  | succ i =>
      cases j with
      | zero => exact absurd h (backup_ne_path (i + 1))
      | succ j =>
          have htext : toString (i + 1) = toString (j + 1) := (String.append_right_inj _).mp h
          exact natRepr_injective htext

/-! ## Renaming the files -/

/-- What a renaming leaves, if it throws as well. -/
theorem rename_getD (fs : FileSystem) (src dst name : String) :
    (fs.rename src dst).getD fs name =
      if name = dst then (fs src).or (fs dst) else if name = src then none else fs name := by
  cases hsrc : fs src with
  | none =>
      have hthrows : fs.rename src dst = none := by
        rw [FileSystem.rename, hsrc]
        rfl
      rw [hthrows, Option.getD_none, Option.none_or]
      split
      · next h => rw [h]
      · split
        · next h => rw [h, hsrc]
        · rfl
  | some content =>
      have hmoves : fs.rename src dst
          = some (Function.update (Function.update fs src none) dst (some content)) := by
        rw [FileSystem.rename, hsrc]
        rfl
      rw [hmoves, Option.getD_some, Option.some_or, Function.update_apply, Function.update_apply]

/-- The loop of `Rotate` once more, without the test whether a backup exists. -/
theorem shift_succ (fs : FileSystem) (i : ℕ) :
    shift c fs (i + 1)
      = shift c ((fs.rename (file c (i + 1)) (file c (i + 2))).getD fs) i := by
  rw [shift]
  split
  · rfl
  · next h =>
      have hnone : fs (backup c (i + 1)) = none := by
        rw [FileSystem.exists', Bool.not_eq_true, Option.isSome_eq_false_iff, Option.isNone_iff_eq_none] at h
        exact h
      rw [file_succ, file_succ, FileSystem.rename, hnone]
      rfl

/-- **What the loop leaves**: every backup one further on, and none with number 1. -/
theorem shift_spec (fs : FileSystem) (k : ℕ) (hfree : fs (file c (k + 1)) = none) (j : ℕ) :
    shift c fs k (file c j) =
      if j = 0 ∨ k + 1 < j then fs (file c j)
      else if j = 1 then none else fs (file c (j - 1)) := by
  induction k generalizing fs with
  | zero =>
      rw [shift]
      split
      · rfl
      · have hj : j = 1 := by omega
        rw [if_pos hj, hj]
        exact hfree
  | succ k ih =>
      have hmoved := rename_getD fs (file c (k + 1)) (file c (k + 2))
      rw [hfree, Option.or_none] at hmoved
      have hgone : (fs.rename (file c (k + 1)) (file c (k + 2))).getD fs (file c (k + 1)) = none := by
        rw [hmoved, if_neg (file_injective.ne (by omega)), if_pos rfl]
      rw [shift_succ, ih _ hgone]
      simp only [hmoved, file_injective.eq_iff]
      grind

/-- **What the renamings leave**: no log file, and every file that was there one further on, but for
the oldest. -/
theorem renameFiles_spec {fs : FileSystem} (hbackups : 1 ≤ c.maxBackups)
    (hpath : (fs c.path).isSome) (j : ℕ) :
    renameFiles c fs (file c j) =
      if j = 0 then none
      else if j ≤ c.maxBackups.toNat then fs (file c (j - 1)) else fs (file c j) := by
  obtain ⟨k, hk⟩ : ∃ k : ℕ, c.maxBackups = k + 1 := ⟨(c.maxBackups - 1).toNat, by omega⟩
  have htoNat : c.maxBackups.toNat = k + 1 := by omega
  have hloop : (c.maxBackups - 1).toNat = k := by omega
  -- the oldest backup is gone before the loop begins
  have hremoved : ∀ name, (if 0 < c.maxBackups ∧ fs.exists' (backup c (k + 1)) then
      fs.remove (backup c (k + 1)) else fs) name = if name = file c (k + 1) then none else fs name := by
    intro name
    split
    · rw [FileSystem.remove, Function.update_apply, file_succ]
    · next h =>
        have hnone : fs (file c (k + 1)) = none := by
          rw [not_and, FileSystem.exists', Bool.not_eq_true, Option.isSome_eq_false_iff,
            Option.isNone_iff_eq_none] at h
          exact h (by omega)
        split
        · next hname => rw [hname, hnone]
        · rfl
  have hshifted := shift_spec _ k ((hremoved (file c (k + 1))).trans (if_pos rfl))
  rw [renameFiles, htoNat, hloop, rename_getD, ← file_succ, ← file_zero c]
  simp only [hshifted, hremoved, file_injective.eq_iff]
  obtain ⟨content, hcontent⟩ := Option.isSome_iff_exists.mp hpath
  rw [← file_zero c] at hcontent
  grind

/-! ## The log behind the files -/

/-- The bytes of some entries in the log. -/
def text (c : Config ε) (entries : List ε) : Bytes := entries.flatMap (line c)

/-- A segment of the log that has reached the size of a rotation. -/
def Full (c : Config ε) (entries : List ε) : Prop := c.rotationSize ≤ (text c entries).length

instance (entries : List ε) : Decidable (Full c entries) := inferInstanceAs (Decidable (_ ≤ _))

variable (c) in
/-- **The files show the newest segments of the log**, and the sink knows the size of its file. -/
structure Shows (s : FileSink) (segments : List (List ε)) : Prop where
  isOpen : s.isOpen = true
  nonempty : segments ≠ []
  currentSize : s.currentSize = (text c (segments.headD [])).length
  files : ∀ i, s.fs (file c i) =
    if i ≤ c.maxBackups.toNat then segments[i]?.map (text c) else none

/-- The constructor opens an empty log. -/
theorem shows_create {fs : FileSystem} (hnone : ∀ i, fs (file c i) = none) :
    Shows c (create c fs) [[]] := by
  have hpath : fs c.path = none := hnone 0
  refine ⟨rfl, List.cons_ne_nil _ _, ?_, ?_⟩
  · simp [create, open', FileSystem.fileSize, FileSystem.openApp, hpath, text]
  · intro i
    simp only [create, open', FileSystem.openApp, Function.update_apply, ← file_zero c,
      file_injective.eq_iff, hnone]
    cases i with
    | zero => simp [text]
    | succ i => simp

/-- **A rotation starts a new segment.** -/
theorem shows_rotate {s : FileSink} {segments : List (List ε)} (hbackups : 1 ≤ c.maxBackups)
    (h : Shows c s segments) : Shows c (rotate c s) ([] :: segments) := by
  have hhead := h.files 0
  rw [if_pos (Nat.zero_le _)] at hhead
  have hpath : (s.fs c.path).isSome := by
    rw [← file_zero c, hhead]
    cases hsegments : segments with
    | nil => exact absurd hsegments h.nonempty
    | cons newest older => rfl
  have hrenamed := renameFiles_spec hbackups hpath
  have hgone : renameFiles c s.fs c.path = none := hrenamed 0
  refine ⟨rfl, List.cons_ne_nil _ _, ?_, ?_⟩
  · simp [rotate, open', close, FileSystem.fileSize, FileSystem.openApp, hgone, text]
  · intro i
    simp only [rotate, open', close, FileSystem.openApp, Function.update_apply]
    cases i with
    | zero => simp [hgone, text]
    | succ i =>
        rw [if_neg (file_succ_ne_path i), hrenamed, if_neg (by omega)]
        split
        · -- one of the kept backups
          rw [Nat.add_sub_cancel, h.files, if_pos (by omega), List.getElem?_cons_succ]
        · rw [h.files, if_neg (by assumption)]

/-- **A line appended is one more entry of the newest segment.** -/
theorem shows_append {s : FileSink} {newest : List ε} {older : List (List ε)}
    (h : Shows c s (newest :: older)) (entry : ε) :
    Shows c { s with
        fs := if s.isOpen then s.fs.append c.path (line c entry) else s.fs
        currentSize := s.currentSize + (c.format entry).length + 1 }
      ((newest ++ [entry]) :: older) := by
  have hpath : s.fs c.path = some (text c newest) := h.files 0
  have htext : text c (newest ++ [entry]) = text c newest ++ line c entry := by
    simp [text]
  refine ⟨h.isOpen, List.cons_ne_nil _ _, ?_, ?_⟩
  · have hsize : s.currentSize = (text c newest).length := h.currentSize
    simp only [List.headD_cons, htext, hsize, List.length_append, line, List.length_singleton]
    exact Nat.add_assoc _ _ _
  · intro i
    simp only [h.isOpen, if_true, FileSystem.append, Function.update_apply]
    cases i with
    | zero =>
        rw [file_zero, if_pos rfl, hpath, Option.getD_some, if_pos (Nat.zero_le _)]
        exact congrArg some htext.symm
    | succ i =>
        rw [if_neg (file_succ_ne_path i), h.files]
        rfl

variable (c) in
/-- A rotation comes before a write exactly when the newest segment is full. -/
theorem rotates_iff {s : FileSink} {segments : List (List ε)} (hsize : 1 ≤ c.rotationSize)
    (h : Shows c s segments) : Rotates c s ↔ Full c (segments.headD []) := by
  rw [Rotates, Full, h.currentSize]
  exact and_iff_right hsize

/-- **Writing an entry adds it to the log.** -/
theorem shows_write {s : FileSink} {segments : List (List ε)} (hbackups : 1 ≤ c.maxBackups)
    (hsize : 1 ≤ c.rotationSize) (h : Shows c s segments) (entry : ε) :
    Shows c (write c s entry) (Segments.add (Full c) segments entry) := by
  have hrotates := rotates_iff c hsize h
  cases segments with
  | nil => exact absurd rfl h.nonempty
  | cons newest older =>
      rw [List.headD_cons] at hrotates
      rw [Segments.add_cons, write]
      by_cases hfull : Full c newest
      · rw [if_pos (hrotates.mpr hfull), if_pos hfull]
        exact shows_append (shows_rotate hbackups h) entry
      · rw [if_neg (fun hr => hfull (hrotates.mp hr)), if_neg hfull]
        exact shows_append h entry

/-! ## Runs -/

/-- **After every run the files show the newest segments of what has been written.** -/
theorem shows_run (hbackups : 1 ≤ c.maxBackups) (hsize : 1 ≤ c.rotationSize) {fs : FileSystem}
    (hnone : ∀ i, fs (file c i) = none) (entries : List ε) :
    Shows c (run c (create c fs) entries) (Segments.cut (Full c) entries) := by
  induction entries using List.reverseRecOn with
  | nil => exact shows_create hnone
  | append_singleton entries entry ih =>
      rw [run, List.foldl_append, Segments.cut_concat]
      exact shows_write hbackups hsize ih entry

/-- One more entry rotates once, or not. -/
theorem rotations_concat (s : FileSink) (written : ℕ) (entries : List ε) (entry : ε) :
    rotations c s written (entries ++ [entry]) = rotations c s written entries
      ++ if Rotates c (run c s entries) then [written + entries.length] else [] := by
  induction entries generalizing s written with
  | nil => simp [rotations, run]
  | cons first entries ih =>
      rw [List.cons_append, rotations, ih, rotations, List.append_assoc, List.length_cons,
        Nat.add_assoc, Nat.add_comm 1]
      rfl

/-- **The rotations of a run are the cuts between its segments.** -/
theorem rotations_eq_cuts (hbackups : 1 ≤ c.maxBackups) (hsize : 1 ≤ c.rotationSize)
    {fs : FileSystem} (hnone : ∀ i, fs (file c i) = none) (entries : List ε) :
    (rotations c (create c fs) 0 entries).reverse
      = Segments.cuts (Segments.cut (Full c) entries) := by
  induction entries using List.reverseRecOn with
  | nil => rfl
  | append_singleton entries entry ih =>
      have hshows := shows_run hbackups hsize hnone entries
      have hlength : (Segments.cut (Full c) entries).flatten.length = entries.length := by
        have hall := congrArg List.length (Segments.cut_flatten (Full c) entries)
        rwa [List.length_flatten, List.map_reverse, List.sum_reverse, ← List.length_flatten] at hall
      rw [rotations_concat, List.reverse_append, Segments.cut_concat,
        Segments.cuts_add _ hshows.nonempty, hlength, ih]
      simp only [rotates_iff c hsize hshows, Nat.zero_add]
      split <;> rfl

/-- The files from number `n - 1` down to the log file, one after another. -/
theorem files_flatMap {fs : FileSystem} {segments : List (List ε)} {n : ℕ}
    (hfiles : ∀ i < n, fs (file c i) = segments[i]?.map (text c)) :
    ((List.range n).reverse.flatMap fun i => (fs (file c i)).getD [])
      = text c (segments.take n).reverse.flatten := by
  induction n with
  | zero => rfl
  | succ n ih =>
      rw [List.range_succ, List.reverse_append, List.reverse_singleton, List.singleton_append,
        List.flatMap_cons, ih fun i hi => hfiles i (by omega), hfiles n (by omega), List.take_add_one,
        List.reverse_append, List.flatten_append, text, text, List.flatMap_append]
      congr 1
      cases segments[n]? with
      | none => rfl
      | some segment => simp [text]

/-- **The files hold a gap-free tail of the log.** The oldest backup to the log file, one after
another, are the lines written since the rotation that comes after the most recent `N` of them, or
all lines if there is no such rotation; there is no backup with a number above `N`; and no file
exceeds the size of a rotation by as much as a line. -/
theorem log_tail (hbackups : 1 ≤ c.maxBackups) (hsize : 1 ≤ c.rotationSize) {fs : FileSystem}
    (hnone : ∀ i, fs (file c i) = none) (entries : List ε) :
    ((List.range (c.maxBackups.toNat + 1)).reverse.flatMap fun i =>
        ((run c (create c fs) entries).fs (file c i)).getD [])
      = (entries.drop (((rotations c (create c fs) 0 entries).reverse[c.maxBackups.toNat]?).getD
          0)).flatMap (line c) ∧
    (∀ i, c.maxBackups.toNat < i → (run c (create c fs) entries).fs (backup c i) = none) ∧
    ∀ i content, (run c (create c fs) entries).fs (file c i) = some content →
      content.length < c.rotationSize ∨
        ∃ entry ∈ entries, content.length < c.rotationSize + (line c entry).length := by
  have hshows := shows_run hbackups hsize hnone entries
  refine ⟨?_, ?_, ?_⟩
  -- the files hold the last segments, which are what is behind a rotation
  · rw [files_flatMap fun i hi => (hshows.files i).trans (if_pos (by omega)), Segments.take_flatten,
      rotations_eq_cuts hbackups hsize hnone]
    rfl
  · intro i hi
    have hfile := hshows.files i
    rw [if_neg (by omega)] at hfile
    cases i with
    | zero => omega
    | succ i => exact hfile
  -- a segment is full with its last entry and was not before
  · intro i content hcontent
    rw [hshows.files] at hcontent
    split at hcontent
    · obtain ⟨segment, hsegment, rfl⟩ := Option.map_eq_some_iff.mp hcontent
      refine Segments.forall_mem_cut (Full c) (P := fun segment =>
        (text c segment).length < c.rotationSize ∨
          ∃ entry ∈ entries, (text c segment).length < c.rotationSize + (line c entry).length)
        (.inl hsize) ?_ ?_ segment (List.mem_of_getElem? hsegment)
      · intro entry hentry
        refine .inr ⟨entry, hentry, ?_⟩
        rw [text, List.flatMap_singleton]
        omega
      · intro s entry hentry hfull
        refine .inr ⟨entry, hentry, ?_⟩
        rw [text, List.flatMap_append, List.flatMap_singleton, List.length_append]
        exact Nat.add_lt_add_right (not_le.mp hfull) _
    · cases hcontent

/-- Five lines of three bytes with a rotation from four bytes on and one backup: the first two are
gone. -/
theorem log_tail_four :
    let c : Config Bytes := ⟨"log", 4, 1, id⟩
    let sink := run c (create c fun _ => none) [[1, 1], [2, 2], [3, 3], [4, 4], [5, 5]]
    rotations c (create c fun _ => none) 0 [[1, 1], [2, 2], [3, 3], [4, 4], [5, 5]] = [2, 4] ∧
      (sink.fs "log.1").getD [] ++ (sink.fs "log").getD [] = [3, 3, 10, 4, 4, 10, 5, 5, 10] := by
  refine ⟨by decide, ?_⟩
  exact (log_tail (c := ⟨"log", 4, 1, id⟩) (by decide) (by decide) (fun _ => rfl)
    [[1, 1], [2, 2], [3, 3], [4, 4], [5, 5]]).1

end FileSink

end NetworkLib
