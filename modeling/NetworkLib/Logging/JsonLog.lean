import NetworkLib.Logging.FileSink
import NetworkLib.Logging.LogDelivery
import NetworkLib.Logging.LogFormatter

/-! # A log file in JSON

`FileSink::Write` with a `Format` that throws: the files may have been rotated by then, nothing is
written, and `ProcessBatch`, which catches the exception, goes on with the next entry. So an entry
with a text that is not UTF-8 is missing from the file, and no other is: read back line by line, the
files are the newest of the other entries (`json_log`). Behind the queue of `AsyncLogger` this is
what becomes of the entries that any number of threads log (`logged`). -/

namespace NetworkLib.JsonLog

open FileSink LogFormatter

variable (localtime : ℤ → Tm) (config : LoggerConfig) (path : String)

/-- What the sink takes from the settings; an entry that cannot be formatted has no text. -/
def sinkConfig : FileSink.Config LogEntry where
  path := path
  rotationSize := config.rotationSize
  maxBackups := config.maxBackups
  format entry :=
    match LogFormatter.format localtime entry config with
    | .ok formatted => formatted
    | .error _ => []

/-- The beginning of `Write`. -/
def makeRoom (s : FileSink) : FileSink :=
  if Rotates (sinkConfig localtime config path) s then rotate (sinkConfig localtime config path) s
  else s

/-- `Write`, up to the exception of `Format`. -/
def write (s : FileSink) (entry : LogEntry) : FileSink :=
  let s := makeRoom localtime config path s
  match LogFormatter.format localtime entry config with
  | .ok formatted =>
      { s with
        fs := if s.isOpen then s.fs.append path (formatted ++ [10]) else s.fs
        currentSize := s.currentSize + formatted.length + 1 }
  -- `ProcessBatch` catches it
  | .error _ => s

/-- The entries of a batch, one after another. -/
def processBatch (s : FileSink) (batch : List LogEntry) : FileSink :=
  batch.foldl (write localtime config path) s

/-- The sink after some batches. -/
def run (s : FileSink) (batches : List (List LogEntry)) : FileSink :=
  batches.foldl (processBatch localtime config path) s

/-- The log file behind all its backups, the oldest first. -/
def content (s : FileSink) : Bytes :=
  (List.range (config.maxBackups.toNat + 1)).reverse.flatMap fun i =>
    (s.fs (file (sinkConfig localtime config path) i)).getD []

/-- The entries whose texts are UTF-8. -/
def writable (entries : List LogEntry) : List LogEntry :=
  entries.filter fun entry => ∀ s ∈ texts entry, Utf8.Valid s

/-- The files show a log of some entries, in segments that are full but for the newest. -/
def Holds (s : FileSink) (entries : List LogEntry) : Prop :=
  ∃ segments, Shows (sinkConfig localtime config path) s segments ∧
    (∀ segment ∈ segments.tail, Full (sinkConfig localtime config path) segment) ∧
    segments.reverse.flatten = entries

variable {localtime config path} {s : FileSink} {entries : List LogEntry}

/-- The entries that can be written, of some and of more behind them. -/
theorem writable_append (l₁ l₂ : List LogEntry) :
    writable (l₁ ++ l₂) = writable l₁ ++ writable l₂ :=
  List.filter_append l₁ l₂

/-- A rotation starts a segment, which changes nothing about the entries. -/
theorem holds_makeRoom (hbackups : 1 ≤ config.maxBackups)
    (h : Holds localtime config path s entries) :
    Holds localtime config path (makeRoom localtime config path s) entries := by
  obtain ⟨segments, hshows, hfull, rfl⟩ := h
  rw [makeRoom]
  split
  · next hrotates =>
      refine ⟨[] :: segments, shows_rotate hbackups hshows, ?_, by simp⟩
      cases segments with
      | nil => exact absurd rfl hshows.nonempty
      | cons newest older =>
          -- the newest segment has reached the size of a rotation
          have hnewest : Full (sinkConfig localtime config path) newest :=
            le_of_le_of_eq hrotates.2 hshows.currentSize
          exact List.forall_mem_cons.mpr ⟨hnewest, hfull⟩
  · exact ⟨segments, hshows, hfull, rfl⟩

/-- **A write adds the entry if it can be written**, and else nothing. -/
theorem holds_write (hformat : config.format = bytesOf "json") (hbackups : 1 ≤ config.maxBackups)
    (h : Holds localtime config path s entries) (entry : LogEntry) :
    Holds localtime config path (write localtime config path s entry)
      (entries ++ writable [entry]) := by
  obtain ⟨segments, hshows, hfull, rfl⟩ := holds_makeRoom hbackups h
  have hiff := exists_format_iff localtime entry hformat
  rw [write]
  cases hline : LogFormatter.format localtime entry config with
  | error e =>
      -- `dump` throws, so nothing is written, and the entry is not one that can be
      have hnot : ¬ ∀ s ∈ texts entry, Utf8.Valid s := by
        rw [← hiff]
        rintro ⟨line, heq⟩
        rw [hline] at heq
        exact absurd heq (by simp)
      have hnone : writable [entry] = [] := by
        rw [writable, List.filter_cons_of_neg (by simpa using hnot), List.filter_nil]
      rw [hnone, List.append_nil]
      exact ⟨segments, hshows, hfull, rfl⟩
  | ok formatted =>
      -- the line goes behind the newest segment
      have hone : writable [entry] = [entry] := by
        rw [writable, List.filter_cons_of_pos (by simpa using hiff.mp ⟨formatted, hline⟩),
          List.filter_nil]
      rw [hone]
      cases segments with
      | nil => exact absurd rfl hshows.nonempty
      | cons newest older =>
          have htext : (sinkConfig localtime config path).format entry = formatted := by
            simp only [sinkConfig, hline]
          have happend := shows_append hshows entry
          rw [FileSink.line, htext] at happend
          exact ⟨_, happend, hfull, by simp⟩

/-- **A batch keeps the account of the files**: it adds its entries that can be written. -/
theorem holds_processBatch (hformat : config.format = bytesOf "json")
    (hbackups : 1 ≤ config.maxBackups) (h : Holds localtime config path s entries)
    (batch : List LogEntry) :
    Holds localtime config path (processBatch localtime config path s batch)
      (entries ++ writable batch) := by
  induction batch generalizing s entries with
  | nil => simpa [writable, processBatch] using h
  | cons entry batch ih =>
      have hwrite := ih (holds_write hformat hbackups h entry)
      rwa [List.append_assoc, ← writable_append, List.singleton_append] at hwrite

/-- **A run of batches adds every entry that can be written.** -/
theorem holds_run (hformat : config.format = bytesOf "json") (hbackups : 1 ≤ config.maxBackups)
    (h : Holds localtime config path s entries) (batches : List (List LogEntry)) :
    Holds localtime config path (run localtime config path s batches)
      (entries ++ writable batches.flatten) := by
  induction batches generalizing s entries with
  | nil => simpa [writable, run] using h
  | cons batch batches ih =>
      have hbatch := ih (holds_processBatch hformat hbackups h batch)
      rwa [List.append_assoc, ← writable_append] at hbatch

/-- What the files hold together. -/
theorem content_of_shows {segments : List (List LogEntry)}
    (h : Shows (sinkConfig localtime config path) s segments) :
    content localtime config path s = text (sinkConfig localtime config path)
      (segments.take (config.maxBackups.toNat + 1)).reverse.flatten :=
  files_flatMap fun i hi => (h.files i).trans (if_pos (show i ≤ config.maxBackups.toNat by omega))

/-- **Some entries in JSON, taken apart at the line feeds.** -/
theorem forall₂_split_text (hformat : config.format = bytesOf "json")
    (h : ∀ entry ∈ entries, ∀ s ∈ texts entry, Utf8.Valid s) :
    List.Forall₂ (Gives localtime)
      (LogConfig.split (text (sinkConfig localtime config path) entries) 10) entries := by
  -- the line of every entry
  have hline : ∀ entry ∈ entries, (10 ∉ (sinkConfig localtime config path).format entry) ∧
      Gives localtime ((sinkConfig localtime config path).format entry) entry := by
    intro entry hentry
    obtain ⟨formatted, hok⟩ := (exists_format_iff localtime entry hformat).mpr (h entry hentry)
    have htext : (sinkConfig localtime config path).format entry = formatted := by
      simp only [sinkConfig, hok]
    obtain ⟨hprintable, hgives⟩ := format_spec localtime entry hformat hok
    rw [htext]
    exact ⟨fun hmem => absurd (hprintable 10 hmem) (by decide), hgives⟩
  have htext : text (sinkConfig localtime config path) entries
      = (entries.map (sinkConfig localtime config path).format).flatMap fun part => part ++ [10] := by
    rw [List.flatMap_map]
    rfl
  rw [htext, LogConfig.split_flatMap]
  · rw [List.forall₂_map_left_iff]
    exact List.forall₂_same.mpr fun entry hentry => (hline entry hentry).2
  · intro part hpart
    obtain ⟨entry, hentry, rfl⟩ := List.mem_map.mp hpart
    exact (hline entry hentry).1

/-- The backups in the files, when there are as many as there may be. -/
theorem length_backups {segments : List (List LogEntry)} {n : ℕ} (hlength : n < segments.length)
    (hfull : ∀ segment ∈ segments.tail, Full (sinkConfig localtime config path) segment) :
    n * config.rotationSize
      ≤ (text (sinkConfig localtime config path) (segments.take (n + 1)).reverse.flatten).length := by
  induction n with
  | zero => simp
  | succ n ih =>
      have hmem : segments[n + 1] ∈ segments.tail := by
        rw [List.mem_iff_getElem]
        exact ⟨n, by rw [List.length_tail]; omega, by simp⟩
      have hsegment : config.rotationSize
          ≤ (text (sinkConfig localtime config path) segments[n + 1]).length := hfull _ hmem
      have hrest := ih (by omega)
      rw [List.take_succ_eq_append_getElem hlength, List.reverse_append, List.reverse_singleton,
        List.singleton_append, List.flatten_cons, text, List.flatMap_append, List.length_append,
        Nat.succ_mul]
      rw [text] at hrest hsegment
      omega

/-- **A log in JSON.** Whatever entries are logged, in whatever batches: read from the oldest backup
to the log file and taken apart at the line feeds, the files are lines each of which a reader of
JSON takes for the fields of one entry, and these are the newest of the entries whose texts are
UTF-8, in the order in which they were logged. If any of those are gone, the files hold as much as
the backups must. The entries with other texts are missing without a trace. -/
theorem json_log (hformat : config.format = bytesOf "json") (hbackups : 1 ≤ config.maxBackups)
    {fs : FileSystem} (hnone : ∀ i, fs (file (sinkConfig localtime config path) i) = none)
    (batches : List (List LogEntry)) :
    let files := content localtime config path
      (run localtime config path (create (sinkConfig localtime config path) fs) batches)
    ∃ gone kept, writable batches.flatten = gone ++ kept ∧
      List.Forall₂ (Gives localtime) (LogConfig.split files 10) kept ∧
      (gone ≠ [] → config.maxBackups.toNat * config.rotationSize ≤ files.length) := by
  intro files
  have hcreate : Holds localtime config path (create (sinkConfig localtime config path) fs) [] :=
    ⟨[[]], shows_create hnone, by simp, rfl⟩
  obtain ⟨segments, hshows, hfull, hflatten⟩ := holds_run hformat hbackups hcreate batches
  rw [List.nil_append] at hflatten
  have hfiles : files = text (sinkConfig localtime config path)
      (segments.take (config.maxBackups.toNat + 1)).reverse.flatten := content_of_shows hshows
  -- the segments of the files, and the ones before
  have hsplit : (segments.drop (config.maxBackups.toNat + 1)).reverse.flatten
      ++ (segments.take (config.maxBackups.toNat + 1)).reverse.flatten = writable batches.flatten := by
    rw [← hflatten, ← List.flatten_append, ← List.reverse_append, List.take_append_drop]
  refine ⟨_, _, hsplit.symm, ?_, ?_⟩
  · rw [hfiles]
    apply forall₂_split_text hformat
    intro entry hentry
    have hmem : entry ∈ writable batches.flatten := by
      rw [← hsplit]
      exact List.mem_append_right _ hentry
    simpa using (List.mem_filter.mp hmem).2
  · intro hgone
    have hlength : config.maxBackups.toNat < segments.length := by
      by_contra hle
      rw [List.drop_eq_nil_of_le (by omega)] at hgone
      exact hgone rfl
    rw [hfiles]
    exact length_backups hlength hfull

open AsyncLogger AsyncLogger.State in
/-- **From the threads that log to the lines of the file.** In every state that the logger reaches,
whatever its threads do: read from the oldest backup to the log file and taken apart at the line
feeds, the files are lines each of which a reader of JSON takes for the fields of one entry. These
entries are accepted ones whose texts are UTF-8, in the order of acceptance, and none is left out
between them. Those in front of them went with old backups, and then the files hold as much as the
backups must; those behind them are still to come, and once `Shutdown` has returned there are none,
if every call took the lock before the final drain. -/
theorem logged {ι : Type*} [DecidableEq ι] {c : AsyncLogger.Config} (hcap : 0 < c.asyncQueueSize)
    (hformat : config.format = bytesOf "json") (hbackups : 1 ≤ config.maxBackups)
    {fs : FileSystem} (hnone : ∀ i, fs (file (sinkConfig localtime config path) i) = none)
    {k : ℕ} (hk : k < c.sinks) (es : List (AsyncLogger.Event ι LogEntry)) :
    let s : AsyncLogger.State ι LogEntry := after c es
    let files := content localtime config path
      (run localtime config path (create (sinkConfig localtime config path) fs)
        [(s.written k).map Prod.snd])
    ∃ gone kept late, writable (s.due.map Prod.snd) = gone ++ kept ++ late ∧
      List.Forall₂ (Gives localtime) (LogConfig.split files 10) kept ∧
      (gone ≠ [] → config.maxBackups.toNat * config.rotationSize ≤ files.length) ∧
      (s.shutdown = .returned → Trace.Always (step c) InTime {} es → late = []) := by
  intro s files
  have hinv : Inv c s := inv_after c es
  obtain ⟨rest, hrest⟩ := (hinv.inOrder k hk).1
  obtain ⟨gone, kept, hwritten, hlines, hgone⟩ :=
    json_log hformat hbackups hnone [(s.written k).map Prod.snd]
  rw [List.flatten_cons, List.flatten_nil, List.append_nil] at hwritten
  refine ⟨gone, kept, writable (rest.map Prod.snd), ?_, hlines, hgone, ?_⟩
  · rw [← hrest, List.map_append, writable_append, hwritten]
  · intro hreturned htime
    have hdrained : s.shutdown.Drained := by
      rw [hreturned]
      trivial
    -- nothing is left in the queue, so that the sink has got all
    have hqueue : s.queue = [] := (emptied_after_iff hcap es).mpr htime hdrained
    have hflow := hinv.flow_of_returned hreturned hk
    rw [hqueue, List.append_nil] at hflow
    rw [hflow] at hrest
    rw [List.append_right_eq_self.mp hrest]
    rfl

open AsyncLogger AsyncLogger.State in
/-- Two calls, of which the second evicts the entry of the first. -/
theorem logged_evicting :
    let c : AsyncLogger.Config := ⟨1, .discardOldest, 1⟩
    let localtime : ℤ → Tm := fun _ => ⟨1970, 1, 1, 0, 0, 0⟩
    let config : LoggerConfig := { format := bytesOf "json" }
    let es : List (AsyncLogger.Event Bool LogEntry) :=
      [.call true { message := [0x61] } false, .call false { message := [0x0A] } true, .lock true,
        .lock false, .workerTest, .workerLock, .workerNotify, .workerWrite]
    let s : AsyncLogger.State Bool LogEntry := after c es
    let files := content localtime config "log"
      (run localtime config "log" (create (sinkConfig localtime config "log") fun _ => none)
        [(s.written 0).map Prod.snd])
    ∃ gone kept late, writable (s.due.map Prod.snd) = gone ++ kept ++ late ∧
      List.Forall₂ (Gives localtime) (LogConfig.split files 10) kept ∧
      (gone ≠ [] → config.maxBackups.toNat * config.rotationSize ≤ files.length) ∧
      (s.shutdown = .returned → Trace.Always (step c) InTime {} es → late = []) := by
  intro c localtime config es s files
  exact @logged localtime config "log" Bool _ c (by decide) rfl (by decide) (fun _ => none)
    (fun _ => rfl) 0 (by decide) es

end NetworkLib.JsonLog
