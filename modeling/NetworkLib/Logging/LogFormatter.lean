import NetworkLib.Logging.JsonDump
import NetworkLib.Logging.LogConfig

/-! # The log formatter

`LogFormatter`: the text of an entry, in one of two formats. As text the fields of the entry stand
in brackets before the message; as JSON they are the members of an object. The local time of a time
stamp (`localtime_r`) is a parameter.

Whatever the entry, a JSON line is one line and gives the fields back, and it is written exactly
where every text of the entry is UTF-8 (`json_line`): otherwise `dump` throws. -/

namespace NetworkLib

/-- `std::tm`, with the year counted from 0 and the months from 1. -/
structure Tm where
  year : ℕ
  mon : ℕ
  mday : ℕ
  hour : ℕ
  min : ℕ
  sec : ℕ

/-- `LogEntry`. The time stamp is in nanoseconds since the epoch; an identifier of no thread is
absent. -/
structure LogEntry where
  timestamp : ℤ := 0
  level : LogLevel := .info
  message : Bytes := []
  file : Bytes := []
  line : ℤ := 0
  function : Bytes := []
  threadId : Option ℕ := none
  threadName : Bytes := []
  processId : ℤ := 0
  hostname : Bytes := []
  appName : Bytes := []

namespace LogFormatter

/-- What `std::setw` and a fill of `0` make of a text. -/
def setw (width : ℕ) (s : Bytes) : Bytes := List.replicate (width - s.length) 0x30 ++ s

/-- `std::put_time` with `%Y-%m-%d`, a separator and `%H:%M:%S`. -/
def putTime (separator : UInt8) (tm : Tm) : Bytes :=
  Json.digits tm.year ++ 0x2D :: setw 2 (Json.digits tm.mon) ++ 0x2D :: setw 2 (Json.digits tm.mday)
    ++ separator :: setw 2 (Json.digits tm.hour) ++ 0x3A :: setw 2 (Json.digits tm.min)
    ++ 0x3A :: setw 2 (Json.digits tm.sec)

/-- `to_time_t`. -/
def toTimeT (timestamp : ℤ) : ℤ := timestamp.tdiv 1000000000

/-- The microseconds within the second. -/
def microseconds (timestamp : ℤ) : ℤ := (timestamp.tdiv 1000).tmod 1000000

/-- The milliseconds within the second. -/
def milliseconds (timestamp : ℤ) : ℤ := (timestamp.tdiv 1000000).tmod 1000

/-- `LevelToString`. -/
def levelToString : LogLevel → Bytes
  | .trace => bytesOf "TRACE"
  | .debug => bytesOf "DEBUG"
  | .info => bytesOf "INFO"
  | .warn => bytesOf "WARN"
  | .error => bytesOf "ERROR"
  | .fatal => bytesOf "FATAL"
  | .critical => bytesOf "CRITICAL"

/-- `operator<<` of `std::thread::id`. -/
def threadIdText : Option ℕ → Bytes
  | some id => Json.digits id
  | none => bytesOf "thread::id of a non-executing thread"

/-- What follows the last `/` or `\` of a path. -/
def fileName (file : Bytes) : Bytes :=
  (file.reverse.takeWhile fun b => b ≠ 0x2F ∧ b ≠ 0x5C).reverse

/-- A text in brackets, and a blank. -/
def bracketed (s : Bytes) : Bytes := 0x5B :: s ++ [0x5D, 0x20]

/-- The keys of a JSON line. -/
inductive Key where
  | timestamp
  | level
  | message
  | processId
  | threadId
  | threadName
  | file
  | line
  | function
  | hostname
  | appName
  deriving DecidableEq

/-- The text of a key. -/
def Key.name : Key → Bytes
  | .timestamp => bytesOf "timestamp"
  | .level => bytesOf "level"
  | .message => bytesOf "message"
  | .processId => bytesOf "process_id"
  | .threadId => bytesOf "thread_id"
  | .threadName => bytesOf "thread_name"
  | .file => bytesOf "file"
  | .line => bytesOf "line"
  | .function => bytesOf "function"
  | .hostname => bytesOf "hostname"
  | .appName => bytesOf "app_name"

section

variable (localtime : ℤ → Tm)

/-- `FormatText`. -/
def formatText (entry : LogEntry) (config : LoggerConfig) : Bytes :=
  let time := putTime 0x20 (localtime (toTimeT entry.timestamp))
  let fraction :=
    if config.timestampPrecision = bytesOf "microsecond" then
      0x2E :: setw 6 (Json.decimal (microseconds entry.timestamp))
    else if config.timestampPrecision = bytesOf "millisecond" then
      0x2E :: setw 3 (Json.decimal (milliseconds entry.timestamp))
    else []
  let metadata :=
    if config.includeMetadata then
      bracketed (Json.decimal entry.processId ++ 0x3A :: threadIdText entry.threadId)
        ++ (if entry.threadName = [] then [] else bracketed entry.threadName)
    else []
  let caller :=
    if config.includeCaller ∧ entry.file ≠ [] then
      bracketed (fileName entry.file ++ 0x3A :: Json.decimal entry.line ++ 0x3A :: entry.function)
    else []
  let app := if entry.appName = [] then [] else bracketed entry.appName
  bracketed (time ++ fraction) ++ bracketed (levelToString entry.level) ++ metadata ++ caller ++ app
    ++ entry.message

/-- `j[key] = value` on an object, whose members are in the order of their keys. -/
def assign (key : Bytes) (value : Json) : List (Bytes × Json) → List (Bytes × Json)
  | [] => [(key, value)]
  | (k, v) :: members =>
      if key = k then (k, value) :: members
      else if key < k then (key, value) :: (k, v) :: members
      else (k, v) :: assign key value members

/-- The time stamp of a JSON line: the local time, which is marked as UTC. -/
def jsonTimestamp (timestamp : ℤ) : Bytes :=
  putTime 0x54 (localtime (toTimeT timestamp)) ++ 0x2E :: setw 6 (Json.decimal (microseconds timestamp))
    ++ [0x5A]

/-- The object that `FormatJson` makes, assignment by assignment. -/
def jsonMembers (entry : LogEntry) : List (Bytes × Json) :=
  let j := assign Key.timestamp.name (.string (jsonTimestamp localtime entry.timestamp)) []
  let j := assign Key.level.name (.string (levelToString entry.level)) j
  let j := assign Key.message.name (.string entry.message) j
  let j := assign Key.processId.name (.number entry.processId) j
  let j := assign Key.threadId.name (.string (threadIdText entry.threadId)) j
  let j := if entry.threadName = [] then j else
    assign Key.threadName.name (.string entry.threadName) j
  let j := if entry.file = [] then j else
    assign Key.function.name (.string entry.function)
      (assign Key.line.name (.number entry.line) (assign Key.file.name (.string entry.file) j))
  let j := if entry.hostname = [] then j else assign Key.hostname.name (.string entry.hostname) j
  if entry.appName = [] then j else assign Key.appName.name (.string entry.appName) j

/-- `FormatJson`. -/
def formatJson (entry : LogEntry) : Except Bytes Bytes :=
  JsonDump.dump (.object (jsonMembers localtime entry))

/-- `Format`. -/
def format (entry : LogEntry) (config : LoggerConfig) : Except Bytes Bytes :=
  if config.format = bytesOf "json" then formatJson localtime entry
  else .ok (formatText localtime entry config)

end

/-! ## The members of a line -/

/-- The field of an entry that stands under a key, if it does. -/
def field (localtime : ℤ → Tm) (entry : LogEntry) : Key → Option Json
  | .timestamp => some (.string (jsonTimestamp localtime entry.timestamp))
  | .level => some (.string (levelToString entry.level))
  | .message => some (.string entry.message)
  | .processId => some (.number entry.processId)
  | .threadId => some (.string (threadIdText entry.threadId))
  | .threadName => if entry.threadName = [] then none else some (.string entry.threadName)
  | .file => if entry.file = [] then none else some (.string entry.file)
  | .line => if entry.file = [] then none else some (.number entry.line)
  | .function => if entry.file = [] then none else some (.string entry.function)
  | .hostname => if entry.hostname = [] then none else some (.string entry.hostname)
  | .appName => if entry.appName = [] then none else some (.string entry.appName)

/-- The texts of an entry that reach a JSON line. -/
def texts (entry : LogEntry) : List Bytes :=
  [entry.message, entry.threadName, entry.hostname, entry.appName]
    ++ if entry.file = [] then [] else [entry.file, entry.function]

/-- Different keys have different names. -/
theorem name_injective : Function.Injective Key.name := by
  intro k k' h
  cases k <;> cases k' <;> first | rfl | exact absurd h (by simp [Key.name, bytesOf])

/-- The first member is found under its key. -/
theorem lookup_cons (key k : Bytes) (value : Json) (members : List (Bytes × Json)) :
    ((k, value) :: members).lookup key = if key = k then some value else members.lookup key := by
  rw [List.lookup_cons]
  by_cases h : key = k
  · rw [if_pos h, beq_iff_eq.mpr h]
  · rw [if_neg h, beq_eq_false_iff_ne.mpr h]

/-- What is assigned is found under its key, and the others as before. -/
theorem lookup_assign (key k : Bytes) (value : Json) (members : List (Bytes × Json)) :
    (assign k value members).lookup key = if key = k then some value else members.lookup key := by
  induction members with
  | nil => rw [assign, lookup_cons]
  | cons member members ih =>
      obtain ⟨k', v⟩ := member
      rw [assign]
      by_cases hk : k = k'
      · rw [if_pos hk, lookup_cons, lookup_cons, hk]
        by_cases h : key = k'
        · rw [if_pos h, if_pos h]
        · rw [if_neg h, if_neg h, if_neg h]
      · rw [if_neg hk]
        by_cases hlt : k < k'
        · rw [if_pos hlt, lookup_cons]
        · rw [if_neg hlt, lookup_cons, lookup_cons, ih]
          by_cases h : key = k'
          · rw [if_pos h, if_neg (h ▸ Ne.symm hk), if_pos h]
          · rw [if_neg h, if_neg h]

/-- The same of the names of the keys. -/
theorem lookup_assign_name (key k : Key) (value : Json) (members : List (Bytes × Json)) :
    (assign k.name value members).lookup key.name
      = if key = k then some value else members.lookup key.name := by
  rw [lookup_assign]
  simp only [name_injective.eq_iff]

variable (localtime : ℤ → Tm) (entry : LogEntry)

/-- **The members are the fields.** -/
theorem lookup_jsonMembers (key : Key) :
    (jsonMembers localtime entry).lookup key.name = field localtime entry key := by
  unfold jsonMembers
  by_cases hname : entry.threadName = [] <;> by_cases hfile : entry.file = [] <;>
    by_cases hhost : entry.hostname = [] <;> by_cases happ : entry.appName = [] <;>
    simp only [hname, hfile, hhost, happ, if_true, if_false, lookup_assign_name] <;>
    cases key <;> simp [field, hname, hfile, hhost, happ]

/-- What holds of the members before an assignment, and of what is assigned. -/
theorem forall_mem_assign {P : Bytes × Json → Prop} {k : Bytes} {value : Json}
    {members : List (Bytes × Json)} (h : P (k, value)) (hall : ∀ m ∈ members, P m) :
    ∀ m ∈ assign k value members, P m := by
  induction members with
  | nil => simpa [assign] using h
  | cons member members ih =>
      obtain ⟨k', v⟩ := member
      rw [List.forall_mem_cons] at hall
      rw [assign]
      split
      · next hk => exact List.forall_mem_cons.mpr ⟨hk ▸ h, hall.2⟩
      · split
        · exact List.forall_mem_cons.mpr ⟨h, List.forall_mem_cons.mpr hall⟩
        · exact List.forall_mem_cons.mpr ⟨hall.1, ih hall.2⟩

/-- **Every member is a field**: what holds of the fields holds of the members. -/
theorem forall_mem_jsonMembers {P : Bytes × Json → Prop}
    (h : ∀ key j, field localtime entry key = some j → P (key.name, j)) :
    ∀ m ∈ jsonMembers localtime entry, P m := by
  unfold jsonMembers
  by_cases hname : entry.threadName = [] <;> by_cases hfile : entry.file = [] <;>
    by_cases hhost : entry.hostname = [] <;> by_cases happ : entry.appName = [] <;>
    simp only [hname, hfile, hhost, happ, if_true, if_false] <;>
    repeat' first
      | exact List.forall_mem_nil _
      | refine forall_mem_assign (h _ _ (by simp [field, hname, hfile, hhost, happ])) ?_

/-! ## What can be dumped -/

/-- The name of a key is UTF-8. -/
theorem valid_name (key : Key) : Utf8.Valid key.name := by
  apply Utf8.valid_of_all
  cases key <;> rfl

/-- So is the name of a level. -/
theorem valid_levelToString (level : LogLevel) : Utf8.Valid (levelToString level) := by
  apply Utf8.valid_of_all
  cases level <;> rfl

/-- So are digits. -/
theorem valid_digits (n : ℕ) : Utf8.Valid (Json.digits n) :=
  Utf8.valid_of_forall_lt (forall_mem_numeral (by omega) (by decide) n)

/-- So is a number. -/
theorem valid_decimal (n : ℤ) : Utf8.Valid (Json.decimal n) := by
  rw [Json.decimal]
  split
  · exact Utf8.Valid.append (Utf8.valid_of_forall_lt (s := [0x2D]) (by simp)) (valid_digits _)
  · exact valid_digits _

/-- Padding keeps a text UTF-8. -/
theorem valid_setw (width : ℕ) {s : Bytes} (h : Utf8.Valid s) : Utf8.Valid (setw width s) := by
  refine Utf8.Valid.append (Utf8.valid_of_forall_lt fun b hb => ?_) h
  rw [List.eq_of_mem_replicate hb]
  decide

/-- A thread's id is UTF-8. -/
theorem valid_threadIdText (id : Option ℕ) : Utf8.Valid (threadIdText id) := by
  cases id with
  | some id => exact valid_digits id
  | none =>
      apply Utf8.valid_of_all
      rfl

/-- A one-byte character may stand in front. -/
theorem valid_cons {b : UInt8} (hb : b.toNat < 0x80) {s : Bytes} (h : Utf8.Valid s) :
    Utf8.Valid (b :: s) :=
  Utf8.Valid.append (Utf8.valid_of_forall_lt (s := [b]) (by simpa using hb)) h

/-- A time is UTF-8. -/
theorem valid_putTime {separator : UInt8} (h : separator.toNat < 0x80) (tm : Tm) :
    Utf8.Valid (putTime separator tm) := by
  have htwo : ∀ n, Utf8.Valid (setw 2 (Json.digits n)) := fun n => valid_setw 2 (valid_digits n)
  unfold putTime
  exact (((((valid_digits _).append (valid_cons (by decide) (htwo _))).append
    (valid_cons (by decide) (htwo _))).append (valid_cons h (htwo _))).append
    (valid_cons (by decide) (htwo _))).append (valid_cons (by decide) (htwo _))

/-- So is the timestamp of an entry. -/
theorem valid_jsonTimestamp (timestamp : ℤ) : Utf8.Valid (jsonTimestamp localtime timestamp) :=
  ((valid_putTime (by decide) _).append (valid_cons (by decide) (valid_setw 6 (valid_decimal _)))).append
    (Utf8.valid_of_forall_lt (by simp))

/-- A field that is there has met its condition. -/
theorem of_ite {p : Prop} [Decidable p] {x j : Json} (h : (if p then none else some x) = some j) :
    ¬ p ∧ x = j := by
  by_cases hp : p
  · rw [if_pos hp] at h
    exact absurd h (by simp)
  · rw [if_neg hp] at h
    exact ⟨hp, Option.some.inj h⟩

/-- **A line can be dumped exactly if the texts of its entry are UTF-8.** -/
theorem all_jsonMembers_iff :
    (Json.object (jsonMembers localtime entry)).All Utf8.Valid ↔
      ∀ s ∈ texts entry, Utf8.Valid s := by
  rw [Json.All, Json.allMembers_iff]
  constructor
  · intro hall
    -- every text is in a member
    have hfield : ∀ key s, field localtime entry key = some (.string s) → Utf8.Valid s := by
      intro key s hkey
      rw [← lookup_jsonMembers] at hkey
      obtain ⟨before, after, heq, -⟩ := List.lookup_eq_some_iff.mp hkey
      exact (hall (key.name, .string s) (by rw [heq]; simp)).2
    have hnil : ∀ {s : Bytes}, (s ≠ [] → Utf8.Valid s) → Utf8.Valid s := by
      intro s hs
      by_cases hempty : s = []
      · rw [hempty]
        exact Utf8.valid_nil
      · exact hs hempty
    intro s hs
    rw [texts, List.mem_append] at hs
    rcases hs with hs | hs
    · simp only [List.mem_cons, List.not_mem_nil, or_false] at hs
      rcases hs with rfl | rfl | rfl | rfl
      · exact hfield .message _ rfl
      · exact hnil fun h => hfield .threadName _ (if_neg h)
      · exact hnil fun h => hfield .hostname _ (if_neg h)
      · exact hnil fun h => hfield .appName _ (if_neg h)
    · by_cases hfile : entry.file = []
      · rw [if_pos hfile] at hs
        exact absurd hs (by simp)
      · rw [if_neg hfile] at hs
        simp only [List.mem_cons, List.not_mem_nil, or_false] at hs
        rcases hs with rfl | rfl
        · exact hfield .file _ (if_neg hfile)
        · exact hfield .function _ (if_neg hfile)
  · intro hall
    apply forall_mem_jsonMembers
    intro key j hkey
    refine ⟨valid_name key, ?_⟩
    have hfile : entry.file ≠ [] → Utf8.Valid entry.file ∧ Utf8.Valid entry.function := by
      intro h
      exact ⟨hall _ (by simp [texts, h]), hall _ (by simp [texts, h])⟩
    cases key with
    | timestamp => exact Option.some.inj hkey ▸ valid_jsonTimestamp localtime entry.timestamp
    | level => exact Option.some.inj hkey ▸ valid_levelToString entry.level
    | message => exact Option.some.inj hkey ▸ hall entry.message (by simp [texts])
    | processId => exact Option.some.inj hkey ▸ trivial
    | threadId => exact Option.some.inj hkey ▸ valid_threadIdText entry.threadId
    | threadName => exact (of_ite hkey).2 ▸ hall entry.threadName (by simp [texts])
    | file => exact (of_ite hkey).2 ▸ (hfile (of_ite hkey).1).1
    | line => exact (of_ite hkey).2 ▸ trivial
    | function => exact (of_ite hkey).2 ▸ (hfile (of_ite hkey).1).2
    | hostname => exact (of_ite hkey).2 ▸ hall entry.hostname (by simp [texts])
    | appName => exact (of_ite hkey).2 ▸ hall entry.appName (by simp [texts])

/-- An entry becomes a line exactly if every text in it is UTF-8. -/
theorem exists_format_iff {config : LoggerConfig} (hformat : config.format = bytesOf "json") :
    (∃ line, format localtime entry config = .ok line) ↔ ∀ s ∈ texts entry, Utf8.Valid s := by
  have hyields := JsonDump.dump_yields (.object (jsonMembers localtime entry))
  rw [format, if_pos hformat, ← all_jsonMembers_iff localtime entry]
  constructor
  · rintro ⟨line, hline⟩
    exact ((hyields line).mp hline).1
  · intro hall
    exact ⟨_, (hyields _).mpr ⟨hall, rfl⟩⟩

/-- The line of an entry gives back its fields. -/
def Gives (localtime : ℤ → Tm) (line : Bytes) (entry : LogEntry) : Prop :=
  ∃ members, Json.read line = some (.object members) ∧
    (∀ key : Key, members.lookup key.name = field localtime entry key) ∧
    ∀ m ∈ members, ∃ key : Key, m.1 = key.name

/-- A line has no control character and gives the fields of its entry back. -/
theorem format_spec {config : LoggerConfig} (hformat : config.format = bytesOf "json")
    {line : Bytes}
    (h : format localtime entry config = .ok line) :
    (∀ b ∈ line, 0x20 ≤ b) ∧ Gives localtime line entry := by
  rw [format, if_pos hformat] at h
  obtain ⟨hprintable, hread⟩ := JsonDump.dump_spec h
  exact ⟨hprintable, _, hread, lookup_jsonMembers localtime entry,
    forall_mem_jsonMembers localtime entry fun key _ _ => ⟨key, rfl⟩⟩

/-- **A JSON line.** An entry becomes a line exactly if every text in it is UTF-8. The line has no
control character, so that it is one line whatever the entry; and a reader of JSON gets an object
from it that has the fields of the entry and no other member. -/
theorem json_line (config : LoggerConfig) (hformat : config.format = bytesOf "json") :
    ((∃ line, format localtime entry config = .ok line) ↔ ∀ s ∈ texts entry, Utf8.Valid s) ∧
      ∀ line, format localtime entry config = .ok line →
        (∀ b ∈ line, 0x20 ≤ b) ∧ Gives localtime line entry :=
  ⟨exists_format_iff localtime entry hformat, fun _ => format_spec localtime entry hformat⟩

/-- A message of a quotation mark and two lines is a line. -/
theorem json_line_quoted :
    ∃ line, format (fun _ => ⟨1970, 1, 1, 0, 0, 0⟩) { message := [0x22, 0x0A, 0x61] }
        { format := bytesOf "json" } = .ok line ∧
      0x0A ∉ line ∧ Gives (fun _ => ⟨1970, 1, 1, 0, 0, 0⟩) line { message := [0x22, 0x0A, 0x61] } := by
  have hjson := json_line (fun _ => ⟨1970, 1, 1, 0, 0, 0⟩) { message := [0x22, 0x0A, 0x61] }
    { format := bytesOf "json" } rfl
  have hvalid : ∀ s ∈ texts { message := [0x22, 0x0A, 0x61] }, Utf8.Valid s := by
    intro s hs
    have hs : s = [0x22, 0x0A, 0x61] ∨ s = [] := by simpa [texts] using hs
    rcases hs with rfl | rfl <;> exact Utf8.valid_of_all rfl
  obtain ⟨line, hline⟩ := hjson.1.mpr hvalid
  obtain ⟨hprintable, hgives⟩ := hjson.2 line hline
  exact ⟨line, hline, fun hmem => absurd (hprintable _ hmem) (by decide), hgives⟩

end LogFormatter

end NetworkLib
