import NetworkLib.Protocols.HeaderText

/-! # The configuration string of the logger

The server turns its logging settings into one line of `key=value;` pairs (`generateLoggerConfig`),
and the logger reads the line back (`parseConfig`): it splits the line at `;` and every part at `=`,
and skips a part that is not two. Nothing is escaped, so that the settings reach the logger if their
texts have none of `;`, `=` and NUL; and a part with an empty text is skipped, which leaves the
default (`parseConfig_generate`). -/

namespace NetworkLib

/-- `LogLevel`. -/
inductive LogLevel where
  | trace
  | debug
  | info
  | warn
  | error
  | fatal
  | critical
  deriving DecidableEq, Repr

/-- `LoggerConfig`. The flush interval is in milliseconds. -/
structure LoggerConfig where
  appName : Bytes := []
  threadName : Bytes := []
  consoleEnabled : Bool := true
  fileEnabled : Bool := false
  filePath : Bytes := []
  syslogEnabled : Bool := false
  kafkaEnabled : Bool := false
  kafkaBroker : Bytes := []
  kafkaTopic : Bytes := []
  kafkaPartition : ℤ := -1
  kafkaCompression : Bytes := bytesOf "none"
  syslogFacility : Bytes := bytesOf "LOCAL0"
  syslogServer : Bytes := []
  rotationSize : ℕ := 100 * 1024 * 1024
  rotationTime : Bytes := bytesOf "24h"
  maxBackups : ℤ := 10
  rotationCompress : Bool := false
  severity : LogLevel := .info
  format : Bytes := bytesOf "text"
  timestampPrecision : Bytes := bytesOf "microsecond"
  includeMetadata : Bool := true
  includeCaller : Bool := true
  async : Bool := true
  asyncQueueSize : ℕ := 100000
  flushInterval : ℤ := 1000
  bufferSize : ℕ := 4096
  batchSize : ℕ := 100
  overflowPolicy : Bytes := bytesOf "discard_newest"
  deriving DecidableEq

/-- `LoggingConfig`, the settings of the server. -/
structure LoggingConfig where
  level : Bytes := bytesOf "info"
  format : Bytes := bytesOf "text"
  output : Bytes := bytesOf "stdout"
  filePath : Bytes := []
  compress : Bool := false
  deriving DecidableEq

namespace LogConfig

/-! ## Reading the string -/

/-- `split`: the parts that `std::getline` takes from a string one after another. -/
def split (s : Bytes) (delimiter : UInt8) : List Bytes :=
  let tokens := s.splitOn delimiter
  if tokens.getLast? = some [] then tokens.dropLast else tokens

/-- `toupper`, in the "C" locale. -/
def toUpper (b : UInt8) : UInt8 := if 97 ≤ b ∧ b ≤ 122 then b - 32 else b

/-- `StringToLogLevel`. -/
def stringToLogLevel (level : Bytes) : LogLevel :=
  let s := level.map toUpper
  if s = bytesOf "TRACE" then .trace
  else if s = bytesOf "DEBUG" then .debug
  else if s = bytesOf "INFO" then .info
  else if s = bytesOf "WARN" then .warn
  else if s = bytesOf "ERROR" then .error
  else if s = bytesOf "FATAL" then .fatal
  else if s = bytesOf "CRITICAL" then .critical
  else .info

/-- `std::stoull`; `none` when it throws. A number with a minus sign is negated modulo `2 ^ 64`. -/
def stoull (s : Bytes) : Option ℕ :=
  (strtol s).bind fun value => if value.natAbs < 2 ^ 64 then some (toSize value) else none

/-- `std::stoll`; `none` when it throws. -/
def stoll (s : Bytes) : Option ℤ :=
  (strtol s).bind fun value => if -2 ^ 63 ≤ value ∧ value < 2 ^ 63 then some value else none

/-- The number in front of the unit of a size, and the unit. -/
def splitUnit (s : Bytes) : Bytes × ℕ :=
  if 2 < s.length then
    let suffix := (s.drop (s.length - 2)).map toUpper
    if suffix = bytesOf "KB" then (s.take (s.length - 2), 1024)
    else if suffix = bytesOf "MB" then (s.take (s.length - 2), 1024 * 1024)
    else if suffix = bytesOf "GB" then (s.take (s.length - 2), 1024 * 1024 * 1024)
    -- a `B` alone has to be a capital
    else if s.getLast? = some 66 then (s.take (s.length - 1), 1)
    else (s, 1)
  else (s, 1)

/-- `ParseBytes`. The product is a `size_t`. -/
def parseBytes (s : Bytes) : ℕ :=
  match stoull (splitUnit s).1 with
  | some value => value * (splitUnit s).2 % 2 ^ 64
  | none => 100 * 1024 * 1024

/-- The number in front of the unit of a duration, and the unit in milliseconds. Of an empty string
`back` is undefined; what it reads there is taken to be no `s`. -/
def splitDurationUnit (s : Bytes) : Bytes × ℤ :=
  if 2 < s.length ∧ s.drop (s.length - 2) = bytesOf "ms" then (s.take (s.length - 2), 1)
  else if s.getLast? = some 115 then (s.take (s.length - 1), 1000)
  else (s, 1)

/-- `ParseDuration`. The product is a `long long`, with two's complement where it overflows. -/
def parseDuration (s : Bytes) : ℤ :=
  match stoll (splitDurationUnit s).1 with
  | some value => (value * (splitDurationUnit s).2).bmod (2 ^ 64)
  | none => 1000

/-- A value that says yes. -/
def isTrue (value : Bytes) : Bool := value = bytesOf "true"

/-- The body of the loop of `ParseConfig`, for a pair of a key and a value. -/
def setField (config : LoggerConfig) (key value : Bytes) : LoggerConfig :=
  if key = bytesOf "appname" then { config with appName := value }
  else if key = bytesOf "thread_name" then { config with threadName := value }
  else if key = bytesOf "console" then { config with consoleEnabled := isTrue value }
  else if key = bytesOf "logfile" then { config with fileEnabled := true, filePath := value }
  else if key = bytesOf "syslog" then { config with syslogEnabled := isTrue value }
  else if key = bytesOf "kafka" then { config with kafkaEnabled := isTrue value }
  else if key = bytesOf "kafka_broker" then { config with kafkaBroker := value }
  else if key = bytesOf "kafka_topic" then { config with kafkaTopic := value }
  else if key = bytesOf "kafka_partition" then
    -- what `std::stoi` throws is swallowed, and the field stays
    { config with kafkaPartition := (stoi value).getD config.kafkaPartition }
  else if key = bytesOf "kafka_compression" then { config with kafkaCompression := value }
  else if key = bytesOf "syslog_facility" then { config with syslogFacility := value }
  else if key = bytesOf "syslog_server" then { config with syslogServer := value }
  else if key = bytesOf "rotation_size" then { config with rotationSize := parseBytes value }
  else if key = bytesOf "rotation_time" then { config with rotationTime := value }
  else if key = bytesOf "max_backups" then
    { config with maxBackups := (stoi value).getD config.maxBackups }
  else if key = bytesOf "rotation_compress" then { config with rotationCompress := isTrue value }
  else if key = bytesOf "severity" then { config with severity := stringToLogLevel value }
  else if key = bytesOf "format" then { config with format := value }
  else if key = bytesOf "timestamp_precision" then { config with timestampPrecision := value }
  else if key = bytesOf "include_metadata" then { config with includeMetadata := isTrue value }
  else if key = bytesOf "include_caller" then { config with includeCaller := isTrue value }
  else if key = bytesOf "async" then { config with async := isTrue value }
  else if key = bytesOf "async_queue_size" then
    { config with asyncQueueSize := (stoull value).getD config.asyncQueueSize }
  else if key = bytesOf "flush_interval" then { config with flushInterval := parseDuration value }
  else if key = bytesOf "buffer_size" then
    { config with bufferSize := (stoull value).getD config.bufferSize }
  else if key = bytesOf "batch_size" then
    { config with batchSize := (stoull value).getD config.batchSize }
  else if key = bytesOf "overflow_policy" then { config with overflowPolicy := value }
  else config

/-- The body of the loop of `ParseConfig`: a part that is not a pair is skipped. -/
def setPair (config : LoggerConfig) (pair : Bytes) : LoggerConfig :=
  match split pair 61 with
  | [key, value] => setField config key value
  | _ => config

/-- `ParseConfig`, of the memory from its pointer on, or of a null pointer. The string ends at the
first NUL. -/
def parseConfig (configString : Option Bytes) : LoggerConfig :=
  match configString with
  | some memory => (split (memory.takeWhile (· ≠ 0)) 59).foldl setPair {}
  | none => {}

/-! ## Writing the string -/

/-- `GenerateLoggerConfig`. -/
def generateLoggerConfig (config : LoggingConfig) : Bytes :=
  bytesOf "severity=" ++ config.level ++ bytesOf ";" ++
    (bytesOf "format=" ++ config.format ++ bytesOf ";") ++
    (if config.output = bytesOf "file" ∨ config.filePath ≠ [] then
      -- the console stays on beside the file
      bytesOf "logfile=" ++ config.filePath ++ bytesOf ";" ++ bytesOf "console=true;"
    else bytesOf "console=true;") ++
    (if config.compress then bytesOf "rotation_compress=true;" else [])

/-- `c_str`. -/
def cStr (s : Bytes) : Bytes := s ++ [0]

/-- The settings as the logger should have them. -/
def settings (config : LoggingConfig) : LoggerConfig where
  severity := stringToLogLevel config.level
  format := config.format
  fileEnabled := config.output = bytesOf "file" ∨ config.filePath ≠ []
  filePath := config.filePath
  rotationCompress := config.compress

/-- The text has none of the bytes that mean something in the string, which are `;`, `=` and NUL. -/
def Clean (text : Bytes) : Prop := 59 ∉ text ∧ 61 ∉ text ∧ 0 ∉ text

instance (text : Bytes) : Decidable (Clean text) := inferInstanceAs (Decidable (_ ∧ _ ∧ _))

/-! ## Splitting -/

/-- A text that the delimiter ends splits into the parts in front of it. -/
theorem split_flatMap {d : UInt8} {parts : List Bytes} (h : ∀ part ∈ parts, d ∉ part) :
    split (parts.flatMap fun part => part ++ [d]) d = parts := by
  -- behind the last delimiter there is an empty part, which `getline` does not return
  have hsplit : (parts.flatMap fun part => part ++ [d]).splitOn d = parts ++ [[]] := by
    induction parts with
    | nil => rfl
    | cons part parts ih =>
        rw [List.flatMap_cons, List.append_assoc, List.singleton_append,
          List.splitOn_append_cons_self_of_not_mem (h part List.mem_cons_self),
          ih fun part' hpart' => h part' (List.mem_cons_of_mem _ hpart')]
        rfl
  simp only [split, hsplit, List.getLast?_concat, if_true, List.dropLast_concat]

/-- A pair splits into its key and its value, if that is not empty. -/
theorem split_pair {key value : Bytes} (hkey : 61 ∉ key) (hvalue : 61 ∉ value) :
    split (key ++ 61 :: value) 61 = if value = [] then [key] else [key, value] := by
  have hsplit : (key ++ 61 :: value).splitOn 61 = [key, value] := by
    rw [List.splitOn_append_cons_self_of_not_mem hkey, List.splitOn_eq_singleton hvalue]
  simp only [split, hsplit, List.getLast?_cons_cons, List.getLast?_singleton, Option.some_inj]
  split
  · rfl
  · rfl

/-- What a pair sets, if it has a value. -/
def assign (config : LoggerConfig) (pair : Bytes × Bytes) : LoggerConfig :=
  if pair.2 = [] then config else setField config pair.1 pair.2

/-- The text of a pair. -/
def pairText (pair : Bytes × Bytes) : Bytes := pair.1 ++ 61 :: pair.2

/-- The text of a pair is taken apart at its equals sign. -/
theorem setPair_pairText (config : LoggerConfig) {pair : Bytes × Bytes} (hkey : 61 ∉ pair.1)
    (hvalue : 61 ∉ pair.2) : setPair config (pairText pair) = assign config pair := by
  rw [setPair, pairText, split_pair hkey hvalue, assign]
  split_ifs
  · rfl
  · rfl

/-! ## What is read of what was written -/

/-- The pairs in the string that the server writes. -/
def pairs (config : LoggingConfig) : List (Bytes × Bytes) :=
  [(bytesOf "severity", config.level), (bytesOf "format", config.format)] ++
    (if config.output = bytesOf "file" ∨ config.filePath ≠ [] then
      [(bytesOf "logfile", config.filePath)] else []) ++
    [(bytesOf "console", bytesOf "true")] ++
    (if config.compress then [(bytesOf "rotation_compress", bytesOf "true")] else [])

/-- The text generated is that of its pairs, each with a semicolon. -/
theorem generateLoggerConfig_eq (config : LoggingConfig) :
    generateLoggerConfig config
      = ((pairs config).map pairText).flatMap fun part => part ++ [59] := by
  have hseverity : bytesOf "severity=" = bytesOf "severity" ++ [61] := by decide
  have hformat : bytesOf "format=" = bytesOf "format" ++ [61] := by decide
  have hlogfile : bytesOf "logfile=" = bytesOf "logfile" ++ [61] := by decide
  have hconsole : bytesOf "console=true;" = bytesOf "console" ++ 61 :: bytesOf "true" ++ [59] := by
    decide
  have hcompress : bytesOf "rotation_compress=true;"
      = bytesOf "rotation_compress" ++ 61 :: bytesOf "true" ++ [59] := by decide
  have hend : bytesOf ";" = [59] := by decide
  rw [generateLoggerConfig, pairs, hseverity, hformat, hlogfile, hconsole, hcompress, hend]
  split <;> split <;> simp [pairText]

/-- **What is read of clean pairs**: every pair with a value sets its field, one after another. -/
theorem parseConfig_pairs {pairs : List (Bytes × Bytes)}
    (hclean : ∀ pair ∈ pairs, Clean pair.1 ∧ Clean pair.2) :
    parseConfig (some (cStr ((pairs.map pairText).flatMap fun part => part ++ [59])))
      = pairs.foldl assign {} := by
  -- no part has a semicolon or a NUL byte in it, so that the text is read to its end and split as
  -- it was joined
  have hparts : ∀ part ∈ pairs.map pairText, 59 ∉ part ∧ 0 ∉ part := by
    intro part hpart
    obtain ⟨pair, hpair, rfl⟩ := List.mem_map.mp hpart
    obtain ⟨⟨hkey, -, hkey'⟩, hvalue, -, hvalue'⟩ := hclean pair hpair
    refine ⟨?_, ?_⟩
    · rw [pairText, List.mem_append, List.mem_cons, not_or, not_or]
      exact ⟨hkey, by decide, hvalue⟩
    · rw [pairText, List.mem_append, List.mem_cons, not_or, not_or]
      exact ⟨hkey', by decide, hvalue'⟩
  have htext : ∀ b ∈ (pairs.map pairText).flatMap fun part => part ++ [59], decide (b ≠ 0) = true := by
    intro b hb
    obtain ⟨part, hpart, hb⟩ := List.mem_flatMap.mp hb
    rw [decide_eq_true_eq]
    rintro rfl
    rcases List.mem_append.mp hb with hb | hb
    · exact (hparts part hpart).2 hb
    · exact absurd (List.mem_singleton.mp hb) (by decide)
  have hread : (cStr ((pairs.map pairText).flatMap fun part => part ++ [59])).takeWhile (· ≠ 0)
      = (pairs.map pairText).flatMap fun part => part ++ [59] := by
    rw [cStr, List.takeWhile_append_of_pos htext]
    exact List.append_nil _
  rw [parseConfig, hread, split_flatMap fun part hpart => (hparts part hpart).1, List.foldl_map]
  apply List.foldl_ext
  intro config pair hpair
  exact setPair_pairText config (hclean pair hpair).1.2.1 (hclean pair hpair).2.2.1

/-- With clean settings every key and value is clean. -/
theorem clean_pairs {config : LoggingConfig} (hlevel : Clean config.level)
    (hformat : Clean config.format) (hpath : Clean config.filePath) :
    ∀ pair ∈ pairs config, Clean pair.1 ∧ Clean pair.2 := by
  have hkeys : Clean (bytesOf "severity") ∧ Clean (bytesOf "format") ∧ Clean (bytesOf "logfile") ∧
      Clean (bytesOf "console") ∧ Clean (bytesOf "rotation_compress") ∧ Clean (bytesOf "true") := by
    decide
  obtain ⟨hseverity, hformat', hlogfile, hconsole, hcompress, htrue⟩ := hkeys
  intro pair hpair
  simp only [pairs, List.mem_append, List.mem_cons, List.not_mem_nil, or_false] at hpair
  rcases hpair with (((rfl | rfl) | hpair) | rfl) | hpair
  · exact ⟨hseverity, hlevel⟩
  · exact ⟨hformat', hformat⟩
  · split at hpair
    · rw [List.mem_singleton.mp hpair]
      exact ⟨hlogfile, hpath⟩
    · exact absurd hpair List.not_mem_nil
  · exact ⟨hconsole, htrue⟩
  · split at hpair
    · rw [List.mem_singleton.mp hpair]
      exact ⟨hcompress, htrue⟩
    · exact absurd hpair List.not_mem_nil

section Assign

variable (logger : LoggerConfig)

/-- A level without a name is the default. -/
theorem assign_severity (level : Bytes) (hdefault : logger.severity = .info) :
    assign logger (bytesOf "severity", level) = { logger with severity := stringToLogLevel level } := by
  rw [assign]
  split
  · next h =>
      have hnil : stringToLogLevel level = logger.severity := by
        rw [hdefault, (show level = [] from h)]
        decide
      rw [hnil]
  · rfl

/-- An empty format leaves the default. -/
theorem assign_format (format : Bytes) :
    assign logger (bytesOf "format", format)
      = { logger with format := if format = [] then logger.format else format } := by
  by_cases h : format = []
  · rw [if_pos h]
    exact if_pos h
  · rw [if_neg h]
    exact if_neg h

theorem assign_logfile (filePath : Bytes) :
    assign logger (bytesOf "logfile", filePath) =
      if filePath = [] then logger else { logger with fileEnabled := true, filePath := filePath } := rfl

theorem assign_console :
    assign logger (bytesOf "console", bytesOf "true") = { logger with consoleEnabled := true } := rfl

theorem assign_rotationCompress :
    assign logger (bytesOf "rotation_compress", bytesOf "true")
      = { logger with rotationCompress := true } := rfl

end Assign

/-- The fields that the pairs of the server set. -/
theorem foldl_pairs (config : LoggingConfig) :
    (pairs config).foldl assign {} = { settings config with
      format := if config.format = [] then bytesOf "text" else config.format
      fileEnabled := decide (config.filePath ≠ []) } := by
  -- The two pairs that may be missing are the setter either way, because the default is what it
  -- sets.
  have hlogfile : ∀ logger : LoggerConfig, logger.fileEnabled = false → logger.filePath = [] →
      (if config.output = bytesOf "file" ∨ config.filePath ≠ [] then
          [(bytesOf "logfile", config.filePath)] else []).foldl assign logger
        = { logger with fileEnabled := decide (config.filePath ≠ []), filePath := config.filePath } := by
    intro logger henabled hnone
    by_cases h : config.filePath = []
    · -- there is no such pair, or it is skipped
      have hskipped : { logger with
          fileEnabled := decide (config.filePath ≠ []), filePath := config.filePath } = logger := by
        rw [h, decide_eq_false fun hne => hne rfl, ← henabled, ← hnone]
      rw [hskipped]
      split
      · exact (assign_logfile logger _).trans (if_pos h)
      · rfl
    · rw [if_pos (.inr h), decide_eq_true h]
      exact (assign_logfile logger _).trans (if_neg h)
  have hcompress : ∀ logger : LoggerConfig, logger.rotationCompress = false →
      (if config.compress then
          [(bytesOf "rotation_compress", bytesOf "true")] else []).foldl assign logger
        = { logger with rotationCompress := config.compress } := by
    intro logger hdefault
    by_cases h : config.compress = true
    · rw [if_pos h, h]
      exact assign_rotationCompress logger
    · rw [if_neg h, Bool.not_eq_true _ |>.mp h, ← hdefault]
      rfl
  simp only [pairs, List.foldl_append, List.foldl_cons, List.foldl_nil]
  rw [assign_severity _ _ rfl, assign_format, hlogfile _ rfl rfl, assign_console, hcompress _ rfl]
  rfl

/-- **The settings of the server reach the logger**, if their texts are clean: the level, the format
unless that is empty, the path, the compression, and the defaults of all other fields. The log file
is enabled as it should be, if an output to a file comes with a path. -/
theorem parseConfig_generate (config : LoggingConfig) (hlevel : Clean config.level)
    (hformat : Clean config.format) (hpath : Clean config.filePath) :
    let parsed := parseConfig (some (cStr (generateLoggerConfig config)))
    parsed = { settings config with
        format := if config.format = [] then bytesOf "text" else config.format
        fileEnabled := parsed.fileEnabled } ∧
      ((config.output = bytesOf "file" → config.filePath ≠ []) →
        parsed.fileEnabled = (settings config).fileEnabled) := by
  intro parsed
  have hparsed : parsed = { settings config with
      format := if config.format = [] then bytesOf "text" else config.format
      fileEnabled := decide (config.filePath ≠ []) } := by
    change parseConfig (some (cStr (generateLoggerConfig config))) = _
    rw [generateLoggerConfig_eq, parseConfig_pairs (clean_pairs hlevel hformat hpath)]
    exact foldl_pairs config
  rw [hparsed]
  refine ⟨rfl, ?_⟩
  intro hfile
  apply decide_eq_decide.mpr
  exact ⟨.inr, fun h => h.elim hfile id⟩

/-- JSON lines to files that are compressed. -/
def jsonSettings : LoggingConfig where
  level := bytesOf "debug"
  format := bytesOf "json"
  output := bytesOf "file"
  filePath := bytesOf "server.log"
  compress := true

/-- The format of a logger does not switch its file off. -/
theorem parseConfig_generate_json :
    (parseConfig (some (cStr (generateLoggerConfig jsonSettings)))).fileEnabled = true :=
  (parseConfig_generate jsonSettings (by decide) (by decide) (by decide)).2
    (by decide)

/-- Of a format with a `;` the logger gets the part in front of it. -/
theorem format_is_cut :
    let config : LoggingConfig := { format := bytesOf "a;b" }
    (parseConfig (some (cStr (generateLoggerConfig config)))).format = bytesOf "a" ∧
      parseConfig (some (cStr (generateLoggerConfig config))) ≠ settings config := by
  intro config
  refine ⟨by decide, by decide⟩

end LogConfig

end NetworkLib
