import NetworkLib.Logging.LogConfig

/-! # Sizes and durations in the configuration string

`rotation_size` and `flush_interval` take a numeral and a unit. `ParseBytes` multiplies modulo `2 ^
64`, and `ParseDuration` leaves the product to the signed overflow; the default is stored only where
the numeral alone is too large. `ParseDuration` looks at the last character of its string, which
`flush_interval==` makes empty. So both are decoded exactly if and only if there is no such part,
and the products fit or the numerals do not (`decodesExactly_iff`). -/

namespace NetworkLib.LogConfig

/-! ## What C++ defines -/

/-- `ParseDuration` calls `back`. -/
def LooksAtBack (s : Bytes) : Prop := ¬ (2 < s.length ∧ s.drop (s.length - 2) = bytesOf "ms")

instance (s : Bytes) : Decidable (LooksAtBack s) := inferInstanceAs (Decidable (¬ _))

/-- The product in `ParseDuration`, or the default; `none` where the product is out of the range of
`long long`, where C++ leaves it undefined. -/
def definedProduct (text : Bytes) (unit : ℤ) : Option ℤ :=
  match stoll text with
  | some value =>
      if -2 ^ 63 ≤ value * unit ∧ value * unit < 2 ^ 63 then some (value * unit) else none
  | none => some 1000

/-- `ParseDuration`; `none` where C++ leaves it undefined, which is at the last character of an
empty string and at a product that overflows. -/
def definedDuration (s : Bytes) : Option ℤ :=
  if 2 < s.length ∧ s.drop (s.length - 2) = bytesOf "ms" then
    definedProduct (s.take (s.length - 2)) 1
  else
    match s.getLast? with
    | some b => if b = 115 then definedProduct (s.take (s.length - 1)) 1000 else definedProduct s 1
    | none => none

/-- A product in range is what two's complement makes of it. -/
theorem bmod_of_range {value : ℤ} (h : -2 ^ 63 ≤ value ∧ value < 2 ^ 63) :
    value.bmod (2 ^ 64) = value := by
  apply Int.bmod_eq_of_le
  · omega
  · omega

/-- A duration is the product of its number and its unit, where that is defined. -/
theorem parseDuration_of_product {s : Bytes} {value : ℤ}
    (h : definedProduct (splitDurationUnit s).1 (splitDurationUnit s).2 = some value) :
    parseDuration s = value := by
  rw [definedProduct] at h
  rw [parseDuration]
  cases hread : stoll (splitDurationUnit s).1 with
  | none =>
      rw [hread] at h
      exact Option.some_inj.mp h
  | some number =>
      rw [hread] at h
      simp only at h
      split at h
      · next hrange =>
          rw [← Option.some_inj.mp h]
          exact bmod_of_range hrange
      · cases h

/-- Where C++ defines the duration it is the one that is stored. -/
theorem parseDuration_of_defined {s : Bytes} {value : ℤ} (h : definedDuration s = some value) :
    parseDuration s = value := by
  apply parseDuration_of_product
  rw [definedDuration] at h
  rw [splitDurationUnit]
  split at h
  · next hms =>
      rw [if_pos hms]
      exact h
  · next hms =>
      rw [if_neg hms]
      split at h
      · next b hlast =>
          rw [hlast]
          split at h
          · next hb =>
              rw [if_pos (congrArg some hb)]
              exact h
          · next hb =>
              rw [if_neg fun heq => hb (Option.some_inj.mp heq)]
              exact h
      · cases h

/-! ## The pairs of a string -/

/-- The parts of a configuration string. -/
def partsOf (configString : Option Bytes) : List Bytes :=
  match configString with
  | some memory => split (memory.takeWhile (· ≠ 0)) 59
  | none => []

/-- The key and the value of a part, if it has both. -/
def pairOf (part : Bytes) : Option (Bytes × Bytes) :=
  match split part 61 with
  | [key, value] => some (key, value)
  | _ => none

/-- The pairs of a configuration string. -/
def pairsOf (configString : Option Bytes) : List (Bytes × Bytes) :=
  (partsOf configString).filterMap pairOf

/-- The last value that the string gives for a key. -/
def lastValue (key : Bytes) (configString : Option Bytes) : Option Bytes :=
  ((pairsOf configString).filter fun pair => pair.1 = key).getLast?.map Prod.snd

/-- A part that is no pair changes nothing. -/
theorem setPair_eq (config : LoggerConfig) (part : Bytes) :
    setPair config part
      = (pairOf part).elim config fun pair => setField config pair.1 pair.2 := by
  rw [setPair, pairOf]
  rcases split part 61 with _ | ⟨key, _ | ⟨value, _ | ⟨other, rest⟩⟩⟩
  · rfl
  · rfl
  · rfl
  · rfl

/-- A configuration is set pair by pair. -/
theorem parseConfig_eq (configString : Option Bytes) :
    parseConfig configString
      = (pairsOf configString).foldl (fun config pair => setField config pair.1 pair.2) {} := by
  have hparts : parseConfig configString = (partsOf configString).foldl setPair {} := by
    cases configString with
    | none => rfl
    | some memory => rfl
  rw [hparts, pairsOf]
  generalize ({} : LoggerConfig) = config
  induction partsOf configString generalizing config with
  | nil => rfl
  | cons part parts ih =>
      rw [List.foldl_cons, ih, setPair_eq]
      cases hpair : pairOf part with
      | none =>
          rw [List.filterMap_cons_none hpair]
          rfl
      | some pair =>
          rw [List.filterMap_cons_some hpair, List.foldl_cons]
          rfl

/-- A part with an empty value ends in two delimiters: `getline` returns no empty text at the end.
-/
theorem pairOf_eq_nil_iff {part key : Bytes} (hkey : 61 ∉ key) :
    pairOf part = some (key, []) ↔ part = key ++ [61, 61] := by
  have hsplit : (key ++ [61, 61]).splitOn 61 = [key, [], []] :=
    List.splitOn_append_cons_self_of_not_mem hkey [61]
  constructor
  · intro h
    have hpair : split part 61 = [key, []] := by
      rw [pairOf] at h
      split at h
      · next heq =>
          cases h
          exact heq
      · cases h
    rw [split] at hpair
    split at hpair
    -- an empty last token is dropped, so the part has one more `=` than the pair needs
    · next hlast =>
        have htokens := List.dropLast_append_getLast? [] hlast
        rw [hpair] at htokens
        apply_fun List.intercalate [61] at htokens
        rw [List.intercalate_splitOn] at htokens
        exact htokens.symm
    · next hlast =>
        rw [hpair] at hlast
        exact absurd rfl hlast
  · rintro rfl
    rw [pairOf, split, hsplit]
    rfl

section Field

variable {α : Type*} {get : LoggerConfig → α} {key : Bytes} {parse : Bytes → α}
  (hset : ∀ config key' value, get (setField config key' value)
    = if key' = key then parse value else get config)

include hset

/-- The last pair with its key decides what a field gets. -/
theorem get_parseConfig (configString : Option Bytes) :
    get (parseConfig configString) = ((lastValue key configString).map parse).getD (get {}) := by
  rw [parseConfig_eq, lastValue]
  induction pairsOf configString using List.reverseRecOn with
  | nil => rfl
  | append_singleton pairs pair ih =>
      rw [List.foldl_append, List.foldl_cons, List.foldl_nil, hset, List.filter_append, ih]
      by_cases hkey : pair.1 = key
      · have hone : [pair].filter (fun pair => pair.1 = key) = [pair] := by simp [hkey]
        rw [if_pos hkey, hone, List.getLast?_concat]
        rfl
      · have hnone : [pair].filter (fun pair => pair.1 = key) = [] := by simp [hkey]
        rw [if_neg hkey, hnone, List.append_nil]

end Field

/-- Only `rotation_size` sets the rotation size. -/
theorem rotationSize_setField (config : LoggerConfig) (key value : Bytes) :
    (setField config key value).rotationSize
      = if key = bytesOf "rotation_size" then parseBytes value else config.rotationSize := by
  by_cases hkey : key = bytesOf "rotation_size"
  · rw [if_pos hkey, hkey]
    rfl
  · simp only [setField, apply_ite LoggerConfig.rotationSize, if_neg hkey, ite_self]

/-- Only `flush_interval` sets the flush interval. -/
theorem flushInterval_setField (config : LoggerConfig) (key value : Bytes) :
    (setField config key value).flushInterval
      = if key = bytesOf "flush_interval" then parseDuration value else config.flushInterval := by
  by_cases hkey : key = bytesOf "flush_interval"
  · rw [if_pos hkey, hkey]
    rfl
  · simp only [setField, apply_ite LoggerConfig.flushInterval, if_neg hkey, ite_self]

/-! ## Numerals with a unit -/

/-- The units of a size. -/
def sizeUnits : List (Bytes × ℕ) :=
  [([], 1), (bytesOf "B", 1), (bytesOf "KB", 1024), (bytesOf "MB", 1024 * 1024),
    (bytesOf "GB", 1024 * 1024 * 1024)]

/-- The suffix is a unit of a size, in capitals or not. -/
def IsSizeUnit (suffix : Bytes) (unit : ℕ) : Prop := (suffix.map toUpper, unit) ∈ sizeUnits

instance (suffix : Bytes) (unit : ℕ) : Decidable (IsSizeUnit suffix unit) :=
  inferInstanceAs (Decidable (_ ∈ _))

/-- The units of a duration, in milliseconds. -/
def durationUnits : List (Bytes × ℕ) := [([], 1), (bytesOf "ms", 1), (bytesOf "s", 1000)]

/-- The suffix is a unit of a duration. -/
def IsDurationUnit (suffix : Bytes) (unit : ℕ) : Prop := (suffix, unit) ∈ durationUnits

instance (suffix : Bytes) (unit : ℕ) : Decidable (IsDurationUnit suffix unit) :=
  inferInstanceAs (Decidable (_ ∈ _))

variable {digits back suffix : Bytes} {unit : ℕ}

/-- A digit is its own capital, and no letter of a unit. -/
theorem isDigit_unit : ∀ b : UInt8, isDigit b = true →
    toUpper b = b ∧ b ≠ 66 ∧ b ≠ 71 ∧ b ≠ 75 ∧ b ≠ 77 ∧ b ≠ 109 ∧ b ≠ 115 := by
  apply forall_byte
  decide +kernel

/-- The letter of bytes is no digit. -/
theorem not_isDigit_of_upper : ∀ b : UInt8, toUpper b = 66 → isDigit b = false := by
  apply forall_byte
  decide +kernel

/-- The digits in front are read, up to what is none. -/
theorem strtol_front (hdigits : IsNumeral digits) (hback : ∀ b ∈ back, isDigit b = false) :
    strtol (digits ++ back) = some (ofDigits digits : ℤ) := by
  have hread : strtol ([] ++ digits ++ back) = some (ofDigits digits : ℤ) :=
    strtol_numeral (fun _ hb => absurd hb List.not_mem_nil) hdigits hback
  exact hread

/-- As an unsigned number they are read if they fit in 64 bits. -/
theorem stoull_numeral (hdigits : IsNumeral digits) (hback : ∀ b ∈ back, isDigit b = false) :
    stoull (digits ++ back) = if ofDigits digits < 2 ^ 64 then some (ofDigits digits) else none := by
  rw [stoull, strtol_front hdigits hback, Option.bind_some, Int.natAbs_natCast]
  split
  · next h =>
      have hsize : toSize (ofDigits digits : ℤ) = ofDigits digits := by
        unfold toSize
        omega
      rw [hsize]
  · rfl

/-- As a signed number they are read if they fit in 63. -/
theorem stoll_numeral (hdigits : IsNumeral digits) (hback : ∀ b ∈ back, isDigit b = false) :
    stoll (digits ++ back)
      = if ofDigits digits < 2 ^ 63 then some (ofDigits digits : ℤ) else none := by
  rw [stoll, strtol_front hdigits hback, Option.bind_some]
  have hrange : (-2 ^ 63 ≤ (ofDigits digits : ℤ) ∧ (ofDigits digits : ℤ) < 2 ^ 63)
      ↔ ofDigits digits < 2 ^ 63 := by omega
  simp only [hrange]

/-- What C++ makes of a number of units. -/
def definedTimes (n unit : ℕ) : Option ℤ :=
  if n < 2 ^ 63 then if n * unit < 2 ^ 63 then some ((n * unit : ℕ) : ℤ) else none else some 1000

/-- The product of digits and a unit is that of their number. -/
theorem definedProduct_numeral (hdigits : IsNumeral digits) (unit : ℕ) :
    definedProduct digits unit = definedTimes (ofDigits digits) unit := by
  have hread : stoll (digits ++ []) = _ :=
    stoll_numeral hdigits fun b hb => absurd hb List.not_mem_nil
  rw [List.append_nil] at hread
  rw [definedProduct, hread, definedTimes]
  by_cases hread : ofDigits digits < 2 ^ 63
  · rw [if_pos hread, if_pos hread]
    have hrange : (-2 ^ 63 ≤ (ofDigits digits : ℤ) * unit ∧ (ofDigits digits : ℤ) * unit < 2 ^ 63)
        ↔ ofDigits digits * unit < 2 ^ 63 := by
      rw [← Nat.cast_mul]
      omega
    simp only [hrange, Nat.cast_mul]
  · rw [if_neg hread, if_neg hread]

/-- The last two characters begin with a digit, if there is at most one character behind the
numeral. -/
theorem exists_head_digit (hdigits : IsNumeral digits) (back : Bytes) (hback : back.length ≤ 1) :
    ∃ d, ((digits ++ back).drop ((digits ++ back).length - 2)).head? = some d ∧
      isDigit d = true := by
  have hpos := List.length_pos_of_ne_nil hdigits.1
  have hlt : (digits ++ back).length - 2 < digits.length := by
    rw [List.length_append]
    omega
  refine ⟨digits[(digits ++ back).length - 2], ?_, hdigits.2 _ (List.getElem_mem hlt)⟩
  rw [List.head?_drop, List.getElem?_append_left hlt, List.getElem?_eq_getElem hlt]

/-- Where the last two characters are no unit only a `B` is cut off. -/
theorem splitUnit_of_digit {s : Bytes} {d : UInt8} (hhead : (s.drop (s.length - 2)).head? = some d)
    (hd : isDigit d = true) :
    splitUnit s = if 2 < s.length ∧ s.getLast? = some 66 then (s.take (s.length - 1), 1) else (s, 1) := by
  obtain ⟨hupper, -, hG, hK, hM, -⟩ := isDigit_unit d hd
  obtain ⟨rest, hdrop⟩ := List.head?_eq_some_iff.mp hhead
  have hne : ∀ letter, d ≠ letter → ((d :: rest).map toUpper ≠ [letter, 66]) := by
    intro letter hletter heq
    rw [List.map_cons, hupper] at heq
    exact hletter (List.cons.inj heq).1
  rw [splitUnit, hdrop]
  simp only [show bytesOf "KB" = [75, 66] from rfl, show bytesOf "MB" = [77, 66] from rfl,
    show bytesOf "GB" = [71, 66] from rfl, if_neg (hne 75 hK), if_neg (hne 77 hM), if_neg (hne 71 hG)]
  by_cases hlen : 2 < s.length
  · simp only [hlen, true_and, if_true]
  · simp only [hlen, false_and, if_false]

/-- A unit of known length is split off. -/
theorem drop_suffix (digits : Bytes) {n : ℕ} (h : suffix.length = n) :
    (digits ++ suffix).drop ((digits ++ suffix).length - n) = suffix ∧
      (digits ++ suffix).take ((digits ++ suffix).length - n) = digits := by
  rw [List.length_append, h, Nat.add_sub_cancel]
  exact ⟨List.drop_left, List.take_left⟩

/-- A unit of two letters is cut off. -/
theorem splitUnit_of_letters (hpos : 0 < digits.length) (hunit : IsSizeUnit suffix unit)
    (htwo : suffix.length = 2) : splitUnit (digits ++ suffix) = (digits, unit) := by
  have hlen : 2 < (digits ++ suffix).length := by
    rw [List.length_append]
    omega
  obtain ⟨hdrop, htake⟩ := drop_suffix digits htwo
  have hkm : bytesOf "MB" ≠ bytesOf "KB" := by decide
  have hkg : bytesOf "GB" ≠ bytesOf "KB" := by decide
  have hmg : bytesOf "GB" ≠ bytesOf "MB" := by decide
  rw [splitUnit, if_pos hlen, hdrop, htake]
  simp only [IsSizeUnit, sizeUnits, List.mem_cons, Prod.mk.injEq, List.not_mem_nil, or_false] at hunit
  rcases hunit with ⟨hmap, rfl⟩ | ⟨hmap, rfl⟩ | ⟨hmap, rfl⟩ | ⟨hmap, rfl⟩ | ⟨hmap, rfl⟩
  · rw [List.map_eq_nil_iff.mp hmap] at htwo
    cases htwo
  · have hone := congrArg List.length hmap
    rw [List.length_map, htwo] at hone
    cases hone
  · simp only [hmap, if_true]
  · simp only [hmap, if_neg hkm, if_true]
  · simp only [hmap, if_neg hkg, if_neg hmg, if_true]

/-- A unit that is no pair of letters counts bytes, and is empty or a `B`. -/
theorem IsSizeUnit.short (hunit : IsSizeUnit suffix unit) (htwo : suffix.length ≠ 2) :
    unit = 1 ∧ (suffix = [] ∨ ∃ b, suffix = [b] ∧ toUpper b = 66) := by
  have hletters : suffix.map toUpper = bytesOf "KB" ∨ suffix.map toUpper = bytesOf "MB" ∨
      suffix.map toUpper = bytesOf "GB" → suffix.length = 2 := by
    rintro (h | h | h)
    all_goals
      rw [← List.length_map toUpper, h]
      rfl
  simp only [IsSizeUnit, sizeUnits, List.mem_cons, Prod.mk.injEq, List.not_mem_nil,
    or_false] at hunit
  rcases hunit with ⟨hmap, rfl⟩ | ⟨hmap, rfl⟩ | ⟨hmap, -⟩ | ⟨hmap, -⟩ | ⟨hmap, -⟩
  · exact ⟨rfl, .inl (List.map_eq_nil_iff.mp hmap)⟩
  · obtain ⟨b, rest, rfl, hb, hrest⟩ := List.map_eq_cons_iff.mp hmap
    exact ⟨rfl, .inr ⟨b, by rw [List.map_eq_nil_iff.mp hrest], hb⟩⟩
  · exact absurd (hletters (.inl hmap)) htwo
  · exact absurd (hletters (.inr (.inl hmap))) htwo
  · exact absurd (hletters (.inr (.inr hmap))) htwo

/-- **The unit is cut off**, or is no digit and of value one. -/
theorem splitUnit_numeral (hdigits : IsNumeral digits) (hunit : IsSizeUnit suffix unit) :
    ∃ back, (∀ b ∈ back, isDigit b = false) ∧
      splitUnit (digits ++ suffix) = (digits ++ back, unit) := by
  by_cases htwo : suffix.length = 2
  · refine ⟨[], fun b hb => absurd hb List.not_mem_nil, ?_⟩
    rw [splitUnit_of_letters (List.length_pos_of_ne_nil hdigits.1) hunit htwo, List.append_nil]
  · obtain ⟨rfl, rfl | ⟨b, rfl, hb⟩⟩ := hunit.short htwo
    · refine ⟨[], fun b hb => absurd hb List.not_mem_nil, ?_⟩
      obtain ⟨d, hhead, hd⟩ := exists_head_digit hdigits [] (Nat.zero_le 1)
      rw [splitUnit_of_digit hhead hd, List.append_nil, if_neg]
      rintro ⟨-, hlast⟩
      exact (isDigit_unit 66 (hdigits.2 66 (List.mem_of_getLast? hlast))).2.1 rfl
    · have hback : ∀ b' ∈ [b], isDigit b' = false := by
        intro b' hb'
        rw [List.mem_singleton.mp hb']
        exact not_isDigit_of_upper b hb
      obtain ⟨d, hhead, hd⟩ := exists_head_digit hdigits [b] (Nat.le_refl 1)
      rw [splitUnit_of_digit hhead hd]
      split
      · refine ⟨[], fun b hb => absurd hb List.not_mem_nil, ?_⟩
        rw [(drop_suffix digits (n := 1) rfl).2, List.append_nil]
      · exact ⟨[b], hback, rfl⟩

/-- **A size**: the product is taken modulo `2 ^ 64`, unless the numeral itself is too large. -/
theorem parseBytes_numeral (hdigits : IsNumeral digits) (hunit : IsSizeUnit suffix unit) :
    parseBytes (digits ++ suffix) =
      if ofDigits digits < 2 ^ 64 then ofDigits digits * unit % 2 ^ 64 else 100 * 1024 * 1024 := by
  obtain ⟨back, hback, hsplit⟩ := splitUnit_numeral hdigits hunit
  rw [parseBytes, hsplit, stoull_numeral hdigits hback]
  by_cases hread : ofDigits digits < 2 ^ 64
  · rw [if_pos hread, if_pos hread]
  · rw [if_neg hread, if_neg hread]

/-- **A duration** where C++ defines it. -/
theorem definedDuration_numeral (hdigits : IsNumeral digits) (hunit : IsDurationUnit suffix unit) :
    definedDuration (digits ++ suffix) = definedTimes (ofDigits digits) unit := by
  have hpos := List.length_pos_of_ne_nil hdigits.1
  -- a digit in front of the last character is no `m`
  have hms : ∀ back : Bytes, back.length ≤ 1 →
      ¬ (2 < (digits ++ back).length ∧
        (digits ++ back).drop ((digits ++ back).length - 2) = bytesOf "ms") := by
    rintro back hback ⟨-, hdrop⟩
    obtain ⟨d, hhead, hd⟩ := exists_head_digit hdigits back hback
    rw [hdrop] at hhead
    exact (isDigit_unit d hd).2.2.2.2.2.1 (Option.some_inj.mp hhead).symm
  simp only [IsDurationUnit, durationUnits, List.mem_cons, Prod.mk.injEq, List.not_mem_nil,
    or_false] at hunit
  rcases hunit with ⟨rfl, rfl⟩ | ⟨rfl, rfl⟩ | ⟨rfl, rfl⟩
  · have hnot := hms [] (Nat.zero_le 1)
    rw [List.append_nil] at hnot ⊢
    rw [definedDuration, if_neg hnot, List.getLast?_eq_some_getLast hdigits.1]
    have hlast := isDigit_unit _ (hdigits.2 _ (List.getLast_mem hdigits.1))
    simp only [if_neg hlast.2.2.2.2.2.2]
    exact definedProduct_numeral hdigits 1
  · have htwo : (bytesOf "ms").length = 2 := rfl
    obtain ⟨hdrop, htake⟩ := drop_suffix digits htwo
    have hlen : 2 < (digits ++ bytesOf "ms").length := by
      rw [List.length_append, htwo]
      omega
    rw [definedDuration, if_pos ⟨hlen, hdrop⟩, htake]
    exact definedProduct_numeral hdigits 1
  · have hone : (bytesOf "s").length = 1 := rfl
    have hlast : (digits ++ bytesOf "s").getLast? = some 115 := List.getLast?_concat
    rw [definedDuration, if_neg (hms (bytesOf "s") (Nat.le_refl 1)), hlast,
      (drop_suffix digits hone).2]
    exact definedProduct_numeral hdigits 1000

/-! ## The string as a whole -/

/-- **Exact decoding**: `ParseDuration` looks at no last character of an empty string, and the size
and the duration that the string gives last, where they are numerals with a unit, are stored as they
are if the type can hold them, and replaced by the default otherwise. What is stored for the
duration is what C++ defines. -/
structure DecodesExactly (configString : Option Bytes) : Prop where
  back : ∀ value, (bytesOf "flush_interval", value) ∈ pairsOf configString →
    LooksAtBack value → value ≠ []
  size : ∀ digits suffix unit, IsNumeral digits → IsSizeUnit suffix unit →
    lastValue (bytesOf "rotation_size") configString = some (digits ++ suffix) →
    (parseConfig configString).rotationSize =
      if ofDigits digits * unit < 2 ^ 64 then ofDigits digits * unit else 100 * 1024 * 1024
  duration : ∀ digits suffix unit, IsNumeral digits → IsDurationUnit suffix unit →
    lastValue (bytesOf "flush_interval") configString = some (digits ++ suffix) →
    definedDuration (digits ++ suffix) = some (parseConfig configString).flushInterval ∧
      (parseConfig configString).flushInterval =
        if ofDigits digits * unit < 2 ^ 63 then ((ofDigits digits * unit : ℕ) : ℤ) else 1000

/-- No part of the string is `flush_interval==`; the product of the size fits, or its numeral does
not, or the product is the default modulo `2 ^ 64`; and the product of the duration fits, or its
numeral does not. -/
structure Fits (configString : Option Bytes) : Prop where
  back : bytesOf "flush_interval==" ∉ partsOf configString
  size : ∀ digits suffix unit, IsNumeral digits → IsSizeUnit suffix unit →
    lastValue (bytesOf "rotation_size") configString = some (digits ++ suffix) →
    ofDigits digits * unit < 2 ^ 64 ∨ 2 ^ 64 ≤ ofDigits digits ∨
      ofDigits digits * unit % 2 ^ 64 = 100 * 1024 * 1024
  duration : ∀ digits suffix unit, IsNumeral digits → IsDurationUnit suffix unit →
    lastValue (bytesOf "flush_interval") configString = some (digits ++ suffix) →
    ofDigits digits * unit < 2 ^ 63 ∨ 2 ^ 63 ≤ ofDigits digits

variable {configString : Option Bytes}

/-- `back` is called on no empty string exactly if no part is `flush_interval==`. -/
theorem back_iff :
    (∀ value, (bytesOf "flush_interval", value) ∈ pairsOf configString →
        LooksAtBack value → value ≠ []) ↔
      bytesOf "flush_interval==" ∉ partsOf configString := by
  have hkey : (61 : UInt8) ∉ bytesOf "flush_interval" := by decide
  have hpart : bytesOf "flush_interval==" = bytesOf "flush_interval" ++ [61, 61] := by decide
  constructor
  · intro hall hmem
    have hpair : (bytesOf "flush_interval", []) ∈ pairsOf configString :=
      List.mem_filterMap.mpr ⟨_, hmem, (pairOf_eq_nil_iff hkey).mpr hpart⟩
    exact hall [] hpair (by decide) rfl
  · rintro hnot value hvalue - rfl
    obtain ⟨part, hmem, hpair⟩ := List.mem_filterMap.mp hvalue
    rw [(pairOf_eq_nil_iff hkey).mp hpair, ← hpart] at hmem
    exact hnot hmem

/-- A product below a bound has a number below it. -/
theorem lt_of_mul_lt {n unit bound : ℕ} (hunit : 1 ≤ unit) (h : n * unit < bound) : n < bound :=
  (Nat.le_mul_of_pos_right n hunit).trans_lt h

/-- A unit of sizes is at least one. -/
theorem IsSizeUnit.pos (h : IsSizeUnit suffix unit) : 1 ≤ unit := by
  have hall : ∀ pair ∈ sizeUnits, 1 ≤ pair.2 := by decide
  exact hall _ h

/-- So is a unit of durations. -/
theorem IsDurationUnit.pos (h : IsDurationUnit suffix unit) : 1 ≤ unit := by
  have hall : ∀ pair ∈ durationUnits, 1 ≤ pair.2 := by decide
  exact hall _ h

/-- The rotation size is decoded exactly if the product fits, or its wrap or the default gives the
same. -/
theorem size_iff (hdigits : IsNumeral digits) (hunit : IsSizeUnit suffix unit)
    (hlast : lastValue (bytesOf "rotation_size") configString = some (digits ++ suffix)) :
    (parseConfig configString).rotationSize
        = (if ofDigits digits * unit < 2 ^ 64 then ofDigits digits * unit else 100 * 1024 * 1024) ↔
      ofDigits digits * unit < 2 ^ 64 ∨ 2 ^ 64 ≤ ofDigits digits ∨
        ofDigits digits * unit % 2 ^ 64 = 100 * 1024 * 1024 := by
  rw [get_parseConfig rotationSize_setField, hlast, Option.map_some, Option.getD_some,
    parseBytes_numeral hdigits hunit]
  by_cases hfits : ofDigits digits * unit < 2 ^ 64
  · rw [if_pos (lt_of_mul_lt hunit.pos hfits), if_pos hfits, Nat.mod_eq_of_lt hfits]
    exact iff_of_true rfl (.inl hfits)
  · rw [if_neg hfits]
    by_cases hread : ofDigits digits < 2 ^ 64
    · rw [if_pos hread]
      omega
    · rw [if_neg hread]
      exact iff_of_true rfl (.inr (.inl (Nat.le_of_not_lt hread)))

/-- The flush interval is decoded exactly, and defined, under the like condition. -/
theorem duration_iff (hdigits : IsNumeral digits) (hunit : IsDurationUnit suffix unit)
    (hlast : lastValue (bytesOf "flush_interval") configString = some (digits ++ suffix)) :
    definedDuration (digits ++ suffix) = some (parseConfig configString).flushInterval ∧
        (parseConfig configString).flushInterval =
          (if ofDigits digits * unit < 2 ^ 63 then ((ofDigits digits * unit : ℕ) : ℤ) else 1000) ↔
      ofDigits digits * unit < 2 ^ 63 ∨ 2 ^ 63 ≤ ofDigits digits := by
  have hdefined := definedDuration_numeral hdigits hunit
  have hstored : (parseConfig configString).flushInterval = parseDuration (digits ++ suffix) := by
    rw [get_parseConfig flushInterval_setField, hlast]
    rfl
  rw [definedTimes] at hdefined
  by_cases hfits : ofDigits digits * unit < 2 ^ 63
  · rw [if_pos (lt_of_mul_lt hunit.pos hfits), if_pos hfits] at hdefined
    rw [hstored, parseDuration_of_defined hdefined, if_pos hfits]
    exact iff_of_true ⟨hdefined, rfl⟩ (.inl hfits)
  · rw [if_neg hfits]
    by_cases hread : ofDigits digits < 2 ^ 63
    · -- the product overflows
      rw [if_pos hread, if_neg hfits] at hdefined
      refine iff_of_false ?_ (by omega)
      rintro ⟨hsome, -⟩
      rw [hdefined] at hsome
      cases hsome
    · rw [if_neg hread] at hdefined
      rw [hstored, parseDuration_of_defined hdefined]
      exact iff_of_true ⟨hdefined, rfl⟩ (.inr (Nat.le_of_not_lt hread))

/-- **When sizes and durations are decoded exactly**: for every configuration string, exactly if
none of its parts is `flush_interval==`, the last `rotation_size` fits in 64 bits or has a numeral
that does not, or wraps around to the default, and the last `flush_interval` fits in a `long long`
or has a numeral that does not. -/
theorem decodesExactly_iff (configString : Option Bytes) :
    DecodesExactly configString ↔ Fits configString := by
  constructor
  · rintro ⟨hback, hsize, hduration⟩
    refine ⟨back_iff.mp hback, ?_, ?_⟩
    · intro digits suffix unit hdigits hunit hlast
      exact (size_iff hdigits hunit hlast).mp (hsize digits suffix unit hdigits hunit hlast)
    · intro digits suffix unit hdigits hunit hlast
      exact (duration_iff hdigits hunit hlast).mp (hduration digits suffix unit hdigits hunit hlast)
  · rintro ⟨hback, hsize, hduration⟩
    refine ⟨back_iff.mpr hback, ?_, ?_⟩
    · intro digits suffix unit hdigits hunit hlast
      exact (size_iff hdigits hunit hlast).mpr (hsize digits suffix unit hdigits hunit hlast)
    · intro digits suffix unit hdigits hunit hlast
      exact (duration_iff hdigits hunit hlast).mpr
        (hduration digits suffix unit hdigits hunit hlast)

/-- A size of `2 ^ 64` bytes is stored as zero, and `flush_interval==` has `ParseDuration` look at
the last character of an empty string. -/
theorem size_wraps_to_zero :
    let size := some (cStr (bytesOf "rotation_size=17179869184GB"))
    let empty := some (cStr (bytesOf "flush_interval=="))
    ((parseConfig size).rotationSize = 0 ∧ ¬ DecodesExactly size) ∧
      (bytesOf "flush_interval", []) ∈ pairsOf empty ∧ ¬ DecodesExactly empty := by
  intro size empty
  have hzero : (parseConfig size).rotationSize = 0 := by decide
  have hmem : (bytesOf "flush_interval", []) ∈ pairsOf empty := by decide
  refine ⟨⟨hzero, fun hexact => ?_⟩, hmem, fun hexact => hexact.back [] hmem (by decide) rfl⟩
  have hdigits : IsNumeral (bytesOf "17179869184") := by decide +kernel
  have hstored := hexact.size (bytesOf "17179869184") (bytesOf "GB") (1024 * 1024 * 1024) hdigits
    (by decide) (by decide)
  rw [hzero] at hstored
  revert hstored
  decide

end NetworkLib.LogConfig
