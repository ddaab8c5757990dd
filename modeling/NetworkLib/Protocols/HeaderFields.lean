import NetworkLib.Protocols.HttpResponse

/-! # Header fields and the header map

A header line is a field if it has a colon. Field names are compared without regard to letter case,
and their values are what is behind the colon without the blanks around it. The header map of the
parsers is keyed by the name as it is spelled, and holds what is left of the text behind the colon
when its first byte is dropped, whatever it is (`lookup_foldl_withHeader`). -/

namespace NetworkLib

open HttpResponse

/-- A header line, cut at its first colon: the name and the text behind the colon. -/
def cutField (line : Bytes) : Option (Bytes × Bytes) :=
  (search [colon] line).map fun i => (line.take i, line.drop (i + 1))

/-- The fields of some header lines. -/
def fieldsOf (lines : List Bytes) : List (Bytes × Bytes) := lines.filterMap cutField

/-- The fields with a name, in any letter case; the name is given in lower case. -/
def fieldsNamed (name : Bytes) (lines : List Bytes) : List (Bytes × Bytes) :=
  (fieldsOf lines).filter fun field => field.1.map toLower = name

/-- What the header map holds for the text behind the colon. -/
def storedText (text : Bytes) : Bytes := withoutCR (text.drop 1)

/-- The last line gives one more field, or none. -/
theorem fieldsOf_concat (lines : List Bytes) (line : Bytes) :
    fieldsOf (lines ++ [line]) = fieldsOf lines ++ (cutField line).toList := by
  rw [fieldsOf, List.filterMap_append]
  cases h : cutField line with
  | none => rw [List.filterMap_cons_none h]; rfl
  | some field => rw [List.filterMap_cons_some h]; rfl

/-- A line that does not throw stores its field, if it is one. -/
theorem withHeader_eq {line : Bytes} (h : ¬ EndsAtColon line) (headers : StringMap) :
    withHeader headers line = match cutField line with
      | none => headers
      | some (name, text) => headers.insert name (storedText text) := by
  have hstore : storeHeader headers line = some (withHeader headers line) :=
    storeHeader_of_not_endsAtColon h
  unfold storeHeader at hstore
  unfold cutField
  cases hcolon : search [colon] line with
  | none =>
      rw [hcolon] at hstore
      exact (Option.some.inj hstore).symm
  | some i =>
      rw [hcolon] at hstore
      simp only [Option.map_some, storedText, List.drop_drop]
      simp only [substr] at hstore
      split at hstore
      · cases hstore
      · next value hvalue =>
          split at hvalue
          · cases hvalue
            exact (Option.some.inj hstore).symm
          · cases hvalue

/-- **What the header map holds under a name**: the text of the last field that spells it so. -/
theorem lookup_foldl_withHeader {lines : List Bytes} (h : ∀ line ∈ lines, ¬ EndsAtColon line)
    (name : Bytes) : (lines.foldl withHeader ∅).lookup name
      = ((fieldsOf lines).filter fun field => field.1 = name).getLast?.map fun field =>
          storedText field.2 := by
  induction lines using List.reverseRecOn with
  | nil => rfl
  | append_singleton lines line ih =>
      have hline := h line (List.mem_append_right _ (List.mem_singleton_self line))
      have ih := ih fun line' hline' => h line' (List.mem_append_left _ hline')
      rw [List.foldl_append, List.foldl_cons, List.foldl_nil, withHeader_eq hline, fieldsOf_concat,
        List.filter_append]
      cases hcut : cutField line with
      | none => simpa using ih
      | some field =>
          obtain ⟨name', text⟩ := field
          simp only [Option.toList_some]
          by_cases hname : name' = name
          · subst hname
            rw [AList.lookup_insert, List.filter_cons_of_pos (by simp), List.filter_nil,
              List.getLast?_append]
            rfl
          · rw [AList.lookup_insert_ne (Ne.symm hname), List.filter_cons_of_neg (by simpa using hname),
              List.filter_nil, List.append_nil, ih]

/-- Fields that spell a name in one way are fields with that name. -/
theorem filter_fieldsNamed {name key : Bytes} (hkey : key.map toLower = name) (lines : List Bytes) :
    (fieldsNamed name lines).filter (fun field => field.1 = key)
      = (fieldsOf lines).filter fun field => field.1 = key := by
  rw [fieldsNamed, List.filter_filter]
  refine List.filter_congr fun field _ => ?_
  by_cases h : field.1 = key
  · simp [h, hkey]
  · simp [h]

/-- When there is one field with a name, the map holds its text if it is spelled as the key, and
nothing otherwise. -/
theorem lookup_of_fieldsNamed {lines : List Bytes} (h : ∀ line ∈ lines, ¬ EndsAtColon line)
    {name key spelled text : Bytes} (hkey : key.map toLower = name)
    (hone : fieldsNamed name lines = [(spelled, text)]) :
    (lines.foldl withHeader ∅).lookup key
      = if spelled = key then some (storedText text) else none := by
  rw [lookup_foldl_withHeader h, ← filter_fieldsNamed hkey, hone]
  by_cases hspelled : spelled = key
  · rw [if_pos hspelled, List.filter_cons_of_pos (by simpa using hspelled)]
    rfl
  · rw [if_neg hspelled, List.filter_cons_of_neg (by simpa using hspelled)]
    rfl

end NetworkLib
