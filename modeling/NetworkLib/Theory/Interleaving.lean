import NetworkLib.Theory.HeaderFraming

/-! # Messages sent in two pieces by several senders

A sender that sends a message in two pieces, the header and then the payload, may find the pieces
of another sender between them. `scan` reads a list of pieces and accepts it as long as the pieces
are whole messages one after another, up to one header that waits for its payload. -/

namespace NetworkLib.HeaderFormat

variable {ι : Type*}

/-- A piece of a message: its header or its payload. -/
structure Piece (ι : Type*) where
  sender : ι
  message : Bytes × Bytes
  isPayload : Bool
  deriving DecidableEq

namespace Piece

/-- The bytes of a piece. -/
def data (p : Piece ι) : Bytes := if p.isPayload then p.message.2 else p.message.1

/-- The payload that belongs to a header. -/
def payload (h : Piece ι) : Piece ι := { h with isPayload := true }

/-- A header whose payload is not empty. -/
def Opens (p : Piece ι) : Prop := p.isPayload = false ∧ p.message.2 ≠ []

instance (p : Piece ι) : Decidable p.Opens := inferInstanceAs (Decidable (_ ∧ _))

end Piece

/-- The pieces of a message; an empty payload is not sent. -/
def pieces (i : ι) (m : Bytes × Bytes) : List (Piece ι) :=
  ⟨i, m, false⟩ :: if m.2 = [] then [] else [⟨i, m, true⟩]

/-- The header at the end of some pieces that waits for its payload. -/
def lastOpen (l : List (Piece ι)) : Option (Piece ι) := l.getLast?.filter fun p => p.Opens

/-- Some pieces are whole messages of the format, one after another. -/
def Whole (F : HeaderFormat) (l : List (Piece ι)) : Prop :=
  ∃ ms : List (ι × Bytes × Bytes), (∀ m ∈ ms, F.IsMessage m.2) ∧
    l = ms.flatMap fun m => pieces m.1 m.2

variable [DecidableEq ι] (F : HeaderFormat)

/-- Read one more piece behind the header that waits, if one does. -/
def scanStep : Option (Piece ι) → Piece ι → Option (Option (Piece ι))
  | none, p =>
      if p.isPayload = false ∧ F.IsMessage p.message then
        some (if p.message.2 = [] then none else some p)
      else none
  | some h, p => if p = h.payload then some none else none

/-- Read some pieces; the result is the header that waits at the end, unless a piece is out of
place. -/
def scan : Option (Piece ι) → List (Piece ι) → Option (Option (Piece ι))
  | o, [] => some o
  | o, p :: ps => (F.scanStep o p).bind fun o => scan o ps

variable {F} {o o' : Option (Piece ι)} {l : List (Piece ι)}

@[simp] theorem scan_nil : F.scan o [] = some o := rfl

@[simp] theorem scan_cons (p : Piece ι) :
    F.scan o (p :: l) = (F.scanStep o p).bind fun o => F.scan o l := rfl

/-- A list is scanned part by part. -/
theorem scan_append (o : Option (Piece ι)) (l l' : List (Piece ι)) :
    F.scan o (l ++ l') = (F.scan o l).bind fun o => F.scan o l' := by
  induction l generalizing o with
  | nil => rfl
  | cons p l ih =>
      rw [List.cons_append, scan_cons, scan_cons]
      cases F.scanStep o p with
      | none => rfl
      | some o' => exact ih o'

/-- One piece is one step of the scan. -/
theorem scan_singleton (p : Piece ι) : F.scan o [p] = F.scanStep o p := by
  rw [scan_cons]
  cases F.scanStep o p <;> rfl

/-- A prefix of what is accepted is accepted. -/
theorem scan_prefix {l' : List (Piece ι)} (h : F.scan o (l ++ l') = some o') :
    ∃ o'', F.scan o l = some o'' ∧ F.scan o'' l' = some o' := by
  rw [scan_append] at h
  exact Option.bind_eq_some_iff.mp h

/-- A header that may start a message. -/
theorem scanStep_none {p : Piece ι} (h : F.scanStep none p = some o') :
    p.isPayload = false ∧ F.IsMessage p.message ∧
      o' = if p.message.2 = [] then none else some p := by
  simp only [scanStep] at h
  split at h
  · next hp => exact ⟨hp.1, hp.2, (Option.some.inj h).symm⟩
  · cases h

/-- Behind an open header only its own payload may stand. -/
theorem scanStep_some {h p : Piece ι} (hs : F.scanStep (some h) p = some o') :
    p = h.payload ∧ o' = none := by
  simp only [scanStep] at hs
  split at hs
  · next hp => exact ⟨hp, (Option.some.inj hs).symm⟩
  · cases hs

omit [DecidableEq ι] in
/-- The last piece alone says what is open. -/
theorem lastOpen_snoc (l : List (Piece ι)) (p : Piece ι) :
    lastOpen (l ++ [p]) = if p.Opens then some p else none := by
  rw [lastOpen, List.getLast?_append_of_ne_nil _ (by simp), List.getLast?_singleton,
    Option.filter_some]
  simp

/-- **The header that waits is the last piece.** -/
theorem eq_lastOpen (h : F.scan none l = some o) : o = lastOpen l := by
  induction l using List.reverseRecOn generalizing o with
  | nil => exact (Option.some.inj h).symm
  | append_singleton l p _ =>
      obtain ⟨o', -, hp⟩ := scan_prefix h
      rw [scan_singleton] at hp
      rw [lastOpen_snoc]
      cases o' with
      | none =>
          obtain ⟨hheader, -, rfl⟩ := scanStep_none hp
          by_cases hempty : p.message.2 = []
          · rw [if_pos hempty, if_neg fun hopens => hopens.2 hempty]
          · rw [if_neg hempty, if_pos ⟨hheader, hempty⟩]
      | some g =>
          obtain ⟨rfl, rfl⟩ := scanStep_some hp
          rw [if_neg]
          rintro ⟨hheader, -⟩
          cases hheader

/-- The pieces of a message are read whole. -/
theorem scan_pieces (i : ι) {m : Bytes × Bytes} (hm : F.IsMessage m) :
    F.scan none (pieces i m) = some none := by
  have hheader : F.scanStep none (⟨i, m, false⟩ : Piece ι)
      = some (if m.2 = [] then none else some ⟨i, m, false⟩) := if_pos ⟨rfl, hm⟩
  rw [pieces, scan_cons, hheader, Option.bind_some]
  by_cases hempty : m.2 = []
  · rw [if_pos hempty, if_pos hempty]
    rfl
  · rw [if_neg hempty, if_neg hempty, scan_singleton]
    exact if_pos rfl

/-- A whole list leaves nothing open. -/
theorem scan_of_whole (h : F.Whole l) : F.scan none l = some none := by
  obtain ⟨ms, hms, rfl⟩ := h
  induction ms with
  | nil => rfl
  | cons m ms ih =>
      rw [List.flatMap_cons, scan_append, scan_pieces m.1 (hms m List.mem_cons_self)]
      exact ih fun m' hm' => hms m' (List.mem_cons_of_mem _ hm')

/-- A header that waits can be given its payload. -/
theorem whole_of_scan (ho : ∀ h, o = some h → h.Opens ∧ F.IsMessage h.message)
    (h : F.scan o l = some o') :
    F.Whole (o.toList ++ l ++ (o'.map Piece.payload).toList) := by
  -- Induction on the pieces; `o` is the header that waits for its payload.
  induction l generalizing o with
  | nil =>
      obtain rfl : o = o' := Option.some.inj h
      cases o with
      | none => exact ⟨[], by simp, rfl⟩
      | some p =>
          obtain ⟨hopens, hmessage⟩ := ho p rfl
          refine ⟨[(p.sender, p.message)], by simpa using hmessage, ?_⟩
          simp only [List.flatMap_cons, List.flatMap_nil, List.append_nil, pieces,
            if_neg hopens.2, ← hopens.1]
          rfl
  | cons p l ih =>
      obtain ⟨o'', hp, hl⟩ := Option.bind_eq_some_iff.mp h
      cases o with
      | none =>
          obtain ⟨hheader, hmessage, rfl⟩ := scanStep_none hp
          by_cases hempty : p.message.2 = []
          · -- a message by itself
            rw [if_pos hempty] at hl
            obtain ⟨ms, hms, hwhole⟩ := ih (by simp) hl
            refine ⟨(p.sender, p.message) :: ms, ?_, ?_⟩
            · intro m hm
              obtain rfl | hm := List.mem_cons.mp hm
              · exact hmessage
              · exact hms m hm
            · rw [List.flatMap_cons, ← hwhole, pieces, if_pos hempty, ← hheader]
              rfl
          -- a header, whose payload is the next piece
          · rw [if_neg hempty] at hl
            refine ih ?_ hl
            rintro g hg
            obtain rfl : p = g := Option.some.inj hg
            exact ⟨⟨hheader, hempty⟩, hmessage⟩
      | some g =>
          -- the payload of the header that was open
          obtain ⟨rfl, rfl⟩ := scanStep_some hp
          obtain ⟨hopens, hmessage⟩ := ho g rfl
          obtain ⟨ms, hms, hwhole⟩ := ih (by simp) hl
          refine ⟨(g.sender, g.message) :: ms, ?_, ?_⟩
          · intro m hm
            obtain rfl | hm := List.mem_cons.mp hm
            · exact hmessage
            · exact hms m hm
          · rw [List.flatMap_cons, ← hwhole, pieces, if_neg hopens.2, ← hopens.1]
            rfl

/-- **What is accepted to the end is whole messages.** -/
theorem scan_eq_none_iff : F.scan none l = some none ↔ F.Whole l := by
  refine ⟨fun h => ?_, scan_of_whole⟩
  have hwhole := whole_of_scan (by simp) h
  simpa using hwhole

/-- A header that does not announce its payload is never accepted. -/
theorem scan_of_bad {p : Piece ι} (hp : p ∈ l) (hheader : p.isPayload = false)
    (hbad : ¬ F.IsMessage p.message) : F.scan o l = none := by
  obtain ⟨l₁, l₂, rfl⟩ := List.append_of_mem hp
  rw [scan_append]
  cases F.scan o l₁ with
  | none => rfl
  | some o' =>
      have hstep : F.scanStep o' p = none := by
        cases o' with
        | none => exact if_neg fun h => hbad h.2
        | some g =>
            refine if_neg ?_
            rintro rfl
            cases hheader
      rw [Option.bind_some, scan_cons, hstep]
      rfl

omit [DecidableEq ι] in
/-- The bytes of whole messages. -/
theorem flatMap_data (ms : List (ι × Bytes × Bytes)) :
    (ms.flatMap fun m => pieces m.1 m.2).flatMap Piece.data = wire (ms.map Prod.snd) := by
  induction ms with
  | nil => rfl
  | cons m ms ih =>
      have hpieces : (pieces m.1 m.2).flatMap Piece.data = m.2.1 ++ m.2.2 := by
        by_cases hempty : m.2.2 = []
        · simp [pieces, Piece.data, hempty]
        · simp [pieces, Piece.data, hempty]
      rw [List.flatMap_cons, List.flatMap_append, ih, hpieces]
      rfl

end NetworkLib.HeaderFormat
