import NetworkLib.Theory.Trace
import NetworkLib.Core.EventLoop

/-! # Delivery of events

An event of a batch is sound when the record it points to is still the one it was polled with, and
it is dropped or delivered to that registration. `Run` reads the record through the raw pointer
before it asks `handlers_` about it, so a batch is handled soundly exactly when no callback called
in it unregisters the descriptor of a later event (`sound_batch_iff`). -/

namespace NetworkLib.EventLoop

/-- **An event is handled soundly.** -/
def Sound (s : EventLoop) (ev : Event) : Prop :=
  (∃ r, s.heap.cell ev.data = some r ∧ r.registration = ev.polled.registration) ∧
    (s.outcome ev = .dropped ∨ s.outcome ev = .delivered ev.polled.registration)

/-- The call ends the registration a descriptor has. -/
def Unregisters (fd : ℤ) : LoopCall → Prop
  | .addFd fd' _ _ added _ => fd' = fd ∧ added = true
  | .modifyFd .. => False
  | .removeFd fd' => fd' = fd

/-- The callback of the event `a`, if there is one, leaves the registration of `b` alone. -/
def Spares (a b : Event) : Prop :=
  a.polled.callback = true → ∀ x ∈ a.script, ¬ Unregisters b.polled.fd x

/-! ## The registration of an event -/

/-- Every descriptor leads to a record of its own. -/
def Linked (s : EventLoop) : Prop :=
  ∀ fd h, s.handlers fd = some h → ∃ r, s.heap.cell h = some r ∧ r.fd = fd

/-- The event's registration stands. -/
def Alive (s : EventLoop) (ev : Event) : Prop :=
  ev.polled.registration < s.registrations ∧ s.handlers ev.polled.fd = some ev.data ∧
    ∃ r, s.heap.cell ev.data = some r ∧ r.registration = ev.polled.registration ∧
      r.fd = ev.polled.fd ∧ r.callback = ev.polled.callback

/-- The event's record is gone, although there may be another one in its place. -/
def Dead (s : EventLoop) (ev : Event) : Prop :=
  ev.polled.registration < s.registrations ∧
    ∀ r, s.heap.cell ev.data = some r → r.registration ≠ ev.polled.registration

variable {s : EventLoop} {ev b : Event}

/-- An event whose record is gone is not handled soundly. -/
theorem Dead.not_sound (h : s.Dead ev) : ¬ s.Sound ev := by
  rintro ⟨⟨r, hr, hreg⟩, -⟩
  exact h.2 r hr hreg

/-- An event whose registration stands is delivered to it, or has no callback. -/
theorem Alive.outcome (h : s.Alive ev) : s.outcome ev =
    if ev.polled.callback then .delivered ev.polled.registration else .dropped := by
  obtain ⟨-, hlink, r, hr, hreg, hfd, hcb⟩ := h
  simp only [EventLoop.outcome, find, hr, hfd, hlink, Option.isNone_some, Bool.false_eq_true,
    if_false, hcb, hreg]

/-- An event whose registration stands is. -/
theorem Alive.sound (h : s.Alive ev) : s.Sound ev := by
  have hout := h.outcome
  obtain ⟨-, -, r, hr, hreg, -, -⟩ := h
  refine ⟨⟨r, hr, hreg⟩, ?_⟩
  split at hout
  · exact .inr hout
  · exact .inl hout

/-! ## What a call does to it -/

/-- Releasing a handler frees it, or leaves everything. -/
theorem cell_release {h h' : ℕ} {r : EventHandler} (hr : (s.release h').heap.cell h = some r) :
    s.heap.cell h = some r := by
  unfold release at hr
  split at hr
  · exact hr
  · exact Heap.cell_of_free hr

/-- Releasing a record leaves the others. -/
theorem cell_release_of_ne {h h' : ℕ} (hne : h ≠ h') :
    (s.release h').heap.cell h = s.heap.cell h := by
  unfold release
  split
  · rfl
  · exact Heap.cell_free_of_ne hne

/-- A record that is released and not held is gone. -/
theorem cell_release_self {h : ℕ} (hheld : s.held ≠ some h) : (s.release h).heap.cell h = none := by
  unfold release
  rw [if_neg hheld]
  exact Heap.cell_free_self h

@[simp] theorem release_handlers (s : EventLoop) (h : ℕ) : (s.release h).handlers = s.handlers := by
  unfold release
  split <;> rfl

@[simp] theorem release_held (s : EventLoop) (h : ℕ) : (s.release h).held = s.held := by
  unfold release
  split <;> rfl

@[simp] theorem release_registrations (s : EventLoop) (h : ℕ) :
    (s.release h).registrations = s.registrations := by
  unfold release
  split <;> rfl

/-- `handlers_` holds another handler for a descriptor, or none, before the old one is released. -/
structure Replaced (fd : ℤ) (s t : EventLoop) : Prop where
  held : t.held = s.held
  other : ∀ fd', fd' ≠ fd → t.handlers fd' = s.handlers fd'
  registrations : s.registrations ≤ t.registrations
  /-- Records stay, and a new one has a new registration. -/
  kept : ∀ h r, s.heap.cell h = some r → t.heap.cell h = some r
  made : ∀ h r, t.heap.cell h = some r → s.heap.cell h = some r ∨
    s.registrations ≤ r.registration ∧ r.registration < t.registrations
  linked : ∀ h, t.handlers fd = some h → s.heap.cell h = none ∧ ∃ r, t.heap.cell h = some r ∧ r.fd = fd

/-- **What a call does**: nothing, or it changes the events of a record, or it replaces the handler
of a descriptor and releases the old one. -/
theorem call_cases (s : EventLoop) (x : LoopCall) :
    (s.call x = s ∧ ∀ fd, s.handlers fd ≠ none → ¬ Unregisters fd x) ∨
      (∃ h events, s.call x = { s with heap := s.heap.modify h fun r => { r with events } } ∧
        ∀ fd, ¬ Unregisters fd x) ∨
      ∃ fd t, Replaced fd s t ∧ (∀ fd', Unregisters fd' x ↔ fd = fd') ∧ s.call x =
        match s.handlers fd with
        | none => t
        | some old => t.release old := by
  cases x with
  | addFd fd events callback added wanted =>
      cases added with
      | false => exact .inl ⟨rfl, fun _ _ h => Bool.false_ne_true h.2⟩
      | true =>
          -- a new record takes the place of the old one, which is freed behind it
          refine .inr (.inr ⟨fd, { s with
            heap := s.heap.alloc wanted { fd, events, callback, registration := s.registrations }
            handlers := Function.update s.handlers fd (some (s.heap.place wanted))
            registrations := s.registrations + 1 }, ?_, fun fd' => and_iff_left rfl, rfl⟩)
          refine ⟨rfl, fun fd' hne => Function.update_of_ne hne _ _, Nat.le_succ _, ?_, ?_, ?_⟩
          · intro h r hr
            exact (Heap.cell_alloc_of_ne _ (Heap.place_ne hr)).trans hr
          · intro h r hr
            by_cases hh : h = s.heap.place wanted
            · simp only [hh, Heap.cell_alloc_place, Option.some.injEq] at hr
              exact .inr (hr ▸ ⟨le_rfl, Nat.lt_succ_self _⟩)
            · exact .inl ((Heap.cell_alloc_of_ne _ hh).symm.trans hr)
          · intro h hh
            simp only [Function.update_self, Option.some.injEq] at hh
            subst hh
            exact ⟨Heap.cell_place wanted, _, Heap.cell_alloc_place wanted _, rfl⟩
  | modifyFd fd events =>
      cases h : s.handlers fd with
      | none => exact .inl ⟨by simp only [call, modifyFd, h], fun _ _ => id⟩
      | some hd => exact .inr (.inl ⟨hd, events, by simp only [call, modifyFd, h], fun _ => id⟩)
  | removeFd fd =>
      cases h : s.handlers fd with
      | none => exact .inl ⟨by simp only [call, removeFd, h], fun fd' hfd' heq => hfd' (heq ▸ h)⟩
      | some hd =>
          refine .inr (.inr ⟨fd, { s with handlers := Function.update s.handlers fd none }, ?_,
            fun fd' => Iff.rfl, by simp only [call, removeFd, h]⟩)
          refine ⟨rfl, fun fd' hne => Function.update_of_ne hne _ _, le_rfl, fun _ _ => id,
            fun _ _ => .inl, fun h hh => ?_⟩
          simp at hh

/-- A call does not change what the loop holds. -/
theorem call_held (s : EventLoop) (x : LoopCall) : (s.call x).held = s.held := by
  obtain ⟨h, -⟩ | ⟨h, events, hcall, -⟩ | ⟨fd, t, ht, -, hcall⟩ := call_cases s x
  · rw [h]
  · rw [hcall]
  · rw [hcall]
    split
    · exact ht.held
    · rw [release_held, ht.held]

/-- A call keeps every descriptor with a record of its own. -/
theorem linked_call (hs : s.Linked) (x : LoopCall) : (s.call x).Linked := by
  obtain ⟨h, -⟩ | ⟨h, events, hcall, -⟩ | ⟨fd, t, ht, -, hcall⟩ := call_cases s x
  · rwa [h]
  -- `ModifyFd` changes the events of a record and nothing else
  · rw [hcall]
    intro fd' h' hh'
    obtain ⟨r, hr, hfd⟩ := hs fd' h' hh'
    by_cases heq : h' = h
    · subst heq
      exact ⟨{ r with events }, by simp [hr], hfd⟩
    · exact ⟨r, by rwa [Heap.cell_modify_of_ne _ heq], hfd⟩
  · -- before the old record is freed nothing points to it any more
    have hlinked : ∀ fd' h', t.handlers fd' = some h' →
        ∃ r, t.heap.cell h' = some r ∧ r.fd = fd' ∧ s.handlers fd ≠ some h' := by
      intro fd' h' hh'
      by_cases hfd : fd' = fd
      · subst hfd
        obtain ⟨hnone, r, hr, hrfd⟩ := ht.linked h' hh'
        refine ⟨r, hr, hrfd, fun hold => ?_⟩
        obtain ⟨r', hr', -⟩ := hs _ _ hold
        rw [hnone] at hr'
        cases hr'
      · rw [ht.other fd' hfd] at hh'
        obtain ⟨r, hr, hrfd⟩ := hs fd' h' hh'
        refine ⟨r, ht.kept h' r hr, hrfd, fun hold => ?_⟩
        obtain ⟨r', hr', hrfd'⟩ := hs _ _ hold
        rw [hr] at hr'
        cases hr'
        exact hfd (hrfd.symm.trans hrfd')
    rw [hcall]
    split
    -- there was no old record
    · intro fd' h' hh'
      obtain ⟨r, hr, hrfd, -⟩ := hlinked fd' h' hh'
      exact ⟨r, hr, hrfd⟩
    · next old hold =>
        intro fd' h' hh'
        rw [release_handlers] at hh'
        obtain ⟨r, hr, hrfd, hne⟩ := hlinked fd' h' hh'
        refine ⟨r, ?_, hrfd⟩
        rwa [cell_release_of_ne]
        rintro rfl
        exact hne hold

/-- What is gone stays gone. -/
theorem dead_call (hev : s.Dead ev) (x : LoopCall) : (s.call x).Dead ev := by
  obtain ⟨hlt, hdead⟩ := hev
  obtain ⟨h, -⟩ | ⟨h, events, hcall, -⟩ | ⟨fd, t, ht, -, hcall⟩ := call_cases s x
  · rw [h]
    exact ⟨hlt, hdead⟩
  · rw [hcall]
    refine ⟨hlt, fun r hr => ?_⟩
    by_cases heq : ev.data = h
    · subst heq
      simp only [Heap.cell_modify_self, Option.map_eq_some_iff] at hr
      obtain ⟨r', hr', rfl⟩ := hr
      exact hdead r' hr'
    · rw [Heap.cell_modify_of_ne _ heq] at hr
      exact hdead r hr
  · have hdead' : t.Dead ev := by
      refine ⟨hlt.trans_le ht.registrations, fun r hr => ?_⟩
      obtain hr | ⟨hle, -⟩ := ht.made _ r hr
      · exact hdead r hr
      · omega
    rw [hcall]
    split
    · exact hdead'
    · rw [Dead, release_registrations]
      exact ⟨hdead'.1, fun r hr => hdead'.2 r (cell_release hr)⟩

/-- **A registration stands through a call exactly if the call does not end it**, when `Run` does
not hold its handler. -/
theorem alive_call (hs : s.Linked) (hev : s.Alive ev) (hheld : s.held ≠ some ev.data)
    (x : LoopCall) :
    (Unregisters ev.polled.fd x → (s.call x).Dead ev) ∧
      (¬ Unregisters ev.polled.fd x → (s.call x).Alive ev) := by
  obtain ⟨hlt, hlink, r, hr, hreg, hfd, hcb⟩ := hev
  obtain ⟨h, hnot⟩ | ⟨h, events, hcall, hnot⟩ | ⟨fd, t, ht, hunreg, hcall⟩ := call_cases s x
  · rw [h]
    refine ⟨fun hx => absurd hx (hnot _ (by simp [hlink])), fun _ => ?_⟩
    exact ⟨hlt, hlink, r, hr, hreg, hfd, hcb⟩
  · refine ⟨fun hx => absurd hx (hnot _), fun _ => ?_⟩
    rw [hcall]
    by_cases heq : ev.data = h
    · subst heq
      exact ⟨hlt, hlink, { r with events }, by simp [hr], hreg, hfd, hcb⟩
    · exact ⟨hlt, hlink, r, by rwa [Heap.cell_modify_of_ne _ heq], hreg, hfd, hcb⟩
  · rw [hunreg]
    constructor
    · -- the record of the event is the one that goes
      rintro rfl
      rw [hcall, hlink]
      simp only
      rw [Dead, release_registrations]
      refine ⟨hlt.trans_le ht.registrations, fun r' hr' => ?_⟩
      rw [cell_release_self (by rwa [ht.held])] at hr'
      cases hr'
    · intro hne
      -- a record goes, and it is another one
      have hlink' : t.handlers ev.polled.fd = some ev.data :=
        (ht.other _ (Ne.symm hne)).trans hlink
      rw [hcall]
      split
      · exact ⟨hlt.trans_le ht.registrations, hlink', r, ht.kept _ _ hr, hreg, hfd, hcb⟩
      · next old hold =>
          have hold' : ev.data ≠ old := by
            rintro rfl
            obtain ⟨r', hr', hfd'⟩ := hs _ _ hold
            rw [hr] at hr'
            cases hr'
            exact hne (hfd'.symm.trans hfd)
          rw [Alive, release_registrations, release_handlers, cell_release_of_ne hold']
          exact ⟨hlt.trans_le ht.registrations, hlink', r, ht.kept _ _ hr, hreg, hfd, hcb⟩

/-- Every record has a registration that was made. -/
def Numbered (s : EventLoop) : Prop :=
  ∀ h r, s.heap.cell h = some r → r.registration < s.registrations

/-- A call keeps the registrations of the records among those made. -/
theorem numbered_call (hs : s.Numbered) (x : LoopCall) : (s.call x).Numbered := by
  obtain ⟨h, -⟩ | ⟨h, events, hcall, -⟩ | ⟨fd, t, ht, -, hcall⟩ := call_cases s x
  · rwa [h]
  · rw [hcall]
    intro h' r hr
    by_cases heq : h' = h
    · subst heq
      simp only [Heap.cell_modify_self, Option.map_eq_some_iff] at hr
      obtain ⟨r', hr', rfl⟩ := hr
      exact hs h' r' hr'
    · rw [Heap.cell_modify_of_ne _ heq] at hr
      exact hs h' r hr
  · have hnumbered : t.Numbered := by
      intro h' r hr
      obtain hr | ⟨-, hlt⟩ := ht.made h' r hr
      · exact (hs h' r hr).trans_le ht.registrations
      · exact hlt
    rw [hcall]
    split
    · exact hnumbered
    · intro h' r hr
      rw [release_registrations]
      exact hnumbered h' r (cell_release hr)

/-! ## What the calls of a callback do to it -/

/-- So do some calls. -/
theorem linked_foldl (hs : s.Linked) (xs : List LoopCall) : (xs.foldl call s).Linked :=
  List.foldlRecOn xs call hs fun _ ht x _ => linked_call ht x

/-- Some calls do not bring a record back. -/
theorem dead_foldl (hev : s.Dead ev) (xs : List LoopCall) : (xs.foldl call s).Dead ev :=
  List.foldlRecOn xs call (motive := fun t => t.Dead ev) hev fun _ ht x _ => dead_call ht x

/-- A registration stands through the calls of a callback exactly if none of them ends it. -/
theorem alive_foldl (hs : s.Linked) (hev : s.Alive ev) (hheld : s.held ≠ some ev.data)
    (xs : List LoopCall) :
    ((∃ x ∈ xs, Unregisters ev.polled.fd x) → (xs.foldl call s).Dead ev) ∧
      ((∀ x ∈ xs, ¬ Unregisters ev.polled.fd x) → (xs.foldl call s).Alive ev) := by
  induction xs generalizing s with
  | nil => exact ⟨by simp, fun _ => hev⟩
  | cons x xs ih =>
      obtain ⟨hends, hkeeps⟩ := alive_call hs hev hheld x
      rw [List.foldl_cons]
      by_cases hx : Unregisters ev.polled.fd x
      · refine ⟨fun _ => dead_foldl (hends hx) xs, fun hnone => ?_⟩
        exact absurd hx (hnone x List.mem_cons_self)
      · obtain ⟨hends', hkeeps'⟩ := ih (linked_call hs x) (hkeeps hx) (by rwa [call_held])
        constructor
        · rintro ⟨y, hy, hyx⟩
          obtain rfl | hy := List.mem_cons.mp hy
          · exact absurd hyx hx
          · exact hends' ⟨y, hy, hyx⟩
        · exact fun hnone => hkeeps' fun y hy => hnone y (List.mem_cons_of_mem _ hy)

/-! ## What letting go of a handler does to it -/

/-- Letting go of a handler frees it, or leaves all records. -/
theorem letGo_cases (s : EventLoop) (h : ℕ) :
    s.letGo h = { s with held := none } ∨
      (∃ r, s.heap.cell h = some r ∧ s.handlers r.fd ≠ some h) ∧
        s.letGo h = { s with held := none, heap := s.heap.free h } := by
  unfold letGo
  cases hr : s.heap.cell h with
  | none => exact .inl rfl
  | some r =>
      by_cases hlink : s.handlers r.fd = some h
      · exact .inl (if_pos hlink)
      · exact .inr ⟨⟨r, rfl, hlink⟩, if_neg hlink⟩

/-- When the loop lets a record go, every descriptor keeps its own. -/
theorem linked_letGo (hs : s.Linked) (h : ℕ) : (s.letGo h).Linked := by
  obtain hgo | ⟨⟨r, hr, hne⟩, hgo⟩ := letGo_cases s h
  · rw [hgo]
    exact hs
  · rw [hgo]
    intro fd h' hh'
    obtain ⟨r', hr', hfd⟩ := hs fd h' hh'
    refine ⟨r', ?_, hfd⟩
    rw [Heap.cell_free_of_ne]
    · exact hr'
    · rintro rfl
      rw [hr] at hr'
      cases hr'
      exact hne (hfd ▸ hh')

/-- That does not bring a record back. -/
theorem dead_letGo (hev : s.Dead ev) (h : ℕ) : (s.letGo h).Dead ev := by
  obtain hgo | ⟨-, hgo⟩ := letGo_cases s h
  · rw [hgo]
    exact hev
  · rw [hgo]
    exact ⟨hev.1, fun r hr => hev.2 r (Heap.cell_of_free hr)⟩

/-- Nor does it end the registration of another event. -/
theorem alive_letGo (hev : s.Alive ev) {h : ℕ} (hne : ev.data ≠ h) : (s.letGo h).Alive ev := by
  obtain hgo | ⟨-, hgo⟩ := letGo_cases s h
  · rw [hgo]
    exact hev
  · rw [hgo]
    obtain ⟨hlt, hlink, r, hr, hrest⟩ := hev
    exact ⟨hlt, hlink, r, (Heap.cell_free_of_ne hne).trans hr, hrest⟩

/-! ## One event of the batch -/

/-- **What one event does**: nothing, or it calls a callback that `Run` holds meanwhile. -/
theorem step_cases (s : EventLoop) (ev : Event) :
    s.step ev = s ∨ ∃ h r, s.find ev = some h ∧ s.heap.cell h = some r ∧ r.callback = true ∧
      s.step ev = (ev.script.foldl call { s with
        held := some h
        delivered := s.delivered ++ [(r.registration, passed ev.flags)] }).letGo h := by
  unfold step
  split
  · exact .inl rfl
  · next h hfind =>
      split
      · exact .inl rfl
      · next r hr =>
          split
          · next hcb => exact .inr ⟨h, r, hfind, hr, hcb, rfl⟩
          · exact .inl rfl

/-- A step keeps every descriptor with a record of its own. -/
theorem linked_step (hs : s.Linked) (a : Event) : (s.step a).Linked := by
  obtain h | ⟨h, r, -, -, -, hstep⟩ := step_cases s a
  · rwa [h]
  · rw [hstep]
    exact linked_letGo (linked_foldl (by exact hs) _) h

/-- A step does not bring a record back. -/
theorem dead_step (hev : s.Dead ev) (a : Event) : (s.step a).Dead ev := by
  obtain h | ⟨h, r, -, -, -, hstep⟩ := step_cases s a
  · rwa [h]
  · rw [hstep]
    exact dead_letGo (dead_foldl (by exact hev) _) h

/-- **The registration of a later event stands through an earlier one exactly if that spares it.**
-/
theorem alive_step {a : Event} (hs : s.Linked) (ha : s.Alive a) (hb : s.Alive b)
    (hne : a.data ≠ b.data) :
    (Spares a b → (s.step a).Alive b) ∧ (¬ Spares a b → (s.step a).Dead b) := by
  obtain ⟨-, hlink, r, hr, hreg, hfd, hcb⟩ := ha
  -- The event finds its record, and only the calls of its script can touch that of `b`.
  have hfind : s.find a = some a.data := by
    simp only [find, hr, hfd, hlink]
  have hstep : s.step a = if r.callback then (a.script.foldl call { s with
      held := some a.data
      delivered := s.delivered ++ [(r.registration, passed a.flags)] }).letGo a.data else s := by
    simp only [step, hfind, hr]
  rw [hstep]
  by_cases hcall : r.callback = true
  · rw [if_pos hcall]
    have hcallback := alive_foldl (s := { s with
      held := some a.data
      delivered := s.delivered ++ [(r.registration, passed a.flags)] }) hs hb (by simpa using hne)
      a.script
    constructor
    · intro hspares
      exact alive_letGo (hcallback.2 (hspares (hcb ▸ hcall))) hne.symm
    · intro hnot
      refine dead_letGo (hcallback.1 ?_) _
      by_contra hnone
      exact hnot fun _ x hx hun => hnone ⟨x, hx, hun⟩
  · rw [if_neg hcall]
    refine ⟨fun _ => hb, fun hnot => absurd ?_ hnot⟩
    exact fun hpolled => absurd (hcb.trans hpolled) hcall

/-! ## Batches -/

/-- An event whose record is gone is not handled soundly, whatever happens before it. -/
theorem not_always_of_dead {es : List Event} (hev : s.Dead ev) (hmem : ev ∈ es) :
    ¬ Trace.Always step Sound s es := by
  induction es generalizing s with
  | nil => cases hmem
  | cons a es ih =>
      rintro ⟨ha, hes⟩
      obtain rfl | hmem := List.mem_cons.mp hmem
      · exact hev.not_sound ha
      · exact ih (dead_step hev a) hmem hes

/-- A batch of standing registrations is handled soundly exactly if every event spares the later
ones. -/
theorem always_sound_iff {es : List Event} (hs : s.Linked) (halive : ∀ ev ∈ es, s.Alive ev)
    (hdata : es.Pairwise fun a b => a.data ≠ b.data) :
    Trace.Always step Sound s es ↔ es.Pairwise Spares := by
  induction es generalizing s with
  | nil => exact iff_of_true trivial .nil
  | cons a es ih =>
      obtain ⟨hne, hdata⟩ := List.pairwise_cons.mp hdata
      have ha := halive a List.mem_cons_self
      have hstep (b : Event) (hb : b ∈ es) :=
        alive_step hs ha (halive b (List.mem_cons_of_mem _ hb)) (hne b hb)
      rw [Trace.always_cons, List.pairwise_cons]
      constructor
      · rintro ⟨-, hes⟩
        have hspares : ∀ b ∈ es, Spares a b := by
          intro b hb
          by_contra hnot
          exact not_always_of_dead ((hstep b hb).2 hnot) hb hes
        refine ⟨hspares, (ih (linked_step hs a) ?_ hdata).mp hes⟩
        exact fun b hb => (hstep b hb).1 (hspares b hb)
      · rintro ⟨hspares, hes⟩
        refine ⟨ha.sound, (ih (linked_step hs a) ?_ hdata).mpr hes⟩
        exact fun b hb => (hstep b hb).1 (hspares b hb)

/-- What `Poll` returns for a ready descriptor. -/
theorem mem_poll {ready : List Ready} (h : ev ∈ s.poll ready) : ∃ r ∈ ready,
    s.handlers r.fd = some ev.data ∧ s.heap.cell ev.data = some ev.polled := by
  obtain ⟨r, hr, hev⟩ := List.mem_filterMap.mp h
  obtain ⟨hd, hlink, hev⟩ := Option.bind_eq_some_iff.mp hev
  obtain ⟨polled, hpolled, rfl⟩ := Option.map_eq_some_iff.mp hev
  exact ⟨r, hr, hlink, hpolled⟩

/-- The event loop after some calls. -/
def after (setup : List LoopCall) : EventLoop := setup.foldl call {}

/-- After any calls every descriptor has a record of its own. -/
theorem linked_after (setup : List LoopCall) : (after setup).Linked :=
  linked_foldl (by rintro fd h ⟨⟩) setup

/-- After any calls the records have registrations that were made. -/
theorem numbered_after (setup : List LoopCall) : (after setup).Numbered :=
  List.foldlRecOn setup call (by rintro h r ⟨⟩) fun _ ht x _ => numbered_call ht x

/-- **Delivery of events.** Whatever was registered before, a batch that `Poll` returns for distinct
descriptors is handled soundly exactly if no callback called in it unregisters the descriptor of a
later event. -/
theorem sound_batch_iff (setup : List LoopCall) (ready : List Ready)
    (hready : (ready.map Ready.fd).Nodup) :
    Trace.Always step Sound (after setup) ((after setup).poll ready) ↔
      ((after setup).poll ready).Pairwise Spares := by
  have hlinked := linked_after setup
  generalize hafter : after setup = s at hlinked ⊢
  -- an event leads to the record of the descriptor it was reported for
  have hfd {ev : Event} {r : Ready} (hlink : s.handlers r.fd = some ev.data)
      (hpolled : s.heap.cell ev.data = some ev.polled) : ev.polled.fd = r.fd := by
    obtain ⟨r', hr', hrfd⟩ := hlinked _ _ hlink
    rw [hpolled] at hr'
    cases hr'
    exact hrfd
  refine always_sound_iff hlinked ?_ ?_
  · intro ev hev
    obtain ⟨r, -, hlink, hpolled⟩ := mem_poll hev
    refine ⟨?_, (hfd hlink hpolled).symm ▸ hlink, ev.polled, hpolled, rfl, rfl, rfl⟩
    exact (hafter ▸ numbered_after setup) _ _ hpolled
  · -- two descriptors do not lead to one record
    refine (List.pairwise_map.mp hready).filterMap _ ?_
    intro r r' hne a ha b hb hdata
    obtain ⟨h, hlink, ha⟩ := Option.bind_eq_some_iff.mp ha
    obtain ⟨polled, hpolled, rfl⟩ := Option.map_eq_some_iff.mp ha
    obtain ⟨h', hlink', hb⟩ := Option.bind_eq_some_iff.mp hb
    obtain ⟨polled', hpolled', rfl⟩ := Option.map_eq_some_iff.mp hb
    obtain rfl : h = h' := hdata
    obtain ⟨t, ht, htfd⟩ := hlinked _ _ hlink
    obtain ⟨t', ht', htfd'⟩ := hlinked _ _ hlink'
    rw [ht] at ht'
    cases ht'
    exact hne (htfd.symm.trans htfd')

/-- Two ready descriptors whose callbacks leave each other alone. -/
theorem sound_batch_iff_apart :
    Trace.Always step Sound (after [.addFd 5 {} true true 0, .addFd 6 {} true true 1])
        ((after [.addFd 5 {} true true 0, .addFd 6 {} true true 1]).poll
          [⟨5, 1, [.modifyFd 5 { epollOut := true }]⟩, ⟨6, 1, [.removeFd 6]⟩]) ↔
      ((after [.addFd 5 {} true true 0, .addFd 6 {} true true 1]).poll
        [⟨5, 1, [.modifyFd 5 { epollOut := true }]⟩, ⟨6, 1, [.removeFd 6]⟩]).Pairwise Spares :=
  sound_batch_iff _ _ (by decide)

/-- The callback of descriptor 5 closes descriptor 6 and accepts a client on it, whose handler takes
the old one's place in memory: the event of the old registration is delivered to the new one. -/
theorem sound_batch_fails_on_reuse :
    ¬ Trace.Always step Sound (after [.addFd 5 {} true true 0, .addFd 6 {} true true 1])
      ((after [.addFd 5 {} true true 0, .addFd 6 {} true true 1]).poll
        [⟨5, 1, [.removeFd 6, .addFd 6 {} true true 1]⟩, ⟨6, 1, []⟩]) := by
  rintro ⟨-, ⟨-, hout⟩, -⟩
  revert hout
  decide

end NetworkLib.EventLoop
