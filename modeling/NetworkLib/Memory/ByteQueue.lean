import NetworkLib.Memory.VectorBuffer
import NetworkLib.Theory.Trace
import Mathlib.Data.UInt

/-! # Buffers are byte queues

A program makes buffers, moves them, and uses and destroys them, in any order, over a pool with any
contents. What a buffer has been given and what has been retrieved from it, its `History`, moves
with its bytes. As long as no `EnsureWritableBytes(n)` overflows `writer_index_ + n`, every buffer
is a queue of what its history leaves, which says nothing of the pool (`byteQueue_iff`). -/

namespace NetworkLib

/-- A block of bytes in memory. -/
def Block := { bs : Bytes // bs.length ≤ maxSize }

/-! ## Programs -/

/-- An operation on the buffers of a program, which have names in `ι`. -/
inductive BufferOp (ι : Type*) where
  /-- `Buffer b(initial_size)`. -/
  | construct (b : ι) (initialSize : UInt64)
  /-- `~Buffer`. -/
  | destroy (b : ι)
  /-- `Buffer b(std::move(other))`. -/
  | moveConstruct (b other : ι)
  /-- `b = std::move(other)`. -/
  | moveAssign (b other : ι)
  | append (b : ι) (data : Block)
  | ensureWritableBytes (b : ι) (len : UInt64)
  | retrieve (b : ι) (len : UInt64)
  | retrieveAll (b : ι)

/-- The pool, the buffers there are, and the operations that have returned. -/
structure BufferState (ι : Type*) where
  pool : BufferPool
  buffers : ι → Option VectorBuffer := fun _ => none
  returned : List (BufferOp ι) := []

variable {ι : Type*} [DecidableEq ι]

namespace BufferState

/-- Put a buffer where a name is. -/
def set (s : BufferState ι) (b : ι) (x : VectorBuffer) : BufferState ι :=
  { s with buffers := Function.update s.buffers b (some x) }

/-- A buffer gives up its vector, to the pool unless it is empty. -/
def release (s : BufferState ι) (x : VectorBuffer) : BufferState ι :=
  if x.buffer.elems = [] then s else { s with pool := s.pool.release x.buffer }

/-- An operation on a buffer that there is. -/
def modify (s : BufferState ι) (b : ι) (f : VectorBuffer → Option VectorBuffer) :
    BufferState ι × Bool :=
  match (s.buffers b).bind f with
  | none => (s, false)
  | some x => (s.set b x, true)

/-- What an operation does, and whether it returns: it does not if it throws, and it does nothing if
it is on buffers that there are not. -/
def perform (s : BufferState ι) (grant : Grant) : BufferOp ι → BufferState ι × Bool
  | .construct b initialSize =>
      match s.buffers b with
      | some _ => (s, false)
      | none =>
          match s.pool.acquire initialSize.toNat grant with
          | (none, pool) => ({ s with pool }, false)
          | (some buffer, pool) => ({ s with pool }.set b { buffer }, true)
  | .destroy b =>
      match s.buffers b with
      | none => (s, false)
      | some x => ({ s.release x with buffers := Function.update s.buffers b none }, true)
  | .moveConstruct b other =>
      match s.buffers b, s.buffers other with
      | none, some y => ((s.set b y).set other .moved, true)
      | _, _ => (s, false)
  | .moveAssign b other =>
      match s.buffers b, s.buffers other with
      | some x, some y =>
          -- `this != &other`
          if b = other then (s, true) else (((s.release x).set b y).set other .moved, true)
      | _, _ => (s, false)
  | .append b data => s.modify b fun x => x.append data.1 grant
  | .ensureWritableBytes b len => s.modify b fun x => x.ensureWritableBytes len.toNat grant
  | .retrieve b len => s.modify b fun x => some (x.retrieve len.toNat)
  | .retrieveAll b => s.modify b fun x => some x.retrieveAll

/-- One step of a program. -/
def step (s : BufferState ι) (e : BufferOp ι × Grant) : BufferState ι :=
  { (s.perform e.2 e.1).1 with
    returned := if (s.perform e.2 e.1).2 then s.returned ++ [e.1] else s.returned }

end BufferState

/-! ## Histories -/

/-- What has been appended to a buffer, and how much of it retrieved. -/
structure History where
  appended : Bytes := []
  retrieved : ℕ := 0
  retrieved_le : retrieved ≤ appended.length := by decide

namespace History

/-- The data appended without the retrieved prefix. -/
def rest (h : History) : Bytes := h.appended.drop h.retrieved

def append (h : History) (data : Bytes) : History where
  appended := h.appended ++ data
  retrieved := h.retrieved
  retrieved_le := by
    rw [List.length_append]
    exact h.retrieved_le.trans (Nat.le_add_right _ _)

def retrieve (h : History) (len : ℕ) : History where
  appended := h.appended
  retrieved := min (h.retrieved + len) h.appended.length
  retrieved_le := Nat.min_le_right _ _

def retrieveAll (h : History) : History where
  appended := h.appended
  retrieved := h.appended.length
  retrieved_le := le_rfl

@[simp] theorem rest_new : ({} : History).rest = [] := rfl

@[simp] theorem rest_append (h : History) (data : Bytes) : (h.append data).rest = h.rest ++ data :=
  List.drop_append_of_le_length h.retrieved_le

@[simp] theorem rest_retrieve (h : History) (len : ℕ) : (h.retrieve len).rest = h.rest.drop len := by
  rw [rest, rest, List.drop_drop]
  by_cases hle : h.retrieved + len ≤ h.appended.length
  · simp only [retrieve, Nat.min_eq_left hle]
  · have hge := Nat.le_of_not_le hle
    simp only [retrieve, Nat.min_eq_right hge]
    rw [List.drop_length, List.drop_eq_nil_of_le hge]

@[simp] theorem rest_retrieveAll (h : History) : h.retrieveAll.rest = [] := List.drop_length

end History

/-- The histories of the buffers there are. -/
abbrev Histories (ι : Type*) := ι → Option History

namespace Histories

/-- An operation that has returned. -/
def record (hs : Histories ι) : BufferOp ι → Histories ι
  | .construct b _ => Function.update hs b (some {})
  | .destroy b => Function.update hs b none
  | .moveConstruct b other => Function.update (Function.update hs b (hs other)) other (some {})
  | .moveAssign b other =>
      if b = other then hs
      else Function.update (Function.update hs b (hs other)) other (some {})
  | .append b data => Function.update hs b ((hs b).map (·.append data.1))
  | .ensureWritableBytes _ _ => hs
  | .retrieve b len => Function.update hs b ((hs b).map (·.retrieve len.toNat))
  | .retrieveAll b => Function.update hs b ((hs b).map (·.retrieveAll))

/-- The histories after some operations. -/
def of (ops : List (BufferOp ι)) : Histories ι := ops.foldl record fun _ => none

/-- The last operation is recorded after the others. -/
theorem of_concat (ops : List (BufferOp ι)) (op : BufferOp ι) :
    of (ops ++ [op]) = (of ops).record op := by
  rw [of, List.foldl_append]
  rfl

end Histories

/-! ## What is promised -/

/-- There is a CR LF at an offset. -/
def CrlfAt (q : Bytes) (i : ℕ) : Prop := q[i]? = some 13 ∧ q[i + 1]? = some 10

/-- **`FindCRLF` finds the first CR LF** that lies wholly in the readable bytes `q`. -/
def FindsCRLF (x : VectorBuffer) (q : Bytes) : Prop :=
  match x.findCRLF with
  | some p => x.readerIndex ≤ p ∧ CrlfAt q (p - x.readerIndex) ∧
      ∀ i, i < p - x.readerIndex → ¬ CrlfAt q i
  | none => ∀ i, ¬ CrlfAt q i

/-- **The buffers are queues** of what their histories leave. -/
def AreQueues (s : BufferState ι) : Prop :=
  ∀ b, Option.Rel (fun x h => x.Queues h.rest ∧ FindsCRLF x h.rest) (s.buffers b)
    (Histories.of s.returned b)

/-- An `EnsureWritableBytes` that returns leaves as much space as was asked for, and the readable
bytes as they were. -/
def LeavesSpace (s : BufferState ι) (e : BufferOp ι × Grant) : Prop :=
  ∀ b n, e.1 = .ensureWritableBytes b n → (s.perform e.2 e.1).2 = true →
    ∃ x y, s.buffers b = some x ∧ (s.step e).buffers b = some y ∧
      n.toNat ≤ y.buffer.size - y.writerIndex ∧ y.readable = x.readable

/-- What is promised of a step. -/
def Serves (s : BufferState ι) (e : BufferOp ι × Grant) : Prop :=
  AreQueues (s.step e) ∧ LeavesSpace s e

/-- No `EnsureWritableBytes` overflows. -/
def FitsOp (s : BufferState ι) (e : BufferOp ι × Grant) : Prop :=
  match e.1 with
  | .ensureWritableBytes b n => ∀ x ∈ s.buffers b, x.Fits n.toNat
  | _ => True

/-! ## CR LF -/

/-- A CRLF stands at a place of a queue. -/
theorem crlfAt_iff {q : Bytes} {i : ℕ} : CrlfAt q i ↔ Buffer.kCRLF <+: q.drop i := by
  constructor
  · rintro ⟨hfirst, hsecond⟩
    obtain ⟨hi, hfirst⟩ := List.getElem?_eq_some_iff.mp hfirst
    obtain ⟨hi', hsecond⟩ := List.getElem?_eq_some_iff.mp hsecond
    rw [List.drop_eq_getElem_cons hi, hfirst, List.drop_eq_getElem_cons hi', hsecond]
    exact List.prefix_append [13, 10] _
  · rintro ⟨rest, hrest⟩
    have hget : ∀ j, q[i + j]? = (Buffer.kCRLF ++ rest)[j]? := by
      intro j
      rw [hrest, List.getElem?_drop]
    exact ⟨hget 0, hget 1⟩

/-- **A buffer that is a queue finds the first CR LF.** -/
theorem VectorBuffer.Queues.findsCRLF {x : VectorBuffer} {q : Bytes} (h : x.Queues q) :
    FindsCRLF x q := by
  have hne : Buffer.kCRLF ≠ [] := by decide
  unfold FindsCRLF
  rw [h.findCRLF]
  cases hfound : Buffer.findCRLF q with
  | none =>
      intro i hi
      obtain ⟨j, -, hj⟩ := search_of_prefix_drop (crlfAt_iff.mp hi) hne
      rw [Buffer.findCRLF, hj] at hfound
      cases hfound
  | some i =>
      simp only [Option.map_some, Nat.add_sub_cancel_left]
      refine ⟨Nat.le_add_right _ _, crlfAt_iff.mpr (prefix_drop_of_search hfound), ?_⟩
      intro j hji hj
      -- the search would have stopped there
      obtain ⟨k, hkj, hk⟩ := search_of_prefix_drop (crlfAt_iff.mp hj) hne
      rw [Buffer.findCRLF, hk] at hfound
      cases hfound
      omega

/-! ## One step -/

/-- A weaker relation between optional values. -/
theorem rel_mono {α β : Type*} {R S : α → β → Prop} (hRS : ∀ x y, R x y → S x y) {o : Option α}
    {o' : Option β} (h : Option.Rel R o o') : Option.Rel S o o' := by
  cases h with
  | some h => exact .some (hRS _ _ h)
  | none => exact .none

/-- Two families that are updated in related ways stay related. -/
theorem rel_update {α β : Type*} {R : α → β → Prop} {f : ι → Option α} {g : ι → Option β}
    (h : ∀ b, Option.Rel R (f b) (g b)) (b : ι) {o : Option α} {o' : Option β}
    (ho : Option.Rel R o o') (c : ι) :
    Option.Rel R (Function.update f b o c) (Function.update g b o' c) := by
  by_cases hc : c = b
  · subst hc
    rwa [Function.update_self, Function.update_self]
  · rw [Function.update_of_ne hc, Function.update_of_ne hc]
    exact h c

/-- The buffers are queues of what is left of some histories. -/
def Follow (buffers : ι → Option VectorBuffer) (hs : Histories ι) : Prop :=
  ∀ b, Option.Rel (fun x h => x.Queues h.rest) (buffers b) (hs b)

/-- Buffers are queues exactly if they follow the histories recorded. -/
theorem areQueues_iff {s : BufferState ι} :
    AreQueues s ↔ Follow s.buffers (Histories.of s.returned) :=
  ⟨fun h b => rel_mono (fun _ _ hq => hq.1) (h b),
    fun h b => rel_mono (fun _ _ hq => ⟨hq, hq.findsCRLF⟩) (h b)⟩

namespace Follow

variable {s : BufferState ι} {hs : Histories ι}

omit [DecidableEq ι] in
/-- What the history of a buffer leaves. -/
theorem queues (h : Follow s.buffers hs) {b : ι} {x : VectorBuffer} (hx : s.buffers b = some x) :
    ∃ hist, hs b = some hist ∧ x.Queues hist.rest := by
  have hb := h b
  rw [hx] at hb
  generalize hs b = o at hb
  cases hb with
  | some hq => exact ⟨_, rfl, hq⟩

/-- An operation on one buffer, and what it does to its history. -/
theorem modify (h : Follow s.buffers hs) (b : ι) {f : VectorBuffer → Option VectorBuffer}
    {g : History → History}
    (hfg : ∀ x hist x', s.buffers b = some x → x.Queues hist.rest → f x = some x' →
      x'.Queues (g hist).rest) :
    Follow (s.modify b f).1.buffers
      (if (s.modify b f).2 then Function.update hs b ((hs b).map g) else hs) := by
  unfold BufferState.modify
  split
  · exact h
  · next x' hx' =>
      obtain ⟨x, hx, hfx⟩ := Option.bind_eq_some_iff.mp hx'
      obtain ⟨hist, hhist, hq⟩ := h.queues hx
      rw [hhist]
      exact rel_update h b (.some (hfg x hist x' hx hq hfx))

/-- A buffer moves to another name, and leaves an empty one behind. -/
theorem move (h : Follow s.buffers hs) (b other : ι) {y : VectorBuffer}
    (hy : s.buffers other = some y) :
    Follow ((s.set b y).set other .moved).buffers
      (Function.update (Function.update hs b (hs other)) other (some {})) := by
  obtain ⟨hist, hhist, hq⟩ := h.queues hy
  rw [hhist]
  exact rel_update (rel_update h b (.some hq)) other (.some (VectorBuffer.queues_nil .empty))

/-- **What one operation does to the queues**, unless it overflows. -/
theorem perform (h : Follow s.buffers hs) {op : BufferOp ι} {grant : Grant}
    (hfits : FitsOp s (op, grant)) :
    Follow (s.perform grant op).1.buffers
      (if (s.perform grant op).2 then hs.record op else hs) := by
  cases op with
  | construct b initialSize =>
      rw [BufferState.perform]
      split
      · exact h
      · split
        · exact h
        · exact rel_update h b (.some (VectorBuffer.queues_nil _))
  | destroy b =>
      rw [BufferState.perform]
      split
      · exact h
      · exact rel_update h b .none
  | moveConstruct b other =>
      -- the bytes and what is expected of them move together
      rw [BufferState.perform]
      split
      · next hy => exact h.move b other hy
      · exact h
  | moveAssign b other =>
      rw [BufferState.perform]
      split
      · next x y hx hy =>
          -- assigning a buffer to itself does nothing
          by_cases hbo : b = other
          · simp only [Histories.record, if_pos hbo, if_true]
            exact h
          · simp only [Histories.record, if_neg hbo, if_true]
            have hsame : (s.release x).buffers = s.buffers := by
              unfold BufferState.release
              split <;> rfl
            have hreleased : Follow (s.release x).buffers hs := by rwa [hsame]
            exact hreleased.move b other (by rwa [hsame])
      · exact h
  | append b data =>
      refine h.modify b fun x hist x' _ hq hx' => ?_
      rw [History.rest_append]
      exact hq.append data.2 hx'
  | ensureWritableBytes b len =>
      -- the bytes may move, the history stays
      have hkeep := h.modify b (f := fun x => x.ensureWritableBytes len.toNat grant) (g := id)
        fun x hist x' hx hq hx' => (hq.ensureWritableBytes (hfits x hx) hx').1
      rwa [Option.map_id_fun, id, Function.update_eq_self] at hkeep
  | retrieve b len =>
      refine h.modify b fun x hist x' _ hq hx' => ?_
      cases hx'
      rw [History.rest_retrieve]
      exact hq.retrieve len.toNat
  | retrieveAll b =>
      refine h.modify b fun x hist x' _ hq hx' => ?_
      cases hx'
      rw [History.rest_retrieveAll]
      exact VectorBuffer.queues_retrieveAll

end Follow

/-! ## Runs -/

/-- A step that does not overflow keeps the buffers queues. -/
theorem AreQueues.step {s : BufferState ι} (h : AreQueues s) {e : BufferOp ι × Grant}
    (hfits : FitsOp s e) : AreQueues (s.step e) := by
  rw [areQueues_iff] at h ⊢
  have hperform := h.perform hfits
  simp only [BufferState.step]
  split at hperform
  · next hreturns =>
      rw [if_pos hreturns, Histories.of_concat]
      exact hperform
  · next hreturns =>
      rw [if_neg hreturns]
      exact hperform

/-- It leaves the space asked for. -/
theorem AreQueues.leavesSpace {s : BufferState ι} (h : AreQueues s) {e : BufferOp ι × Grant}
    (hfits : FitsOp s e) : LeavesSpace s e := by
  rintro b n he hreturns
  obtain ⟨op, grant⟩ := e
  cases he
  simp only [BufferState.step, BufferState.perform, BufferState.modify] at hreturns ⊢
  cases hbind : (s.buffers b).bind fun x => x.ensureWritableBytes n.toNat grant with
  | none =>
      rw [hbind] at hreturns
      cases hreturns
  | some y =>
      obtain ⟨x, hx, hy⟩ := Option.bind_eq_some_iff.mp hbind
      obtain ⟨hist, -, hq⟩ := (areQueues_iff.mp h).queues hx
      obtain ⟨hq', hspace⟩ := hq.ensureWritableBytes (hfits x hx) hy
      exact ⟨x, y, hx, Function.update_self .., hspace, hq'.readable_eq.trans hq.readable_eq.symm⟩

/-- A step that overflows leaves a buffer out of order. -/
theorem AreQueues.not_step {s : BufferState ι} (h : AreQueues s) {e : BufferOp ι × Grant}
    (hfits : ¬ FitsOp s e) : ¬ AreQueues (s.step e) := by
  intro hstep
  obtain ⟨op, grant⟩ := e
  cases op with
  | ensureWritableBytes b n =>
      simp only [FitsOp, not_forall] at hfits
      obtain ⟨x, hx, hfits⟩ := hfits
      obtain ⟨hist, -, hq⟩ := (areQueues_iff.mp h).queues hx
      obtain ⟨y, hy, hcut⟩ := hq.ensure_overflow n.toNat_lt hfits grant
      have hbind : (s.buffers b).bind (fun x => x.ensureWritableBytes n.toNat grant) = some y :=
        Option.bind_eq_some_iff.mpr ⟨x, hx, hy⟩
      have hy' : (s.step (.ensureWritableBytes b n, grant)).buffers b = some y := by
        simp only [BufferState.step, BufferState.perform, BufferState.modify, hbind]
        exact Function.update_self ..
      obtain ⟨hist', -, hq'⟩ := (areQueues_iff.mp hstep).queues hy'
      exact absurd hq'.writer_le (Nat.not_le_of_lt hcut)
  | _ => exact hfits trivial

/-- Before any operation there is no buffer. -/
theorem areQueues_new (pool : BufferPool) : AreQueues ({ pool } : BufferState ι) := fun _ => .none

/-- What an operation that reads a buffer sees: its bytes, and where `FindCRLF` finds a CR LF in
them. -/
def view (x : VectorBuffer) : Bytes × Option ℕ :=
  (x.readable, x.findCRLF.map fun p => p - x.readerIndex)

/-- What a program sees of its buffers depends on the operations that returned alone. -/
theorem AreQueues.view_eq {s s' : BufferState ι} (h : AreQueues s) (h' : AreQueues s')
    (hreturned : s.returned = s'.returned) (b : ι) :
    (s.buffers b).map view = (s'.buffers b).map view := by
  have hb := areQueues_iff.mp h b
  have hb' := areQueues_iff.mp h' b
  have hview : ∀ (x : VectorBuffer) (q : Bytes), x.Queues q → view x = (q, Buffer.findCRLF q) := by
    intro x q hq
    rw [view, hq.readable_eq, hq.findCRLF, Option.map_map]
    simp only [Function.comp_def, Nat.add_sub_cancel_left, Option.map_id']
  rw [← hreturned] at hb'
  generalize Histories.of s.returned b = o at hb hb'
  generalize s.buffers b = x at hb ⊢
  generalize s'.buffers b = x' at hb' ⊢
  cases hb with
  | some hq =>
      cases hb' with
      | some hq' => rw [Option.map_some, Option.map_some, hview _ _ hq, hview _ _ hq']
  | none =>
      cases hb' with
      | none => rfl

/-- **Buffers are byte queues.** For every pool and every sequence of operations: after every step
the buffers are queues of what was appended to them and not retrieved, and an `EnsureWritableBytes`
leaves the space asked for, if and only if no `EnsureWritableBytes(n)` meets a buffer with
`writer_index_ + n` beyond `std::size_t`. Then nothing that is read from the buffers depends on the
pool. -/
theorem byteQueue_iff (pool : BufferPool) (es : List (BufferOp ι × Grant)) :
    (Trace.Always BufferState.step Serves { pool } es ↔
      Trace.Always BufferState.step FitsOp { pool } es) ∧
    ∀ (pool' : BufferPool) (es' : List (BufferOp ι × Grant)),
      Trace.Always BufferState.step FitsOp { pool } es →
      Trace.Always BufferState.step FitsOp { pool := pool' } es' →
      (Trace.run BufferState.step { pool } es).returned
        = (Trace.run BufferState.step { pool := pool' } es').returned →
      ∀ b, ((Trace.run BufferState.step { pool } es).buffers b).map view
        = ((Trace.run BufferState.step { pool := pool' } es').buffers b).map view := by
  constructor
  · refine Trace.always_congr (I := AreQueues) ?_ (fun _ _ _ hserves => hserves.1)
      (areQueues_new pool)
    intro s e hs
    constructor
    · intro hserves
      by_contra hfits
      exact hs.not_step hfits hserves.1
    · intro hfits
      exact ⟨hs.step hfits, hs.leavesSpace hfits⟩
  -- both runs follow the same histories, which is all that can be seen
  · intro pool' es' hfits hfits' hreturned b
    have hstep : ∀ (s : BufferState ι) e, AreQueues s → FitsOp s e → AreQueues (s.step e) :=
      fun _ _ hs hfits => hs.step hfits
    exact (Trace.run_invariant hstep (areQueues_new pool) hfits).view_eq
      (Trace.run_invariant hstep (areQueues_new pool') hfits') hreturned b

/-- One byte, and room for the largest number: the vector is cut off before the byte. -/
theorem ensure_cuts_off :
    ¬ Trace.Always BufferState.step Serves ({ pool := [] } : BufferState Unit)
      [(.construct () 4, some 0), (.append () ⟨[7], by decide⟩, some 0),
        (.ensureWritableBytes () (2 ^ 64 - 1), some 0)] := by
  rintro ⟨-, ⟨hqueues, -⟩, ⟨hcut, -⟩, -⟩
  refine hqueues.not_step (fun hfits => ?_) hcut
  exact absurd (hfits _ rfl) (by decide +kernel)

end NetworkLib
