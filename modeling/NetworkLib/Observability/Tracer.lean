import NetworkLib.Proto.StreamEnvelope

/-! # Trace contexts

`Tracer`: how a span is handed on in the headers of a call. `Inject` writes the trace and the span
of the caller, `Extract` reads both at the other side (`extract_inject`), and `StartSpan` starts a
span below what it gets. But `Extract` puts the span of the caller where `StartSpan` does not look,
so that the trace goes on and every span in it is one without a parent (`parents_lost`). -/

namespace NetworkLib

/-- `SpanContext`. -/
structure SpanContext where
  traceId : Bytes := []
  spanId : Bytes := []
  parentSpanId : Bytes := []
  /-- What `Extract` leaves here is indeterminate; nothing reads it. -/
  sampled : Bool := false
  deriving DecidableEq

/-- `Span`, less its end and its attributes. -/
structure Span where
  name : Bytes := []
  context : SpanContext := {}
  startTimeUs : ℤ := 0

namespace Tracer

/-- `GenerateId`, with the values of `std::rand`. -/
def generateId (rand : ℕ → ℕ) (length : ℕ) : Bytes :=
  (List.range length).map fun i => UInt8.ofNat (Nat.digitChar (rand i % 16)).toNat

/-- `StartSpan`. The identifier of a new trace takes the first values of `std::rand`. -/
def startSpan (rand : ℕ → ℕ) (now : ℤ) (name : Bytes) (parent : SpanContext) : Span where
  name := name
  startTimeUs := now
  context :=
    { traceId := if parent.traceId = [] then generateId rand 32 else parent.traceId
      spanId := generateId (fun i => rand (if parent.traceId = [] then 32 + i else i)) 16
      parentSpanId := parent.spanId
      sampled := true }

/-- The name of the header. -/
def traceparent : Bytes := bytesOf "traceparent"

/-- `Extract`, which reads `00-traceid-spanid-flags`. -/
def extract (headers : StringMap) : SpanContext :=
  match headers.lookup traceparent with
  | some val =>
      -- the span of the caller goes to the parent, and `span_id` stays empty
      if 55 ≤ val.length then { traceId := (val.drop 3).take 32, parentSpanId := (val.drop 36).take 16 }
      else {}
  | none => {}

/-- `Inject`. -/
def inject (ctx : SpanContext) (headers : StringMap) : StringMap :=
  headers.insert traceparent
    (bytesOf "00-" ++ ctx.traceId ++ bytesOf "-" ++ ctx.spanId ++ bytesOf "-01")

/-- A call that hands a span on: the headers it adds to, and the span that is started for it. -/
structure Hop where
  headers : StringMap := ∅
  name : Bytes := []
  rand : ℕ → ℕ := fun _ => 0
  now : ℤ := 0

/-- The span at the other side of a call. -/
def next (s : Span) (hop : Hop) : Span :=
  startSpan hop.rand hop.now hop.name (extract (inject s.context hop.headers))

/-- The spans along some calls, each made for the one before. -/
def chain (s : Span) : List Hop → List Span
  | [] => [s]
  | hop :: hops => s :: chain (next s hop) hops

/-- The span `t` is in the trace of `s`, below `s`. -/
def Linked (s t : Span) : Prop :=
  t.context.traceId = s.context.traceId ∧ t.context.parentSpanId = s.context.spanId

/-! ## One call -/

@[simp] theorem length_generateId (rand : ℕ → ℕ) (length : ℕ) :
    (generateId rand length).length = length := by
  rw [generateId, List.length_map, List.length_range]

/-- A part of a text between two others. -/
theorem take_drop_append {α : Type*} {front part : List α} (back : List α) {i n : ℕ}
    (hfront : front.length = i) (hpart : part.length = n) :
    ((front ++ part ++ back).drop i).take n = part := by
  rw [List.append_assoc, ← hfront, List.drop_left, ← hpart, List.take_left]

variable {ctx : SpanContext}

/-- **What `Extract` makes of the header of `Inject`**: the trace, and the span in the place of the
parent. -/
theorem extract_inject (htrace : ctx.traceId.length = 32) (hspan : ctx.spanId.length = 16)
    (headers : StringMap) :
    extract (inject ctx headers) = { traceId := ctx.traceId, parentSpanId := ctx.spanId } := by
  have hfirst : (bytesOf "00-").length = 3 := rfl
  have hdash : (bytesOf "-").length = 1 := rfl
  have hflags : (bytesOf "-01").length = 3 := rfl
  have hlength : (bytesOf "00-" ++ ctx.traceId ++ bytesOf "-" ++ ctx.spanId ++ bytesOf "-01").length
      = 55 := by
    simp only [List.length_append, htrace, hspan, hfirst, hdash, hflags]
  have hspanId : ((bytesOf "00-" ++ ctx.traceId ++ bytesOf "-" ++ ctx.spanId ++ bytesOf "-01").drop
      36).take 16 = ctx.spanId := by
    apply take_drop_append _ _ hspan
    simp only [List.length_append, htrace, hfirst, hdash]
  have htraceId : ((bytesOf "00-" ++ ctx.traceId ++ bytesOf "-" ++ ctx.spanId ++ bytesOf "-01").drop
      3).take 32 = ctx.traceId := by
    rw [List.append_assoc, List.append_assoc (bytesOf "00-" ++ ctx.traceId)]
    exact take_drop_append _ hfirst htrace
  rw [extract, inject, AList.lookup_insert]
  simp only [hlength, le_refl, if_true, htraceId, hspanId]

/-- The span at the other side is in the same trace, has an identifier of its own, and no parent. -/
theorem next_context {s : Span} (htrace : s.context.traceId.length = 32)
    (hspan : s.context.spanId.length = 16) (hop : Hop) :
    (next s hop).context.traceId = s.context.traceId ∧ (next s hop).context.spanId.length = 16 ∧
      (next s hop).context.parentSpanId = [] := by
  have hne : s.context.traceId ≠ [] := by
    intro hnil
    rw [hnil] at htrace
    cases htrace
  rw [next, extract_inject htrace hspan, startSpan]
  exact ⟨if_neg hne, length_generateId _ _, rfl⟩

/-- So it is not linked to the span of the caller. -/
theorem not_linked_next {s : Span} (htrace : s.context.traceId.length = 32)
    (hspan : s.context.spanId.length = 16) (hop : Hop) : ¬ Linked s (next s hop) := by
  rintro ⟨-, hparent⟩
  rw [(next_context htrace hspan hop).2.2] at hparent
  rw [← hparent] at hspan
  cases hspan

/-! ## Chains of calls -/

/-- A chain begins with its first span. -/
theorem chain_eq_cons (s : Span) (hops : List Hop) : ∃ spans, chain s hops = s :: spans := by
  cases hops with
  | nil => exact ⟨[], rfl⟩
  | cons hop hops => exact ⟨chain (next s hop) hops, rfl⟩

/-- Along a chain every span is in the trace of the one before, and none is linked to it. -/
theorem isChain_not_linked (s : Span) (hops : List Hop) (htrace : s.context.traceId.length = 32)
    (hspan : s.context.spanId.length = 16) :
    List.IsChain (fun s t => t.context.traceId = s.context.traceId ∧ ¬ Linked s t) (chain s hops) := by
  induction hops generalizing s with
  | nil => exact List.isChain_singleton _
  | cons hop hops ih =>
      obtain ⟨hsame, hlength, -⟩ := next_context htrace hspan hop
      have hrest := ih (next s hop) (by rw [hsame]; exact htrace) hlength
      obtain ⟨spans, hspans⟩ := chain_eq_cons (next s hop) hops
      rw [chain, hspans]
      rw [hspans] at hrest
      exact List.isChain_cons_cons.mpr ⟨⟨hsame, not_linked_next htrace hspan hop⟩, hrest⟩

/-- **The parents are lost.** For every span whose trace has an identifier of 32 characters and
which has one of 16 itself, whatever the headers, the names and the random numbers: the span at the
other side of a call is in the same trace, and never linked to the span of the caller; and along a
chain of calls no span is linked to the one before, so that the links form the chain of the spans
only where there is no call. -/
theorem parents_lost (s : Span) (htrace : s.context.traceId.length = 32)
    (hspan : s.context.spanId.length = 16) :
    (∀ hop, (next s hop).context.traceId = s.context.traceId ∧ ¬ Linked s (next s hop)) ∧
      ∀ hops, List.IsChain (fun s t => t.context.traceId = s.context.traceId ∧ ¬ Linked s t)
          (chain s hops) ∧ (List.IsChain Linked (chain s hops) ↔ hops = []) := by
  refine ⟨?_, ?_⟩
  · intro hop
    exact ⟨(next_context htrace hspan hop).1, not_linked_next htrace hspan hop⟩
  · intro hops
    refine ⟨isChain_not_linked s hops htrace hspan, ?_⟩
    cases hops with
    | nil => exact iff_of_true (List.isChain_singleton _) rfl
    | cons hop hops =>
        obtain ⟨spans, hspans⟩ := chain_eq_cons (next s hop) hops
        refine iff_of_false ?_ (List.cons_ne_nil _ _)
        rw [chain, hspans]
        intro hlinked
        exact not_linked_next htrace hspan hop (List.isChain_cons_cons.mp hlinked).1

/-- A span in a trace. -/
def rootSpan : Span where
  context :=
    { traceId := bytesOf "4bf92f3577b34da6a3ce929d0e0e4736", spanId := bytesOf "00f067aa0ba902b7" }

/-- Two calls below `rootSpan`: one trace, and no link in it. -/
theorem parents_lost_two_hops :
    let hops : List Hop := [{ name := bytesOf "a" }, { name := bytesOf "b" }]
    (chain rootSpan hops).length = 3 ∧
      List.IsChain (fun s t => t.context.traceId = s.context.traceId ∧ ¬ Linked s t)
        (chain rootSpan hops) ∧
      ¬ List.IsChain Linked (chain rootSpan hops) := by
  intro hops
  obtain ⟨-, hchain⟩ := parents_lost rootSpan (by decide) (by decide)
  exact ⟨rfl, (hchain hops).1, fun hlinked => List.cons_ne_nil _ _ ((hchain hops).2.mp hlinked)⟩

/-- The span below `rootSpan` has no parent. -/
theorem parent_is_empty :
    (next rootSpan {}).context.parentSpanId = [] ∧ rootSpan.context.spanId ≠ [] ∧
      ¬ Linked rootSpan (next rootSpan {}) := by
  have hempty : (next rootSpan {}).context.parentSpanId = [] := by decide
  have hne : rootSpan.context.spanId ≠ [] := by decide
  refine ⟨hempty, hne, ?_⟩
  rintro ⟨-, hparent⟩
  exact hne (hparent.symm.trans hempty)

end Tracer

end NetworkLib
