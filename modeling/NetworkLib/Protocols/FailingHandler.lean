import NetworkLib.Protocols.Grpc.GrpcReceiver
import NetworkLib.Protocols.HttpParser
import NetworkLib.Protocols.Receivers

/-! # Stream handlers that throw

A protocol handler survives a failing stream handler when its `OnMessage` returns, has consumed the
message on which the stream handler threw, and passes on every later message in the buffer
(`Receiver.Survives`). The five handlers contain different exceptions, at different points of their
loops, and `failing_handler_iff` says when each of them survives. The gRPC handler has messages that
it never passes on, those behind the first of a DATA payload, and a notion of its own
(`GrpcHandler.Survives`). -/

namespace NetworkLib

open Loop LengthPrefix

namespace Receiver

variable {S ρ σ : Type*} (R : Receiver S ρ σ)

/-- In `q`, with the bytes `more` read since `p`, the `j`-th message in the input of `p` is
consumed. -/
def Consumed (p q : S) (more : Bytes) (j : ℕ) : Prop :=
  ∀ m, (R.messages p)[j]? = some m → R.reader.left (R.reading q) <:+ R.reader.left m.2 ++ more

/-- The stream handler throws on the `i`-th message. -/
def Throws (p : S) (i : ℕ) : Prop := ∃ run, (R.runs p)[i]? = some run ∧ run.thrown ≠ none

/-- **A failing stream handler does no harm**: `OnMessage` returns, and if the stream handler threw
on a message, this message is consumed, and every later one in the input is passed on and consumed
in the same call or in the next one, whatever is read before that. -/
def Survives (p : S) : Prop :=
  ∃ q, R.OnMessage p q ∧ ¬ R.escaped q ∧ ∀ i, R.Throws p i → R.Passed p q i →
    R.Consumed p q [] i ∧ ∀ j, i < j → j < (R.messages p).length →
      (R.Passed p q j ∧ R.Consumed p q [] j) ∨
        ∀ more r, R.OnMessage (R.append q more) r → R.Passed p r j ∧ R.Consumed p r more j

variable {R}

/-- **A handler that dispatches its messages survives** exactly when no exception leaves it and it
comes to an end of its own. -/
theorem Dispatched.survives_iff {Ends : ρ → Prop} {p : S} (h : R.Dispatched Ends p) :
    R.Survives p ↔ (∀ run ∈ R.runs p, R.escapes run = false) ∧ Ends (R.reader.last (R.reading p)) := by
  rcases h with ⟨hall, hends, ⟨q, hq⟩, hfinal⟩ | ⟨⟨run, hrun, hesc⟩, -, hfinal⟩ | ⟨-, hends, hfinal⟩
  · refine ⟨fun _ => ⟨hall, hends⟩, fun _ => ⟨q, hq, (hfinal q hq).1, fun i _ _ => ?_⟩⟩
    obtain ⟨-, hpassed, hleft⟩ := hfinal q hq
    have hconsumed (j : ℕ) : R.Consumed p q [] j := fun m hm => by
      rw [List.append_nil]
      exact hleft.trans (Reader.left_last_of_mem (List.mem_of_getElem? hm))
    refine ⟨hconsumed i, fun j _ _ => .inl ⟨?_, hconsumed j⟩⟩
    rw [Passed, show R.passed q = R.passed p ++ (R.messages p).map Prod.fst from hpassed]
    exact (List.prefix_append_right_inj _).mpr ((List.take_prefix _ _).map _)
  · refine ⟨fun ⟨q, hq, hgoing, _⟩ => absurd (hfinal q hq).1 hgoing, fun ⟨hall, _⟩ => ?_⟩
    have hnot : R.escapes run = false := hall run hrun
    rw [hesc] at hnot
    cases hnot
  · exact ⟨fun ⟨q, hq, hgoing, _⟩ => absurd (hfinal q hq) hgoing, fun h => absurd h.2 hends⟩

end Receiver

/-! ## HTTP -/

namespace HttpHandler

variable {σ : Type*}

/-- What is seen of a session, the context of its connection and the input buffer. -/
def view : View (Session σ × HttpContext × Buffer) (ℕ × HttpContext × Buffer) StreamEnvelope σ where
  reading p := (p.1.consumed, p.2)
  state p := p.1.app
  passed p := p.1.dispatched
  escaped p := p.1.thrown ≠ none

/-- What a drain leaves is the end of what was there. -/
theorem drain_suffix (p : Parsing) (buf : Buffer) : (parser.drain (p, buf)).2 <:+ buf := by
  refine Consumer.drain_induction (P := fun q : Parsing × Buffer => q.2 <:+ buf) ?_
    (List.suffix_refl buf)
  rintro ⟨⟨threw, ctx⟩, buf'⟩ q hsuffix hnext
  refine List.IsSuffix.trans ?_ hsuffix
  change nextPart _ = some q at hnext
  cases threw with
  | true => cases hnext
  | false =>
      rcases state_cases ctx with hs | hs | hs
      · rw [nextPart_line hs, Option.map_eq_some_iff] at hnext
        obtain ⟨i, -, rfl⟩ := hnext
        exact List.drop_suffix _ _
      · rw [nextPart_body hs, readBody] at hnext
        split at hnext
        · cases hnext
          exact List.suffix_refl _
        · split at hnext
          · cases hnext
            exact List.drop_suffix _ _
          · cases hnext
      · rw [nextPart_done hs] at hnext
        cases hnext

/-- **What a complete request leaves**: the context is done, and the rest of the buffer is shorter
unless the request had begun before. -/
theorem parseRequest_complete {ctx ctx' : HttpContext} {buf rest : Buffer}
    (h : parseRequest (ctx, buf) = (.complete, ctx', rest)) :
    ctx'.state = .kDone ∧ rest <:+ buf ∧
      (ctx.state = .kExpectRequestLine → rest.length < buf.length) := by
  rw [parseRequest_eq] at h
  have hsuffix := drain_suffix (false, ctx) buf
  refine ⟨?_, ?_, fun hs => ?_⟩
  -- only a context at the end is reported as complete
  · rcases hdrain : parser.drain ((false, ctx), buf) with ⟨⟨threw, c⟩, b⟩
    rw [hdrain] at h
    cases threw with
    | true => cases h
    | false =>
        by_cases hdone : c.state = .kDone
        · simp only [report, hdone, if_true, Bool.false_eq_true, if_false, Prod.mk.injEq,
            true_and] at h
          rw [← h.1, hdone]
        · simp [report, hdone] at h
  -- what is left stands at the end of the buffer
  · rcases hdrain : parser.drain ((false, ctx), buf) with ⟨⟨threw, c⟩, b⟩
    rw [hdrain] at h hsuffix
    obtain rfl : b = rest := congrArg (fun q => q.2.2) h
    exact hsuffix
  · -- the request line takes the line end with it
    cases hi : Buffer.findCRLF buf with
    | none =>
        rw [drain_line_none (.inl hs) hi] at h
        simp [report, hs] at h
    | some i =>
        rw [drain_line_some (.inl hs) hi] at h
        have hshort := drain_suffix (readLine ctx (buf.take i)) (buf.drop (i + 2))
        rcases hdrain : parser.drain (readLine ctx (buf.take i), buf.drop (i + 2))
          with ⟨⟨threw, c⟩, b⟩
        rw [hdrain] at h hshort
        obtain rfl : b = rest := congrArg (fun q => q.2.2) h
        have hle : b.length ≤ (buf.drop (i + 2)).length := hshort.length_le
        have hcrlf := Buffer.findCRLF_add_two_le hi
        rw [List.length_drop] at hle
        omega

/-- Take one request off the buffer. A request the limiter refuses ends the reading. -/
def next (h : ProtocolHandler σ) : ℕ × HttpContext × Buffer →
    Option (Option StreamEnvelope × (ℕ × HttpContext × Buffer))
  | (k, p) =>
      match parseRequest p with
      | (.complete, ctx, rest) =>
          if h.checkRateLimit k then some (some (envelope ctx), (k + 1, {}, rest)) else none
      | _ => none

/-- What the reader takes is a complete request that the limiter has let through. -/
theorem next_spec {h : ProtocolHandler σ} {k : ℕ} {p : HttpContext × Buffer}
    {x : Option StreamEnvelope} {r : ℕ × HttpContext × Buffer} (hnext : next h (k, p) = some (x, r)) :
    ∃ ctx rest, parseRequest p = (.complete, ctx, rest) ∧ h.checkRateLimit k = true ∧
      x = some (envelope ctx) ∧ r = (k + 1, {}, rest) := by
  rw [next] at hnext
  split at hnext
  · next ctx rest hparse =>
      split at hnext
      · next hlimit =>
          cases hnext
          exact ⟨ctx, rest, hparse, hlimit, rfl, rfl⟩
      · cases hnext
  · cases hnext

/-- The requests of a buffer, the first of them possibly begun before. -/
def reader (h : ProtocolHandler σ) : Reader (ℕ × HttpContext × Buffer) StreamEnvelope UInt8 where
  next := next h
  left r := r.2.2
  rank r := 2 * r.2.2.length + if r.2.1.state = .kExpectRequestLine then 0 else 1
  rank_lt := by
    rintro ⟨k, ctx, buf⟩ x r' hnext
    obtain ⟨ctx', rest, hparse, -, -, rfl⟩ := next_spec hnext
    obtain ⟨-, hsuffix, hshort⟩ := parseRequest_complete hparse
    have hle := hsuffix.length_le
    show 2 * rest.length + 0 < 2 * buf.length + _
    split
    · next hs =>
        have hlt := hshort hs
        omega
    · omega
  left_suffix := by
    rintro ⟨k, ctx, buf⟩ x r' hnext
    obtain ⟨ctx', rest, hparse, -, -, rfl⟩ := next_spec hnext
    exact (parseRequest_complete hparse).2.1

/-- The HTTP handler. -/
def receiver (limiter : Option (ℕ → Bool)) (f : StreamHandler σ) :
    Receiver (Session σ × HttpContext × Buffer) (ℕ × HttpContext × Buffer) σ where
  toView := view
  OnMessage p q := onMessage (.streaming limiter f) p = q
  append p more := (p.1, p.2.1, Buffer.append p.2.2 more)
  reader := reader (.streaming limiter f)
  callback := f.callback fun _ => {}
  escapes run := decide (run.thrown = some .other)

/-- `OnMessage` reads as `ParseRequest` does. -/
theorem onMessage_snd (h : ProtocolHandler σ) (p : Session σ × HttpContext × Buffer) :
    (onMessage h p).2 = (parseRequest p.2).2 := by
  obtain ⟨s, p⟩ := p
  rw [onMessage]
  rcases parseRequest p with ⟨- | - | -, p'⟩
  · rfl
  · simp only
    split <;> rfl
  · rfl

/-- What is thrown at the one request `OnMessage` dispatches. -/
theorem onMessage_of_allowed {h : ProtocolHandler σ} {f : StreamHandler σ}
    (hf : h.streamHandler = some f) {s : Session σ} {p : HttpContext × Buffer} {ctx : HttpContext}
    {rest : Buffer} (hparse : parseRequest p = (.complete, ctx, rest))
    (hlimit : h.checkRateLimit s.consumed = true) :
    (onMessage h (s, p)).1.dispatched = s.dispatched ++ [envelope ctx] ∧
      ((onMessage h (s, p)).1.thrown = none ↔
        (f s.app (envelope ctx) {}).thrown ≠ some .other) := by
  have hmessage : onMessage h (s, p) = (dispatch h s.enter.consume ctx, ctx, rest) := by
    simp only [onMessage, hparse, if_pos hlimit]
  rw [hmessage]
  simp only [dispatch, hf]
  cases hthrown : (f s.app (envelope ctx) {}).thrown with
  | none =>
      have hrun : (s.enter.consume.invoke f (fun calls => (HttpStreamContext.onConnAll false calls).2)
          (envelope ctx) {}).2.thrown = none := hthrown
      simp only [hrun]
      exact ⟨rfl, by simp [Session.invoke, Session.consume]⟩
  | some e =>
      have hrun : (s.enter.consume.invoke f (fun calls => (HttpStreamContext.onConnAll false calls).2)
          (envelope ctx) {}).2.thrown = some e := hthrown
      simp only [hrun]
      cases e with
      | stdException => exact ⟨rfl, by simp [Session.invoke, Session.consume]⟩
      | other => exact ⟨rfl, by simp⟩

/-- Where no request is dispatched, something is thrown by the parser only. -/
theorem onMessage_of_none {h : ProtocolHandler σ} {s : Session σ} {p : HttpContext × Buffer}
    (hnext : next h (s.consumed, p) = none) :
    (onMessage h (s, p)).1.thrown = none ↔ (parseRequest p).1 ≠ .threw := by
  rw [onMessage]
  rw [next] at hnext
  rcases hparse : parseRequest p with ⟨- | - | -, ctx, rest⟩
  · simp [Session.enter]
  · rw [hparse] at hnext
    simp only at hnext
    split at hnext
    · cases hnext
    · next hlimit => simp [hlimit, Session.enter, Session.consume, Session.push]
  · simp

/-- The stream handler throws nothing at the first request of the buffer, or a `std::exception`
while no other request is complete. -/
def FirstContained (limiter : Option (ℕ → Bool)) (f : StreamHandler σ)
    (p : Session σ × HttpContext × Buffer) : Prop :=
  ∀ run, ((receiver limiter f).runs p).head? = some run →
    run.thrown = none ∨
      run.thrown = some .stdException ∧ ((receiver limiter f).messages p).length ≤ 1

section Complete

variable {limiter : Option (ℕ → Bool)} {f : StreamHandler σ} {s : Session σ}
  {p : HttpContext × Buffer} {ctx : HttpContext} {rest : Buffer}

/-- The messages of a buffer that starts with a complete request. -/
theorem messages_of_complete (hparse : parseRequest p = (.complete, ctx, rest))
    (hlimit : (ProtocolHandler.streaming limiter f).checkRateLimit s.consumed = true) :
    (receiver limiter f).messages (s, p)
      = (envelope ctx, (s.consumed + 1, {}, rest)) ::
        (reader (.streaming limiter f)).messages (s.consumed + 1, {}, rest) := by
  refine Reader.messages_of_message ?_
  show next _ (s.consumed, p) = _
  simp only [next, hparse, if_pos hlimit]

/-- The run of the stream handler on the first request. -/
theorem runs_head (hparse : parseRequest p = (.complete, ctx, rest))
    (hlimit : (ProtocolHandler.streaming limiter f).checkRateLimit s.consumed = true) :
    ((receiver limiter f).runs (s, p)).head? = some (f s.app (envelope ctx) {}) := by
  rw [Receiver.runs, messages_of_complete hparse hlimit]
  rfl

/-- One call passes on the first request. -/
theorem passed_first (hparse : parseRequest p = (.complete, ctx, rest))
    (hlimit : (ProtocolHandler.streaming limiter f).checkRateLimit s.consumed = true) :
    (receiver limiter f).Passed (s, p) (onMessage (.streaming limiter f) (s, p)) 0 := by
  rw [Receiver.Passed, messages_of_complete hparse hlimit]
  show s.dispatched ++ [envelope ctx] <+: (onMessage (.streaming limiter f) (s, p)).1.dispatched
  rw [(onMessage_of_allowed (f := f) rfl hparse hlimit).1]

/-- One call passes on no more than the first request. -/
theorem eq_zero_of_passed (hparse : parseRequest p = (.complete, ctx, rest))
    (hlimit : (ProtocolHandler.streaming limiter f).checkRateLimit s.consumed = true) {i : ℕ}
    (hi : i < ((receiver limiter f).messages (s, p)).length)
    (hpassed : (receiver limiter f).Passed (s, p) (onMessage (.streaming limiter f) (s, p)) i) :
    i = 0 := by
  have hdispatched := (onMessage_of_allowed (f := f) rfl hparse hlimit).1
  have hle := hpassed.length_le
  rw [List.length_append, List.length_map, List.length_take,
    show (receiver limiter f).passed (onMessage (.streaming limiter f) (s, p))
      = s.dispatched ++ [envelope ctx] from hdispatched, List.length_append] at hle
  have hone : s.dispatched.length = ((receiver limiter f).passed (s, p)).length := rfl
  simp only [List.length_singleton] at hle
  omega

/-- A later request is consumed by no call: once the first is done nothing is read any more. -/
theorem not_consumed_later (hparse : parseRequest p = (.complete, ctx, rest))
    (hlimit : (ProtocolHandler.streaming limiter f).checkRateLimit s.consumed = true)
    (hlater : 1 < ((receiver limiter f).messages (s, p)).length) {q : Session σ × HttpContext × Buffer}
    (hq : q.2.2 = rest) : ¬ (receiver limiter f).Consumed (s, p) q [] 1 := by
  intro hconsumed
  have hmessages := messages_of_complete (f := f) hparse hlimit
  cases hnext : next (.streaming limiter f) (s.consumed + 1, {}, rest) with
  | none =>
      rw [hmessages, Reader.messages_of_none hnext] at hlater
      exact absurd hlater (by simp)
  | some pair =>
      obtain ⟨x, r⟩ := pair
      obtain ⟨ctx', rest', hparse', -, rfl, rfl⟩ := next_spec hnext
      have hsecond : ((receiver limiter f).messages (s, p))[1]?
          = some (envelope ctx', (s.consumed + 1 + 1, ({} : HttpContext), rest')) := by
        rw [hmessages, Reader.messages_of_message hnext]
        rfl
      have hle := (hconsumed _ hsecond).length_le
      have hlt := (parseRequest_complete hparse').2.2 rfl
      have hrest : ((receiver limiter f).reader.left ((receiver limiter f).reading q)) = rest := hq
      rw [hrest, List.append_nil] at hle
      exact absurd hlt (not_lt.mpr hle)

/-- What the first request makes of the session and the buffer. -/
theorem onMessage_buffer (hparse : parseRequest p = (.complete, ctx, rest)) :
    (onMessage (.streaming limiter f) (s, p)).2 = (ctx, rest) := by
  rw [onMessage_snd, hparse]

/-- **A handler that survives contains what the first request throws**: were another request behind
it, neither this call nor the next one would read that. -/
theorem contained_of_survives (hparse : parseRequest p = (.complete, ctx, rest))
    (hlimit : (ProtocolHandler.streaming limiter f).checkRateLimit s.consumed = true)
    (hsurvives : (receiver limiter f).Survives (s, p)) : FirstContained limiter f (s, p) := by
  have hhead := runs_head (f := f) hparse hlimit
  have hbuffer : (onMessage (.streaming limiter f) (s, p)).2 = (ctx, rest) := onMessage_buffer hparse
  obtain ⟨-, hthrown⟩ := onMessage_of_allowed (f := f) rfl hparse hlimit
  obtain ⟨q, rfl, hgoing, hall⟩ := hsurvives
  intro run hrun
  obtain rfl : f s.app (envelope ctx) {} = run := Option.some.inj (hhead.symm.trans hrun)
  cases hrun : (f s.app (envelope ctx) {}).thrown with
  | none => exact .inl rfl
  | some e =>
      cases e with
      | other => exact absurd hrun (hthrown.mp (not_not.mp hgoing))
      | stdException =>
          refine .inr ⟨rfl, not_lt.mp fun hlater => ?_⟩
          have hthrows : (receiver limiter f).Throws (s, p) 0 :=
            ⟨_, by rw [← List.head?_eq_getElem?, hhead], by simp [hrun]⟩
          obtain ⟨-, hrest⟩ := hall 0 hthrows (passed_first hparse hlimit)
          rcases hrest 1 Nat.one_pos hlater with ⟨-, hconsumed⟩ | hnextCall
          · exact not_consumed_later hparse hlimit hlater (congrArg Prod.snd hbuffer) hconsumed
          · refine not_consumed_later hparse hlimit hlater ?_ (hnextCall [] _ rfl).2
            rw [onMessage_snd]
            show (parseRequest ((onMessage (.streaming limiter f) (s, p)).2.1,
              (onMessage (.streaming limiter f) (s, p)).2.2 ++ [])).2.2 = rest
            rw [hbuffer, List.append_nil, parseRequest_done (parseRequest_complete hparse).1]

/-- **A handler that contains what the first request throws survives**, as that is the only one
whose message is passed on. -/
theorem survives_of_contained (hparse : parseRequest p = (.complete, ctx, rest))
    (hlimit : (ProtocolHandler.streaming limiter f).checkRateLimit s.consumed = true)
    (hfirst : FirstContained limiter f (s, p)) : (receiver limiter f).Survives (s, p) := by
  have hhead := runs_head (f := f) hparse hlimit
  have hbuffer : (onMessage (.streaming limiter f) (s, p)).2 = (ctx, rest) := onMessage_buffer hparse
  obtain ⟨-, hthrown⟩ := onMessage_of_allowed (f := f) rfl hparse hlimit
  refine ⟨_, rfl, ?_, fun i hthrows hpassed => ?_⟩
  · rcases hfirst _ hhead with hnone | ⟨hstd, -⟩
    · exact not_not.mpr (hthrown.mpr (by simp [hnone]))
    · exact not_not.mpr (hthrown.mpr (by simp [hstd]))
  · obtain ⟨run, hrun, hne⟩ := hthrows
    have hi : i < ((receiver limiter f).messages (s, p)).length := by
      have hlen := (List.getElem?_eq_some_iff.mp hrun).1
      have hle : ((receiver limiter f).runs (s, p)).length
          ≤ (((receiver limiter f).messages (s, p)).map Prod.fst).length :=
        length_outcomes_le _ _
      rw [List.length_map] at hle
      exact hlen.trans_le hle
    -- only the first message is passed on
    obtain rfl := eq_zero_of_passed hparse hlimit hi hpassed
    rw [← List.head?_eq_getElem?] at hrun
    obtain ⟨-, hone⟩ := (hfirst run hrun).resolve_left hne
    refine ⟨fun m hm => ?_, fun j hj hlt => absurd hone (by omega)⟩
    rw [messages_of_complete hparse hlimit] at hm
    obtain rfl := Option.some.inj hm
    rw [List.append_nil]
    show (onMessage (.streaming limiter f) (s, p)).2.2 <:+ rest
    rw [hbuffer]

end Complete

/-- Without a request to pass on the question is whether parsing throws. -/
theorem survives_iff_of_none {limiter : Option (ℕ → Bool)} {f : StreamHandler σ} {s : Session σ}
    {p : HttpContext × Buffer} (hnext : next (.streaming limiter f) (s.consumed, p) = none) :
    (receiver limiter f).Survives (s, p) ↔
      (parseRequest p).1 ≠ .threw ∧ FirstContained limiter f (s, p) := by
  have hmessages : (receiver limiter f).messages (s, p) = [] := Reader.messages_of_none hnext
  have hruns : (receiver limiter f).runs (s, p) = [] := by
    rw [Receiver.runs, hmessages]
    rfl
  have hthrown := onMessage_of_none hnext
  constructor
  · rintro ⟨q, rfl, hgoing, -⟩
    refine ⟨hthrown.mp (not_not.mp hgoing), fun run hrun => ?_⟩
    rw [hruns] at hrun
    cases hrun
  · rintro ⟨hparses, -⟩
    refine ⟨_, rfl, not_not.mpr (hthrown.mpr hparses), fun i ⟨run, hrun, _⟩ => ?_⟩
    rw [hruns] at hrun
    cases hrun

/-- **The HTTP handler survives** when parsing throws nothing and what the stream handler throws at
the first request is contained. -/
theorem survives_iff (limiter : Option (ℕ → Bool)) (f : StreamHandler σ)
    (p : Session σ × HttpContext × Buffer) :
    (receiver limiter f).Survives p ↔
      (parseRequest p.2).1 ≠ .threw ∧ FirstContained limiter f p := by
  obtain ⟨s, p⟩ := p
  -- A call invokes the handler once at most: for the request it has read, if it has read one.
  cases hnext : next (.streaming limiter f) (s.consumed, p) with
  | none => exact survives_iff_of_none hnext
  | some pair =>
      obtain ⟨x, r⟩ := pair
      obtain ⟨ctx, rest, hparse, hlimit, rfl, rfl⟩ := next_spec hnext
      constructor
      · intro hsurvives
        exact ⟨by rw [hparse]; simp, contained_of_survives hparse hlimit hsurvives⟩
      · rintro ⟨-, hfirst⟩
        exact survives_of_contained hparse hlimit hfirst

end HttpHandler

/-! ## gRPC -/

namespace GrpcHandler

open Http2

variable {σ : Type*} (pb : Protobuf) (f : StreamHandler σ)

/-- What the DATA payloads in the input hold: the message at the front of each, if there is a whole
one, and the bytes behind it. -/
def batches (p : Http2.Session (σ × List StreamEnvelope) × Buffer) : List (Bytes × Buffer) :=
  (frameReader.messages (view.reading p)).map Prod.fst

/-- The requests of all complete messages of a payload. -/
def requests (b : Bytes × Buffer) : List StreamEnvelope :=
  request pb b.1 :: (GrpcCodec.messages b.2).map (request pb)

/-- The requests of the complete messages behind the one at the front of the `k`-th payload. -/
def later (p : Http2.Session (σ × List StreamEnvelope) × Buffer) (k : ℕ) : List StreamEnvelope :=
  (((batches p).drop k).flatMap (requests pb)).tail

/-- **A failing stream handler does no harm**: `OnMessage` returns, and if the stream handler threw
on the message at the front of the `k`-th payload, this payload and the later ones are consumed, and
every complete message behind that one is passed on in the same call or in the next one, whatever is
read before that. -/
def Survives (p : Http2.Session (σ × List StreamEnvelope) × Buffer) : Prop :=
  let R := receiver pb f
  ∃ q, R.OnMessage p q ∧ ¬ R.escaped q ∧ ∀ k, R.Throws p k →
    (∀ j, k ≤ j → R.Consumed p q [] j) ∧ ∀ more r, R.OnMessage (R.append q more) r →
      (later pb p k).Sublist ((R.passed r).drop ((R.passed p).length + k + 1))

variable {pb f}

/-- The messages passed on are those at the front of the payloads. -/
theorem messages_eq (p : Http2.Session (σ × List StreamEnvelope) × Buffer) :
    ((receiver pb f).messages p).map Prod.fst = (batches p).map fun b => request pb b.1 := by
  show (((frameReader.map _).messages _).map _) = _
  rw [Reader.messages_map, batches, List.map_map, List.map_map]
  rfl

/-- With nothing behind the front of any payload, the later messages are the fronts of the later
payloads. -/
theorem later_eq {p : Http2.Session (σ × List StreamEnvelope) × Buffer} {k : ℕ}
    (h : ∀ b ∈ (batches p).drop k, GrpcCodec.messages b.2 = []) :
    later pb p k = ((batches p).map fun b => request pb b.1).drop (k + 1) := by
  have hfront : ((batches p).drop k).flatMap (requests pb)
      = ((batches p).drop k).map fun b => request pb b.1 := by
    rw [List.map_eq_flatMap]
    refine List.flatMap_congr fun b hb => ?_
    rw [requests, h b hb, List.map_nil]
  rw [later, hfront, ← List.map_tail, List.tail_drop, List.map_drop]

/-- The later messages are as many as the later payloads and what stands behind the fronts. -/
theorem length_later (pb : Protobuf) (p : Http2.Session (σ × List StreamEnvelope) × Buffer) (k : ℕ) :
    (later pb p k).length + 1 = ((batches p).drop k).length
      + (((batches p).drop k).flatMap fun b => GrpcCodec.messages b.2).length
        + if k < (batches p).length then 0 else 1 := by
  have hall (bs : List (Bytes × Buffer)) : (bs.flatMap (requests pb)).length
      = bs.length + (bs.flatMap fun b => GrpcCodec.messages b.2).length := by
    induction bs with
    | nil => rfl
    | cons b bs ih =>
        rw [List.flatMap_cons, List.flatMap_cons, List.length_append, List.length_append, ih,
          requests, List.length_cons, List.length_map, List.length_cons]
        omega
  rw [later, List.length_tail, hall, List.length_drop]
  split
  · omega
  · next hk =>
      rw [List.drop_of_length_le (by omega)]
      simp
      omega

/-- A call passes on nothing but more messages. -/
theorem passed_prefix {p q : Http2.Session (σ × List StreamEnvelope) × Buffer}
    (h : (receiver pb f).OnMessage p q) : (receiver pb f).passed p <+: (receiver pb f).passed q := by
  rcases dispatched pb f p with ⟨-, -, -, hfinal⟩ | ⟨-, -, hfinal⟩ | ⟨-, hends, -⟩
  · exact ⟨_, (hfinal q h).2.1.symm⟩
  · exact ⟨_, (hfinal q h).2.symm⟩
  · exact absurd trivial hends

/-- A turn keeps the flag of the preface. -/
theorem turn_prefaceReceived {cb : Option (OnStreamData (σ × List StreamEnvelope))}
    {u v : Http2.Session (σ × List StreamEnvelope) × Buffer}
    (h : Http2.Session.turn cb u = .again v ∨ Http2.Session.turn cb u = .leave v) :
    v.1.prefaceReceived = u.1.prefaceReceived := by
  obtain ⟨s, buf⟩ := u
  -- no frame, a frame that throws, or a frame and another turn
  rcases hparse : s.parser.parse buf with ⟨- | frame, parser, rest⟩
  · have hturn : Http2.Session.turn cb (s, buf) = .leave ({ s with parser }, rest) := by
      rw [Http2.Session.turn, hparse]
    rw [hturn] at h
    rcases h with h | h
    · cases h
    · cases h
      rfl
  · have hkeep : (Http2.Session.handleFrame cb { s with parser } frame).prefaceReceived
        = s.prefaceReceived := Http2.Session.handleFrame_prefaceReceived { s with parser } frame
    rw [turn_of_parse hparse] at h
    by_cases hthrown : (Http2.Session.handleFrame cb { s with parser } frame).thrown.isSome = true
    · rw [if_pos hthrown] at h
      rcases h with h | h
      · cases h
      · cases h
        exact hkeep
    · rw [if_neg hthrown] at h
      rcases h with h | h
      · cases h
        exact hkeep
      · cases h

/-- When the loop has been left without an exception, no whole frame is in the buffer. -/
theorem parse_of_exits {cb : Option (OnStreamData (σ × List StreamEnvelope))}
    {u v : Http2.Session (σ × List StreamEnvelope) × Buffer}
    (h : Exits (Http2.Session.turn cb) u v) (hu : u.1.prefaceReceived = true)
    (hv : v.1.thrown = none) :
    v.1.prefaceReceived = true ∧ (v.1.parser.parse v.2).1 = none := by
  obtain ⟨w, hreach, hleave⟩ := exits_iff_reaches.mp h
  have hw : w.1.prefaceReceived = true :=
    hreach.invariant (P := fun w => w.1.prefaceReceived = true)
      (fun _ _ hs hagain => (turn_prefaceReceived (.inl hagain)).trans hs) hu
  refine ⟨(turn_prefaceReceived (.inr hleave)).trans hw, ?_⟩
  obtain ⟨s, buf⟩ := w
  rcases hparse : s.parser.parse buf with ⟨- | frame, parser, rest⟩
  · rw [Http2.Session.turn, hparse] at hleave
    cases hleave
    rw [Http2.FrameParser.parse_again hparse]
  · -- a frame was left behind an exception only
    rw [turn_of_parse hparse] at hleave
    by_cases hthrown : (Http2.Session.handleFrame cb { s with parser } frame).thrown.isSome = true
    · rw [if_pos hthrown] at hleave
      cases hleave
      rw [hv] at hthrown
      cases hthrown
    · rw [if_neg hthrown] at hleave
      cases hleave

/-- **Nothing is left to take off the buffer** after a call that has passed a message on and that no
exception has left. -/
theorem batches_after {p q : Http2.Session (σ × List StreamEnvelope) × Buffer}
    (hcall : (receiver pb f).OnMessage p q) (hgoing : ¬ (receiver pb f).escaped q)
    (hne : batches p ≠ []) : batches q = [] := by
  obtain ⟨s, buf⟩ := p
  -- A loop that was not broken off stops where no frame is complete.
  have hloop (s : Http2.Session (σ × List StreamEnvelope)) (buf : Buffer)
      (hs : s.prefaceReceived = true) (hq : Loop.run (Http2.Session.turn (some (onStreamData pb f)))
        Http2.Session.rank (s, buf) = q) : batches q = [] := by
    obtain ⟨hpreface, hparse⟩ := parse_of_exits
      ((exits_iff_run_eq _ Http2.Session.turn_rank).mpr hq) hs (not_not.mp hgoing)
    have hnone : frameReader.next (view.reading q) = none := by
      show next (q.1.prefaceReceived, q.1.parser, q.2) = none
      rw [hpreface, next]
      rcases hagain : q.1.parser.parse q.2 with ⟨- | frame, parser, rest⟩
      · rfl
      · rw [hagain] at hparse
        cases hparse
    rw [batches, Reader.messages_of_none hnone, List.map_nil]
  change Http2.Session.onData _ ({ s with thrown := none }, buf) = q at hcall
  rw [Http2.Session.onData] at hcall
  cases hpreface : s.prefaceReceived with
  | true =>
      rw [if_pos hpreface] at hcall
      exact hloop { s with thrown := none } buf hpreface hcall
  | false =>
      by_cases hfront : buf.length < kPrefaceLen ∨ buf.take kPrefaceLen ≠ kClientPreface
      · -- without the preface no message is in the buffer
        have hnone : frameReader.next (view.reading (s, buf)) = none := by
          show next (s.prefaceReceived, s.parser, buf) = none
          rw [hpreface, next, if_pos hfront]
        exact absurd (by rw [batches, Reader.messages_of_none hnone, List.map_nil]) hne
      · obtain ⟨hlen, hmatch⟩ := not_or.mp hfront
        rw [if_neg (by simp [hpreface]), if_neg hlen, if_pos (not_not.mp hmatch)] at hcall
        exact hloop _ _ rfl hcall

/-- The next call passes on nothing when nothing more is read. -/
theorem passed_next {p q : Http2.Session (σ × List StreamEnvelope) × Buffer}
    (hcall : (receiver pb f).OnMessage p q) (hgoing : ¬ (receiver pb f).escaped q)
    (hne : batches p ≠ []) {r : Http2.Session (σ × List StreamEnvelope) × Buffer}
    (hnext : (receiver pb f).OnMessage ((receiver pb f).append q []) r) :
    (receiver pb f).passed r = (receiver pb f).passed q := by
  have hsame : (receiver pb f).append q [] = q := by
    show (q.1, Buffer.append q.2 []) = q
    rw [Buffer.append_eq, List.append_nil]
  rw [hsame] at hnext
  have hnone : ((receiver pb f).messages q).map Prod.fst = [] := by
    rw [messages_eq, batches_after hcall hgoing hne, List.map_nil]
  change (((receiver pb f).reader.messages ((receiver pb f).reading q)).map Prod.fst) = [] at hnone
  rcases dispatched pb f q with ⟨-, -, -, hfinal⟩ | ⟨-, -, hfinal⟩ | ⟨-, hends, -⟩
  · rw [(hfinal r hnext).2.1, hnone, List.append_nil]
  · rw [(hfinal r hnext).2, hnone, List.take_nil, List.append_nil]
  · exact absurd trivial hends

/-- If every later message is passed on by the next call at the latest, also when nothing more is
read before it, nothing stands behind the fronts. -/
theorem messages_eq_nil_of_later {p q : Http2.Session (σ × List StreamEnvelope) × Buffer}
    (hcall : (receiver pb f).OnMessage p q) (hgoing : ¬ (receiver pb f).escaped q)
    (hpassed : (receiver pb f).passed q
      = (receiver pb f).passed p ++ (batches p).map fun b => request pb b.1) {k : ℕ}
    (hlater : ∀ more r, (receiver pb f).OnMessage ((receiver pb f).append q more) r →
      (later pb p k).Sublist
        (((receiver pb f).passed r).drop (((receiver pb f).passed p).length + k + 1))) :
    ∀ b ∈ (batches p).drop k, GrpcCodec.messages b.2 = [] := by
  intro b hb
  have hk : k < (batches p).length := by
    by_contra hk
    rw [List.drop_of_length_le (by omega)] at hb
    cases hb
  have hne : batches p ≠ [] := List.ne_nil_of_length_pos (by omega)
  -- only the fronts have been passed on, and there are too few of them for more
  have hsub := hlater [] _ rfl
  rw [passed_next hcall hgoing hne rfl, hpassed, Nat.add_assoc, List.drop_append,
    List.drop_of_length_le (Nat.le_add_right _ _), List.nil_append] at hsub
  have hle := hsub.length_le
  have hlength := length_later pb p k
  rw [if_pos hk] at hlength
  simp only [List.length_drop, List.length_map, Nat.add_sub_cancel_left] at hle hlength
  have hnil : (((batches p).drop k).flatMap fun b => GrpcCodec.messages b.2) = [] :=
    List.eq_nil_of_length_eq_zero (by omega)
  exact List.flatMap_eq_nil_iff.mp hnil b hb

/-- With nothing behind the fronts, every later message has been passed on in the same call. -/
theorem later_sublist {p q r : Http2.Session (σ × List StreamEnvelope) × Buffer} {more : Bytes}
    (hpassed : (receiver pb f).passed q
      = (receiver pb f).passed p ++ (batches p).map fun b => request pb b.1) {k : ℕ}
    (hsingle : ∀ b ∈ (batches p).drop k, GrpcCodec.messages b.2 = [])
    (hnext : (receiver pb f).OnMessage ((receiver pb f).append q more) r) :
    (later pb p k).Sublist
      (((receiver pb f).passed r).drop (((receiver pb f).passed p).length + k + 1)) := by
  obtain ⟨new, hnew⟩ := passed_prefix hnext
  rw [← hnew, later_eq hsingle]
  change List.Sublist _ (((receiver pb f).passed q ++ new).drop _)
  rw [hpassed, List.append_assoc, Nat.add_assoc, List.drop_append,
    List.drop_of_length_le (Nat.le_add_right _ _), List.nil_append, Nat.add_sub_cancel_left,
    List.drop_append]
  exact List.sublist_append_left _ _

/-- **The gRPC handler survives** exactly when the stream handler throws nothing but
`std::exception`s, and no payload holds more than one complete message from the first on at which it
throws. -/
theorem survives_iff (pb : Protobuf) (f : StreamHandler σ)
    (p : Http2.Session (σ × List StreamEnvelope) × Buffer) :
    Survives pb f p ↔ (∀ run ∈ (receiver pb f).runs p, run.thrown ≠ some .other) ∧
      ∀ k, (receiver pb f).Throws p k → ∀ b ∈ (batches p).drop k, GrpcCodec.messages b.2 = [] := by
  have hescapes (run : HandlerRun σ) : (receiver pb f).escapes run = false ↔
      run.thrown ≠ some .other := by simp [receiver]
  rcases dispatched pb f p with ⟨hall, -, ⟨q, hq⟩, hfinal⟩ | ⟨⟨run, hrun, hesc⟩, -, hfinal⟩ |
    ⟨-, hends, -⟩
  · -- the call returns, and has passed on the front of every payload
    obtain ⟨hgoing, hpassed, hleft⟩ := hfinal q hq
    have hpassed' : (receiver pb f).passed q
        = (receiver pb f).passed p ++ (batches p).map fun b => request pb b.1 := by
      rw [← messages_eq]
      exact hpassed
    constructor
    · rintro ⟨q', hq', -, hlater⟩
      obtain rfl : q' = q := hq'.symm.trans hq
      exact ⟨fun run hrun => (hescapes run).mp (hall run hrun), fun k hk =>
        messages_eq_nil_of_later hq' hgoing hpassed' (hlater k hk).2⟩
    · rintro ⟨-, hsingle⟩
      refine ⟨q, hq, hgoing, fun k hk => ⟨fun j _ m hm => ?_, fun more r hr => ?_⟩⟩
      · rw [List.append_nil]
        exact hleft.trans (Reader.left_last_of_mem (List.mem_of_getElem? hm))
      · exact later_sublist hpassed' (hsingle k hk) hr
  · -- an exception other than a `std::exception` leaves the call
    refine ⟨fun ⟨q, hq, hgoing, _⟩ => absurd (hfinal q hq).1 hgoing, fun ⟨hstd, _⟩ => ?_⟩
    have hnot : (receiver pb f).escapes run = false := (hescapes run).mpr (hstd run hrun)
    rw [hesc] at hnot
    cases hnot
  · exact absurd trivial hends

end GrpcHandler

/-! ## The five handlers -/

/-- An upgraded connection stays upgraded, and nothing is read before the upgrade. -/
theorem WebSocketHandler.handshakeParses_last {σ : Type*} (h : ProtocolHandler σ) (beyond : Bytes)
    (r : ℕ × WebSocketHandler × Buffer) :
    HandshakeParses ((reader h).last r).2.1 ((reader h).last r).2.2 beyond ↔
      HandshakeParses r.2.1 r.2.2 beyond := by
  obtain ⟨k, w, buf⟩ := r
  by_cases hup : w.isUpgraded = true
  · have hlast : ((reader h).last (k, w, buf)).2.1.isUpgraded = true := by
      refine Reader.last_induction (P := fun r : ℕ × WebSocketHandler × Buffer =>
        r.2.1.isUpgraded = true) ?_ hup
      rintro ⟨k, w, buf⟩ x r' hw hnext
      obtain ⟨-, -, parser, consumed, frame, k', -, rfl, -⟩ := next_spec hnext
      exact hw
    refine ⟨fun _ hdown => ?_, fun _ hdown => ?_⟩
    · rw [show w.isUpgraded = false from hdown] at hup
      cases hup
    · rw [hlast] at hdown
      cases hdown
  · have hnone : (reader h).next (k, w, buf) = none := if_pos (.inl (by simpa using hup))
    rw [Reader.last_of_none hnone]

end NetworkLib
