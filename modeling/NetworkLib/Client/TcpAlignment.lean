import NetworkLib.Protocols.TcpFraming

/-! # The TCP client behind an oversized length

At a length above 100 MiB `TcpClientProtocol::OnDataReceived` throws away what is in the input
buffer and reads whatever arrives next as a frame header, so what it goes on with depends on how the
stream was cut into reads. `aligned_iff` says for which streams this is not seen. -/

namespace NetworkLib

open Loop LengthPrefix

namespace TcpClientProtocol

variable {σ : Type*} (pb : Protobuf) (g : MessageHandler σ)

/-- `OnDataReceived` called after each read, from an empty input buffer, until an exception leaves a
call. -/
def received (app : σ) (reads : List Bytes) : ClientSession σ × Buffer :=
  reads.foldl (fun p read =>
    if p.1.thrown.isSome then p
    else onDataReceived pb (some g) (p.1, Buffer.append p.2 read)) ({ app }, [])

/-- The call for `read`, behind those for `reads`. -/
def call (app : σ) (reads : List Bytes) (read : Bytes) : ClientSession σ × Buffer :=
  ((received pb g app reads).1, Buffer.append (received pb g app reads).2 read)

/-- The length at the front of the bytes is above 100 MiB. -/
def Oversized (bs : Bytes) : Prop := 4 ≤ bs.length ∧ maxLength < announced bs

instance (bs : Bytes) : Decidable (Oversized bs) := inferInstanceAs (Decidable (_ ∧ _))

/-! ## Reading a stream as consecutive frames -/

/-- The **messages of a stream**: those of its consecutive frames, up to the first length above
100 MiB. -/
def messages (stream : Bytes) : List StreamEnvelope :=
  ((splitter maxLength).items stream).filterMap pb.parseFromString

/-- What is left of a stream behind these frames. -/
def unread (stream : Bytes) : Bytes := (splitter maxLength).remainder stream

/-- The handler throws an exception on one of the messages. -/
def throws : σ → List StreamEnvelope → Bool
  | _, [] => false
  | app, msg :: msgs => (g app msg).2.isSome || throws (g app msg).1 msgs

/-- Nowhere in the bytes does a whole frame with a message begin. -/
def Silent (bs : Bytes) : Prop :=
  ∀ tail, tail <:+ bs → ∀ data rest, (splitter maxLength).first tail = some (data, rest) →
    pb.parseFromString data = none

/-- **Nothing misaligned is dispatched**: however the stream is cut into reads, the messages passed
to the handler are the first ones of the stream, and the same for all cuttings. -/
def Dispatches (app : σ) (stream : Bytes) : Prop :=
  (∀ reads, reads.flatten = stream →
    (received pb g app reads).1.delivered <+: messages pb stream) ∧
  ∀ reads reads', reads.flatten = stream → reads'.flatten = stream →
    (received pb g app reads).1.delivered = (received pb g app reads').1.delivered

/-- The call on `p` takes the front of the buffer of `q` for a frame header. -/
def ReadsHeader (p q : ClientSession σ × Buffer) : Prop :=
  p.1.thrown = none ∧ Reaches (turn pb (some g)) p q ∧ 4 ≤ q.2.length

/-- **Nothing behind an oversized length is taken for a frame header**: behind the call that has
read one, no call reads another. -/
def StopsReading (app : σ) (stream : Bytes) : Prop :=
  ∀ before read between next after,
    (before ++ read :: (between ++ next :: after)).flatten = stream →
    ∀ q, ReadsHeader pb g (call pb g app before read) q → maxLength < announced q.2 →
    ∀ q', ¬ ReadsHeader pb g (call pb g app (before ++ read :: between) next) q'

variable {pb g} {app : σ}

variable (pb g app) in
/-- The last read comes after all the others. -/
theorem received_snoc (reads : List Bytes) (read : Bytes) :
    received pb g app (reads ++ [read]) =
      if (received pb g app reads).1.thrown.isSome then received pb g app reads
      else onDataReceived pb (some g) (call pb g app reads read) := by
  rw [received, List.foldl_append]
  rfl

/-- Bytes behind an oversized length change nothing about it. -/
theorem Oversized.append {bs : Bytes} (h : Oversized bs) (c : Bytes) : Oversized (bs ++ c) := by
  obtain ⟨h4, hmax⟩ := h
  refine ⟨?_, ?_⟩
  · rw [List.length_append]
    omega
  · rwa [announced_append h4]

/-- Its four bytes alone are one. -/
theorem Oversized.take_four {bs : Bytes} (h : Oversized bs) : Oversized (bs.take 4) := by
  obtain ⟨h4, hmax⟩ := h
  refine ⟨?_, ?_⟩
  · rw [List.length_take_of_le h4]
  · rwa [announced, List.take_take, min_self]

/-- The end of silent bytes is silent. -/
theorem Silent.suffix {bs tail : Bytes} (h : Silent pb bs) (ht : tail <:+ bs) : Silent pb tail := by
  intro tail' ht'
  exact h tail' (ht'.trans ht)

/-- So is their front. -/
theorem Silent.of_append {bs c : Bytes} (h : Silent pb (bs ++ c)) : Silent pb bs := by
  intro tail ht data rest hfirst
  refine h (tail ++ c) ?_ data (rest ++ c) ((splitter maxLength).first_append c hfirst)
  obtain ⟨front, rfl⟩ := ht
  exact ⟨front, (List.append_assoc _ _ _).symm⟩

/-! ## The listener

What the client does with the payloads of a stream it reads without going astray. -/

/-- A payload is processed unless an exception has left a call before. -/
def hear (pb : Protobuf) (g : MessageHandler σ) (s : ClientSession σ) (data : Bytes) :
    ClientSession σ :=
  if s.thrown.isSome then s else process pb (some g) s data

/-- The **listener** hears the payloads of consecutive frames of at most 100 MiB. -/
def listener (pb : Protobuf) (g : MessageHandler σ) : Consumer (ClientSession σ) UInt8 :=
  consumer maxLength (hear pb g)

/-- The listener stops at a length above 100 MiB. -/
theorem listener_next_of_oversized (s : ClientSession σ) {bs : Bytes} (h : maxLength < announced bs) :
    (listener pb g).next (s, bs) = none := by
  rw [listener, next_eq_map_first, splitter_first, if_pos (Or.inr h)]
  rfl

/-- Nothing is heard after an exception. -/
theorem foldl_hear_of_thrown {s : ClientSession σ} (hs : s.thrown.isSome = true)
    (payloads : List Bytes) : payloads.foldl (hear pb g) s = s := by
  induction payloads with
  | nil => rfl
  | cons data payloads ih => rw [List.foldl_cons, hear, if_pos hs, ih]

variable (pb g) in
/-- An exception leaves the session as it is. -/
theorem drain_of_thrown {s : ClientSession σ} (hs : s.thrown.isSome = true) (bs : Bytes) :
    ((listener pb g).drain (s, bs)).1 = s := by
  rw [listener, drain_eq_items]
  exact foldl_hear_of_thrown hs _

/-- What hearing a payload does: it is parsed, delivered, and handed to the handler. -/
theorem hear_eq {s : ClientSession σ} (hs : s.thrown = none) (data : Bytes) :
    hear pb g s data =
      match pb.parseFromString data with
      | none => s
      | some msg =>
          { app := (g s.app msg).1, delivered := s.delivered ++ [msg], thrown := (g s.app msg).2 } := by
  obtain ⟨app, delivered, thrown⟩ := s
  obtain rfl : thrown = none := hs
  rw [hear, if_neg (by simp), process]
  cases pb.parseFromString data <;> rfl

variable (pb g) in
/-- **What is heard**: the first ones of the messages of the payloads, all of them unless the
handler throws an exception. -/
theorem foldl_hear (payloads : List Bytes) {s : ClientSession σ} (hs : s.thrown = none) :
    (payloads.foldl (hear pb g) s).thrown.isSome
        = throws g s.app (payloads.filterMap pb.parseFromString) ∧
      (payloads.foldl (hear pb g) s).delivered
        <+: s.delivered ++ payloads.filterMap pb.parseFromString ∧
      (throws g s.app (payloads.filterMap pb.parseFromString) = false →
        (payloads.foldl (hear pb g) s).delivered
          = s.delivered ++ payloads.filterMap pb.parseFromString) := by
  induction payloads generalizing s with
  | nil => simp [throws, hs]
  | cons data payloads ih =>
      rw [List.foldl_cons, List.filterMap_cons, hear_eq hs]
      cases hparse : pb.parseFromString data with
      | none => exact ih hs
      | some msg =>
          simp only [throws]
          cases hthrown : (g s.app msg).2 with
          | some e =>
              -- nothing behind this message is heard
              rw [foldl_hear_of_thrown (by simp)]
              simp
          | none =>
              obtain ⟨hthrows, hfirst, hall⟩ := ih (s := {
                app := (g s.app msg).1, delivered := s.delivered ++ [msg], thrown := none }) rfl
              rw [List.append_cons _ msg (payloads.filterMap _)]
              exact ⟨by simpa using hthrows, hfirst, by simpa using hall⟩

variable (pb g app) in
/-- What has been heard of a stream, in terms of its messages. -/
theorem listener_drain (stream : Bytes) :
    ((listener pb g).drain ({ app }, stream)).1.thrown.isSome = throws g app (messages pb stream) ∧
      ((listener pb g).drain ({ app }, stream)).1.delivered <+: messages pb stream ∧
      (throws g app (messages pb stream) = false →
        ((listener pb g).drain ({ app }, stream)).1.delivered = messages pb stream) ∧
      ((listener pb g).drain ({ app }, stream)).2 = unread stream := by
  obtain ⟨hthrows, hfirst, hall⟩ :=
    foldl_hear pb g ((splitter maxLength).items stream) (s := { app }) rfl
  rw [listener, drain_eq_items]
  exact ⟨hthrows, hfirst, hall, rfl⟩

/-- The listener takes bytes off the front only. -/
theorem listener_next_suffix {p q : ClientSession σ × Buffer}
    (h : (listener pb g).next p = some q) : q.2 <:+ p.2 := by
  obtain ⟨s, bs⟩ := p
  rw [listener, next_eq_map_first, splitter_first] at h
  split at h
  · cases h
  · cases h
    exact List.drop_suffix _ _

/-- A listener leaves the end of its bytes. -/
theorem listener_drain_suffix (p : ClientSession σ × Buffer) :
    ((listener pb g).drain p).2 <:+ p.2 :=
  Consumer.drain_induction (P := fun q => q.2 <:+ p.2)
    (fun _ _ hq hnext => (listener_next_suffix hnext).trans hq) List.suffix_rfl

/-- Bytes without a message pass unheard. -/
theorem drain_silent {bs : Bytes} (h : Silent pb bs) {s : ClientSession σ} (hs : s.thrown = none) :
    ((listener pb g).drain (s, bs)).1 = s := by
  have hdrain : ((listener pb g).drain (s, bs)).1 = s ∧ ((listener pb g).drain (s, bs)).2 <:+ bs := by
    refine Consumer.drain_induction (P := fun p => p.1 = s ∧ p.2 <:+ bs) ?_ ⟨rfl, List.suffix_rfl⟩
    rintro ⟨_, tail⟩ q ⟨rfl, htail⟩ hnext
    refine ⟨?_, (listener_next_suffix hnext).trans htail⟩
    rw [listener, next_eq_map_first, Option.map_eq_some_iff] at hnext
    obtain ⟨⟨data, rest⟩, hfirst, rfl⟩ := hnext
    rw [hear_eq hs, h tail htail data rest hfirst]
  exact hdrain.1

/-! ## One call -/

/-- A turn on a whole frame lets the listener hear it. -/
theorem turn_of_next {s : ClientSession σ} (hs : s.thrown = none) {bs : Bytes}
    {q : ClientSession σ × Buffer} (h : (listener pb g).next (s, bs) = some q) :
    turn pb (some g) (s, bs) = if q.1.thrown.isSome then .leave q else .again q := by
  rw [listener, next_eq_map_first, splitter_first] at h
  split at h
  · cases h
  · next hc =>
      obtain ⟨hinc, hmax⟩ := not_or.mp hc
      rw [Incomplete, Nat.not_lt] at hinc
      rw [Option.map_some, Option.some.injEq] at h
      have hhear : process pb (some g) s ((bs.drop 4).take (announced bs))
          = hear pb g s ((bs.drop 4).take (announced bs)) := by
        rw [hear, if_neg (by simp [hs])]
      rw [turn_eq, frameTurn_of_header (by omega) (by omega), hhear, if_pos hinc, ← h]

/-- A turn on no whole frame waits, and clears the buffer at an oversized length. -/
theorem turn_of_waiting {s : ClientSession σ} {bs : Bytes}
    (h : (listener pb g).next (s, bs) = none) :
    turn pb (some g) (s, bs) = .leave (s, if Oversized bs then [] else bs) := by
  rw [listener, next_eq_map_first, splitter_first, Option.map_eq_none_iff] at h
  have hc : Incomplete bs ∨ maxLength < announced bs := by
    by_contra hnot
    rw [if_neg hnot] at h
    cases h
  rw [turn_eq]
  rcases Nat.lt_or_ge bs.length 4 with h4 | h4
  · rw [frameTurn_of_short h4, if_neg fun ho => absurd ho.1 (by omega)]
  · by_cases hmax : announced bs ≤ maxLength
    · have hinc : bs.length < 4 + announced bs := hc.resolve_right (by omega)
      rw [frameTurn_of_header h4 hmax, if_neg (by omega), if_neg fun ho => absurd ho.2 (by omega)]
    · rw [frameTurn_of_oversized h4 (by omega), if_pos ⟨h4, by omega⟩]
      rfl

variable (pb g) in
/-- **What one call does**: it lets the listener hear what there is, and clears the buffer when that
ends at an oversized length. -/
theorem onDataReceived_eq {s : ClientSession σ} (hs : s.thrown = none) (bs : Bytes) :
    (onDataReceived pb (some g) (s, bs)).1 = ((listener pb g).drain (s, bs)).1 ∧
      (((listener pb g).drain (s, bs)).1.thrown = none →
        (onDataReceived pb (some g) (s, bs)).2 =
          if Oversized ((listener pb g).drain (s, bs)).2 then []
          else ((listener pb g).drain (s, bs)).2) := by
  have henter : ({ s with thrown := none } : ClientSession σ) = s := by rw [← hs]
  simp only [onDataReceived, henter]
  induction hn : bs.length using Nat.strongRecOn generalizing s bs with
  | ind n ih =>
      cases hnext : (listener pb g).next (s, bs) with
      | none =>
          rw [run_of_leave _ (turn_of_waiting hnext), Consumer.drain_of_none hnext]
          exact ⟨rfl, fun _ => rfl⟩
      | some q =>
          have hturn := turn_of_next hs hnext
          rw [Consumer.drain_of_some hnext]
          by_cases hq : q.1.thrown.isSome
          · -- an exception leaves the loop, and the listener hears nothing more either
            rw [if_pos hq] at hturn
            rw [run_of_leave _ hturn, drain_of_thrown pb g hq]
            refine ⟨rfl, fun hnone => ?_⟩
            rw [hnone] at hq
            cases hq
          · rw [if_neg hq] at hturn
            rw [run_of_again _ turn_rank hturn]
            have hq : q.1.thrown = none := by simpa using hq
            exact ih q.2.length (hn ▸ turn_rank _ _ hturn) hq q.2 (by rw [← hq]) rfl

/-- The turns of a call take the listener's steps. -/
theorem reaches_spec {p q : ClientSession σ × Buffer} (h : Reaches (turn pb (some g)) p q)
    (hp : p.1.thrown = none) :
    q.1.thrown = none ∧ q.2 <:+ p.2 ∧ (listener pb g).drain q = (listener pb g).drain p := by
  refine h.invariant (P := fun q => q.1.thrown = none ∧ q.2 <:+ p.2 ∧
    (listener pb g).drain q = (listener pb g).drain p) ?_ ⟨hp, List.suffix_rfl, rfl⟩
  rintro ⟨s, bs⟩ r ⟨hs, hsuffix, hdrain⟩ hturn
  cases hnext : (listener pb g).next (s, bs) with
  | none =>
      rw [turn_of_waiting hnext] at hturn
      cases hturn
  | some q =>
      rw [turn_of_next hs hnext] at hturn
      split at hturn
      · cases hturn
      · next hq =>
          cases hturn
          refine ⟨by simpa using hq, (listener_next_suffix hnext).trans hsuffix, ?_⟩
          rw [← hdrain, Consumer.drain_of_some hnext]

/-! ## All calls -/

/-- **Where the calls stand** (`p`) beside a listener (`d`): with it, until it has come to an
oversized length; behind that, they have cleared the buffer and go on with some of the bytes
received since. -/
inductive Follows (pb : Protobuf) (d : ClientSession σ × Buffer) : ClientSession σ × Buffer → Prop
  /-- An exception has left a call. -/
  | thrown {p} (hd : d.1.thrown.isSome = true) (hp : p.1 = d.1) : Follows pb d p
  | aligned (hd : d.1.thrown = none) (hsize : ¬ Oversized d.2) : Follows pb d d
  | cleared {p} (hd : d.1.thrown = none) (hsize : Oversized d.2)
      (hp : p.1.thrown = none → p.2 <:+ d.2.drop 4)
      (hsilent : Silent pb (d.2.drop 4) → p.1 = d.1) : Follows pb d p

/-- A call with the listener goes on beside it. -/
theorem Follows.of_aligned {s : ClientSession σ} (hs : s.thrown = none) (bs : Bytes) :
    Follows pb ((listener pb g).drain (s, bs)) (onDataReceived pb (some g) (s, bs)) := by
  obtain ⟨hsession, hbuf⟩ := onDataReceived_eq pb g hs bs
  cases hd : ((listener pb g).drain (s, bs)).1.thrown with
  | some e => exact .thrown (by rw [hd]; rfl) hsession
  | none =>
      have hbuf := hbuf hd
      by_cases hsize : Oversized ((listener pb g).drain (s, bs)).2
      · rw [if_pos hsize] at hbuf
        refine .cleared hd hsize (fun _ => ?_) fun _ => hsession
        rw [hbuf]
        exact List.nil_suffix
      · rw [if_neg hsize] at hbuf
        have heq := Prod.ext hsession hbuf
        rw [heq]
        exact .aligned hd hsize

/-- The next call. -/
theorem Follows.read {d p : ClientSession σ × Buffer} (h : Follows pb d p) (read : Bytes) :
    Follows pb ((listener pb g).drain (d.1, d.2 ++ read))
      (if p.1.thrown.isSome then p
        else onDataReceived pb (some g) (p.1, Buffer.append p.2 read)) := by
  cases h with
  | thrown hd hp =>
      -- no call follows
      have hd' := drain_of_thrown pb g hd (d.2 ++ read)
      rw [if_pos (by rw [hp]; exact hd)]
      exact .thrown (by rw [hd']; exact hd) (by rw [hd', hp])
  | aligned hd hsize =>
      rw [if_neg (by simp [hd])]
      exact .of_aligned hd _
  | cleared hd hsize hp hsilent =>
      have hdrop : (d.2 ++ read).drop 4 = d.2.drop 4 ++ read := List.drop_append_of_le_length hsize.1
      -- the listener does not get past the oversized length
      rw [Consumer.drain_of_none (listener_next_of_oversized d.1 (hsize.append read).2)]
      by_cases hthrown : p.1.thrown.isSome
      · -- an exception behind the oversized length
        rw [if_pos hthrown]
        refine .cleared hd (hsize.append read) (fun hnone => ?_) fun hs => ?_
        · rw [hnone] at hthrown
          cases hthrown
        · rw [hdrop] at hs
          exact hsilent hs.of_append
      · rw [if_neg hthrown]
        have hnone : p.1.thrown = none := by simpa using hthrown
        -- the buffer still begins behind that length
        have hsuffix : p.2 ++ read <:+ (d.2 ++ read).drop 4 := by
          obtain ⟨front, hfront⟩ := hp hnone
          exact ⟨front, by rw [hdrop, ← hfront, List.append_assoc]⟩
        obtain ⟨hsession, hbuf⟩ := onDataReceived_eq pb g hnone (p.2 ++ read)
        refine .cleared hd (hsize.append read) (fun hcall => ?_) fun hs => ?_
        · have hbuf := hbuf (by rw [← hsession]; exact hcall)
          refine List.IsSuffix.trans ?_ hsuffix
          change (onDataReceived pb (some g) (p.1, p.2 ++ read)).2 <:+ p.2 ++ read
          rw [hbuf]
          split
          · exact List.nil_suffix
          · exact listener_drain_suffix (p.1, p.2 ++ read)
        · change (onDataReceived pb (some g) (p.1, p.2 ++ read)).1 = d.1
          rw [hsession, drain_silent (hs.suffix hsuffix) hnone]
          rw [hdrop] at hs
          exact hsilent hs.of_append

variable (pb g app) in
/-- **The calls go on beside the listener**, in any cutting. -/
theorem received_follows (reads : List Bytes) :
    Follows pb ((listener pb g).drain ({ app }, reads.flatten)) (received pb g app reads) := by
  induction reads using List.reverseRecOn with
  | nil =>
      have hwaits : (listener pb g).next (({ app }, []) : ClientSession σ × Buffer) = none :=
        consumer_waits_nil _
      rw [List.flatten_nil, Consumer.drain_of_none hwaits]
      exact .aligned rfl fun h => absurd h.1 (by simp)
  | append_singleton reads read ih =>
      rw [received_snoc pb g app, List.flatten_append, List.flatten_singleton, Consumer.drain_append]
      exact ih.read read

/-! ## When nothing goes astray -/

/-- The session is the listener's unless something with a message is read astray. -/
theorem received_session {reads : List Bytes}
    (h : ¬ Oversized (unread reads.flatten) ∨ throws g app (messages pb reads.flatten) = true ∨
      Silent pb ((unread reads.flatten).drop 4)) :
    (received pb g app reads).1 = ((listener pb g).drain ({ app }, reads.flatten)).1 := by
  obtain ⟨hthrows, -, -, hunread⟩ := listener_drain pb g app reads.flatten
  rw [← hthrows, ← hunread] at h
  have hfollows := received_follows pb g app reads
  generalize (listener pb g).drain ({ app }, reads.flatten) = d at h hfollows
  cases hfollows with
  | thrown _ hp => exact hp
  | aligned _ _ => rfl
  | cleared hd hsize _ hsilent =>
      rcases h with hnot | hthrown | hs
      · exact absurd hsize hnot
      · rw [hd] at hthrown
        cases hthrown
      · exact hsilent hs

variable (pb g) in
/-- A call that the listener survives gets as far as it. -/
theorem reaches_drain {p : ClientSession σ × Buffer} (hp : p.1.thrown = none)
    (hd : ((listener pb g).drain p).1.thrown = none) :
    Reaches (turn pb (some g)) p ((listener pb g).drain p) := by
  induction hn : p.2.length using Nat.strongRecOn generalizing p with
  | ind n ih =>
      cases hnext : (listener pb g).next p with
      | none =>
          rw [Consumer.drain_of_none hnext]
          exact .refl
      | some q =>
          have hturn := turn_of_next hp hnext
          rw [Consumer.drain_of_some hnext] at hd ⊢
          have hq : ¬ q.1.thrown.isSome := fun hthrown => by
            have hsame := drain_of_thrown pb g hthrown q.2
            rw [← hsame, hd] at hthrown
            cases hthrown
          rw [if_neg hq] at hturn
          exact .head hturn (ih q.2.length (hn ▸ turn_rank _ _ hturn) (by simpa using hq) hd rfl)

/-- **A call that ends at an oversized length** leaves an empty buffer. -/
theorem received_oversized {stream : Bytes} (hthrows : throws g app (messages pb stream) = false)
    {taken w : Bytes} (hw : Oversized w)
    (htaken : (splitter maxLength).items (taken ++ w)
        = (splitter maxLength).items stream ++ (splitter maxLength).items w ∧
      (splitter maxLength).remainder (taken ++ w) = (splitter maxLength).remainder w) :
    ∃ s : ClientSession σ, s.thrown = none ∧ s.delivered = messages pb stream ∧
      (listener pb g).drain ({ app }, taken ++ w) = (s, w) ∧
      received pb g app [taken ++ w] = (s, []) := by
  have hwaits : (splitter maxLength).first w = none := by
    rw [splitter_first, if_pos (Or.inr hw.2)]
  rw [Splitter.items_of_none hwaits, List.append_nil, Splitter.remainder_of_none hwaits] at htaken
  obtain ⟨hitems, hremainder⟩ := htaken
  obtain ⟨hthrown, -, hdelivered, -⟩ := listener_drain pb g app stream
  have hdrain : (listener pb g).drain ({ app }, taken ++ w)
      = (((listener pb g).drain ({ app }, stream)).1, w) := by
    rw [listener, drain_eq_items, drain_eq_items, hitems, hremainder]
  have hnone : ((listener pb g).drain ({ app }, stream)).1.thrown = none := by
    rw [hthrows] at hthrown
    simpa using hthrown
  refine ⟨_, hnone, hdelivered hthrows, hdrain, ?_⟩
  obtain ⟨hsession, hbuf⟩ :=
    onDataReceived_eq pb g (s := { app }) rfl (taken ++ w)
  rw [hdrain] at hsession hbuf
  have hbuf := hbuf hnone
  rw [if_pos hw] at hbuf
  exact Prod.ext hsession hbuf

variable (pb g) in
/-- Messages delivered stay delivered. -/
theorem delivered_foldl_hear (payloads : List Bytes) (s : ClientSession σ) :
    s.delivered <+: (payloads.foldl (hear pb g) s).delivered := by
  induction payloads generalizing s with
  | nil => exact List.prefix_rfl
  | cons data payloads ih =>
      refine List.IsPrefix.trans ?_ (ih (hear pb g s data))
      unfold hear process
      split
      · exact List.prefix_rfl
      · split
        · exact List.prefix_rfl
        · exact List.prefix_append _ _

/-- Cut right before a frame with a message, a stream brings that message too. -/
theorem not_dispatches {stream : Bytes} (hsize : Oversized (unread stream))
    (hthrows : throws g app (messages pb stream) = false)
    (hloud : ¬ Silent pb ((unread stream).drop 4)) : ¬ Dispatches pb g app stream := by
  rintro ⟨hfirst, -⟩
  unfold Silent at hloud
  push Not at hloud
  obtain ⟨tail, ⟨front, hfront⟩, data, rest, hframe, hdata⟩ := hloud
  obtain ⟨msg, hmsg⟩ := Option.ne_none_iff_exists'.mp hdata
  obtain ⟨taken, hstream, htaken⟩ := exists_taken maxLength stream
  -- the first read ends right before the frame with the message
  have hw : Oversized ((unread stream).take 4 ++ front) := hsize.take_four.append front
  obtain ⟨s, hs, hdelivered, -, hreceived⟩ := received_oversized hthrows hw (htaken _)
  have hcut : [taken ++ ((unread stream).take 4 ++ front), tail].flatten = stream := by
    rw [List.flatten_cons, List.flatten_singleton, List.append_assoc, List.append_assoc, hfront,
      List.take_append_drop]
    exact hstream.symm
  have hbegin := hfirst _ hcut
  have hsecond : (received pb g app [taken ++ ((unread stream).take 4 ++ front), tail]).1
      = ((listener pb g).drain (s, tail)).1 := by
    have hsnoc := received_snoc pb g app [taken ++ ((unread stream).take 4 ++ front)] tail
    rw [call, hreceived, if_neg (by simp [hs])] at hsnoc
    exact (congrArg Prod.fst hsnoc).trans (onDataReceived_eq pb g hs tail).1
  have hone : (hear pb g s data).delivered = messages pb stream ++ [msg] := by
    rw [hear_eq hs, hmsg, hdelivered]
  have hmore := delivered_foldl_hear pb g ((splitter maxLength).items rest) (hear pb g s data)
  rw [hsecond, listener, drain_eq_items, Splitter.items_of_some hframe, List.foldl_cons] at hbegin
  have hlen := hmore.length_le.trans hbegin.length_le
  rw [hone, List.length_append, List.length_singleton] at hlen
  omega

/-- **When nothing misaligned is dispatched**: no length is above 100 MiB, or the handler throws an
exception before, or there is no frame with a message behind that length, wherever one may begin to
read. -/
theorem dispatches_iff (stream : Bytes) :
    Dispatches pb g app stream ↔
      ¬ Oversized (unread stream) ∨ throws g app (messages pb stream) = true ∨
        Silent pb ((unread stream).drop 4) := by
  constructor
  · intro hdispatches
    by_contra hnot
    push Not at hnot
    obtain ⟨hsize, hthrows, hloud⟩ := hnot
    exact not_dispatches hsize (by simpa using hthrows) hloud hdispatches
  · intro h
    have hsession : ∀ reads : List Bytes, reads.flatten = stream →
        (received pb g app reads).1 = ((listener pb g).drain ({ app }, stream)).1 := by
      rintro reads rfl
      exact received_session h
    refine ⟨fun reads hreads => ?_, fun reads reads' hreads hreads' => ?_⟩
    · rw [hsession reads hreads]
      exact (listener_drain pb g app stream).2.1
    · rw [hsession reads hreads, hsession reads' hreads']

/-- A header above 100 MiB is where the listener ends. -/
theorem drain_of_readsHeader {before : List Bytes} {read : Bytes} {q : ClientSession σ × Buffer}
    (hq : ReadsHeader pb g (call pb g app before read) q) (hmax : maxLength < announced q.2) :
    ((listener pb g).drain ({ app }, (before ++ [read]).flatten)).1.thrown = none ∧
      Oversized ((listener pb g).drain ({ app }, (before ++ [read]).flatten)).2 := by
  obtain ⟨hnone, hreaches, h4⟩ := hq
  obtain ⟨hthrown, -, hdrain⟩ := reaches_spec hreaches hnone
  rw [Consumer.drain_of_none (listener_next_of_oversized q.1 hmax)] at hdrain
  rw [List.flatten_append, List.flatten_singleton, Consumer.drain_append]
  have hfollows := received_follows pb g app before
  rw [call] at hnone hdrain
  generalize (listener pb g).drain ({ app }, before.flatten) = d at hfollows ⊢
  generalize received pb g app before = p at hfollows hnone hdrain
  cases hfollows with
  | thrown hd hp =>
      rw [← hp, hnone] at hd
      cases hd
  | aligned _ _ =>
      have hdrain : q = (listener pb g).drain (d.1, d.2 ++ read) := hdrain
      rw [← hdrain]
      exact ⟨hthrown, h4, hmax⟩
  | cleared hd hsize _ _ =>
      -- the listener has come to its end before
      rw [Consumer.drain_of_none (listener_next_of_oversized d.1 (hsize.append read).2)]
      exact ⟨hd, hsize.append read⟩

/-- The listener stays at an oversized length. -/
theorem drain_append_of_oversized {s : ClientSession σ} {bs c : Bytes}
    (hsize : Oversized ((listener pb g).drain (s, bs)).2) :
    (listener pb g).drain (s, bs ++ c)
      = (((listener pb g).drain (s, bs)).1, ((listener pb g).drain (s, bs)).2 ++ c) := by
  rw [Consumer.drain_append]
  exact Consumer.drain_of_none (listener_next_of_oversized _ (hsize.append c).2)

/-- Behind an oversized length the buffer holds bytes received since only. -/
theorem length_received_le {reads : List Bytes}
    (hd : ((listener pb g).drain ({ app }, reads.flatten)).1.thrown = none)
    (hsize : Oversized ((listener pb g).drain ({ app }, reads.flatten)).2)
    (hp : (received pb g app reads).1.thrown = none) :
    (received pb g app reads).2.length + 4
      ≤ ((listener pb g).drain ({ app }, reads.flatten)).2.length := by
  have hfollows := received_follows pb g app reads
  generalize (listener pb g).drain ({ app }, reads.flatten) = d at hfollows hd hsize
  generalize received pb g app reads = p at hfollows hp
  cases hfollows with
  | thrown hthrown _ =>
      rw [hd] at hthrown
      cases hthrown
  | aligned _ hnot => exact absurd hsize hnot
  | cleared _ _ hsuffix _ =>
      have hle := (hsuffix hp).length_le
      rw [List.length_drop] at hle
      have h4 := hsize.1
      omega

/-- Cut behind the oversized length, a stream has its next four bytes taken for a header. -/
theorem not_stopsReading {stream : Bytes} (hsize : Oversized (unread stream))
    (hthrows : throws g app (messages pb stream) = false) (hlen : 8 ≤ (unread stream).length) :
    ¬ StopsReading pb g app stream := by
  intro hstops
  obtain ⟨taken, hstream, htaken⟩ := exists_taken maxLength stream
  obtain ⟨s, hs, -, hdrain, hreceived⟩ := received_oversized hthrows hsize.take_four (htaken _)
  have hcut : ([] ++ (taken ++ (unread stream).take 4) :: ([] ++ (unread stream).drop 4 :: [])).flatten
      = stream := by
    rw [List.nil_append, List.nil_append, List.flatten_cons, List.flatten_singleton,
      List.append_assoc, List.take_append_drop]
    exact hstream.symm
  have hreaches := reaches_drain pb g
    (p := ({ app }, taken ++ (unread stream).take 4)) rfl (by rw [hdrain]; exact hs)
  rw [hdrain] at hreaches
  refine hstops _ _ _ _ _ hcut _ ⟨rfl, hreaches, hsize.take_four.1⟩ hsize.take_four.2 _
    ⟨?_, .refl, ?_⟩
  · rw [List.nil_append, call, hreceived]
    exact hs
  · rw [List.nil_append, call, hreceived]
    change 4 ≤ ([] ++ (unread stream).drop 4).length
    rw [List.nil_append, List.length_drop]
    omega

/-- When a call behind an oversized length reads a header, four bytes at least follow that length.
-/
theorem oversized_of_readsHeader {before between : List Bytes} (after : List Bytes)
    {read next : Bytes} {q q' : ClientSession σ × Buffer}
    (hq : ReadsHeader pb g (call pb g app before read) q)
    (hmax : maxLength < announced q.2)
    (hq' : ReadsHeader pb g (call pb g app (before ++ read :: between) next) q') :
    let stream := (before ++ read :: (between ++ next :: after)).flatten
    Oversized (unread stream) ∧ throws g app (messages pb stream) = false ∧
      8 ≤ (unread stream).length := by
  intro stream
  obtain ⟨hnone', hreaches', h4⟩ := hq'
  have hstream : stream
      = ((before ++ [read]).flatten ++ between.flatten) ++ (next ++ after.flatten) := by
    simp [stream]
  have hmid : (before ++ read :: between).flatten
      = (before ++ [read]).flatten ++ between.flatten := by
    simp
  -- the listener stays where the first of the calls has found the length
  obtain ⟨hthrown, hsize⟩ := drain_of_readsHeader hq hmax
  have hsame := drain_append_of_oversized (c := between.flatten) hsize
  rw [← hmid] at hsame hstream
  have hthrown' : ((listener pb g).drain
      ({ app }, (before ++ read :: between).flatten)).1.thrown = none := by
    rw [hsame]
    exact hthrown
  have hsize' : Oversized
      ((listener pb g).drain ({ app }, (before ++ read :: between).flatten)).2 := by
    rw [hsame]
    exact hsize.append _
  have hall := drain_append_of_oversized (c := next ++ after.flatten) hsize'
  rw [← hstream] at hall
  obtain ⟨hthrows, -, -, hunread⟩ := listener_drain pb g app stream
  rw [hall] at hthrows hunread
  rw [← hthrows, ← hunread]
  refine ⟨hsize'.append _, by rw [hthrown']; rfl, ?_⟩
  obtain ⟨-, hsuffix', -⟩ := reaches_spec hreaches' hnone'
  have hlen := length_received_le hthrown' hsize' hnone'
  have hle : q'.2.length ≤ ((received pb g app (before ++ read :: between)).2 ++ next).length :=
    hsuffix'.length_le
  rw [List.length_append] at hle
  rw [List.length_append, List.length_append]
  omega

/-- **When nothing behind an oversized length is taken for a header**: no length is above 100 MiB,
or the handler throws an exception before, or less than four bytes follow that length. -/
theorem stopsReading_iff (stream : Bytes) :
    StopsReading pb g app stream ↔
      ¬ Oversized (unread stream) ∨ throws g app (messages pb stream) = true ∨
        (unread stream).length < 8 := by
  constructor
  · intro hstops
    by_contra hnot
    push Not at hnot
    obtain ⟨hsize, hthrows, hlen⟩ := hnot
    exact not_stopsReading hsize (by simpa using hthrows) hlen hstops
  · rintro h before read between next after rfl q hq hmax q' hq'
    obtain ⟨hsize, hthrows, hlen⟩ := oversized_of_readsHeader after hq hmax hq'
    rcases h with hnot | hthrows' | hshort
    · exact hnot hsize
    · rw [hthrows] at hthrows'
      cases hthrows'
    · exact absurd hlen (Nat.not_le.mpr hshort)

/-- Less than four bytes hold no frame. -/
theorem silent_of_length_lt {bs : Bytes} (h : bs.length < 4) : Silent pb bs := by
  intro tail htail data rest hfirst
  have hle := htail.length_le
  have hinc : Incomplete tail := by
    unfold Incomplete
    omega
  rw [splitter_first, if_pos (Or.inl hinc)] at hfirst
  cases hfirst

variable (pb g app)

/-- **When the client never goes astray.** However a stream is cut into reads, no misaligned message
is dispatched exactly when no length in it is above 100 MiB, or the handler throws an exception
before, or no frame with a message begins anywhere behind that length. No call takes what follows
for a frame header, either, exactly when in the last case less than four bytes follow. -/
theorem aligned_iff (stream : Bytes) :
    (Dispatches pb g app stream ↔
      ¬ Oversized (unread stream) ∨ throws g app (messages pb stream) = true ∨
        Silent pb ((unread stream).drop 4)) ∧
    (Dispatches pb g app stream ∧ StopsReading pb g app stream ↔
      ¬ Oversized (unread stream) ∨ throws g app (messages pb stream) = true ∨
        (unread stream).length < 8) := by
  refine ⟨dispatches_iff stream, ?_⟩
  rw [dispatches_iff, stopsReading_iff]
  refine and_iff_right_of_imp fun h => ?_
  refine h.imp_right fun h => h.imp_right fun hlen => silent_of_length_lt ?_
  rw [List.length_drop]
  omega

/-- The header `FF FF FF FF` in one read and the frame of a message in the next one: the message is
passed to the handler, though the stream read as consecutive frames ends at the header. -/
theorem dispatch_behind_oversized :
    ¬ Dispatches Protobuf.shortPayload (fun (n : ℕ) _ => (n + 1, none)) 0
      [0xFF, 0xFF, 0xFF, 0xFF, 0, 0, 0, 5, 0x12, 3, 0x1A, 1, 7] := by
  rintro ⟨hfirst, -⟩
  have hwaits : (splitter maxLength).first
      [0xFF, 0xFF, 0xFF, 0xFF, 0, 0, 0, 5, 0x12, 3, 0x1A, 1, 7] = none := by decide
  have hnone : messages Protobuf.shortPayload
      [0xFF, 0xFF, 0xFF, 0xFF, 0, 0, 0, 5, 0x12, 3, 0x1A, 1, 7] = [] := by
    rw [messages, Splitter.items_of_none hwaits, List.filterMap_nil]
  have hfirst := hfirst [[0xFF, 0xFF, 0xFF, 0xFF], [0, 0, 0, 5, 0x12, 3, 0x1A, 1, 7]] rfl
  rw [hnone, List.prefix_nil] at hfirst
  revert hfirst
  decide

end TcpClientProtocol

end NetworkLib
