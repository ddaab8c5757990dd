import NetworkLib.Protocols.RpcHandler
import NetworkLib.Theory.LengthPrefix

/-! # Frame synchronisation of the RPC handler

The loop of `RpcHandler::OnMessage` ends and stays on frame boundaries exactly on the buffers whose
frames can be walked, one natural-number frame size after another, without meeting a header whose
frame size wraps around in 32 bits (`WrappingHeader`). -/

namespace NetworkLib.RpcHandler

open Loop LengthPrefix

variable {σ : Type*} {pb : Protobuf} {h : ProtocolHandler σ}

/-- The loop started in `p` ends, and it stays in frame sync. -/
structure InSync (pb : Protobuf) (h : ProtocolHandler σ) (p : Session σ × Buffer) : Prop where
  /-- The loop ends. -/
  exits : ∃ q, Exits (turn pb h) p q
  /-- An iteration that does not stop removes a whole frame, its size a natural number. -/
  removes : ∀ r r', Reaches (turn pb h) p r → turn pb h r = .again r' →
    4 + announced r.2 ≤ r.2.length ∧ r'.2 = r.2.drop (4 + announced r.2)
  /-- An iteration that dispatches has a whole frame in front of it. -/
  dispatches : ∀ r r', Reaches (turn pb h) p r → turn pb h r = .again r' ∨ turn pb h r = .leave r' →
    r'.1.dispatched ≠ r.1.dispatched → 4 + announced r.2 ≤ r.2.length
  /-- On return, not by an exception, the buffer starts with an incomplete frame. -/
  incomplete : ∀ q, Exits (turn pb h) p q → q.1.thrown = none → Incomplete q.2

/-- Walking whole frames from the front of the buffer meets a complete header whose frame size does
not fit in 32 bits. -/
inductive WrappingHeader : Bytes → Prop where
  | here {bs : Bytes} : 4 ≤ bs.length → 2 ^ 32 ≤ 4 + announced bs → WrappingHeader bs
  | later {bs : Bytes} : ¬ Incomplete bs → WrappingHeader (bs.drop (4 + announced bs)) →
      WrappingHeader bs

/-! ## One turn -/

/-- A frame is processed without an exception when the handler throws none. -/
theorem process_thrown (hnt : h.NoThrow) {s : Session σ} (hs : s.thrown = none) (data : Bytes)
    (length : UInt32) : (process pb h s data length).thrown = none := by
  unfold process
  cases pb.parseFromArray data length.toInt32.toInt with
  | none => exact hs
  | some req =>
      cases hf : h.streamHandler with
      | none => exact hs
      | some f =>
          simpa only [Session.invoke, hnt f hf s.app req {}, Session.push_thrown] using hs

/-- With less than a length the loop waits. -/
theorem turn_of_short (s : Session σ) {buf : Buffer} (h4 : buf.length < 4) :
    turn pb h (s, buf) = .leave (s, buf) := by
  rw [turn, if_pos h4]

/-- Past a complete header, a turn compares and removes the 32-bit frame size. -/
theorem turn_of_header (s : Session σ) {buf : Buffer} (h4 : 4 ≤ buf.length) {s' : Session σ}
    (hs' : process pb h s (buf.drop 4) (ntohl (buf.take 4)) = s') :
    turn pb h (s, buf) =
      if buf.length < (4 + announced buf) % 2 ^ 32 then .leave (s, buf)
      else if s'.thrown.isSome then .leave (s', buf)
      else .again (s', buf.drop ((4 + announced buf) % 2 ^ 32)) := by
  have hsize : (4 + ntohl (buf.take 4)).toNat = (4 + announced buf) % 2 ^ 32 := by
    rw [UInt32.toNat_add, toNat_ntohl_take]
    rfl
  rw [turn, if_neg (by omega)]
  simp only [hsize, hs', Buffer.retrieve_eq_drop]

/-- Away from a wrapping header, a turn that goes round removes one whole frame and a turn that
changes the dispatch log has one in front of it. -/
theorem turn_spec {r : Session σ × Buffer} (hr : ¬ WrappingHeader r.2) :
    (∀ r', turn pb h r = .again r' →
      ¬ Incomplete r.2 ∧ r'.2 = r.2.drop (4 + announced r.2) ∧ r'.1.thrown = none) ∧
    ∀ q, turn pb h r = .leave q →
      (Incomplete r.2 ∧ q = r) ∨ (¬ Incomplete r.2 ∧ q.1.thrown ≠ none) := by
  obtain ⟨s, buf⟩ := r
  by_cases h4 : buf.length < 4
  · rw [turn_of_short s h4]
    have hinc : Incomplete buf := by unfold Incomplete; omega
    exact ⟨fun r' hr' => (by cases hr'), fun q hq => by cases hq; exact .inl ⟨hinc, rfl⟩⟩
  · have hfit : 4 + announced buf < 2 ^ 32 := by
      by_contra hw
      exact hr (.here (by simpa using h4) (by simpa using hw))
    rw [turn_of_header s (by omega) rfl, Nat.mod_eq_of_lt hfit]
    by_cases hinc : buf.length < 4 + announced buf
    · rw [if_pos hinc]
      exact ⟨fun r' hr' => (by cases hr'), fun q hq => by cases hq; exact .inl ⟨hinc, rfl⟩⟩
    · rw [if_neg hinc]
      cases ht : (process pb h s (buf.drop 4) (ntohl (buf.take 4))).thrown with
      | none =>
          simp only [Option.isSome_none, Bool.false_eq_true, if_false]
          exact ⟨fun r' hr' => by cases hr'; exact ⟨hinc, rfl, ht⟩, fun q hq => (by cases hq)⟩
      | some e =>
          simp only [Option.isSome_some, if_true]
          exact ⟨fun r' hr' => (by cases hr'), fun q hq => by
            cases hq; exact .inr ⟨hinc, by simp [ht]⟩⟩

/-! ## A whole call -/

/-- Walking frames keeps away from a wrapping header. -/
theorem not_wrapping_again {r r' : Session σ × Buffer} (hr : ¬ WrappingHeader r.2)
    (hr' : turn pb h r = .again r') : ¬ WrappingHeader r'.2 := by
  obtain ⟨hinc, hdrop, -⟩ := (turn_spec hr).1 r' hr'
  rw [hdrop]
  exact fun hw => hr (.later hinc hw)

/-- Away from a wrapping header the loop ends: every turn that goes round shortens the buffer. -/
theorem exists_exits {p : Session σ × Buffer} (hp : ¬ WrappingHeader p.2) :
    ∃ q, Exits (turn pb h) p q := by
  induction hn : p.2.length using Nat.strongRecOn generalizing p with
  | _ n ih =>
      cases hturn : turn pb h p with
      | leave q => exact ⟨q, .leave hturn⟩
      | again r =>
          obtain ⟨hinc, hdrop, -⟩ := (turn_spec hp).1 r hturn
          have hlt : r.2.length < n := by
            rw [Incomplete, Nat.not_lt] at hinc
            rw [hdrop, List.length_drop]
            omega
          obtain ⟨q, hq⟩ := ih _ hlt (not_wrapping_again hp hturn) rfl
          exact ⟨q, (exits_again_iff hturn).mpr hq⟩

/-- **Without a wrapping header the handler stays in frame sync**, whatever the stream handler
does. -/
theorem inSync_of_not_wrapping {p : Session σ × Buffer} (hp : ¬ WrappingHeader p.2) :
    InSync pb h p where
  exits := exists_exits hp
  removes r r' hr hr' := by
    have hw := hr.invariant (P := fun r => ¬ WrappingHeader r.2) (fun _ _ => not_wrapping_again) hp
    obtain ⟨hinc, hdrop, -⟩ := (turn_spec hw).1 r' hr'
    exact ⟨by rwa [Incomplete, Nat.not_lt] at hinc, hdrop⟩
  dispatches r r' hr hr' hne := by
    have hw := hr.invariant (P := fun r => ¬ WrappingHeader r.2) (fun _ _ => not_wrapping_again) hp
    have hinc : ¬ Incomplete r.2 := by
      rcases hr' with hr' | hr'
      · exact ((turn_spec hw).1 r' hr').1
      · obtain ⟨-, rfl⟩ | ⟨hinc, -⟩ := (turn_spec hw).2 r' hr'
        · exact absurd rfl hne
        · exact hinc
    rwa [Incomplete, Nat.not_lt] at hinc
  incomplete q hq hthrown := by
    obtain ⟨r, hr, hleave⟩ := exits_iff_reaches.mp hq
    have hw := hr.invariant (P := fun r => ¬ WrappingHeader r.2) (fun _ _ => not_wrapping_again) hp
    obtain ⟨hinc, rfl⟩ | ⟨-, hne⟩ := (turn_spec hw).2 q hleave
    · exact hinc
    · exact absurd hthrown hne

/-- Frame sync is inherited by every later turn. -/
theorem InSync.again {p r : Session σ × Buffer} (hp : InSync pb h p)
    (hr : turn pb h p = .again r) : InSync pb h r where
  exits := hp.exits.imp fun _ hq => (exits_again_iff hr).mp hq
  removes r' r'' hr' := hp.removes r' r'' (.head hr hr')
  dispatches r' r'' hr' := hp.dispatches r' r'' (.head hr hr')
  incomplete q hq := hp.incomplete q ((exits_again_iff hr).mpr hq)

/-- At a wrapping header frame sync is lost: the turn goes round, and removes less than four
bytes. -/
theorem not_inSync_here (hnt : h.NoThrow) {s : Session σ} (hs : s.thrown = none) {buf : Buffer}
    (h4 : 4 ≤ buf.length) (hwrap : 2 ^ 32 ≤ 4 + announced buf) : ¬ InSync pb h (s, buf) := by
  intro hsync
  have ht : (process pb h s (buf.drop 4) (ntohl (buf.take 4))).thrown = none :=
    process_thrown hnt hs _ _
  have hlt : announced buf < 2 ^ 32 := by
    rw [← toNat_ntohl_take]
    exact UInt32.toNat_lt _
  have hturn := turn_of_header s h4 (rfl : process pb h s _ _ = _)
  rw [if_neg (by omega), ht, if_neg (by simp)] at hturn
  obtain ⟨hle, hdrop⟩ := hsync.removes _ _ .refl hturn
  have hlen := congrArg List.length hdrop
  simp only [List.length_drop] at hlen
  omega

/-- **With a wrapping header ahead frame sync is lost**, when the stream handler does not throw on
the frames before it. -/
theorem not_inSync_of_wrapping (hnt : h.NoThrow) {buf : Buffer} (hw : WrappingHeader buf)
    {s : Session σ} (hs : s.thrown = none) : ¬ InSync pb h (s, buf) := by
  induction hw generalizing s with
  | here h4 hwrap => exact not_inSync_here hnt hs h4 hwrap
  | @later bs hinc _ ih =>
      rw [Incomplete, Nat.not_lt] at hinc
      by_cases hwrap : 2 ^ 32 ≤ 4 + announced bs
      · exact not_inSync_here hnt hs (by omega) hwrap
      · intro hsync
        have ht : (process pb h s (bs.drop 4) (ntohl (bs.take 4))).thrown = none :=
          process_thrown hnt hs _ _
        have h4 : 4 ≤ bs.length := by omega
        have hturn := turn_of_header s h4 (rfl : process pb h s _ _ = _)
        rw [Nat.mod_eq_of_lt (by omega), if_neg (by omega), ht, if_neg (by simp)] at hturn
        exact ih ht (hsync.again hturn)

/-! ## The exact condition -/

/-- **`OnMessage` terminates and stays in frame sync exactly on the buffers without a wrapping
header**: with every stream handler on those, and with no stream handler that returns on the
others. -/
theorem frame_sync_iff (pb : Protobuf) (s : Session σ) (buf : Buffer) :
    ((∀ h : ProtocolHandler σ, InSync pb h (s.enter, buf)) ↔ ¬ WrappingHeader buf) ∧
      ∀ h : ProtocolHandler σ, h.NoThrow → (InSync pb h (s.enter, buf) ↔ ¬ WrappingHeader buf) := by
  have hiff (h : ProtocolHandler σ) (hnt : h.NoThrow) :
      InSync pb h (s.enter, buf) ↔ ¬ WrappingHeader buf :=
    ⟨fun hsync hw => not_inSync_of_wrapping hnt hw s.enter_thrown hsync,
      fun hw => inSync_of_not_wrapping hw⟩
  refine ⟨⟨fun hall => ?_, fun hw h => inSync_of_not_wrapping hw⟩, hiff⟩
  exact (hiff {} (fun f hf => by cases hf)).mp (hall {})

/-- The frame carrying one byte is walked whole, with a handler that returns. -/
theorem frame_sync_iff_one_byte :
    let h : ProtocolHandler ℕ := { streamHandler := some fun n _ resp => { app := n + 1, resp } }
    InSync Protobuf.shortPayload h (({ app := 0 } : Session ℕ).enter, [0, 0, 0, 1, 7]) ↔
      ¬ WrappingHeader [0, 0, 0, 1, 7] :=
  (frame_sync_iff Protobuf.shortPayload { app := 0 } [0, 0, 0, 1, 7]).2 _
    fun f hf => by cases hf; exact fun _ _ _ => rfl

/-- On the header `FF FF FF FC` the frame size wraps around to zero: a turn removes nothing, so the
call never returns. -/
theorem frame_sync_fails_on_wrap :
    ¬ InSync Protobuf.shortPayload ({} : ProtocolHandler ℕ)
        (({ app := 0 } : Session ℕ).enter, [0xFF, 0xFF, 0xFF, 0xFC]) ∧
      ∀ q, ¬ OnMessage Protobuf.shortPayload ({} : ProtocolHandler ℕ)
        ({ app := 0 }, [0xFF, 0xFF, 0xFF, 0xFC]) q := by
  have hnever (q) : ¬ OnMessage Protobuf.shortPayload ({} : ProtocolHandler ℕ)
      ({ app := 0 }, [0xFF, 0xFF, 0xFF, 0xFC]) q := not_exits_of_again_self rfl
  refine ⟨fun hsync => ?_, hnever⟩
  obtain ⟨q, hq⟩ := hsync.exits
  exact hnever q hq

end NetworkLib.RpcHandler
