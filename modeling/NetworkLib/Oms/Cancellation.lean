import NetworkLib.Oms.OrderManager
import NetworkLib.Theory.Keyed

/-! # The cancellation of an order

`CancelOrder` rebuilds its answer from the stored order, and leaves that in the map. So all
cancellations of an accepted order are answered alike, each as the first (`cancellations_eq`), with
the identifier that the client chose: an order with a generated one gets an empty identifier in the
answer. The answers are what they should be for an order that is cancelled once and whose client has
chosen its identifier, or that is never cancelled (`cancelledOnce_iff`). -/

namespace NetworkLib.OrderManager

/-- The call cancels the order with this identifier. -/
def Request.cancels (r : String) : Request → Bool
  | .placeOrder _ => false
  | .cancelOrder orderId => orderId = r

/-- The answers of a run to the cancellations of the order with this identifier. -/
def cancellations (m : OrderManager) (r : String) (rs : List Request) : List OrderResponse :=
  ((Keyed.transcript serve m rs).filter fun entry => entry.1.cancels r).map Prod.snd

/-- **The order is cancelled once**: the first answer says that it is, with its identifiers, and no
later one says so again. -/
def CancelledOnce (r : String) (order : Order) : List OrderResponse → Prop
  | [] => True
  | first :: later =>
      (first.status = .CANCELED ∧ first.orderId = r ∧ first.clientOrderId = order.clientOrderId) ∧
        ∀ response ∈ later, response.status ≠ .CANCELED

/-! ## What a cancellation answers -/

variable {m : OrderManager} {r : String} {order : Order}

/-- A call that stores nothing under an identifier leaves the order there. -/
theorem step_keeps (hstored : m.orders r = some order) {request : Request}
    (hids : ((m.acceptedBy request).map Prod.fst).Nodup)
    (hother : r ∉ (m.acceptedBy request).map Prod.fst) : (m.step request).orders r = some order := by
  rw [step_orders, (foldl_store_of_nodup _ m.orders hids).2 r hother]
  exact hstored

/-- What the cancellation of a stored order answers: the identifier is the one the client chose. -/
theorem cancelOrder_snd (hstored : m.orders r = some order) :
    (m.cancelOrder r).2 = createResponse order .CANCELED "Order Cancelled" := by
  rw [cancelOrder, hstored]

/-- The answers to cancellations come in the order of the requests. -/
theorem cancellations_cons (m : OrderManager) (r : String) (request : Request) (rs : List Request) :
    cancellations m r (request :: rs) =
      (if request.cancels r then [(m.serve request).2] else [])
        ++ cancellations (m.step request) r rs := by
  rw [cancellations, Keyed.transcript_cons, List.filter_cons]
  split
  · rfl
  · rfl

/-- **All cancellations of a stored order are answered alike**, as the order stays in the map. -/
theorem cancellations_eq (hstored : m.orders r = some order) (rs : List Request)
    (hids : (r :: m.returnedIds rs).Nodup) :
    cancellations m r rs = List.replicate (rs.countP (Request.cancels r))
      (createResponse order .CANCELED "Order Cancelled") := by
  induction rs generalizing m with
  | nil => rfl
  | cons request rs ih =>
      rw [returnedIds_cons, List.nodup_cons, List.mem_append, not_or, List.nodup_append] at hids
      obtain ⟨⟨hother, hlater⟩, hnow, hrest, -⟩ := hids
      have hstay := step_keeps hstored hnow hother
      rw [cancellations_cons, ih hstay (List.nodup_cons.mpr ⟨hlater, hrest⟩), List.countP_cons]
      split
      · next hcancels =>
          -- one more answer, the same as the others
          have hanswer : (m.serve request).2 = createResponse order .CANCELED "Order Cancelled" := by
            cases request with
            | placeOrder _ => exact absurd hcancels Bool.false_ne_true
            | cancelOrder orderId =>
                rw [of_decide_eq_true hcancels]
                exact cancelOrder_snd hstored
          rw [hanswer, List.replicate_succ]
          rfl
      · rfl

/-- Answers that are all alike. -/
theorem cancelledOnce_replicate (n : ℕ) :
    CancelledOnce r order (List.replicate n (createResponse order .CANCELED "Order Cancelled")) ↔
      n = 0 ∨ n = 1 ∧ order.orderId = r := by
  cases n with
  | zero => exact iff_of_true trivial (.inl rfl)
  | succ n =>
      rw [List.replicate_succ, CancelledOnce]
      constructor
      · rintro ⟨⟨-, hid, -⟩, hlater⟩
        refine .inr ⟨?_, hid⟩
        cases n with
        | zero => rfl
        | succ n => exact absurd rfl (hlater _ List.mem_cons_self)
      · rintro (h | ⟨h, hid⟩)
        · cases h
        · have hnone : n = 0 := Nat.succ.inj h
          rw [hnone]
          exact ⟨⟨rfl, hid, rfl⟩, fun _ hresponse => absurd hresponse List.not_mem_nil⟩

/-! ## Runs -/

/-- An order that is accepted is valid. -/
theorem valid_of_accepted (h : (m.placeOrder order).2.status = .NEW) : order.Valid := by
  by_contra hvalid
  rw [placeOrder_not_valid m hvalid] at h
  cases h

/-- The identifier returned for an accepted order is the one its client chose, if it did. -/
theorem orderId_eq_iff (h : order.Valid) :
    order.orderId = (m.placeOrder order).2.orderId ↔ order.orderId ≠ "" := by
  obtain ⟨id, -, hid, -, hwhere⟩ := placeOrder_valid m h
  rw [hid]
  by_cases hempty : order.orderId.isEmpty = true
  · have hname : order.orderId = "" := String.isEmpty_iff.mp hempty
    rw [if_pos hempty] at hwhere
    rw [hwhere.1, hname]
    refine iff_of_false ?_ fun hne => hne rfl
    intro hgenerated
    have hlength := congrArg String.length hgenerated
    simp only [generatedId, String.length_append] at hlength
    have hord : "ORD-".length = 4 := rfl
    have hnil : "".length = 0 := rfl
    omega
  · rw [if_neg hempty] at hwhere
    refine iff_of_true hwhere.1.symm ?_
    intro hname
    exact hempty (String.isEmpty_iff.mpr hname)

/-- **When an accepted order is cancelled as it should be.** In every run of calls that returns no
identifier twice, an accepted order is cancelled once if and only if no call cancels it behind its
acceptance, or one call does and the client has chosen its identifier. -/
theorem cancelledOnce_iff (before after : List Request) (order : Order)
    (hids : (returnedIds {} (before ++ .placeOrder order :: after)).Nodup)
    (haccepted : ((Trace.run step {} before).placeOrder order).2.status = .NEW) :
    let m := Trace.run step {} before
    let r := (m.placeOrder order).2.orderId
    CancelledOnce r order (cancellations (m.placeOrder order).1 r after) ↔
      after.countP (Request.cancels r) = 0 ∨
        after.countP (Request.cancels r) = 1 ∧ order.orderId ≠ "" := by
  intro m r
  have hvalid := valid_of_accepted haccepted
  -- the order is in the map, and nothing accepted later has its identifier
  have hstored : (m.placeOrder order).1.orders r = some order := by
    obtain ⟨id, -, hid, horders, -⟩ := placeOrder_valid m hvalid
    rw [horders, ← hid]
    exact Function.update_self _ _ _
  have hlater : (r :: (m.placeOrder order).1.returnedIds after).Nodup := by
    rw [returnedIds, accepted_append, List.map_append] at hids
    have hrest := (List.nodup_append.mp hids).2.1
    rw [accepted, acceptedBy_valid _ hvalid] at hrest
    exact hrest
  rw [cancellations_eq hstored after hlater, cancelledOnce_replicate, orderId_eq_iff hvalid]

/-- An order with an identifier of the client, cancelled once. -/
theorem cancelledOnce_iff_chosen :
    let order : Order := { orderId := "A", clientOrderId := "C", quantity := 1 }
    CancelledOnce "A" order
      (cancellations (({} : OrderManager).placeOrder order).1 "A" [.cancelOrder "A"]) :=
  (cancelledOnce_iff [] [.cancelOrder "A"] { orderId := "A", clientOrderId := "C", quantity := 1 }
    (by decide) (by decide)).mpr (.inr (by decide))

/-- An order without an identifier is accepted as `ORD-1`. The first cancellation of `ORD-1` is
answered with an empty identifier, and the second like the first. -/
theorem cancelled_twice :
    let order : Order := { clientOrderId := "C", quantity := 1 }
    let rs : List Request := [.cancelOrder "ORD-1", .cancelOrder "ORD-1"]
    let m := (({} : OrderManager).placeOrder order)
    let answer : OrderResponse :=
      { orderId := "", clientOrderId := "C", status := .CANCELED, message := "Order Cancelled" }
    (m.2.status = .NEW ∧ m.2.orderId = "ORD-1" ∧ (returnedIds {} (.placeOrder order :: rs)).Nodup) ∧
      cancellations m.1 "ORD-1" rs = [answer, answer] ∧
      ¬ CancelledOnce "ORD-1" order (cancellations m.1 "ORD-1" rs) := by
  intro order rs m answer
  have hanswers : cancellations m.1 "ORD-1" rs = [answer, answer] := by decide
  refine ⟨by decide, hanswers, ?_⟩
  rw [hanswers]
  rintro ⟨-, hlater⟩
  exact hlater answer List.mem_cons_self rfl

end NetworkLib.OrderManager
