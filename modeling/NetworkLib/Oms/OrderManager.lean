import NetworkLib.Theory.Numerals
import NetworkLib.Theory.Trace

/-! # The order manager of the server application

`OrderManager` keeps the accepted orders in one map. An order is stored under the identifier the
client chose for it or, when it chose none, under one the manager generates from its counter. A
**run** is a list of calls; the mutex makes every call one step.

No accepted order is overwritten in a run exactly when the identifiers of the run do not collide
(`keepsOrders_iff`), and that is a property of the orders alone: the identifiers chosen by the
clients differ, the counter does not come round, and no client chooses one that the counter
generates. -/

namespace NetworkLib

/-- `OrderType`. -/
inductive OrderType where
  | ORDER_TYPE_UNKNOWN
  | LIMIT
  | MARKET
  | STOP_LOSS
  | STOP_LIMIT
  deriving DecidableEq, Repr

/-- `Side`. -/
inductive Side where
  | SIDE_UNKNOWN
  | BUY
  | SELL
  deriving DecidableEq, Repr

/-- `TimeInForce`. -/
inductive TimeInForce where
  | TIF_UNKNOWN
  | GTC
  | IOC
  | FOK
  deriving DecidableEq, Repr

/-- `OrderStatus`. -/
inductive OrderStatus where
  | STATUS_UNKNOWN
  | NEW
  | PARTIALLY_FILLED
  | FILLED
  | CANCELED
  | REJECTED
  | PENDING_CANCEL
  | PENDING_NEW
  deriving DecidableEq, Repr

/-- `Order`. -/
structure Order where
  orderId : String := ""
  symbol : String := ""
  type : OrderType := .ORDER_TYPE_UNKNOWN
  side : Side := .SIDE_UNKNOWN
  price : ℚ := 0
  quantity : ℤ := 0
  timestamp : ℤ := 0
  clientOrderId : String := ""
  timeInForce : TimeInForce := .TIF_UNKNOWN
  accountId : String := ""
  deriving DecidableEq

/-- An order that the manager accepts. -/
def Order.Valid (order : Order) : Prop := 0 < order.quantity ∧ 0 ≤ order.price

instance (order : Order) : Decidable order.Valid := inferInstanceAs (Decidable (_ ∧ _))

/-- `OrderResponse`, less the fields about executions, which the manager leaves unset. -/
structure OrderResponse where
  orderId : String := ""
  clientOrderId : String := ""
  status : OrderStatus := .STATUS_UNKNOWN
  message : String := ""
  deriving DecidableEq

/-- `OrderManager`. -/
structure OrderManager where
  /-- `orders_`. -/
  orders : String → Option Order := fun _ => none
  /-- `id_counter_`. -/
  idCounter : UInt64 := 1

namespace OrderManager

/-- The identifier that `GenerateId` makes of a value of the counter. -/
def generatedId (counter : UInt64) : String := "ORD-" ++ toString counter

/-- `GenerateId`. -/
def generateId (m : OrderManager) : String × OrderManager :=
  (generatedId m.idCounter, { m with idCounter := m.idCounter + 1 })

/-- `CreateResponse`. -/
def createResponse (order : Order) (status : OrderStatus) (msg : String)
    (assignedId : String := "") : OrderResponse where
  orderId := if assignedId.isEmpty then order.orderId else assignedId
  clientOrderId := order.clientOrderId
  status := status
  message := msg

/-- `PlaceOrder`. -/
def placeOrder (m : OrderManager) (order : Order) : OrderManager × OrderResponse :=
  if order.quantity ≤ 0 ∨ order.price < 0 then
    (m, createResponse order .REJECTED "Invalid quantity or price")
  else
    let (orderId, m) := if order.orderId.isEmpty then m.generateId else (order.orderId, m)
    ({ m with orders := Function.update m.orders orderId (some order) },
      createResponse order .NEW "Order Accepted" orderId)

/-- `CancelOrder`. The order stays in the map. -/
def cancelOrder (m : OrderManager) (orderId : String) : OrderManager × OrderResponse :=
  match m.orders orderId with
  | none => (m, { orderId, status := .STATUS_UNKNOWN, message := "Order not found" })
  | some order => (m, createResponse order .CANCELED "Order Cancelled")

/-- A call of the manager. -/
inductive Request where
  | placeOrder (order : Order)
  | cancelOrder (orderId : String)

/-- The manager serves one call. -/
def serve (m : OrderManager) : Request → OrderManager × OrderResponse
  | .placeOrder order => m.placeOrder order
  | .cancelOrder orderId => m.cancelOrder orderId

/-- The manager after one call. -/
def step (m : OrderManager) (r : Request) : OrderManager := (m.serve r).1

/-- The order a call has accepted, with the identifier that the answer returns for it. -/
def acceptedBy (m : OrderManager) : Request → List (String × Order)
  | .placeOrder order =>
      let response := (m.placeOrder order).2
      if response.status = .NEW then [(response.orderId, order)] else []
  | .cancelOrder _ => []

/-- The orders that the calls have accepted, in order. -/
def accepted (m : OrderManager) : List Request → List (String × Order)
  | [] => []
  | r :: rs => m.acceptedBy r ++ (m.step r).accepted rs

/-- The identifiers returned for the accepted orders. -/
def returnedIds (m : OrderManager) (rs : List Request) : List String :=
  (m.accepted rs).map Prod.fst

/-- **No accepted order is lost or overwritten**: two accepted orders never have the same
identifier, and after any part of the run the map holds every accepted order under its identifier.
-/
def KeepsOrders (rs : List Request) : Prop :=
  (returnedIds {} rs).Nodup ∧
    ∀ rs', rs' <+: rs → ∀ a ∈ accepted {} rs', (Trace.run step {} rs').orders a.1 = some a.2

/-! ## The identifiers of a run, from its orders -/

/-- The valid orders of a run. -/
def placed : List Request → List Order
  | [] => []
  | .placeOrder order :: rs => if order.Valid then order :: placed rs else placed rs
  | .cancelOrder _ :: rs => placed rs

/-- The identifiers the clients have chosen. -/
def chosenIds (rs : List Request) : List String :=
  ((placed rs).filter fun order => !order.orderId.isEmpty).map Order.orderId

/-- How many valid orders come without an identifier. -/
def unnamed (rs : List Request) : ℕ := (placed rs).countP fun order => order.orderId.isEmpty

/-- The next `n` identifiers that the counter generates. -/
def generatedIds (counter : UInt64) (n : ℕ) : List String :=
  (List.range n).map fun k => generatedId (counter + UInt64.ofNat k)

/-- The first identifier generated, and those behind it. -/
theorem generatedIds_succ (counter : UInt64) (n : ℕ) :
    generatedIds counter (n + 1) = generatedId counter :: generatedIds (counter + 1) n := by
  rw [generatedIds, List.range_succ_eq_map, List.map_cons, List.map_map, generatedIds]
  congr 1
  · simp
  · apply List.map_congr_left
    intro k _
    have hnext : counter + UInt64.ofNat (k + 1) = counter + 1 + UInt64.ofNat k := by
      rw [UInt64.ofNat_add, UInt64.add_comm (UInt64.ofNat k), ← UInt64.add_assoc]
      rfl
    exact congrArg generatedId hnext

/-- Different values of the counter make different identifiers. -/
theorem generatedId_injective : Function.Injective generatedId := by
  intro a b h
  have htext : toString a = toString b := String.append_right_inj _ |>.mp h
  exact UInt64.toNat_inj.mp (natRepr_injective htext)

/-- The identifiers generated differ until the counter comes round. -/
theorem generatedIds_nodup_iff (counter : UInt64) (n : ℕ) :
    (generatedIds counter n).Nodup ↔ n ≤ 2 ^ 64 := by
  have hsame : ∀ i j, generatedId (counter + UInt64.ofNat i) = generatedId (counter + UInt64.ofNat j)
      ↔ i % 2 ^ 64 = j % 2 ^ 64 := by
    intro i j
    rw [generatedId_injective.eq_iff, UInt64.add_right_inj, ← UInt64.toNat_inj,
      UInt64.toNat_ofNat', UInt64.toNat_ofNat']
  rw [generatedIds, List.nodup_map_iff_inj_on List.nodup_range]
  simp only [List.mem_range, hsame]
  constructor
  · intro h
    by_contra hn
    have hround := h 0 (by omega) (2 ^ 64) (by omega) (by rw [Nat.mod_self, Nat.zero_mod])
    omega
  · intro hn i hi j hj h
    rwa [Nat.mod_eq_of_lt (by omega), Nat.mod_eq_of_lt (by omega)] at h

/-! ## What one call does -/

/-- What a call does that places an order which is not valid. -/
theorem placeOrder_not_valid (m : OrderManager) {order : Order} (h : ¬ order.Valid) :
    m.placeOrder order = (m, createResponse order .REJECTED "Invalid quantity or price") := by
  rw [placeOrder, if_pos]
  rw [Order.Valid, not_and_or, not_lt, not_le] at h
  exact h

/-- What a call does that places a valid order: it is stored under the identifier in the answer. -/
theorem placeOrder_valid (m : OrderManager) {order : Order} (h : order.Valid) :
    ∃ id, (m.placeOrder order).2.status = .NEW ∧ (m.placeOrder order).2.orderId = id ∧
      (m.placeOrder order).1.orders = Function.update m.orders id (some order) ∧
      if order.orderId.isEmpty then
        id = generatedId m.idCounter ∧ (m.placeOrder order).1.idCounter = m.idCounter + 1
      else id = order.orderId ∧ (m.placeOrder order).1.idCounter = m.idCounter := by
  have hchecks : ¬ (order.quantity ≤ 0 ∨ order.price < 0) := by
    rw [not_or, not_le, not_lt]
    exact h
  simp only [placeOrder, if_neg hchecks]
  by_cases hid : order.orderId.isEmpty
  · simp only [hid, if_true]
    refine ⟨generatedId m.idCounter, rfl, ?_, rfl, rfl, rfl⟩
    -- the generated identifier is not empty, so the answer returns it
    have hne : (generatedId m.idCounter).isEmpty = false := by
      simp [generatedId]
    simp only [createResponse, generateId, hne, if_false, Bool.false_eq_true]
  · simp only [hid, if_false, Bool.false_eq_true]
    refine ⟨order.orderId, rfl, ?_, rfl, rfl, trivial⟩
    simp only [createResponse, ite_self]

/-- Cancelling changes nothing. -/
theorem cancelOrder_fst (m : OrderManager) (orderId : String) : (m.cancelOrder orderId).1 = m := by
  rw [cancelOrder]
  split <;> rfl

/-- A valid order is accepted under the identifier returned. -/
theorem acceptedBy_valid (m : OrderManager) {order : Order} (h : order.Valid) :
    m.acceptedBy (.placeOrder order) = [((m.placeOrder order).2.orderId, order)] := by
  obtain ⟨id, hnew, -, -, -⟩ := placeOrder_valid m h
  rw [acceptedBy, if_pos hnew]

/-- Another one is not accepted. -/
theorem acceptedBy_not_valid (m : OrderManager) {order : Order} (h : ¬ order.Valid) :
    m.acceptedBy (.placeOrder order) = [] := by
  rw [acceptedBy, placeOrder_not_valid m h]
  rfl

/-- An order stored under its identifier, over what was there. -/
def store (orders : String → Option Order) (a : String × Order) : String → Option Order :=
  Function.update orders a.1 (some a.2)

/-- A call stores the order it has accepted, and nothing else. -/
theorem step_orders (m : OrderManager) (r : Request) :
    (m.step r).orders = (m.acceptedBy r).foldl store m.orders := by
  cases r with
  | placeOrder order =>
      by_cases h : order.Valid
      · obtain ⟨id, -, hid, horders, -⟩ := placeOrder_valid m h
        rw [acceptedBy_valid m h, hid]
        exact horders
      · rw [acceptedBy_not_valid m h, step, serve, placeOrder_not_valid m h]
        rfl
  | cancelOrder orderId =>
      rw [step, serve, cancelOrder_fst]
      rfl

/-! ## What a run does -/

/-- The identifiers are returned in the order of the requests. -/
theorem returnedIds_cons (m : OrderManager) (r : Request) (rs : List Request) :
    m.returnedIds (r :: rs) = (m.acceptedBy r).map Prod.fst ++ (m.step r).returnedIds rs :=
  List.map_append

/-- A run stores the orders it has accepted, one after another. -/
theorem run_orders (m : OrderManager) (rs : List Request) :
    (Trace.run step m rs).orders = (m.accepted rs).foldl store m.orders := by
  induction rs generalizing m with
  | nil => rfl
  | cons r rs ih => rw [Trace.run_cons, ih, step_orders, accepted, List.foldl_append]

/-- Where no identifier occurs twice, every entry stored is still there at the end. -/
theorem foldl_store_of_nodup (l : List (String × Order)) (orders : String → Option Order)
    (hl : (l.map Prod.fst).Nodup) :
    (∀ a ∈ l, l.foldl store orders a.1 = some a.2) ∧
      ∀ id ∉ l.map Prod.fst, l.foldl store orders id = orders id := by
  induction l generalizing orders with
  | nil => exact ⟨fun a ha => absurd ha List.not_mem_nil, fun _ _ => rfl⟩
  | cons b l ih =>
      rw [List.map_cons, List.nodup_cons] at hl
      obtain ⟨hin, hout⟩ := ih (store orders b) hl.2
      rw [List.foldl_cons]
      refine ⟨?_, ?_⟩
      · intro a ha
        rcases List.mem_cons.mp ha with rfl | ha
        · -- stored here, and never again under this identifier
          rw [hout a.1 hl.1, store, Function.update_self]
        · exact hin a ha
      · intro id hid
        rw [List.map_cons, List.mem_cons, not_or] at hid
        rw [hout id hid.2, store, Function.update_of_ne hid.1]

/-- The orders accepted in a part of a run. -/
theorem accepted_append (m : OrderManager) (rs rs' : List Request) :
    m.accepted (rs ++ rs') = m.accepted rs ++ (Trace.run step m rs).accepted rs' := by
  induction rs generalizing m with
  | nil => rfl
  | cons r rs ih =>
      rw [List.cons_append, accepted, ih, accepted, Trace.run_cons, List.append_assoc]

/-- The orders are kept exactly when no identifier is returned twice. -/
theorem keepsOrders_iff_nodup (rs : List Request) : KeepsOrders rs ↔ (returnedIds {} rs).Nodup := by
  refine and_iff_left_of_imp ?_
  rintro hids rs' ⟨rest, rfl⟩ a ha
  have hpart : ((accepted {} rs').map Prod.fst).Nodup := by
    rw [returnedIds, accepted_append, List.map_append] at hids
    exact (List.nodup_append.mp hids).1
  rw [run_orders]
  exact (foldl_store_of_nodup _ _ hpart).1 a ha

/-- The identifiers returned are those the clients have chosen and those the counter has generated.
-/
theorem returnedIds_perm (m : OrderManager) (rs : List Request) :
    (m.returnedIds rs).Perm (chosenIds rs ++ generatedIds m.idCounter (unnamed rs)) := by
  -- Induction on the requests; the counter moves on with each id that is generated.
  induction rs generalizing m with
  | nil => exact List.Perm.refl _
  | cons r rs ih =>
      rw [returnedIds_cons]
      have hrest := ih (m.step r)
      cases r with
      | cancelOrder orderId =>
          rw [step, serve, cancelOrder_fst] at hrest ⊢
          exact hrest
      | placeOrder order =>
          by_cases h : order.Valid
          · obtain ⟨id, -, hid, -, hwhere⟩ := placeOrder_valid m h
            rw [acceptedBy_valid m h, hid, List.map_singleton, List.singleton_append]
            -- the id comes from the counter, or from the order
            by_cases hempty : order.orderId.isEmpty
            · rw [if_pos hempty] at hwhere
              have hchosen : chosenIds (.placeOrder order :: rs) = chosenIds rs := by
                simp [chosenIds, placed, h, hempty]
              have hunnamed : unnamed (.placeOrder order :: rs) = unnamed rs + 1 := by
                simp [unnamed, placed, h, hempty]
              rw [hchosen, hunnamed, generatedIds_succ, hwhere.1]
              rw [step, serve, hwhere.2] at hrest
              exact (hrest.cons _).trans List.perm_middle.symm
            · rw [if_neg hempty] at hwhere
              have hchosen : chosenIds (.placeOrder order :: rs) = order.orderId :: chosenIds rs := by
                simp [chosenIds, placed, h, hempty]
              have hunnamed : unnamed (.placeOrder order :: rs) = unnamed rs := by
                simp [unnamed, placed, h, hempty]
              rw [hchosen, hunnamed, hwhere.1, List.cons_append]
              rw [step, serve, hwhere.2] at hrest
              exact hrest.cons _
          · have hplaced : placed (.placeOrder order :: rs) = placed rs := if_neg h
            rw [acceptedBy_not_valid m h, List.map_nil, List.nil_append, chosenIds, unnamed, hplaced]
            rw [step, serve, placeOrder_not_valid m h] at hrest ⊢
            exact hrest

/-- **No accepted order is overwritten exactly when the identifiers of the valid orders do not
collide**: those the clients have chosen differ, the counter does not come round, and no client has
chosen one that the counter generates in the run. -/
theorem keepsOrders_iff (rs : List Request) :
    KeepsOrders rs ↔
      (chosenIds rs).Nodup ∧ unnamed rs ≤ 2 ^ 64 ∧
        ∀ id ∈ chosenIds rs, id ∉ generatedIds 1 (unnamed rs) := by
  rw [keepsOrders_iff_nodup, (returnedIds_perm {} rs).nodup_iff, List.nodup_append']
  change _ ∧ (generatedIds 1 (unnamed rs)).Nodup ∧ _ ↔ _
  rw [generatedIds_nodup_iff]
  rfl

/-- A client that has chosen `ORD-1` loses its order to the first client without an identifier. -/
theorem generated_identifier_overwrites :
    ¬ KeepsOrders [.placeOrder { orderId := "ORD-1", symbol := "A", quantity := 1 },
        .placeOrder { symbol := "B", quantity := 1 }] := by
  rintro ⟨hids, -⟩
  exact absurd hids (by decide)

end OrderManager

end NetworkLib
