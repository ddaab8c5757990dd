import NetworkLib.Oms.MarketData

/-! # Acceptances

A client that has heard that its order was accepted finds it in the book, under the identifier in
the response, whatever the other clients do, provided that the orders of all clients do not collide
(`acceptances_kept`). The order in which the server has served them does not matter for that. -/

namespace NetworkLib

namespace OrderManager

/-- The identifiers of the valid orders do not collide: those the clients have chosen differ, the
counter does not come round, and no client has chosen one that the counter generates. -/
def Distinct (orders : List Order) : Prop :=
  let rs := orders.map Request.placeOrder
  (chosenIds rs).Nodup ∧ unnamed rs ≤ 2 ^ 64 ∧ ∀ id ∈ chosenIds rs, id ∉ generatedIds 1 (unnamed rs)

instance (orders : List Order) : Decidable (Distinct orders) :=
  inferInstanceAs (Decidable ((chosenIds (orders.map Request.placeOrder)).Nodup ∧
    unnamed (orders.map Request.placeOrder) ≤ 2 ^ 64 ∧
    ∀ id ∈ chosenIds (orders.map Request.placeOrder),
      id ∉ generatedIds 1 (unnamed (orders.map Request.placeOrder))))

/-- Of some orders the valid ones are placed. -/
theorem placed_map (orders : List Order) :
    placed (orders.map Request.placeOrder) = orders.filter Order.Valid := by
  induction orders with
  | nil => rfl
  | cons order orders ih =>
      rw [List.map_cons, placed, ih]
      by_cases h : order.Valid <;> simp [h]

/-- **Fewer orders do not collide either.** -/
theorem Distinct.of_subperm {orders orders' : List Order} (h : Distinct orders')
    (hsub : orders.Subperm orders') : Distinct orders := by
  obtain ⟨hchosen, hunnamed, hgenerated⟩ := h
  have hvalid : (orders.filter Order.Valid).Subperm (orders'.filter Order.Valid) := hsub.filter _
  have hids : (chosenIds (orders.map Request.placeOrder)).Subperm
      (chosenIds (orders'.map Request.placeOrder)) := by
    rw [chosenIds, chosenIds, placed_map, placed_map]
    obtain ⟨named, hperm, hsublist⟩ := hvalid.filter fun order => !order.orderId.isEmpty
    exact ⟨named.map Order.orderId, hperm.map _, hsublist.map _⟩
  have hcount :
      unnamed (orders.map Request.placeOrder) ≤ unnamed (orders'.map Request.placeOrder) := by
    rw [unnamed, unnamed, placed_map, placed_map]
    exact hvalid.countP_le _
  refine ⟨?_, hcount.trans hunnamed, fun id hid hmem => ?_⟩
  · obtain ⟨ids, hperm, hsublist⟩ := hids
    exact hperm.nodup_iff.mp (hchosen.sublist hsublist)
  · refine hgenerated id (hids.subset hid) ?_
    obtain ⟨k, hk, rfl⟩ := List.mem_map.mp hmem
    exact List.mem_map.mpr ⟨k, List.mem_range.mpr ((List.mem_range.mp hk).trans_le hcount), rfl⟩

/-- No identifier is returned twice. -/
theorem Distinct.nodup {orders : List Order} (h : Distinct orders) :
    (returnedIds {} (orders.map Request.placeOrder)).Nodup := by
  obtain ⟨hchosen, hunnamed, hgenerated⟩ := h
  rw [(returnedIds_perm {} _).nodup_iff, List.nodup_append']
  exact ⟨hchosen, (generatedIds_nodup_iff 1 _).mpr hunnamed, hgenerated⟩

/-- **An accepted order is in the map at the end**, under the identifier that was returned for it.
-/
theorem Distinct.accepted_kept {before after : List Order} {order : Order}
    (h : Distinct (before ++ order :: after))
    (hnew :
      ((Trace.run step {} (before.map Request.placeOrder)).placeOrder order).2.status = .NEW) :
    (Trace.run step {} ((before ++ order :: after).map Request.placeOrder)).orders
        ((Trace.run step {} (before.map Request.placeOrder)).placeOrder order).2.orderId
      = some order := by
  have hnodup := h.nodup
  have haccepted :
      (((Trace.run step {} (before.map Request.placeOrder)).placeOrder order).2.orderId, order)
      ∈ accepted {} ((before ++ order :: after).map Request.placeOrder) := by
    rw [List.map_append, accepted_append, List.map_cons, accepted, acceptedBy, if_pos hnew]
    exact List.mem_append_right _ List.mem_cons_self
  rw [run_orders]
  exact (foldl_store_of_nodup _ _ hnodup).1 _ haccepted

end OrderManager

namespace OmsServer

open Service TcpService OrderManager

variable {ι τ : Type*} {pb : Protobuf} {om : OrderMessages} {limiter : Option (ℕ → Bool)}
  {g : MessageHandler τ}

/-! ## The orders that are placed -/

/-- The orders that some requests place, the first of them on the `n`-th question to the limiter. -/
def placedIn (om : OrderMessages) (limiter : Option (ℕ → Bool)) :
    ℕ → List (ι × StreamEnvelope) → List Order
  | _, [] => []
  | n, (i, req) :: served =>
      (if (handler om limiter i).checkRateLimit n then (orderOf om req).toList else [])
        ++ placedIn om limiter (n + 1) served

/-- The limiter goes on counting over more requests. -/
theorem placedIn_append (n : ℕ) (served served' : List (ι × StreamEnvelope)) :
    placedIn om limiter n (served ++ served')
      = placedIn om limiter n served ++ placedIn om limiter (n + served.length) served' := by
  induction served generalizing n with
  | nil => rfl
  | cons t served ih =>
      obtain ⟨i, req⟩ := t
      have hnext : n + 1 + served.length = n + (served.length + 1) := by omega
      rw [List.cons_append, placedIn, ih, placedIn, List.append_assoc, List.length_cons, hnext]

/-- Orders are placed by requests that hold them. -/
theorem placedIn_sublist (n : ℕ) (served : List (ι × StreamEnvelope)) :
    (placedIn om limiter n served).Sublist (served.filterMap fun t => orderOf om t.2) := by
  induction served generalizing n with
  | nil => exact List.Sublist.refl _
  | cons t served ih =>
      obtain ⟨i, req⟩ := t
      have hsplit : ((i, req) :: served).filterMap (fun t => orderOf om t.2)
          = (orderOf om req).toList ++ served.filterMap fun t => orderOf om t.2 := by
        rw [List.filterMap_cons]
        cases orderOf om req <;> rfl
      rw [hsplit, placedIn]
      refine List.Sublist.append ?_ (ih _)
      split
      · exact List.Sublist.refl _
      · exact List.nil_sublist _

/-- What one request does to the order manager. -/
theorem orderManager_serve (i : ι) (r : App ι × ℕ) (req : StreamEnvelope) :
    (serve pb (handler om limiter i) r req).1.1.orderManager
        = Trace.run step r.1.orderManager
          ((if (handler om limiter i).checkRateLimit r.2 then (orderOf om req).toList else []).map
            Request.placeOrder) ∧
      (serve pb (handler om limiter i) r req).1.2 = r.2 + 1 := by
  by_cases hallowed : (handler om limiter i).checkRateLimit r.2
  · rw [serve_allowed hallowed, if_pos hallowed]
    refine ⟨?_, rfl⟩
    cases horder : orderOf om req with
    | some order => rw [streamHandler_order horder]; rfl
    | none =>
        by_cases hsub : IsSubscription req
        · rw [streamHandler_subscription hsub]; rfl
        · rw [streamHandler_other horder hsub]; rfl
  · rw [serve_refused hallowed, if_neg hallowed]
    exact ⟨rfl, rfl⟩

/-- **The book after some requests is that of the orders they place.** -/
theorem orderManager_after (r : App ι × ℕ) (served : List (ι × StreamEnvelope)) :
    ((omsProtocol pb om limiter g).after r served).1.orderManager
        = Trace.run step r.1.orderManager
          ((placedIn om limiter r.2 served).map Request.placeOrder) ∧
      ((omsProtocol pb om limiter g).after r served).2 = r.2 + served.length := by
  induction served generalizing r with
  | nil => exact ⟨rfl, rfl⟩
  | cons t served ih =>
      obtain ⟨i, req⟩ := t
      obtain ⟨horders, hcount⟩ := @orderManager_serve _ pb om limiter i r req
      obtain ⟨hrest, hlen⟩ := ih (serve pb (handler om limiter i) r req).1
      have hcons : (omsProtocol pb om limiter g).after r ((i, req) :: served)
          = (omsProtocol pb om limiter g).after (serve pb (handler om limiter i) r req).1 served :=
        rfl
      rw [hcons, hrest, hlen, horders, hcount, placedIn, List.map_append, Trace.run_append,
        List.length_cons]
      exact ⟨rfl, by omega⟩

/-! ## What a client has heard -/

/-- The orders that the clients have sent. -/
def ordersSent (om : OrderMessages) (es : List (Event ι StreamEnvelope Bytes)) : List Order :=
  (requestPairs (es.flatMap Event.input)).filterMap fun t => orderOf om t.2

/-- A message tells that the order manager has accepted an order, under the identifier `id`. -/
def Accepts (om : OrderMessages) (msg : StreamEnvelope) (id : String) : Prop :=
  msg.getHeader.messageType = orderResponse ∧
    ∃ response, om.parseResponse msg.getPayload.data = some response ∧ response.status = .NEW ∧
      response.orderId = id

/-- The response to the order in a request parses again. -/
def ResponseParses (om : OrderMessages) (req : StreamEnvelope) : Prop :=
  ∀ order, orderOf om req = some order → ∀ m : OrderManager,
    om.parseResponse (om.serializeResponse (m.placeOrder order).2) = some (m.placeOrder order).2

/-- What a response that accepts an order answers. -/
theorem accepts_response {req : StreamEnvelope} (hom : ResponseParses om req) {i : ι}
    {app : App ι} {id : String} (h : Accepts om (response om i app req) id) :
    ∃ order, orderOf om req = some order ∧ (app.orderManager.placeOrder order).2.status = .NEW ∧
      (app.orderManager.placeOrder order).2.orderId = id := by
  obtain ⟨htype, response, hparse, hnew, hid⟩ := h
  cases horder : orderOf om req with
  | none =>
      -- the responses to other requests have another type
      rw [messageType_response, horder, if_neg (by simp)] at htype
      split at htype
      · exact absurd htype (by decide)
      · exact absurd htype (by decide)
  | some order =>
      refine ⟨order, rfl, ?_⟩
      rw [OmsServer.response, streamHandler_order horder] at hparse
      have hresponse : response = (app.orderManager.placeOrder order).2 :=
        Option.some.inj (hparse.symm.trans (hom order horder _))
      exact hresponse ▸ ⟨hnew, hid⟩

/-- A tick accepts no order. -/
theorem not_accepts_tick (md : Bytes) (id : String) : ¬ Accepts om (tick md) id := by
  rintro ⟨htype, -⟩
  rw [show (tick md).getHeader.messageType = marketDataUpdate from rfl] at htype
  exact absurd htype (by decide)

variable [DecidableEq ι]

/-- What is posted for a client are ticks. -/
theorem exists_tick_of_mem_posted
    {C : Code ι (App ι × ℕ) (ClientSession τ) StreamEnvelope Bytes UInt8}
    {w : Wires ι (App ι × ℕ) (ClientSession τ) UInt8} {es : List (Event ι StreamEnvelope Bytes)}
    {t : ι × StreamEnvelope} (h : t ∈ w.posted (omsProtocol pb om limiter g) C es) :
    ∃ md, t.2 = tick md := by
  obtain ⟨w', e, -, ht⟩ := Trace.exists_of_mem_outputs h
  cases e with
  | publish md =>
      obtain ⟨i, -, rfl⟩ := List.mem_map.mp (List.mem_of_mem_filter ht)
      exact ⟨md, rfl⟩
  | request j m => cases ht
  | arrive j n => cases ht
  | turn j => cases ht
  | task => cases ht
  | receive j n => cases ht
  | clientTurn j => cases ht

/-- **What a client has heard to be accepted is in the book.** In every run of the server with any
number of clients whose orders do not collide, in any interleaving, an order whose acceptance a
client has heard stands in the book under the identifier in the response, and this client has sent
it. -/
theorem acceptances_kept (hg : MessageHandler.NoThrow g) (client : ι → ClientSession τ)
    (hclient : ∀ i, (client i).delivered = []) {es : List (Event ι StreamEnvelope Bytes)}
    (hparses : ∀ i req, Event.request i req ∈ es → ResponseParses om req)
    (hrequest : ∀ i req, Event.request i req ∈ es → Fits pb req)
    (hresponse : ∀ i req, Event.request i req ∈ es → ∀ (j : ι) app, Fits pb (response om j app req))
    (htick : ∀ md, Event.publish md ∈ es → Fits pb (tick md))
    (hdistinct : Distinct (ordersSent om es)) :
    let w := Trace.run (Wires.step (omsCode pb om limiter g)) (.start ({}, 0) client) es
    ∀ i, ∀ msg ∈ (w.link i).client.delivered, ∀ id, Accepts om msg id →
      ∃ req order, Event.request i req ∈ es ∧ orderOf om req = some order ∧
        w.app.1.orderManager.orders id = some order := by
  intro w i msg hmsg id haccepts
  have hcarried : ∀ input ∈ es.flatMap Event.input,
      input.Carried (OmsGood pb om limiter ι) (OmsSound pb ι) :=
    carried_of_fits hrequest hresponse htick
  -- All requests in the order in which they were served, and in it each client's own.
  obtain ⟨served, happ, hserved⟩ :=
    wires_linearised (carries hg) hear_delivered ({}, 0) client hclient hcarried
  obtain ⟨hfront, -, hheard⟩ := hserved i
  rcases hheard msg hmsg with ⟨before, req, rest, hsplit, hanswer⟩ | hposted
  · -- the message answers a request, which has placed the order
    obtain ⟨hallowed, rfl⟩ := mem_serve hanswer
    have hsent : Event.request i req ∈ es := by
      have hmem : req ∈ partFor i served := mem_partFor.mpr (hsplit ▸ by simp)
      exact Event.mem_of_request (mem_requestsOf.mp (hfront.subset hmem))
    obtain ⟨order, horder, hnew, hid⟩ := accepts_response (hparses i req hsent) haccepts
    obtain ⟨hbefore, hcount⟩ :=
      @orderManager_after _ _ pb om limiter g (({}, 0) : App ι × ℕ) before
    -- the order stands among those placed, in front of those that came later
    have hplaced : placedIn om limiter 0 served = placedIn om limiter 0 before
        ++ order :: placedIn om limiter (0 + before.length + 1) rest := by
      rw [hcount] at hallowed
      rw [hsplit, placedIn_append, placedIn, if_pos hallowed, horder]
      rfl
    -- and those are some of the orders sent, so no two of them collide
    have hsubperm : (placedIn om limiter 0 served).Subperm (ordersSent om es) := by
      have hpairs : served.Subperm (requestPairs (es.flatMap Event.input)) :=
        subperm_of_partFor fun j => by
          rw [partFor_requestPairs]
          exact (hserved j).1
      obtain ⟨pairs, hperm, hsublist⟩ := hpairs
      exact (placedIn_sublist 0 served).subperm.trans
        ⟨_, hperm.filterMap _, hsublist.filterMap _⟩
    have hkept := hdistinct.of_subperm hsubperm
    rw [hplaced] at hkept
    rw [hbefore] at hnew hid
    have hbook := (@orderManager_after _ _ pb om limiter g (({}, 0) : App ι × ℕ) served).1
    refine ⟨req, order, hsent, horder, ?_⟩
    rw [happ, hbook, hplaced, ← hid]
    exact hkept.accepted_kept hnew
  -- a tick of market data accepts no order
  · obtain ⟨md, hmd⟩ := exists_tick_of_mem_posted hposted
    obtain rfl : msg = tick md := hmd
    exact absurd haccepts (not_accepts_tick md id)

/-! ## Two orders

One client gives its order an identifier, the other leaves that to the server. -/

/-- An order with an identifier of its own. -/
def namedOrder : Order := { orderId := "A1", quantity := 1 }

/-- An order without one. -/
def unnamedOrder : Order := { quantity := 2 }

/-- The text of some bytes, one character a byte. -/
def textOf (bytes : Bytes) : String := String.ofList (bytes.map fun b => Char.ofNat b.toNat)

/-- Every character of the text is one byte, and so is its length. -/
def Short (text : String) : Prop :=
  (text.toList.all fun c => c.toNat < 256) = true ∧ text.toList.length < 256

/-- The text is read back. -/
theorem textOf_bytesOf {text : String} (h : Short text) : textOf (bytesOf text) = text := by
  have hsame : (bytesOf text).map (fun b => Char.ofNat b.toNat) = text.toList := by
    rw [bytesOf, List.map_map]
    refine (List.map_congr_left fun c hc => ?_).trans (List.map_id _)
    have hbyte : c.toNat < 256 := of_decide_eq_true (List.all_eq_true.mp h.1 c hc)
    rw [Function.comp_apply, UInt8.toNat_ofNat_of_lt' hbyte, Char.ofNat_toNat, id]
  rw [textOf, hsame, String.ofList_toList]

/-- An identifier that the server generates. -/
theorem short_generatedId (counter : UInt64) : Short (generatedId counter) := by
  have htext : (generatedId counter).toList
      = "ORD-".toList ++ Nat.toDigits 10 counter.toNat := by
    rw [generatedId, String.toList_append, show toString counter = counter.toNat.repr from rfl,
      Nat.toList_repr]
  have hdigits : (Nat.toDigits 10 counter.toNat).length ≤ 20 := by
    rw [Nat.length_toDigits_le_iff (by decide) (by decide)]
    exact counter.toNat_lt.trans (by norm_num)
  refine ⟨?_, ?_⟩
  · rw [htext, List.all_append, Bool.and_eq_true]
    refine ⟨by decide, List.all_eq_true.mpr fun c hc => decide_eq_true ?_⟩
    have hdigit := Nat.isDigit_of_mem_toDigits (by decide) (by decide) hc
    simp only [Char.isDigit, Bool.and_eq_true, decide_eq_true_eq] at hdigit
    exact (show c.toNat ≤ 57 from hdigit.2).trans_lt (by decide)
  · rw [htext, List.length_append]
    exact (Nat.add_le_add_left hdigits _).trans_lt (by decide)

/-- The acceptance of an order under an identifier. -/
def acceptance (id : String) : OrderResponse :=
  { orderId := id, status := .NEW, message := "Order Accepted" }

/-- The serialised acceptance. -/
def acceptanceBytes (id : String) : Bytes :=
  0x0A :: UInt8.ofNat (bytesOf id).length :: (bytesOf id
    ++ ([0x18, 0x01, 0x22, 0x0E] ++ bytesOf "Order Accepted"))

/-- The order messages between the clients and the server. -/
def twoOrders : OrderMessages where
  parseOrder bs :=
    if bs = [0x0A, 0x02, 0x41, 0x31, 0x30, 0x01] then some namedOrder
    else if bs = [0x30, 0x02] then some unnamedOrder
    else none
  serializeResponse r := if r = acceptance r.orderId then acceptanceBytes r.orderId else []
  parseResponse
    | 0x0A :: n :: rest => some (acceptance (textOf (rest.take n.toNat)))
    | _ => none

/-- An acceptance parses again. -/
theorem parseResponse_acceptance {id : String} (h : Short id) :
    twoOrders.parseResponse (twoOrders.serializeResponse (acceptance id)) = some (acceptance id) := by
  have hlength : (UInt8.ofNat (bytesOf id).length).toNat = (bytesOf id).length := by
    apply UInt8.toNat_ofNat_of_lt'
    rw [bytesOf, List.length_map]
    exact h.2
  have hserialize : twoOrders.serializeResponse (acceptance id) = acceptanceBytes id := if_pos rfl
  rw [hserialize, acceptanceBytes]
  change some (acceptance (textOf (List.take (UInt8.ofNat (bytesOf id).length).toNat
    (bytesOf id ++ _)))) = _
  rw [hlength, List.take_left, textOf_bytesOf h]

/-- The request with a serialised order. -/
def orderRequest (order : Bytes) : StreamEnvelope :=
  (({} : StreamEnvelope).mutableHeader fun r => { r with messageType := orderNew }).setData order

/-- The response with a serialised acceptance. -/
def orderAnswer (response : Bytes) : StreamEnvelope :=
  (({} : StreamEnvelope).mutableHeader fun r =>
      { r with messageId := bytesOf "_resp", messageType := orderResponse }).setData response

/-- Payload data of less than 126 bytes, as protobuf writes it. -/
def shortData (data : Bytes) : Bytes :=
  0x12 :: UInt8.ofNat (data.length + 2) :: 0x1A :: UInt8.ofNat data.length :: data

/-- The envelopes between the clients and the server, with their serialisations. -/
def orderEnvelopes : Protobuf where
  serializeAsString m :=
    let data := m.getPayload.data
    if m = orderRequest data then [0x0A, 0x0B, 0x42, 0x09] ++ bytesOf "ORDER_NEW" ++ shortData data
    else if m = orderAnswer data then
      [0x0A, 0x17, 0x0A, 0x05] ++ bytesOf "_resp" ++ [0x42, 0x0E] ++ bytesOf "ORDER_RESPONSE"
        ++ shortData data
    else []
  parseFromString
    | 0x0A :: 0x0B :: rest => some (orderRequest (rest.drop 15))
    | 0x0A :: 0x17 :: rest => some (orderAnswer (rest.drop 27))
    | _ => none
  parseFromArray data size :=
    match data.take size.toNat with
    | 0x0A :: 0x0B :: rest => some (orderRequest (rest.drop 15))
    | 0x0A :: 0x17 :: rest => some (orderAnswer (rest.drop 27))
    | _ => none

/-- A response with an acceptance fits. -/
theorem fits_orderAnswer {id : String} (h : Short id) :
    Fits orderEnvelopes (orderAnswer (acceptanceBytes id)) := by
  have hne : orderAnswer (acceptanceBytes id) ≠ orderRequest (acceptanceBytes id) := by
    intro heq
    exact absurd (congrArg (fun m : StreamEnvelope => m.getHeader.messageId) heq)
      (show bytesOf "_resp" ≠ [] by decide)
  have hserialize : orderEnvelopes.serializeAsString (orderAnswer (acceptanceBytes id))
      = [0x0A, 0x17, 0x0A, 0x05] ++ bytesOf "_resp" ++ [0x42, 0x0E] ++ bytesOf "ORDER_RESPONSE"
        ++ shortData (acceptanceBytes id) := by
    have hdata : (orderAnswer (acceptanceBytes id)).getPayload.data = acceptanceBytes id := rfl
    simp only [orderEnvelopes, hdata, if_neg hne, if_true]
  refine ⟨?_, ?_⟩
  · rw [Protobuf.RoundTrips, hserialize]
    rfl
  · have hid : (bytesOf id).length < 256 := by
      rw [bytesOf, List.length_map]
      exact h.2
    have htexts : (bytesOf "_resp").length = 5 ∧ (bytesOf "ORDER_RESPONSE").length = 14 ∧
        (bytesOf "Order Accepted").length = 14 := by decide
    rw [hserialize, shortData, acceptanceBytes, TcpHandler.maxLength]
    simp only [List.length_append, List.length_cons, List.length_nil, htexts]
    omega

/-- The manager accepts both orders in any state. -/
theorem exists_acceptance {req : StreamEnvelope} {order : Order}
    (h : orderOf twoOrders req = some order) (m : OrderManager) :
    ∃ id, Short id ∧ (m.placeOrder order).2 = acceptance id := by
  have horder : order = namedOrder ∨ order = unnamedOrder := by
    rw [orderOf] at h
    split at h
    · simp only [twoOrders] at h
      split at h
      · exact .inl (Option.some.inj h).symm
      · split at h
        · exact .inr (Option.some.inj h).symm
        · cases h
    · cases h
  rcases horder with rfl | rfl
  · refine ⟨"A1", ⟨by decide, by decide⟩, ?_⟩
    rw [placeOrder, if_neg (by decide)]
    rfl
  · refine ⟨generatedId m.idCounter, short_generatedId m.idCounter, ?_⟩
    rw [placeOrder, if_neg (by decide)]
    rfl

/-- So their acceptances parse again. -/
theorem responseParses_twoOrders (req : StreamEnvelope) : ResponseParses twoOrders req := by
  intro order horder m
  obtain ⟨id, hid, hplaced⟩ := exists_acceptance horder m
  rw [hplaced]
  exact parseResponse_acceptance hid

omit [DecidableEq ι] in
/-- And the envelopes with them fit. -/
theorem fits_response {order : Order} {bytes : Bytes}
    (h : orderOf twoOrders (orderRequest bytes) = some order) (i : ι) (app : App ι) :
    Fits orderEnvelopes (response twoOrders i app (orderRequest bytes)) := by
  obtain ⟨id, hid, hplaced⟩ := exists_acceptance h app.orderManager
  have hserialize : twoOrders.serializeResponse (acceptance id) = acceptanceBytes id := if_pos rfl
  have hresponse : response twoOrders i app (orderRequest bytes)
      = orderAnswer (acceptanceBytes id) := by
    rw [response, streamHandler_order h, hplaced, ← hserialize]
    rfl
  rw [hresponse]
  exact fits_orderAnswer hid

/-- The request with the order that has an identifier. -/
def namedRequest : StreamEnvelope := orderRequest [0x0A, 0x02, 0x41, 0x31, 0x30, 0x01]

/-- The request with the one that has none. -/
def unnamedRequest : StreamEnvelope := orderRequest [0x30, 0x02]

/-- Two clients send an order each, the second served first. -/
def twoRequests : List (Event Bool StreamEnvelope Bytes) :=
  [.request true namedRequest, .request false unnamedRequest, .arrive false 100, .turn false,
    .arrive true 100, .turn true, .receive true 100, .clientTurn true, .receive false 100,
    .clientTurn false]

/-- What has become of the orders. -/
def twoServed : Wires Bool (App Bool × ℕ) (ClientSession Unit) UInt8 :=
  Trace.run (Wires.step (omsCode orderEnvelopes twoOrders none ignore))
    (.start ({}, 0) fun _ => { app := () }) twoRequests

/-- Both clients hear that their orders were accepted, and both are in the book. -/
theorem acceptances_kept_two :
    (twoServed.link true).client.delivered = [orderAnswer (acceptanceBytes "A1")] ∧
    (twoServed.link false).client.delivered = [orderAnswer (acceptanceBytes "ORD-1")] ∧
    ∀ i, ∀ msg ∈ (twoServed.link i).client.delivered, ∀ id, Accepts twoOrders msg id →
      ∃ req order, Event.request i req ∈ twoRequests ∧ orderOf twoOrders req = some order ∧
        twoServed.app.1.orderManager.orders id = some order := by
  have honly : ∀ i req, Event.request i req ∈ twoRequests →
      req = namedRequest ∨ req = unnamedRequest := by
    intro i req hreq
    simp only [twoRequests, List.mem_cons, Event.request.injEq, List.not_mem_nil, or_false,
      reduceCtorEq] at hreq
    exact hreq.imp And.right And.right
  have hnamed : orderOf twoOrders namedRequest = some namedOrder := by decide
  have hunnamed : orderOf twoOrders unnamedRequest = some unnamedOrder := by decide
  refine ⟨by decide +kernel, by decide +kernel, ?_⟩
  refine acceptances_kept noThrow_ignore (fun _ => { app := () }) (fun _ => rfl) ?_ ?_ ?_ ?_ ?_
  · exact fun i req _ => responseParses_twoOrders req
  · intro i req hreq
    rcases honly i req hreq with rfl | rfl
    · decide
    · decide
  · intro i req hreq j app
    rcases honly i req hreq with rfl | rfl
    · exact fits_response hnamed j app
    · exact fits_response hunnamed j app
  · intro md hmd
    simp only [twoRequests, List.mem_cons, List.not_mem_nil, reduceCtorEq, or_self] at hmd
  · decide

end OmsServer

end NetworkLib
