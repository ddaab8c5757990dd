import NetworkLib.Oms.OmsServer
import NetworkLib.Client.RpcCorrelation

/-! # Market data

The publisher writes every tick to the contexts of its subscribers, from a thread of its own, so
that the loop thread sends it later. Still a client hears a tick only behind an acknowledgement of a
subscription; and the ticks it hears are those published since it subscribed, one for each of its
subscriptions, in order (`market_data`). -/

namespace NetworkLib.OmsServer

open Service TcpService

variable {ι τ : Type*} [DecidableEq ι] {pb : Protobuf} {om : OrderMessages}
  {limiter : Option (ℕ → Bool)} {g : MessageHandler τ}

/-! ## Acknowledged before -/

/-- Every tick in a list of messages stands behind an acknowledgement. -/
def AckedBefore (msgs : List StreamEnvelope) : Prop :=
  ∀ before e after, msgs = before ++ e :: after → IsTick e → ∃ ack ∈ before, IsAck ack

/-- Before any message there is no tick. -/
theorem ackedBefore_nil : AckedBefore [] := by
  intro before e after h
  exact absurd h (by simp)

/-- Messages behind others, the ticks among which have been acknowledged. -/
theorem AckedBefore.append {msgs msgs' : List StreamEnvelope} (h : AckedBefore msgs)
    (h' : ∀ e ∈ msgs', IsTick e → ∃ ack ∈ msgs, IsAck ack) : AckedBefore (msgs ++ msgs') := by
  intro before e after heq htick
  rcases List.append_eq_append_iff.mp heq with ⟨mid, hbefore, hmsgs'⟩ | ⟨mid, hmsgs, hmid⟩
  · -- the tick is one of the later messages
    obtain ⟨ack, hack, hisAck⟩ := h' e (hmsgs' ▸ List.mem_append_right _ List.mem_cons_self) htick
    exact ⟨ack, hbefore ▸ List.mem_append_left _ hack, hisAck⟩
  · cases mid with
    | nil =>
        obtain ⟨ack, hack, hisAck⟩ := h' e (by
          rw [List.nil_append] at hmid
          exact hmid ▸ List.mem_cons_self) htick
        rw [List.append_nil] at hmsgs
        exact ⟨ack, hmsgs ▸ hack, hisAck⟩
    | cons e' mid =>
        rw [List.cons_append, List.cons.injEq] at hmid
        obtain ⟨rfl, -⟩ := hmid
        exact h before e mid hmsgs htick

/-- What holds of some messages holds of those in front. -/
theorem AckedBefore.of_append {msgs msgs' : List StreamEnvelope} (h : AckedBefore (msgs ++ msgs')) :
    AckedBefore msgs := by
  intro before e after heq htick
  exact h before e (after ++ msgs') (by rw [heq, List.append_assoc, List.cons_append]) htick

/-! ## Who has been acknowledged -/

/-- An acknowledgement has been said to the client `i`. -/
def Acked (x : Exchange ι (App ι × ℕ) (ClientSession τ) StreamEnvelope StreamEnvelope) (i : ι) :
    Prop :=
  ∃ ack ∈ (x.line i).said ClientSession.delivered, IsAck ack

/-- The acknowledgement of a subscription is sent, whatever the state. -/
def AckSent (pb : Protobuf) (om : OrderMessages) (ι : Type*) (req : StreamEnvelope) : Prop :=
  IsSubscription req → ∀ (i : ι) app, pb.serializeAsString (response om i app req) ≠ []

/-- **Who gets ticks has been acknowledged**: the subscribers, those for whom ticks are posted, and
those who have got some. -/
structure Acknowledged (pb : Protobuf) (om : OrderMessages)
    (x : Exchange ι (App ι × ℕ) (ClientSession τ) StreamEnvelope StreamEnvelope) : Prop where
  subscribers : ∀ i ∈ x.app.1.subscribers, Acked x i
  tasks : ∀ t ∈ x.tasks, Acked x t.1
  ordered : ∀ i, AckedBefore ((x.line i).said ClientSession.delivered)
  asked : ∀ i, ∀ req ∈ (x.line i).asked, AckSent pb om ι req

omit [DecidableEq ι] in
/-- Serving a request subscribes the client that has asked for it, or nobody. -/
theorem mem_subscribers_serve {i j : ι} {r : App ι × ℕ} {req : StreamEnvelope}
    (h : i ∈ (serve pb (handler om limiter j) r req).1.1.subscribers) :
    i ∈ r.1.subscribers ∨
      (handler om limiter j).checkRateLimit r.2 = true ∧ IsSubscription req ∧ i = j := by
  by_cases hallowed : (handler om limiter j).checkRateLimit r.2
  · rw [serve_allowed hallowed] at h
    cases horder : orderOf om req with
    | some order =>
        rw [streamHandler_order horder] at h
        exact .inl h
    | none =>
        by_cases hsub : IsSubscription req
        · rw [streamHandler_subscription hsub] at h
          rcases List.mem_append.mp h with h | h
          · exact .inl h
          · exact .inr ⟨hallowed, hsub, List.mem_singleton.mp h⟩
        · rw [streamHandler_other horder hsub] at h
          exact .inl h
  · rw [serve_refused hallowed] at h
    exact .inl h

omit [DecidableEq ι] in
/-- The response to a subscription acknowledges it. -/
theorem isAck_response (i : ι) (app : App ι) {req : StreamEnvelope} (h : IsSubscription req) :
    IsAck (response om i app req) := by
  have horder : orderOf om req = none := by
    cases horder : orderOf om req with
    | none => rfl
    | some order => exact absurd h (not_isSubscription_of_orderOf horder)
  rw [IsAck, messageType_response, horder, if_neg (by simp), if_pos h]

variable {x : Exchange ι (App ι × ℕ) (ClientSession τ) StreamEnvelope StreamEnvelope}

/-- **Every step keeps the acknowledgements in front.** -/
theorem Acknowledged.step (h : Acknowledged pb om x) (a : Act ι StreamEnvelope Bytes)
    (ha : ∀ i req, Input.request i req ∈ a.input → AckSent pb om ι req) :
    Acknowledged pb om (x.step (omsProtocol pb om limiter g) a) := by
  have hsaid : ∀ i, ((x.step (omsProtocol pb om limiter g) a).line i).said ClientSession.delivered
      = (x.line i).said ClientSession.delivered ++ x.saying (omsProtocol pb om limiter g) a i :=
    fun i => x.said_step hear_delivered a i
  have hkeep : ∀ i, Acked x i → Acked (x.step (omsProtocol pb om limiter g) a) i := by
    rintro i ⟨ack, hack, hisAck⟩
    refine ⟨ack, ?_, hisAck⟩
    rw [hsaid]
    exact List.mem_append_left _ hack
  refine ⟨?_, ?_, ?_, ?_⟩
  · intro i hi
    rw [x.app_step] at hi
    cases a with
    | serve j =>
        cases hasked : (x.line j).asked with
        | nil =>
            rw [Exchange.serving_nil hasked] at hi
            exact hkeep i (h.subscribers i hi)
        | cons req rest =>
            rw [Exchange.serving_cons hasked] at hi
            have hserved : i ∈ (serve pb (handler om limiter j) x.app req).1.1.subscribers := hi
            rcases mem_subscribers_serve hserved with hi | ⟨hallowed, hsub, rfl⟩
            · exact hkeep i (h.subscribers i hi)
            · -- the acknowledgement is the response, and it is sent
              refine ⟨response om i x.app.1 req, ?_, isAck_response i x.app.1 hsub⟩
              rw [hsaid, Exchange.saying_serve_cons hasked, if_pos rfl]
              refine List.mem_append_right _ ?_
              have hsent := h.asked i req (hasked ▸ List.mem_cons_self) hsub i x.app.1
              show _ ∈ (serve pb (handler om limiter i) x.app req).2
              rw [serve_allowed hallowed]
              exact List.mem_filter.mpr ⟨List.mem_singleton_self _, by simpa using hsent⟩
    | request j m => exact hkeep i (h.subscribers i hi)
    | publish p => exact hkeep i (h.subscribers i hi)
    | task => exact hkeep i (h.subscribers i hi)
    | hear j => exact hkeep i (h.subscribers i hi)
  · intro t ht
    rcases Exchange.mem_tasks_step ht with ht | ht
    · exact hkeep t.1 (h.tasks t ht)
    · cases a with
      | publish md =>
          -- ticks are posted for subscribers only
          have hmem : t ∈ publishTick x.app.1 md := List.mem_of_mem_filter ht
          obtain ⟨i, hi, rfl⟩ := List.mem_map.mp hmem
          exact hkeep i (h.subscribers i hi)
      | request j m => cases ht
      | serve j => cases ht
      | task => cases ht
      | hear j => cases ht
  · intro i
    rw [hsaid]
    refine (h.ordered i).append fun e he htick => ?_
    rcases Exchange.mem_saying he with ⟨req, -, he⟩ | he
    · exact absurd htick ((mem_serve he).2 ▸ not_isTick_response i x.app.1 req)
    · exact h.tasks (i, e) he
  · intro i req hreq
    have hasked := x.asked_step (P := omsProtocol pb om limiter g) a i
    have hmem : req ∈ (x.line i).asked ++ requestsOf i a.input :=
      hasked ▸ List.mem_append_right _ hreq
    rcases List.mem_append.mp hmem with hmem | hmem
    · exact h.asked i req hmem
    · exact ha i req (mem_requestsOf.mp hmem)

/-- The acknowledgements are in front along every run at the message level. -/
theorem acknowledged_run (client : ι → ClientSession τ) (hclient : ∀ i, (client i).delivered = [])
    {as : List (Act ι StreamEnvelope Bytes)}
    (has : ∀ i req, Input.request i req ∈ as.flatMap Act.input → AckSent pb om ι req) :
    Acknowledged pb om
      (Trace.run (Exchange.step (omsProtocol pb om limiter g)) (.start ({}, 0) client) as) := by
  have hstart : Acknowledged pb om (Exchange.start ({}, 0) client) := by
    refine ⟨fun i hi => absurd hi List.not_mem_nil, fun t ht => absurd ht List.not_mem_nil,
      fun i => ?_, fun i req hreq => absurd hreq List.not_mem_nil⟩
    have hnone : ((Exchange.start ({}, 0) client : Exchange ι (App ι × ℕ) (ClientSession τ)
        StreamEnvelope StreamEnvelope).line i).said ClientSession.delivered = [] := by
      rw [Line.said, Exchange.start, hclient, List.append_nil]
    rw [hnone]
    exact ackedBefore_nil
  refine Trace.run_invariant (P := fun _ (a : Act ι StreamEnvelope Bytes) =>
    ∀ i req, Input.request i req ∈ a.input → AckSent pb om ι req) ?_ hstart ?_
  · intro x a hx ha
    exact hx.step a ha
  · exact Trace.always_of_forall fun _ a ha i req hreq =>
      has i req (List.mem_flatMap.mpr ⟨a, ha, hreq⟩)

/-! ## The ticks of a subscriber -/

/-- The ticks due to the client `i`: each one as often as the client has subscribed when it is
published. -/
def due (C : Code ι (App ι × ℕ) (ClientSession τ) StreamEnvelope Bytes UInt8) (i : ι)
    (w : Wires ι (App ι × ℕ) (ClientSession τ) UInt8) (es : List (Event ι StreamEnvelope Bytes)) :
    List StreamEnvelope :=
  Trace.outputs (Wires.step C) (fun w e =>
    match e with
    | .publish md => List.replicate (w.app.1.subscribers.count i) (tick md)
    | _ => []) w es

/-- What is posted for a client for one tick. -/
theorem partFor_publishTick {md : Bytes} (hsent : pb.serializeAsString (tick md) ≠ []) (app : App ι)
    (i : ι) :
    partFor i ((publishTick app md).filter fun t => pb.serializeAsString t.2 ≠ [])
      = List.replicate (app.subscribers.count i) (tick md) := by
  have hall : (publishTick app md).filter (fun t => pb.serializeAsString t.2 ≠ [])
      = publishTick app md := by
    refine List.filter_eq_self.mpr fun t ht => ?_
    obtain ⟨j, -, rfl⟩ := List.mem_map.mp ht
    simpa using hsent
  rw [hall, publishTick]
  induction app.subscribers with
  | nil => rfl
  | cons j subscribers ih =>
      rw [List.map_cons, partFor_cons, ih, List.count_cons]
      by_cases hj : j = i
      · simp [hj, List.replicate_succ]
      · simp [hj]

/-- **What is posted for a client in a run are the ticks due to it.** -/
theorem partFor_posted (C : Code ι (App ι × ℕ) (ClientSession τ) StreamEnvelope Bytes UInt8)
    {es : List (Event ι StreamEnvelope Bytes)}
    (hes : ∀ md, Event.publish md ∈ es → pb.serializeAsString (tick md) ≠ [])
    (w : Wires ι (App ι × ℕ) (ClientSession τ) UInt8) (i : ι) :
    partFor i (w.posted (omsProtocol pb om limiter g) C es) = due C i w es := by
  induction es generalizing w with
  | nil => rfl
  | cons e es ih =>
      have hrest := ih (fun md hmd => hes md (List.mem_cons_of_mem _ hmd)) (w.step C e)
      have hposted : w.posted (omsProtocol pb om limiter g) C (e :: es)
          = w.posting (omsProtocol pb om limiter g) e
            ++ (w.step C e).posted (omsProtocol pb om limiter g) C es := rfl
      rw [hposted, partFor_append, hrest, due, due, Trace.outputs_cons]
      congr 1
      cases e with
      | publish md => exact partFor_publishTick (hes md List.mem_cons_self) w.app.1 i
      | request j m => rfl
      | arrive j n => rfl
      | turn j => rfl
      | task => rfl
      | receive j n => rfl
      | clientTurn j => rfl

/-- A request that comes through: it fits, and so do all responses to it; and if it is a
subscription, they are sent. -/
structure Carried (pb : Protobuf) (om : OrderMessages) (ι : Type*) (req : StreamEnvelope) :
    Prop where
  fits : Fits pb req
  answers : ∀ (i : ι) app, Fits pb (response om i app req)
  sent : AckSent pb om ι req

/-- A tick that comes through. -/
def CarriedTick (pb : Protobuf) (md : Bytes) : Prop :=
  Fits pb (tick md) ∧ pb.serializeAsString (tick md) ≠ []

/-- What is due to a client are ticks. -/
theorem isTick_of_mem_due {C : Code ι (App ι × ℕ) (ClientSession τ) StreamEnvelope Bytes UInt8}
    {i : ι} {w : Wires ι (App ι × ℕ) (ClientSession τ) UInt8}
    {es : List (Event ι StreamEnvelope Bytes)}
    {e : StreamEnvelope} (h : e ∈ due C i w es) : IsTick e := by
  obtain ⟨w', event, -, he⟩ := Trace.exists_of_mem_outputs h
  cases event with
  | publish md =>
      rw [List.eq_of_mem_replicate he]
      exact isTick_tick md
  | request j m => cases he
  | arrive j n => cases he
  | turn j => cases he
  | task => cases he
  | receive j n => cases he
  | clientTurn j => cases he

omit [DecidableEq ι] in
/-- No answer is a tick. -/
theorem announced : Announced (omsProtocol (ι := ι) pb om limiter g)
    (Option.guard fun e => decide (IsTick e)) ClientSession.delivered where
  serve r i req e he := by
    have hresponse := (mem_serve he).2
    rw [Option.guard_eq_none_iff, hresponse]
    simpa using not_isTick_response i r.1 req
  hear := hear_delivered

/-- **Market data.** In every run of the server with any number of clients, whatever the
interleaving of the connections and of the publisher's thread, a client hears a tick only behind an
acknowledgement; the ticks it has heard are the first of those due to it, in order; and when no task
is left, nothing is on its way to the client and it waits, it has heard all of them. -/
theorem market_data (hg : MessageHandler.NoThrow g) (client : ι → ClientSession τ)
    (hclient : ∀ i, (client i).delivered = []) {es : List (Event ι StreamEnvelope Bytes)}
    (hrequest : ∀ i req, Event.request i req ∈ es → Carried pb om ι req)
    (hpublish : ∀ md, Event.publish md ∈ es → CarriedTick pb md) (i : ι) :
    let C := omsCode pb om limiter g
    let w := Trace.run (Wires.step C) (.start ({}, 0) client) es
    let heard := (w.link i).client.delivered
    AckedBefore heard ∧ heard.filter IsTick <+: due C i (.start ({}, 0) client) es ∧
      (w.tasks = [] → (w.link i).toClient = [] →
        C.clientTurn (w.link i).client (w.link i).received = none →
        heard.filter IsTick = due C i (.start ({}, 0) client) es) := by
  intro C w heard
  have hcarried : ∀ input ∈ es.flatMap Event.input,
      input.Carried (OmsGood pb om limiter ι) (OmsSound pb ι) :=
    carried_of_fits (fun i req h => (hrequest i req h).fits)
      (fun i req h => (hrequest i req h).answers) fun md h => (hpublish md h).1
  have hC : Carries (omsProtocol pb om limiter g) C (wire pb) (OmsGood pb om limiter ι) (Fits pb)
      (OmsSound pb ι) := carries hg
  refine ⟨?_, ?_⟩
  · -- what has been heard is a front of what has been said at the message level
    obtain ⟨as, hholds, hinput, -⟩ := wires_refine hC ({}, 0) client hcarried
    have hacked : Acknowledged pb om
        (Trace.run (Exchange.step (omsProtocol pb om limiter g)) (.start ({}, 0) client) as) := by
      refine acknowledged_run client hclient fun i req hreq => ?_
      rw [hinput] at hreq
      exact (hrequest i req (Event.mem_of_request hreq)).sent
    have hordered := hacked.ordered i
    rw [Line.said, ← (hholds.link i).client] at hordered
    exact hordered.of_append
  -- every tick that is posted is due, and nothing else is
  · have hposted :
        partFor i ((Wires.start ({}, 0) client).posted (omsProtocol pb om limiter g) C es)
        = due C i (.start ({}, 0) client) es :=
      partFor_posted C (fun md h => (hpublish md h).2) (.start ({}, 0) client) i
    have hticks : (due C i (.start ({}, 0) client) es).filter IsTick
        = due C i (.start ({}, 0) client) es :=
      List.filter_eq_self.mpr fun e he => by simpa using isTick_of_mem_due he
    have hpublished := wires_published hC announced ({}, 0) client hcarried i (hclient i)
    rw [hposted, List.filterMap_eq_filter, hticks] at hpublished
    exact hpublished

/-! ## A subscriber -/

/-- A subscription. -/
def subscription : StreamEnvelope :=
  (({} : StreamEnvelope).mutableHeader fun r => { r with messageType := marketDataSub }).setData
    (bytesOf "AAPL")

/-- Its acknowledgement. -/
def acknowledgement : StreamEnvelope :=
  (({} : StreamEnvelope).mutableHeader fun r =>
      { r with messageId := bytesOf "_resp", messageType := marketDataSubAck }).setData
    (bytesOf "Subscribed to AAPL")

/-- The serialised market data of a tick that names nothing but its symbol. -/
def appleTick : Bytes := [0x0A, 0x04] ++ bytesOf "AAPL"

/-- The messages between a subscriber and the server, with their serialisations. -/
def subscriberTable : Protobuf := Protobuf.ofTable
  [(subscription, [0x0A, 0x11, 0x42, 0x0F] ++ bytesOf "MARKET_DATA_SUB"
      ++ [0x12, 0x06, 0x1A, 0x04] ++ bytesOf "AAPL"),
    (acknowledgement, [0x0A, 0x1C, 0x0A, 0x05] ++ bytesOf "_resp" ++ [0x42, 0x13]
      ++ bytesOf "MARKET_DATA_SUB_ACK" ++ [0x12, 0x14, 0x1A, 0x12] ++ bytesOf "Subscribed to AAPL"),
    (tick appleTick, [0x0A, 0x14, 0x42, 0x12] ++ bytesOf "MARKET_DATA_UPDATE"
      ++ [0x12, 0x08, 0x1A, 0x06, 0x0A, 0x04] ++ bytesOf "AAPL")]

omit [DecidableEq ι] in
/-- The subscription is acknowledged in any state. -/
theorem response_subscription (om : OrderMessages) (i : ι) (app : App ι) :
    response om i app subscription = acknowledgement := by
  rw [response, streamHandler_subscription (by decide)]
  rfl

omit [DecidableEq ι] in
/-- It comes through, and its acknowledgement too. -/
theorem carried_subscription (om : OrderMessages) : Carried subscriberTable om ι subscription where
  fits := by decide
  answers i app := by
    rw [response_subscription]
    decide
  sent _ i app := by
    rw [response_subscription]
    decide

/-- So does the tick. -/
theorem carriedTick_appleTick : CarriedTick subscriberTable appleTick := ⟨by decide, by decide⟩

/-- One of two clients subscribes, and a tick is published. -/
theorem market_data_subscriber :
    let om : OrderMessages := ⟨fun _ => none, fun _ => [], fun _ => none⟩
    let es : List (Event Bool StreamEnvelope Bytes) :=
      [.publish appleTick, .request true subscription, .arrive true 100, .turn true,
        .publish appleTick, .task, .receive true 40, .clientTurn true]
    let C := omsCode subscriberTable om none ignore
    let w := Trace.run (Wires.step C) (.start ({}, 0) fun _ => { app := () }) es
    let heard := (w.link true).client.delivered
    AckedBefore heard ∧
      heard.filter IsTick <+: due C true (.start ({}, 0) fun _ => { app := () }) es ∧
      (w.tasks = [] → (w.link true).toClient = [] →
        C.clientTurn (w.link true).client (w.link true).received = none →
        heard.filter IsTick = due C true (.start ({}, 0) fun _ => { app := () }) es) := by
  intro om es
  have hrequest : ∀ i req, Event.request i req ∈ es → Carried subscriberTable om Bool req := by
    intro i req hreq
    simp only [es, List.mem_cons, Event.request.injEq, List.not_mem_nil, or_false, reduceCtorEq,
      false_or] at hreq
    rw [hreq.2]
    exact carried_subscription om
  have hpublish : ∀ md, Event.publish md ∈ es → CarriedTick subscriberTable md := by
    intro md hmd
    simp only [es, List.mem_cons, Event.publish.injEq, List.not_mem_nil, or_false, reduceCtorEq,
      false_or, or_self] at hmd
    rw [hmd]
    exact carriedTick_appleTick
  exact market_data noThrow_ignore (fun _ => { app := () }) (fun _ => rfl) hrequest hpublish true

end NetworkLib.OmsServer
