import Mcproc.Lib.Machine
import Mcproc.Rpc.Protocol

namespace Rpc

namespace State

variable {W : Type} (s : State W)

@[simp] theorem send_nil (sender : Sender) : s.send sender [] = s := by
  cases sender with
  | queued queue =>
    have hid : s.queues.modify queue (· ++ []) = s.queues := by
      simp only [List.append_nil]
      exact List.modify_id queue s.queues
    rw [send, hid]
  | configured => simp [send]

def applied (sender : Sender) (sent : List JsonRpcNotification × W) : State W :=
  { s.send sender sent.1 with world := sent.2 }

@[simp] theorem applied_nil (sender : Sender) : s.applied sender ([], s.world) = s := by
  simp [applied]

theorem applied_applied (sent sent' : List JsonRpcNotification × W) :
    (s.applied .configured sent).applied .configured sent' =
      s.applied .configured (sent.1 ++ sent'.1, sent'.2) := by
  simp [applied, send]

-- Nothing was delivered and no older queue was touched.
structure Aside (s t : State W) : Prop where
  delivered : t.delivered = s.delivered
  longer : s.queues.length ≤ t.queues.length
  queues : ∀ i < s.queues.length, t.queues[i]? = s.queues[i]?

theorem Aside.refl : Aside s s := ⟨rfl, Nat.le_refl _, fun _ _ => rfl⟩

theorem Aside.trans {s t u : State W} (h : Aside s t) (h' : Aside t u) : Aside s u where
  delivered := h'.delivered.trans h.delivered
  longer := Nat.le_trans h.longer h'.longer
  queues i hi := (h'.queues i (Nat.lt_of_lt_of_le hi h.longer)).trans (h.queues i hi)

theorem Aside.takeAll {s t : State W} (h : Aside s t) {queue : Nat}
    (hq : s.queues.length ≤ queue) : Aside s (t.takeAll queue).2 where
  delivered := h.delivered
  longer := by
    rw [State.takeAll, List.length_set]
    exact h.longer
  queues i hi := by
    have hne : queue ≠ i := Nat.ne_of_gt (Nat.lt_of_lt_of_le hi hq)
    rw [State.takeAll, List.getElem?_set_ne hne]
    exact h.queues i hi

theorem aside_newQueue (sender : Sender) : Aside s (s.newQueue.setSender sender) where
  delivered := rfl
  longer := by simp [newQueue, setSender]
  queues i hi := by simp [newQueue, setSender, List.getElem?_append_left hi]

theorem Aside.applied {s t : State W} (h : Aside s t) {queue : Nat}
    (hq : s.queues.length ≤ queue) (sent : List JsonRpcNotification × W) :
    Aside s (t.applied (.queued queue) sent) where
  delivered := h.delivered
  longer := by
    rw [State.applied, send, List.length_modify]
    exact h.longer
  queues i hi := by
    have hne : queue ≠ i := Nat.ne_of_gt (Nat.lt_of_lt_of_le hi hq)
    exact (List.getElem?_modify_ne _ _ hne).trans (h.queues i hi)

theorem newQueue_takeAll (sender : Sender) (sent : List JsonRpcNotification × W) :
    (((s.newQueue.setSender sender).applied (.queued s.queues.length) sent).takeAll
      s.queues.length).1 = sent.1 := by
  simp [State.takeAll, State.applied, send, setSender, newQueue, List.getD_eq_getElem?_getD]

theorem Aside.takeAll_nil {sender : Sender} {t : State W}
    (h : Aside (s.newQueue.setSender sender) t) : (t.takeAll s.queues.length).1 = [] := by
  have hlast := h.queues s.queues.length (by simp [newQueue, setSender])
  simp [State.takeAll, List.getD_eq_getElem?_getD, hlast, newQueue, setSender]

end State

namespace Protocol

variable {W : Type} (P : Protocol W)

-- What the tool handlers of a call send through their contexts, in order, and the world after it.
def toolsCallSends (params : Option Value) (requestId : JsonRpcId) (w : W) :
    List JsonRpcNotification × W :=
  match params with
  | none => ([], w)
  | some params =>
    match (params.get "name").bind Value.asStr with
    | none => ([], w)
    | some toolName =>
      match P.tools.lookup toolName with
      | none => ([], w)
      | some handler =>
        let o := handler.handle (params.get "arguments") ⟨progressToken params, some requestId⟩ w
        (o.sent, o.world)

def customSends (method : String) (params : Option Value) (requestId : JsonRpcId) (w : W) :
    List JsonRpcNotification × W :=
  match P.tools.lookup method with
  | some handler =>
    let o := handler.handle params ⟨params.bind progressToken, some requestId⟩ w
    (o.sent, o.world)
  | none =>
    match P.customHandlers.lookup method with
    | some handler => ([], (handler.handle params w).2)
    | none => ([], w)

def requestSends (req : JsonRpcRequest) (w : W) : List JsonRpcNotification × W :=
  if req.jsonrpc ≠ "2.0" then ([], w)
  else
    match McpMethod.fromStr req.method with
    | .toolsCall => P.toolsCallSends req.params req.id w
    | .custom method => P.customSends method req.params req.id w
    | _ => ([], w)

mutual

def sends : JsonRpcMessage → W → List JsonRpcNotification × W
  | .request req, w => P.requestSends req w
  | .response _, w => ([], w)
  | .notification _, w => ([], w)
  | .batch messages, w => sendsAll messages w

def sendsAll : List JsonRpcMessage → W → List JsonRpcNotification × W
  | [], w => ([], w)
  | message :: messages, w =>
    ((sends message w).1 ++ (sendsAll messages (sends message w).2).1,
      (sendsAll messages (sends message w).2).2)

end

variable (pretty : Value → String)

theorem handleToolsCall_sends (params : Option Value) (requestId : JsonRpcId) (sender : Sender)
    (s : State W) :
    (P.handleToolsCall pretty params requestId sender s).2 =
      s.applied sender (P.toolsCallSends params requestId s.world) := by
  cases params with
  | none => exact (s.applied_nil sender).symm
  | some params =>
    simp only [handleToolsCall, toolsCallSends]
    cases (params.get "name").bind Value.asStr with
    | none => exact (s.applied_nil sender).symm
    | some toolName =>
      simp only
      cases P.tools.lookup toolName with
      | none => exact (s.applied_nil sender).symm
      | some handler => rfl

theorem handleCustom_sends (method : String) (params : Option Value) (requestId : JsonRpcId)
    (sender : Sender) (s : State W) :
    (P.handleCustom method params requestId sender s).2 =
      s.applied sender (P.customSends method params requestId s.world) := by
  simp only [handleCustom, customSends]
  cases P.tools.lookup method with
  | some handler => rfl
  | none =>
    simp only
    cases P.customHandlers.lookup method with
    | none => exact (s.applied_nil sender).symm
    | some handler => simp [State.applied]

theorem handleRequest_sends (req : JsonRpcRequest) (sender : Sender) (s : State W) :
    (P.handleRequestWithSender pretty req sender s).2 =
      s.applied sender (P.requestSends req s.world) := by
  simp only [handleRequestWithSender, requestSends]
  split
  · exact (s.applied_nil sender).symm
  · simp only [handleMethod]
    cases McpMethod.fromStr req.method with
    | initializeServer | shutdown | toolsList => exact (s.applied_nil sender).symm
    | toolsCall => exact P.handleToolsCall_sends pretty req.params req.id sender s
    | custom method => exact P.handleCustom_sends method req.params req.id sender s

mutual

theorem realtime_delivers (message : JsonRpcMessage) {s : State W}
    (h : s.notificationSender = some .configured) :
    (P.handleMessageRealtime pretty message s).2 =
      s.applied .configured (P.sends message s.world) := by
  cases message with
  | request req =>
    simp only [handleMessageRealtime, h, sends]
    exact P.handleRequest_sends pretty req .configured s
  | notification n => exact (s.applied_nil .configured).symm
  | response r => exact (s.applied_nil .configured).symm
  | batch messages =>
    simp only [handleMessageRealtime, sends]
    split
    · next he =>
      rw [List.isEmpty_iff.mp he]
      exact (s.applied_nil .configured).symm
    · exact realtimeAll_delivers messages h

theorem realtimeAll_delivers (messages : List JsonRpcMessage) {s : State W}
    (h : s.notificationSender = some .configured) :
    (P.handleMessagesRealtime pretty messages s).2 =
      s.applied .configured (P.sendsAll messages s.world) := by
  cases messages with
  | nil => exact (s.applied_nil .configured).symm
  | cons message messages =>
    simp only [handleMessagesRealtime, sendsAll, realtime_delivers message h]
    rw [realtimeAll_delivers messages (s := s.applied .configured (P.sends message s.world)) h,
      State.applied_applied]
    rfl

end

def returned (message : JsonRpcMessage) (sent : List JsonRpcNotification) :
    List JsonRpcNotification :=
  match message with
  | .batch _ => []
  | _ => sent

structure Queued (s t : State W) (world : W) : Prop where
  aside : s.Aside t
  world : t.world = world

mutual

theorem handleMessage_queues (message : JsonRpcMessage) (s : State W) :
    Queued s (P.handleMessage pretty message s).2 (P.sends message s.world).2 ∧
      (∃ queue, (P.handleMessage pretty message s).2.notificationSender = some (.queued queue)) ∧
      (P.handleMessage pretty message s).1.2 = returned message (P.sends message s.world).1 := by
  have hnew := s.aside_newQueue (.queued s.queues.length)
  cases message with
  | request req =>
    simp only [handleMessage, handleRequest_sends, sends, returned]
    refine ⟨⟨(hnew.applied (Nat.le_refl _) _).takeAll (Nat.le_refl _), rfl⟩, ⟨_, rfl⟩, ?_⟩
    exact s.newQueue_takeAll _ _
  | notification n | response r =>
    simp only [handleMessage, sends, returned]
    exact ⟨⟨hnew.takeAll (Nat.le_refl _), rfl⟩, ⟨_, rfl⟩, State.Aside.takeAll_nil s (.refl _)⟩
  | batch messages =>
    simp only [handleMessage, sends, returned]
    split
    · next he =>
      rw [List.isEmpty_iff.mp he]
      exact ⟨⟨hnew.takeAll (Nat.le_refl _), rfl⟩, ⟨_, rfl⟩, State.Aside.takeAll_nil s (.refl _)⟩
    · obtain ⟨⟨haside, hworld⟩, hslot⟩ := handleMessages_queues messages
        (s.newQueue.setSender (.queued s.queues.length))
      refine ⟨⟨(hnew.trans haside).takeAll (Nat.le_refl _), hworld⟩, ?_,
        State.Aside.takeAll_nil s haside⟩
      rcases hslot with hslot | hslot
      · exact ⟨_, hslot⟩
      · exact hslot

theorem handleMessages_queues (messages : List JsonRpcMessage) (s : State W) :
    Queued s (P.handleMessages pretty messages s).2 (P.sendsAll messages s.world).2 ∧
      ((P.handleMessages pretty messages s).2.notificationSender = s.notificationSender ∨
        ∃ queue, (P.handleMessages pretty messages s).2.notificationSender =
          some (.queued queue)) := by
  cases messages with
  | nil => exact ⟨⟨.refl s, rfl⟩, Or.inl rfl⟩
  | cons message messages =>
    simp only [handleMessages, sendsAll]
    obtain ⟨⟨haside, hworld⟩, hslot, -⟩ := handleMessage_queues message s
    obtain ⟨⟨haside', hworld'⟩, hslot'⟩ :=
      handleMessages_queues messages (P.handleMessage pretty message s).2
    rw [hworld] at hworld'
    refine ⟨⟨haside.trans haside', hworld'⟩, Or.inr ?_⟩
    rcases hslot' with hsame | hqueued
    · rw [hsame]
      exact hslot
    · exact hqueued

end

-- A batch goes through `handle_message` once more for each element and drops what that returns.
theorem handleMessage_returns_iff (message : JsonRpcMessage) (s : State W) :
    (P.handleMessage pretty message s).1.2 = (P.sends message s.world).1 ↔
      (∃ messages, message = .batch messages) → (P.sends message s.world).1 = [] := by
  rw [(P.handleMessage_queues pretty message s).2.2]
  cases message with
  | batch messages => exact ⟨fun h _ => h.symm, fun h => (h ⟨messages, rfl⟩).symm⟩
  | request | response | notification =>
    refine ⟨fun _ h => ?_, fun _ => rfl⟩
    obtain ⟨messages, hm⟩ := h
    cases hm

inductive Call where
  | message (message : JsonRpcMessage)
  | realtime (message : JsonRpcMessage)

def Call.IsRealtime : Call → Prop
  | .message _ => False
  | .realtime _ => True

def afterCall (s : State W) : Call → State W
  | .message message => (P.handleMessage pretty message s).2
  | .realtime message => (P.handleMessageRealtime pretty message s).2

def calls (s : State W) : Machine (State W) Call where
  init := s
  enabled _ _ := True
  next := P.afterCall pretty

-- Where the notifications of one call are found, and the sender that later calls find.
def Conserved (s : State W) : Call → Prop
  | .message message =>
    (P.handleMessage pretty message s).1.2 = (P.sends message s.world).1 ∧
      (P.handleMessage pretty message s).2.delivered = s.delivered ∧
      (P.handleMessage pretty message s).2.notificationSender = s.notificationSender
  | .realtime message =>
    (P.handleMessageRealtime pretty message s).2.delivered =
        s.delivered ++ (P.sends message s.world).1 ∧
      (P.handleMessageRealtime pretty message s).2.notificationSender = s.notificationSender

theorem realtime_conserved (message : JsonRpcMessage) {s : State W}
    (h : s.notificationSender = some .configured) :
    P.Conserved pretty s (.realtime message) := by
  rw [Conserved, P.realtime_delivers pretty message h]
  exact ⟨rfl, rfl⟩

theorem message_not_conserved (message : JsonRpcMessage) {s : State W}
    (h : s.notificationSender = some .configured) :
    ¬ P.Conserved pretty s (.message message) := by
  rintro ⟨-, -, hslot⟩
  obtain ⟨queue, hqueue⟩ := (P.handleMessage_queues pretty message s).2.1
  rw [hqueue, h] at hslot
  cases hslot

theorem throughout_conserved_iff (init : State W) {s : State W}
    (h : s.notificationSender = some .configured) (cs : List Call) :
    (P.calls pretty init).Throughout (P.Conserved pretty) s cs ↔ ∀ c ∈ cs, c.IsRealtime := by
  induction cs generalizing s with
  | nil => exact ⟨(fun _ c hc => by cases hc), fun _ => trivial⟩
  | cons c cs ih =>
    rw [List.forall_mem_cons]
    cases c with
    | message message =>
      exact ⟨fun hc => absurd hc.1 (P.message_not_conserved pretty message h),
        fun hr => hr.1.elim⟩
    | realtime message =>
      have hone := P.realtime_conserved pretty message h
      have hrest := ih (s := (P.handleMessageRealtime pretty message s).2) (hone.2.trans h)
      exact ⟨fun hc => ⟨trivial, hrest.mp hc.2⟩, fun hr => ⟨hone, hrest.mpr hr.2⟩⟩

theorem calls_conserved_iff {s : State W} (h : s.notificationSender = some .configured)
    (cs : List Call) :
    (P.calls pretty s).Throughout (P.Conserved pretty) s cs ↔ ∀ c ∈ cs, c.IsRealtime :=
  P.throughout_conserved_iff pretty s h cs

end Protocol

def progressNotification : JsonRpcNotification := ⟨"2.0", "notifications/progress", none⟩

def reportingTool : ToolHandler Unit where
  toolInfo := ⟨"report", "reports once", .object []⟩
  handle _ _ _ := ⟨[progressNotification], .ok .null, ()⟩

def reporting : Protocol Unit := (Protocol.new "mcproc" "1").registerTool reportingTool

def reportCall : JsonRpcMessage := .request ⟨"2.0", "report", none, .number 1⟩

def configuredState : State Unit := ⟨(), some .configured, [], []⟩

theorem calls_conserved_iff_report :
    (reporting.calls (fun _ => "") configuredState).Throughout
        (reporting.Conserved fun _ => "") configuredState [.realtime reportCall] ↔
      ∀ c ∈ [Protocol.Call.realtime reportCall], c.IsRealtime :=
  reporting.calls_conserved_iff _ rfl _

theorem batch_notification_lost :
    ¬ ∀ (P : Protocol Unit) (pretty : Value → String) (s : State Unit) (cs : List Protocol.Call),
      s.notificationSender = some .configured →
        (P.calls pretty s).Throughout (P.Conserved pretty) s cs := by
  intro hall
  have hrun := hall reporting (fun _ => "") configuredState [.message (.batch [reportCall])] rfl
  have hsent : (reporting.sends (.batch [reportCall]) ()).1 = [progressNotification] := rfl
  have hreturned := hrun.1.1
  rw [show configuredState.world = () from rfl, hsent] at hreturned
  cases hreturned

end Rpc
