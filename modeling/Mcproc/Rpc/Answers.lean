import Mathlib.Data.List.Forall2
import Mcproc.Rpc.Protocol

namespace Rpc

inductive Due where
  | request (id : JsonRpcId)
  | invalid
  deriving DecidableEq, Repr

def Due.AnsweredBy : Due → JsonRpcResponse → Prop
  | .request id, r => r.id = id
  | .invalid, r => r = invalidRequestResponse .null

def JsonRpcResponse.Definite (r : JsonRpcResponse) : Prop := r.result.isSome = !r.error.isSome

mutual

def due : JsonRpcMessage → List Due
  | .request req => [.request req.id]
  | .response _ => []
  | .notification _ => []
  | .batch messages => if messages.isEmpty then [.invalid] else dueAll messages

def dueAll : List JsonRpcMessage → List Due
  | [] => []
  | message :: messages => due message ++ dueAll messages

end

mutual

def leaves : JsonRpcMessage → List JsonRpcResponse
  | .request _ => []
  | .response r => [r]
  | .notification _ => []
  | .batch messages => leavesAll messages

def leavesAll : List JsonRpcMessage → List JsonRpcResponse
  | [] => []
  | message :: messages => leaves message ++ leavesAll messages

end

def answers (response : Option JsonRpcMessage) : List JsonRpcResponse := leavesAll response.toList

structure Answered (dues : List Due) (rs : List JsonRpcResponse) : Prop where
  inOrder : List.Forall₂ Due.AnsweredBy dues rs
  definite : ∀ r ∈ rs, r.Definite

theorem answered_nil : Answered [] [] := ⟨.nil, fun _ hr => by cases hr⟩

theorem answered_one {d : Due} {r : JsonRpcResponse} (h : d.AnsweredBy r) (hr : r.Definite) :
    Answered [d] [r] :=
  ⟨.cons h .nil, fun r' hr' => by rw [List.mem_singleton.mp hr']; exact hr⟩

theorem Answered.append {ds ds' : List Due} {rs rs' : List JsonRpcResponse} (h : Answered ds rs)
    (h' : Answered ds' rs') : Answered (ds ++ ds') (rs ++ rs') where
  inOrder := List.rel_append h.inOrder h'.inOrder
  definite r hr := (List.mem_append.mp hr).elim (h.definite r) (h'.definite r)

theorem leavesAll_append (ms ms' : List JsonRpcMessage) :
    leavesAll (ms ++ ms') = leavesAll ms ++ leavesAll ms' := by
  induction ms with
  | nil => rfl
  | cons m ms ih => simp [leavesAll, ih]

theorem answers_response (r : JsonRpcResponse) : answers (some (.response r)) = [r] := rfl

theorem answers_batchResponse (responses : List JsonRpcMessage) :
    answers (Protocol.batchResponse responses) = leavesAll responses := by
  cases responses with
  | nil => rfl
  | cons r rs => simp [Protocol.batchResponse, answers, leavesAll, leaves]

theorem invalidRequestResponse_definite (id : JsonRpcId) :
    (invalidRequestResponse id).Definite := rfl

def Full (responses : List JsonRpcMessage) : Prop := ∀ r ∈ responses, leaves r ≠ []

theorem full_append {rs rs' : List JsonRpcMessage} (h : Full rs) (h' : Full rs') :
    Full (rs ++ rs') := fun r hr => (List.mem_append.mp hr).elim (h r) (h' r)

theorem leavesAll_of_full {rs : List JsonRpcMessage} (h : Full rs) (hne : rs ≠ []) :
    leavesAll rs ≠ [] := by
  cases rs with
  | nil => exact absurd rfl hne
  | cons r rs => exact List.append_ne_nil_of_left_ne_nil (h r List.mem_cons_self) _

theorem full_batchResponse {rs : List JsonRpcMessage} (h : Full rs) :
    Full (Protocol.batchResponse rs).toList := by
  intro m hm
  simp only [Protocol.batchResponse] at hm
  split at hm
  · cases hm
  · next hne =>
    obtain rfl := List.mem_singleton.mp hm
    exact leavesAll_of_full h (by simpa using hne)

theorem none_iff_of_full {response : Option JsonRpcMessage} (h : Full response.toList) :
    response = none ↔ answers response = [] := by
  cases response with
  | none => exact ⟨fun _ => rfl, fun _ => rfl⟩
  | some m =>
    refine ⟨(fun e => by cases e), fun e => ?_⟩
    exact absurd e (leavesAll_of_full h (List.cons_ne_nil _ _))

namespace Protocol

variable {W : Type} (pretty : Value → String) (P : Protocol W)

theorem handleRequestWithSender_answers (req : JsonRpcRequest) (sender : Sender) (s : State W) :
    (P.handleRequestWithSender pretty req sender s).1.id = req.id ∧
      (P.handleRequestWithSender pretty req sender s).1.Definite := by
  simp only [handleRequestWithSender]
  split
  · exact ⟨rfl, invalidRequestResponse_definite _⟩
  · cases (P.handleMethod pretty req sender s).1 with
    | ok result => exact ⟨rfl, rfl⟩
    | error e => exact ⟨rfl, rfl⟩

mutual

theorem realtime_answered (message : JsonRpcMessage) (s : State W) :
    Answered (due message) (answers (P.handleMessageRealtime pretty message s).1) ∧
      Full (P.handleMessageRealtime pretty message s).1.toList := by
  cases message with
  | request req =>
    simp only [handleMessageRealtime, due, answers_response]
    obtain ⟨hid, hdef⟩ := P.handleRequestWithSender_answers pretty req _ _
    exact ⟨answered_one hid hdef, fun m hm => by rw [List.mem_singleton.mp hm]; simp [leaves]⟩
  | notification n => exact ⟨answered_nil, fun _ hm => by cases hm⟩
  | response r => exact ⟨answered_nil, fun _ hm => by cases hm⟩
  | batch messages =>
    simp only [handleMessageRealtime, due]
    split
    · refine ⟨answered_one rfl (invalidRequestResponse_definite _), fun m hm => ?_⟩
      rw [List.mem_singleton.mp hm]
      simp [leaves]
    · obtain ⟨hanswered, hfull⟩ := realtimeAll_answered messages s
      rw [answers_batchResponse]
      exact ⟨hanswered, full_batchResponse hfull⟩

theorem realtimeAll_answered (messages : List JsonRpcMessage) (s : State W) :
    Answered (dueAll messages) (leavesAll (P.handleMessagesRealtime pretty messages s).1) ∧
      Full (P.handleMessagesRealtime pretty messages s).1 := by
  cases messages with
  | nil => exact ⟨answered_nil, fun _ hm => by cases hm⟩
  | cons message messages =>
    simp only [handleMessagesRealtime, dueAll, leavesAll_append]
    obtain ⟨hfirst, hfull⟩ := realtime_answered message s
    obtain ⟨hrest, hfull'⟩ := realtimeAll_answered messages
      (P.handleMessageRealtime pretty message s).2
    exact ⟨hfirst.append hrest, full_append hfull hfull'⟩

end

def Agree {A : Type} (x y : A × State W) : Prop := x.1 = y.1 ∧ x.2.world = y.2.world

theorem handleMethod_agree (req : JsonRpcRequest) (sender sender' : Sender) {s t : State W}
    (h : s.world = t.world) :
    Agree (P.handleMethod pretty req sender s) (P.handleMethod pretty req sender' t) := by
  simp only [handleMethod]
  split
  · exact ⟨rfl, h⟩
  · exact ⟨rfl, h⟩
  · simp only [handleToolsCall]
    split
    · exact ⟨rfl, h⟩
    · split
      · exact ⟨rfl, h⟩
      · split
        · exact ⟨rfl, h⟩
        · simp only [h]
          exact ⟨rfl, rfl⟩
  · exact ⟨rfl, h⟩
  · simp only [handleCustom]
    split
    · simp only [h]
      exact ⟨rfl, rfl⟩
    · split
      · simp only [h]
        exact ⟨rfl, rfl⟩
      · exact ⟨rfl, h⟩

theorem handleRequestWithSender_agree (req : JsonRpcRequest) (sender sender' : Sender)
    {s t : State W} (h : s.world = t.world) :
    Agree (P.handleRequestWithSender pretty req sender s)
      (P.handleRequestWithSender pretty req sender' t) := by
  obtain ⟨hresult, hworld⟩ := P.handleMethod_agree pretty req sender sender' h
  simp only [handleRequestWithSender]
  split
  · exact ⟨rfl, h⟩
  · exact ⟨by rw [hresult], hworld⟩

mutual

theorem handleMessage_agree (message : JsonRpcMessage) {s t : State W}
    (h : s.world = t.world) :
    (P.handleMessage pretty message s).1.1 = (P.handleMessageRealtime pretty message t).1 ∧
      (P.handleMessage pretty message s).2.world =
        (P.handleMessageRealtime pretty message t).2.world := by
  cases message with
  | request req =>
    simp only [handleMessage, handleMessageRealtime]
    cases t.notificationSender with
    | some sender =>
      obtain ⟨hresponse, hworld⟩ := P.handleRequestWithSender_agree pretty req
        (.queued s.queues.length) sender (s := s.newQueue.setSender (.queued s.queues.length)) h
      exact ⟨by rw [hresponse], hworld⟩
    | none =>
      obtain ⟨hresponse, hworld⟩ := P.handleRequestWithSender_agree pretty req
        (.queued s.queues.length) (.queued t.queues.length)
        (s := s.newQueue.setSender (.queued s.queues.length)) (t := t.newQueue) h
      exact ⟨by rw [hresponse], hworld⟩
  | notification n => exact ⟨rfl, h⟩
  | response r => exact ⟨rfl, h⟩
  | batch messages =>
    simp only [handleMessage, handleMessageRealtime]
    split
    · exact ⟨rfl, h⟩
    · obtain ⟨hresponses, hworld⟩ := handleMessages_agree messages
        (s := s.newQueue.setSender (.queued s.queues.length)) (t := t) h
      exact ⟨by rw [hresponses], hworld⟩

theorem handleMessages_agree (messages : List JsonRpcMessage) {s t : State W}
    (h : s.world = t.world) :
    Agree (P.handleMessages pretty messages s) (P.handleMessagesRealtime pretty messages t) := by
  cases messages with
  | nil => exact ⟨rfl, h⟩
  | cons message messages =>
    obtain ⟨hfirst, hworld⟩ := handleMessage_agree message h
    obtain ⟨hrest, hworld'⟩ := handleMessages_agree messages hworld
    simp only [handleMessages, handleMessagesRealtime]
    exact ⟨by rw [hfirst, hrest], hworld'⟩

end

theorem tree_answered (message : JsonRpcMessage) (s : State W) :
    List.Forall₂ Due.AnsweredBy (due message)
        (answers (P.handleMessageRealtime pretty message s).1) ∧
      ((P.handleMessageRealtime pretty message s).1 = none ↔
        answers (P.handleMessageRealtime pretty message s).1 = []) ∧
      (∀ r ∈ answers (P.handleMessageRealtime pretty message s).1, r.Definite) ∧
      (P.handleMessage pretty message s).1.1 = (P.handleMessageRealtime pretty message s).1 := by
  obtain ⟨hanswered, hfull⟩ := P.realtime_answered pretty message s
  exact ⟨hanswered.inOrder, none_iff_of_full hfull, hanswered.definite,
    (P.handleMessage_agree pretty message rfl).1⟩

end Protocol

end Rpc
