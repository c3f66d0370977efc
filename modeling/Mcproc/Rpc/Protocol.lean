import Mcproc.Rpc.Types

namespace Rpc

structure ToolInfo where
  name : String
  description : String
  inputSchema : Value

structure ServerInfo where
  name : String
  version : String

structure ToolContext where
  progressToken : Option String
  requestId : Option JsonRpcId

-- What a handler does to the rest of the world is a value of W; what it sends goes, in this order,
-- to the sender of its context.
structure Outcome (W : Type) where
  sent : List JsonRpcNotification
  result : Except Error Value
  world : W

structure ToolHandler (W : Type) where
  toolInfo : ToolInfo
  handle : Option Value → ToolContext → W → Outcome W

structure McpHandler (W : Type) where
  handle : Option Value → W → Except Error Value × W

-- The two maps are lists in the order in which they iterate.
structure Protocol (W : Type) where
  serverInfo : ServerInfo
  tools : List (String × ToolHandler W)
  customHandlers : List (String × McpHandler W)
  toolNames : (tools.map Prod.fst).Nodup
  customNames : (customHandlers.map Prod.fst).Nodup

inductive Sender where
  | queued (queue : Nat)
  | configured
  deriving DecidableEq, Repr

-- Queues are numbered as they are created; a queue that was taken is empty.
structure State (W : Type) where
  world : W
  notificationSender : Option Sender
  queues : List (List JsonRpcNotification)
  delivered : List JsonRpcNotification

def invalidRequestResponse (id : JsonRpcId) : JsonRpcResponse where
  jsonrpc := "2.0"
  result := none
  error := some ⟨ErrorCodes.invalidRequest, "Invalid Request", none⟩
  id := id

namespace State

variable {W : Type}

def send (s : State W) (sender : Sender) (sent : List JsonRpcNotification) : State W :=
  match sender with
  | .queued queue => { s with queues := s.queues.modify queue (· ++ sent) }
  | .configured => { s with delivered := s.delivered ++ sent }

def newQueue (s : State W) : State W := { s with queues := s.queues ++ [[]] }

def setSender (s : State W) (sender : Sender) : State W :=
  { s with notificationSender := some sender }

def takeAll (s : State W) (queue : Nat) : List JsonRpcNotification × State W :=
  (s.queues.getD queue [], { s with queues := s.queues.set queue [] })

def after (s : State W) (sender : Sender) (o : Outcome W) : State W :=
  { s.send sender o.sent with world := o.world }

end State

def errorToJsonRpc : Error → JsonRpcError
  | .methodNotFound message => ⟨ErrorCodes.methodNotFound, message, none⟩
  | .invalidParams message => ⟨ErrorCodes.invalidParams, message, none⟩
  | .toolNotFound name => ⟨ErrorCodes.invalidParams, (Error.toolNotFound name).toString, none⟩
  | .internal message => ⟨ErrorCodes.internalError, message, none⟩
  | error => ⟨ErrorCodes.serverError, error.toString, none⟩

def progressToken (params : Value) : Option String :=
  ((params.get "_meta").bind (·.get "progressToken")).bind Value.asStr

def textContent (text : String) (isError : Bool) : Value :=
  .object
    [("content", .array [.object [("type", .string "text"), ("text", .string text)]]),
     ("isError", .bool isError)]

namespace Protocol

variable {W : Type}

def new (name version : String) : Protocol W where
  serverInfo := ⟨name, version⟩
  tools := []
  customHandlers := []
  toolNames := List.nodup_nil
  customNames := List.nodup_nil

theorem insert_nodup {A : Type} {entries : List (String × A)} (h : (entries.map Prod.fst).Nodup)
    (name : String) (a : A) :
    (((name, a) :: entries.filter (·.1 ≠ name)).map Prod.fst).Nodup := by
  refine List.nodup_cons.mpr ⟨fun hmem => ?_, h.sublist (List.filter_sublist.map _)⟩
  obtain ⟨entry, hentry, hname⟩ := List.mem_map.mp hmem
  have hne : entry.1 ≠ name := by simpa using (List.mem_filter.mp hentry).2
  exact hne hname

def registerTool (P : Protocol W) (handler : ToolHandler W) : Protocol W :=
  { P with
    tools := (handler.toolInfo.name, handler) ::
      P.tools.filter (·.1 ≠ handler.toolInfo.name)
    toolNames := insert_nodup P.toolNames _ handler }

def registerCustomHandler (P : Protocol W) (method : String) (handler : McpHandler W) :
    Protocol W :=
  { P with
    customHandlers := (method, handler) :: P.customHandlers.filter (·.1 ≠ method)
    customNames := insert_nodup P.customNames _ handler }

theorem lookup_filter {A : Type} {k name : String} (hk : k ≠ name) (entries : List (String × A)) :
    (entries.filter (·.1 ≠ name)).lookup k = entries.lookup k := by
  induction entries with
  | nil => rfl
  | cons entry entries ih =>
    by_cases he : entry.1 = name
    · have hne : (k == entry.1) = false := beq_eq_false_iff_ne.mpr (he ▸ hk)
      rw [List.filter_cons_of_neg (by simp [he]), ih, List.lookup_cons, hne]
    · rw [List.filter_cons_of_pos (by simp [he]), List.lookup_cons, List.lookup_cons, ih]

theorem lookup_insert {A : Type} (entries : List (String × A)) (name : String) (a : A)
    (k : String) :
    ((name, a) :: entries.filter (·.1 ≠ name)).lookup k =
      if k = name then some a else entries.lookup k := by
  split
  · next hk => rw [List.lookup_cons, beq_iff_eq.mpr hk]
  · next hk => rw [List.lookup_cons, beq_eq_false_iff_ne.mpr hk, lookup_filter hk]

theorem registerTool_lookup (P : Protocol W) (handler : ToolHandler W) (name : String) :
    (P.registerTool handler).tools.lookup name =
      if name = handler.toolInfo.name then some handler else P.tools.lookup name :=
  lookup_insert P.tools _ handler name

theorem registerCustomHandler_lookup (P : Protocol W) (method : String) (handler : McpHandler W)
    (name : String) :
    (P.registerCustomHandler method handler).customHandlers.lookup name =
      if name = method then some handler else P.customHandlers.lookup name :=
  lookup_insert P.customHandlers method handler name

def initializeResult (P : Protocol W) : Value :=
  .object
    [("protocolVersion", .string "2025-03-26"),
     ("capabilities", .object [("tools", .object [("listChanged", .bool false)])]),
     ("serverInfo",
       .object [("name", .string P.serverInfo.name), ("version", .string P.serverInfo.version)])]

def toolsListResult (P : Protocol W) : Value :=
  .object
    [("tools", .array (P.tools.map fun (_, handler) =>
      .object
        [("name", .string handler.toolInfo.name),
         ("description", .string handler.toolInfo.description),
         ("inputSchema", handler.toolInfo.inputSchema)]))]

variable (pretty : Value → String) (P : Protocol W)

def toolResult : Except Error Value → Value
  | .ok result => textContent (pretty result) false
  | .error e => textContent ("Error: " ++ e.toString) true

def handleToolsCall (params : Option Value) (requestId : JsonRpcId) (sender : Sender)
    (s : State W) : Except Error Value × State W :=
  match params with
  | none => (.error (.invalidParams "Missing parameters"), s)
  | some params =>
    match (params.get "name").bind Value.asStr with
    | none => (.error (.invalidParams "Missing tool name"), s)
    | some toolName =>
      match P.tools.lookup toolName with
      | none => (.error (.toolNotFound toolName), s)
      | some handler =>
        let o := handler.handle (params.get "arguments") ⟨progressToken params, some requestId⟩
          s.world
        (.ok (toolResult pretty o.result), s.after sender o)

def handleCustom (method : String) (params : Option Value) (requestId : JsonRpcId)
    (sender : Sender) (s : State W) : Except Error Value × State W :=
  match P.tools.lookup method with
  | some handler =>
    let o := handler.handle params ⟨params.bind progressToken, some requestId⟩ s.world
    (o.result, s.after sender o)
  | none =>
    match P.customHandlers.lookup method with
    | some handler =>
      let (result, world) := handler.handle params s.world
      (result, { s with world := world })
    | none => (.error (.methodNotFound ("Method not found: " ++ method)), s)

def handleMethod (req : JsonRpcRequest) (sender : Sender) (s : State W) :
    Except Error Value × State W :=
  match McpMethod.fromStr req.method with
  | .initializeServer => (.ok P.initializeResult, s)
  | .toolsList => (.ok P.toolsListResult, s)
  | .toolsCall => P.handleToolsCall pretty req.params req.id sender s
  | .shutdown => (.ok (.object []), s)
  | .custom method => P.handleCustom method req.params req.id sender s

def resultResponse (id : JsonRpcId) : Except Error Value → JsonRpcResponse
  | .ok result => ⟨"2.0", some result, none, id⟩
  | .error e => ⟨"2.0", none, some (errorToJsonRpc e), id⟩

def handleRequestWithSender (req : JsonRpcRequest) (sender : Sender) (s : State W) :
    JsonRpcResponse × State W :=
  if req.jsonrpc ≠ "2.0" then (invalidRequestResponse req.id, s)
  else
    let (result, s) := P.handleMethod pretty req sender s
    (resultResponse req.id result, s)

def batchResponse (responses : List JsonRpcMessage) : Option JsonRpcMessage :=
  if responses.isEmpty then none else some (.batch responses)

mutual

def handleMessage (message : JsonRpcMessage) (s : State W) :
    (Option JsonRpcMessage × List JsonRpcNotification) × State W :=
  let queue := s.queues.length
  let s := s.newQueue.setSender (.queued queue)
  let (response, s) : Option JsonRpcMessage × State W :=
    match message with
    | .request req =>
      let (response, s) := P.handleRequestWithSender pretty req (.queued queue) s
      (some (.response response), s)
    | .notification _ => (none, s)
    | .batch messages =>
      if messages.isEmpty then (some (.response (invalidRequestResponse .null)), s)
      else
        let (responses, s) := handleMessages messages s
        (batchResponse responses, s)
    | .response _ => (none, s)
  let (notifications, s) := s.takeAll queue
  ((response, notifications), s)

def handleMessages (messages : List JsonRpcMessage) (s : State W) :
    List JsonRpcMessage × State W :=
  match messages with
  | [] => ([], s)
  | message :: messages =>
    let ((response, _), s) := handleMessage message s
    let (responses, s) := handleMessages messages s
    (response.toList ++ responses, s)

end

mutual

def handleMessageRealtime (message : JsonRpcMessage) (s : State W) :
    Option JsonRpcMessage × State W :=
  match message with
  | .request req =>
    let (sender, s) := match s.notificationSender with
      | some sender => (sender, s)
      | none => (Sender.queued s.queues.length, s.newQueue)
    let (response, s) := P.handleRequestWithSender pretty req sender s
    (some (.response response), s)
  | .notification _ => (none, s)
  | .batch messages =>
    if messages.isEmpty then (some (.response (invalidRequestResponse .null)), s)
    else
      let (responses, s) := handleMessagesRealtime messages s
      (batchResponse responses, s)
  | .response _ => (none, s)

def handleMessagesRealtime (messages : List JsonRpcMessage) (s : State W) :
    List JsonRpcMessage × State W :=
  match messages with
  | [] => ([], s)
  | message :: messages =>
    let (response, s) := handleMessageRealtime message s
    let (responses, s) := handleMessagesRealtime messages s
    (response.toList ++ responses, s)

end

end Protocol

end Rpc
