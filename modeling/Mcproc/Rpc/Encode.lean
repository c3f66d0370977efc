import Mcproc.Rpc.Shapes

namespace Rpc

-- The rules of derived serialization: members in declaration order, an absent Option skipped.
def Value.ofInt64 (n : Int64) : Value :=
  if 0 ≤ n then .number (.posInt n.toUInt64) else .number (.negInt n)

def optionMember (name : String) (v : Option Value) : List (String × Value) :=
  v.toList.map (name, ·)

def JsonRpcId.serialize : JsonRpcId → Value
  | .string s => .string s
  | .number n => .ofInt64 n
  | .null => .null

def JsonRpcError.serialize (e : JsonRpcError) : Value :=
  .object ([("code", .ofInt64 e.code.toInt64), ("message", .string e.message)] ++
    optionMember "data" e.data)

def JsonRpcRequest.serialize (r : JsonRpcRequest) : Value :=
  .object ([("jsonrpc", .string r.jsonrpc), ("method", .string r.method)] ++
    optionMember "params" r.params ++ [("id", r.id.serialize)])

def JsonRpcNotification.serialize (n : JsonRpcNotification) : Value :=
  .object ([("jsonrpc", .string n.jsonrpc), ("method", .string n.method)] ++
    optionMember "params" n.params)

def JsonRpcResponse.serialize (r : JsonRpcResponse) : Value :=
  .object ([("jsonrpc", .string r.jsonrpc)] ++ optionMember "result" r.result ++
    optionMember "error" (r.error.map JsonRpcError.serialize) ++ [("id", r.id.serialize)])

namespace JsonRpcMessage

mutual

def serialize : JsonRpcMessage → Value
  | .request r => r.serialize
  | .response r => r.serialize
  | .notification n => n.serialize
  | .batch messages => .array (serializeAll messages)

def serializeAll : List JsonRpcMessage → List Value
  | [] => []
  | message :: messages => serialize message :: serializeAll messages

end

end JsonRpcMessage

-- The message with every null member absent, which is how the text reads.
def dropNull : Option Value → Option Value
  | some .null => none
  | v => v

def JsonRpcError.dropNulls (e : JsonRpcError) : JsonRpcError := { e with data := dropNull e.data }

namespace JsonRpcMessage

mutual

def dropNulls : JsonRpcMessage → JsonRpcMessage
  | .request r => .request { r with params := dropNull r.params }
  | .response r =>
    .response { r with result := dropNull r.result, error := r.error.map JsonRpcError.dropNulls }
  | .notification n => .notification { n with params := dropNull n.params }
  | .batch messages => .batch (dropNullsAll messages)

def dropNullsAll : List JsonRpcMessage → List JsonRpcMessage
  | [] => []
  | message :: messages => dropNulls message :: dropNullsAll messages

end

end JsonRpcMessage

theorem asInt_ofInt64 (n : Int64) : (Value.ofInt64 n).asInt = some n.toInt := by
  rw [Value.ofInt64]
  split
  · next h =>
    have hle : 0 ≤ n.toInt := Int64.le_iff_toInt_le.mp h
    rw [Value.asInt, Int64.toNat_toUInt64_of_le h, Int64.toNatClampNeg, Int.toNat_of_nonneg hle]
  · rfl

theorem deserializeInt_ofInt64 {low high : Int} {n : Int64} (hlow : low ≤ n.toInt)
    (hhigh : n.toInt ≤ high) : deserializeInt low high (.ofInt64 n) = some n.toInt := by
  rw [deserializeInt, asInt_ofInt64]
  simp [Option.filter, hlow, hhigh]

theorem ofInt64_number (n : Int64) : ∃ k, Value.ofInt64 n = .number k := by
  rw [Value.ofInt64]
  split
  · exact ⟨_, rfl⟩
  · exact ⟨_, rfl⟩

theorem deserialize_id (id : JsonRpcId) : JsonRpcId.deserialize id.serialize = some id := by
  cases id with
  | string s => rfl
  | null => rfl
  | number n =>
    have hint := deserializeInt_ofInt64 n.minValue_le_toInt n.toInt_le
    obtain ⟨k, hk⟩ := ofInt64_number n
    rw [JsonRpcId.serialize, hk, JsonRpcId.deserialize.eq_3 _ (by simp) (by simp), ← hk, hint]
    simp

theorem deserialize_code (code : Int32) :
    JsonRpcError.deserializeCode (.ofInt64 code.toInt64) = some code.toInt := by
  have hlow : Int32.minValue.toInt ≤ code.toInt64.toInt := by
    rw [Int32.toInt_toInt64]
    exact code.minValue_le_toInt
  have hhigh : code.toInt64.toInt ≤ Int32.maxValue.toInt := by
    rw [Int32.toInt_toInt64]
    exact code.toInt_le
  rw [JsonRpcError.deserializeCode, deserializeInt_ofInt64 hlow hhigh, Int32.toInt_toInt64]

@[simp] theorem named_append (members members' : List (String × Value)) (name : String) :
    named (members ++ members') name = named members name ++ named members' name := by
  simp [named]

@[simp] theorem named_cons (member : String × Value) (members : List (String × Value)) (name : String) :
    named (member :: members) name =
      if member.1 = name then member.2 :: named members name else named members name := by
  by_cases h : member.1 = name <;> simp [named, h]

@[simp] theorem named_nil (name : String) : named [] name = [] := rfl

@[simp] theorem named_optionMember (name name' : String) (v : Option Value) :
    named (optionMember name v) name' = if name = name' then v.toList else [] := by
  cases v with
  | none => simp [optionMember, named]
  | some v =>
    simp only [optionMember, Option.toList_some, List.map_cons, List.map_nil, named_cons, named_nil]

theorem deserializeOption_some (v : Value) :
    deserializeOption some v = some (dropNull (some v)) := by
  cases v <;> rfl

section
variable {A : Type} {deserialize : Value → Option A} {members : List (String × Value)}
  {name : String}

theorem field_of_named {v : Value} (h : named members name = [v]) :
    field deserialize members name = deserialize v := by
  simp only [field, h]

theorem field_missing (missing : String) (h : named members missing = []) :
    field deserialize members missing = none := by
  simp only [field, h]

end

theorem optionField_some {members : List (String × Value)} {name : String} {v : Option Value}
    (h : named members name = v.toList) : optionField some members name = some (dropNull v) := by
  cases v with
  | none => simp only [optionField, h, Option.toList_none]; rfl
  | some v => simp only [optionField, h, Option.toList_some, deserializeOption_some]

theorem deserialize_error (e : JsonRpcError) :
    JsonRpcError.deserialize e.serialize = some e.dropNulls := by
  simp only [JsonRpcError.serialize, JsonRpcError.deserialize]
  rw [field_of_named (v := .ofInt64 e.code.toInt64) (by simp),
    field_of_named (v := .string e.message) (by simp), optionField_some (v := e.data) (by simp),
    deserialize_code]
  simp [JsonRpcError.ofParts, Value.asStr, JsonRpcError.dropNulls]

theorem optionField_error {members : List (String × Value)} {name : String}
    {e : Option JsonRpcError} (h : named members name = (e.map JsonRpcError.serialize).toList) :
    optionField JsonRpcError.deserialize members name = some (e.map JsonRpcError.dropNulls) := by
  cases e with
  | none => simp only [optionField, h, Option.map_none, Option.toList_none]
  | some e =>
    simp only [optionField, h, Option.map_some, Option.toList_some]
    exact congrArg (Option.map some) (deserialize_error e)

theorem deserialize_request (r : JsonRpcRequest) :
    JsonRpcRequest.deserialize r.serialize = some { r with params := dropNull r.params } := by
  simp only [JsonRpcRequest.serialize, JsonRpcRequest.deserialize]
  rw [field_of_named (v := .string r.jsonrpc) (by simp),
    field_of_named (v := .string r.method) (by simp),
    optionField_some (v := r.params) (by simp),
    field_of_named (v := r.id.serialize) (by simp), deserialize_id]
  rfl

theorem deserialize_notification (n : JsonRpcNotification) :
    JsonRpcNotification.deserialize n.serialize = some { n with params := dropNull n.params } := by
  simp only [JsonRpcNotification.serialize, JsonRpcNotification.deserialize]
  rw [field_of_named (v := .string n.jsonrpc) (by simp),
    field_of_named (v := .string n.method) (by simp),
    optionField_some (v := n.params) (by simp)]
  rfl

theorem deserialize_response (r : JsonRpcResponse) :
    JsonRpcResponse.deserialize r.serialize =
      some { r with result := dropNull r.result, error := r.error.map JsonRpcError.dropNulls } := by
  simp only [JsonRpcResponse.serialize, JsonRpcResponse.deserialize]
  rw [field_of_named (v := .string r.jsonrpc) (by simp),
    optionField_some (v := r.result) (by simp),
    optionField_error (e := r.error) (by simp),
    field_of_named (v := r.id.serialize) (by simp), deserialize_id]
  rfl

theorem request_rejects_response (r : JsonRpcResponse) :
    JsonRpcRequest.deserialize r.serialize = none := by
  simp only [JsonRpcResponse.serialize, JsonRpcRequest.deserialize]
  rw [field_missing "method" (by simp)]
  cases field Value.asStr _ "jsonrpc" <;> rfl

theorem request_rejects_notification (n : JsonRpcNotification) :
    JsonRpcRequest.deserialize n.serialize = none := by
  simp only [JsonRpcNotification.serialize, JsonRpcRequest.deserialize]
  rw [field_missing "id" (by simp)]
  simp [JsonRpcRequest.ofParts]

theorem response_rejects_notification (n : JsonRpcNotification) :
    JsonRpcResponse.deserialize n.serialize = none := by
  simp only [JsonRpcNotification.serialize, JsonRpcResponse.deserialize]
  rw [field_missing "id" (by simp)]
  simp [JsonRpcResponse.ofParts]

namespace JsonRpcMessage

theorem serialize_not_string (m : JsonRpcMessage) : ¬ IsString m.serialize := by
  rintro ⟨s, hs⟩
  cases m <;> cases hs

-- By position every struct begins with a string, a batch never does.
theorem isSingle_array_head {v : Value} {vs : List Value} (h : IsSingle (.array (v :: vs))) :
    IsString v := by
  rcases h with h | h | h
  · simp only [IsRequest] at h
    split at h
    · next heq => cases heq
    · next heq => cases heq; exact h.1
    · exact h.elim
  · simp only [IsResponse] at h
    split at h
    · next heq => cases heq
    · next heq => cases heq; exact h.1
    · exact h.elim
  · simp only [IsNotification] at h
    split at h
    · next heq => cases heq
    · next heq => cases heq; exact h.1
    · exact h.elim

theorem batch_not_single (ms : List JsonRpcMessage) :
    deserializeSingle (.array (serializeAll ms)) = none := by
  refine Option.not_isSome_iff_eq_none.mp fun h => ?_
  rw [single_isSome] at h
  cases ms with
  | nil => rcases h with h | h | h <;> exact h
  | cons m ms => exact m.serialize_not_string (isSingle_array_head h)

mutual

theorem deserialize_serialize (m : JsonRpcMessage) : deserialize m.serialize = some m.dropNulls := by
  cases m with
  | request r =>
    have hs : deserializeSingle r.serialize = some (dropNulls (.request r)) := by
      simp [deserializeSingle, deserialize_request, dropNulls]
    exact hs
  | response r =>
    have hs : deserializeSingle r.serialize = some (dropNulls (.response r)) := by
      simp [deserializeSingle, request_rejects_response, deserialize_response, dropNulls]
    exact hs
  | notification n =>
    have hs : deserializeSingle n.serialize = some (dropNulls (.notification n)) := by
      simp [deserializeSingle, request_rejects_notification, response_rejects_notification,
        deserialize_notification, dropNulls]
    exact hs
  | batch ms =>
    simp only [serialize, deserialize, batch_not_single, deserializeAll_serializeAll ms, dropNulls]
    rfl

theorem deserializeAll_serializeAll (ms : List JsonRpcMessage) :
    deserializeAll (serializeAll ms) = some (dropNullsAll ms) := by
  cases ms with
  | nil => rfl
  | cons m ms =>
    simp only [serializeAll, deserializeAll, deserialize_serialize m,
      deserializeAll_serializeAll ms, dropNullsAll]

end

end JsonRpcMessage

section
variable {read : String → Option Value} {line : String} {m : JsonRpcMessage}

theorem parse_shallow (hread : read line = some m.serialize)
    (hd : m.serialize.depth < recursionLimit) : parseInputLine read line = .ok m.dropNulls := by
  simp [parseInputLine, parseLine, fromStr, hread, hd, JsonRpcMessage.deserialize_serialize m]

theorem parse_deep (hread : read line = some m.serialize)
    (hd : recursionLimit ≤ m.serialize.depth) :
    parseInputLine read line = .error (.response parseErrorResponse) := by
  simp [parseInputLine, parseLine, fromStr, hread, Nat.not_lt.mpr hd]

-- The line is any text that reads as the encoding of the message.
theorem parse_plain (hread : read line = some m.serialize) :
    parseLine (fromPlainStr read) line = .ok m.dropNulls := by
  simp [parseLine, fromPlainStr, hread, JsonRpcMessage.deserialize_serialize m]

theorem parse_serialize (hread : read line = some m.serialize) :
    JsonRpcMessage.deserialize m.serialize = some m.dropNulls ∧
      parseInputLine read line =
        if m.serialize.depth < recursionLimit then .ok m.dropNulls
        else .error (.response parseErrorResponse) := by
  refine ⟨m.deserialize_serialize, ?_⟩
  split
  · next hd => exact parse_shallow hread hd
  · next hd => exact parse_deep hread (Nat.le_of_not_lt hd)

end

def nestedBatch : Nat → JsonRpcMessage
  | 0 => .batch []
  | n + 1 => .batch [nestedBatch n]

def nestedLine (n : Nat) : String :=
  String.ofList (List.replicate (n + 1) '[' ++ List.replicate (n + 1) ']')

def readNested (n : Nat) (line : String) : Option Value :=
  if line = nestedLine n then some (nestedBatch n).serialize else none

theorem nestedBatch_depth (n : Nat) : (nestedBatch n).serialize.depth = n + 1 := by
  induction n with
  | zero => rfl
  | succ n ih =>
    simp only [nestedBatch, JsonRpcMessage.serialize, JsonRpcMessage.serializeAll, Value.depth,
      Value.depthAll, ih, Nat.max_zero]

theorem parse_plain_nested :
    parseLine (fromPlainStr (readNested 200)) (nestedLine 200) = .ok (nestedBatch 200).dropNulls :=
  parse_plain (if_pos rfl)

theorem deep_batch_refused :
    ¬ ∀ (read : String → Option Value) (line : String) (m : JsonRpcMessage),
      read line = some m.serialize → parseInputLine read line = .ok m.dropNulls := by
  intro hall
  have hread : readNested 127 (nestedLine 127) = some (nestedBatch 127).serialize := if_pos rfl
  have hdeep : recursionLimit ≤ (nestedBatch 127).serialize.depth :=
    Nat.le_of_eq (nestedBatch_depth 127).symm
  have herror := parse_deep hread hdeep
  rw [hall _ _ _ hread] at herror
  cases herror

end Rpc
