import Mcproc.Rpc.Types

namespace Rpc

-- serde_json refuses a text nested this deep.
def recursionLimit : Nat := 128

namespace Value

mutual

def depth : Value → Nat
  | .array elements => depthAll elements + 1
  | .object members => depthMembers members + 1
  | _ => 0

def depthAll : List Value → Nat
  | [] => 0
  | v :: vs => max v.depth (depthAll vs)

def depthMembers : List (String × Value) → Nat
  | [] => 0
  | (_, v) :: members => max v.depth (depthMembers members)

end

-- A number with a fraction or an exponent, or too large for 64 bits, is not an integer.
def asInt : Value → Option Int
  | .number (.posInt n) => some n.toNat
  | .number (.negInt n) => some n.toInt
  | _ => none

end Value

-- The rules of derived deserialization: a known member comes at most once, unknown ones are
-- skipped, a missing or null Option is None, and a struct may also come as an array of all its
-- members.
def named (members : List (String × Value)) (name : String) : List Value :=
  (members.filter (·.1 = name)).map Prod.snd

section
variable {A : Type}

def deserializeOption (deserialize : Value → Option A) : Value → Option (Option A)
  | .null => some none
  | v => (deserialize v).map some

def field (deserialize : Value → Option A) (members : List (String × Value)) (name : String) :
    Option A :=
  match named members name with
  | [v] => deserialize v
  | _ => none

def optionField (deserialize : Value → Option A) (members : List (String × Value))
    (name : String) : Option (Option A) :=
  match named members name with
  | [] => some none
  | [v] => deserializeOption deserialize v
  | _ => none

end

def deserializeInt (low high : Int) (v : Value) : Option Int :=
  v.asInt.filter fun n => low ≤ n ∧ n ≤ high

def JsonRpcId.deserialize : Value → Option JsonRpcId
  | .string s => some (.string s)
  | .null => some .null
  | v => (deserializeInt Int64.minValue.toInt Int64.maxValue.toInt v).map
      fun n => .number (Int64.ofInt n)

namespace JsonRpcError

def ofParts (code : Option Int) (message : Option String) (data : Option (Option Value)) :
    Option JsonRpcError := do
  return ⟨Int32.ofInt (← code), ← message, ← data⟩

def deserializeCode : Value → Option Int :=
  deserializeInt Int32.minValue.toInt Int32.maxValue.toInt

def deserialize : Value → Option JsonRpcError
  | .object members =>
    ofParts (field deserializeCode members "code") (field Value.asStr members "message")
      (optionField some members "data")
  | .array [code, message, data] =>
    ofParts (deserializeCode code) message.asStr (deserializeOption some data)
  | _ => none

end JsonRpcError

namespace JsonRpcRequest

def ofParts (jsonrpc method : Option String) (params : Option (Option Value))
    (id : Option JsonRpcId) : Option JsonRpcRequest := do
  return ⟨← jsonrpc, ← method, ← params, ← id⟩

def deserialize : Value → Option JsonRpcRequest
  | .object members =>
    ofParts (field Value.asStr members "jsonrpc") (field Value.asStr members "method")
      (optionField some members "params") (field JsonRpcId.deserialize members "id")
  | .array [jsonrpc, method, params, id] =>
    ofParts jsonrpc.asStr method.asStr (deserializeOption some params) (JsonRpcId.deserialize id)
  | _ => none

end JsonRpcRequest

namespace JsonRpcNotification

def ofParts (jsonrpc method : Option String) (params : Option (Option Value)) :
    Option JsonRpcNotification := do
  return ⟨← jsonrpc, ← method, ← params⟩

def deserialize : Value → Option JsonRpcNotification
  | .object members =>
    ofParts (field Value.asStr members "jsonrpc") (field Value.asStr members "method")
      (optionField some members "params")
  | .array [jsonrpc, method, params] =>
    ofParts jsonrpc.asStr method.asStr (deserializeOption some params)
  | _ => none

end JsonRpcNotification

namespace JsonRpcResponse

def ofParts (jsonrpc : Option String) (result : Option (Option Value))
    (error : Option (Option JsonRpcError)) (id : Option JsonRpcId) : Option JsonRpcResponse := do
  return ⟨← jsonrpc, ← result, ← error, ← id⟩

def deserialize : Value → Option JsonRpcResponse
  | .object members =>
    ofParts (field Value.asStr members "jsonrpc") (optionField some members "result")
      (optionField JsonRpcError.deserialize members "error")
      (field JsonRpcId.deserialize members "id")
  | .array [jsonrpc, result, error, id] =>
    ofParts jsonrpc.asStr (deserializeOption some result)
      (deserializeOption JsonRpcError.deserialize error) (JsonRpcId.deserialize id)
  | _ => none

end JsonRpcResponse

namespace JsonRpcMessage

-- The untagged variants are tried in declaration order; only a batch contains messages.
def deserializeSingle (v : Value) : Option JsonRpcMessage :=
  ((JsonRpcRequest.deserialize v).map .request).or
    (((JsonRpcResponse.deserialize v).map .response).or
      ((JsonRpcNotification.deserialize v).map .notification))

mutual

def deserialize : Value → Option JsonRpcMessage
  | .array elements =>
    (deserializeSingle (.array elements)).or ((deserializeAll elements).map .batch)
  | v => deserializeSingle v

def deserializeAll : List Value → Option (List JsonRpcMessage)
  | [] => some []
  | v :: vs =>
    match deserialize v, deserializeAll vs with
    | some message, some messages => some (message :: messages)
    | _, _ => none

end

end JsonRpcMessage

def parseErrorResponse : JsonRpcResponse where
  jsonrpc := "2.0"
  result := none
  error := some ⟨ErrorCodes.parseError, "Parse error", none⟩
  id := .null

def parseLine (fromStr : String → Option JsonRpcMessage) (line : String) :
    Except JsonRpcMessage JsonRpcMessage :=
  match fromStr line with
  | some message => .ok message
  | none => .error (.response parseErrorResponse)

variable (read : String → Option Value)

-- serde_json as far as it reads plain values: every one, however deep.
def fromPlainStr (line : String) : Option JsonRpcMessage :=
  (read line).bind JsonRpcMessage.deserialize

def fromStr (line : String) : Option JsonRpcMessage :=
  (read line).bind fun v =>
    if v.depth < recursionLimit then JsonRpcMessage.deserialize v else none

def parseInputLine (line : String) : Except JsonRpcMessage JsonRpcMessage :=
  parseLine (fromStr read) line

end Rpc
