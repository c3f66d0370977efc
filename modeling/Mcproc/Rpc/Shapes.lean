import Mcproc.Rpc.Decode

namespace Rpc

def IsString (v : Value) : Prop := ∃ s, v = .string s

def IsInt (low high : Int) (v : Value) : Prop := ∃ n, v.asInt = some n ∧ low ≤ n ∧ n ≤ high

def IsId (v : Value) : Prop :=
  IsString v ∨ v = .null ∨ IsInt Int64.minValue.toInt Int64.maxValue.toInt v

def One (members : List (String × Value)) (name : String) (p : Value → Prop) : Prop :=
  ∃ v, named members name = [v] ∧ p v

def AtMostOne (members : List (String × Value)) (name : String) (p : Value → Prop) : Prop :=
  named members name = [] ∨ One members name p

def IsError : Value → Prop
  | .object members =>
    One members "code" (IsInt Int32.minValue.toInt Int32.maxValue.toInt) ∧
      One members "message" IsString ∧ AtMostOne members "data" fun _ => True
  | .array [code, message, _] =>
    IsInt Int32.minValue.toInt Int32.maxValue.toInt code ∧ IsString message
  | _ => False

def IsRequest : Value → Prop
  | .object members =>
    One members "jsonrpc" IsString ∧ One members "method" IsString ∧
      (AtMostOne members "params" fun _ => True) ∧ One members "id" IsId
  | .array [jsonrpc, method, _, id] => IsString jsonrpc ∧ IsString method ∧ IsId id
  | _ => False

def IsResponse : Value → Prop
  | .object members =>
    One members "jsonrpc" IsString ∧ (AtMostOne members "result" fun _ => True) ∧
      (AtMostOne members "error" fun v => v = .null ∨ IsError v) ∧ One members "id" IsId
  | .array [jsonrpc, _, error, id] => IsString jsonrpc ∧ (error = .null ∨ IsError error) ∧ IsId id
  | _ => False

def IsNotification : Value → Prop
  | .object members =>
    One members "jsonrpc" IsString ∧ One members "method" IsString ∧
      AtMostOne members "params" fun _ => True
  | .array [jsonrpc, method, _] => IsString jsonrpc ∧ IsString method
  | _ => False

def IsSingle (v : Value) : Prop := IsRequest v ∨ IsResponse v ∨ IsNotification v

theorem asStr_isSome (v : Value) : v.asStr.isSome ↔ IsString v := by
  cases v <;> simp [Value.asStr, IsString]

theorem deserializeInt_isSome (low high : Int) (v : Value) :
    (deserializeInt low high v).isSome ↔ IsInt low high v := by
  simp only [deserializeInt, IsInt]
  cases v.asInt with
  | none => simp
  | some n => simp [Option.filter]

theorem jsonRpcId_isSome (v : Value) : (JsonRpcId.deserialize v).isSome ↔ IsId v := by
  simp only [IsId, ← deserializeInt_isSome]
  cases v <;> simp [JsonRpcId.deserialize, IsString]

section
variable {A : Type} {deserialize : Value → Option A} {p : Value → Prop}

theorem field_isSome (h : ∀ v, (deserialize v).isSome ↔ p v) (members : List (String × Value))
    (name : String) : (field deserialize members name).isSome ↔ One members name p := by
  simp only [field, One]
  split
  · next v hv => simp [hv, h]
  · next hv =>
    refine ⟨(fun hs => by cases hs), ?_⟩
    rintro ⟨v, hone, -⟩
    exact absurd hone (hv v)

theorem deserializeOption_isSome (h : ∀ v, (deserialize v).isSome ↔ p v) (v : Value) :
    (deserializeOption deserialize v).isSome ↔ v = .null ∨ p v := by
  cases v <;> simp [deserializeOption, ← h]

theorem optionField_isSome (h : ∀ v, (deserialize v).isSome ↔ p v)
    (members : List (String × Value)) (name : String) :
    (optionField deserialize members name).isSome ↔
      AtMostOne members name fun v => v = .null ∨ p v := by
  simp only [optionField, AtMostOne, One]
  split
  · next hn => simp [hn]
  · next v hv => simp [hv, deserializeOption_isSome h]
  · next hn hv =>
    refine ⟨(fun hs => by cases hs), ?_⟩
    rintro (h | ⟨v, hone, -⟩)
    · exact absurd h hn
    · exact absurd hone (hv v)

end

theorem anyOption_isSome (v : Value) : (deserializeOption some v).isSome := by
  cases v <;> rfl

theorem anyField_isSome (members : List (String × Value)) (name : String) :
    (optionField some members name).isSome ↔ AtMostOne members name fun _ => True := by
  have hany : ∀ v : Value, (some v).isSome ↔ True := fun v => by simp
  simp [optionField_isSome hany]

theorem code_isSome (v : Value) : (JsonRpcError.deserializeCode v).isSome ↔
    IsInt Int32.minValue.toInt Int32.maxValue.toInt v := deserializeInt_isSome _ _ v

theorem error_isSome (v : Value) : (JsonRpcError.deserialize v).isSome ↔ IsError v := by
  have hparts : ∀ code message data, (JsonRpcError.ofParts code message data).isSome ↔
      code.isSome ∧ message.isSome ∧ data.isSome := by
    intro code message data
    cases code <;> cases message <;> cases data <;> simp [JsonRpcError.ofParts]
  simp only [JsonRpcError.deserialize]
  split
  · simp only [hparts, field_isSome code_isSome, field_isSome asStr_isSome, anyField_isSome, IsError]
  · simp only [hparts, code_isSome, asStr_isSome, anyOption_isSome, and_true, IsError]
  · next hobject harray =>
    rw [IsError.eq_3 v hobject harray]
    simp

theorem request_isSome (v : Value) : (JsonRpcRequest.deserialize v).isSome ↔ IsRequest v := by
  have hparts : ∀ jsonrpc method params id,
      (JsonRpcRequest.ofParts jsonrpc method params id).isSome ↔
        jsonrpc.isSome ∧ method.isSome ∧ params.isSome ∧ id.isSome := by
    intro jsonrpc method params id
    cases jsonrpc <;> cases method <;> cases params <;> cases id <;>
      simp [JsonRpcRequest.ofParts]
  simp only [JsonRpcRequest.deserialize]
  split
  · simp only [hparts, field_isSome asStr_isSome, field_isSome jsonRpcId_isSome, anyField_isSome,
      IsRequest]
  · simp only [hparts, asStr_isSome, jsonRpcId_isSome, anyOption_isSome, true_and, IsRequest]
  · next hobject harray =>
    rw [IsRequest.eq_3 v hobject harray]
    simp

theorem response_isSome (v : Value) : (JsonRpcResponse.deserialize v).isSome ↔ IsResponse v := by
  have hparts : ∀ jsonrpc result error id,
      (JsonRpcResponse.ofParts jsonrpc result error id).isSome ↔
        jsonrpc.isSome ∧ result.isSome ∧ error.isSome ∧ id.isSome := by
    intro jsonrpc result error id
    cases jsonrpc <;> cases result <;> cases error <;> cases id <;>
      simp [JsonRpcResponse.ofParts]
  simp only [JsonRpcResponse.deserialize]
  split
  · simp only [hparts, field_isSome asStr_isSome, field_isSome jsonRpcId_isSome, anyField_isSome,
      optionField_isSome error_isSome, IsResponse]
  · simp only [hparts, asStr_isSome, jsonRpcId_isSome, anyOption_isSome,
      deserializeOption_isSome error_isSome, true_and, IsResponse]
  · next hobject harray =>
    rw [IsResponse.eq_3 v hobject harray]
    simp

theorem notification_isSome (v : Value) :
    (JsonRpcNotification.deserialize v).isSome ↔ IsNotification v := by
  have hparts : ∀ jsonrpc method params,
      (JsonRpcNotification.ofParts jsonrpc method params).isSome ↔
        jsonrpc.isSome ∧ method.isSome ∧ params.isSome := by
    intro jsonrpc method params
    cases jsonrpc <;> cases method <;> cases params <;> simp [JsonRpcNotification.ofParts]
  simp only [JsonRpcNotification.deserialize]
  split
  · simp only [hparts, field_isSome asStr_isSome, anyField_isSome, IsNotification]
  · simp only [hparts, asStr_isSome, anyOption_isSome, and_true, IsNotification]
  · next hobject harray =>
    rw [IsNotification.eq_3 v hobject harray]
    simp

theorem single_isSome (v : Value) :
    (JsonRpcMessage.deserializeSingle v).isSome ↔ IsSingle v := by
  simp only [JsonRpcMessage.deserializeSingle, Option.isSome_or, Option.isSome_map, Bool.or_eq_true,
    request_isSome, response_isSome, notification_isSome, IsSingle]

mutual

def Readable : Value → Prop
  | .array elements => IsSingle (.array elements) ∨ ReadableAll elements
  | v => IsSingle v

def ReadableAll : List Value → Prop
  | [] => True
  | v :: vs => Readable v ∧ ReadableAll vs

end

mutual

theorem deserialize_isSome (v : Value) : (JsonRpcMessage.deserialize v).isSome ↔ Readable v := by
  cases v with
  | array elements =>
    simp only [JsonRpcMessage.deserialize, Readable, Option.isSome_or, Option.isSome_map,
      Bool.or_eq_true, single_isSome, deserializeAll_isSome elements]
  | null | bool | number | string | object =>
    simp only [JsonRpcMessage.deserialize, Readable, single_isSome]

theorem deserializeAll_isSome (vs : List Value) :
    (JsonRpcMessage.deserializeAll vs).isSome ↔ ReadableAll vs := by
  cases vs with
  | nil => simp [JsonRpcMessage.deserializeAll, ReadableAll]
  | cons v vs =>
    rw [ReadableAll, ← deserialize_isSome v, ← deserializeAll_isSome vs,
      JsonRpcMessage.deserializeAll]
    cases JsonRpcMessage.deserialize v <;> cases JsonRpcMessage.deserializeAll vs <;> simp

end

theorem deserializeAll_get {es : List Value} {ms : List JsonRpcMessage}
    (h : JsonRpcMessage.deserializeAll es = some ms) {i : Nat} {e : Value} (he : es[i]? = some e) :
    ∃ m, ms[i]? = some m ∧ JsonRpcMessage.deserialize e = some m := by
  induction es generalizing ms i with
  | nil => cases he
  | cons v vs ih =>
    simp only [JsonRpcMessage.deserializeAll] at h
    split at h
    · next m ms' hm hms =>
      cases h
      cases i with
      | zero =>
        cases he
        exact ⟨m, rfl, hm⟩
      | succ i => exact ih hms he
    · cases h

end Rpc
