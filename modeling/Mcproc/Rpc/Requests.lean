import Mathlib.Data.List.Nodup
import Mcproc.Rpc.Answers
import Mcproc.Rpc.Shapes

namespace Rpc

-- Where in a message the messages stand that get an answer: requests and empty batches.
mutual

def places : JsonRpcMessage → List (List Nat)
  | .request _ => [[]]
  | .response _ => []
  | .notification _ => []
  | .batch messages => if messages.isEmpty then [[]] else placesAll 0 messages

def placesAll (i : Nat) : List JsonRpcMessage → List (List Nat)
  | [] => []
  | message :: messages => (places message).map (i :: ·) ++ placesAll (i + 1) messages

end

mutual

theorem places_length (message : JsonRpcMessage) :
    (places message).length = (due message).length := by
  cases message with
  | request | response | notification => rfl
  | batch messages =>
    simp only [places, due]
    split
    · rfl
    · exact placesAll_length 0 messages

theorem placesAll_length (i : Nat) (messages : List JsonRpcMessage) :
    (placesAll i messages).length = (dueAll messages).length := by
  cases messages with
  | nil => rfl
  | cons message messages =>
    simp only [placesAll, dueAll, List.length_append, List.length_map, places_length message,
      placesAll_length (i + 1) messages]

end

theorem mem_placesAll {i : Nat} {messages : List JsonRpcMessage} {path : List Nat} :
    path ∈ placesAll i messages ↔
      ∃ k m p, path = (i + k) :: p ∧ messages[k]? = some m ∧ p ∈ places m := by
  induction messages generalizing i with
  | nil => simp [placesAll]
  | cons message messages ih =>
    simp only [placesAll, List.mem_append, List.mem_map, ih]
    constructor
    · rintro (⟨p, hp, rfl⟩ | ⟨k, m, p, rfl, hm, hp⟩)
      · exact ⟨0, message, p, rfl, rfl, hp⟩
      · exact ⟨k + 1, m, p, by rw [Nat.add_right_comm, Nat.add_assoc], hm, hp⟩
    · rintro ⟨k, m, p, rfl, hm, hp⟩
      cases k with
      | zero =>
        cases hm
        exact Or.inl ⟨p, hp, rfl⟩
      | succ k => exact Or.inr ⟨k, m, p, by rw [Nat.add_right_comm, Nat.add_assoc], hm, hp⟩

theorem cons_mem_places {messages : List JsonRpcMessage} {k : Nat} {path : List Nat} :
    k :: path ∈ places (.batch messages) ↔ ∃ m, messages[k]? = some m ∧ path ∈ places m := by
  simp only [places]
  split
  · next he =>
    obtain rfl := List.isEmpty_iff.mp he
    simp
  · rw [mem_placesAll]
    constructor
    · rintro ⟨j, m, p, hpath, hm, hp⟩
      obtain ⟨rfl, rfl⟩ := List.cons.inj hpath
      exact ⟨m, by rwa [Nat.zero_add], hp⟩
    · rintro ⟨m, hm, hp⟩
      exact ⟨k, m, path, by rw [Nat.zero_add], hm, hp⟩

mutual

theorem places_nodup (message : JsonRpcMessage) : (places message).Nodup := by
  cases message with
  | request => exact List.nodup_singleton []
  | response | notification => exact List.nodup_nil
  | batch messages =>
    simp only [places]
    split
    · exact List.nodup_singleton []
    · exact placesAll_nodup 0 messages

theorem placesAll_nodup (i : Nat) (messages : List JsonRpcMessage) :
    (placesAll i messages).Nodup := by
  cases messages with
  | nil => exact List.nodup_nil
  | cons message messages =>
    refine List.nodup_append'.mpr ⟨?_, placesAll_nodup (i + 1) messages, fun path hpath hrest => ?_⟩
    · exact (places_nodup message).map fun p q hpq => (List.cons.inj hpq).2
    · obtain ⟨p, -, rfl⟩ := List.mem_map.mp hpath
      obtain ⟨k, m, q, hq, -⟩ := mem_placesAll.mp hrest
      have hhead := (List.cons.inj hq).1
      omega

end

def RequestObject (members : List (String × Value)) : Prop :=
  (∃ v ∈ named members "jsonrpc", IsString v) ∧ (∃ v ∈ named members "method", IsString v) ∧
    named members "id" ≠ []

def RequestAt : List Nat → Value → Prop
  | [], .object members => RequestObject members
  | i :: path, .array elements => ∃ e, elements[i]? = some e ∧ RequestAt path e
  | _, _ => False

-- The value at the path is a well-formed request, and no array on the way is read as a struct.
def Kept : List Nat → Value → Prop
  | [], v => IsRequest v
  | i :: path, .array elements =>
    ¬ IsSingle (.array elements) ∧ ∃ e, elements[i]? = some e ∧ Kept path e
  | _, _ => False

theorem single_places {v : Value} {m : JsonRpcMessage}
    (h : JsonRpcMessage.deserializeSingle v = some m) :
    ([] ∈ places m ↔ IsRequest v) ∧ ∀ i path, i :: path ∉ places m := by
  rw [← request_isSome]
  simp only [JsonRpcMessage.deserializeSingle] at h
  cases hr : JsonRpcRequest.deserialize v with
  | some r =>
    rw [hr] at h
    cases h
    simp [places]
  | none =>
    have hnone : places m = [] := by
      rw [hr] at h
      cases hs : JsonRpcResponse.deserialize v with
      | some r =>
        rw [hs] at h
        cases h
        rfl
      | none =>
        rw [hs] at h
        obtain ⟨n, -, rfl⟩ := Option.map_eq_some_iff.mp h
        rfl
    simp [hnone]

theorem mem_places_iff {path : List Nat} {v : Value} {m : JsonRpcMessage}
    (h : JsonRpcMessage.deserialize v = some m) (hat : RequestAt path v) :
    path ∈ places m ↔ Kept path v := by
  induction path generalizing v m with
  | nil =>
    cases v with
    | object members => exact (single_places h).1
    | _ => exact hat.elim
  | cons i path ih =>
    cases v with
    | array elements =>
      obtain ⟨e, he, hat⟩ := hat
      simp only [JsonRpcMessage.deserialize] at h
      simp only [Kept, he, Option.some.injEq, exists_eq_left', ← single_isSome]
      cases hs : JsonRpcMessage.deserializeSingle (.array elements) with
      | some m' =>
        rw [hs] at h
        cases h
        exact ⟨fun hmem => absurd hmem ((single_places hs).2 i path), fun hk => absurd rfl hk.1⟩
      | none =>
        rw [hs] at h
        obtain ⟨ms, hms, rfl⟩ := Option.map_eq_some_iff.mp h
        obtain ⟨m', hget, hm'⟩ := deserializeAll_get hms he
        rw [cons_mem_places, ← ih hm' hat]
        simp [hget]
    | _ => exact hat.elim

section
variable {W : Type} (pretty : Value → String) (P : Protocol W) (read : String → Option Value)

-- The transport writes the parse error itself, everything else the server answers.
def reply (line : String) (s : State W) : Option JsonRpcMessage :=
  match parseInputLine read line with
  | .ok message => (P.handleMessageRealtime pretty message s).1
  | .error response => some response

def answeredPlaces (line : String) : List (List Nat) :=
  match parseInputLine read line with
  | .ok message => places message
  | .error _ => [[]]

-- The answers come in the order of the messages they answer.
def responsesAt (line : String) (s : State W) (path : List Nat) : List JsonRpcResponse :=
  (((answeredPlaces read line).zip (answers (reply pretty P read line s))).filter
    (·.1 = path)).map Prod.snd

def EachAnswered (line : String) (v : Value) (s : State W) : Prop :=
  ∀ path, RequestAt path v → (responsesAt pretty P read line s path).length = 1

end

def Accepted (v : Value) : Prop := v.depth < recursionLimit ∧ Readable v

def Recognised (v : Value) : Prop :=
  (Accepted v → ∀ path, RequestAt path v → Kept path v) ∧
    (¬ Accepted v → ∀ path, RequestAt path v → path = [])

theorem filter_zip_length {A B : Type} [DecidableEq A] {as : List A} {bs : List B} (hn : as.Nodup)
    (hl : as.length = bs.length) (a : A) :
    ((as.zip bs).filter (·.1 = a)).length = if a ∈ as then 1 else 0 := by
  have hcount : ((as.zip bs).filter (·.1 = a)).length = as.count a := by
    rw [← List.countP_eq_length_filter, List.count_eq_countP]
    conv_rhs => rw [← List.map_fst_zip (Nat.le_of_eq hl)]
    rw [List.countP_map]
    rfl
  rw [hcount]
  exact hn.count

section
variable {W : Type} (pretty : Value → String) (P : Protocol W) (read : String → Option Value)

theorem answers_length (line : String) (s : State W) :
    (answeredPlaces read line).length = (answers (reply pretty P read line s)).length := by
  simp only [answeredPlaces, reply]
  split
  · next message _ =>
    rw [places_length]
    exact (P.tree_answered pretty message s).1.length_eq
  · next response herror =>
    simp only [parseInputLine, parseLine] at herror
    split at herror
    · cases herror
    · cases herror
      rfl

theorem answeredPlaces_nodup (line : String) : (answeredPlaces read line).Nodup := by
  simp only [answeredPlaces]
  split
  · exact places_nodup _
  · exact List.nodup_singleton []

theorem eachAnswered_iff (line : String) (v : Value) (s : State W) :
    EachAnswered pretty P read line v s ↔
      ∀ path, RequestAt path v → path ∈ answeredPlaces read line := by
  refine forall_congr' fun path => imp_congr_right fun _ => ?_
  rw [responsesAt, List.length_map,
    filter_zip_length (answeredPlaces_nodup read line) (answers_length pretty P read line s)]
  split <;> simp [*]

theorem parseInputLine_of_accepted {line : String} {v : Value} (hread : read line = some v)
    (ha : Accepted v) :
    ∃ m, JsonRpcMessage.deserialize v = some m ∧ parseInputLine read line = .ok m := by
  obtain ⟨m, hm⟩ := Option.isSome_iff_exists.mp ((deserialize_isSome v).mpr ha.2)
  exact ⟨m, hm, by simp [parseInputLine, parseLine, fromStr, hread, ha.1, hm]⟩

theorem parseInputLine_of_not_accepted {line : String} {v : Value} (hread : read line = some v)
    (ha : ¬ Accepted v) : parseInputLine read line = .error (.response parseErrorResponse) := by
  have hnone : fromStr read line = none := by
    simp only [fromStr, hread, Option.bind_some]
    split
    · next hd =>
      refine Option.not_isSome_iff_eq_none.mp fun hs => ?_
      exact ha ⟨hd, (deserialize_isSome v).mp hs⟩
    · rfl
  simp [parseInputLine, parseLine, hnone]

theorem requests_answered_iff {line : String} {v : Value} (hread : read line = some v)
    (s : State W) : EachAnswered pretty P read line v s ↔ Recognised v := by
  rw [eachAnswered_iff]
  by_cases ha : Accepted v
  · obtain ⟨m, hm, hparse⟩ := parseInputLine_of_accepted read hread ha
    have hplaces : answeredPlaces read line = places m := by simp [answeredPlaces, hparse]
    rw [hplaces]
    refine ⟨fun h => ⟨fun _ path hat => ?_, fun hn => absurd ha hn⟩, fun h path hat => ?_⟩
    · exact (mem_places_iff hm hat).mp (h path hat)
    · exact (mem_places_iff hm hat).mpr (h.1 ha path hat)
  · have hplaces : answeredPlaces read line = [[]] := by
      simp [answeredPlaces, parseInputLine_of_not_accepted read hread ha]
    rw [hplaces]
    refine ⟨fun h => ⟨fun hy => absurd hy ha, fun _ path hat => ?_⟩, fun h path hat => ?_⟩
    · exact List.mem_singleton.mp (h path hat)
    · exact List.mem_singleton.mpr (h.2 ha path hat)

end

def halfId : Value :=
  .object
    [("jsonrpc", .string "2.0"), ("method", .string "tools/list"),
     ("id", .number (.float 4602678819172646912))]

def halfIdLine : String :=
  "\x7b\"jsonrpc\":\"2.0\",\"method\":\"tools/list\",\"id\":0.5\x7d"

def readHalfId (line : String) : Option Value := if line = halfIdLine then some halfId else none

def idleState : State Unit := ⟨(), none, [], []⟩

theorem requests_answered_iff_halfId :
    EachAnswered (fun _ => "") (Protocol.new "mcproc" "1") readHalfId halfIdLine halfId idleState ↔
      Recognised halfId :=
  requests_answered_iff (fun _ => "") (Protocol.new "mcproc" "1") readHalfId
    (by simp [readHalfId]) idleState

theorem fractional_id_not_answered :
    ¬ ∀ (pretty : Value → String) (P : Protocol Unit) (read : String → Option Value)
      (line : String) (v : Value) (s : State Unit), read line = some v →
      EachAnswered pretty P read line v s := by
  intro hall
  have hread : readHalfId halfIdLine = some halfId := by simp [readHalfId]
  have hone := hall (fun _ => "") (Protocol.new "mcproc" "1") readHalfId halfIdLine halfId
    idleState hread [] ⟨⟨_, List.mem_singleton_self _, _, rfl⟩, ⟨_, List.mem_singleton_self _, _, rfl⟩,
      List.cons_ne_nil _ _⟩
  exact absurd hone (by decide)

end Rpc
