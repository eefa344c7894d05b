import Numax.Net.Exchange
import Numax.Core.JsonForm

/-!
# The JSON form of `PushOps`

The text `serde_json` writes for a message with operations, as a payload codec
and with its size. Messages without operations are refused by this codec.
-/

open Base Base.Json Base.Json.Codec Std

namespace Numax

namespace JsonForm

theorem op_leads {P : Char → Prop} (h : P '\x7b') : op.Leads P :=
  imap_leads (imap_leads (field_leads h))

def ops : Codec (List Op) := list op (op_leads (by decide))

/-- `WireMessage` with the variant `PushOps`. -/
def pushOps : Codec (List Op) :=
  (last '\x7b' "kind" (last '\x7b' "PushOps" (last '\x7b' "ops" ops))).imap
    (fun p => some p.1.1.1) (fun ops => (((ops, ()), ()), ())) fun _ => rfl

/-- The bytes of a text. -/
def textBytes (text : List Char) : Bytes := asBytes (String.ofList text)

theorem textBytes_append (a b : List Char) : textBytes (a ++ b) = textBytes a ++ textBytes b := by
  rw [textBytes, String.ofList_append, asBytes_append]
  rfl

theorem length_textBytes_printItems {α : Type} (c : Codec α) (as : List α) :
    (textBytes (printItems c as)).length =
      (as.map fun a => (textBytes (c.print a)).length).sum + (as.length - 1) := by
  fun_induction printItems c as with
  | case1 => rfl
  | case2 a => simp
  | case3 a rest hne ih =>
    have hcomma : (textBytes [',']).length = 1 := by decide
    have hrest : 1 ≤ rest.length := List.length_pos_iff.mpr fun h => hne h
    rw [← List.singleton_append, textBytes_append, textBytes_append, List.length_append,
      List.length_append, ih, hcomma, List.map_cons, List.sum_cons, List.length_cons]
    omega

/-- The text before the operations of a message. -/
def pushOpsHead : List Char :=
  fieldName '\x7b' "kind" ++ fieldName '\x7b' "PushOps" ++ fieldName '\x7b' "ops" ++ ['[']

/-- The text after the operations of a message. -/
def pushOpsTail : List Char := [']', '\x7d', '\x7d', '\x7d']

theorem pushOps_print (ops : List Op) :
    pushOps.print ops = pushOpsHead ++ (printItems op ops ++ pushOpsTail) := by
  change fieldName '\x7b' "kind" ++ ((fieldName '\x7b' "PushOps" ++ ((fieldName '\x7b' "ops" ++
    ('[' :: (printItems op ops ++ [']']) ++ ['\x7d'])) ++ ['\x7d'])) ++ ['\x7d']) = _
  simp only [pushOpsHead, pushOpsTail, List.append_assoc, List.cons_append, List.nil_append]

end JsonForm

/-- The payload of a message with operations. -/
def JsonForm.pushOpsPayload (ops : List Op) : Except NetError Bytes :=
  .ok (asBytes (toText pushOps ops))

/-- The JSON payloads of messages with operations. -/
def jsonPayload : PayloadCodec where
  encodeMessage format message :=
    match format, message.kind with
    | .json, .pushOps ops => JsonForm.pushOpsPayload ops
    | _, _ => .error (.serialization "no operations")
  encode format message :=
    match format, message.kind with
    | .json, .pushOps ops => JsonForm.pushOpsPayload ops
    | _, _ => .error (.serialization "no operations")
  readJson payload :=
    match fromUtf8 payload with
    | none => .error (.serialization "invalid UTF-8")
    | some text =>
      match JsonForm.ofText JsonForm.pushOps text with
      | .ok ops => .ok ⟨.pushOps ops⟩
      | .error e => .error (.serialization e)
  readBinary _ _ := .error (.binaryDeserialization "no binary payloads")
  preallocation _ := 0
  encodeMessage_eq format message := by
    obtain ⟨kind⟩ := message
    cases format <;> cases kind <;> rfl
  readJson_encode {message payload} h := by
    obtain ⟨kind⟩ := message
    cases kind <;> cases h
    simp only [fromUtf8_asBytes, JsonForm.ofText_toText]
  readBinary_encode h := nomatch h
  readBinary_refuse h := nomatch h

def jsonPayloadSize : PushOpsSize jsonPayload .json where
  overhead := 31
  separator := 1
  opSize op := (jsonSerde.op.toBytes op).length
  encode_pushOps ops := by
    refine ⟨_, rfl, ?_⟩
    change (JsonForm.textBytes (JsonForm.pushOps.print ops)).length = _
    have hhead : (JsonForm.textBytes JsonForm.pushOpsHead).length = 27 := by decide +kernel
    have htail : (JsonForm.textBytes JsonForm.pushOpsTail).length = 4 := by decide +kernel
    have hops : (ops.map fun op => (JsonForm.textBytes (JsonForm.op.print op)).length).sum =
        (ops.map fun op => (jsonSerde.op.toBytes op).length).sum := rfl
    rw [JsonForm.pushOps_print, JsonForm.textBytes_append, JsonForm.textBytes_append,
      List.length_append, List.length_append, hhead, htail, JsonForm.length_textBytes_printItems,
      hops]
    omega

end Numax
