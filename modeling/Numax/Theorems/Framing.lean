import Numax.Net.FrameStream
import Numax.Net.JsonPayload

/-!
# Framing as a stream codec

Frames written one after the other are read back one after the other, whatever formats
they use. The length in front of a frame decides about it alone, and what belongs to
the bootstrap exchange never becomes a public message.
-/

open Base

namespace Numax

/-! ## What is not public -/

/-- The wire messages of the bootstrap exchange. -/
def WireMessage.IsBootstrap (message : WireMessage) : Prop :=
  match message.kind with
  | .bootstrapHello .. | .bootstrapAck .. | .error (.bootstrapRejected _) => True
  | _ => False

theorem WireMessage.toPublic_of_isBootstrap {message : WireMessage} (h : message.IsBootstrap) :
    ∃ e, message.toPublic = .error e := by
  obtain ⟨kind⟩ := message
  cases kind with
  | bootstrapHello | bootstrapAck => exact ⟨_, rfl⟩
  | error error =>
    cases error with
    | bootstrapRejected reason => exact ⟨_, rfl⟩
    | _ => exact h.elim
  | _ => exact h.elim

/-! ## One frame, then the rest -/

/-- The frame of a message, within the limit of a reader. The serializer of the reader
decodes what was encoded. -/
structure FrameOf (codec : PayloadCodec) (maxMessageSize : Nat) (m : SerializationFormat × Message)
    (frame : Bytes) : Prop where
  encoded : m.2.toBytesWithFormat codec m.1 = .ok frame
  limit : declaredLength frame ≤ maxMessageSize
  decodes : ∀ payload, codec.encode m.1 m.2.toWire = .ok payload →
    codec.decode m.1 payload = .ok m.2.toWire

section Receive

variable {codec : PayloadCodec} {maxMessageSize : Nat}

theorem readMessageWithFormat_append {m : SerializationFormat × Message} {frame : Bytes}
    (h : FrameOf codec maxMessageSize m frame) (rest : Bytes) :
    readMessageWithFormat codec maxMessageSize (frame ++ rest) = (.ok m, rest) := by
  obtain ⟨hframe, hlimit, hdecodes⟩ := h
  obtain ⟨payload, hpayload, hlen, rfl⟩ := toBytesWithFormat_eq_ok.mp hframe
  rw [declaredLength_frameBytes hlen] at hlimit
  rw [codec.encodeMessage_eq] at hpayload
  refine readMessageWithFormat_of_wire ?_ m.2.toPublic_toWire
  rw [readWireMessageWithFormat_frame hlen hlimit, hdecodes payload hpayload]
  rfl

theorem receiveAll_of_ok {m : SerializationFormat × Message} {stream rest : Bytes}
    (h : readMessageWithFormat codec maxMessageSize stream = (.ok m, rest)) :
    receiveAll codec maxMessageSize stream =
      { receiveAll codec maxMessageSize rest with
        messages := m :: (receiveAll codec maxMessageSize rest).messages } := by
  rw [receiveAll]
  split
  · rename_i heq
    rw [h] at heq
    cases heq
  · rename_i heq
    rw [h] at heq
    cases heq
    rfl

theorem receiveAll_nil :
    receiveAll codec maxMessageSize [] = ⟨[], [], .io "unexpected end of file"⟩ := by
  rw [receiveAll]
  rfl

theorem receiveAll_frames {messages : List (SerializationFormat × Message)} {frames : List Bytes}
    (h : List.Forall₂ (FrameOf codec maxMessageSize) messages frames) :
    receiveAll codec maxMessageSize frames.flatten =
      ⟨messages, [], .io "unexpected end of file"⟩ := by
  induction h with
  | nil => exact receiveAll_nil
  | cons hframe _ ih =>
    rw [List.flatten_cons, receiveAll_of_ok (readMessageWithFormat_append hframe _), ih]

/-- A read ends with a public message or not at all. -/
theorem readMessageWithFormat_of_isBootstrap {stream rest : Bytes} {format : SerializationFormat}
    {wire : WireMessage} (hboot : wire.IsBootstrap)
    (h : readWireMessageWithFormat codec maxMessageSize stream = (.ok (format, wire), rest)) :
    ∃ e, (readMessageWithFormat codec maxMessageSize stream).1 = .error e := by
  obtain ⟨e, he⟩ := WireMessage.toPublic_of_isBootstrap hboot
  have hcheck : StreamRead.check wire.toPublic rest = (.error e, rest) := by
    rw [StreamRead.check, he]
  refine ⟨e, ?_⟩
  rw [readMessageWithFormat, StreamRead.bind_of_ok h]
  exact congrArg Prod.fst (StreamRead.bind_of_error hcheck _)

end Receive

/-! ## The codec -/

/-- Any frames within the limit are read back in order up to the end of the stream, where
the serializers decode what they encoded. A frame that declares more is refused with its
payload unread. No stream yields a message where it holds a frame of the bootstrap
exchange. -/
theorem framing_faithful (codec : PayloadCodec) (maxMessageSize : Nat) :
    (∀ (messages : List (SerializationFormat × Message)) (frames : List Bytes),
      List.Forall₂ (FrameOf codec maxMessageSize) messages frames →
        receiveAll codec maxMessageSize frames.flatten =
          ⟨messages, [], .io "unexpected end of file"⟩) ∧
    (∀ lenBuf payload : Bytes, lenBuf.length = 4 → maxMessageSize < ofBe lenBuf →
      readMessageWithFormat codec maxMessageSize (lenBuf ++ payload) =
        (.error (.messageTooLarge (ofBe lenBuf) maxMessageSize), payload)) ∧
    ∀ (stream rest : Bytes) (format : SerializationFormat) (wire : WireMessage),
      readWireMessageWithFormat codec maxMessageSize stream = (.ok (format, wire), rest) →
      wire.IsBootstrap → ∃ e, (readMessageWithFormat codec maxMessageSize stream).1 = .error e :=
  ⟨fun _ _ => receiveAll_frames,
    fun _ payload hfour hlarge => readMessageWithFormat_too_large hfour hlarge payload,
    fun _ _ _ _ h hboot => readMessageWithFormat_of_isBootstrap hboot h⟩

/-- A codec with both formats: JSON for operations, and a number for some messages
without content. -/
def mixedPayload : PayloadCodec where
  encodeMessage format message :=
    match format, message.kind with
    | .json, _ => jsonPayload.encodeMessage .json message
    | .bincode, .ping => .ok [5, 0, 0, 0]
    | _, _ => .error (.binarySerialization "unsupported")
  encode format message :=
    match format, message.kind with
    | .json, _ => jsonPayload.encode .json message
    | .bincode, .ping => .ok [5, 0, 0, 0]
    | .bincode, .error (.bootstrapRejected "full") => .ok [7, 0, 0, 0]
    | _, _ => .error (.binarySerialization "unsupported")
  readJson := jsonPayload.readJson
  readBinary _ payload :=
    if payload = [5, 0, 0, 0] then .ok ⟨.ping⟩
    else if payload = [7, 0, 0, 0] then .ok ⟨.error (.bootstrapRejected "full")⟩
    else .error (.binaryDeserialization "unsupported")
  preallocation _ := 0
  encodeMessage_eq format message := by
    obtain ⟨kind⟩ := message
    cases format with
    | json => exact jsonPayload.encodeMessage_eq .json ⟨kind⟩
    | bincode =>
      cases kind with
      | error error => cases error <;> rfl
      | _ => rfl
  readJson_encode h := jsonPayload.readJson_encode h
  readBinary_encode {message payload limit} h _ := by
    obtain ⟨kind⟩ := message
    simp only at h
    split at h
    · contradiction
    · cases h
      simp_all
    · cases h
      simp_all
    · cases h
  readBinary_refuse {message payload limit} _ h := absurd limit.admits_zero h

def mixedMessages : List (SerializationFormat × Message) :=
  [(.bincode, ⟨.ping⟩), (.json, .pushOps [.gcounterIncrement "a" "node" "k" 3]),
    (.bincode, ⟨.ping⟩)]

def mixedFrames : List Bytes :=
  mixedMessages.map fun m => (m.2.toBytesWithFormat mixedPayload m.1).toOption.getD []

/-- Two formats on one stream, a frame of 301 bytes, and a refusal of a bootstrap seed. -/
theorem framing_faithful_mixed :
    receiveAll mixedPayload 300 mixedFrames.flatten =
      ⟨mixedMessages, [], .io "unexpected end of file"⟩ ∧
    readMessageWithFormat mixedPayload 300 ([0, 0, 1, 45] ++ [2, 5]) =
      (.error (.messageTooLarge 301 300), [2, 5]) ∧
    ∃ e, (readMessageWithFormat mixedPayload 300 [0, 0, 0, 5, 2, 7, 0, 0, 0]).1 = .error e := by
  obtain ⟨hread, hlarge, hboot⟩ := framing_faithful mixedPayload 300
  refine ⟨hread _ _ ?_, hlarge _ _ rfl (by decide), ?_⟩
  · have hdecodes : ∀ m ∈ mixedMessages, ∀ payload,
        mixedPayload.encode m.1 m.2.toWire = .ok payload →
          mixedPayload.decode m.1 payload = .ok m.2.toWire := fun m _ payload h =>
      PayloadCodec.decode_encode h fun _ => BinaryPreallocationLimit.admits_zero _
    refine .cons ⟨rfl, by decide, hdecodes _ (by simp [mixedMessages])⟩
      (.cons ⟨rfl, by decide +kernel, hdecodes _ (by simp [mixedMessages])⟩
        (.cons ⟨rfl, by decide, hdecodes _ (by simp [mixedMessages])⟩ .nil))
  · exact hboot _ [] .bincode ⟨.error (.bootstrapRejected "full")⟩ rfl trivial

end Numax
