import Numax.Core.Bounded
import Numax.Base.Bytes

/-!
# Messages and frames

The wire protocol of `nx-net`: the public messages, the wire messages they are
carried by, and the frames (`message.rs`) that `node.rs` reads from a connection.
A frame is a big-endian `u32` length, a format byte and the payload; the length
counts the format byte.

`serde_json` and `wincode` are a parameter (`PayloadCodec`). What the source itself
adds to them is modelled: the conversions between the two kinds of messages, and the
preallocation limit it gives the binary reader for a payload of some length.
-/

open Base

namespace Numax

def protocolVersion : UInt32 := 5

/-- The failures of the modelled functions. -/
inductive NetError where
  | io (kind : String)
  | serialization (message : String)
  | binarySerialization (message : String)
  | binaryDeserialization (message : String)
  | peerDisconnected (addr : String)
  | invalidMessage (message : String)
  | messageTooLarge (len limit : Nat)
deriving DecidableEq, Repr

/-! ## Formats -/

inductive SerializationFormat where
  | json
  | bincode
deriving DecidableEq, Repr

namespace SerializationFormat

def toWireByte : SerializationFormat → UInt8
  | json => 1
  | bincode => 2

def fromWireByte (byte : UInt8) : Except NetError SerializationFormat :=
  if byte = 1 then .ok json
  else if byte = 2 then .ok bincode
  else .error (.invalidMessage ("unknown serialization format byte: " ++ toString byte.toNat))

@[simp] theorem fromWireByte_toWireByte (f : SerializationFormat) :
    fromWireByte f.toWireByte = .ok f := by
  cases f <;> rfl

end SerializationFormat

/-! ## Messages -/

inductive WireError where
  | protocolMismatch (expected got : UInt32)
  | opRejected (reason : String)
  | rateLimited (retryAfterMs : Option UInt64)
  | notAuthorized (reason : String)
  | internal (reason : String)
deriving DecidableEq, Repr

inductive MessageKind where
  | hello (nodeId : NodeId) (protocolVersion : UInt32)
      (supportedFormats : List SerializationFormat) (preferredFormat : SerializationFormat)
  | helloAck (nodeId : NodeId) (protocolVersion : UInt32) (selectedFormat : SerializationFormat)
  | pushOps (ops : List Op)
  | pushOpsAck (receivedCount : UInt64)
  | pullSince (sinceOpId : Option String)
  | ping
  | pong
  | error (error : WireError)
deriving DecidableEq

/-- A public message. -/
structure Message where
  kind : MessageKind
deriving DecidableEq

def Message.pushOps (ops : List Op) : Message := ⟨.pushOps ops⟩

inductive ProtocolWireError where
  | protocolMismatch (expected got : UInt32)
  | opRejected (reason : String)
  | rateLimited (retryAfterMs : Option UInt64)
  | notAuthorized (reason : String)
  | internal (reason : String)
  | bootstrapRejected (reason : String)
deriving DecidableEq, Repr

inductive WireMessageKind where
  | hello (nodeId : NodeId) (protocolVersion : UInt32)
      (supportedFormats : List SerializationFormat) (preferredFormat : SerializationFormat)
  | helloAck (nodeId : NodeId) (protocolVersion : UInt32) (selectedFormat : SerializationFormat)
  | pushOps (ops : List Op)
  | pushOpsAck (receivedCount : UInt64)
  | pullSince (sinceOpId : Option String)
  | ping
  | pong
  | error (error : ProtocolWireError)
  | bootstrapHello (nodeId : NodeId) (protocolVersion : UInt32)
      (supportedFormats : List SerializationFormat) (preferredFormat : SerializationFormat)
      (clusterId : String) (advertisedEndpoint : Option String) (maxResults : UInt32)
  | bootstrapAck (nodeId : NodeId) (protocolVersion : UInt32)
      (selectedFormat : SerializationFormat) (clusterId : String) (candidates : List String)
      (candidateTtlMs : UInt64)
deriving DecidableEq

/-- What travels over a connection. -/
structure WireMessage where
  kind : WireMessageKind
deriving DecidableEq

def WireError.toProtocol : WireError → ProtocolWireError
  | .protocolMismatch expected got => .protocolMismatch expected got
  | .opRejected reason => .opRejected reason
  | .rateLimited retryAfterMs => .rateLimited retryAfterMs
  | .notAuthorized reason => .notAuthorized reason
  | .internal reason => .internal reason

def ProtocolWireError.toPublic : ProtocolWireError → Except NetError WireError
  | .protocolMismatch expected got => .ok (.protocolMismatch expected got)
  | .opRejected reason => .ok (.opRejected reason)
  | .rateLimited retryAfterMs => .ok (.rateLimited retryAfterMs)
  | .notAuthorized reason => .ok (.notAuthorized reason)
  | .internal reason => .ok (.internal reason)
  | .bootstrapRejected _ =>
    .error (.invalidMessage "bootstrap wire errors are not public protocol messages")

/-- `From<Message> for WireMessage`. -/
def Message.toWire (message : Message) : WireMessage where
  kind :=
    match message.kind with
    | .hello nodeId version supported preferred => .hello nodeId version supported preferred
    | .helloAck nodeId version selected => .helloAck nodeId version selected
    | .pushOps ops => .pushOps ops
    | .pushOpsAck receivedCount => .pushOpsAck receivedCount
    | .pullSince sinceOpId => .pullSince sinceOpId
    | .ping => .ping
    | .pong => .pong
    | .error error => .error error.toProtocol

/-- `TryFrom<WireMessage> for Message`. -/
def WireMessage.toPublic (message : WireMessage) : Except NetError Message :=
  match message.kind with
  | .hello nodeId version supported preferred => .ok ⟨.hello nodeId version supported preferred⟩
  | .helloAck nodeId version selected => .ok ⟨.helloAck nodeId version selected⟩
  | .pushOps ops => .ok ⟨.pushOps ops⟩
  | .pushOpsAck receivedCount => .ok ⟨.pushOpsAck receivedCount⟩
  | .pullSince sinceOpId => .ok ⟨.pullSince sinceOpId⟩
  | .ping => .ok ⟨.ping⟩
  | .pong => .ok ⟨.pong⟩
  | .error error => error.toPublic.map fun error => ⟨.error error⟩
  | .bootstrapHello .. | .bootstrapAck .. =>
    .error (.invalidMessage "bootstrap wire messages are not public protocol messages")

/-- Public messages survive the conversion. -/
@[simp] theorem Message.toPublic_toWire (message : Message) :
    message.toWire.toPublic = .ok message := by
  obtain ⟨kind⟩ := message
  cases kind with
  | error error => cases error <;> rfl
  | _ => rfl

/-! ## Payloads -/

def mib : Nat := 1024 * 1024

inductive BinaryPreallocationLimit where
  | limit4MiB
  | limit16MiB
  | limit64MiB
  | limit256MiB
  | limit1024MiB
  | disabled
deriving DecidableEq, Repr

def selectBinaryPreallocationLimit (declaredLen : Nat) : BinaryPreallocationLimit :=
  if declaredLen ≤ 4 * mib then .limit4MiB
  else if declaredLen ≤ 16 * mib then .limit16MiB
  else if declaredLen ≤ 64 * mib then .limit64MiB
  else if declaredLen ≤ 256 * mib then .limit256MiB
  else if declaredLen ≤ 1024 * mib then .limit1024MiB
  else .disabled

/-- The reader may set aside that many bytes at once. -/
def BinaryPreallocationLimit.Admits : BinaryPreallocationLimit → Nat → Prop
  | .limit4MiB, size => size ≤ 4 * mib
  | .limit16MiB, size => size ≤ 16 * mib
  | .limit64MiB, size => size ≤ 64 * mib
  | .limit256MiB, size => size ≤ 256 * mib
  | .limit1024MiB, size => size ≤ 1024 * mib
  | .disabled, _ => True

theorem BinaryPreallocationLimit.admits_zero (limit : BinaryPreallocationLimit) :
    limit.Admits 0 := by
  cases limit <;> simp [Admits]

/-- The payload serializers. `Message` and `WireMessage` derive their own; for a public
message they write the same. Both formats read back what they have written, the binary one
where no list of the message needs more memory at once than the limit it is given. The most
that one list needs is `preallocation`. -/
structure PayloadCodec where
  encodeMessage : SerializationFormat → Message → Except NetError Bytes
  encode : SerializationFormat → WireMessage → Except NetError Bytes
  readJson : Bytes → Except NetError WireMessage
  readBinary : BinaryPreallocationLimit → Bytes → Except NetError WireMessage
  preallocation : WireMessage → Nat
  encodeMessage_eq : ∀ format message, encodeMessage format message = encode format message.toWire
  readJson_encode : ∀ {message payload},
    encode .json message = .ok payload → readJson payload = .ok message
  readBinary_encode : ∀ {message payload} {limit : BinaryPreallocationLimit},
    encode .bincode message = .ok payload → limit.Admits (preallocation message) →
      readBinary limit payload = .ok message
  readBinary_refuse : ∀ {message payload} {limit : BinaryPreallocationLimit},
    encode .bincode message = .ok payload → ¬ limit.Admits (preallocation message) →
      ∃ e, readBinary limit payload = .error e

namespace PayloadCodec

variable (codec : PayloadCodec)

/-- The readers that `WireMessage::from_bytes_with_format` passes to `decode_frame`. -/
def decode (format : SerializationFormat) (payload : Bytes) : Except NetError WireMessage :=
  match format with
  | .json => codec.readJson payload
  | .bincode => codec.readBinary (selectBinaryPreallocationLimit payload.length) payload

/-- The reader can take the message in, if its payload is that long. -/
def Reads (format : SerializationFormat) (message : WireMessage) (length : Nat) : Prop :=
  format = .bincode →
    (selectBinaryPreallocationLimit length).Admits (codec.preallocation message)

variable {codec} {format : SerializationFormat} {message : WireMessage} {payload : Bytes}

theorem decode_encode (h : codec.encode format message = .ok payload)
    (hreads : codec.Reads format message payload.length) :
    codec.decode format payload = .ok message := by
  cases format with
  | json => exact codec.readJson_encode h
  | bincode => exact codec.readBinary_encode h (hreads rfl)

theorem decode_refuse (h : codec.encode format message = .ok payload)
    (hreads : ¬ codec.Reads format message payload.length) :
    ∃ e, codec.decode format payload = .error e := by
  cases format with
  | json => exact absurd nofun hreads
  | bincode => exact codec.readBinary_refuse h fun hadmits => hreads fun _ => hadmits

end PayloadCodec

/-! ## Frames -/

/-- The declared length, the format and the payload. -/
def frameBytes (format : SerializationFormat) (payload : Bytes) : Bytes :=
  beBytes 4 (payload.length + 1) ++ format.toWireByte :: payload

def encodeFrame (format : SerializationFormat) (payload : Except NetError Bytes) :
    Except NetError Bytes := do
  let payload ← payload
  if payload.length + 1 < 2 ^ 32 then pure (frameBytes format payload)
  else .error (.invalidMessage "message payload exceeds u32")

def decodeFrame (codec : PayloadCodec) (bytes : Bytes) :
    Except NetError (SerializationFormat × WireMessage) :=
  match bytes with
  | [] => .error (.invalidMessage "message payload is missing serialization format byte")
  | formatByte :: payload => do
    let format ← SerializationFormat.fromWireByte formatByte
    let message ← codec.decode format payload
    pure (format, message)

def validatePayloadLen (len limit : Nat) : Except NetError Unit :=
  if len > limit then .error (.messageTooLarge len limit) else .ok ()

def Message.toBytesWithFormat (codec : PayloadCodec) (format : SerializationFormat)
    (message : Message) : Except NetError Bytes :=
  encodeFrame format (codec.encodeMessage format message)

/-- What a frame is made of. -/
theorem toBytesWithFormat_eq_ok {codec : PayloadCodec} {format : SerializationFormat}
    {message : Message} {frame : Bytes} :
    message.toBytesWithFormat codec format = .ok frame ↔
      ∃ payload, codec.encodeMessage format message = .ok payload ∧
        payload.length + 1 < 2 ^ 32 ∧ frame = frameBytes format payload := by
  unfold Message.toBytesWithFormat encodeFrame
  cases codec.encodeMessage format message with
  | error e => simp [bind, Except.bind]
  | ok payload =>
    simp only [bind, Except.bind, Except.ok.injEq, exists_eq_left']
    by_cases h : payload.length + 1 < 2 ^ 32
    · rw [if_pos h]
      exact ⟨fun heq => ⟨h, (Except.ok.inj heq).symm⟩, fun heq => congrArg Except.ok heq.2.symm⟩
    · rw [if_neg h]
      exact ⟨nofun, fun heq => absurd heq.1 h⟩

end Numax
