import Numax.Net.FrameStream
import Numax.Base.OrdMap

/-!
# Answering a pull

A peer that asks for operations (`PullSince`) is answered by `handle_node_event`
with one `PushOps` message that holds everything `op_log_since` returns, written
to the peer's connection in the format that was negotiated for it.

`PushOpsSize` says how long such a message is: both payload formats write the
operations of a message one after the other.
-/

open Base Std

namespace Numax

inductive PeerState where
  | disconnected
  | connecting
  | handshaking
  | connected
  | failed
deriving DecidableEq, Repr

/-- The part of a peer's connection that sending uses. -/
structure PeerConnection where
  state : PeerState
  serializationFormat : SerializationFormat
  hasWriter : Bool
deriving DecidableEq, Repr

section Send

variable (codec : PayloadCodec) (peers : OrdMap String PeerConnection) (addr : String)

/-- The bytes handed to the writer of a connected peer. -/
def sendMessageToAddr (message : Message) : Except NetError Bytes :=
  match peers[addr]? with
  | none => .error (.peerDisconnected addr)
  | some conn =>
    if conn.state = .connected ∧ conn.hasWriter = true then
      message.toBytesWithFormat codec conn.serializationFormat
    else .error (.peerDisconnected addr)

def sendOpsToAddr (ops : List Op) : Except NetError Bytes :=
  sendMessageToAddr codec peers addr (Message.pushOps ops)

/-- `handle_node_event` on `PullRequested`. -/
def handlePullRequested (opLog : List Op) (sinceOpId : Option String) : Except NetError Bytes :=
  sendOpsToAddr codec peers addr (opLogSince opLog sinceOpId)

/-- The answer passes the length check of a reader with the given limit. -/
def PullAccepted (opLog : List Op) (sinceOpId : Option String) (maxMessageSize : Nat) : Prop :=
  ∃ frame, handlePullRequested codec peers addr opLog sinceOpId = .ok frame ∧
    validatePayloadLen (declaredLength frame) maxMessageSize = .ok ()

/-- The requester, reading with the given limit, receives every operation of the
answer and nothing else. -/
def PullDelivered (opLog : List Op) (sinceOpId : Option String) (maxMessageSize : Nat) : Prop :=
  ∃ frame format, handlePullRequested codec peers addr opLog sinceOpId = .ok frame ∧
    readMessageWithFormat codec maxMessageSize frame =
      (.ok (format, Message.pushOps (opLogSince opLog sinceOpId)), [])

end Send

section Connected

variable {codec : PayloadCodec} {peers : OrdMap String PeerConnection} {addr : String}
  {conn : PeerConnection} (hpeer : peers[addr]? = some conn) (hconnected : conn.state = .connected)
  (hwriter : conn.hasWriter = true) (opLog : List Op) (sinceOpId : Option String)

include hpeer hconnected hwriter

/-- A connected peer is answered on its connection. -/
theorem handlePullRequested_of_connected :
    handlePullRequested codec peers addr opLog sinceOpId =
      (Message.pushOps (opLogSince opLog sinceOpId)).toBytesWithFormat codec
        conn.serializationFormat := by
  rw [handlePullRequested, sendOpsToAddr, sendMessageToAddr]
  simp only [hpeer]
  exact if_pos ⟨hconnected, hwriter⟩

end Connected

/-! ## Sizes -/

/-- The size of a `PushOps` payload in a format: a fixed part, the operations,
and a separator between them. -/
structure PushOpsSize (codec : PayloadCodec) (format : SerializationFormat) where
  overhead : Nat
  separator : Nat
  opSize : Op → Nat
  encode_pushOps : ∀ ops, ∃ payload,
    codec.encodeMessage format (Message.pushOps ops) = .ok payload ∧
      payload.length = overhead + (ops.map opSize).sum + separator * (ops.length - 1)

namespace PushOpsSize

variable {codec : PayloadCodec} {format : SerializationFormat}

/-- The length a `PushOps` frame declares: payload and format byte. -/
def declared (size : PushOpsSize codec format) (ops : List Op) : Nat :=
  1 + size.overhead + (ops.map size.opSize).sum + size.separator * (ops.length - 1)

/-- The limit of the binary reader leaves room for the operations. -/
def Fits (size : PushOpsSize codec format) (ops : List Op) : Prop :=
  codec.Reads format (Message.pushOps ops).toWire (size.declared ops - 1)

variable (size : PushOpsSize codec format) (ops : List Op) (maxMessageSize : Nat)

theorem exists_payload : ∃ payload,
    codec.encodeMessage format (Message.pushOps ops) = .ok payload ∧
      size.declared ops = payload.length + 1 := by
  obtain ⟨payload, hpayload, hlength⟩ := size.encode_pushOps ops
  refine ⟨payload, hpayload, ?_⟩
  rw [declared, hlength]
  omega

/-- Sending a `PushOps`: the declared length decides about the length check. -/
theorem accept_pushOps :
    (∃ frame, (Message.pushOps ops).toBytesWithFormat codec format = .ok frame ∧
      validatePayloadLen (declaredLength frame) maxMessageSize = .ok ()) ↔
      size.declared ops ≤ maxMessageSize ∧ size.declared ops < 2 ^ 32 := by
  obtain ⟨payload, hpayload, hdeclared⟩ := size.exists_payload ops
  rw [hdeclared]
  constructor
  · rintro ⟨frame, hframe, hvalid⟩
    obtain ⟨payload', hpayload', hlen, rfl⟩ := toBytesWithFormat_eq_ok.mp hframe
    cases hpayload.symm.trans hpayload'
    rw [declaredLength_frameBytes hlen] at hvalid
    exact ⟨validatePayloadLen_eq_ok.mp hvalid, hlen⟩
  · rintro ⟨hlimit, hlen⟩
    refine ⟨_, toBytesWithFormat_eq_ok.mpr ⟨payload, hpayload, hlen, rfl⟩, ?_⟩
    rw [declaredLength_frameBytes hlen]
    exact validatePayloadLen_eq_ok.mpr hlimit

/-- Sending and reading a `PushOps`: once the length is accepted, the limit of the binary
reader decides. -/
theorem read_pushOps :
    (∃ frame readFormat, (Message.pushOps ops).toBytesWithFormat codec format = .ok frame ∧
      readMessageWithFormat codec maxMessageSize frame =
        (.ok (readFormat, Message.pushOps ops), [])) ↔
      size.declared ops ≤ maxMessageSize ∧ size.declared ops < 2 ^ 32 ∧ size.Fits ops := by
  obtain ⟨payload, hpayload, hdeclared⟩ := size.exists_payload ops
  rw [Fits, hdeclared, Nat.add_sub_cancel]
  constructor
  · rintro ⟨frame, readFormat, hframe, hread⟩
    obtain ⟨payload', hpayload', hlen, rfl⟩ := toBytesWithFormat_eq_ok.mp hframe
    cases hpayload.symm.trans hpayload'
    rw [← List.append_nil (frameBytes format payload)] at hread
    obtain ⟨-, -, hlimit, hreads⟩ := readMessageWithFormat_frame_eq_ok hpayload hlen hread
    exact ⟨hlimit, hlen, hreads⟩
  · rintro ⟨hlimit, hlen, hreads⟩
    refine ⟨_, format, toBytesWithFormat_eq_ok.mpr ⟨payload, hpayload, hlen, rfl⟩, ?_⟩
    rw [← List.append_nil (frameBytes format payload)]
    exact readMessageWithFormat_frame hpayload hlen hlimit hreads []

end PushOpsSize

end Numax
