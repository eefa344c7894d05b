import Numax.Net.JsonPayload

/-!
# Delivery of pull answers

The answer to a pull is one message with all retained operations after the
requested one. It passes the requester's length check exactly if that one message
is within the size limit (and a `u32`); single operations within the limit do not
make it so. Over the binary format the preallocation limit of the reader comes on
top. Broadcasts, in contrast, are cut into messages of bounded length.
-/

open Base Std

namespace Numax

/-- The answer to a connected peer passes the reader's length check if and only if the
sizes of all retained operations after the requested one, together with the fixed part of
the message, stay within its limit. The operations arrive if and only if, beyond that, the
binary reader may set aside the memory for them. -/
theorem pullDelivered_iff {codec : PayloadCodec} {peers : OrdMap String PeerConnection}
    {addr : String} {conn : PeerConnection} (hpeer : peers[addr]? = some conn)
    (hconnected : conn.state = .connected) (hwriter : conn.hasWriter = true)
    (size : PushOpsSize codec conn.serializationFormat) (opLog : List Op)
    (sinceOpId : Option String) (maxMessageSize : Nat) :
    let ops := opLogSince opLog sinceOpId
    (PullAccepted codec peers addr opLog sinceOpId maxMessageSize ↔
      size.declared ops ≤ maxMessageSize ∧ size.declared ops < 2 ^ 32) ∧
    (PullDelivered codec peers addr opLog sinceOpId maxMessageSize ↔
      size.declared ops ≤ maxMessageSize ∧ size.declared ops < 2 ^ 32 ∧ size.Fits ops) := by
  intro ops
  rw [PullAccepted, PullDelivered, handlePullRequested_of_connected hpeer hconnected hwriter]
  exact ⟨size.accept_pushOps ops maxMessageSize, size.read_pushOps ops maxMessageSize⟩

def jsonPeer : PeerConnection :=
  { state := .connected, serializationFormat := .json, hasWriter := true }

def jsonPeers : OrdMap String PeerConnection := OrdMap.insertAll ∅ [("peer", jsonPeer)]

theorem jsonPeer_mem : jsonPeers["peer"]? = some jsonPeer := by decide +kernel

def retainedOps : List Op :=
  [.gcounterIncrement "a" "node" "k" 3, .gcounterIncrement "b" "node" "k" 4]

/-- Within a limit of 300 bytes both operations arrive. -/
theorem pullDelivered_pair :
    PullAccepted jsonPayload jsonPeers "peer" retainedOps none 300 ∧
      PullDelivered jsonPayload jsonPeers "peer" retainedOps none 300 := by
  obtain ⟨haccepted, hdelivered⟩ := @pullDelivered_iff jsonPayload jsonPeers "peer" jsonPeer
    jsonPeer_mem rfl rfl jsonPayloadSize retainedOps none 300
  exact ⟨haccepted.mpr (by decide +kernel),
    hdelivered.mpr ⟨by decide +kernel, by decide +kernel, nofun⟩⟩

/-- Within a limit of 150 bytes each of the operations would arrive alone, but
the length check refuses the answer. -/
theorem pullAnswer_too_large :
    (∀ op ∈ retainedOps, ∃ frame format,
      (Message.pushOps [op]).toBytesWithFormat jsonPayload .json = .ok frame ∧
        readMessageWithFormat jsonPayload 150 frame = (.ok (format, Message.pushOps [op]), [])) ∧
    (∃ frame, handlePullRequested jsonPayload jsonPeers "peer" retainedOps none = .ok frame ∧
      (readMessageWithFormat jsonPayload 150 frame).1 = .error (.messageTooLarge 195 150)) ∧
    ¬ PullAccepted jsonPayload jsonPeers "peer" retainedOps none 150 := by
  have hanswer : handlePullRequested jsonPayload jsonPeers "peer" retainedOps none =
      (Message.pushOps retainedOps).toBytesWithFormat jsonPayload .json :=
    handlePullRequested_of_connected jsonPeer_mem rfl rfl retainedOps none
  refine ⟨?_, ?_, ?_⟩
  · intro op hop
    rw [jsonPayloadSize.read_pushOps]
    have hsize : ∀ op ∈ retainedOps, jsonPayloadSize.declared [op] ≤ 150 := by decide +kernel
    exact ⟨hsize op hop, (hsize op hop).trans_lt (by decide), nofun⟩
  · obtain ⟨payload, hpayload, hdeclared⟩ := jsonPayloadSize.exists_payload retainedOps
    have hlen : payload.length + 1 = 195 := by
      rw [← hdeclared]
      decide +kernel
    have hbe : ofBe (beBytes 4 (payload.length + 1)) = 195 := by
      rw [hlen]
      decide +kernel
    refine ⟨frameBytes .json payload, ?_, ?_⟩
    · rw [hanswer]
      exact toBytesWithFormat_eq_ok.mpr ⟨payload, hpayload, by omega, rfl⟩
    · rw [frameBytes, readMessageWithFormat_too_large (length_beBytes _ _) (by omega), hbe]
  · rw [PullAccepted, hanswer]
    exact (jsonPayloadSize.accept_pushOps _ 150).not.mpr (by decide +kernel)

end Numax
