import Numax.Net.Message

/-!
# Reading a connection

`read_message_with_format` in `node.rs` takes its bytes from a stream, and a refused
frame leaves the stream where the refusal was decided. A read is a computation over the
stream.
-/

open Base

namespace Numax

/-- A read: its result, and the stream after it. -/
abbrev StreamRead := ExceptT NetError (StateM Bytes)

namespace StreamRead

/-- `read_exact`. A stream that ends too early has been read to its end. -/
def exact (n : Nat) : StreamRead Bytes := fun stream =>
  if n ≤ stream.length then (.ok (stream.take n), stream.drop n)
  else (.error (.io "unexpected end of file"), [])

/-- A check that reads nothing. -/
def check {α : Type} (result : Except NetError α) : StreamRead α := fun stream => (result, stream)

end StreamRead

def readWireMessageWithFormat (codec : PayloadCodec) (maxMessageSize : Nat) :
    StreamRead (SerializationFormat × WireMessage) := do
  let lenBuf ← StreamRead.exact 4
  StreamRead.check (validatePayloadLen (ofBe lenBuf) maxMessageSize)
  let buf ← StreamRead.exact (ofBe lenBuf)
  StreamRead.check (decodeFrame codec buf)

def readMessageWithFormat (codec : PayloadCodec) (maxMessageSize : Nat) :
    StreamRead (SerializationFormat × Message) := do
  let (format, message) ← readWireMessageWithFormat codec maxMessageSize
  let message ← StreamRead.check message.toPublic
  pure (format, message)

namespace StreamRead

variable {α β : Type} {read : StreamRead α} {stream rest : Bytes}

theorem bind_of_ok {a : α} (h : read stream = (.ok a, rest)) (next : α → StreamRead β) :
    (read >>= next) stream = next a rest := by
  change (StateT.bind read (ExceptT.bindCont next)) stream = _
  simp only [StateT.bind, h]
  rfl

theorem bind_of_error {e : NetError} (h : read stream = (.error e, rest))
    (next : α → StreamRead β) : (read >>= next) stream = (.error e, rest) := by
  change (StateT.bind read (ExceptT.bindCont next)) stream = _
  simp only [StateT.bind, h]
  rfl

theorem bind_eq_ok {next : α → StreamRead β} {b : β}
    (h : (read >>= next) stream = (.ok b, rest)) :
    ∃ a between, read stream = (.ok a, between) ∧ next a between = (.ok b, rest) := by
  rcases hread : read stream with ⟨e | a, between⟩
  · rw [bind_of_error hread] at h
    cases h
  · rw [bind_of_ok hread] at h
    exact ⟨a, between, rfl, h⟩

theorem exact_append (bytes rest : Bytes) :
    exact bytes.length (bytes ++ rest) = (.ok bytes, rest) := by
  rw [exact, if_pos (by simp), List.take_left, List.drop_left]

theorem exact_eq_ok {n : Nat} {bytes : Bytes} (h : exact n stream = (.ok bytes, rest)) :
    stream = bytes ++ rest ∧ bytes.length = n := by
  unfold exact at h
  split at h
  · next hn =>
      cases h
      exact ⟨(List.take_append_drop n stream).symm, List.length_take_of_le hn⟩
  · cases h

theorem check_eq_ok {result : Except NetError α} {a : α}
    (h : check result stream = (.ok a, rest)) : result = .ok a ∧ rest = stream := by
  cases h
  exact ⟨rfl, rfl⟩

end StreamRead

theorem validatePayloadLen_eq_ok {len limit : Nat} :
    validatePayloadLen len limit = .ok () ↔ len ≤ limit := by
  unfold validatePayloadLen
  split
  · next h => exact ⟨nofun, fun hle => absurd h (Nat.not_lt.mpr hle)⟩
  · next h => exact ⟨fun _ => Nat.le_of_not_lt h, fun _ => rfl⟩

variable {m : SerializationFormat × Message}

section Read

variable {codec : PayloadCodec} {maxMessageSize : Nat} {stream rest : Bytes}
  {format : SerializationFormat}

/-- A frame on the stream within the limit is taken off it and decoded. -/
theorem readWireMessageWithFormat_append {lenBuf buf : Bytes} (hfour : lenBuf.length = 4)
    (hlen : ofBe lenBuf = buf.length) (hlimit : buf.length ≤ maxMessageSize) (rest : Bytes) :
    readWireMessageWithFormat codec maxMessageSize (lenBuf ++ (buf ++ rest)) =
      (decodeFrame codec buf, rest) := by
  have hhead := StreamRead.exact_append lenBuf (buf ++ rest)
  rw [hfour] at hhead
  have hcheck : StreamRead.check (validatePayloadLen (ofBe lenBuf) maxMessageSize) (buf ++ rest) =
      (.ok (), buf ++ rest) := by
    rw [StreamRead.check, hlen, validatePayloadLen_eq_ok.mpr hlimit]
  have hbody := StreamRead.exact_append buf rest
  rw [← hlen] at hbody
  rw [readWireMessageWithFormat, StreamRead.bind_of_ok hhead, StreamRead.bind_of_ok hcheck,
    StreamRead.bind_of_ok hbody, StreamRead.check]

/-- A frame that is read lies on the stream with its length in front. -/
theorem readWireMessageWithFormat_eq_ok {wire : WireMessage}
    (h : readWireMessageWithFormat codec maxMessageSize stream = (.ok (format, wire), rest)) :
    ∃ lenBuf buf, stream = lenBuf ++ (buf ++ rest) ∧ lenBuf.length = 4 ∧
      ofBe lenBuf = buf.length ∧ buf.length ≤ maxMessageSize ∧
      decodeFrame codec buf = .ok (format, wire) := by
  obtain ⟨lenBuf, afterLen, hlenBuf, h⟩ := StreamRead.bind_eq_ok h
  obtain ⟨⟨⟩, afterCheck, hcheck, h⟩ := StreamRead.bind_eq_ok h
  obtain ⟨buf, afterBuf, hbuf, h⟩ := StreamRead.bind_eq_ok h
  obtain ⟨hdecode, rfl⟩ := StreamRead.check_eq_ok h
  obtain ⟨hvalid, rfl⟩ := StreamRead.check_eq_ok hcheck
  obtain ⟨hstream, hfour⟩ := StreamRead.exact_eq_ok hlenBuf
  obtain ⟨hafter, hlen⟩ := StreamRead.exact_eq_ok hbuf
  refine ⟨lenBuf, buf, by rw [hstream, hafter], hfour, hlen.symm, ?_, hdecode⟩
  rw [hlen]
  exact validatePayloadLen_eq_ok.mp hvalid

theorem readMessageWithFormat_of_wire {wire : WireMessage} {message : Message}
    (h : readWireMessageWithFormat codec maxMessageSize stream = (.ok (format, wire), rest))
    (hpublic : wire.toPublic = .ok message) :
    readMessageWithFormat codec maxMessageSize stream = (.ok (format, message), rest) := by
  rw [readMessageWithFormat, StreamRead.bind_of_ok h]
  have hcheck : StreamRead.check wire.toPublic rest = (.ok message, rest) := by
    rw [StreamRead.check, hpublic]
  exact StreamRead.bind_of_ok hcheck _

/-- A message that is read is a frame whose wire message is public. -/
theorem readMessageWithFormat_eq_ok {message : Message}
    (h : readMessageWithFormat codec maxMessageSize stream = (.ok (format, message), rest)) :
    ∃ wire, readWireMessageWithFormat codec maxMessageSize stream = (.ok (format, wire), rest) ∧
      wire.toPublic = .ok message := by
  obtain ⟨⟨format', wire⟩, after, hwire, h⟩ := StreamRead.bind_eq_ok h
  obtain ⟨message', after', hcheck, hpure⟩ := StreamRead.bind_eq_ok h
  obtain ⟨hpublic, rfl⟩ := StreamRead.check_eq_ok hcheck
  cases hpure
  exact ⟨wire, hwire, hpublic⟩

theorem length_of_readMessageWithFormat
    (h : readMessageWithFormat codec maxMessageSize stream = (.ok m, rest)) :
    rest.length < stream.length := by
  obtain ⟨format, message⟩ := m
  obtain ⟨wire, hwire, -⟩ := readMessageWithFormat_eq_ok h
  obtain ⟨lenBuf, buf, hstream, hfour, -⟩ := readWireMessageWithFormat_eq_ok hwire
  rw [hstream, List.length_append, List.length_append, hfour]
  omega

/-- A message that can be read is read in the same way when more bytes have come in. -/
theorem readMessageWithFormat_extend (later : Bytes)
    (h : readMessageWithFormat codec maxMessageSize stream = (.ok m, rest)) :
    readMessageWithFormat codec maxMessageSize (stream ++ later) = (.ok m, rest ++ later) := by
  obtain ⟨format, message⟩ := m
  obtain ⟨wire, hwire, hpublic⟩ := readMessageWithFormat_eq_ok h
  obtain ⟨lenBuf, buf, rfl, hfour, hlen, hlimit, hdecode⟩ := readWireMessageWithFormat_eq_ok hwire
  refine readMessageWithFormat_of_wire ?_ hpublic
  rw [List.append_assoc, List.append_assoc, readWireMessageWithFormat_append hfour hlen hlimit,
    hdecode]

end Read

/-! ## One frame -/

section Frame

variable {codec : PayloadCodec} {format : SerializationFormat} {message : Message}
  {payload : Bytes} {maxMessageSize : Nat}

/-- The length a frame declares. -/
def declaredLength (frame : Bytes) : Nat := ofBe (frame.take 4)

theorem declaredLength_frameBytes (hlen : payload.length + 1 < 2 ^ 32) :
    declaredLength (frameBytes format payload) = payload.length + 1 := by
  rw [declaredLength, frameBytes, List.take_append_of_le_length (by rw [length_beBytes]),
    List.take_of_length_le (by rw [length_beBytes]), ofBe_beBytes_of_lt (by omega)]

/-- A frame that is too long is refused with its payload still on the stream. -/
theorem readMessageWithFormat_too_large {lenBuf : Bytes} (hfour : lenBuf.length = 4)
    (hlarge : maxMessageSize < ofBe lenBuf) (payload : Bytes) :
    readMessageWithFormat codec maxMessageSize (lenBuf ++ payload) =
      (.error (.messageTooLarge (ofBe lenBuf) maxMessageSize), payload) := by
  -- the length is taken off the stream, and the check fails before the payload is
  have hhead := StreamRead.exact_append lenBuf payload
  rw [hfour] at hhead
  have hcheck : StreamRead.check (validatePayloadLen (ofBe lenBuf) maxMessageSize) payload =
      (.error (.messageTooLarge (ofBe lenBuf) maxMessageSize), payload) := by
    rw [StreamRead.check, validatePayloadLen, if_pos hlarge]
  refine StreamRead.bind_of_error ?_ _
  rw [readWireMessageWithFormat, StreamRead.bind_of_ok hhead, StreamRead.bind_of_error hcheck]

/-- Within the limit the payload goes to the serializer. -/
theorem readWireMessageWithFormat_frame (hlen : payload.length + 1 < 2 ^ 32)
    (hlimit : payload.length + 1 ≤ maxMessageSize) (rest : Bytes) :
    readWireMessageWithFormat codec maxMessageSize (frameBytes format payload ++ rest) =
      ((codec.decode format payload).map (format, ·), rest) := by
  have hbe : ofBe (beBytes 4 (payload.length + 1)) = (format.toWireByte :: payload).length :=
    ofBe_beBytes_of_lt (by omega)
  rw [frameBytes, List.append_assoc, readWireMessageWithFormat_append (length_beBytes _ _) hbe
    hlimit]
  simp only [decodeFrame, SerializationFormat.fromWireByte_toWireByte, bind, Except.bind]
  cases codec.decode format payload <;> rfl

theorem readMessageWithFormat_frame (hpayload : codec.encodeMessage format message = .ok payload)
    (hlen : payload.length + 1 < 2 ^ 32) (hlimit : payload.length + 1 ≤ maxMessageSize)
    (hreads : codec.Reads format message.toWire payload.length) (rest : Bytes) :
    readMessageWithFormat codec maxMessageSize (frameBytes format payload ++ rest) =
      (.ok (format, message), rest) := by
  rw [codec.encodeMessage_eq] at hpayload
  refine readMessageWithFormat_of_wire ?_ message.toPublic_toWire
  rw [readWireMessageWithFormat_frame hlen hlimit, PayloadCodec.decode_encode hpayload hreads]
  rfl

/-- What is read from a frame is its message; the limits were observed then. -/
theorem readMessageWithFormat_frame_eq_ok
    (hpayload : codec.encodeMessage format message = .ok payload)
    (hlen : payload.length + 1 < 2 ^ 32) {after rest : Bytes}
    (h : readMessageWithFormat codec maxMessageSize (frameBytes format payload ++ after) =
      (.ok m, rest)) :
    m = (format, message) ∧ rest = after ∧ payload.length + 1 ≤ maxMessageSize ∧
      codec.Reads format message.toWire payload.length := by
  have hlimit : payload.length + 1 ≤ maxMessageSize := by
    by_contra hlarge
    have hbe : ofBe (beBytes 4 (payload.length + 1)) = payload.length + 1 :=
      ofBe_beBytes_of_lt (by omega)
    rw [frameBytes, List.append_assoc, readMessageWithFormat_too_large (length_beBytes _ _)
      (by omega)] at h
    cases h
  have hreads : codec.Reads format message.toWire payload.length := by
    by_contra hrefused
    have hencoded := hpayload
    rw [codec.encodeMessage_eq] at hencoded
    obtain ⟨e, he⟩ := PayloadCodec.decode_refuse hencoded hrefused
    obtain ⟨wire, hwire, -⟩ := readMessageWithFormat_eq_ok h
    rw [readWireMessageWithFormat_frame hlen hlimit, he] at hwire
    cases hwire
  rw [readMessageWithFormat_frame hpayload hlen hlimit hreads] at h
  cases h
  exact ⟨rfl, rfl, hlimit, hreads⟩

end Frame

/-! ## Reading on -/

/-- What a connection delivers until a read fails: the messages, what was left for the
read that failed, and why it did. -/
structure Received where
  messages : List (SerializationFormat × Message)
  left : Bytes
  error : NetError
deriving DecidableEq

/-- `read_message_with_format` again and again. -/
def receiveAll (codec : PayloadCodec) (maxMessageSize : Nat) (stream : Bytes) : Received :=
  match _h : readMessageWithFormat codec maxMessageSize stream with
  | (.error error, _) => ⟨[], stream, error⟩
  | (.ok m, rest) =>
    let received := receiveAll codec maxMessageSize rest
    { received with messages := m :: received.messages }
termination_by stream.length
decreasing_by exact length_of_readMessageWithFormat _h

end Numax
