import Numax.Cluster.State
import Numax.Theorems.Framing

/-!
# What is on a pipe

The bytes on a pipe are frames that were written one after the other. On a broken pipe
they are some first part of such frames, which may end inside of one. In both cases a
read returns the first message of the frames or fails, and leaves the rest of them.
-/

open Base Std

namespace Numax

/-- The bytes are the frames of the messages. -/
inductive Frames (codec : PayloadCodec) : List Message → Bytes → Prop
  | nil : Frames codec [] []
  | cons {message : Message} {format : SerializationFormat} {frame : Bytes}
      {messages : List Message} {bytes : Bytes}
      (encoded : message.toBytesWithFormat codec format = .ok frame)
      (rest : Frames codec messages bytes) : Frames codec (message :: messages) (frame ++ bytes)

variable {message : Message} {format : SerializationFormat} {frame : Bytes}

namespace Frames

variable {codec : PayloadCodec} {messages : List Message} {whole bytes rest : Bytes}

theorem write (h : Frames codec messages bytes)
    (encoded : message.toBytesWithFormat codec format = .ok frame) :
    Frames codec (messages ++ [message]) (bytes ++ frame) := by
  induction h with
  | nil =>
    have hone : Frames codec [message] (frame ++ []) := .cons encoded .nil
    rwa [List.append_nil] at hone
  | cons hfirst _ ih =>
    rw [List.append_assoc]
    exact .cons hfirst ih

/-- A frame is read as its message or refused. -/
theorem read_frame (encoded : message.toBytesWithFormat codec format = .ok frame)
    (maxMessageSize : Nat) (after : Bytes) {m : SerializationFormat × Message} {rest : Bytes}
    (h : readMessageWithFormat codec maxMessageSize (frame ++ after) = (.ok m, rest)) :
    m = (format, message) ∧ rest = after := by
  obtain ⟨payload, hpayload, hlen, rfl⟩ := toBytesWithFormat_eq_ok.mp encoded
  obtain ⟨hm, hrest, -⟩ := readMessageWithFormat_frame_eq_ok hpayload hlen h
  exact ⟨hm, hrest⟩

/-- A read takes the first message, also where the frames are cut off. -/
theorem read (h : Frames codec messages whole) (hpart : bytes <+: whole) {maxMessageSize : Nat}
    (hread : readMessageWithFormat codec maxMessageSize bytes = (.ok (format, message), rest)) :
    ∃ messages' whole', messages = message :: messages' ∧ Frames codec messages' whole' ∧
      rest <+: whole' ∧ (bytes = whole → rest = whole') := by
  obtain ⟨later, rfl⟩ := hpart
  have hall := readMessageWithFormat_extend later hread
  generalize hbytes : bytes ++ later = whole at h hall
  cases h with
  | nil =>
    cases (List.append_eq_nil_iff.mp hbytes).1
    cases hread
  | @cons first _ frame messages' whole' encoded hrest =>
    obtain ⟨hm, hrest_eq⟩ := read_frame encoded maxMessageSize whole' hall
    cases hm
    refine ⟨messages', whole', rfl, hrest, ⟨later, hrest_eq⟩, ?_⟩
    intro hwhole
    have hlater : later = [] := List.append_right_eq_self.mp (hbytes.trans hwhole.symm)
    rwa [hlater, List.append_nil] at hrest_eq

end Frames

/-- A message is among those on the way. -/
def InFlight (codec : PayloadCodec) (bytes : Bytes) (message : Message) : Prop :=
  ∃ messages, Frames codec messages bytes ∧ message ∈ messages

/-- The message brings only known operations. -/
def Message.Carries (known : List Op) (message : Message) : Prop :=
  ∀ ops, message = Message.pushOps ops → ops ⊆ known

theorem Message.Carries.mono {known more : List Op} (h : message.Carries known)
    (hsub : known ⊆ more) : message.Carries more :=
  fun ops hops => List.Subset.trans (h ops hops) hsub

namespace Pipe

variable {ι : Type} {codec : PayloadCodec} {known : List Op} {p : Pipe ι}

/-- The pipe holds frames, or a first part of them if it is broken, and their messages
bring only known operations. -/
def OnWire (codec : PayloadCodec) (known : List Op) (p : Pipe ι) : Prop :=
  ∃ messages whole, Frames codec messages whole ∧ (∀ message ∈ messages, message.Carries known) ∧
    p.bytes <+: whole ∧ (p.broken = false → p.bytes = whole)

theorem OnWire.mono {more : List Op} (h : p.OnWire codec known) (hsub : known ⊆ more) :
    p.OnWire codec more := by
  obtain ⟨messages, whole, hframes, hcarries, hbytes⟩ := h
  exact ⟨messages, whole, hframes, fun m hm => (hcarries m hm).mono hsub, hbytes⟩

theorem onWire_of_empty (h : p.bytes = []) : p.OnWire codec known :=
  ⟨[], [], .nil, nofun, by rw [h], fun _ => h⟩

theorem OnWire.write (h : p.OnWire codec known)
    (encoded : message.toBytesWithFormat codec format = .ok frame)
    (hcarries : message.Carries known) : (p.write frame).OnWire codec known := by
  unfold Pipe.write
  split
  · exact h
  · next hbroken =>
      obtain ⟨messages, whole, hframes, hall, -, hwhole⟩ := h
      have hbytes := hwhole (Bool.eq_false_iff.mpr hbroken)
      refine ⟨messages ++ [message], whole ++ frame, hframes.write encoded, ?_, ?_, ?_⟩
      · intro m hm
        rcases List.mem_append.mp hm with hm | hm
        · exact hall m hm
        · cases List.mem_singleton.mp hm
          exact hcarries
      · rw [hbytes]
      · exact fun _ => congrArg (· ++ frame) hbytes

theorem OnWire.of_take (h : p.OnWire codec known) {bytes : Bytes} (hbytes : bytes <+: p.bytes)
    (reading : Bool) : ({ p with bytes, broken := true, reading } : Pipe ι).OnWire codec known := by
  obtain ⟨messages, whole, hframes, hall, hpart, -⟩ := h
  exact ⟨messages, whole, hframes, hall, hbytes.trans hpart, nofun⟩

theorem OnWire.cut (h : p.OnWire codec known) (n : Nat) : (p.cut n).OnWire codec known :=
  h.of_take ⟨p.bytes.drop n, List.take_append_drop n p.bytes⟩ p.reading

theorem OnWire.broken (h : p.OnWire codec known) (reading : Bool) :
    ({ p with broken := true, reading } : Pipe ι).OnWire codec known :=
  h.of_take (List.prefix_refl p.bytes) reading

theorem OnWire.fail (h : p.OnWire codec known)
    (encoded : message.toBytesWithFormat codec format = .ok frame)
    (hcarries : message.Carries known) (n : Nat) :
    (p.fail (frame.take n)).OnWire codec known := by
  have hwritten := h.write encoded hcarries
  unfold Pipe.fail Pipe.write at *
  split at hwritten
  · next hbroken =>
      rw [if_pos hbroken]
      exact h.broken p.reading
  · next hbroken =>
      rw [if_neg hbroken]
      -- less than the frame that would have been written
      have hless : p.bytes ++ frame.take n <+: p.bytes ++ frame :=
        ⟨frame.drop n, by rw [List.append_assoc, List.take_append_drop]⟩
      exact hwritten.of_take hless p.reading

/-- A read leaves a pipe with one message less, and the message brings known operations. -/
theorem OnWire.read (h : p.OnWire codec known) {maxMessageSize : Nat} {bytes : Bytes}
    (hread : readMessageWithFormat codec maxMessageSize p.bytes = (.ok (format, message), bytes)) :
    message.Carries known ∧ ({ p with bytes } : Pipe ι).OnWire codec known := by
  obtain ⟨messages, whole, hframes, hall, hpart, hwhole⟩ := h
  obtain ⟨messages', whole', rfl, hframes', hpart', hwhole'⟩ := hframes.read hpart hread
  exact ⟨hall message List.mem_cons_self, messages', whole', hframes',
    fun m hm => hall m (List.mem_cons_of_mem _ hm), hpart', fun hb => hwhole' (hwhole hb)⟩

end Pipe

end Numax
