import Mathlib.Data.List.Basic

/-!
# Bounded broadcast channels

A channel keeps the last `capacity` items that were sent and counts those it has
dropped. A receiver is a position. It gets the items one after the other, or learns
how many it has missed.

To the receivers a channel is the list of everything ever sent on it, of which the
front is gone (`Holds`).
-/

namespace Base

structure Channel (α : Type) where
  capacity : Nat
  dropped : Nat
  buffer : List α
deriving DecidableEq, Repr

inductive Received (α : Type) where
  | item (x : α)
  | lagged (missed : Nat)
  | empty
deriving DecidableEq, Repr

namespace Channel

variable {α : Type}

def new (capacity : Nat) : Channel α := ⟨capacity, 0, []⟩

/-- The position of the next item, where new receivers start. -/
def tail (c : Channel α) : Nat := c.dropped + c.buffer.length

def send (c : Channel α) (x : α) : Channel α :=
  if c.buffer.length < c.capacity then { c with buffer := c.buffer ++ [x] }
  else { c with dropped := c.dropped + 1, buffer := (c.buffer ++ [x]).tail }

/-- Receive at a position; a receiver that has missed items goes on with the oldest. -/
def recv (c : Channel α) (next : Nat) : Nat × Received α :=
  if next < c.dropped then (c.dropped, .lagged (c.dropped - next))
  else
    match c.buffer[next - c.dropped]? with
    | some x => (next + 1, .item x)
    | none => (next, .empty)

/-- The channel holds the end of what was sent on it. -/
structure Holds (c : Channel α) (sent : List α) : Prop where
  dropped_le : c.dropped ≤ sent.length
  buffer_eq : c.buffer = sent.drop c.dropped

variable {c : Channel α} {sent : List α}

theorem holds_new (capacity : Nat) : (new capacity : Channel α).Holds [] := ⟨Nat.le_refl _, rfl⟩

theorem Holds.tail_eq (h : c.Holds sent) : c.tail = sent.length := by
  rw [tail, h.buffer_eq, List.length_drop, Nat.add_sub_cancel' h.dropped_le]

theorem Holds.send (h : c.Holds sent) (x : α) : (c.send x).Holds (sent ++ [x]) := by
  have hbuffer : c.buffer ++ [x] = (sent ++ [x]).drop c.dropped := by
    rw [List.drop_append_of_le_length h.dropped_le, h.buffer_eq]
  have hlength : (sent ++ [x]).length = sent.length + 1 := by simp
  unfold Channel.send
  split
  · exact ⟨hlength ▸ Nat.le_succ_of_le h.dropped_le, hbuffer⟩
  · exact ⟨hlength ▸ Nat.succ_le_succ h.dropped_le, by rw [hbuffer, List.tail_drop]⟩

/-- What a receiver gets, in terms of what was sent. -/
theorem Holds.recv_of_le (h : c.Holds sent) {next : Nat} (hnext : c.dropped ≤ next) :
    c.recv next =
      match sent[next]? with
      | some x => (next + 1, .item x)
      | none => (next, .empty) := by
  rw [recv, if_neg (Nat.not_lt.mpr hnext), h.buffer_eq, List.getElem?_drop,
    Nat.add_sub_cancel' hnext]

theorem recv_item {next next' : Nat} {x : α} (h : c.recv next = (next', .item x)) :
    next' = next + 1 ∧ c.dropped ≤ next := by
  unfold recv at h
  split at h
  next => cases h
  next hdropped =>
    split at h
    · cases h
      exact ⟨rfl, Nat.not_lt.mp hdropped⟩
    · cases h

/-- A receiver that finds nothing has been through all that was sent. -/
theorem Holds.length_le_of_recv_empty (h : c.Holds sent) {next : Nat}
    (hempty : (c.recv next).2 = .empty) : sent.length ≤ next := by
  by_cases hdropped : next < c.dropped
  · rw [recv, if_pos hdropped] at hempty
    cases hempty
  · rw [h.recv_of_le (Nat.not_lt.mp hdropped)] at hempty
    cases hsent : sent[next]? with
    | none => exact List.getElem?_eq_none_iff.mp hsent
    | some x => rw [hsent] at hempty; cases hempty

end Channel

end Base
