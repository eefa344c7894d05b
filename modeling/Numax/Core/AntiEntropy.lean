import Numax.Base.Duration
import Numax.Base.Transition

/-!
# The anti-entropy loop

The loop that asks every connected peer for its operations, once in an interval
(`spawn_anti_entropy_loop` of `nx-core/src/sync_manager/replication.rs`). It plans a
deadline, sleeps until then, sends the pulls and plans again. A round may outlast several
deadlines. The next one then keeps the phase of the first and comes after the present, so
that no round follows another at once to make up for those that were missed.

What the loop meets is part of the events: what the clock reads, which peers are connected
and whether a pull can be sent to them, and the shutdown. The errors it counts are those
it adds to the metric.
-/

open Base

namespace Numax

def normalizeAntiEntropyInterval (interval : Duration) : Duration :=
  interval.max (.fromMillis 1)

variable {clock : Clock}

/-- The next deadline; `none` where the clock ends before it. -/
def checkedAntiEntropyDeadline (previous : Instant clock) (interval : Duration)
    (now : Instant clock) : Except Panic (Option (Instant clock)) :=
  let interval := normalizeAntiEntropyInterval interval
  match previous.checkedAdd interval with
  | none => .ok none
  | some next =>
    if now.nanos < next.nanos then .ok (some next)
    else do
      -- keep the phase while skipping the ticks that were missed
      let remainder ← rem (now.durationSince previous).asNanos interval.asNanos
      let remainder ← Duration.new (UInt64.ofNat (remainder / 1000000000))
        (UInt32.ofNat (remainder % 1000000000))
      let wait ← interval.sub remainder
      return now.checkedAdd wait

/-! ## The loop -/

/-- A pull, and whether it could be sent. -/
structure Pull where
  peer : String
  sent : Bool
deriving DecidableEq, Repr

inductive AntiEntropyPhase (clock : Clock) where
  | planning (previous : Instant clock)
  | waiting (deadline : Instant clock)
  | terminated
  | panicked (panic : Panic)

structure AntiEntropyLoop (clock : Clock) where
  time : Instant clock
  phase : AntiEntropyPhase clock
  syncErrors : Nat

/-- The clock reads `now` where the loop plans, where a round is over, or where shutdown
ends it after some of the pulls, and `woke` where it starts to pull. -/
inductive AntiEntropyEvent (clock : Clock) where
  | plan (now : Instant clock)
  | round (woke now : Instant clock) (pulls : List Pull)
  | shutdown (woke now : Instant clock) (pulls : List Pull)

/-- What is seen of the loop: a deadline and when it was planned, or a pull, the deadline it
was sent for and when the sleep until then was over. -/
inductive AntiEntropyEntry (clock : Clock) where
  | planned (now deadline : Instant clock)
  | pulled (deadline woke : Instant clock) (pull : Pull)

def AntiEntropyEvent.now : AntiEntropyEvent clock → Instant clock
  | .plan now => now
  | .round _ now _ => now
  | .shutdown _ now _ => now

namespace AntiEntropyLoop

/-- The loop starts with the first reading of the clock. -/
def start (now : Instant clock) : AntiEntropyLoop clock := ⟨now, .planning now, 0⟩

def failed (pulls : List Pull) : Nat := (pulls.filter fun pull => !pull.sent).length

/-- The loop after it has planned. -/
def planned (interval : Duration) (s : AntiEntropyLoop clock) (previous now : Instant clock) :
    AntiEntropyLoop clock :=
  match checkedAntiEntropyDeadline previous (normalizeAntiEntropyInterval interval) now with
  | .error panic => ⟨now, .panicked panic, s.syncErrors⟩
  | .ok none => ⟨now, .terminated, s.syncErrors + 1⟩
  | .ok (some deadline) => ⟨now, .waiting deadline, s.syncErrors⟩

/-- No clock goes back, and `sleep_until` never returns early. -/
def step (interval : Duration) (s : AntiEntropyLoop clock) (event : AntiEntropyEvent clock) :
    Option (AntiEntropyLoop clock) :=
  if event.now.nanos < s.time.nanos then none
  else match s.phase, event with
    | .planning previous, .plan now => some (s.planned interval previous now)
    | .waiting deadline, .round woke now pulls =>
      if deadline.nanos ≤ woke.nanos ∧ woke.nanos ≤ now.nanos then
        some ⟨now, .planning deadline, s.syncErrors + failed pulls⟩
      else none
    | .waiting deadline, .shutdown woke now pulls =>
      if pulls = [] ∨ deadline.nanos ≤ woke.nanos ∧ woke.nanos ≤ now.nanos then
        some ⟨now, .terminated, s.syncErrors + failed pulls⟩
      else none
    | _, _ => none

/-- What is seen of a step. -/
def entries (interval : Duration) (s : AntiEntropyLoop clock) (event : AntiEntropyEvent clock) :
    List (AntiEntropyEntry clock) :=
  match s.phase, event with
  | .planning previous, .plan now =>
    match (s.planned interval previous now).phase with
    | .waiting deadline => [.planned now deadline]
    | _ => []
  | .waiting deadline, .round woke _ pulls => pulls.map (.pulled deadline woke)
  | .waiting deadline, .shutdown woke _ pulls => pulls.map (.pulled deadline woke)
  | _, _ => []

end AntiEntropyLoop

end Numax
