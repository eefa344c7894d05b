import Numax.Discovery.ProviderTask

/-!
# The shared state of a provider

What the operations on the state of a provider do to its view and to whether it can be
watched. The three changes of a view are alike: nothing happens if the view is the same,
and otherwise it is published (`change_cases`), unless the revisions are used up.
-/

open Base

namespace Numax

/-- The view after a change. -/
def ProviderChange.peers : ProviderChange → List String
  | .replace peers _ => peers
  | .observe peers _ => peers
  | .observeAt peers => peers.map Prod.fst

/-- When the peer was observed; of several places the first one counts. -/
def DynamicState.observedAt (s : DynamicState) (peer : String) : Option Nat :=
  (s.peers.finIdxOf? peer).map fun index => s.observations.get (index.cast s.aligned.symm)

namespace DiscoveryWorld

variable {w : DiscoveryWorld} {peers : List String} {change : ProviderChange}

/-! ## Publications -/

theorem publish_of_exhausted (h : u64Max ≤ w.state.revision) (peers : List String)
    (observations : List Nat) (aligned : observations.length = peers.length) :
    w.publish peers observations aligned = w := if_pos h

theorem state_publish (h : w.state.revision < u64Max) (peers : List String)
    (observations : List Nat) (aligned : observations.length = peers.length) :
    (w.publish peers observations aligned).state =
      { w.state with revision := w.state.revision + 1, peers, observations, aligned } := by
  rw [publish, if_neg (Nat.not_le.mpr h)]

theorem revision_le_publish (peers : List String) (observations : List Nat)
    (aligned : observations.length = peers.length) :
    w.state.revision ≤ (w.publish peers observations aligned).state.revision := by
  by_cases h : w.state.revision < u64Max
  · rw [state_publish h]
    exact Nat.le_succ _
  · rw [publish_of_exhausted (Nat.le_of_not_lt h)]

variable (w) in
@[simp] theorem available_publish (peers : List String) (observations : List Nat)
    (aligned : observations.length = peers.length) :
    (w.publish peers observations aligned).state.available = w.state.available := by
  unfold publish
  split <;> rfl

/-! ## Changes of the view -/

variable (w) in
theorem observeAt_cases (entries : List (String × Nat)) :
    w.observeAt entries = w ∧ w.state.peers = entries.map Prod.fst ∨
      ∃ observations aligned,
        w.observeAt entries = w.publish (entries.map Prod.fst) observations aligned := by
  by_cases hsame : w.state.peers = entries.map Prod.fst ∧
      w.state.observations = entries.map Prod.snd
  · exact .inl ⟨if_pos hsame, hsame.1⟩
  · exact .inr ⟨_, _, if_neg hsame⟩

variable (w change) in
theorem change_cases :
    w.change change = w ∧ w.state.peers = change.peers ∨
      ∃ observations aligned, w.change change = w.publish change.peers observations aligned := by
  cases change with
  | replace peers clock =>
    by_cases hsame : w.state.peers = peers
    · exact .inl ⟨if_pos hsame, hsame⟩
    · exact .inr ⟨_, _, if_neg hsame⟩
  | observe peers now =>
    have hcases := observeAt_cases w (peers.map fun peer => (peer, now))
    have hfst : (peers.map fun peer => (peer, now)).map Prod.fst = peers := by
      rw [List.map_map]
      exact List.map_id peers
    simp only [hfst] at hcases
    exact hcases
  | observeAt peers => exact observeAt_cases w peers

theorem change_of_exhausted (h : u64Max ≤ w.state.revision) (change : ProviderChange) :
    w.change change = w := by
  rcases change_cases w change with ⟨hsame, -⟩ | ⟨observations, aligned, hpublish⟩
  · exact hsame
  · rw [hpublish, publish_of_exhausted h]

variable (w change) in
@[simp] theorem available_change :
    (w.change change).state.available = w.state.available := by
  rcases change_cases w change with ⟨hsame, -⟩ | ⟨observations, aligned, hpublish⟩
  · rw [hsame]
  · rw [hpublish, available_publish]

/-- A change is seen, unless it takes the last revision. -/
theorem peers_change (h : (w.change change).state.revision < u64Max) :
    (w.change change).state.peers = change.peers := by
  rcases change_cases w change with ⟨hsame, hpeers⟩ | ⟨observations, aligned, hpublish⟩
  · rwa [hsame]
  · rw [hpublish] at h ⊢
    rw [state_publish (lt_of_le_of_lt (revision_le_publish _ observations aligned) h)]

/-- A new revision is that of the change. -/
theorem peers_change_of_published
    (h : (w.change change).state.revision ≠ w.state.revision) :
    (w.change change).state.peers = change.peers := by
  rcases change_cases w change with ⟨hsame, -⟩ | ⟨observations, aligned, hpublish⟩
  · exact absurd (by rw [hsame]) h
  · rw [hpublish] at h ⊢
    by_cases hroom : w.state.revision < u64Max
    · rw [state_publish hroom]
    · rw [publish_of_exhausted (Nat.le_of_not_lt hroom)] at h
      exact absurd rfl h

theorem peers_replace {clock : Nat → Nat} (h : (w.replace peers clock).state.revision < u64Max) :
    (w.replace peers clock).state.peers = peers :=
  @peers_change w (.replace peers clock) h

theorem peers_observe {now : Nat} (h : (w.observe peers now).state.revision < u64Max) :
    (w.observe peers now).state.peers = peers :=
  @peers_change w (.observe peers now) h

/-- A replacement keeps the observation time of every peer that stays. -/
theorem observedAt_replace {clock : Nat → Nat} {peer : String} (hbefore : peer ∈ w.state.peers)
    (hafter : peer ∈ (w.replace peers clock).state.peers) :
    (w.replace peers clock).state.observedAt peer = w.state.observedAt peer := by
  unfold replace at hafter ⊢
  split
  · rfl
  · next hother =>
      rw [if_neg hother] at hafter
      by_cases hroom : w.state.revision < u64Max
      · obtain ⟨old, hold⟩ := Option.isSome_iff_exists.mp
          (List.isSome_finIdxOf?.trans (List.contains_iff_mem.mpr hbefore))
        rw [state_publish hroom] at hafter ⊢
        obtain ⟨new, hnew⟩ := Option.isSome_iff_exists.mp
          (List.isSome_finIdxOf?.trans (List.contains_iff_mem.mpr hafter))
        have hpeer : peers[(new : Nat)] = peer := (List.finIdxOf?_eq_some_iff.mp hnew).1
        simp only [DynamicState.observedAt, hnew, hold, hpeer, Option.map_some,
          List.get_eq_getElem, Fin.val_cast, List.getElem_mapIdx]
      · rw [publish_of_exhausted (Nat.le_of_not_lt hroom)]

/-! ## The end of a generation, and watches -/

theorem peers_finish (hroom : w.state.revision < u64Max) (unexpected : Bool) :
    (w.finish unexpected).state.peers = [] := by
  by_cases hempty : w.state.peers = []
  · cases unexpected <;> simp [finish, hempty]
  · have hpublish := state_publish (w := { w with state := { w.state with available := false } })
      hroom [] [] rfl
    cases unexpected <;> simp [finish, hempty, hpublish]

variable (w) in
@[simp] theorem available_finish (unexpected : Bool) :
    (w.finish unexpected).state.available = false := by
  by_cases hempty : w.state.peers = []
  · cases unexpected <;> simp [finish, hempty]
  · cases unexpected <;> simp [finish, hempty]

variable (w) in
@[simp] theorem state_liveWatch : w.liveWatch.state = w.state := by
  unfold liveWatch
  split <;> rfl

variable (w) in
@[simp] theorem state_recv (i : Nat) : (w.recv i).state = w.state := by
  unfold recv
  split <;> rfl

theorem liveWatch_of_unavailable (h : w.state.available = false) : w.liveWatch = w := by
  rw [liveWatch, if_neg (by rw [h]; exact Bool.false_ne_true)]

end DiscoveryWorld

end Numax
