import Numax.Host.Run
import Numax.Core.JsonForm

/-!
# The deduplication window

Whatever batches a node accepts, its seen set is the window of the last
acceptances (`Remembers`). A batch plans its evictions beforehand, from the old
order and from the batch itself; `SeenOps::insert` evicts one id at a time. The
second is the first on batches of one (`insert_eq_batch`), so both keep the same
window.
-/

open Base Std

namespace Numax

namespace SeenOps

/-! ## One id at a time -/

/-- The loop drops what is too much at the front. -/
theorem evictLoop_eq (limit : Nat) (ids : OrdSet String) (order evicted : List String) :
    evictLoop limit ids order evicted =
      ((order.take (order.length - limit)).foldl (fun ids id => ids.erase id) ids,
        order.drop (order.length - limit), evicted ++ order.take (order.length - limit)) := by
  induction order generalizing ids evicted with
  | nil => simp [evictLoop]
  | cons front rest ih =>
    rw [evictLoop]
    split
    · next hlong =>
        have hsub : (front :: rest).length - limit = rest.length - limit + 1 := by
          rw [List.length_cons] at hlong ⊢
          omega
        rw [ih, hsub]
        simp
    · next hshort =>
        rw [Nat.sub_eq_zero_of_le (Nat.le_of_not_gt hshort)]
        simp

/-- A new id is a batch of one. -/
theorem insert_eq_batch {seen : SeenOps} {id : String} (hnew : id ∉ seen.ids) :
    (seen.insert id).1 = applySeenInsertions seen [id] (planSeenEvictions seen [id]) := by
  have hcontains : ¬ seen.ids.contains id = true := by rwa [ExtTreeSet.contains_iff_mem]
  rw [insert, if_neg hcontains, applySeenInsertions_eq, planSeenEvictions_eq]
  simp only [evictLoop_eq, List.length_append, List.length_singleton, List.length_take,
    List.foldl_cons, List.foldl_nil]
  rw [min_eq_left (Nat.sub_le _ _)]

/-! ## The window of all acceptances -/

/-- The seen set after accepting `accepted`, in this order. -/
structure Remembers (accepted : List String) (seen : SeenOps) : Prop where
  valid : seen.Valid
  order : seen.order = accepted.rtake seen.limit

theorem new_remembers (limit : Nat) : Remembers [] (new limit) where
  valid := ⟨by intro id; simp [new], by simp [new], by simp [new]⟩
  order := by simp [new, List.rtake]

/-- A batch of unseen ids moves the window. -/
theorem Remembers.batch {accepted : List String} {seen : SeenOps} (h : Remembers accepted seen)
    {ids : List String} (hnodup : (seen.order ++ ids).Nodup) :
    Remembers (accepted ++ ids) (applySeenInsertions seen ids (planSeenEvictions seen ids)) := by
  have hlimit : (applySeenInsertions seen ids (planSeenEvictions seen ids)).limit = seen.limit := by
    rw [applySeenInsertions_eq]
  have horder := applySeenInsertions_order seen ids
  refine ⟨⟨applySeenInsertions_consistent h.valid.consistent hnodup, ?_, ?_⟩, ?_⟩
  · rw [horder]
    exact (rtake_suffix _ _).sublist.nodup hnodup
  · rw [horder, hlimit, length_rtake]
    exact min_le_left _ _
  · rw [horder, hlimit, h.order, rtake_append_rtake]

/-- Unseen ids inserted one at a time move it to the same place. -/
theorem Remembers.insertAll {accepted : List String} {seen : SeenOps}
    (h : Remembers accepted seen) {ids : List String} (hnodup : (seen.order ++ ids).Nodup) :
    Remembers (accepted ++ ids) (ids.foldl (fun seen id => (seen.insert id).1) seen) ∧
      (ids.foldl (fun seen id => (seen.insert id).1) seen).limit = seen.limit := by
  induction ids generalizing accepted seen with
  | nil => exact ⟨by simpa using h, rfl⟩
  | cons id rest ih =>
    have hfront : (seen.order ++ [id]).Nodup := by
      refine hnodup.sublist (List.Sublist.append_left ?_ _)
      exact List.singleton_sublist.mpr List.mem_cons_self
    have hnew : id ∉ seen.ids := by
      rw [h.valid.consistent]
      exact fun hmem => (List.nodup_append.mp hfront).2.2 id hmem id List.mem_cons_self rfl
    have hstep := h.batch hfront
    -- the moved window is part of the old order and the inserted id
    have hrest : ((seen.insert id).1.order ++ rest).Nodup := by
      rw [insert_eq_batch hnew, applySeenInsertions_order]
      refine hnodup.sublist ?_
      rw [List.append_cons seen.order id rest]
      exact (rtake_suffix _ _).sublist.append_right rest
    rw [← insert_eq_batch hnew] at hstep
    obtain ⟨hall, hlimit⟩ := ih hstep hrest
    rw [List.append_assoc] at hall
    refine ⟨hall, hlimit.trans ?_⟩
    rw [insert_eq_batch hnew, applySeenInsertions_eq]

end SeenOps

namespace Node

open SeenOps

variable {serde : Serde} {n : Node}

/-- What an event does to the seen set. -/
theorem handle_seenOps (event : Event) :
    (n.accepts serde event = [] ∧ (n.handle serde event).sync.seenOps = n.sync.seenOps) ∨
      ∃ ops, n.accepts serde event = freshOps n.sync.seenOps ops ∧
        (n.handle serde event).sync.seenOps =
          applySeenInsertions n.sync.seenOps ((freshOps n.sync.seenOps ops).map Op.id)
            (planSeenEvictions n.sync.seenOps ((freshOps n.sync.seenOps ops).map Op.id)) := by
  have houtcome : HandleOutcome serde n _ _ := handle_outcome event
  generalize n.accepts serde event = new at houtcome ⊢
  generalize n.handle serde event = m at houtcome ⊢
  cases houtcome with
  | queue opQueue => exact .inl ⟨rfl, rfl⟩
  | write op opQueue => exact .inl ⟨rfl, rfl⟩
  | batch ops updates => exact .inr ⟨ops, rfl, rfl⟩

/-- The accepted ids of an event are unseen and distinct. -/
theorem nodup_order_accepts (hvalid : n.sync.seenOps.Valid) (event : Event) :
    (n.sync.seenOps.order ++ (n.accepts serde event).map Op.id).Nodup := by
  obtain ⟨hnone, -⟩ | ⟨ops, hsome, -⟩ := @handle_seenOps serde n event
  · rw [hnone]
    simpa using hvalid.nodup
  · rw [hsome]
    exact hvalid.nodup_append ops

/-- One event moves the window of the node and a window fed one id at a time alike. -/
theorem remembers_handle {accepted : List String} {single : SeenOps}
    (h : Remembers accepted n.sync.seenOps) (hsingle : Remembers accepted single)
    (hlimit : single.limit = n.sync.seenOps.limit) (event : Event) :
    let ids := (n.accepts serde event).map Op.id
    Remembers (accepted ++ ids) (n.handle serde event).sync.seenOps ∧
      (n.handle serde event).sync.seenOps.limit = n.sync.seenOps.limit ∧
      Remembers (accepted ++ ids) (ids.foldl (fun seen id => (seen.insert id).1) single) ∧
      (ids.foldl (fun seen id => (seen.insert id).1) single).limit = single.limit := by
  have hnodup := @nodup_order_accepts serde n h.valid event
  have hsame : single.order = n.sync.seenOps.order := by rw [hsingle.order, h.order, hlimit]
  have hone := hsingle.insertAll (hsame ▸ hnodup)
  obtain ⟨hnone, hseen⟩ | ⟨ops, hsome, hseen⟩ := @handle_seenOps serde n event
  · refine ⟨?_, by rw [hseen], hone⟩
    rw [hseen, hnone]
    simpa using h
  · refine ⟨?_, by rw [hseen, applySeenInsertions_eq], hone⟩
    rw [hseen, hsome]
    exact h.batch (hsome ▸ hnodup)

theorem remembers_run (events : List Event) {accepted : List String} {single : SeenOps}
    (h : Remembers accepted n.sync.seenOps) (hsingle : Remembers accepted single)
    (hlimit : single.limit = n.sync.seenOps.limit) :
    let ids := (n.acceptedIn serde events).map Op.id
    Remembers (accepted ++ ids) (n.run serde events).sync.seenOps ∧
      (n.run serde events).sync.seenOps.limit = n.sync.seenOps.limit ∧
      Remembers (accepted ++ ids) (ids.foldl (fun seen id => (seen.insert id).1) single) ∧
      (ids.foldl (fun seen id => (seen.insert id).1) single).limit = single.limit := by
  induction events generalizing n accepted single with
  | nil => exact ⟨by simpa [acceptedIn, run] using h, rfl, by simpa [acceptedIn] using hsingle, rfl⟩
  | cons event rest ih =>
    obtain ⟨hnode, hnodeLimit, hone, honeLimit⟩ :=
      @remembers_handle serde n _ _ h hsingle hlimit event
    obtain ⟨hnode', hnodeLimit', hone', honeLimit'⟩ :=
      ih hnode hone (honeLimit.trans (hlimit.trans hnodeLimit.symm))
    rw [List.append_assoc, ← List.map_append] at hnode' hone'
    rw [← List.foldl_append, ← List.map_append] at hone' honeLimit'
    exact ⟨hnode', hnodeLimit'.trans hnodeLimit, hone', honeLimit'.trans honeLimit⟩

/-- The last acceptance of an id, with fewer than `limit` others after it, is in
the window. -/
theorem mem_rtake_of_recent {before after : List String} {id : String} {limit : Nat}
    (h : after.length < limit) : id ∈ (before ++ id :: after).rtake limit := by
  rw [rtake_append_of_length_le (by rw [List.length_cons]; omega)]
  exact List.mem_append_right _ List.mem_cons_self

/-- For every run of a node with an empty window of `limit` ids, whatever the
batches: the window is the last `limit` acceptances, the next event accepts
nothing twice and nothing out of the window, and the same acceptances one at a
time give the same window. -/
theorem seenOps_window_exact (serde : Serde) {limit : Nat} (hlimit : 1 ≤ limit) {n : Node}
    (hstart : n.sync.seenOps = SeenOps.new limit) (events : List Event) :
    let accepted := (n.acceptedIn serde events).map Op.id
    let m := n.run serde events
    (∀ id, id ∈ m.sync.seenOps.ids ↔ id ∈ m.sync.seenOps.order) ∧
    m.sync.seenOps.order.Nodup ∧
    m.sync.seenOps.order = accepted.drop (accepted.length - min limit accepted.length) ∧
    (∀ event, ((m.accepts serde event).map Op.id).Nodup ∧
      ∀ id before after, accepted = before ++ id :: after → after.length < limit →
        id ∉ (m.accepts serde event).map Op.id) ∧
    (accepted.foldl (fun seen id => (seen.insert id).1) (SeenOps.new limit)).order =
      m.sync.seenOps.order := by
  intro accepted m
  have hnorm : (SeenOps.new limit).limit = limit := max_eq_left hlimit
  have hnew := new_remembers limit
  obtain ⟨hwindow, hnode, hone, honeLimit⟩ :=
    @remembers_run serde n events [] (SeenOps.new limit) (hstart ▸ hnew) hnew (by rw [hstart])
  rw [hstart, hnorm] at hnode
  rw [hnorm] at honeLimit
  have horder : m.sync.seenOps.order = accepted.rtake limit := by
    have := hwindow.order
    rwa [hnode, List.nil_append] at this
  refine ⟨hwindow.valid.consistent, hwindow.valid.nodup, ?_, ?_, ?_⟩
  · rw [horder, List.rtake]
    congr 1
    omega
  · intro event
    have hnodup : (m.sync.seenOps.order ++ (m.accepts serde event).map Op.id).Nodup :=
      nodup_order_accepts hwindow.valid event
    obtain ⟨-, hids, hapart⟩ := List.nodup_append.mp hnodup
    refine ⟨hids, fun id before after haccepted hrecent hagain => ?_⟩
    have hmem : id ∈ m.sync.seenOps.order := by
      rw [horder, haccepted]
      exact mem_rtake_of_recent hrecent
    exact hapart id hmem id hagain rfl
  · -- one at a time, they fill a window of their own in the same way
    have := hone.order
    rw [honeLimit, List.nil_append] at this
    rw [horder]
    exact this

/-- Batches of three, with a repetition, and of one, at a window of two. -/
def repeatedBatches : List Event :=
  [.applyRemote none [.gcounterIncrement "a" "peer" "k" 3, .gcounterIncrement "b" "peer" "k" 4,
    .gcounterIncrement "a" "peer" "k" 3, .gcounterIncrement "c" "peer" "k" 5],
   .remember none [.gcounterIncrement "a" "node" "k" 1]]

theorem seenOps_window_repeated :
    ((start "node" 8 2 2).acceptedIn jsonSerde repeatedBatches).map Op.id = ["a", "b", "c", "a"] ∧
      ((start "node" 8 2 2).run jsonSerde repeatedBatches).sync.seenOps.order = ["c", "a"] ∧
      "c" ∉ (((start "node" 8 2 2).run jsonSerde repeatedBatches).accepts jsonSerde
        (.applyRemote none [.gcounterIncrement "c" "peer" "k" 5])).map Op.id := by
  have haccepted : ((start "node" 8 2 2).acceptedIn jsonSerde repeatedBatches).map Op.id =
      ["a", "b", "c", "a"] := by decide +kernel
  have hexact := @seenOps_window_exact jsonSerde 2 (by decide) (start "node" 8 2 2) rfl
    repeatedBatches
  refine ⟨haccepted, ?_, ?_⟩
  · rw [hexact.2.2.1, haccepted]
    rfl
  · exact (hexact.2.2.2.1 _).2 "c" ["a", "b"] ["a"] haccepted (by decide)

end Node

end Numax
