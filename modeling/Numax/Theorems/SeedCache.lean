import Numax.Theorems.BootstrapSeed
import Numax.Base.Transition

/-!
# The cache of a bootstrap seed

The cache has its nodes twice, in a map and in a list that says who came first. Along
every history of a seed the two agree. A node that is admitted goes to the end of the
list, and one that is refreshed keeps its place; one that expires or withdraws loses it.
So the list is in the order in which the nodes were admitted since they were last absent
(`CacheOk`). An exchange looks at the cache twice, after pruning it and after noting the
requester, so a node that comes back after its time has been absent in between.

The times of the exchanges are not restricted.
-/

open Base Std

namespace Numax

variable {v6 : Ipv6Text}

namespace BootstrapServer

variable (platform : Platform)

/-- The caches that a seed goes through in a step. -/
def visits (server : BootstrapServer v6) : SeedStep → List BootstrapCache
  | .exchange now requester endpoint requested =>
    [pruneExpired server.cache now,
      (server.exchange platform now requester endpoint requested).1.cache]
  | .clear => [server.clear.cache]
  | .announce _ | .withdraw => []

/-- The caches that a seed has had. -/
def history (config : BootstrapServerConfig v6) (steps : List SeedStep) : List BootstrapCache :=
  (new config).cache :: outputs (fun server step => some (server.step platform step))
    (visits platform) (new config) steps

end BootstrapServer

/-- When a node came into the cache, in which it has been since. -/
def admission (history : List BootstrapCache) (nodeId : NodeId) : Nat :=
  since (fun cache => cache.byNode.contains nodeId) history

structure CacheOk (config : BootstrapServerConfig v6) (history : List BootstrapCache)
    (cache : BootstrapCache) : Prop where
  latest : history.getLast? = some cache
  nodup : cache.order.Nodup
  keys : ∀ nodeId, nodeId ∈ cache.order ↔ nodeId ∈ cache.byNode
  bounded : cache.byNode.size ≤ config.maxCachedCandidates
  ranked : cache.order.Pairwise fun first second =>
    admission history first < admission history second

namespace CacheOk

variable {config : BootstrapServerConfig v6} {history : List BootstrapCache}
  {cache after : BootstrapCache} (h : CacheOk config history cache)

include h

/-- Nodes leave the cache, or none does. -/
theorem keep (hsub : after.order.Sublist cache.order)
    (hkeys : ∀ nodeId, nodeId ∈ after.order ↔ nodeId ∈ after.byNode)
    (hbounded : after.byNode.size ≤ config.maxCachedCandidates) :
    CacheOk config (history ++ [after]) after where
  latest := List.getLast?_concat
  nodup := h.nodup.sublist hsub
  keys := hkeys
  bounded := hbounded
  ranked := by
    have hsame : ∀ nodeId ∈ after.order,
        admission (history ++ [after]) nodeId = admission history nodeId := fun nodeId hmem =>
      since_append_of_present ((hkeys nodeId).mp hmem)
    refine (h.ranked.sublist hsub).imp_of_mem fun {first second} hfirst hsecond hlt => ?_
    rwa [hsame first hfirst, hsame second hsecond]

/-- A node is put at the end. -/
theorem append {nodeId : NodeId} {candidate : CachedCandidate} (hnew : nodeId ∉ cache.byNode)
    (hroom : cache.byNode.size < config.maxCachedCandidates) :
    CacheOk config
      (history ++ [⟨cache.byNode.insert nodeId candidate, cache.order ++ [nodeId]⟩])
      ⟨cache.byNode.insert nodeId candidate, cache.order ++ [nodeId]⟩ := by
  let next : BootstrapCache := ⟨cache.byNode.insert nodeId candidate, cache.order ++ [nodeId]⟩
  have hmem : ∀ other, other ∈ next.byNode ↔ other ∈ cache.byNode ∨ other = nodeId := by
    intro other
    change other ∈ cache.byNode.insert nodeId candidate ↔ _
    rw [ExtTreeMap.mem_insert, LawfulEqOrd.compare_eq_iff_eq, or_comm, eq_comm]
  have hsame : ∀ other ∈ next.byNode,
      admission (history ++ [next]) other = admission history other :=
    fun other hother => since_append_of_present hother
  have hnone : cache.byNode[nodeId]? = none := by
    rw [← Option.not_isSome_iff_eq_none, ← OrdMap.contains_eq_get]
    exact hnew
  have hfresh : nodeId ∉ cache.order := fun hold => hnew ((h.keys nodeId).mp hold)
  refine ⟨List.getLast?_concat, ?_, ?_, ?_, ?_⟩
  · change (cache.order ++ [nodeId]).Nodup
    rw [← List.concat_eq_append]
    exact h.nodup.concat hfresh
  · intro other
    rw [hmem, ← h.keys, List.mem_append, List.mem_singleton]
  · change (cache.byNode.insert nodeId candidate).size ≤ _
    rw [OrdMap.size_insert_of_none candidate hnone]
    exact hroom
  · change (cache.order ++ [nodeId]).Pairwise _
    rw [List.pairwise_append]
    refine ⟨?_, List.pairwise_singleton _ _, ?_⟩
    · refine h.ranked.imp_of_mem fun {first second} hfirst hsecond hlt => ?_
      rwa [hsame first ((hmem first).mpr (.inl ((h.keys first).mp hfirst))),
        hsame second ((hmem second).mpr (.inl ((h.keys second).mp hsecond)))]
    · intro other hother last hlast
      have hpresent := (h.keys other).mp hother
      rw [List.mem_singleton.mp hlast, hsame nodeId ((hmem nodeId).mpr (.inr rfl)),
        hsame other ((hmem other).mpr (.inl hpresent))]
      -- whoever was there has been admitted before
      have hout : admission history nodeId = history.length :=
        since_of_absent h.latest (Bool.eq_false_iff.mpr hnew)
      rw [hout]
      exact since_lt_of_present h.latest hpresent

theorem prune (now : Nat) :
    CacheOk config (history ++ [pruneExpired cache now]) (pruneExpired cache now) := by
  have hsubset : ∀ nodeId, nodeId ∈ (pruneExpired cache now).byNode → nodeId ∈ cache.byNode := by
    intro nodeId hmem
    rw [ExtTreeMap.mem_iff_isSome_getElem?, Option.isSome_iff_exists] at hmem ⊢
    obtain ⟨candidate, hcandidate⟩ := hmem
    exact ⟨candidate, pruneExpired_cached hcandidate⟩
  refine h.keep List.filter_sublist (fun nodeId => ?_) ?_
  · change nodeId ∈ cache.order.filter _ ↔ _
    rw [List.mem_filter, h.keys]
    exact ⟨And.right, fun hmem => ⟨hsubset nodeId hmem, hmem⟩⟩
  · exact (OrdMap.size_le_of_subset hsubset).trans h.bounded

/-- A node that is known keeps its place. -/
theorem refresh {nodeId : NodeId} {candidate : CachedCandidate} (hknown : nodeId ∈ cache.byNode) :
    CacheOk config (history ++ [{ cache with byNode := cache.byNode.insert nodeId candidate }])
      { cache with byNode := cache.byNode.insert nodeId candidate } := by
  refine h.keep (List.Sublist.refl _) (fun other => ?_) ?_
  · change _ ↔ other ∈ cache.byNode.insert nodeId candidate
    rw [h.keys, ExtTreeMap.mem_insert, LawfulEqOrd.compare_eq_iff_eq]
    constructor
    · exact .inr
    · rintro (rfl | hmem)
      · exact hknown
      · exact hmem
  · obtain ⟨old, hold⟩ := Option.isSome_iff_exists.mp
      ((OrdMap.contains_eq_get cache.byNode nodeId).symm.trans hknown)
    change (cache.byNode.insert nodeId candidate).size ≤ _
    rw [OrdMap.size_insert_of_get _ hold]
    exact h.bounded

theorem forget (nodeId : NodeId) :
    CacheOk config
      (history ++ [⟨cache.byNode.erase nodeId, cache.order.filter (· ≠ nodeId)⟩])
      ⟨cache.byNode.erase nodeId, cache.order.filter (· ≠ nodeId)⟩ := by
  have herase : ∀ other, other ∈ cache.byNode.erase nodeId ↔
      other ∈ cache.byNode ∧ other ≠ nodeId := by
    intro other
    rw [ExtTreeMap.mem_erase, ne_eq, LawfulEqOrd.compare_eq_iff_eq, and_comm, eq_comm]
  refine h.keep List.filter_sublist (fun other => ?_) ?_
  · rw [herase, List.mem_filter, h.keys, decide_eq_true_eq]
  · refine (OrdMap.size_le_of_subset fun other hmem => ?_).trans h.bounded
    exact ((herase other).mp hmem).1

theorem note (requester : NodeId) (note : Option CachedCandidate) :
    CacheOk config (history ++ [cache.note config.maxCachedCandidates requester note])
      (cache.note config.maxCachedCandidates requester note) := by
  cases note with
  | none => exact h.forget requester
  | some candidate =>
    simp only [BootstrapCache.note]
    split
    · next hknown => exact h.refresh hknown
    · next hnew =>
        split
        · next hroom => exact h.append hnew hroom
        · exact h.keep (List.Sublist.refl _) h.keys h.bounded

end CacheOk

/-! ## Histories -/

/-- The cache of a seed, along its history. -/
theorem CacheOk.step {server : BootstrapServer v6} {history : List BootstrapCache}
    (h : CacheOk server.config history server.cache) (platform : Platform) (step : SeedStep) :
    CacheOk server.config (history ++ server.visits platform step)
      (server.step platform step).cache := by
  cases step with
  | exchange now requester endpoint requested =>
    have hpruned := h.prune now
    simp only [BootstrapServer.step, BootstrapServer.visits]
    rw [← List.singleton_append, ← List.append_assoc]
    rcases exchange_cases platform server now requester endpoint requested with
      ⟨error, -, heq⟩ | ⟨note, cache, -, rfl, heq⟩
    · rw [heq]
      exact hpruned.keep (List.Sublist.refl _) hpruned.keys hpruned.bounded
    · rw [heq]
      exact hpruned.note requester note
  | announce endpoint =>
    have hcache : (server.step platform (.announce endpoint)).cache = server.cache := by
      simp only [BootstrapServer.step, BootstrapServer.announce]
      cases canonicalizeAdvertisedEndpoint v6 endpoint <;> rfl
    rw [BootstrapServer.visits, List.append_nil, hcache]
    exact h
  | withdraw =>
    rw [BootstrapServer.visits, List.append_nil]
    exact h
  | clear =>
    refine h.keep (List.nil_sublist _) (fun nodeId => ?_) (Nat.zero_le _)
    simp [BootstrapServer.clear]

theorem runSteps_eq_run (platform : Platform) (server : BootstrapServer v6)
    (steps : List SeedStep) :
    runSteps (fun server step => some (server.step platform step)) server steps =
      some (server.run platform steps) := by
  induction steps generalizing server with
  | nil => rfl
  | cons step steps ih => exact ih _

theorem history_append (platform : Platform) (config : BootstrapServerConfig v6)
    (steps : List SeedStep) (step : SeedStep) :
    BootstrapServer.history platform config (steps ++ [step]) =
      BootstrapServer.history platform config steps ++
        ((BootstrapServer.new config).run platform steps).visits platform step := by
  rw [BootstrapServer.history, outputs_append (runSteps_eq_run platform _ steps), outputs_cons rfl,
    outputs, List.append_nil, BootstrapServer.history, List.cons_append]

theorem cacheOk_run (platform : Platform) (config : BootstrapServerConfig v6)
    (steps : List SeedStep) :
    CacheOk config (BootstrapServer.history platform config steps)
      ((BootstrapServer.new config).run platform steps).cache := by
  -- the invariant is about the cache, and the configuration goes along
  have hnew : CacheOk config [(BootstrapServer.new config).cache]
      (BootstrapServer.new config).cache :=
    ⟨rfl, List.nodup_nil, fun nodeId => by simp [BootstrapServer.new], Nat.zero_le _,
      List.Pairwise.nil⟩
  have hkept := runSteps_invariant (BootstrapServer.visits platform)
    (P := fun history server => server.config = config ∧ CacheOk config history server.cache)
    (by
      rintro history server step _ ⟨rfl, h⟩ ⟨⟩
      exact ⟨config_step platform server step, h.step platform step⟩)
    _ ⟨rfl, hnew⟩ (runSteps_eq_run platform (BootstrapServer.new config) steps)
  exact hkept.2

/-! ## What was said last -/

/-- The announced endpoint after a step. -/
def SeedStep.announced (v6 : Ipv6Text) (endpoint : Option String) : SeedStep → Option String
  | .announce given => (canonicalizeAdvertisedEndpoint v6 given).toOption.or endpoint
  | .withdraw | .clear => none
  | .exchange .. => endpoint

/-- The record of a node after a step, as far as the cache has one. An exchange that is
refused leaves it as it is. -/
def SeedStep.noted (platform : Platform) (config : BootstrapServerConfig v6) (nodeId : NodeId)
    (record : Option CachedCandidate) : SeedStep → Option CachedCandidate
  | .exchange now requester endpoint _ =>
    match BootstrapServer.requesterNote platform config now endpoint with
    | .error _ => record
    | .ok note => if requester = nodeId then note else record
  | .clear => none
  | .announce _ | .withdraw => record

section Last

variable {platform : Platform} {nodeId : NodeId} {record : Option CachedCandidate}
  {candidate : CachedCandidate}

theorem said_step (server : BootstrapServer v6) (step : SeedStep)
    (hrecord : ∀ candidate, server.cache.byNode[nodeId]? = some candidate →
      record = some candidate) :
    (server.step platform step).advertisedEndpoint =
        step.announced v6 server.advertisedEndpoint ∧
      ∀ candidate, (server.step platform step).cache.byNode[nodeId]? = some candidate →
        step.noted platform server.config nodeId record = some candidate := by
  cases step with
  | exchange now requester endpoint requested =>
    simp only [BootstrapServer.step, SeedStep.noted]
    rcases exchange_cases platform server now requester endpoint requested with
      ⟨error, hnote, heq⟩ | ⟨note, cache, hnote, rfl, heq⟩ <;> rw [heq, hnote] <;>
      refine ⟨rfl, fun candidate hget => ?_⟩
    · exact hrecord candidate (pruneExpired_cached hget)
    · rcases get_note hget with ⟨hother, hold⟩ | ⟨hsame, rfl⟩
      · exact (if_neg hother).trans (hrecord candidate (pruneExpired_cached hold))
      · exact if_pos hsame
  | announce endpoint =>
    simp only [BootstrapServer.step, BootstrapServer.announce, SeedStep.announced]
    cases canonicalizeAdvertisedEndpoint v6 endpoint <;> exact ⟨rfl, hrecord⟩
  | withdraw => exact ⟨rfl, hrecord⟩
  | clear =>
    refine ⟨rfl, fun candidate hget => ?_⟩
    simp [BootstrapServer.step, BootstrapServer.clear] at hget

theorem said_run (server : BootstrapServer v6) (steps : List SeedStep)
    (hrecord : ∀ candidate, server.cache.byNode[nodeId]? = some candidate →
      record = some candidate) :
    (server.run platform steps).advertisedEndpoint =
        steps.foldl (SeedStep.announced v6) server.advertisedEndpoint ∧
      ∀ candidate, (server.run platform steps).cache.byNode[nodeId]? = some candidate →
        steps.foldl (SeedStep.noted platform server.config nodeId) record = some candidate := by
  induction steps generalizing server record with
  | nil => exact ⟨rfl, hrecord⟩
  | cons step steps ih =>
    obtain ⟨hannounced, hnoted⟩ := @said_step v6 platform nodeId record server step hrecord
    have hrest := ih (server.step platform step) hnoted
    rw [hannounced, config_step] at hrest
    exact hrest

end Last

/-! ## Answers -/

/-- The node has the endpoint, which has not expired, and of the nodes that have it, the
requester apart, it was admitted first. -/
structure Suggests (history : List BootstrapCache) (cache : BootstrapCache) (now : Nat)
    (requester nodeId : NodeId) (endpoint : String) : Prop where
  other : nodeId ≠ requester
  live : ∃ candidate, cache.byNode[nodeId]? = some candidate ∧ candidate.endpoint = endpoint ∧
    now < candidate.expiresAt
  first : ∀ (second : NodeId) (candidate : CachedCandidate), second ≠ requester →
    cache.byNode[second]? = some candidate → candidate.endpoint = endpoint →
    admission history nodeId ≤ admission history second

structure AnswerOk (history : List BootstrapCache) (server : BootstrapServer v6) (now : Nat)
    (requester : NodeId) (limit : Nat) (answer : List String) : Prop where
  length_le : answer.length ≤ limit
  nodup : answer.Nodup
  listed : ∃ nodes cached,
    answer = (if 0 < limit then server.advertisedEndpoint.toList else []) ++ cached ∧
    List.Forall₂ (Suggests history server.cache now requester) nodes cached ∧
    nodes.Pairwise fun first second => admission history first < admission history second

theorem availableEntries_isSome (advertised : Option String) (cache : BootstrapCache)
    (requester : NodeId) :
    (BootstrapServer.availableEntries advertised cache requester).isSome = true := by
  have hfits : (if cache.byNode.contains requester then 1 else 0) ≤ cache.byNode.size := by
    split
    · next hknown =>
        rw [OrdMap.contains_eq_get, Option.isSome_iff_exists] at hknown
        obtain ⟨candidate, hget⟩ := hknown
        have := OrdMap.size_erase_of_get hget
        omega
    · exact Nat.zero_le _
  rw [BootstrapServer.availableEntries, if_pos hfits]
  rfl

/-- The nodes that expired are gone, and only the requester is noted. -/
theorem live_of_note {cache : BootstrapCache} {capacity now : Nat} {requester nodeId : NodeId}
    {note : Option CachedCandidate} {candidate : CachedCandidate} (hother : nodeId ≠ requester)
    (hget : ((pruneExpired cache now).note capacity requester note).byNode[nodeId]? =
      some candidate) : now < candidate.expiresAt := by
  rcases get_note hget with ⟨-, hold⟩ | ⟨hsame, -⟩
  · rw [pruneExpired, ExtTreeMap.getElem?_filter'] at hold
    exact of_decide_eq_true (Option.filter_eq_some_iff.mp hold).2
  · exact absurd hsame.symm hother

/-- The order of the cache is that of admission. -/
theorem CacheOk.suggests {config : BootstrapServerConfig v6} {history : List BootstrapCache}
    {cache : BootstrapCache} (h : CacheOk config history cache) {now : Nat} {requester : NodeId}
    (hlive : ∀ (nodeId : NodeId) (candidate : CachedCandidate), nodeId ≠ requester →
      cache.byNode[nodeId]? = some candidate → now < candidate.expiresAt) {nodeId : NodeId}
    {endpoint : String} (hprovides : Provides cache.byNode requester cache.order nodeId endpoint) :
    Suggests history cache now requester nodeId endpoint := by
  obtain ⟨hother, ⟨candidate, hget, hendpoint⟩, before, after, horder, hbefore⟩ := hprovides
  refine ⟨hother, ⟨candidate, hget, hendpoint, hlive nodeId candidate hother hget⟩, ?_⟩
  intro second found hsecond hfound hsame
  have hlisted : second ∈ cache.order := by
    rw [h.keys, ExtTreeMap.mem_iff_isSome_getElem?, hfound]
    rfl
  have hranked := h.ranked
  rw [horder] at hlisted hranked
  rcases List.mem_append.mp hlisted with hearlier | hlater
  -- a node in front of it would have provided the endpoint
  · exact absurd hsame (hbefore second hearlier hsecond found hfound)
  · rcases List.mem_cons.mp hlater with rfl | hafter
    · exact Nat.le_refl _
    · have htail := (List.pairwise_append.mp hranked).2.1
      exact Nat.le_of_lt (List.rel_of_pairwise_cons htail hafter)

theorem CacheOk.answer {platform : Platform} {server : BootstrapServer v6}
    {history : List BootstrapCache} (h : CacheOk server.config history server.cache) {now : Nat}
    {requester : NodeId} {endpoint : Option String} {requested : Nat} {answer : List String}
    (hanswer : (server.exchange platform now requester endpoint requested).2 = .ok answer) :
    AnswerOk (history ++ server.visits platform (.exchange now requester endpoint requested))
      (server.exchange platform now requester endpoint requested).1 now requester
      (min (min requested server.config.maxResponseCandidates) maxBootstrapResponseCapacity)
      answer := by
  have hafter := h.step platform (.exchange now requester endpoint requested)
  generalize history ++ server.visits platform (.exchange now requester endpoint requested) =
    history' at hafter ⊢
  simp only [BootstrapServer.step] at hafter
  rcases exchange_cases platform server now requester endpoint requested with
    ⟨error, -, heq⟩ | ⟨note, cache, -, rfl, heq⟩
  · rw [heq] at hanswer
    cases hanswer
  · rw [heq] at hanswer hafter ⊢
    cases hanswer
    obtain ⟨nodes, cached, hlist, hnodup, hsub, hnodes⟩ :=
      suggestions_eq server.advertisedEndpoint _ requester
        (min (min requested server.config.maxResponseCandidates) maxBootstrapResponseCapacity)
    refine ⟨length_suggestions_le _ _ _ _, hnodup, nodes, cached, hlist, ?_,
      hafter.ranked.sublist hsub⟩
    exact hnodes.imp fun _ _ => hafter.suggests fun _ _ => live_of_note

/-- After every sequence of exchanges, announcements, withdrawals and clearings, at any
times: the two halves of the cache agree and are within the bound; the announced endpoint is
the last one that was announced and not withdrawn, and a record is what its node was last
noted with; and a further exchange reserves without underflow and answers in the order of
admission. -/
theorem seedCache_sound (platform : Platform) (config : BootstrapServerConfig v6)
    (steps : List SeedStep) (now : Nat) (requester : NodeId) (endpoint : Option String)
    (requested : Nat) :
    CacheOk config (BootstrapServer.history platform config steps)
        ((BootstrapServer.new config).run platform steps).cache ∧
      (∀ nodeId,
        ((BootstrapServer.new config).run platform steps).advertisedEndpoint =
            steps.foldl (SeedStep.announced v6) config.advertisedEndpoint ∧
          ∀ candidate,
            ((BootstrapServer.new config).run platform steps).cache.byNode[nodeId]? =
              some candidate →
            steps.foldl (SeedStep.noted platform config nodeId) none = some candidate) ∧
      let exchanged := ((BootstrapServer.new config).run platform steps).exchange platform now
        requester endpoint requested
      (BootstrapServer.availableEntries exchanged.1.advertisedEndpoint exchanged.1.cache
        requester).isSome = true ∧
      ∀ answer, exchanged.2 = .ok answer →
        AnswerOk (BootstrapServer.history platform config
            (steps ++ [.exchange now requester endpoint requested])) exchanged.1 now requester
          (min (min requested config.maxResponseCandidates) maxBootstrapResponseCapacity)
          answer := by
  have hcache := cacheOk_run platform config steps
  have hconfig : ((BootstrapServer.new config).run platform steps).config = config :=
    config_run platform (BootstrapServer.new config) steps
  have hsaid : ∀ nodeId, _ := fun nodeId =>
    @said_run v6 platform nodeId none (BootstrapServer.new config) steps
      fun candidate hnone => by simp [BootstrapServer.new] at hnone
  refine ⟨hcache, hsaid, availableEntries_isSome _ _ _, fun answer hanswer => ?_⟩
  rw [history_append]
  generalize BootstrapServer.history platform config steps = history at hcache ⊢
  generalize (BootstrapServer.new config).run platform steps = server at hcache hconfig hanswer ⊢
  cases hconfig
  exact hcache.answer hanswer

/-- Two nodes come, the first of them expires and comes back after the other. -/
def returningPeer : List SeedStep :=
  [.announce "seed.example:9000", .exchange 0 "late" (some "late.example:9000") 4,
    .exchange 5 "peer" (some "peer.example:9000") 4,
    .exchange (clusterA.candidateTtl + 1) "late" (some "late.example:9000") 4]

theorem seedCache_sound_returning :
    ∃ answer, (((BootstrapServer.new clusterA).run testPlatform returningPeer).exchange testPlatform
        (clusterA.candidateTtl + 2) "client" none 4).2 = .ok answer ∧
      answer = ["seed.example:9000", "peer.example:9000", "late.example:9000"] ∧
      AnswerOk (BootstrapServer.history testPlatform clusterA
          (returningPeer ++ [.exchange (clusterA.candidateTtl + 2) "client" none 4]))
        (((BootstrapServer.new clusterA).run testPlatform returningPeer).exchange testPlatform
          (clusterA.candidateTtl + 2) "client" none 4).1 (clusterA.candidateTtl + 2) "client"
        (min (min 4 clusterA.maxResponseCandidates) maxBootstrapResponseCapacity) answer :=
  have hanswer : (((BootstrapServer.new clusterA).run testPlatform returningPeer).exchange
      testPlatform (clusterA.candidateTtl + 2) "client" none 4).2 =
      .ok ["seed.example:9000", "peer.example:9000", "late.example:9000"] := by decide +kernel
  ⟨_, hanswer, rfl, (seedCache_sound testPlatform clusterA returningPeer _ "client" none 4).2.2.2 _
    hanswer⟩

end Numax
