import Numax.Net.Bootstrap
import Numax.Net.CanonicalEndpoint
import Numax.Store.Access

/-!
# An honest seed and its clients

What a seed suggests has been made canonical by the seed itself, but a client makes
it canonical again and refuses the whole answer over one endpoint. So a seed is
accepted as long as every endpoint it holds is its own canonical form (`SeedOk`).
An exchange or an announcement keeps this unless the endpoint is `disguised`.

The lifetime is sent in milliseconds and the client refuses zero, so a seed whose
lifetime is less than a millisecond is never accepted, although it passes
`validate_candidate_ttl`.
-/

open Base Std

namespace Numax

variable {v6 : Ipv6Text}

/-- The endpoint is its own canonical form. -/
def Stable (v6 : Ipv6Text) (endpoint : String) : Prop :=
  canonicalizeAdvertisedEndpoint v6 endpoint = .ok endpoint

theorem stable_of_canonicalize {endpoint canonical : String}
    (h : canonicalizeAdvertisedEndpoint v6 endpoint = .ok canonical)
    (hplain : disguised endpoint = false) : Stable v6 canonical := by
  rw [Stable, canonicalize_again h, hplain]
  rfl

/-! ## What a seed holds -/

/-- No step hands a disguised endpoint to the seed. -/
def SeedStep.plain : SeedStep → Bool
  | .exchange _ _ (some endpoint) _ => !disguised endpoint
  | .announce endpoint => !disguised endpoint
  | _ => true

structure SeedOk (server : BootstrapServer v6) : Prop where
  advertised : ∀ endpoint ∈ server.advertisedEndpoint, Stable v6 endpoint
  cached : ∀ (nodeId : NodeId) (candidate : CachedCandidate),
    server.cache.byNode[nodeId]? = some candidate → Stable v6 candidate.endpoint

theorem mapError_eq_ok {ε ε' α : Type} {f : ε → ε'} {x : Except ε α} {a : α}
    (h : x.mapError f = .ok a) : x = .ok a := by
  cases x with
  | error e => cases h
  | ok b =>
    cases h
    rfl

variable {config : BootstrapServerConfig v6}

/-- What the checks of a configuration establish. -/
theorem validate_ok (h : config.validate = .ok ()) :
    (∀ endpoint ∈ config.advertisedEndpoint, validateAdvertisedEndpoint v6 endpoint = .ok ()) ∧
      config.candidateTtl ≠ 0 ∧ config.candidateTtl ≤ maxBootstrapCandidateTtl := by
  obtain ⟨_, -, h⟩ := bind_eq_ok h
  obtain ⟨_, hendpoint, h⟩ := bind_eq_ok h
  obtain ⟨_, -, h⟩ := bind_eq_ok h
  obtain ⟨_, -, httl⟩ := bind_eq_ok h
  refine ⟨?_, ?_⟩
  · intro endpoint hmem
    rw [Option.mem_def.mp hmem] at hendpoint
    exact mapError_eq_ok hendpoint
  · have hvalid := mapError_eq_ok httl
    unfold validateCandidateTtl at hvalid
    split at hvalid
    · cases hvalid
    · next hrange => exact ⟨fun hzero => hrange (.inl hzero), by omega⟩

/-- The endpoint of a configuration has passed the check after it was made canonical. -/
theorem seedOk_new (h : config.validate = .ok ()) :
    SeedOk (BootstrapServer.new config) := by
  refine ⟨fun endpoint hendpoint => ?_, fun nodeId candidate hnone => ?_⟩
  · obtain ⟨given, hgiven⟩ := config.canonical endpoint hendpoint
    have hvalid := (validate_ok h).1 endpoint hendpoint
    rw [validateAdvertisedEndpoint, canonicalize_again hgiven] at hvalid
    cases hplain : disguised given with
    | false => exact stable_of_canonicalize hgiven hplain
    | true =>
      rw [hplain] at hvalid
      cases hvalid
  · simp [BootstrapServer.new] at hnone

variable {now : Nat} {candidate : CachedCandidate}

theorem pruneExpired_cached {cache : BootstrapCache} {nodeId : NodeId}
    (h : (pruneExpired cache now).byNode[nodeId]? = some candidate) :
    cache.byNode[nodeId]? = some candidate := by
  rw [pruneExpired, ExtTreeMap.getElem?_filter'] at h
  exact (Option.filter_eq_some_iff.mp h).1

/-- The records after a note: that of the requester is the note. -/
theorem get_note {cache : BootstrapCache} {capacity : Nat} {requester nodeId : NodeId}
    {note : Option CachedCandidate}
    (h : (cache.note capacity requester note).byNode[nodeId]? = some candidate) :
    requester ≠ nodeId ∧ cache.byNode[nodeId]? = some candidate ∨
      requester = nodeId ∧ note = some candidate := by
  cases note with
  | none =>
    change (cache.byNode.erase requester)[nodeId]? = _ at h
    rw [OrdMap.get_erase] at h
    exact .inl (Option.ite_none_left_eq_some.mp h)
  | some new =>
    have hinsert : (cache.byNode.insert requester new)[nodeId]? = some candidate →
        requester ≠ nodeId ∧ cache.byNode[nodeId]? = some candidate ∨
          requester = nodeId ∧ some new = some candidate := by
      intro hget
      rw [OrdMap.get_insert] at hget
      split at hget
      · next hsame => exact .inr ⟨hsame, hget⟩
      · next hother => exact .inl ⟨hother, hget⟩
    simp only [BootstrapCache.note] at h
    split at h
    · exact hinsert h
    · next hnew =>
        split at h
        · exact hinsert h
        · -- the cache is full and does not have the requester
          refine .inl ⟨?_, h⟩
          rintro rfl
          exact hnew (by rw [OrdMap.contains_eq_get, h]; rfl)

theorem requesterNote_canonical {platform : Platform} {endpoint : Option String}
    (h : BootstrapServer.requesterNote platform config now endpoint = .ok (some candidate)) :
    ∃ given, endpoint = some given ∧
      canonicalizeAdvertisedEndpoint v6 given = .ok candidate.endpoint := by
  cases endpoint with
  | none => cases h
  | some given =>
    simp only [BootstrapServer.requesterNote] at h
    split at h
    · cases h
    · next hcanonical =>
        split at h
        · cases h
        · cases h
          exact ⟨given, rfl, hcanonical⟩

/-- What an exchange answers, and what the seed holds afterwards. -/
theorem exchange_cases (platform : Platform) (server : BootstrapServer v6) (now : Nat)
    (requester : NodeId) (endpoint : Option String) (requested : Nat) :
    (∃ error, BootstrapServer.requesterNote platform server.config now endpoint = .error error ∧
        server.exchange platform now requester endpoint requested =
          ({ server with cache := pruneExpired server.cache now }, .error error)) ∨
      ∃ note cache, BootstrapServer.requesterNote platform server.config now endpoint = .ok note ∧
        cache = (pruneExpired server.cache now).note server.config.maxCachedCandidates requester
          note ∧
        server.exchange platform now requester endpoint requested =
          ({ server with cache },
            .ok (BootstrapServer.suggestions server.advertisedEndpoint cache requester
              (min (min requested server.config.maxResponseCandidates)
                maxBootstrapResponseCapacity))) := by
  rw [BootstrapServer.exchange]
  cases BootstrapServer.requesterNote platform server.config now endpoint with
  | error error => exact .inl ⟨error, rfl, rfl⟩
  | ok note => exact .inr ⟨note, _, rfl, rfl, rfl⟩

theorem SeedOk.step {server : BootstrapServer v6} (hok : SeedOk server) (platform : Platform)
    {step : SeedStep} (hplain : step.plain = true) : SeedOk (server.step platform step) := by
  cases step with
  | exchange now requester endpoint requested =>
    simp only [BootstrapServer.step]
    rcases exchange_cases platform server now requester endpoint requested with
      ⟨error, -, heq⟩ | ⟨note, cache, hnote, rfl, heq⟩
    · rw [heq]
      exact ⟨hok.advertised, fun nodeId candidate h =>
        hok.cached nodeId candidate (pruneExpired_cached h)⟩
    · rw [heq]
      refine ⟨hok.advertised, fun nodeId candidate h => ?_⟩
      rcases get_note h with ⟨-, hold⟩ | ⟨-, rfl⟩
      · exact hok.cached nodeId candidate (pruneExpired_cached hold)
      · obtain ⟨given, rfl, hcanonical⟩ := requesterNote_canonical hnote
        exact stable_of_canonicalize hcanonical (by simpa [SeedStep.plain] using hplain)
  | announce endpoint =>
    simp only [BootstrapServer.step, BootstrapServer.announce]
    cases hcanonical : canonicalizeAdvertisedEndpoint v6 endpoint with
    | error error => exact hok
    | ok canonical =>
      refine ⟨?_, hok.cached⟩
      rintro _ ⟨⟩
      exact stable_of_canonicalize hcanonical (by simpa [SeedStep.plain] using hplain)
  | withdraw => exact ⟨nofun, hok.cached⟩
  | clear =>
    refine ⟨nofun, fun nodeId candidate h => ?_⟩
    simp [BootstrapServer.step, BootstrapServer.clear] at h

theorem SeedOk.run {server : BootstrapServer v6} (hok : SeedOk server) (platform : Platform)
    {steps : List SeedStep} (hplain : ∀ step ∈ steps, step.plain = true) :
    SeedOk (server.run platform steps) := by
  induction steps generalizing server with
  | nil => exact hok
  | cons step steps ih =>
    exact ih (hok.step platform (hplain step List.mem_cons_self))
      fun other hother => hplain other (List.mem_cons_of_mem _ hother)

theorem config_step (platform : Platform) (server : BootstrapServer v6) (step : SeedStep) :
    (server.step platform step).config = server.config := by
  cases step with
  | exchange now requester endpoint requested =>
    simp only [BootstrapServer.step]
    rcases exchange_cases platform server now requester endpoint requested with
      ⟨error, -, heq⟩ | ⟨note, cache, -, -, heq⟩ <;> rw [heq]
  | announce endpoint =>
    simp only [BootstrapServer.step, BootstrapServer.announce]
    cases canonicalizeAdvertisedEndpoint v6 endpoint <;> rfl
  | withdraw => rfl
  | clear => rfl

theorem config_run (platform : Platform) (server : BootstrapServer v6) (steps : List SeedStep) :
    (server.run platform steps).config = server.config := by
  induction steps generalizing server with
  | nil => rfl
  | cons step steps ih => exact (ih _).trans (config_step platform server step)

/-! ## What it suggests -/

theorem mem_insert_append {seen : OrdSet String} {endpoints : List String}
    (h : ∀ e, e ∈ seen ↔ e ∈ endpoints) (endpoint e : String) :
    e ∈ seen.insert endpoint ↔ e ∈ endpoints ++ [endpoint] := by
  rw [ExtTreeSet.mem_insert, LawfulEqOrd.compare_eq_iff_eq, List.mem_append, List.mem_singleton, h,
    or_comm, eq_comm]

/-- The node is the first one in the order, the requester apart, with this endpoint. -/
structure Provides (byNode : OrdMap NodeId CachedCandidate) (requester : NodeId)
    (order : List NodeId) (nodeId : NodeId) (endpoint : String) : Prop where
  other : nodeId ≠ requester
  cached : ∃ candidate, byNode[nodeId]? = some candidate ∧ candidate.endpoint = endpoint
  first : ∃ before after, order = before ++ nodeId :: after ∧
    ∀ earlier ∈ before, earlier ≠ requester → ∀ candidate : CachedCandidate,
      byNode[earlier]? = some candidate → candidate.endpoint ≠ endpoint

/-- The endpoints of these nodes are there, the requester's apart. -/
def Covered (byNode : OrdMap NodeId CachedCandidate) (requester : NodeId) (done : List NodeId)
    (endpoints : List String) : Prop :=
  ∀ earlier ∈ done, earlier ≠ requester → ∀ candidate : CachedCandidate,
    byNode[earlier]? = some candidate → candidate.endpoint ∈ endpoints

theorem Covered.next {byNode : OrdMap NodeId CachedCandidate} {requester nodeId : NodeId}
    {done : List NodeId} {endpoints longer : List String}
    (h : Covered byNode requester done endpoints) (hsub : endpoints ⊆ longer)
    (hnode : nodeId ≠ requester → ∀ candidate : CachedCandidate,
      byNode[nodeId]? = some candidate → candidate.endpoint ∈ longer) :
    Covered byNode requester (done ++ [nodeId]) longer := by
  intro earlier hmem hother candidate hget
  rcases List.mem_append.mp hmem with hold | hlast
  · exact hsub (h earlier hold hother candidate hget)
  · cases List.mem_singleton.mp hlast
    exact hnode hother candidate hget

/-- `result` is `endpoints` and then endpoints that nodes in `rest` provide, in their order. -/
def Extends (byNode : OrdMap NodeId CachedCandidate) (requester : NodeId)
    (order rest : List NodeId) (endpoints result : List String) : Prop :=
  ∃ nodes added, result = endpoints ++ added ∧ nodes.Sublist rest ∧
    List.Forall₂ (Provides byNode requester order) nodes added

namespace Extends

variable {byNode : OrdMap NodeId CachedCandidate} {requester nodeId : NodeId}
  {order rest : List NodeId} {endpoints result : List String}

theorem refl : Extends byNode requester order rest endpoints endpoints :=
  ⟨[], [], (List.append_nil _).symm, List.nil_sublist _, .nil⟩

theorem skip (h : Extends byNode requester order rest endpoints result) :
    Extends byNode requester order (nodeId :: rest) endpoints result := by
  obtain ⟨nodes, added, heq, hsub, hnodes⟩ := h
  exact ⟨nodes, added, heq, hsub.cons _, hnodes⟩

theorem cons {endpoint : String} (hprovides : Provides byNode requester order nodeId endpoint)
    (h : Extends byNode requester order rest (endpoints ++ [endpoint]) result) :
    Extends byNode requester order (nodeId :: rest) endpoints result := by
  obtain ⟨nodes, added, heq, hsub, hnodes⟩ := h
  rw [List.append_assoc] at heq
  exact ⟨nodeId :: nodes, endpoint :: added, heq, hsub.cons_cons _, .cons hprovides hnodes⟩

end Extends

/-- The loop, after the nodes in `done`, adds the endpoints that are not there yet. -/
theorem collectLoop_extends {byNode : OrdMap NodeId CachedCandidate} {requester : NodeId}
    {limit : Nat} (done order : List NodeId) {endpoints : List String} {seen : OrdSet String}
    (hseen : ∀ e, e ∈ seen ↔ e ∈ endpoints) (hnodup : endpoints.Nodup)
    (hdone : Covered byNode requester done endpoints) :
    Extends byNode requester (done ++ order) order endpoints
        (collectLoop byNode requester limit order endpoints seen) ∧
      (collectLoop byNode requester limit order endpoints seen).Nodup := by
  induction order generalizing done endpoints seen with
  | nil => exact ⟨.refl, hnodup⟩
  | cons nodeId order ih =>
    have hsplit : done ++ nodeId :: order = (done ++ [nodeId]) ++ order := by simp
    have hskip (hnode : nodeId ≠ requester → ∀ candidate : CachedCandidate,
        byNode[nodeId]? = some candidate → candidate.endpoint ∈ endpoints) :
        Extends byNode requester (done ++ nodeId :: order) (nodeId :: order) endpoints
            (collectLoop byNode requester limit order endpoints seen) ∧
          (collectLoop byNode requester limit order endpoints seen).Nodup := by
      obtain ⟨hextends, hall⟩ :=
        ih (done ++ [nodeId]) hseen hnodup (hdone.next (List.Subset.refl _) hnode)
      exact ⟨hsplit ▸ hextends.skip, hall⟩
    rw [collectLoop]
    split
    · exact ⟨.refl, hnodup⟩
    · split
      · next hself => exact hskip fun hother => absurd hself hother
      · next hother =>
          split
          · next hnone =>
              refine hskip fun _ candidate hget => ?_
              rw [hnone] at hget
              cases hget
          · next candidate hget =>
              split
              · next hold =>
                  refine hskip fun _ again hagain => ?_
                  cases hget.symm.trans hagain
                  exact (hseen _).mp hold
              · next hnew =>
                  have hfresh : candidate.endpoint ∉ endpoints := by
                    rwa [← hseen]
                  have hlonger : (endpoints ++ [candidate.endpoint]).Nodup := by
                    rw [← List.concat_eq_append]
                    exact hnodup.concat hfresh
                  have hcovered : Covered byNode requester (done ++ [nodeId])
                      (endpoints ++ [candidate.endpoint]) := by
                    refine hdone.next (List.subset_append_left _ _) fun _ again hagain => ?_
                    cases hget.symm.trans hagain
                    exact List.mem_append_right _ (List.mem_singleton_self _)
                  -- a node before it with the same endpoint would have been seen
                  have hprovides : Provides byNode requester (done ++ nodeId :: order) nodeId
                      candidate.endpoint := by
                    refine ⟨hother, ⟨candidate, hget, rfl⟩, done, order, rfl, ?_⟩
                    intro earlier hearlier hapart found hfound hsame
                    exact hfresh (hsame ▸ hdone earlier hearlier hapart found hfound)
                  obtain ⟨hextends, hall⟩ :=
                    ih (done ++ [nodeId]) (mem_insert_append hseen _) hlonger hcovered
                  exact ⟨.cons hprovides (hsplit ▸ hextends), hall⟩

/-- The seed's own endpoint, then those of other nodes in the order of the cache. -/
theorem suggestions_eq (advertised : Option String) (cache : BootstrapCache) (requester : NodeId)
    (limit : Nat) :
    ∃ nodes cached, BootstrapServer.suggestions advertised cache requester limit =
        (if 0 < limit then advertised.toList else []) ++ cached ∧
      (BootstrapServer.suggestions advertised cache requester limit).Nodup ∧
      nodes.Sublist cache.order ∧
      List.Forall₂ (Provides cache.byNode requester cache.order) nodes cached := by
  have hown : ∀ own : List String, own.length ≤ 1 →
      (∀ e, e ∈ own.foldl (fun seen endpoint => seen.insert endpoint) (∅ : OrdSet String) ↔
        e ∈ own) ∧ own.Nodup := by
    intro own hlength
    match own, hlength with
    | [], _ => exact ⟨fun e => by simp, List.nodup_nil⟩
    | [endpoint], _ =>
      exact ⟨fun e => @mem_insert_append ∅ [] (by simp) endpoint e, List.nodup_singleton endpoint⟩
  have hlength : (if 0 < limit then advertised.toList else []).length ≤ min limit 1 := by
    split
    · next hpos => exact Option.length_toList_le.trans (Nat.le_min.mpr ⟨hpos, Nat.le_refl 1⟩)
    · exact Nat.zero_le _
  rw [BootstrapServer.suggestions]
  generalize (if 0 < limit then advertised.toList else []) = own at hlength ⊢
  obtain ⟨hseen, hnodup⟩ := hown own (hlength.trans (Nat.min_le_right _ _))
  obtain ⟨⟨nodes, added, heq, hsub, hnodes⟩, hall⟩ :=
    @collectLoop_extends cache.byNode requester limit [] cache.order own _ hseen hnodup nofun
  have htake : (own ++ added).take limit = own ++ added.take (limit - own.length) := by
    rw [List.take_append, List.take_of_length_le (hlength.trans (Nat.min_le_left _ _))]
  refine ⟨nodes.take (limit - own.length), added.take (limit - own.length), ?_, ?_,
    (List.take_sublist _ _).trans hsub, List.forall₂_take _ hnodes⟩
  · rw [heq, htake]
  · exact hall.sublist (List.take_sublist _ _)

theorem length_suggestions_le (advertised : Option String) (cache : BootstrapCache)
    (requester : NodeId) (limit : Nat) :
    (BootstrapServer.suggestions advertised cache requester limit).length ≤ limit :=
  List.length_take_le _ _

theorem suggestions_stable {advertised : Option String} {cache : BootstrapCache}
    {requester : NodeId} (limit : Nat) (hadvertised : ∀ endpoint ∈ advertised, Stable v6 endpoint)
    (hcached : ∀ (nodeId : NodeId) (candidate : CachedCandidate),
      cache.byNode[nodeId]? = some candidate → nodeId ≠ requester → Stable v6 candidate.endpoint) :
    ∀ e ∈ BootstrapServer.suggestions advertised cache requester limit, Stable v6 e := by
  obtain ⟨nodes, cached, heq, -, -, hnodes⟩ := suggestions_eq advertised cache requester limit
  intro e he
  rw [heq] at he
  rcases List.mem_append.mp he with hown | hother
  · refine hadvertised e ?_
    split at hown
    · exact Option.mem_toList.mp hown
    · cases hown
  · obtain ⟨nodeId, hprovides⟩ :
        ∃ nodeId, Provides cache.byNode requester cache.order nodeId e := by
      clear heq he
      induction hnodes with
      | nil => cases hother
      | cons hfirst _ ih =>
        rcases List.mem_cons.mp hother with rfl | hrest
        · exact ⟨_, hfirst⟩
        · exact ih hrest
    obtain ⟨candidate, hget, rfl⟩ := hprovides.cached
    exact hcached nodeId candidate hget hprovides.other

/-! ## The client -/

/-- Different endpoints that are their own canonical form pass as they are. -/
theorem normalizeLoop_eq {candidates : List String} (hstable : ∀ e ∈ candidates, Stable v6 e)
    (hnodup : candidates.Nodup) {seen : OrdSet String} (hseen : ∀ e ∈ candidates, e ∉ seen)
    (normalized : List String) :
    BootstrapClientConfig.normalizeLoop v6 candidates seen normalized =
      .ok (normalized ++ candidates) := by
  induction candidates generalizing seen normalized with
  | nil => rw [BootstrapClientConfig.normalizeLoop, List.append_nil]
  | cons endpoint rest ih =>
    rw [List.nodup_cons] at hnodup
    have hself : canonicalizeAdvertisedEndpoint v6 endpoint = .ok endpoint :=
      hstable endpoint List.mem_cons_self
    have hnew : seen.contains endpoint = false := by
      rw [Bool.eq_false_iff]
      exact hseen endpoint List.mem_cons_self
    have hrest : ∀ e ∈ rest, e ∉ seen.insert endpoint := by
      intro e he hmem
      rw [ExtTreeSet.mem_insert, LawfulEqOrd.compare_eq_iff_eq] at hmem
      rcases hmem with rfl | hold
      · exact hnodup.1 he
      · exact hseen e (List.mem_cons_of_mem _ he) hold
    simp only [BootstrapClientConfig.normalizeLoop, hself, hnew, Bool.false_eq_true, if_false]
    rw [ih (fun e he => hstable e (List.mem_cons_of_mem _ he)) hnodup.2 hrest, List.append_assoc]
    rfl

theorem toNat_candidateTtlMs {ttl : Nat} (h : ttl ≤ maxBootstrapCandidateTtl) :
    (candidateTtlMs ttl).toNat = ttl / nanosPerMilli := by
  have hsmall : ttl / nanosPerMilli < 2 ^ 64 - 1 := by
    unfold maxBootstrapCandidateTtl nanosPerSec at h
    unfold nanosPerMilli
    omega
  rw [candidateTtlMs, UInt64.toNat_ofNat', min_eq_left (Nat.le_of_lt hsmall)]
  exact Nat.mod_eq_of_lt (Nat.lt_of_lt_of_le hsmall (Nat.sub_le _ _))

/-- Good candidates are accepted as soon as their lifetime is a millisecond. -/
theorem checkCandidates_iff {client : BootstrapClientConfig}
    (hmax : client.maxCandidateTtl = maxBootstrapCandidateTtl) {request : BootstrapRequest}
    {candidates : List String} (hstable : ∀ e ∈ candidates, Stable v6 e) (hnodup : candidates.Nodup)
    (hresults : candidates.length ≤ request.maxResults)
    (hbound : candidates.length ≤ client.maxResponseCandidates) {ttl : Nat}
    (httl : ttl ≤ maxBootstrapCandidateTtl) (seedNodeId : NodeId) :
    (∃ response, client.checkCandidates v6 request seedNodeId candidates (candidateTtlMs ttl) =
        .ok response) ↔ nanosPerMilli ≤ ttl := by
  have hcount : ¬ (candidates.length > request.maxResults ∨
      candidates.length > client.maxResponseCandidates) := by omega
  have hnormal := @normalizeLoop_eq v6 _ hstable hnodup ∅ (by simp) []
  have hlong : ¬ ttl / nanosPerMilli * nanosPerMilli > client.maxCandidateTtl := by
    have := Nat.div_mul_le_self ttl nanosPerMilli
    omega
  have hzero : ttl / nanosPerMilli * nanosPerMilli = 0 ↔ ttl < nanosPerMilli := by
    unfold nanosPerMilli
    omega
  simp only [BootstrapClientConfig.checkCandidates, if_neg hcount, toNat_candidateTtlMs httl, hlong,
    or_false, hzero, hnormal]
  split
  · next hshort => simpa using hshort
  · next hshort => simpa [Except.map] using hshort

/-! ## The exchange -/

/-- Every client finds a format with every seed. -/
theorem negotiate_supported (seed client : SerializationFormat) :
    ∃ format, negotiateSerializationFormat seed (supportedFormatsFor client) = some format ∧
      format ∈ supportedFormatsFor client := by
  cases seed <;> cases client <;> exact ⟨_, rfl, by decide⟩

theorem checkRequest_ok {client : BootstrapClientConfig} {request : BootstrapRequest}
    (h : client.checkRequest v6 request = .ok ()) :
    request.maxResults ≠ 0 ∧ request.maxResults ≤ client.maxResponseCandidates ∧
      request.maxResults < 2 ^ 32 := by
  obtain ⟨_, -, h⟩ := bind_eq_ok h
  obtain ⟨_, hresults, -⟩ := bind_eq_ok h
  unfold require at hresults
  split at hresults
  · next hrange => exact hrange
  · cases hresults

/-- What an exchange of a seed in order suggests. -/
theorem SeedOk.exchange {server : BootstrapServer v6} (hok : SeedOk server) {platform : Platform}
    {requester : NodeId} {endpoint : Option String} {requested : Nat} {candidates : List String}
    (h : (server.exchange platform now requester endpoint requested).2 = .ok candidates) :
    candidates.Nodup ∧ (∀ e ∈ candidates, Stable v6 e) ∧ candidates.length ≤ requested := by
  rcases exchange_cases platform server now requester endpoint requested with
    ⟨error, -, heq⟩ | ⟨note, cache, -, hcache, heq⟩
  · rw [heq] at h
    cases h
  · rw [heq] at h
    cases h
    -- the requester's own note is left out, whatever it is
    obtain ⟨-, -, -, hnodup, -⟩ := suggestions_eq server.advertisedEndpoint cache requester
      (min (min requested server.config.maxResponseCandidates) maxBootstrapResponseCapacity)
    have hstable := @suggestions_stable v6 server.advertisedEndpoint cache requester
      (min (min requested server.config.maxResponseCandidates) maxBootstrapResponseCapacity)
      hok.advertised (fun nodeId candidate hget hother => by
        rw [hcache] at hget
        rcases get_note hget with ⟨-, hold⟩ | ⟨hsame, -⟩
        · exact hok.cached nodeId candidate (pruneExpired_cached hold)
        · exact absurd hsame.symm hother)
    exact ⟨hnodup, hstable, (length_suggestions_le _ _ _ _).trans
      ((min_le_left _ _).trans (min_le_left _ _))⟩

/-- A seed in order that passes `validate`, whatever nodes have told it, as long as no
endpoint was disguised: whenever an exchange succeeds, the client accepts the answer
exactly if the lifetime is at least a millisecond. -/
theorem honestSeed_accepted_iff (platform : Platform) {config : BootstrapServerConfig v6}
    (hconfig : config.validate = .ok ()) {steps : List SeedStep}
    (hplain : ∀ step ∈ steps, step.plain = true) {client : BootstrapClientConfig} {created : Nat}
    (_hclient : client.validate platform created = .ok ())
    (hmax : client.maxCandidateTtl = maxBootstrapCandidateTtl) {request : BootstrapRequest}
    (hrequest : client.checkRequest v6 request = .ok ())
    (hcluster : request.clusterId = config.clusterId)
    {seedId : NodeId} {seedIdentity clientIdentity : NodeId → Except NetError Unit}
    (hseed : seedIdentity client.nodeId = .ok ()) (hknown : clientIdentity seedId = .ok ())
    (seedFormat helloFormat : SerializationFormat) (now : Nat) {candidates : List String}
    (hexchange : (((BootstrapServer.new config).run platform steps).exchange platform now
      client.nodeId request.advertisedEndpoint request.maxResults).2 = .ok candidates) :
    ∃ format answer,
      (handleIncoming platform
          ⟨seedId, seedFormat, some ((BootstrapServer.new config).run platform steps)⟩
        now seedIdentity helloFormat (client.hello request)).2 = some (format, answer) ∧
      ((∃ response, client.checkAnswer v6 request clientIdentity format answer = .ok response) ↔
        nanosPerMilli ≤ config.candidateTtl) := by
  have hok := (seedOk_new hconfig).run platform hplain
  have hsame : ((BootstrapServer.new config).run platform steps).config = config := config_run _ _ _
  generalize (BootstrapServer.new config).run platform steps = server at hok hsame hexchange ⊢
  obtain ⟨hzero, hresults, hword⟩ := checkRequest_ok hrequest
  obtain ⟨hnodup, hstable, hlength⟩ := hok.exchange hexchange
  obtain ⟨format, hformat, hsupported⟩ := negotiate_supported seedFormat client.serializationFormat
  have hcount : (UInt32.ofNat request.maxResults).toNat = request.maxResults := by
    rw [UInt32.toNat_ofNat', Nat.mod_eq_of_lt hword]
  refine ⟨format, .bootstrapAck seedId format request.clusterId candidates
    (candidateTtlMs config.candidateTtl), ?_, ?_⟩
  · -- the seed has nothing to refuse the request for
    have hmaxResults : ¬ UInt32.ofNat request.maxResults = 0 := by
      intro hnone
      rw [← hcount, hnone] at hzero
      exact hzero rfl
    have hafter : (server.exchange platform now client.nodeId request.advertisedEndpoint
        request.maxResults).1.config = config :=
      (config_step platform server (.exchange now client.nodeId request.advertisedEndpoint
        request.maxResults)).trans hsame
    simp only [handleIncoming, BootstrapClientConfig.hello, WireMessage.bootstrapHello,
      isProtocolVersionCompatible, beq_self_eq_true, Bool.not_true, Bool.false_eq_true, if_false,
      hformat, hseed, hsame, hcluster, ne_eq, not_true_eq_false, hmaxResults, hcount]
    generalize server.exchange platform now client.nodeId request.advertisedEndpoint
      request.maxResults = outcome at hexchange hafter ⊢
    obtain ⟨after, result⟩ := outcome
    cases hexchange
    cases hafter
    rfl
  · -- of the checks of the client only the lifetime is left
    rw [← checkCandidates_iff hmax hstable hnodup hlength (hlength.trans hresults)
      (validate_ok hconfig).2.2 seedId]
    simp only [BootstrapClientConfig.checkAnswer, WireMessage.bootstrapAck, ne_eq,
      not_true_eq_false, if_false, hsupported, hknown]

/-- The loopback address only. -/
def loopbackV6 : Ipv6Text where
  Addr := Unit
  parse text := if text = [':', ':', '1'] then some () else none
  print _ := [':', ':', '1']
  isUnspecified _ := false
  isMulticast _ := false
  isUnicastLinkLocal _ := false
  parse_print _ := rfl
  colon_of_parse := by
    intro text ip h
    rw [Option.ite_none_right_eq_some] at h
    rw [h.1]
    decide
  mem_print := by
    intro ip c hc
    rcases (by simpa using hc : c = ':' ∨ c = '1') with rfl | rfl
    · exact .inr (.inl rfl)
    · exact .inl rfl
  length_print_le _ := by decide

def testPlatform : Platform := ⟨2 ^ 63, 2 ^ 61 - 1⟩

def clusterA : BootstrapServerConfig loopbackV6 := .defaults loopbackV6 "cluster-a"

def defaultClient : BootstrapClientConfig := .new "client"

def clusterARequest : BootstrapRequest := ⟨"cluster-a", none, 4⟩

theorem honestSeed_accepted_twoNames :
    ∃ format answer,
      (handleIncoming testPlatform ⟨"seed", .bincode, some ((BootstrapServer.new clusterA).run
          testPlatform [.announce "seed.example:9000",
            .exchange 5 "peer" (some "Peer.Example.:9000") 4])⟩
        7 (fun _ => .ok ()) .bincode
          (defaultClient.hello clusterARequest)).2 = some (format, answer) ∧
      ((∃ response, defaultClient.checkAnswer loopbackV6 clusterARequest (fun _ => .ok ())
        format answer = .ok response) ↔ nanosPerMilli ≤ clusterA.candidateTtl) :=
  @honestSeed_accepted_iff loopbackV6 testPlatform clusterA (by decide +kernel)
    [.announce "seed.example:9000", .exchange 5 "peer" (some "Peer.Example.:9000") 4]
    (by decide +kernel) defaultClient 0 (by decide +kernel) rfl clusterARequest (by decide +kernel)
    rfl "seed" _ _ rfl rfl .bincode .bincode 7 ["seed.example:9000", "peer.example:9000"]
    (by decide +kernel)

/-- A lifetime of half a millisecond passes the checks of the seed and is sent as zero. -/
def shortLease : BootstrapServerConfig loopbackV6 := { clusterA with candidateTtl := 500000 }

/-- Two honest seeds that the client refuses: one whose lifetime is less than a
millisecond, and one that another node has told `0.0.0.0.:9000`. -/
theorem honestSeed_refused :
    (shortLease.validate = .ok () ∧
      ((BootstrapServer.new shortLease).exchange testPlatform 0 "client" none 4).2 = .ok [] ∧
      defaultClient.checkCandidates loopbackV6 clusterARequest "seed" []
          (candidateTtlMs shortLease.candidateTtl) =
        .error (.invalidResponse "bootstrap response contains an invalid candidate TTL")) ∧
    (clusterA.validate = .ok () ∧
      (((BootstrapServer.new clusterA).run testPlatform
          [.exchange 0 "mallory" (some "0.0.0.0.:9000") 1]).exchange testPlatform 1 "client" none
        4).2 = .ok ["0.0.0.0:9000"] ∧
      defaultClient.checkCandidates loopbackV6 clusterARequest "seed" ["0.0.0.0:9000"]
          (candidateTtlMs clusterA.candidateTtl) =
        .error (.invalidResponse
          "invalid message: advertised endpoint must use a dialable unicast IP address")) := by
  refine ⟨⟨?_, ?_, ?_⟩, ?_, ?_, ?_⟩ <;> decide +kernel

end Numax
