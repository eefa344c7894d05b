import Numax.Theorems.CandidateRegistry

/-!
# Leases are bounded by observations

A source with a time to live that sends observed snapshots only holds an endpoint no
longer than its observations allow, whatever other sources do. The registry is read
here as one function, the contribution of a source for an endpoint (`lease`), and
`lease_perform` says once what an event does to the leases of such a source: an
accepted snapshot replaces them, an expiry drops those that are over, new endpoints of
this node drop theirs, and nothing else touches them.

From that, every lease comes from an observation in an accepted snapshot
(`Coordinator.lease_run`), so that sending a cached snapshot again adds nothing; and
what the last accepted snapshot observed late enough is still held
(`Coordinator.lease_last`).
-/

open Base Std

namespace Numax

variable {changed : Bool}

namespace CandidateRegistry

variable {r : CandidateRegistry} {s e : String}

/-! ## Parts of the operations -/

@[simp] theorem lease_rebuildOrder : r.rebuildOrder.lease s e = r.lease s e := rfl

@[simp] theorem lease_pruneSourceCandidates :
    r.pruneSourceCandidates.lease s e = r.lease s e := rfl

@[simp] theorem lease_registerSource (sourceId : String) :
    (r.registerSource sourceId).lease s e = r.lease s e := by
  obtain ⟨sourceOrder, hregister, -⟩ := registerSource_eq r sourceId
  rw [hregister]
  rfl

theorem lease_retainContributions_of_keep {keep : String → String → CandidateContribution → Bool}
    (h : ∀ c, keep e s c = true) : (r.retainContributions keep).lease s e = r.lease s e := by
  rw [lease_retainContributions]
  cases r.lease s e with
  | none => rfl
  | some c => exact Option.filter_some_pos (h c)

/-! ## Operations that are not about the source -/

theorem lease_remove {sourceId : String} (h : sourceId ≠ s) (endpoint : String) :
    (r.remove sourceId endpoint).1.lease s e = r.lease s e := by
  simp only [remove, settle, lease_rebuildOrder, lease_pruneSourceCandidates, lease_pruneEmpty]
  unfold lease
  simp only [OrdMap.get_alter]
  split
  · next heq =>
      subst heq
      cases r.records[endpoint]? with
      | none => rfl
      | some record => simp [OrdMap.get_erase, h]
  · rfl

theorem lease_sourceUnavailable {sourceId : String} {leased : Bool}
    (h : sourceId = s → leased = true) :
    (r.sourceUnavailable sourceId leased).1.lease s e = r.lease s e := by
  cases leased with
  | true => rfl
  | false =>
    have hother : s ≠ sourceId := fun heq => absurd (h heq.symm) Bool.false_ne_true
    rw [sourceUnavailable, if_neg Bool.false_ne_true, settle, lease_rebuildOrder,
      lease_pruneSourceCandidates, lease_pruneEmpty]
    exact lease_retainContributions_of_keep fun _ => bne_iff_ne.mpr hother

theorem lease_add {sourceId : String} (h : sourceId ≠ s) (latest : Nat) (endpoint : String)
    (ttl : Option Nat) (now : Nat) :
    (r.add latest sourceId endpoint ttl now).1.lease s e = r.lease s e := by
  have hinsert : ∀ contribution,
      (r.insertCandidate sourceId endpoint contribution).lease s e = r.lease s e := by
    intro contribution
    simp only [insertCandidate, lease_rebuildOrder]
    rw [lease_contribute, if_neg fun hsame => h hsame.1.symm]
    exact lease_registerSource sourceId
  simp only [add]
  split
  · rfl
  · split
    · rfl
    · split
      · exact hinsert _
      · split
        · rfl
        · exact hinsert _

theorem lease_setLocalEndpoints (endpoints : List String) :
    (r.setLocalEndpoints endpoints).1.lease s e =
      if e ∈ (r.setLocalEndpoints endpoints).1.localEndpoints then none else r.lease s e := by
  simp only [setLocalEndpoints, lease_rebuildOrder, lease_pruneSourceCandidates]
  change _ = if e ∈ endpoints.foldl (fun set endpoint => set.insert endpoint) (∅ : OrdSet String)
    then _ else _
  generalize endpoints.foldl (fun set endpoint => set.insert endpoint) (∅ : OrdSet String) = own
  unfold lease
  rw [ExtTreeMap.getElem?_filter']
  by_cases hown : e ∈ own
  · have hcontains : own.contains e = true := ExtTreeSet.mem_iff_contains.mp hown
    rw [if_pos hown]
    cases r.records[e]? with
    | none => rfl
    | some record => simp [hcontains]
  · have hcontains : own.contains e = false :=
      Bool.eq_false_iff.mpr fun h => hown (ExtTreeSet.mem_iff_contains.mpr h)
    rw [if_neg hown]
    cases r.records[e]? with
    | none => rfl
    | some record => rw [Option.filter_some_pos (by rw [hcontains]; rfl)]

theorem lease_expire (now : Nat) :
    (r.expire now).1.lease s e = (r.lease s e).filter fun contribution =>
      contribution.expiresAt.all fun deadline => decide (deadline > now) := by
  simp only [expire, settle, lease_rebuildOrder, lease_pruneSourceCandidates, lease_pruneEmpty,
    lease_retainContributions]

/-! ## Replacements -/

variable {sourceId : String} {contributions : List (String × CandidateContribution)}
  {updated : CandidateRegistry} {candidates listed : List String}

theorem lease_contributeLoop_of_ne (h : s ≠ sourceId ∨ ∀ entry ∈ contributions, entry.1 ≠ e)
    (hloop : contributeLoop sourceId contributions r candidates = .ok (updated, listed)) :
    updated.lease s e = r.lease s e := by
  induction contributions generalizing r candidates with
  | nil =>
    cases hloop
    rfl
  | cons entry rest ih =>
    obtain ⟨next, hrest, hnext⟩ := contributeLoop_cons hloop
    rw [ih (h.imp_right fun hne other hother => hne other (List.mem_cons_of_mem _ hother)) hrest]
    rcases hnext with ⟨-, rfl⟩ | ⟨-, rfl, -⟩
    · rfl
    · rw [lease_contribute, if_neg]
      rintro ⟨hsource, hendpoint⟩
      rcases h with hother | hne
      · exact hother hsource
      · exact hne entry List.mem_cons_self hendpoint.symm

theorem lease_contributeLoop {c : CandidateContribution}
    (hloop : contributeLoop sourceId contributions r candidates = .ok (updated, listed))
    (h : updated.lease sourceId e = some c) :
    (e, c) ∈ contributions ∨ r.lease sourceId e = some c := by
  induction contributions generalizing r candidates with
  | nil =>
    cases hloop
    exact .inr h
  | cons entry rest ih =>
    obtain ⟨next, hrest, hnext⟩ := contributeLoop_cons hloop
    rcases ih hrest with hin | hbefore
    · exact .inl (List.mem_cons_of_mem _ hin)
    · rcases hnext with ⟨-, rfl⟩ | ⟨-, rfl, -⟩
      · exact .inr hbefore
      · rw [lease_contribute] at hbefore
        split at hbefore
        · next hsame =>
            cases hbefore
            rw [hsame.2]
            exact .inl List.mem_cons_self
        · exact .inr hbefore

/-- The last entry for an endpoint that is not of this node is its lease. -/
theorem lease_contributeLoop_of_mem (hforeign : e ∉ r.localEndpoints)
    (hmem : ∃ c, (e, c) ∈ contributions)
    (hloop : contributeLoop sourceId contributions r candidates = .ok (updated, listed)) :
    ∃ c, (e, c) ∈ contributions ∧ updated.lease sourceId e = some c := by
  induction contributions generalizing r candidates with
  | nil => exact absurd hmem (by simp)
  | cons entry rest ih =>
    obtain ⟨next, hrest, hnext⟩ := contributeLoop_cons hloop
    have hlocal : next.localEndpoints = r.localEndpoints := by
      rcases hnext with ⟨-, rfl⟩ | ⟨-, rfl, -⟩ <;> rfl
    -- a later entry for the endpoint decides; if there is none, this one does
    by_cases hlater : ∃ c, (e, c) ∈ rest
    · obtain ⟨c, hin, hlease⟩ := ih (hlocal ▸ hforeign) hlater hrest
      exact ⟨c, List.mem_cons_of_mem _ hin, hlease⟩
    · obtain ⟨c, hin⟩ := hmem
      have hentry : entry = (e, c) := by
        rcases List.mem_cons.mp hin with heq | hrest
        · exact heq.symm
        · exact absurd ⟨c, hrest⟩ hlater
      subst hentry
      refine ⟨c, List.mem_cons_self, ?_⟩
      rw [lease_contributeLoop_of_ne (.inr ?_) hrest]
      · rcases hnext with ⟨hown, -⟩ | ⟨-, rfl, -⟩
        · exact absurd hown hforeign
        · rw [lease_contribute, if_pos ⟨rfl, rfl⟩]
      · rintro ⟨endpoint, other⟩ hother rfl
        exact hlater ⟨other, hother⟩

theorem replaceContributions_ok
    (h : r.replaceContributions sourceId contributions = (updated, .ok changed)) :
    ∃ staged listed, contributeLoop sourceId contributions
        ((r.registerSource sourceId).removeSourceExcept sourceId
          (contributions.foldl (fun set entry => set.insert entry.1) ∅)) [] = .ok (staged, listed) ∧
      ∀ s e, updated.lease s e = staged.lease s e := by
  simp only [replaceContributions] at h
  split at h
  · cases h
  · next staged listed hloop =>
      cases h
      exact ⟨staged, listed, hloop, fun _ _ => rfl⟩

theorem replaceContributions_error {error : DiscoveryError}
    (h : r.replaceContributions sourceId contributions = (updated, .error error)) :
    updated = r := by
  simp only [replaceContributions] at h
  split at h
  · cases h
    rfl
  · cases h

/-- The leases of other sources stay. -/
theorem lease_replaceContributions_of_ne (h : s ≠ sourceId) :
    (r.replaceContributions sourceId contributions).1.lease s e = r.lease s e := by
  cases hresult : r.replaceContributions sourceId contributions with
  | mk after result =>
    cases result with
    | error error => rw [replaceContributions_error hresult]
    | ok changed =>
      obtain ⟨staged, listed, hloop, hlease⟩ := replaceContributions_ok hresult
      rw [hlease, lease_contributeLoop_of_ne (.inl h) hloop, removeSourceExcept,
        lease_pruneEmpty,
        lease_retainContributions_of_keep fun _ => by rw [bne_iff_ne.mpr h, Bool.or_true],
        lease_registerSource]

/-- After a replacement the source holds what it has listed, and holds all of it that
is not of this node. -/
theorem lease_replaceContributions_self
    (h : r.replaceContributions sourceId contributions = (updated, .ok changed)) :
    (∀ c, updated.lease sourceId e = some c →
      (e, c) ∈ contributions ∨ r.lease sourceId e = some c) ∧
    (e ∉ r.localEndpoints → (∃ c, (e, c) ∈ contributions) →
      ∃ c, (e, c) ∈ contributions ∧ updated.lease sourceId e = some c) := by
  obtain ⟨staged, listed, hloop, hlease⟩ := replaceContributions_ok h
  simp only [hlease]
  constructor
  · intro c hc
    refine (lease_contributeLoop hloop hc).imp_right fun hbefore => ?_
    rw [removeSourceExcept, lease_pruneEmpty, lease_retainContributions,
      lease_registerSource] at hbefore
    exact (Option.filter_eq_some_iff.mp hbefore).1
  · intro hforeign hmem
    refine lease_contributeLoop_of_mem ?_ hmem hloop
    obtain ⟨sourceOrder, hregister, -⟩ := registerSource_eq r sourceId
    rw [hregister]
    exact hforeign

/-! ## Observed snapshots -/

section Observations

variable {canonicalize : String → Except DiscoveryError String} {latest now ttl : Nat}
  {pairs : List (String × Nat)} {peer : String} {d : Nat}

/-- The endpoint is in the list, with the deadline or a later one. -/
def Covers (contributions : List (String × CandidateContribution)) (e : String) (d : Nat) : Prop :=
  (∃ c, (e, c) ∈ contributions) ∧
    ∀ c, (e, c) ∈ contributions → ∃ deadline, c.expiresAt = some deadline ∧ d ≤ deadline

theorem mem_mergeContribution {entry : String × CandidateContribution} {expiresAt : Option Nat}
    (h : entry ∈ mergeContribution contributions peer expiresAt) :
    entry ∈ contributions ∧ entry.1 ≠ peer ∨
      entry = (peer, ⟨expiresAt⟩) ∧ (∀ old, (peer, old) ∉ contributions) ∨
      ∃ old, (peer, old) ∈ contributions ∧ entry = (peer, ⟨max old.expiresAt expiresAt⟩) := by
  unfold mergeContribution at h
  split at h
  · obtain ⟨old, hold, rfl⟩ := List.mem_map.mp h
    split
    · next heq => exact .inr (.inr ⟨old.2, by rwa [← heq], by rw [heq]⟩)
    · next hne => exact .inl ⟨hold, hne⟩
  · next hnew =>
      have hother : ∀ old ∈ contributions, old.1 ≠ peer := fun old hold heq =>
        hnew (List.any_eq_true.mpr ⟨old, hold, beq_iff_eq.mpr heq⟩)
      rcases List.mem_append.mp h with hold | hlast
      · exact .inl ⟨hold, hother entry hold⟩
      · exact .inr (.inl ⟨List.mem_singleton.mp hlast, fun old hold => hother _ hold rfl⟩)

theorem exists_mem_mergeContribution (expiresAt : Option Nat) :
    (∃ c, (peer, c) ∈ mergeContribution contributions peer expiresAt) ∧
      ∀ c, (e, c) ∈ contributions →
        ∃ c, (e, c) ∈ mergeContribution contributions peer expiresAt := by
  unfold mergeContribution
  split
  · next hany =>
      have hkept : ∀ endpoint c, (endpoint, c) ∈ contributions → ∃ c, (endpoint, c) ∈
          contributions.map fun entry =>
            if entry.1 = peer then (entry.1, ⟨max entry.2.expiresAt expiresAt⟩) else entry := by
        intro endpoint c hc
        by_cases heq : endpoint = peer
        · exact ⟨_, List.mem_map.mpr ⟨_, hc, if_pos heq⟩⟩
        · exact ⟨_, List.mem_map.mpr ⟨_, hc, if_neg heq⟩⟩
      -- the endpoint was there already, and its entry is merged in place
      obtain ⟨old, hold, heq⟩ := List.any_eq_true.mp hany
      exact ⟨hkept peer old.2 (by rwa [← beq_iff_eq.mp heq]), fun c hc => hkept e c hc⟩
  · exact ⟨⟨_, List.mem_append_right _ List.mem_cons_self⟩,
      fun c hc => ⟨c, List.mem_append_left _ hc⟩⟩

theorem covers_mergeContribution : Covers (mergeContribution contributions e (some d)) e d := by
  refine ⟨(@exists_mem_mergeContribution e contributions e (some d)).1, fun c hc => ?_⟩
  rcases mem_mergeContribution hc with ⟨-, hne⟩ | ⟨heq, -⟩ | ⟨old, -, heq⟩
  · exact absurd rfl hne
  · cases heq
    exact ⟨d, rfl, d.le_refl⟩
  · cases heq
    cases old.expiresAt with
    | none => exact ⟨d, rfl, d.le_refl⟩
    | some deadline => exact ⟨max deadline d, rfl, le_max_right _ _⟩

theorem Covers.mergeContribution (h : Covers contributions e d) (peer : String) (lease : Nat) :
    Covers (mergeContribution contributions peer (some lease)) e d := by
  obtain ⟨⟨held, hheld⟩, hdeadline⟩ := h
  refine ⟨exists_mem_mergeContribution (some lease) |>.2 held hheld, fun c hc => ?_⟩
  rcases mem_mergeContribution hc with ⟨hold, -⟩ | ⟨heq, hnew⟩ | ⟨old, hold, heq⟩
  · exact hdeadline c hold
  · cases heq
    exact absurd hheld (hnew held)
  · cases heq
    obtain ⟨deadline, hsome, hle⟩ := hdeadline old hold
    exact ⟨max deadline lease, by rw [hsome]; rfl, hle.trans (le_max_left _ _)⟩

variable {merged : List (String × CandidateContribution)}

/-- One turn of the loop over the observations: over, not an endpoint, or merged. -/
theorem observedLoop_cons {at' : Nat}
    (h : observedLoop canonicalize latest sourceId (some ttl) now ((peer, at') :: pairs)
      contributions = .ok merged) :
    ∃ next, observedLoop canonicalize latest sourceId (some ttl) now pairs next = .ok merged ∧
      (next = contributions ∧ (at' + ttl ≤ now ∨ ∀ e, canonicalize peer ≠ .ok e) ∨
        ∃ e, canonicalize peer = .ok e ∧
          next = mergeContribution contributions e (some (at' + ttl))) := by
  rw [observedLoop] at h
  simp only at h
  split at h
  · cases h
  · next deadline hdeadline =>
      obtain rfl : deadline = at' + ttl := by
        unfold checkedAdd at hdeadline
        split at hdeadline
        · exact (Option.some.inj hdeadline).symm
        · cases hdeadline
      split at h
      · next hover => exact ⟨_, h, .inl ⟨rfl, .inl hover⟩⟩
      · refine ⟨_, h, ?_⟩
        cases canonicalize peer with
        | error error => exact .inl ⟨rfl, .inr fun e => nofun⟩
        | ok endpoint => exact .inr ⟨endpoint, rfl, rfl⟩

/-- The contribution is the lease of one of the observations. -/
def LeaseOf (canonicalize : String → Except DiscoveryError String) (ttl : Nat)
    (pairs : List (String × Nat)) (entry : String × CandidateContribution) : Prop :=
  ∃ peer o, (peer, o) ∈ pairs ∧ canonicalize peer = .ok entry.1 ∧ entry.2.expiresAt = some (o + ttl)

theorem leaseOf_observedLoop {all : List (String × Nat)} (hall : ∀ pair ∈ pairs, pair ∈ all)
    (hseen : ∀ entry ∈ contributions, LeaseOf canonicalize ttl all entry)
    (h : observedLoop canonicalize latest sourceId (some ttl) now pairs contributions =
      .ok merged) :
    ∀ entry ∈ merged, LeaseOf canonicalize ttl all entry := by
  induction pairs generalizing contributions with
  | nil =>
    cases h
    exact hseen
  | cons pair pairs ih =>
    obtain ⟨peer, o⟩ := pair
    obtain ⟨next, hrest, hnext⟩ := observedLoop_cons h
    have hrestAll := fun pair hpair => hall pair (List.mem_cons_of_mem _ hpair)
    rcases hnext with ⟨rfl, -⟩ | ⟨e, he, rfl⟩
    · exact ih hrestAll hseen hrest
    · refine ih hrestAll (fun entry hentry => ?_) hrest
      have hnew : LeaseOf canonicalize ttl all (e, ⟨some (o + ttl)⟩) :=
        ⟨peer, o, hall _ List.mem_cons_self, he, rfl⟩
      rcases mem_mergeContribution hentry with ⟨hold, -⟩ | ⟨rfl, -⟩ | ⟨old, hold, rfl⟩
      · exact hseen entry hold
      · exact hnew
      · -- the newer of two leases is one of them
        obtain ⟨peer', o', hmem, hpeer, hlease⟩ := hseen _ hold
        rw [hlease]
        rcases max_choice (o' + ttl) (o + ttl) with hmax | hmax
        · exact ⟨peer', o', hmem, hpeer, congrArg some hmax⟩
        · exact ⟨peer, o, hall _ List.mem_cons_self, he, congrArg some hmax⟩

theorem Covers.observedLoop (hcovers : Covers contributions e d)
    (h : observedLoop canonicalize latest sourceId (some ttl) now pairs contributions =
      .ok merged) :
    Covers merged e d := by
  induction pairs generalizing contributions with
  | nil =>
    cases h
    exact hcovers
  | cons pair pairs ih =>
    obtain ⟨next, hrest, hnext⟩ := observedLoop_cons h
    rcases hnext with ⟨rfl, -⟩ | ⟨endpoint, -, rfl⟩
    · exact ih hcovers hrest
    · exact ih (hcovers.mergeContribution endpoint _) hrest

theorem covers_observedLoop {o : Nat} (hpair : (peer, o) ∈ pairs) (he : canonicalize peer = .ok e)
    (hlive : now < o + ttl)
    (h : observedLoop canonicalize latest sourceId (some ttl) now pairs contributions =
      .ok merged) :
    Covers merged e (o + ttl) := by
  induction pairs generalizing contributions with
  | nil => cases hpair
  | cons pair pairs ih =>
    obtain ⟨next, hrest, hnext⟩ := observedLoop_cons h
    rcases List.mem_cons.mp hpair with rfl | hlater
    · rcases hnext with ⟨-, hover | hnone⟩ | ⟨endpoint, hendpoint, rfl⟩
      · omega
      · exact absurd he (hnone e)
      · cases hendpoint.symm.trans he
        exact covers_mergeContribution.observedLoop hrest
    · exact ih hlater hrest

end Observations

end CandidateRegistry

open CandidateRegistry

/-! ## Events -/

def CoordinatorEvent.time : CoordinatorEvent → Nat
  | .command _ now => now
  | .expiry now => now

/-- The source itself sends nothing but observed snapshots with this time to live and
notices that it is unavailable but leased. -/
def CoordinatorEvent.Leased (s : String) (ttl : Nat) : CoordinatorEvent → Prop
  | .command (.snapshot sourceId snapshot lease) _ =>
    sourceId = s → snapshot.observations.isSome ∧ lease = some ttl
  | .command (.replaceSource sourceId _ _) _ => sourceId ≠ s
  | .command (.add sourceId _ _) _ => sourceId ≠ s
  | .command (.remove sourceId _) _ => sourceId ≠ s
  | .command (.sourceUnavailable sourceId leased) _ => sourceId = s → leased = true
  | .command (.setLocalEndpoints _) _ => True
  | .expiry _ => True

section Runs

variable (canonicalize : String → Except DiscoveryError String) (latest : Nat) (s : String)
  (ttl : Nat)

/-- The operation is not refused. -/
def CandidateRegistry.Accepts (r : CandidateRegistry) (event : CoordinatorEvent) : Prop :=
  ∃ after changed, r.perform canonicalize latest event = (after, .ok changed)

/-- The run accepts the snapshot from the source. -/
def Coordinator.Accepted (start : Coordinator) (events : List CoordinatorEvent)
    (snapshot : DiscoverySnapshot) : Prop :=
  ∃ before now after, events = before ++ .command (.snapshot s snapshot (some ttl)) now :: after ∧
    (start.run canonicalize latest before).registry.Accepts canonicalize latest
      (.command (.snapshot s snapshot (some ttl)) now)

/-- The snapshot lists a spelling of the endpoint that was observed at this time. -/
def DiscoverySnapshot.Observes (snapshot : DiscoverySnapshot) (e : String) (o : Nat) : Prop :=
  ∃ observations peer, snapshot.observations = some observations ∧
    (peer, o) ∈ snapshot.peers.zip observations ∧ canonicalize peer = .ok e

variable {canonicalize latest s ttl}
variable {r after : CandidateRegistry} {event : CoordinatorEvent} {snapshot : DiscoverySnapshot}
  {now : Nat} {e : String}

namespace CandidateRegistry

theorem lease_replaceSource_of_ne {sourceId : String} (h : s ≠ sourceId) (peers : List String)
    (lease : Option Nat) :
    (r.replaceSource canonicalize latest sourceId peers lease now).1.lease s e = r.lease s e := by
  simp only [replaceSource]
  split
  · rfl
  · split
    · split
      · rfl
      · exact lease_replaceContributions_of_ne h
    · exact lease_replaceContributions_of_ne h

theorem lease_replaceSnapshot_of_ne {sourceId : String} (h : s ≠ sourceId) (lease : Option Nat) :
    (r.replaceSnapshot canonicalize latest sourceId snapshot lease now).1.lease s e =
      r.lease s e := by
  simp only [replaceSnapshot]
  split
  · exact lease_replaceSource_of_ne h _ lease
  · split
    · rfl
    · split
      · rfl
      · exact lease_replaceContributions_of_ne h

/-- An observed snapshot replaces what the source contributes, or changes nothing. -/
theorem replaceSnapshot_cases {observations : List Nat}
    (hobservations : snapshot.observations = some observations) :
    (∃ contributions,
      observedLoop canonicalize latest s (some ttl) now (snapshot.peers.zip observations) [] =
        .ok contributions ∧
      r.replaceSnapshot canonicalize latest s snapshot (some ttl) now =
        r.replaceContributions s contributions) ∨
    ∃ error,
      r.replaceSnapshot canonicalize latest s snapshot (some ttl) now = (r, .error error) := by
  simp only [replaceSnapshot, hobservations]
  split
  · exact .inr ⟨_, rfl⟩
  · cases observedLoop canonicalize latest s (some ttl) now (snapshot.peers.zip observations) []
    with
    | error error => exact .inr ⟨error, rfl⟩
    | ok contributions => exact .inl ⟨contributions, rfl, rfl⟩

theorem refused_snapshot {error : DiscoveryError} (hobserved : snapshot.observations.isSome)
    (h : r.perform canonicalize latest (.command (.snapshot s snapshot (some ttl)) now) =
      (after, .error error)) : after = r := by
  obtain ⟨observations, hobservations⟩ := Option.isSome_iff_exists.mp hobserved
  rw [perform] at h
  rcases @replaceSnapshot_cases canonicalize latest s ttl r snapshot now _ hobservations with
    ⟨contributions, -, heq⟩ | ⟨_, heq⟩
  · exact replaceContributions_error (heq.symm.trans h)
  · exact (congrArg Prod.fst (heq.symm.trans h)).symm

/-- What the source holds after an accepted snapshot it held before, or the snapshot has
observed it; and it holds what the snapshot has observed late enough. -/
theorem accepted_snapshot (hobserved : snapshot.observations.isSome)
    (h : r.perform canonicalize latest (.command (.snapshot s snapshot (some ttl)) now) =
      (after, .ok changed)) :
    (∀ e c, after.lease s e = some c → r.lease s e = some c ∨
      ∃ o, snapshot.Observes canonicalize e o ∧ c.expiresAt = some (o + ttl)) ∧
    ∀ e o, snapshot.Observes canonicalize e o → now < o + ttl → e ∉ r.localEndpoints →
      ∃ deadline, after.lease s e = some ⟨some deadline⟩ ∧ o + ttl ≤ deadline := by
  obtain ⟨observations, hobservations⟩ := Option.isSome_iff_exists.mp hobserved
  rw [perform] at h
  rcases @replaceSnapshot_cases canonicalize latest s ttl r snapshot now _ hobservations with
    ⟨contributions, hloop, heq⟩ | ⟨_, heq⟩
  · have hreplace := heq.symm.trans h
    refine ⟨fun e c hc => ?_, fun e o hlists hlive hforeign => ?_⟩
    · rcases (lease_replaceContributions_self hreplace).1 c hc with hin | hbefore
      · obtain ⟨peer, o, hpair, hpeer, hlease⟩ :=
          leaseOf_observedLoop (fun _ hpair => hpair) (by simp) hloop _ hin
        exact .inr ⟨o, ⟨observations, peer, hobservations, hpair, hpeer⟩, hlease⟩
      · exact .inl hbefore
    · obtain ⟨listed, peer, hlisted, hpair, hpeer⟩ := hlists
      cases hobservations.symm.trans hlisted
      obtain ⟨hmem, hdeadline⟩ := covers_observedLoop hpair hpeer hlive hloop
      obtain ⟨c, hin, hlease⟩ := (lease_replaceContributions_self hreplace).2 hforeign hmem
      obtain ⟨deadline, hsome, hle⟩ := hdeadline c hin
      refine ⟨deadline, ?_, hle⟩
      rw [hlease, ← hsome]
  · cases heq.symm.trans h

/-- All that an event can do to the leases of the source. -/
theorem lease_perform (h : event.Leased s ttl) :
    (∃ snapshot now, event = .command (.snapshot s snapshot (some ttl)) now ∧
      snapshot.observations.isSome ∧ r.Accepts canonicalize latest event) ∨
    (∃ now, event = .expiry now) ∨
    (∃ endpoints now, event = .command (.setLocalEndpoints endpoints) now) ∨
    ∀ e, (r.perform canonicalize latest event).1.lease s e = r.lease s e := by
  cases event with
  | expiry now => exact .inr (.inl ⟨now, rfl⟩)
  | command command now =>
    cases command with
    | setLocalEndpoints endpoints => exact .inr (.inr (.inl ⟨endpoints, now, rfl⟩))
    | replaceSource sourceId peers lease =>
      exact .inr (.inr (.inr fun e => lease_replaceSource_of_ne (Ne.symm h) peers lease))
    | add sourceId endpoint lease =>
      refine .inr (.inr (.inr fun e => ?_))
      simp only [perform]
      cases canonicalize endpoint with
      | error error => rfl
      | ok endpoint => exact lease_add h latest endpoint lease now
    | remove sourceId endpoint =>
      refine .inr (.inr (.inr fun e => ?_))
      simp only [perform]
      cases canonicalize endpoint with
      | error error => rfl
      | ok endpoint => exact lease_remove h endpoint
    | sourceUnavailable sourceId leased =>
      exact .inr (.inr (.inr fun e => lease_sourceUnavailable h))
    | snapshot sourceId snapshot lease =>
      -- a snapshot of the source itself counts only if it is accepted
      by_cases hsource : sourceId = s
      · subst hsource
        obtain ⟨hobserved, rfl⟩ := h rfl
        cases hresult : r.perform canonicalize latest
            (.command (.snapshot sourceId snapshot (some ttl)) now) with
        | mk after result =>
          cases result with
          | ok changed => exact .inl ⟨snapshot, now, rfl, hobserved, after, changed, hresult⟩
          | error error =>
            exact .inr (.inr (.inr fun e => by rw [refused_snapshot hobserved hresult]))
      · exact .inr (.inr (.inr fun e => lease_replaceSnapshot_of_ne (Ne.symm hsource) lease))

end CandidateRegistry

namespace Coordinator

variable {c start : Coordinator} {events before rest : List CoordinatorEvent}

theorem registry_step :
    (c.step canonicalize latest event).registry =
      (c.registry.perform canonicalize latest event).1 := by
  unfold step
  rcases c.registry.perform canonicalize latest event with ⟨registry, error | _ | _⟩ <;> rfl

theorem run_append :
    start.run canonicalize latest (before ++ rest) =
      (start.run canonicalize latest before).run canonicalize latest rest :=
  List.foldl_append

theorem run_nil : c.run canonicalize latest [] = c := rfl

theorem run_cons :
    c.run canonicalize latest (event :: rest) =
      (c.step canonicalize latest event).run canonicalize latest rest := rfl

theorem Accepted.append (h : start.Accepted canonicalize latest s ttl events snapshot)
    (rest : List CoordinatorEvent) :
    start.Accepted canonicalize latest s ttl (events ++ rest) snapshot := by
  obtain ⟨before, now, after, rfl, haccepts⟩ := h
  exact ⟨before, now, after ++ rest, by simp, haccepts⟩

/-- Every lease of the source comes from an observation in an accepted snapshot. -/
theorem lease_run (hstart : ∀ e, start.registry.lease s e = none)
    (hleased : ∀ event ∈ events, event.Leased s ttl) {contribution : CandidateContribution}
    (h : (start.run canonicalize latest events).registry.lease s e = some contribution) :
    ∃ snapshot o, start.Accepted canonicalize latest s ttl events snapshot ∧
      snapshot.Observes canonicalize e o ∧ contribution.expiresAt = some (o + ttl) := by
  induction events using List.reverseRecOn with
  | nil =>
    rw [run, List.foldl_nil, hstart] at h
    cases h
  | append_singleton events event ih =>
    have hevents : ∀ event ∈ events, event.Leased s ttl := fun other hother =>
      hleased other (List.mem_append_left _ hother)
    -- what was held before the event has its observation in the shorter run
    have hheld : (start.run canonicalize latest events).registry.lease s e = some contribution →
        ∃ snapshot o, start.Accepted canonicalize latest s ttl (events ++ [event]) snapshot ∧
          snapshot.Observes canonicalize e o ∧ contribution.expiresAt = some (o + ttl) := by
      intro hbefore
      obtain ⟨snapshot, o, haccepted, hrest⟩ := ih hevents hbefore
      exact ⟨snapshot, o, haccepted.append [event], hrest⟩
    rw [run_append, run_cons, run_nil, registry_step] at h
    generalize hr : (start.run canonicalize latest events).registry = r at h hheld
    rcases @lease_perform canonicalize latest s ttl r event (hleased event (by simp)) with
      ⟨snapshot, now, rfl, hobserved, after, changed, hperform⟩ | ⟨now, rfl⟩ |
        ⟨endpoints, now, rfl⟩ | hsame
    · rw [hperform] at h
      rcases (accepted_snapshot hobserved hperform).1 e contribution h with
        hbefore | ⟨o, hlists, hlease⟩
      · exact hheld hbefore
      · refine ⟨snapshot, o, ⟨events, now, [], rfl, ?_⟩, hlists, hlease⟩
        rw [hr]
        exact ⟨after, changed, hperform⟩
    · change (r.expire now).1.lease s e = _ at h
      rw [lease_expire, Option.filter_eq_some_iff] at h
      exact hheld h.1
    · change (r.setLocalEndpoints endpoints).1.lease s e = _ at h
      rw [lease_setLocalEndpoints] at h
      split at h
      · cases h
      · exact hheld h
    · exact hheld ((hsame e).symm.trans h)

/-- A lease that is not over stays, until a snapshot of the source or an endpoint of
this node takes its place. -/
theorem lease_kept {t deadline : Nat} (hlive : t < deadline)
    (hleased : ∀ event ∈ events, event.Leased s ttl) (htime : ∀ event ∈ events, event.time ≤ t)
    (hlast : ∀ middle snapshot now rest,
      events = middle ++ .command (.snapshot s snapshot (some ttl)) now :: rest →
      ¬ (c.run canonicalize latest middle).registry.Accepts canonicalize latest
        (.command (.snapshot s snapshot (some ttl)) now))
    (hforeign : ∀ middle rest, events = middle ++ rest →
      e ∉ (c.run canonicalize latest middle).registry.localEndpoints)
    (h : c.registry.lease s e = some ⟨some deadline⟩) :
    (c.run canonicalize latest events).registry.lease s e = some ⟨some deadline⟩ := by
  induction events generalizing c with
  | nil => exact h
  | cons event events ih =>
    refine ih (fun other hother => hleased other (List.mem_cons_of_mem _ hother))
      (fun other hother => htime other (List.mem_cons_of_mem _ hother))
      (fun middle snapshot now rest heq =>
        hlast (event :: middle) snapshot now rest (by rw [heq]; rfl))
      (fun middle rest heq => hforeign (event :: middle) rest (by rw [heq]; rfl)) ?_
    -- the first event keeps the lease: it is not over, and not of this node
    have hlocal := hforeign [event] events rfl
    change e ∉ (c.step canonicalize latest event).registry.localEndpoints at hlocal
    rw [registry_step] at hlocal ⊢
    rcases @lease_perform canonicalize latest s ttl c.registry event
      (hleased event List.mem_cons_self) with
      ⟨snapshot, now, rfl, -, haccepts⟩ | ⟨now, rfl⟩ | ⟨endpoints, now, rfl⟩ | hsame
    · exact absurd haccepts (hlast [] snapshot now events rfl)
    · have hnow : now ≤ t := htime (.expiry now) List.mem_cons_self
      change (c.registry.expire now).1.lease s e = _
      rw [lease_expire, h]
      exact Option.filter_some_pos (decide_eq_true (by omega))
    · change (c.registry.setLocalEndpoints endpoints).1.lease s e = _
      rw [lease_setLocalEndpoints]
      exact (if_neg hlocal).trans h
    · rw [hsame, h]

/-- What the last accepted snapshot has observed late enough is still held. -/
theorem lease_last {t o : Nat}
    (hleased : ∀ event ∈ before ++ .command (.snapshot s snapshot (some ttl)) now :: rest,
      event.Leased s ttl)
    (htime : ∀ event ∈ before ++ .command (.snapshot s snapshot (some ttl)) now :: rest,
      event.time ≤ t)
    (haccepts : (start.run canonicalize latest before).registry.Accepts canonicalize latest
      (.command (.snapshot s snapshot (some ttl)) now))
    (hlast : ∀ middle later at' tail,
      rest = middle ++ .command (.snapshot s later (some ttl)) at' :: tail →
      ¬ (start.run canonicalize latest
        (before ++ .command (.snapshot s snapshot (some ttl)) now :: middle)).registry.Accepts
          canonicalize latest (.command (.snapshot s later (some ttl)) at'))
    (hlists : snapshot.Observes canonicalize e o) (hlive : t < o + ttl)
    (hforeign : e ∉ (start.run canonicalize latest before).registry.localEndpoints)
    (hnever : ∀ middle tail, rest = middle ++ tail →
      e ∉ (start.run canonicalize latest (before ++
        .command (.snapshot s snapshot (some ttl)) now :: middle)).registry.localEndpoints) :
    ∃ deadline, t < deadline ∧ (start.run canonicalize latest
      (before ++ .command (.snapshot s snapshot (some ttl)) now :: rest)).registry.lease s e =
        some ⟨some deadline⟩ := by
  obtain ⟨accepted, changed, hperform⟩ := haccepts
  have hsent : CoordinatorEvent.command (.snapshot s snapshot (some ttl)) now ∈
      before ++ .command (.snapshot s snapshot (some ttl)) now :: rest := by simp
  have hnow : now ≤ t := htime _ hsent
  obtain ⟨deadline, hlease, hle⟩ :=
    (accepted_snapshot (hleased _ hsent rfl).1 hperform).2 e o hlists (by omega) hforeign
  have hover : t < deadline := by omega
  refine ⟨deadline, hover, ?_⟩
  -- the snapshot gives the lease, and the rest of the run keeps it
  simp only [run_append, run_cons] at hlast hnever ⊢
  refine lease_kept hover (fun event hevent => hleased event (by simp [hevent]))
    (fun event hevent => htime event (by simp [hevent])) hlast hnever ?_
  rw [registry_step, hperform]
  exact hlease

end Coordinator

end Runs

/-- A source sends observed snapshots with one time to live and leased notices only;
other sources send anything, and time does not go back. After the expiry at `t`:

* what the source holds was observed less than the time to live ago in a snapshot that
  was accepted from it;
* if from some point on it only sent snapshots again that were accepted before, then it
  holds nothing but what was observed late enough in those;
* what its last accepted snapshot observed less than the time to live ago it holds, and
  it is listed, unless it was or has become an endpoint of this node. -/
theorem candidateLeases_bounded (canonicalize : String → Except DiscoveryError String)
    (latest : Nat) (s : String) (ttl : Nat) {maxCandidates : Nat} {registry : CandidateRegistry}
    (hnew : CandidateRegistry.new maxCandidates = .ok registry) {events : List CoordinatorEvent}
    {t : Nat} (hleased : ∀ event ∈ events, event.Leased s ttl)
    (htime : (events ++ [CoordinatorEvent.expiry t]).Pairwise fun earlier later =>
      earlier.time ≤ later.time)
    {start c : Coordinator} (hstart : start = Coordinator.new registry)
    (hrun : c = start.run canonicalize latest (events ++ [.expiry t])) :
    (∀ e, c.registry.contributes s e = true →
      ∃ snapshot o, start.Accepted canonicalize latest s ttl events snapshot ∧
        snapshot.Observes canonicalize e o ∧ t < o + ttl) ∧
    (∀ cached again, events = cached ++ again →
      (∀ snapshot now, .command (.snapshot s snapshot (some ttl)) now ∈ again →
        start.Accepted canonicalize latest s ttl cached snapshot) →
      ∀ e, c.registry.contributes s e = true →
        ∃ snapshot o, start.Accepted canonicalize latest s ttl cached snapshot ∧
          snapshot.Observes canonicalize e o ∧ t < o + ttl) ∧
    (∀ before snapshot now after,
      events = before ++ .command (.snapshot s snapshot (some ttl)) now :: after →
      (start.run canonicalize latest before).registry.Accepts canonicalize latest
        (.command (.snapshot s snapshot (some ttl)) now) →
      (∀ middle later at' rest,
        after = middle ++ .command (.snapshot s later (some ttl)) at' :: rest →
        ¬ (start.run canonicalize latest
          (before ++ .command (.snapshot s snapshot (some ttl)) now :: middle)).registry.Accepts
            canonicalize latest (.command (.snapshot s later (some ttl)) at')) →
      ∀ e o, snapshot.Observes canonicalize e o → t < o + ttl →
        e ∉ (start.run canonicalize latest before).registry.localEndpoints →
        (∀ middle rest, after = middle ++ rest →
          e ∉ (start.run canonicalize latest (before ++
            .command (.snapshot s snapshot (some ttl)) now :: middle)).registry.localEndpoints) →
        c.registry.contributes s e = true ∧ e ∈ c.registry.endpoints ∧ e ∈ c.candidates) := by
  subst hstart
  obtain ⟨hsound, -⟩ := sound_new hnew
  have hempty : ∀ e, (Coordinator.new registry).registry.lease s e = none := by
    intro e
    unfold CandidateRegistry.new at hnew
    split at hnew
    · cases hnew
    · cases hnew
      simp [Coordinator.new, lease]
  -- the run ends with the expiry at `t`
  have hexpire : ∀ e, c.registry.lease s e =
      (((Coordinator.new registry).run canonicalize latest events).registry.lease s e).filter
        fun contribution => contribution.expiresAt.all fun deadline => decide (deadline > t) := by
    intro e
    rw [hrun, Coordinator.run_append]
    exact (congrArg (fun r => CandidateRegistry.lease r s e) Coordinator.registry_step).trans
      (lease_expire t)
  have hbound : ∀ e, c.registry.contributes s e = true →
      ∃ snapshot o, (Coordinator.new registry).Accepted canonicalize latest s ttl events snapshot ∧
        snapshot.Observes canonicalize e o ∧ t < o + ttl := by
    intro e hheld
    rw [contributes_eq_isSome_lease, hexpire, Option.isSome_iff_exists] at hheld
    obtain ⟨contribution, hcontribution⟩ := hheld
    obtain ⟨hlease, hlive⟩ := Option.filter_eq_some_iff.mp hcontribution
    obtain ⟨snapshot, o, haccepted, hlists, hdeadline⟩ :=
      Coordinator.lease_run hempty hleased hlease
    rw [hdeadline] at hlive
    exact ⟨snapshot, o, haccepted, hlists, of_decide_eq_true hlive⟩
  refine ⟨hbound, ?_, ?_⟩
  · rintro cached again rfl hagain e hheld
    obtain ⟨snapshot, o, ⟨before, now, after, hsplit, haccepts⟩, hlists, hlive⟩ := hbound e hheld
    refine ⟨snapshot, o, ?_, hlists, hlive⟩
    -- the snapshot was accepted in the first part, or was sent again in the second
    rcases List.append_eq_append_iff.mp hsplit with ⟨rest, rfl, hrest⟩ | ⟨rest, hcached, hrest⟩
    · exact hagain snapshot now (by rw [hrest]; simp)
    · cases rest with
      | nil => exact hagain snapshot now (by rw [List.nil_append] at hrest; rw [← hrest]; simp)
      | cons event rest =>
        obtain ⟨rfl, -⟩ := List.cons.inj hrest
        exact ⟨before, now, rest, hcached, haccepts⟩
  · rintro before snapshot now after rfl haccepts hlast e o hlists hlive hforeign hnever
    have htimes : ∀ event ∈ before ++ .command (.snapshot s snapshot (some ttl)) now :: after,
        event.time ≤ t := fun event hevent =>
      (List.pairwise_append.mp htime).2.2 event hevent (.expiry t) List.mem_cons_self
    obtain ⟨deadline, hover, hlease⟩ :=
      Coordinator.lease_last hleased htimes haccepts hlast hlists hlive hforeign hnever
    have hkept : c.registry.lease s e = some ⟨some deadline⟩ := by
      rw [hexpire, hlease]
      exact Option.filter_some_pos (decide_eq_true hover)
    have hholds : c.registry.contributes s e = true := by
      rw [contributes_eq_isSome_lease, hkept]
      rfl
    have hpublished : (Coordinator.new registry).Published := ⟨hsound, rfl⟩
    obtain ⟨hc, -⟩ := @Coordinator.Published.run canonicalize latest _ hpublished
      (before ++ .command (.snapshot s snapshot (some ttl)) now :: after ++ [.expiry t])
    rw [← hrun] at hc
    have hlisted : e ∈ c.registry.endpoints := by
      rw [hc.sound.endpoints_eq, hc.sound.mem_order]
      exact mem_of_contributes hholds
    exact ⟨hholds, hlisted, hc.current ▸ hlisted⟩

/-- Upper case `P` is another spelling. -/
def oneSpelling (endpoint : String) : Except DiscoveryError String :=
  .ok (if endpoint = "P" then "p" else endpoint)

/-- Two spellings of one endpoint; the snapshot is sent again after the source was
unavailable. -/
def observedRun : List CoordinatorEvent :=
  [.command (.snapshot "s" (.observed 1 [("P", 2), ("p", 5)]) (some 10)) 6,
    .command (.sourceUnavailable "s" true) 8,
    .command (.snapshot "s" (.observed 1 [("P", 2), ("p", 5)]) (some 10)) 9]

/-- An empty registry. -/
def fourCandidates : CandidateRegistry :=
  { maxCandidates := 4, order := [], sourceOrder := [], sourceCandidates := ∅, records := ∅
    localEndpoints := ∅ }

theorem observedRun_leased : ∀ event ∈ observedRun, event.Leased "s" 10 := by
  simp [observedRun, CoordinatorEvent.Leased, DiscoverySnapshot.observed]

theorem observedRun_ordered :
    (observedRun ++ [CoordinatorEvent.expiry 12]).Pairwise fun earlier later =>
      earlier.time ≤ later.time := by
  decide +kernel

theorem observedRun_held :
    ((Coordinator.new fourCandidates).run oneSpelling 100
      (observedRun ++ [.expiry 12])).registry.contributes "s" "p" = true := by
  decide +kernel

theorem candidateLeases_bounded_observed :
    ∃ snapshot o,
      (Coordinator.new fourCandidates).Accepted oneSpelling 100 "s" 10 observedRun snapshot ∧
        snapshot.Observes oneSpelling "p" o ∧ 12 < o + 10 :=
  (@candidateLeases_bounded oneSpelling 100 "s" 10 4 fourCandidates rfl observedRun 12
    observedRun_leased observedRun_ordered _ _ rfl rfl).1 "p" observedRun_held

end Numax
