import Numax.Discovery.Candidates

/-!
# The candidate registry over whole runs

The five collections of the registry are views of one relation, which source
contributes which endpoint (`contributes`). The invariant `Sound` says so: a record
is an endpoint with a source, every contribution is listed by its source, and the
order is the records. Each operation changes the relation, prunes the lists, and
rebuilds the order, so it is enough to follow the relation; `Sound` then comes from
`Wf.rebuildOrder`.

What an operation reports is exact (`Outcome`): a refusal leaves the registry as it
was, and otherwise the flag says whether the endpoints are others than before. So
the coordinator sends on its channel exactly when it has to.
-/

open Base Std

namespace Numax

/-- The endpoints of this node after the event. -/
def CoordinatorEvent.localEndpoints (before : OrdSet String) : CoordinatorEvent → OrdSet String
  | .command (.setLocalEndpoints endpoints) _ =>
    endpoints.foldl (fun set endpoint => set.insert endpoint) ∅
  | _ => before

/-- What the last command for them has set. -/
def lastLocalEndpoints (events : List CoordinatorEvent) : OrdSet String :=
  events.foldl CoordinatorEvent.localEndpoints ∅

namespace CandidateRegistry

/-! ## The invariant -/

structure Loose (r : CandidateRegistry) : Prop where
  bounded : r.records.size ≤ r.maxCandidates
  listed : ∀ e s, r.contributes s e = true →
    s ∈ r.sourceOrder ∧ ∃ candidates, r.sourceCandidates[s]? = some candidates ∧ e ∈ candidates
  foreign : ∀ e ∈ r.records, e ∉ r.localEndpoints

/-- Every record has a source, too. -/
structure Wf (r : CandidateRegistry) : Prop extends Loose r where
  sourced : ∀ e ∈ r.records, ∃ s, r.contributes s e = true

/-- And the order is that of the records. -/
structure Sound (r : CandidateRegistry) : Prop extends Wf r where
  nodup : r.order.Nodup
  mem_order : ∀ e, e ∈ r.order ↔ e ∈ r.records

variable {r : CandidateRegistry} {s e sourceId endpoint : String}

theorem contributes_iff :
    r.contributes s e = true ↔ ∃ record, r.records[e]? = some record ∧ s ∈ record.sources := by
  rw [contributes, Option.any_eq_true]
  simp only [ExtTreeMap.contains_iff_mem]

theorem mem_of_contributes (h : r.contributes s e = true) :
    e ∈ r.records := by
  obtain ⟨record, hrecord, -⟩ := contributes_iff.mp h
  exact ExtTreeMap.mem_iff_isSome_getElem?.mpr (by rw [hrecord]; rfl)

/-- What the source contributes for the endpoint. -/
def lease (r : CandidateRegistry) (s e : String) : Option CandidateContribution :=
  r.records[e]?.bind fun record => record.sources[s]?

theorem contributes_eq_isSome_lease : r.contributes s e = (r.lease s e).isSome := by
  unfold contributes lease
  cases r.records[e]? with
  | none => rfl
  | some record => exact OrdMap.contains_eq_get record.sources s

theorem Sound.endpoints_eq (h : Sound r) : r.endpoints = r.order := by
  refine List.filter_eq_self.mpr fun e he => ?_
  exact ExtTreeMap.contains_iff_mem.mpr ((h.mem_order e).mp he)

/-! ## Order -/

theorem mem_foldl_pushSource {sources : List String} {d : Distinct String} :
    e ∈ (sources.foldl r.pushSource d).items ↔ e ∈ d.items ∨ ∃ s ∈ sources, ∃ candidates,
      r.sourceCandidates[s]? = some candidates ∧ e ∈ candidates ∧ r.contributes s e = true := by
  induction sources generalizing d with
  | nil => simp
  | cons s sources ih =>
    rw [List.foldl_cons, ih]
    cases hlist : r.sourceCandidates[s]? with
    | none => simp [pushSource, hlist]
    | some candidates => simp [pushSource, hlist, Distinct.mem_items_pushWhere, or_assoc]

theorem Wf.rebuildOrder (h : Wf r) : Sound r.rebuildOrder := by
  refine { h with nodup := Distinct.nodup _, mem_order := fun e => ?_ }
  refine mem_foldl_pushSource.trans ⟨?_, fun he => ?_⟩
  · rintro (hnone | ⟨s, -, candidates, -, -, hcontributes⟩)
    · cases hnone
    · exact mem_of_contributes hcontributes
  · obtain ⟨s, hs⟩ := h.sourced e he
    obtain ⟨hsource, candidates, hlist, hmem⟩ := h.listed e s hs
    exact .inr ⟨s, hsource, candidates, hlist, hmem, hs⟩

theorem Wf.pruneSourceCandidates (h : Wf r) : Wf r.pruneSourceCandidates := by
  refine { h with listed := fun e s hs => ?_ }
  obtain ⟨hsource, candidates, hlist, hmem⟩ := h.listed e s hs
  have hkept : e ∈ candidates.filter (r.contributes s) := List.mem_filter.mpr ⟨hmem, hs⟩
  refine ⟨hsource, candidates.filter (r.contributes s), ?_, hkept⟩
  have hne : candidates.filter (r.contributes s) ≠ [] := List.ne_nil_of_mem hkept
  simp [CandidateRegistry.pruneSourceCandidates, ExtTreeMap.getElem?_map, hlist, hne]

/-! ## Records -/

@[simp] theorem lease_pruneEmpty : r.pruneEmpty.lease s e = r.lease s e := by
  unfold lease pruneEmpty
  rw [ExtTreeMap.getElem?_filter']
  cases r.records[e]? with
  | none => rfl
  | some record =>
    cases hempty : record.sources.isEmpty with
    | true =>
      have hnone : record.sources = ∅ := ExtTreeMap.isEmpty_iff.mp hempty
      simp [hnone]
    | false => rw [Option.filter_some_pos (by rw [hempty]; rfl)]

theorem contributes_pruneEmpty (r : CandidateRegistry) (s e : String) :
    r.pruneEmpty.contributes s e = r.contributes s e := by
  rw [contributes_eq_isSome_lease, lease_pruneEmpty, ← contributes_eq_isSome_lease]

theorem Loose.pruneEmpty (h : Loose r) : Wf r.pruneEmpty where
  bounded := ExtTreeMap.size_filter_le_size.trans h.bounded
  listed e s hs := h.listed e s (by rwa [contributes_pruneEmpty] at hs)
  foreign e he := h.foreign e (ExtTreeMap.mem_of_mem_filter he)
  sourced e he := by
    obtain ⟨record, hrecord⟩ := Option.isSome_iff_exists.mp
      (ExtTreeMap.mem_iff_isSome_getElem?.mp he)
    have hkept := hrecord
    rw [CandidateRegistry.pruneEmpty, ExtTreeMap.getElem?_filter', Option.filter_eq_some_iff,
      Bool.not_eq_true', OrdMap.isEmpty_eq_false_iff_exists] at hkept
    obtain ⟨-, s, hs⟩ := hkept
    exact ⟨s, contributes_iff.mpr ⟨record, hrecord, hs⟩⟩

variable {keep : String → String → CandidateContribution → Bool}

@[simp] theorem lease_retainContributions
    (keep : String → String → CandidateContribution → Bool) :
    (r.retainContributions keep).lease s e = (r.lease s e).filter (keep e s) := by
  unfold lease retainContributions
  rw [ExtTreeMap.getElem?_map]
  cases r.records[e]? with
  | none => rfl
  | some record => simp only [Option.map_some, Option.bind_some, ExtTreeMap.getElem?_filter']

theorem contributes_retainContributions :
    (r.retainContributions keep).contributes s e = true ↔
      ∃ contribution, r.lease s e = some contribution ∧ keep e s contribution = true := by
  rw [contributes_eq_isSome_lease, lease_retainContributions, Option.isSome_iff_exists]
  exact exists_congr fun contribution => Option.filter_eq_some_iff

theorem contributes_of_retain (h : (r.retainContributions keep).contributes s e = true) :
    r.contributes s e = true := by
  obtain ⟨contribution, hlease, -⟩ := contributes_retainContributions.mp h
  rw [contributes_eq_isSome_lease, hlease]
  rfl

theorem Loose.retainContributions (h : Loose r)
    (keep : String → String → CandidateContribution → Bool) :
    Loose (r.retainContributions keep) where
  bounded := ExtTreeMap.size_map.le.trans h.bounded
  listed e s hs := h.listed e s (contributes_of_retain hs)
  foreign e he := h.foreign e (ExtTreeMap.mem_map.mp he)

/-! ## Outcomes -/

/-- A refusal leaves the registry as it was; otherwise the flag tells whether the
endpoints have changed. The endpoints of this node are the given ones. -/
def Outcome (before : CandidateRegistry) (own : OrdSet String)
    (result : CandidateRegistry × Except DiscoveryError Bool) : Prop :=
  result.1.localEndpoints = own ∧
  match result.2 with
  | .error _ => result.1 = before
  | .ok changed => Sound result.1 ∧ result.1.maxCandidates = before.maxCandidates ∧
      (changed = true ↔ result.1.endpoints ≠ before.endpoints)

theorem Outcome.refused (r : CandidateRegistry) (error : DiscoveryError) :
    Outcome r r.localEndpoints (r, .error error) :=
  ⟨rfl, rfl⟩

theorem Sound.unchanged (h : Sound r) : Outcome r r.localEndpoints (r, .ok false) :=
  ⟨rfl, h, rfl, by simp⟩

theorem Loose.settle {before : CandidateRegistry} (h : Loose r)
    (hmax : r.maxCandidates = before.maxCandidates) :
    Outcome before r.localEndpoints ((settle before r).map id .ok) :=
  ⟨rfl, h.pruneEmpty.pruneSourceCandidates.rebuildOrder, hmax, decide_eq_true_iff⟩

theorem Sound.expire (h : Sound r) (now : Nat) :
    Outcome r r.localEndpoints ((r.expire now).map id .ok) :=
  (h.toLoose.retainContributions _).settle rfl

theorem Sound.sourceUnavailable (h : Sound r) (sourceId : String) (leased : Bool) :
    Outcome r r.localEndpoints ((r.sourceUnavailable sourceId leased).map id .ok) := by
  rw [CandidateRegistry.sourceUnavailable]
  split
  · exact h.unchanged
  · have hkept := h.toLoose.retainContributions fun _ source _ => source != sourceId
    refine Loose.settle ⟨hkept.bounded, fun e s hs => ?_, hkept.foreign⟩ rfl
    obtain ⟨hsource, candidates, hlist, hmem⟩ := hkept.listed e s hs
    obtain ⟨-, -, hother⟩ := contributes_retainContributions.mp hs
    refine ⟨hsource, candidates, ?_, hmem⟩
    rw [OrdMap.get_erase, if_neg (bne_iff_ne.mp hother).symm]
    exact hlist

theorem Sound.remove (h : Sound r) (sourceId endpoint : String) :
    Outcome r r.localEndpoints ((r.remove sourceId endpoint).map id .ok) := by
  have hsubset : ∀ e ∈ r.records.alter endpoint
      (Option.map fun record => ⟨record.sources.erase sourceId⟩), e ∈ r.records := by
    intro e he
    rw [ExtTreeMap.mem_iff_isSome_getElem?, OrdMap.get_alter] at he
    rw [ExtTreeMap.mem_iff_isSome_getElem?]
    split at he
    · next heq => simpa [← heq] using he
    · exact he
  refine Loose.settle ⟨(OrdMap.size_le_of_subset hsubset).trans h.bounded, fun e s hs => ?_,
    fun e he => h.foreign e (hsubset e he)⟩ rfl
  -- the contribution was there before, and it is not the one that goes
  have hbefore : r.contributes s e = true ∧ ¬ (s = sourceId ∧ e = endpoint) := by
    obtain ⟨record, hrecord, hsource⟩ := contributes_iff.mp hs
    simp only [OrdMap.get_alter] at hrecord
    split at hrecord
    · next heq =>
        subst heq
        obtain ⟨old, hold, rfl⟩ := Option.map_eq_some_iff.mp hrecord
        rw [ExtTreeMap.mem_erase, ne_eq, LawfulEqOrd.compare_eq_iff_eq] at hsource
        exact ⟨contributes_iff.mpr ⟨old, hold, hsource.2⟩, fun hgone => hsource.1 hgone.1.symm⟩
    · next hne => exact ⟨contributes_iff.mpr ⟨record, hrecord, hsource⟩,
          fun hgone => hne hgone.2.symm⟩
  obtain ⟨hsource, candidates, hlist, hmem⟩ := h.listed e s hbefore.1
  by_cases heq : sourceId = s
  · subst heq
    refine ⟨hsource, candidates.filter (· ≠ endpoint), ?_, ?_⟩
    · simp only [OrdMap.get_alter, if_true, hlist, Option.map_some]
    · exact List.mem_filter.mpr ⟨hmem, decide_eq_true fun hgone => hbefore.2 ⟨rfl, hgone⟩⟩
  · refine ⟨hsource, candidates, ?_, hmem⟩
    simp only [OrdMap.get_alter, if_neg heq, hlist]

theorem Sound.setLocalEndpoints (h : Sound r) (endpoints : List String) :
    Outcome r (endpoints.foldl (fun set endpoint => set.insert endpoint) ∅)
      ((r.setLocalEndpoints endpoints).map id .ok) := by
  refine ⟨rfl, (Wf.pruneSourceCandidates ?_).rebuildOrder, rfl, decide_eq_true_iff⟩
  generalize endpoints.foldl (fun set endpoint => set.insert endpoint) (∅ : OrdSet String) = own
  have hrecord : ∀ {e record}, (r.records.filter fun endpoint _ => !own.contains endpoint)[e]? =
      some record → r.records[e]? = some record ∧ e ∉ own := by
    intro e record hget
    rw [ExtTreeMap.getElem?_filter', Option.filter_eq_some_iff] at hget
    refine ⟨hget.1, fun hown => ?_⟩
    rw [ExtTreeSet.mem_iff_contains.mp hown] at hget
    cases hget.2
  have hcontributes : ∀ {s e}, contributes { r with
      localEndpoints := own
      records := r.records.filter fun endpoint _ => !own.contains endpoint } s e = true →
      r.contributes s e = true := by
    intro s e hs
    obtain ⟨record, hget, hsource⟩ := contributes_iff.mp hs
    exact contributes_iff.mpr ⟨record, (hrecord hget).1, hsource⟩
  have hmem : ∀ {e}, e ∈ (r.records.filter fun endpoint _ => !own.contains endpoint) →
      ∃ record, (r.records.filter fun endpoint _ => !own.contains endpoint)[e]? = some record :=
    fun he => Option.isSome_iff_exists.mp (ExtTreeMap.mem_iff_isSome_getElem?.mp he)
  refine { bounded := ExtTreeMap.size_filter_le_size.trans h.bounded
           listed := fun e s hs => h.listed e s (hcontributes hs)
           foreign := fun e he => ?_
           sourced := fun e he => ?_ }
  · obtain ⟨record, hget⟩ := hmem he
    exact (hrecord hget).2
  · obtain ⟨record, hget⟩ := hmem he
    obtain ⟨s, hs⟩ := h.sourced e (ExtTreeMap.mem_of_mem_filter he)
    obtain ⟨old, hold, hsource⟩ := contributes_iff.mp hs
    have heq : old = record := Option.some.inj (hold.symm.trans (hrecord hget).1)
    exact ⟨s, contributes_iff.mpr ⟨record, hget, heq ▸ hsource⟩⟩

/-! ## New contributions -/

theorem lease_contribute (sourceId endpoint : String) (contribution : CandidateContribution) :
    (r.contribute sourceId endpoint contribution).lease s e =
      if s = sourceId ∧ e = endpoint then some contribution else r.lease s e := by
  unfold lease contribute
  rw [OrdMap.get_insert]
  by_cases hendpoint : endpoint = e
  · subst hendpoint
    rw [if_pos rfl, Option.bind_some, OrdMap.get_insert]
    by_cases hsource : sourceId = s
    · simp [hsource]
    · rw [if_neg hsource, if_neg fun h => hsource h.1.symm]
      cases r.records[endpoint]? with
      | none => rfl
      | some record => rfl
  · rw [if_neg hendpoint, if_neg fun h => hendpoint h.2.symm]

variable {contribution : CandidateContribution}

theorem contributes_contribute :
    (r.contribute sourceId endpoint contribution).contributes s e = true ↔
      r.contributes s e = true ∨ s = sourceId ∧ e = endpoint := by
  rw [contributes_eq_isSome_lease, contributes_eq_isSome_lease, lease_contribute]
  by_cases hnew : s = sourceId ∧ e = endpoint
  · simp [hnew]
  · rw [if_neg hnew, or_iff_left hnew]

theorem mem_records_contribute :
    e ∈ (r.contribute sourceId endpoint contribution).records ↔ e = endpoint ∨ e ∈ r.records := by
  rw [contribute, ExtTreeMap.mem_insert, LawfulEqOrd.compare_eq_iff_eq, eq_comm]

theorem sourced_contribute (h : ∀ e ∈ r.records, ∃ s, r.contributes s e = true) :
    ∀ e ∈ (r.contribute sourceId endpoint contribution).records,
      ∃ s, (r.contribute sourceId endpoint contribution).contributes s e = true := by
  intro e he
  rcases mem_records_contribute.mp he with rfl | hbefore
  · exact ⟨sourceId, contributes_contribute.mpr (.inr ⟨rfl, rfl⟩)⟩
  · obtain ⟨s, hs⟩ := h e hbefore
    exact ⟨s, contributes_contribute.mpr (.inl hs)⟩

theorem foreign_contribute (h : ∀ e ∈ r.records, e ∉ r.localEndpoints)
    (hforeign : endpoint ∉ r.localEndpoints) :
    ∀ e ∈ (r.contribute sourceId endpoint contribution).records, e ∉ r.localEndpoints := by
  intro e he
  rcases mem_records_contribute.mp he with rfl | hbefore
  · exact hforeign
  · exact h e hbefore

/-- There is room, or the endpoint has its record already. -/
theorem size_contribute (h : r.records.size ≤ r.maxCandidates)
    (hroom : ¬ (!r.records.contains endpoint && decide (r.records.size ≥ r.maxCandidates)) = true) :
    (r.contribute sourceId endpoint contribution).records.size ≤ r.maxCandidates := by
  rw [contribute, ExtTreeMap.size_insert]
  simp only [Bool.and_eq_true, Bool.not_eq_true', decide_eq_true_eq, not_and] at hroom
  split
  · exact h
  · next hnew =>
      have := hroom (Bool.eq_false_iff.mpr hnew)
      omega

/-- For sound registries the order tells as much as the endpoints. -/
theorem Sound.outcome_order {updated : CandidateRegistry} (h : Sound r) (hupdated : Sound updated)
    (hmax : updated.maxCandidates = r.maxCandidates)
    (hown : updated.localEndpoints = r.localEndpoints) :
    Outcome r r.localEndpoints (updated, .ok (decide (updated.order ≠ r.order))) :=
  ⟨hown, hupdated, hmax, by rw [decide_eq_true_iff, hupdated.endpoints_eq, h.endpoints_eq]⟩

theorem registerSource_eq (r : CandidateRegistry) (sourceId : String) :
    ∃ sourceOrder, r.registerSource sourceId = { r with sourceOrder } ∧
      ∀ s, s ∈ sourceOrder ↔ s ∈ r.sourceOrder ∨ s = sourceId := by
  rw [registerSource]
  split
  · next hknown =>
      exact ⟨r.sourceOrder, rfl, fun s => ⟨.inl, fun hs => hs.elim id fun heq => heq ▸ hknown⟩⟩
  · exact ⟨_, rfl, fun s => by simp⟩

theorem Wf.insertCandidate (h : Wf r) (hforeign : endpoint ∉ r.localEndpoints)
    (hroom : ¬ (!r.records.contains endpoint && decide (r.records.size ≥ r.maxCandidates)) = true)
    (contribution : CandidateContribution) :
    Sound (r.insertCandidate sourceId endpoint contribution) ∧
      (r.insertCandidate sourceId endpoint contribution).maxCandidates = r.maxCandidates ∧
      (r.insertCandidate sourceId endpoint contribution).localEndpoints = r.localEndpoints := by
  obtain ⟨sourceOrder, hregister, hsources⟩ := registerSource_eq r sourceId
  simp only [CandidateRegistry.insertCandidate, hregister]
  generalize hlisted : (if endpoint ∈ (r.sourceCandidates[sourceId]?).getD [] then
    (r.sourceCandidates[sourceId]?).getD []
    else (r.sourceCandidates[sourceId]?).getD [] ++ [endpoint]) = candidates
  have hnew : endpoint ∈ candidates := by
    rw [← hlisted]
    split
    · next hin => exact hin
    · exact List.mem_append_right _ List.mem_cons_self
  have hold : ∀ e old, r.sourceCandidates[sourceId]? = some old → e ∈ old → e ∈ candidates := by
    intro e old hget he
    rw [← hlisted, hget]
    split
    · exact he
    · exact List.mem_append_left _ he
  refine ⟨Wf.rebuildOrder
    { bounded := size_contribute h.bounded hroom
      listed := fun e s hs => ?_
      foreign := foreign_contribute h.foreign hforeign
      sourced := sourced_contribute h.sourced }, rfl, rfl⟩
  rcases contributes_contribute.mp hs with hbefore | ⟨rfl, rfl⟩
  · obtain ⟨hsource, old, hget, hmem⟩ := h.listed e s hbefore
    refine ⟨(hsources s).mpr (.inl hsource), ?_⟩
    by_cases heq : sourceId = s
    · subst heq
      exact ⟨candidates, ExtTreeMap.getElem?_insert_self, hold e old hget hmem⟩
    · exact ⟨old, (OrdMap.get_insert_ne _ _ heq).trans hget, hmem⟩
  · exact ⟨(hsources s).mpr (.inr rfl), candidates, ExtTreeMap.getElem?_insert_self, hnew⟩

theorem Sound.add (h : Sound r) (latest : Nat) (sourceId endpoint : String) (ttl : Option Nat)
    (now : Nat) : Outcome r r.localEndpoints (r.add latest sourceId endpoint ttl now) := by
  simp only [CandidateRegistry.add]
  split
  · exact h.unchanged
  · next hforeign =>
      split
      · exact .refused r _
      · next hroom =>
          have hinsert : ∀ expiresAt, Outcome r r.localEndpoints
              (r.insertCandidate sourceId endpoint ⟨expiresAt⟩,
                .ok (decide ((r.insertCandidate sourceId endpoint ⟨expiresAt⟩).order ≠ r.order))) :=
            fun expiresAt =>
              have hnew := h.toWf.insertCandidate hforeign hroom ⟨expiresAt⟩
              h.outcome_order hnew.1 hnew.2.1 hnew.2.2
          split
          · exact hinsert none
          · split
            · exact .refused r _
            · exact hinsert _

/-! ## Replacements -/

/-- In the middle of a replacement: what the source contributes is among the new
endpoints, and its list is not written yet. -/
structure Staged (sourceId : String) (endpoints : List String) (r : CandidateRegistry) : Prop where
  bounded : r.records.size ≤ r.maxCandidates
  sourced : ∀ e ∈ r.records, ∃ s, r.contributes s e = true
  foreign : ∀ e ∈ r.records, e ∉ r.localEndpoints
  registered : sourceId ∈ r.sourceOrder
  own : ∀ e, r.contributes sourceId e = true → e ∈ endpoints
  others : ∀ e s, s ≠ sourceId → r.contributes s e = true →
    s ∈ r.sourceOrder ∧ ∃ candidates, r.sourceCandidates[s]? = some candidates ∧ e ∈ candidates

theorem mem_foldl_insert {α : Type} (key : α → String) (xs : List α) (set : OrdSet String)
    (e : String) :
    e ∈ xs.foldl (fun set x => set.insert (key x)) set ↔ e ∈ set ∨ e ∈ xs.map key := by
  induction xs generalizing set with
  | nil => simp
  | cons x xs ih =>
    rw [List.foldl_cons, ih, ExtTreeSet.mem_insert, LawfulEqOrd.compare_eq_iff_eq, List.map_cons,
      List.mem_cons, @eq_comm _ (key x)]
    tauto

theorem Wf.staged (h : Wf r) (sourceId : String) {retained : OrdSet String}
    {endpoints : List String} (hretained : ∀ e, e ∈ retained ↔ e ∈ endpoints) :
    Staged sourceId endpoints
      ((r.registerSource sourceId).removeSourceExcept sourceId retained) := by
  obtain ⟨sourceOrder, hregister, hsources⟩ := registerSource_eq r sourceId
  rw [hregister, removeSourceExcept]
  have hregistered : Loose { r with sourceOrder } :=
    ⟨h.bounded, fun e s hs => ⟨(hsources s).mpr (.inl (h.listed e s hs).1), (h.listed e s hs).2⟩,
      h.foreign⟩
  have hpruned := (hregistered.retainContributions fun endpoint source _ =>
    retained.contains endpoint || source != sourceId).pruneEmpty
  refine ⟨hpruned.bounded, hpruned.sourced, hpruned.foreign, (hsources sourceId).mpr (.inr rfl),
    fun e hs => ?_, fun e s _ hs => hpruned.listed e s hs⟩
  rw [contributes_pruneEmpty] at hs
  obtain ⟨-, -, hkeep⟩ := contributes_retainContributions.mp hs
  rw [bne_self_eq_false, Bool.or_false] at hkeep
  exact (hretained e).mp hkeep

variable {endpoints : List String}

theorem Staged.contribute (h : Staged sourceId endpoints r) (hnew : endpoint ∈ endpoints)
    (hforeign : endpoint ∉ r.localEndpoints)
    (hroom : ¬ (!r.records.contains endpoint && decide (r.records.size ≥ r.maxCandidates)) = true)
    (contribution : CandidateContribution) :
    Staged sourceId endpoints (r.contribute sourceId endpoint contribution) where
  bounded := size_contribute h.bounded hroom
  sourced := sourced_contribute h.sourced
  foreign := foreign_contribute h.foreign hforeign
  registered := h.registered
  own e hs := by
    rcases contributes_contribute.mp hs with hbefore | ⟨-, rfl⟩
    · exact h.own e hbefore
    · exact hnew
  others e s hother hs := by
    rcases contributes_contribute.mp hs with hbefore | ⟨hsame, -⟩
    · exact h.others e s hother hbefore
    · exact absurd hsame hother

section Loop

variable {contributions : List (String × CandidateContribution)} {updated : CandidateRegistry}
  {candidates listed : List String}

/-- One turn of the loop over the contributions of a replacement. -/
theorem contributeLoop_cons {entry : String × CandidateContribution}
    (h : contributeLoop sourceId (entry :: contributions) r candidates = .ok (updated, listed)) :
    ∃ next,
      contributeLoop sourceId contributions next (candidates ++ [entry.1]) =
        .ok (updated, listed) ∧
      (entry.1 ∈ r.localEndpoints ∧ next = r ∨
        entry.1 ∉ r.localEndpoints ∧ next = r.contribute sourceId entry.1 entry.2 ∧
        ¬ (!r.records.contains entry.1 && decide (r.records.size ≥ r.maxCandidates)) = true) := by
  rw [contributeLoop] at h
  split at h
  · next hlocal => exact ⟨r, h, .inl ⟨ExtTreeSet.mem_iff_contains.mpr hlocal, rfl⟩⟩
  · next hforeign =>
      split at h
      · cases h
      · next hroom =>
          exact ⟨_, h, .inr
            ⟨fun hmem => hforeign (ExtTreeSet.mem_iff_contains.mp hmem), rfl, hroom⟩⟩

theorem Staged.contributeLoop (h : Staged sourceId endpoints r)
    (hsubset : ∀ entry ∈ contributions, entry.1 ∈ endpoints)
    (hloop : contributeLoop sourceId contributions r candidates = .ok (updated, listed)) :
    Staged sourceId endpoints updated ∧ listed = candidates ++ contributions.map Prod.fst ∧
      updated.maxCandidates = r.maxCandidates ∧ updated.localEndpoints = r.localEndpoints := by
  induction contributions generalizing r candidates with
  | nil =>
    cases hloop
    exact ⟨h, (List.append_nil _).symm, rfl, rfl⟩
  | cons entry rest ih =>
    have hrest : ∀ entry ∈ rest, entry.1 ∈ endpoints := fun entry hentry =>
      hsubset entry (List.mem_cons_of_mem _ hentry)
    rw [List.map_cons, ← List.singleton_append, ← List.append_assoc]
    obtain ⟨next, hturn, hnext⟩ := contributeLoop_cons hloop
    rcases hnext with ⟨-, rfl⟩ | ⟨hforeign, rfl, hroom⟩
    · exact ih h hrest hturn
    · have hnext := h.contribute (hsubset _ List.mem_cons_self) hforeign hroom entry.2
      exact @ih (r.contribute sourceId entry.1 entry.2) _ hnext hrest hturn

end Loop

/-- With the list of the source, the replacement is complete. -/
theorem Staged.finish (h : Staged sourceId endpoints r) :
    Wf { r with sourceCandidates := r.sourceCandidates.insert sourceId endpoints } where
  bounded := h.bounded
  foreign := h.foreign
  sourced := h.sourced
  listed e s hs := by
    by_cases heq : sourceId = s
    · subst heq
      exact ⟨h.registered, endpoints, ExtTreeMap.getElem?_insert_self, h.own e hs⟩
    · obtain ⟨hsource, candidates, hget, hmem⟩ := h.others e s (Ne.symm heq) hs
      exact ⟨hsource, candidates, (OrdMap.get_insert_ne _ _ heq).trans hget, hmem⟩

theorem Sound.replaceContributions (h : Sound r) (sourceId : String)
    (contributions : List (String × CandidateContribution)) :
    Outcome r r.localEndpoints (r.replaceContributions sourceId contributions) := by
  have hstaged := @Wf.staged r h.toWf sourceId
    (contributions.foldl (fun set entry => set.insert entry.1) ∅) (contributions.map Prod.fst)
    (fun e => by simp [mem_foldl_insert])
  simp only [CandidateRegistry.replaceContributions]
  split
  · exact .refused r _
  · next updated candidates hloop =>
      obtain ⟨hupdated, hlisted, hmax, hown⟩ := hstaged.contributeLoop
        (fun entry hentry => List.mem_map_of_mem hentry) hloop
      rw [List.nil_append] at hlisted
      subst hlisted
      obtain ⟨sourceOrder, hregister, -⟩ := registerSource_eq r sourceId
      rw [hregister] at hmax hown
      exact h.outcome_order hupdated.finish.rebuildOrder hmax hown

theorem Sound.replaceSource (h : Sound r)
    (canonicalize : String → Except DiscoveryError String) (latest : Nat) (sourceId : String)
    (peers : List String) (ttl : Option Nat) (now : Nat) :
    Outcome r r.localEndpoints (r.replaceSource canonicalize latest sourceId peers ttl now) := by
  simp only [CandidateRegistry.replaceSource]
  split
  · exact .refused r _
  · split
    · split
      · exact .refused r _
      · exact h.replaceContributions sourceId _
    · exact h.replaceContributions sourceId _

theorem Sound.replaceSnapshot (h : Sound r)
    (canonicalize : String → Except DiscoveryError String) (latest : Nat) (sourceId : String)
    (snapshot : DiscoverySnapshot) (ttl : Option Nat) (now : Nat) :
    Outcome r r.localEndpoints
      (r.replaceSnapshot canonicalize latest sourceId snapshot ttl now) := by
  simp only [CandidateRegistry.replaceSnapshot]
  split
  · exact h.replaceSource canonicalize latest sourceId _ ttl now
  · split
    · exact .refused r _
    · split
      · exact .refused r _
      · exact h.replaceContributions sourceId _

/-! ## Runs -/

theorem Sound.perform (h : Sound r)
    (canonicalize : String → Except DiscoveryError String) (latest : Nat)
    (event : CoordinatorEvent) :
    Outcome r (event.localEndpoints r.localEndpoints) (r.perform canonicalize latest event) := by
  cases event with
  | expiry now => exact h.expire now
  | command command now =>
    cases command with
    | snapshot sourceId snapshot ttl => exact h.replaceSnapshot _ _ _ _ _ _
    | replaceSource sourceId peers ttl => exact h.replaceSource _ _ _ _ _ _
    | add sourceId endpoint ttl =>
      simp only [CandidateRegistry.perform]
      cases canonicalize endpoint with
      | error error => exact .refused r _
      | ok endpoint => exact h.add _ _ _ _ _
    | remove sourceId endpoint =>
      simp only [CandidateRegistry.perform]
      cases canonicalize endpoint with
      | error error => exact .refused r _
      | ok endpoint => exact h.remove _ _
    | sourceUnavailable sourceId leased => exact h.sourceUnavailable _ _
    | setLocalEndpoints endpoints => exact h.setLocalEndpoints _

theorem sound_new {maxCandidates : Nat} (h : new maxCandidates = .ok r) :
    Sound r ∧ r.maxCandidates = maxCandidates ∧ r.localEndpoints = ∅ := by
  unfold new at h
  split at h
  · cases h
  · cases h
    have hempty : ∀ s e, contributes
        { maxCandidates, order := [], sourceOrder := [], sourceCandidates := ∅, records := ∅
          localEndpoints := ∅ } s e = false := fun s e => by simp [contributes]
    refine ⟨{ bounded := by simp, listed := fun e s hs => ?_, foreign := by simp, sourced := by simp
              nodup := List.nodup_nil, mem_order := by simp }, rfl, rfl⟩
    rw [hempty] at hs
    cases hs

end CandidateRegistry

open CandidateRegistry

namespace Coordinator

variable {canonicalize : String → Except DiscoveryError String} {latest : Nat}

/-- The registry is sound, and its endpoints are on the channel. -/
structure Published (c : Coordinator) : Prop where
  sound : Sound c.registry
  current : c.candidates = c.registry.endpoints

theorem Published.step {c : Coordinator} (h : Published c) (event : CoordinatorEvent) :
    Published (c.step canonicalize latest event) ∧
      (c.step canonicalize latest event).registry.maxCandidates = c.registry.maxCandidates ∧
      (c.step canonicalize latest event).registry.localEndpoints =
        event.localEndpoints c.registry.localEndpoints := by
  obtain ⟨hown, houtcome⟩ := h.sound.perform canonicalize latest event
  unfold Coordinator.step
  generalize c.registry.perform canonicalize latest event = result at hown houtcome ⊢
  obtain ⟨after, error | changed⟩ := result
  · have hsame : after = c.registry := houtcome
    subst hsame
    exact ⟨h, rfl, hown⟩
  · obtain ⟨hsound, hmax, hchanged⟩ := houtcome
    cases changed with
    | true => exact ⟨⟨hsound, rfl⟩, hmax, hown⟩
    | false =>
      have hsame : after.endpoints = c.registry.endpoints := by simpa using hchanged
      exact ⟨⟨hsound, h.current.trans hsame.symm⟩, hmax, hown⟩

theorem Published.run {c : Coordinator} (h : Published c) (events : List CoordinatorEvent) :
    Published (c.run canonicalize latest events) ∧
      (c.run canonicalize latest events).registry.maxCandidates = c.registry.maxCandidates ∧
      (c.run canonicalize latest events).registry.localEndpoints =
        events.foldl CoordinatorEvent.localEndpoints c.registry.localEndpoints := by
  induction events generalizing c with
  | nil => exact ⟨h, rfl, rfl⟩
  | cons event events ih =>
    obtain ⟨hstep, hmax, hown⟩ := h.step event
    obtain ⟨hrun, hsame, howns⟩ := ih hstep
    rw [hown] at howns
    exact ⟨hrun, hsame.trans hmax, howns⟩

end Coordinator

/-- After every run of the coordinator from an empty registry: the records are within
the limit; the order is the records, each once; every record has a source, and each of
its sources is known and lists it; none is an endpoint of this node, as the last command
for these has set them; the channel holds the endpoints. And whatever operation comes next,
a refusal leaves the registry as it is, and otherwise the flag is set exactly if the
endpoints change. -/
theorem candidateRegistry_exact (canonicalize : String → Except DiscoveryError String)
    (latest : Nat) {maxCandidates : Nat} {registry : CandidateRegistry}
    (hnew : CandidateRegistry.new maxCandidates = .ok registry) (events : List CoordinatorEvent)
    {c : Coordinator} (hrun : c = (Coordinator.new registry).run canonicalize latest events) :
    c.registry.records.size ≤ maxCandidates ∧
    c.registry.order.Nodup ∧ (∀ e, e ∈ c.registry.order ↔ e ∈ c.registry.records) ∧
    (∀ e record, c.registry.records[e]? = some record → (∃ s, s ∈ record.sources) ∧
      ∀ s ∈ record.sources, s ∈ c.registry.sourceOrder ∧
        ∃ candidates, c.registry.sourceCandidates[s]? = some candidates ∧ e ∈ candidates) ∧
    (∀ e ∈ c.registry.records, e ∉ c.registry.localEndpoints) ∧
    c.registry.localEndpoints = lastLocalEndpoints events ∧
    c.candidates = c.registry.endpoints ∧
    ∀ event,
      (∀ after error, c.registry.perform canonicalize latest event = (after, .error error) →
        after = c.registry) ∧
      ∀ after changed, c.registry.perform canonicalize latest event = (after, .ok changed) →
        (changed = true ↔ after.endpoints ≠ c.registry.endpoints) := by
  obtain ⟨hsound, hlimit, hempty⟩ := sound_new hnew
  have hpublished : (Coordinator.new registry).Published := ⟨hsound, rfl⟩
  -- every event keeps what holds of the empty registry
  obtain ⟨hc, hmax, hown⟩ := @Coordinator.Published.run canonicalize latest _ hpublished events
  rw [← hrun] at hc hmax hown
  have h := hc.sound
  refine ⟨?_, h.nodup, h.mem_order, fun e record hget => ⟨?_, fun s hs => ?_⟩, h.foreign, ?_,
    hc.current, fun event => ⟨fun after error hperform => ?_, fun after changed hperform => ?_⟩⟩
  · exact h.bounded.trans (hmax.trans hlimit).le
  · obtain ⟨s, hs⟩ := h.sourced e (ExtTreeMap.mem_iff_isSome_getElem?.mpr (by rw [hget]; rfl))
    obtain ⟨found, hfound, hsource⟩ := contributes_iff.mp hs
    exact ⟨s, Option.some.inj (hfound.symm.trans hget) ▸ hsource⟩
  · exact h.listed e s (contributes_iff.mpr ⟨record, hget, hs⟩)
  · rw [hown, Coordinator.new, hempty]
    rfl
  · have houtcome := h.perform canonicalize latest event
    rw [hperform] at houtcome
    exact houtcome.2
  · have houtcome := h.perform canonicalize latest event
    rw [hperform] at houtcome
    exact houtcome.2.2.2

/-- Lower case, and nothing from the empty text. -/
def lowerCase (endpoint : String) : Except DiscoveryError String :=
  if endpoint.isEmpty then
    .error (.invalidConfiguration "coordinator" "invalid peer endpoint: \"\"")
  else .ok endpoint.toLower

/-- Two sources share an endpoint, one of them loses its lease, and a third is refused. -/
def sharedEndpointRun : List CoordinatorEvent :=
  [.command (.replaceSource "first" ["Old", "shared"] none) 0,
    .command (.snapshot "second" (.observed 1 [("other", 2), ("Shared", 3)]) (some 10)) 4,
    .command (.add "third" "overflow" none) 5,
    .command (.setLocalEndpoints ["old"]) 6,
    .expiry 12]

theorem candidateRegistry_exact_shared :
    ((Coordinator.new
        { maxCandidates := 3, order := [], sourceOrder := [], sourceCandidates := ∅, records := ∅
          localEndpoints := ∅ }).run lowerCase 100 sharedEndpointRun).candidates = ["shared"] ∧
    ((Coordinator.new
        { maxCandidates := 3, order := [], sourceOrder := [], sourceCandidates := ∅, records := ∅
          localEndpoints := ∅ }).run lowerCase 100 sharedEndpointRun).registry.records.size ≤ 3 :=
  ⟨by decide +kernel, (candidateRegistry_exact lowerCase 100 rfl sharedEndpointRun rfl).1⟩

end Numax
