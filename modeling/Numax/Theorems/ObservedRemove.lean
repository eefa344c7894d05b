import Numax.Sync.ORSet

/-!
# Observed-remove semantics

Any number of replicas of one set exchange operations and whole states. An
operation is identified by the moment it was issued; `SetReplicas.reached` records
which operations have reached a replica, directly or through merges, and
`SetReplicas.known` which had reached the issuer of an operation when it was issued.
The tag maps of a replica are determined by the operations that have reached it
(`SetReplicas.Faithful`), so an element is visible exactly while one of its adds that
got here is not covered by a remove that got here.
-/

open Base Std

namespace Numax

namespace ORSet

/-! ## Tags -/

/-- The tags recorded for an element. -/
def tagsAt (m : OrdMap String (OrdSet String)) (element : String) : OrdSet String :=
  (m[element]?).getD ∅

theorem mem_tagsAt_extendTags (m : OrdMap String (OrdSet String)) (e f t : String)
    (ts : List String) :
    t ∈ tagsAt (extendTags m e ts) f ↔ t ∈ tagsAt m f ∨ (e = f ∧ t ∈ ts) := by
  rw [tagsAt, extendTags, OrdMap.get_alter]
  by_cases hef : e = f
  · subst hef
    simp [tagsAt, ExtTreeSet.mem_insertMany_list]
  · simp [hef, tagsAt]

/-- Merging extends every element's tags by those of the other side. -/
theorem get_mergeTags (m other : OrdMap String (OrdSet String)) (e : String) :
    (mergeTags m other).1[e]? =
      match other[e]? with
      | none => m[e]?
      | some tags => some ((m[e]?).getD ∅ |>.insertMany tags.toList) := by
  have hfst : (mergeTags m other).1 =
      OrdMap.upsertAll (fun old tags => (old.getD ∅).insertMany tags.toList) m other.toList :=
    (List.foldl_hom Prod.fst fun _ _ => rfl).symm
  rw [hfst, OrdMap.get_upsertAll_toList]
  cases other[e]? <;> rfl

theorem mem_tagsAt_mergeTags (m other : OrdMap String (OrdSet String)) (e t : String) :
    t ∈ tagsAt (mergeTags m other).1 e ↔ t ∈ tagsAt m e ∨ t ∈ tagsAt other e := by
  rw [tagsAt, get_mergeTags, tagsAt, tagsAt]
  cases hother : other[e]? with
  | none => simp
  | some tags => simp [ExtTreeSet.mem_insertMany_list]

/-! ## Merge laws -/

theorem insertMany_toList_mem {a b : OrdSet String} {t : String} :
    t ∈ a.insertMany b.toList ↔ t ∈ a ∨ t ∈ b := by
  simp [ExtTreeSet.mem_insertMany_list]

theorem mergeTags_comm (m other : OrdMap String (OrdSet String)) :
    (mergeTags m other).1 = (mergeTags other m).1 := by
  apply ExtTreeMap.ext_getElem?
  intro e
  rw [get_mergeTags, get_mergeTags]
  cases hm : m[e]? with
  | none =>
    cases ho : other[e]? with
    | none => rfl
    | some b =>
      refine congrArg some (ExtTreeSet.ext_mem fun t => ?_)
      rw [insertMany_toList_mem]
      simp
  | some a =>
    cases ho : other[e]? with
    | none =>
      refine congrArg some (ExtTreeSet.ext_mem fun t => ?_)
      rw [insertMany_toList_mem]
      simp
    | some b =>
      refine congrArg some (ExtTreeSet.ext_mem fun t => ?_)
      rw [insertMany_toList_mem, insertMany_toList_mem]
      exact or_comm

theorem mergeTags_assoc (m n p : OrdMap String (OrdSet String)) :
    (mergeTags (mergeTags m n).1 p).1 = (mergeTags m (mergeTags n p).1).1 := by
  apply ExtTreeMap.ext_getElem?
  intro e
  rw [get_mergeTags, get_mergeTags, get_mergeTags, get_mergeTags]
  cases hp : p[e]? with
  | none => rfl
  | some c =>
    cases hn : n[e]? with
    | none =>
      refine congrArg some (ExtTreeSet.ext_mem fun t => ?_)
      simp only [insertMany_toList_mem, Option.getD_none]
      simp
    | some b =>
      refine congrArg some (ExtTreeSet.ext_mem fun t => ?_)
      simp only [insertMany_toList_mem, Option.getD_some]
      exact or_assoc

theorem mergeTags_self (m : OrdMap String (OrdSet String)) : (mergeTags m m).1 = m := by
  apply ExtTreeMap.ext_getElem?
  intro e
  rw [get_mergeTags]
  cases hm : m[e]? with
  | none => rfl
  | some a =>
    refine congrArg some (ExtTreeSet.ext_mem fun t => ?_)
    rw [insertMany_toList_mem]
    simp

theorem mergedWith_comm (s t : ORSet) : s.mergedWith t = t.mergedWith s := by
  simp only [mergedWith, merge, mergeTags_comm s.adds, mergeTags_comm s.removes]

theorem mergedWith_assoc (s t u : ORSet) :
    (s.mergedWith t).mergedWith u = s.mergedWith (t.mergedWith u) := by
  simp only [mergedWith, merge, mergeTags_assoc]

theorem mergedWith_self (s : ORSet) : s.mergedWith s = s := by
  simp only [mergedWith, merge, mergeTags_self]

/-! ## Visibility -/

theorem contains_iff (s : ORSet) (e : String) :
    s.contains e = true ↔ ∃ t, t ∈ tagsAt s.adds e ∧ t ∉ tagsAt s.removes e := by
  have hvisible : ∀ t, t ∈ s.visibleTags e ↔ t ∈ tagsAt s.adds e ∧ t ∉ tagsAt s.removes e := by
    intro t
    rw [visibleTags, List.mem_filter, tagsAt, tagsAt]
    cases s.adds[e]? <;> cases s.removes[e]? <;>
      simp [← Bool.not_eq_true, ExtTreeSet.contains_iff_mem]
  rw [contains, List.isSome_head?]
  constructor
  · intro hne
    obtain ⟨t, ht⟩ := List.exists_mem_of_ne_nil _ hne
    exact ⟨t, (hvisible t).mp ht⟩
  · rintro ⟨t, ht⟩
    exact List.ne_nil_of_mem ((hvisible t).mpr ht)

/-- The visible elements, each once and in ascending order. -/
theorem elements_sorted (s : ORSet) : s.elements.Pairwise (· < ·) := by
  have hkeys : s.adds.keys.Pairwise (· < ·) :=
    (ExtTreeMap.ordered_keys (t := s.adds)).imp fun h => compare_lt_iff_lt.mp h
  exact hkeys.filter _

theorem mem_elements_iff (s : ORSet) (e : String) : e ∈ s.elements ↔ s.contains e = true := by
  rw [elements, List.mem_filter, ExtTreeMap.mem_keys]
  refine ⟨fun h => h.2, fun h => ⟨?_, h⟩⟩
  obtain ⟨t, ht, _⟩ := (contains_iff s e).mp h
  by_contra hnot
  rw [tagsAt, ExtTreeMap.getElem?_eq_none hnot] at ht
  simp at ht

end ORSet

/-! ## Replicas -/

/-- An operation as its issuer sends it. -/
inductive SetOp where
  | add (element tag : String)
  | remove (element : String) (observedTags : List String)
deriving DecidableEq, Repr

/-- Replicas of one set, with the history of their operations. -/
structure SetReplicas (ι : Type) where
  state : ι → ORSet
  /-- the operations in the order in which they were issued -/
  issued : List SetOp
  /-- the operations that have reached a replica, by number -/
  reached : ι → Set Nat
  /-- the operations that had reached the issuer of an operation -/
  known : Nat → Set Nat

/-- What can happen: a replica adds or removes, receives an issued operation,
or merges the state of another. -/
inductive SetEvent (ι : Type) where
  | add (i : ι) (element tag : String)
  | remove (i : ι) (element : String)
  | deliver (i : ι) (k : Nat)
  | merge (i j : ι)

namespace SetReplicas

variable {ι : Type} [DecidableEq ι]

def init : SetReplicas ι := ⟨fun _ => ORSet.new, [], fun _ => ∅, fun _ => ∅⟩

/-- The replica issues an operation and has its effect. -/
def issue (w : SetReplicas ι) (i : ι) (state : ORSet) (op : SetOp) : SetReplicas ι where
  state := Function.update w.state i state
  issued := w.issued ++ [op]
  reached := Function.update w.reached i (insert w.issued.length (w.reached i))
  known := Function.update w.known w.issued.length (w.reached i)

/-- The effect of a received operation. -/
def receive (s : ORSet) : SetOp → ORSet
  | .add element tag => (s.applyAdd element tag).1
  | .remove element observedTags => (s.applyRemove element observedTags).1

def step (w : SetReplicas ι) : SetEvent ι → SetReplicas ι
  | .add i element tag => w.issue i ((w.state i).add element tag).1 (.add element tag)
  | .remove i element =>
    let (state, observedTags) := (w.state i).remove element
    w.issue i state (.remove element observedTags)
  | .deliver i k =>
    match w.issued[k]? with
    | none => w
    | some op =>
      { w with
        state := Function.update w.state i (receive (w.state i) op)
        reached := Function.update w.reached i (insert k (w.reached i)) }
  | .merge i j =>
    { w with
      state := Function.update w.state i ((w.state i).merge (w.state j)).1
      reached := Function.update w.reached i (w.reached i ∪ w.reached j) }

/-- The tag of an add has not been used before. -/
def Admissible (w : SetReplicas ι) : SetEvent ι → Prop
  | .add _ _ tag => ∀ element, .add element tag ∉ w.issued
  | _ => True

/-- The replicas after some run with globally unique tags. -/
inductive Reachable : SetReplicas ι → Prop where
  | init : Reachable init
  | step {w : SetReplicas ι} (h : Reachable w) (event : SetEvent ι) (hok : w.Admissible event) :
      Reachable (w.step event)

/-! ## The tags of a replica are those of its history -/

/-- Some operation among `ks` is an add of `e` under tag `t`. -/
def HasAdd (ops : List SetOp) (ks : Set Nat) (e t : String) : Prop :=
  ∃ k ∈ ks, ops[k]? = some (.add e t)

/-- Some operation among `ks` is a remove of `e` that covers tag `t`. -/
def Covered (ops : List SetOp) (ks : Set Nat) (e t : String) : Prop :=
  ∃ k ∈ ks, ∃ tags, ops[k]? = some (.remove e tags) ∧ t ∈ tags

/-- The set holds the tags of the operations `ks` and no others. -/
structure Mirrors (s : ORSet) (ops : List SetOp) (ks : Set Nat) : Prop where
  adds : ∀ e t, t ∈ ORSet.tagsAt s.adds e ↔ HasAdd ops ks e t
  removes : ∀ e t, t ∈ ORSet.tagsAt s.removes e ↔ Covered ops ks e t
  bound : ∀ k ∈ ks, k < ops.length

variable {ops : List SetOp} {ks : Set Nat} {k : Nat}

theorem getElem?_concat_of_bound (hbound : ∀ k ∈ ks, k < ops.length) (hk : k ∈ ks) (op : SetOp) :
    (ops ++ [op])[k]? = ops[k]? :=
  List.getElem?_append_left (hbound k hk)

theorem hasAdd_concat (hbound : ∀ k ∈ ks, k < ops.length) (op : SetOp) (e t : String) :
    HasAdd (ops ++ [op]) ks e t ↔ HasAdd ops ks e t := by
  refine exists_congr fun k => and_congr_right fun hk => ?_
  rw [getElem?_concat_of_bound hbound hk]

theorem covered_concat (hbound : ∀ k ∈ ks, k < ops.length) (op : SetOp) (e t : String) :
    Covered (ops ++ [op]) ks e t ↔ Covered ops ks e t := by
  refine exists_congr fun k => and_congr_right fun hk => ?_
  rw [getElem?_concat_of_bound hbound hk]

theorem hasAdd_insert (ops : List SetOp) (k : Nat) (ks : Set Nat) (e t : String) :
    HasAdd ops (insert k ks) e t ↔ ops[k]? = some (.add e t) ∨ HasAdd ops ks e t := by
  simp [HasAdd]

theorem covered_insert (ops : List SetOp) (k : Nat) (ks : Set Nat) (e t : String) :
    Covered ops (insert k ks) e t ↔
      (∃ tags, ops[k]? = some (.remove e tags) ∧ t ∈ tags) ∨ Covered ops ks e t := by
  simp [Covered]

variable {s : ORSet}

/-- Operations issued elsewhere do not concern the replica yet. -/
theorem Mirrors.concat (h : Mirrors s ops ks) (op : SetOp) : Mirrors s (ops ++ [op]) ks where
  adds e t := (h.adds e t).trans (hasAdd_concat h.bound op e t).symm
  removes e t := (h.removes e t).trans (covered_concat h.bound op e t).symm
  bound k hk := by
    have := h.bound k hk
    simp only [List.length_append, List.length_singleton]
    omega

theorem Mirrors.receive (h : Mirrors s ops ks) {op : SetOp} (hk : ops[k]? = some op) :
    Mirrors (receive s op) ops (insert k ks) where
  adds e t := by
    rw [hasAdd_insert, hk, ← h.adds]
    cases op with
    | add f u =>
      rw [SetReplicas.receive, ORSet.applyAdd, ORSet.add, ORSet.mem_tagsAt_extendTags,
        List.mem_singleton, Option.some.injEq, SetOp.add.injEq, or_comm, eq_comm (a := t)]
    | remove f tags => simp [SetReplicas.receive, ORSet.applyRemove]
  removes e t := by
    rw [covered_insert, hk, ← h.removes]
    cases op with
    | add f u => simp [SetReplicas.receive, ORSet.applyAdd, ORSet.add]
    | remove f tags =>
      rw [SetReplicas.receive, ORSet.applyRemove, ORSet.mem_tagsAt_extendTags, or_comm]
      simp
  bound k' hk' := by
    obtain rfl | hk' := hk'
    · exact (List.getElem?_eq_some_iff.mp hk).1
    · exact h.bound k' hk'

theorem Mirrors.merge {s' : ORSet} {ks' : Set Nat} (h : Mirrors s ops ks)
    (h' : Mirrors s' ops ks') :
    Mirrors (s.merge s').1 ops (ks ∪ ks') where
  adds e t := by
    rw [ORSet.merge, ORSet.mem_tagsAt_mergeTags, h.adds, h'.adds]
    simp [HasAdd, or_and_right, exists_or]
  removes e t := by
    rw [ORSet.merge, ORSet.mem_tagsAt_mergeTags, h.removes, h'.removes]
    simp [Covered, or_and_right, exists_or]
  bound k hk := hk.elim (h.bound k) (h'.bound k)

/-- Tags are unique, and a remove covers exactly the adds that its issuer knew. -/
structure History (ops : List SetOp) (known : Nat → Set Nat) : Prop where
  unique : ∀ (k k' : Nat) (e e' t : String), ops[k]? = some (.add e t) →
    ops[k']? = some (.add e' t) → k = k'
  observed : ∀ (k : Nat) (e : String) (tags : List String), ops[k]? = some (.remove e tags) →
    ∀ t, t ∈ tags ↔ HasAdd ops (known k) e t
  bound : ∀ k, ∀ k' ∈ known k, k' < ops.length

theorem getElem?_concat_eq_some {op op' : SetOp} (h : (ops ++ [op])[k]? = some op') :
    (k < ops.length ∧ ops[k]? = some op') ∨ (k = ops.length ∧ op = op') := by
  by_cases hk : k < ops.length
  · exact .inl ⟨hk, by rwa [List.getElem?_append_left hk] at h⟩
  · have hlt := (List.getElem?_eq_some_iff.mp h).1
    have heq : k = ops.length := by
      simp only [List.length_append, List.length_singleton] at hlt
      omega
    subst heq
    exact .inr ⟨rfl, by simpa using h⟩

theorem History.issue {known : Nat → Set Nat} (h : History ops known)
    (hks : ∀ k ∈ ks, k < ops.length) (op : SetOp)
    (hfresh : ∀ e t, op = .add e t → ∀ e', SetOp.add e' t ∉ ops)
    (hobserved : ∀ e tags, op = .remove e tags → ∀ t, t ∈ tags ↔ HasAdd ops ks e t) :
    History (ops ++ [op]) (Function.update known ops.length ks) where
  unique k k' e e' t hk hk' := by
    obtain ⟨_, hk⟩ | ⟨rfl, hop⟩ := getElem?_concat_eq_some hk
    · obtain ⟨_, hk'⟩ | ⟨_, hop'⟩ := getElem?_concat_eq_some hk'
      · exact h.unique k k' e e' t hk hk'
      · exact absurd (List.mem_of_getElem? hk) (hfresh e' t hop' e)
    · obtain ⟨_, hk'⟩ | ⟨hlen, _⟩ := getElem?_concat_eq_some hk'
      · exact absurd (List.mem_of_getElem? hk') (hfresh e t hop e')
      · exact hlen.symm
  observed k e tags hk t := by
    obtain ⟨hlt, hk⟩ | ⟨rfl, hop⟩ := getElem?_concat_eq_some hk
    · rw [Function.update_of_ne (Nat.ne_of_lt hlt), hasAdd_concat (h.bound k)]
      exact h.observed k e tags hk t
    · rw [Function.update_self, hasAdd_concat hks]
      exact hobserved e tags hop t
  bound k k' hk' := by
    rw [List.length_append, List.length_singleton]
    by_cases hk : k = ops.length
    · subst hk
      rw [Function.update_self] at hk'
      exact Nat.lt_succ_of_lt (hks k' hk')
    · rw [Function.update_of_ne hk] at hk'
      exact Nat.lt_succ_of_lt (h.bound k k' hk')

structure Faithful (w : SetReplicas ι) : Prop where
  replica : ∀ i, Mirrors (w.state i) w.issued (w.reached i)
  history : History w.issued w.known

omit [DecidableEq ι] in
theorem init_faithful : (init : SetReplicas ι).Faithful where
  replica i :=
    { adds := by simp [init, ORSet.new, ORSet.tagsAt, HasAdd]
      removes := by simp [init, ORSet.new, ORSet.tagsAt, Covered]
      bound := by simp [init] }
  history :=
    { unique := by simp [init]
      observed := by simp [init]
      bound := by simp [init] }

/-- Only replica `i` changes its state and what has reached it. -/
theorem mirrors_update {state : ι → ORSet} {reached : ι → Set Nat} {i : ι}
    (h : ∀ j, Mirrors (state j) ops (reached j)) (hi : Mirrors s ops ks) (j : ι) :
    Mirrors (Function.update state i s j) ops (Function.update reached i ks j) := by
  by_cases hj : j = i
  · subst hj
    rw [Function.update_self, Function.update_self]
    exact hi
  · rw [Function.update_of_ne hj, Function.update_of_ne hj]
    exact h j

variable {w : SetReplicas ι}

/-- A local update has the effect of its own operation. -/
theorem Faithful.issue (h : w.Faithful) (i : ι) (op : SetOp)
    (hfresh : ∀ e t, op = .add e t → ∀ e', SetOp.add e' t ∉ w.issued)
    (hobserved : ∀ e tags, op = .remove e tags → ∀ t, t ∈ tags ↔
      HasAdd w.issued (w.reached i) e t) :
    (w.issue i (receive (w.state i) op) op).Faithful where
  replica := mirrors_update (fun j => (h.replica j).concat op)
    (((h.replica i).concat op).receive (List.getElem?_concat_length ..))
  history := h.history.issue (h.replica i).bound op hfresh hobserved

theorem Faithful.step (h : w.Faithful) (event : SetEvent ι) (hok : w.Admissible event) :
    (w.step event).Faithful := by
  cases event with
  | add i e tag =>
    refine h.issue i (.add e tag) ?_ ?_
    · rintro _ _ ⟨⟩
      exact hok
    · exact fun _ _ hop => nomatch hop
  | remove i e =>
    refine h.issue i (.remove e _) ?_ ?_
    · exact fun _ _ hop => nomatch hop
    · -- the tags in the operation are all add tags of the state
      rintro _ _ ⟨⟩ t
      rw [← (h.replica i).adds, ORSet.tagsAt]
      cases (w.state i).adds[e]? <;> simp
  | deliver i k =>
    rw [SetReplicas.step]
    cases hk : w.issued[k]? with
    | none => exact h
    | some op => exact ⟨mirrors_update h.replica ((h.replica i).receive hk), h.history⟩
  | merge i j => exact ⟨mirrors_update h.replica ((h.replica i).merge (h.replica j)), h.history⟩

theorem Reachable.faithful (h : w.Reachable) : w.Faithful := by
  induction h with
  | init => exact init_faithful
  | step _ event hok ih => exact ih.step event hok

/-! ## Observed-remove semantics -/

/-- Some add of `e` that has reached replica `i` is not covered by a remove that
has reached it. -/
def Visible (w : SetReplicas ι) (i : ι) (e : String) : Prop :=
  ∃ t, HasAdd w.issued (w.reached i) e t ∧ ¬ Covered w.issued (w.reached i) e t

omit [DecidableEq ι] in
theorem Faithful.contains_iff (h : w.Faithful) (i : ι) (e : String) :
    (w.state i).contains e = true ↔ w.Visible i e := by
  rw [ORSet.contains_iff]
  refine exists_congr fun t => ?_
  rw [(h.replica i).adds, (h.replica i).removes]

/-- A remove covers the tag of an add exactly if its issuer knew the add. -/
theorem History.covers_iff {known : Nat → Set Nat} (h : History ops known) {k' : Nat} {e t : String}
    {tags : List String} (hk : ops[k]? = some (.add e t)) (hk' : ops[k']? = some (.remove e tags)) :
    t ∈ tags ↔ k ∈ known k' := by
  rw [h.observed k' e tags hk' t]
  constructor
  · rintro ⟨k'', hknown, hadd⟩
    rwa [h.unique k k'' e e t hk hadd]
  · exact fun hknown => ⟨k, hknown, hk⟩

/-- An element is visible exactly while an add of it that got here is not covered by a
remove that got here. A remove covers the adds its issuer knew, all of them and no others,
so an add that is news to every remover stays. -/
theorem orset_observed_remove :
    (∀ w : SetReplicas ι, w.Reachable → ∀ i,
      (∀ e, (w.state i).contains e = true ↔ w.Visible i e) ∧
      (w.state i).elements.Pairwise (· < ·) ∧
      (∀ e, e ∈ (w.state i).elements ↔ w.Visible i e) ∧
      ∀ k e t, w.issued[k]? = some (.add e t) →
        (∀ k' tags, w.issued[k']? = some (.remove e tags) → (t ∈ tags ↔ k ∈ w.known k')) ∧
        (k ∈ w.reached i →
          (∀ k' ∈ w.reached i, ∀ tags, w.issued[k']? = some (.remove e tags) → k ∉ w.known k') →
          (w.state i).contains e = true)) ∧
    (∀ s t u : ORSet, s.mergedWith t = t.mergedWith s ∧
      (s.mergedWith t).mergedWith u = s.mergedWith (t.mergedWith u) ∧ s.mergedWith s = s) := by
  constructor
  · intro w hw i
    have hf := hw.faithful
    refine ⟨hf.contains_iff i, (w.state i).elements_sorted, ?_, ?_⟩
    · exact fun e => (ORSet.mem_elements_iff _ e).trans (hf.contains_iff i e)
    · intro k e t hadd
      refine ⟨fun k' tags hk' => hf.history.covers_iff hadd hk', fun hreached hunknown => ?_⟩
      refine (hf.contains_iff i e).mpr ⟨t, ⟨k, hreached, hadd⟩, ?_⟩
      rintro ⟨k', hk', tags, hremove, ht⟩
      exact hunknown k' hk' tags hremove ((hf.history.covers_iff hadd hremove).mp ht)
  · exact fun s t u => ⟨ORSet.mergedWith_comm s t, ORSet.mergedWith_assoc s t u, s.mergedWith_self⟩

/-- One replica removes the element while the other adds it again; then they merge. -/
def concurrentAdd : SetReplicas Bool :=
  [SetEvent.add true "x" "a", .deliver false 0, .add true "x" "b", .remove false "x",
    .merge false true].foldl step init

theorem concurrentAdd_reachable : concurrentAdd.Reachable := by
  have hinit : Reachable (init : SetReplicas Bool) := .init
  refine .step (.step (.step (.step (.step hinit (.add true "x" "a") ?_)
    (.deliver false 0) ?_) (.add true "x" "b") ?_) (.remove false "x") ?_) (.merge false true) ?_
  · simp [Admissible, init]
  · trivial
  · simp [Admissible, SetReplicas.step, issue, init]
  · trivial
  · trivial

theorem concurrentAdd_issued :
    concurrentAdd.issued = [.add "x" "a", .add "x" "b", .remove "x" ["a"]] := by
  decide +kernel

/-- The remove covers the first add and not the second, and the element stays. -/
theorem concurrentAdd_survives :
    concurrentAdd.Reachable ∧ (0 ∈ concurrentAdd.known 2 ∧ 1 ∉ concurrentAdd.known 2) ∧
      (concurrentAdd.state false).contains "x" = true := by
  have hlaws :=
    ((@orset_observed_remove Bool _).1 concurrentAdd concurrentAdd_reachable false).2.2.2
  rw [concurrentAdd_issued] at hlaws
  have hfirst := (hlaws 0 "x" "a" rfl).1 2 ["a"] rfl
  have hsecond := hlaws 1 "x" "b" rfl
  have hunknown : 1 ∉ concurrentAdd.known 2 := mt (hsecond.1 2 ["a"] rfl).mpr (by decide)
  refine ⟨concurrentAdd_reachable, ⟨hfirst.mp (by decide), hunknown⟩, hsecond.2 ?_ ?_⟩
  · simp [concurrentAdd, SetReplicas.step, issue, init, Function.update]
  · -- the only remove is the third operation
    intro k' _ tags hk'
    match k', hk' with
    | 2, _ => exact hunknown

end SetReplicas

end Numax
