import Numax.Sync.Rga

/-!
# Replicas agree on the order of a growable array

Two replicas that hold different supersets of a common set of elements list
the common ones in the same order. The position of an element is decided by
its root path alone (`Forest.pair_sublist_preorder_iff`), and the root path of
an element only mentions its ancestors, which are common to both replicas as
soon as each holds the parents of its elements (`rootPath_transfer`).
-/

open Base Std

namespace Numax

namespace Rga

/-- `p` is the parent recorded in the element `c`. -/
def ParentOf (r : Rga) (p c : RgaElementId) : Prop :=
  ∃ e, r.elements[c]? = some e ∧ e.parent = some p

/-- Every parent is itself an element, and parent links have no cycle. -/
structure WellFormed (r : Rga) : Prop where
  closed : ∀ {p c}, r.ParentOf p c → p ∈ r.elements
  acyclic : ∀ c, ¬ Relation.TransGen r.ParentOf c c

/-- An id present in both replicas carries the same parent in both. -/
def SameParents (a b : Rga) : Prop :=
  ∀ (x : RgaElementId) (e f : RgaElement), a.elements[x]? = some e → b.elements[x]? = some f →
    e.parent = f.parent

variable {r : Rga} {x : RgaElementId}

theorem exists_element (h : x ∈ r.elements) :
    ∃ e, r.elements[x]? = some e :=
  Option.isSome_iff_exists.mp (ExtTreeMap.mem_iff_isSome_getElem?.mp h)

variable {e : RgaElement}

theorem mem_elements (h : r.elements[x]? = some e) : x ∈ r.elements :=
  ExtTreeMap.mem_iff_isSome_getElem?.mpr (by rw [h]; rfl)

variable {c : RgaElementId}

/-- With all parents present, an element is listed under its own parent. -/
theorem WellFormed.listedUnder_eq (hr : r.WellFormed) (he : r.elements[c]? = some e) :
    r.listedUnder e = e.parent := by
  unfold listedUnder
  cases hp : e.parent with
  | none => rfl
  | some p => exact if_pos (hr.closed ⟨e, he, hp⟩)

/-- `x` is on a cycle of parent links, or below one. -/
def Looped (r : Rga) (x : RgaElementId) : Prop :=
  ∃ a, Relation.ReflTransGen r.ParentOf a x ∧ Relation.TransGen r.ParentOf a a

/-- The ancestor relation without its cycles is well founded on a finite array. -/
theorem wellFoundedOn_ancestor (r : Rga) :
    {x | x ∈ r.elements}.WellFoundedOn fun a b =>
      Relation.TransGen r.ParentOf a b ∧ ¬ Relation.TransGen r.ParentOf b b := by
  have hstrict : IsStrictOrder RgaElementId fun a b =>
      Relation.TransGen r.ParentOf a b ∧ ¬ Relation.TransGen r.ParentOf b b :=
    { irrefl := fun _ h => h.2 h.1
      trans := fun _ _ _ hab hbc => ⟨hab.1.trans hbc.1, hbc.2⟩ }
  apply Set.Finite.wellFoundedOn
  apply Set.Finite.subset (List.finite_toSet r.elements.keys)
  intro x hx
  exact ExtTreeMap.mem_keys.mpr hx

/-- An element that hangs below no cycle is reached from the head, in parents order:
a missing parent counts as the head. -/
theorem exists_rootPath (hx : x ∈ r.elements) (hloop : ¬ r.Looped x) :
    ∃ xs, r.forest.RootPath (some x) xs := by
  refine Set.WellFoundedOn.induction
    (P := fun x => ¬ r.Looped x → ∃ xs, r.forest.RootPath (some x) xs)
    r.wellFoundedOn_ancestor hx ?_ hloop
  intro c hc ih hloop
  obtain ⟨e, he⟩ := exists_element hc
  cases hp : r.listedUnder e with
  | none => exact ⟨_, .child .root ((r.mem_childrenOf none c).mpr ⟨e, he, hp⟩)⟩
  | some p =>
    obtain ⟨hparent, hmem⟩ : e.parent = some p ∧ p ∈ r.elements := by
      unfold listedUnder at hp
      split at hp
      · split at hp
        next hcontains =>
          cases hp
          exact ⟨‹_›, hcontains⟩
        next => cases hp
      · cases hp
    have hlink : r.ParentOf p c := ⟨e, he, hparent⟩
    have hself : ¬ Relation.TransGen r.ParentOf c c := fun h => hloop ⟨c, .refl, h⟩
    have habove : ¬ r.Looped p := fun ⟨a, hap, haa⟩ => hloop ⟨a, hap.tail hlink, haa⟩
    obtain ⟨xs, hxs⟩ := ih p hmem ⟨.single hlink, hself⟩ habove
    exact ⟨_, .child hxs ((r.mem_childrenOf (some p) c).mpr ⟨e, he, hp⟩)⟩

/-- Every element of a well-formed array is reached from the head. -/
theorem WellFormed.exists_rootPath (hr : r.WellFormed) (hx : x ∈ r.elements) :
    ∃ xs, r.forest.RootPath (some x) xs :=
  Rga.exists_rootPath hx fun ⟨a, _, hcycle⟩ => hr.acyclic a hcycle

variable {a b : Rga}

/-- The root path of a common element is the same in both replicas. -/
theorem rootPath_transfer (ha : a.WellFormed) (hb : b.WellFormed) (hab : SameParents a b)
    {p : Option RgaElementId} {xs : List RgaElementId} (hpath : a.forest.RootPath p xs)
    (hcommon : ∀ x, p = some x → x ∈ b.elements) :
    b.forest.RootPath p xs := by
  induction hpath with
  | root => exact .root
  | @child p xs c hp hc ih =>
    obtain ⟨e, he, hpe⟩ := (a.mem_childrenOf p c).mp hc
    obtain ⟨f, hf⟩ := exists_element (hcommon c rfl)
    rw [ha.listedUnder_eq he, hab c e f he hf] at hpe
    have hcb : c ∈ b.forest.children p :=
      (b.mem_childrenOf p c).mpr ⟨f, hf, (hb.listedUnder_eq hf).trans hpe⟩
    refine .child (ih ?_) hcb
    intro q hq
    exact hb.closed ⟨f, hf, hpe.trans hq⟩

/-- An element of a well-formed array is listed. -/
theorem WellFormed.mem_orderedIds (hr : r.WellFormed) (hx : x ∈ r.elements) : x ∈ r.orderedIds :=
  (Forest.mem_preorder_root r.preorder_eq_orderedIds).mpr (hr.exists_rootPath hx)

theorem orderedIds_nodup (r : Rga) : r.orderedIds.Nodup :=
  Forest.nodup_preorder r.preorder_eq_orderedIds

/-- `x` stands before `y` in one replica exactly when it does in the other. -/
theorem before_iff (ha : a.WellFormed) (hb : b.WellFormed) (hab : SameParents a b)
    {y : RgaElementId} (hxa : x ∈ a.elements) (hxb : x ∈ b.elements) (hya : y ∈ a.elements)
    (hyb : y ∈ b.elements) :
    [x, y].Sublist a.orderedIds ↔ [x, y].Sublist b.orderedIds := by
  obtain ⟨xs, hxs⟩ := ha.exists_rootPath hxa
  obtain ⟨ys, hys⟩ := ha.exists_rootPath hya
  have hxs' := rootPath_transfer ha hb hab hxs (by rintro _ ⟨⟩; exact hxb)
  have hys' := rootPath_transfer ha hb hab hys (by rintro _ ⟨⟩; exact hyb)
  rw [Forest.pair_sublist_preorder_iff a.preorder_eq_orderedIds hxs hys,
    Forest.pair_sublist_preorder_iff b.preorder_eq_orderedIds hxs' hys']

/-! ## Updates of one replica -/

/-- A chain of parent links that ends in a region closed under parents stays in it. -/
theorem transGen_restrict {R R' : RgaElementId → RgaElementId → Prop} {S : RgaElementId → Prop}
    (hS : ∀ p c, S c → R' p c → R p c ∧ S p) {p : RgaElementId} (h : Relation.TransGen R' p c)
    (hc : S c) : Relation.TransGen R p c ∧ S p := by
  induction h with
  | single hpc => exact ⟨.single (hS _ _ hc hpc).1, (hS _ _ hc hpc).2⟩
  | tail _ hbc ih =>
    obtain ⟨hR, hb⟩ := hS _ _ hc hbc
    exact ⟨(ih hb).1.tail hR, (ih hb).2⟩

theorem sameParents_merge_left (a b : Rga) : SameParents a (a.merge b).1 := by
  intro x e f he hf
  change (OrdMap.insertMissing a.elements b.elements.toList)[x]? = some f at hf
  rw [get_insertMissing, he] at hf
  cases hf
  rfl

/-- A link of the merged array is a link of every side that knows the child. -/
theorem parentOf_merge (hab : SameParents a b) {p : RgaElementId} (h : (a.merge b).1.ParentOf p c) :
    (c ∈ a.elements → a.ParentOf p c) ∧ (c ∈ b.elements → b.ParentOf p c) := by
  obtain ⟨f, hf, hp⟩ := h
  change (OrdMap.insertMissing a.elements b.elements.toList)[c]? = some f at hf
  rw [get_insertMissing] at hf
  constructor
  · intro hc
    obtain ⟨e, he⟩ := exists_element hc
    rw [he] at hf
    cases hf
    exact ⟨_, he, hp⟩
  · intro hc
    obtain ⟨g, hg⟩ := exists_element hc
    rcases Option.or_eq_some_iff.mp hf with he | ⟨-, hg'⟩
    · exact ⟨g, hg, (hab c f g he hg) ▸ hp⟩
    · exact ⟨f, hg', hp⟩

theorem mem_merge_iff (a b : Rga) (x : RgaElementId) :
    x ∈ (a.merge b).1.elements ↔ x ∈ a.elements ∨ x ∈ b.elements := by
  change x ∈ OrdMap.insertMissing a.elements b.elements.toList ↔ _
  simp only [ExtTreeMap.mem_iff_isSome_getElem?, get_insertMissing, Option.isSome_or,
    Bool.or_eq_true]

/-- Merging replicas that agree on parents keeps the array well formed: a cycle
would lie entirely on a side that knows one of its elements. -/
theorem WellFormed.merge (ha : a.WellFormed) (hb : b.WellFormed) (hab : SameParents a b) :
    (a.merge b).1.WellFormed where
  closed := by
    intro p c h
    obtain ⟨hleft, hright⟩ := parentOf_merge hab h
    obtain ⟨f, hf, -⟩ := h
    rw [mem_merge_iff]
    exact ((mem_merge_iff a b c).mp (mem_elements hf)).imp
      (fun hc => ha.closed (hleft hc)) (fun hc => hb.closed (hright hc))
  acyclic := by
    intro c hcycle
    have hc : c ∈ (a.merge b).1.elements := by
      obtain ⟨q, -, f, hf, -⟩ := Relation.TransGen.tail'_iff.mp hcycle
      exact mem_elements hf
    rcases (mem_merge_iff a b c).mp hc with hc | hc
    · refine ha.acyclic c (transGen_restrict (S := (· ∈ a.elements)) ?_ hcycle hc).1
      intro p d hd hpd
      have h := (parentOf_merge hab hpd).1 hd
      exact ⟨h, ha.closed h⟩
    · refine hb.acyclic c (transGen_restrict (S := (· ∈ b.elements)) ?_ hcycle hc).1
      intro p d hd hpd
      have h := (parentOf_merge hab hpd).2 hd
      exact ⟨h, hb.closed h⟩

theorem get_insert (r : Rga) (id : String) (parent : Option String) (value : Bytes)
    (k : RgaElementId) :
    (r.insert id parent value).1.elements[k]? =
      if id = k then some ((r.elements[id]?).getD { id, parent, value }) else r.elements[k]? := by
  rw [show (r.insert id parent value).1.elements = _ from
    applyInsert_elements r id parent value, OrdMap.get_alter]

/-- An insertion leaves the elements that were there as they were. -/
theorem get_insert_of_mem (he : r.elements[x]? = some e) (id : String) (parent : Option String)
    (value : Bytes) :
    (r.insert id parent value).1.elements[x]? = some e := by
  rw [get_insert]
  split
  · next h => simp [h, he]
  · exact he

theorem sameParents_insert (r : Rga) (id : String) (parent : Option String) (value : Bytes) :
    SameParents r (r.insert id parent value).1 := by
  intro x e f he hf
  rw [get_insert_of_mem he] at hf
  cases hf
  rfl

/-- Inserting after a present element (or at the head) keeps the array well formed. -/
theorem WellFormed.insert (hr : r.WellFormed) (id : String) (parent : Option String) (value : Bytes)
    (hparent : ∀ p, parent = some p → p ∈ r.elements) :
    (r.insert id parent value).1.WellFormed := by
  have hold : ∀ {x}, x ∈ r.elements → x ∈ (r.insert id parent value).1.elements := by
    intro x hx
    obtain ⟨e, he⟩ := exists_element hx
    exact mem_elements (get_insert_of_mem he id parent value)
  -- a link whose child was there before is an old link
  have hlink : ∀ p c, c ∈ r.elements → (r.insert id parent value).1.ParentOf p c →
      r.ParentOf p c ∧ p ∈ r.elements := by
    rintro p c hc ⟨f, hf, hp⟩
    obtain ⟨e, he⟩ := exists_element hc
    rw [get_insert_of_mem he] at hf
    cases hf
    exact ⟨⟨_, he, hp⟩, hr.closed ⟨_, he, hp⟩⟩
  -- and the parent of any link was there before
  have hpar : ∀ p c, (r.insert id parent value).1.ParentOf p c → p ∈ r.elements := by
    rintro p c ⟨f, hf, hp⟩
    rw [get_insert] at hf
    split at hf
    · cases hold : r.elements[id]? with
      | some e =>
        rw [hold] at hf
        cases hf
        exact hr.closed ⟨_, hold, hp⟩
      | none =>
        rw [hold] at hf
        cases hf
        exact hparent p hp
    · exact hr.closed ⟨f, hf, hp⟩
  refine ⟨fun h => hold (hpar _ _ h), fun c hcycle => ?_⟩
  have hc : c ∈ r.elements := by
    obtain ⟨q, hcq, -⟩ := Relation.TransGen.head'_iff.mp hcycle
    exact hpar c q hcq
  exact hr.acyclic c (transGen_restrict (S := (· ∈ r.elements)) (fun p d hd h => hlink p d hd h)
    hcycle hc).1

/-- Common elements of two replicas are listed once each, in the same order in
both, and insertions, deletions and merges never reorder present elements. -/
theorem orderedIds_agree (a b : Rga) (ha : a.WellFormed) (hb : b.WellFormed)
    (hab : SameParents a b) :
    (∀ x ∈ a.elements, x ∈ b.elements →
      a.orderedIds.count x = 1 ∧ b.orderedIds.count x = 1) ∧
    (∀ x ∈ a.elements, x ∈ b.elements → ∀ y ∈ a.elements, y ∈ b.elements →
      ([x, y].Sublist a.orderedIds ↔ [x, y].Sublist b.orderedIds)) ∧
    (∀ id, (a.delete id).1.orderedIds = a.orderedIds) ∧
    (∀ id parent value, (∀ p, parent = some p → p ∈ a.elements) →
      ∀ x ∈ a.elements, ∀ y ∈ a.elements,
        ([x, y].Sublist a.orderedIds ↔
          [x, y].Sublist (a.insert id parent value).1.orderedIds)) ∧
    (∀ x ∈ a.elements, ∀ y ∈ a.elements,
      ([x, y].Sublist a.orderedIds ↔ [x, y].Sublist (a.merge b).1.orderedIds)) := by
  have hcount : ∀ {r : Rga}, r.WellFormed → ∀ {x}, x ∈ r.elements → r.orderedIds.count x = 1 :=
    fun hr _ hx => List.count_eq_one_of_mem (orderedIds_nodup _) (hr.mem_orderedIds hx)
  refine ⟨fun x hxa hxb => ⟨hcount ha hxa, hcount hb hxb⟩,
    fun x hxa hxb y hya hyb => before_iff ha hb hab hxa hxb hya hyb,
    fun id => rfl, ?_, ?_⟩
  · intro id parent value hparent x hx y hy
    have hmem : ∀ {z}, z ∈ a.elements → z ∈ (a.insert id parent value).1.elements := by
      intro z hz
      obtain ⟨e, he⟩ := exists_element hz
      exact mem_elements (get_insert_of_mem he id parent value)
    exact before_iff ha (ha.insert id parent value hparent) (sameParents_insert a id parent value)
      hx (hmem hx) hy (hmem hy)
  · intro x hx y hy
    exact before_iff ha (ha.merge hb hab) (sameParents_merge_left a b) hx
      ((mem_merge_iff a b x).mpr (.inl hx)) hy ((mem_merge_iff a b y).mpr (.inl hy))

theorem WellFormed.new : Rga.new.WellFormed where
  closed := by
    rintro p c ⟨e, he, -⟩
    simp [Rga.new] at he
  acyclic := by
    intro c hcycle
    obtain ⟨q, -, e, he, -⟩ := Relation.TransGen.tail'_iff.mp hcycle
    simp [Rga.new] at he

/-- Two replicas with a common head `a`, `d` and a private insertion each after `a`. -/
def commonReplica : Rga := ((Rga.new.insert "a" none [97]).1.insert "d" none [100]).1

def leftReplica : Rga := (commonReplica.insert "b" (some "a") [98]).1

def rightReplica : Rga := (commonReplica.insert "c" (some "a") [99]).1

theorem orderedIds_agree_replicas :
    leftReplica.orderedIds = ["a", "b", "d"] ∧ rightReplica.orderedIds = ["a", "c", "d"] ∧
      (["a", "d"].Sublist leftReplica.orderedIds ↔ ["a", "d"].Sublist rightReplica.orderedIds) := by
  have hcommon : commonReplica.WellFormed :=
    (WellFormed.new.insert "a" none [97] (by simp)).insert "d" none [100] (by simp)
  have ha : "a" ∈ commonReplica.elements := by decide
  have hleft : leftReplica.WellFormed :=
    hcommon.insert "b" (some "a") [98] (by rintro _ ⟨⟩; exact ha)
  have hright : rightReplica.WellFormed :=
    hcommon.insert "c" (some "a") [99] (by rintro _ ⟨⟩; exact ha)
  have hsame : SameParents leftReplica rightReplica := by
    intro x e f he hf
    rw [leftReplica, get_insert] at he
    rw [rightReplica, get_insert] at hf
    split at he
    · next hb =>
        subst hb
        simp at hf
        exact absurd hf (by decide +revert)
    · split at hf
      · next hc =>
          subst hc
          exact absurd he (by decide +revert)
      · rw [he] at hf
        cases hf
        rfl
  exact ⟨by decide, by decide, (orderedIds_agree leftReplica rightReplica hleft hright hsame).2.1
    "a" (by decide) (by decide) "d" (by decide) (by decide)⟩

end Rga

end Numax
