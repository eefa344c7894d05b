import Numax.Theorems.RgaOrder

/-!
# Which elements of a growable array are listed

The traversal starts at the head and follows parent links downwards. An element whose
parent is missing hangs at the head, so late and lost parents hide nothing. What the
traversal cannot reach are the elements on a cycle of parent links and those below one:
they are stored, and `contains` answers for them, but no reader ever sees them.

The recursion has no visited set, and any peer may send any parent links. It still ends:
its depth is bounded by the length of a root path (`Forest.RootPath.length_le`), and a
cycle has none. What it lists are the elements whose parent chain ends (`ChainEnds`).
-/

open Base Std

namespace Numax

namespace Rga

variable {r : Rga} {xs : List RgaElementId}

/-- A link to a present parent leads to a shorter root path. -/
theorem rootPath_parent {p c : RgaElementId} (hpath : r.forest.RootPath (some c) xs)
    (hlink : r.ParentOf p c) (hp : p ∈ r.elements) :
    ∃ ys, r.forest.RootPath (some p) ys ∧ ys.length < xs.length := by
  obtain ⟨q, ys, hq, hchild, rfl⟩ := hpath.some_inv
  obtain ⟨e, he, hunder⟩ := (r.mem_childrenOf q c).mp hchild
  obtain ⟨f, hf, hparent⟩ := hlink
  cases he.symm.trans hf
  have hqp : q = some p := by
    rw [← hunder, listedUnder, hparent]
    exact if_pos hp
  rw [hqp] at hq
  exact ⟨ys, hq, by simp⟩

variable {x : RgaElementId}

/-- So does every chain of links. -/
theorem rootPath_ancestor {a : RgaElementId} (hpath : r.forest.RootPath (some x) xs)
    (habove : Relation.TransGen r.ParentOf a x) (ha : a ∈ r.elements) :
    ∃ ys, r.forest.RootPath (some a) ys ∧ ys.length < xs.length := by
  induction habove generalizing xs with
  | single hlink => exact rootPath_parent hpath hlink ha
  | tail hab hlink ih =>
    -- the element in between is a child, so it is present
    obtain ⟨_, _, e, he, _⟩ := Relation.TransGen.tail'_iff.mp hab
    obtain ⟨zs, hzs, hlt⟩ := rootPath_parent hpath hlink (mem_elements he)
    obtain ⟨ys, hys, hlt'⟩ := ih hzs
    exact ⟨ys, hys, hlt'.trans hlt⟩

theorem not_looped_of_rootPath (hpath : r.forest.RootPath (some x) xs) : ¬ r.Looped x := by
  rintro ⟨a, habove, hcycle⟩
  have ha : a ∈ r.elements := by
    obtain ⟨_, _, e, he, _⟩ := Relation.TransGen.tail'_iff.mp hcycle
    exact mem_elements he
  -- going round the cycle would shorten the root path of `a`
  obtain ⟨ys, hys⟩ : ∃ ys, r.forest.RootPath (some a) ys := by
    rcases Relation.reflTransGen_iff_eq_or_transGen.mp habove with rfl | habove
    · exact ⟨xs, hpath⟩
    · obtain ⟨ys, hys, -⟩ := rootPath_ancestor hpath habove ha
      exact ⟨ys, hys⟩
  obtain ⟨zs, hzs, hlt⟩ := rootPath_ancestor hys hcycle ha
  rw [hys.unique hzs] at hlt
  exact absurd hlt (Nat.lt_irrefl _)

theorem mem_orderedIds_iff (r : Rga) (x : RgaElementId) :
    x ∈ r.orderedIds ↔ x ∈ r.elements ∧ ¬ r.Looped x := by
  rw [Forest.mem_preorder_root r.preorder_eq_orderedIds]
  constructor
  · rintro ⟨xs, hpath⟩
    obtain ⟨p, _, _, hchild, _⟩ := hpath.some_inv
    obtain ⟨e, he, _⟩ := (r.mem_childrenOf p x).mp hchild
    exact ⟨mem_elements he, not_looped_of_rootPath hpath⟩
  · rintro ⟨hx, hloop⟩
    exact exists_rootPath hx hloop

/-! ## Chains that end -/

/-- The parent chain of an element ends: in an element without a parent, or in one whose
parent is missing. -/
inductive ChainEnds (r : Rga) : RgaElementId → Prop
  | head {x : RgaElementId} {e : RgaElement} : r.elements[x]? = some e → e.parent = none →
      ChainEnds r x
  | orphan {x p : RgaElementId} {e : RgaElement} : r.elements[x]? = some e → e.parent = some p →
      p ∉ r.elements → ChainEnds r x
  | link {x p : RgaElementId} {e : RgaElement} : r.elements[x]? = some e → e.parent = some p →
      ChainEnds r p → ChainEnds r x

theorem ChainEnds.mem_elements (h : r.ChainEnds x) :
    x ∈ r.elements := by
  cases h with
  | head he _ => exact Rga.mem_elements he
  | orphan he _ _ => exact Rga.mem_elements he
  | link he _ _ => exact Rga.mem_elements he

/-- A chain that ends, read backwards, is a root path. -/
theorem ChainEnds.exists_rootPath (h : r.ChainEnds x) :
    ∃ xs, r.forest.RootPath (some x) xs := by
  induction h with
  | @head x e he hparent =>
    have hunder : r.listedUnder e = none := by
      rw [listedUnder, hparent]
    exact ⟨_, .child .root ((r.mem_childrenOf none x).mpr ⟨e, he, hunder⟩)⟩
  | @orphan x p e he hparent hmissing =>
    have hunder : r.listedUnder e = none := by
      rw [listedUnder, hparent]
      exact if_neg fun hcontains => hmissing (ExtTreeMap.contains_iff_mem.mp hcontains)
    exact ⟨_, .child .root ((r.mem_childrenOf none x).mpr ⟨e, he, hunder⟩)⟩
  | @link x p e he hparent habove ih =>
    obtain ⟨xs, hxs⟩ := ih
    have hunder : r.listedUnder e = some p := by
      rw [listedUnder, hparent]
      exact if_pos (ExtTreeMap.contains_iff_mem.mpr habove.mem_elements)
    exact ⟨_, .child hxs ((r.mem_childrenOf (some p) x).mpr ⟨e, he, hunder⟩)⟩

theorem chainEnds_of_rootPath {p : Option RgaElementId} (h : r.forest.RootPath p xs) :
    ∀ x, p = some x → r.ChainEnds x := by
  -- along the path: the last step says under which element `x` is listed
  induction h with
  | root => exact fun x heq => nomatch heq
  | @child p xs c hp hc ih =>
    rintro _ ⟨⟩
    obtain ⟨e, he, hunder⟩ := (r.mem_childrenOf p c).mp hc
    unfold listedUnder at hunder
    cases hparent : e.parent with
    | none => exact .head he hparent
    | some q =>
      rw [hparent] at hunder
      by_cases hq : q ∈ r.elements
      · have hqp : some q = p := by
          rw [← hunder]
          exact (if_pos (ExtTreeMap.contains_iff_mem.mpr hq)).symm
        exact .link he hparent (ih q hqp.symm)
      · exact .orphan he hparent hq

theorem mem_orderedIds_iff_chainEnds (r : Rga) (x : RgaElementId) :
    x ∈ r.orderedIds ↔ r.ChainEnds x := by
  rw [Forest.mem_preorder_root r.preorder_eq_orderedIds]
  constructor
  · rintro ⟨xs, hpath⟩
    exact chainEnds_of_rootPath hpath x rfl
  · exact ChainEnds.exists_rootPath

/-- For any elements, each under its own id, and any parent links between them, cycles
included: the recursion ends at every depth bound above the number of elements, with one
result; no id is in it twice; and it has exactly the elements whose parent chain ends. -/
theorem traversal_exact (r : Rga) :
    (∀ fuel > r.elements.size,
      appendChildren r.childIds r.elements fuel none [] = some r.orderedElements) ∧
    (r.orderedElements.map RgaElement.id).Nodup ∧
    ∀ e, e ∈ r.orderedElements ↔ r.elements[e.id]? = some e ∧ r.ChainEnds e.id := by
  refine ⟨fun fuel hfuel => r.appendChildren_of_lt hfuel, r.orderedIds_nodup, fun e => ?_⟩
  rw [orderedElements_eq, List.mem_filterMap]
  constructor
  · rintro ⟨x, hx, he⟩
    have hid : e.id = x := r.keyed x e he
    rw [hid]
    exact ⟨he, (r.mem_orderedIds_iff_chainEnds x).mp hx⟩
  · rintro ⟨he, hchain⟩
    exact ⟨e.id, (r.mem_orderedIds_iff_chainEnds e.id).mpr hchain, he⟩

/-- A head with a child, an orphan, and a cycle of two with a child. -/
example :
    let r := (((((Rga.new.insert "h" none [1]).1.insert "c" (some "h") [2]).1.insert
      "o" (some "gone") [3]).1.insert "x" (some "y") [4]).1.insert "y" (some "x") [5]).1
    ((r.insert "z" (some "y") [6]).1).orderedIds = ["h", "c", "o"] := by
  decide +kernel

/-! ## Live elements -/

/-- The ids of the visible elements, as they are listed. -/
def visibleIds (r : Rga) : List RgaElementId := r.visibleElements.map RgaElement.id

theorem visibleIds_eq (r : Rga) :
    r.visibleIds = r.orderedIds.filter fun id => !r.tombstones.contains id := by
  rw [visibleIds, visibleElements, orderedIds, List.filter_map]
  rfl

theorem mem_visibleIds_iff (r : Rga) (x : RgaElementId) :
    x ∈ r.visibleIds ↔ r.contains x = true ∧ ¬ r.Looped x := by
  rw [visibleIds_eq, List.mem_filter, mem_orderedIds_iff, contains, Bool.and_eq_true,
    ExtTreeMap.contains_iff_mem]
  tauto

/-- Every live element is listed exactly once, if and only if none of them is on a cycle of
parent links or below one. -/
theorem liveElements_listed_iff (r : Rga) :
    (∀ id, (r.contains id = true ↔ id ∈ r.visibleElements.map RgaElement.id) ∧
      (id ∈ r.visibleElements.map RgaElement.id →
        (r.visibleElements.map RgaElement.id).count id = 1)) ↔
    ∀ id, r.contains id = true → ¬ r.Looped id := by
  have hnodup : r.visibleIds.Nodup := by
    rw [visibleIds_eq]
    exact r.orderedIds_nodup.filter _
  constructor
  · intro h id hlive
    exact ((r.mem_visibleIds_iff id).mp ((h id).1.mp hlive)).2
  · intro h id
    refine ⟨⟨fun hlive => ?_, fun hmem => ?_⟩, fun hmem => ?_⟩
    · exact (r.mem_visibleIds_iff id).mpr ⟨hlive, h id hlive⟩
    · exact ((r.mem_visibleIds_iff id).mp hmem).1
    · exact List.count_eq_one_of_mem hnodup hmem

/-- Inserting after itself is accepted; the element is there and is never listed. -/
theorem selfParent_not_listed :
    let r := (Rga.new.applyInsert "x" (some "x") [1]).1
    r.contains "x" = true ∧ r.visibleElements = [] := by
  decide +kernel

/-- A cycle of two hides the elements below it as well. -/
example :
    let r := (((Rga.new.insert "a" (some "b") [1]).1.insert "b" (some "a") [2]).1.insert
      "c" (some "b") [3]).1
    r.contains "c" = true ∧ r.visibleIds = [] := by
  decide +kernel

end Rga

end Numax
