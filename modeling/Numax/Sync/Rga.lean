import Numax.Base.OrdMap
import Numax.Base.Forest
import Numax.Sync.Op

/-!
# Replicated growable array

`rga.rs`. Every element names the element it was inserted after; the sequence
is the depth-first listing of that forest, siblings in ascending id order. An
element whose parent is unknown hangs at the head until the parent arrives.

`Rga` carries the invariant that each element is stored under its own id, which
every constructor of the source keeps. The recursion of `append_children` gets
an explicit depth bound; `appendChildren_eq` identifies it with the traversal
of `Rga.forest`, so that the bound used by `orderedElements` is never reached.
-/

open Base Std

namespace Numax

abbrev RgaElementId := String

structure RgaElement where
  id : RgaElementId
  parent : Option RgaElementId
  value : Bytes
deriving DecidableEq, Repr

structure Rga where
  elements : OrdMap RgaElementId RgaElement := ∅
  tombstones : OrdSet RgaElementId := ∅
  keyed : ∀ k (e : RgaElement), elements[k]? = some e → e.id = k := by simp
deriving DecidableEq

namespace Rga

@[ext] theorem ext {a b : Rga} (he : a.elements = b.elements)
    (ht : a.tombstones = b.tombstones) : a = b := by
  cases a; cases b; simp_all

def new : Rga := {}

/-- Insert an element after `parent`; an id that is already present keeps its
first element. -/
def insert (r : Rga) (id : String) (parent : Option String) (value : Bytes) : Rga × Bool :=
  if r.elements.contains id then (r, false)
  else
    ({ r with
        elements := r.elements.insert id { id, parent, value }
        keyed := by
          intro k e h
          rw [OrdMap.get_insert] at h
          split at h
          · next hk => cases h; exact hk
          · exact r.keyed k e h }, true)

def applyInsert (r : Rga) (id : String) (parent : Option String) (value : Bytes) : Rga × Bool :=
  r.insert id parent value

/-- Tombstone an id, whether or not its element has arrived. -/
def delete (r : Rga) (id : String) : Rga × Bool :=
  ({ r with tombstones := r.tombstones.insert id }, !r.tombstones.contains id)

def applyDelete (r : Rga) (id : String) : Rga × Bool := r.delete id

/-- An element exists and is visible. -/
def contains (r : Rga) (id : String) : Bool :=
  r.elements.contains id && !r.tombstones.contains id

theorem get_insertMissing (r other : Rga) (k : RgaElementId) :
    (OrdMap.insertMissing r.elements other.elements.toList)[k]? =
      (r.elements[k]?).or other.elements[k]? := by
  rw [OrdMap.get_insertMissing, OrdMap.find_toList]

/-- Union of the elements, first element of an id kept, and of the tombstones. -/
def merge (r other : Rga) : Rga × Bool :=
  let elements := OrdMap.insertMissing r.elements other.elements.toList
  let tombstones := r.tombstones.insertMany other.tombstones.toList
  ({ elements
     tombstones
     keyed := by
       intro k e h
       rw [get_insertMissing, Option.or_eq_some_iff] at h
       rcases h with h | ⟨-, h⟩
       · exact r.keyed k e h
       · exact other.keyed k e h },
    other.elements.toList.any (fun entry => !r.elements.contains entry.1)
      || tombstones.size != r.tombstones.size)

/-! ## Sequence order -/

/-- The parent an element is listed under: none if its parent is missing. -/
def listedUnder (r : Rga) (e : RgaElement) : Option RgaElementId :=
  match e.parent with
  | some parent => if r.elements.contains parent then some parent else none
  | none => none

/-- Element ids grouped by the parent they are listed under. -/
def childIds (r : Rga) : OrdMap (Option RgaElementId) (List RgaElementId) :=
  (OrdMap.valuesAsc r.elements).foldl
    (fun children e => OrdMap.push children (r.listedUnder e) e.id) ∅

/-- Push each child's element and then, recursively, what hangs below it. -/
def appendChildren (children : OrdMap (Option RgaElementId) (List RgaElementId))
    (elements : OrdMap RgaElementId RgaElement) :
    Nat → Option RgaElementId → List RgaElement → Option (List RgaElement)
  | 0, _, _ => none
  | fuel + 1, parent, out =>
    match children[parent]? with
    | none => some out
    | some ids =>
      ids.foldlM (fun out id =>
        match elements[id]? with
        | none => some out
        | some element =>
          appendChildren children elements fuel (some id) (out ++ [element])) out

/-- All elements in sequence order, tombstoned ones included. -/
def orderedElements (r : Rga) : List RgaElement :=
  (appendChildren r.childIds r.elements (r.elements.size + 1) none []).getD []

def orderedIds (r : Rga) : List String := r.orderedElements.map RgaElement.id

def visibleElements (r : Rga) : List RgaElement :=
  r.orderedElements.filter fun element => !r.tombstones.contains element.id

def values (r : Rga) : List Bytes := r.visibleElements.map RgaElement.value

/-! ## The forest behind the order -/

/-- The children list of a position. -/
def childrenOf (r : Rga) (p : Option RgaElementId) : List RgaElementId := (r.childIds[p]?).getD []

theorem valuesAsc_map_id (r : Rga) :
    (OrdMap.valuesAsc r.elements).map RgaElement.id = r.elements.keys := by
  rw [← ExtTreeMap.map_fst_toList_eq_keys, OrdMap.valuesAsc, List.map_map]
  apply List.map_congr_left
  rintro ⟨k, e⟩ hmem
  exact r.keyed k e ((OrdMap.mem_toList _).mp hmem)

theorem childrenOf_eq (r : Rga) (p : Option RgaElementId) :
    r.childrenOf p =
      ((OrdMap.valuesAsc r.elements).filter (fun e => r.listedUnder e = p)).map RgaElement.id := by
  rw [childrenOf, childIds, OrdMap.getD_foldl_push]
  simp

theorem mem_childrenOf (r : Rga) (p : Option RgaElementId) (c : RgaElementId) :
    c ∈ r.childrenOf p ↔ ∃ e, r.elements[c]? = some e ∧ r.listedUnder e = p := by
  rw [childrenOf_eq]
  simp only [OrdMap.valuesAsc, List.mem_map, List.mem_filter, decide_eq_true_eq, Prod.exists,
    exists_eq_right]
  constructor
  · rintro ⟨e, ⟨⟨k, hmem⟩, hp⟩, rfl⟩
    have hget := (OrdMap.mem_toList _).mp hmem
    exact ⟨e, by rw [r.keyed k e hget]; exact hget, hp⟩
  · rintro ⟨e, hget, hp⟩
    exact ⟨e, ⟨⟨c, (OrdMap.mem_toList _).mpr hget⟩, hp⟩, r.keyed c e hget⟩

/-- The forest whose depth-first listing is the sequence. -/
def forest (r : Rga) : Forest RgaElementId where
  nodes := r.elements.keys
  children := r.childrenOf
  mem_nodes := by
    intro p c hc
    obtain ⟨e, hget, -⟩ := (r.mem_childrenOf p c).mp hc
    exact ExtTreeMap.mem_keys.mpr (ExtTreeMap.mem_iff_isSome_getElem?.mpr (by simp [hget]))
  unique_parent := by
    intro p q c hp hq
    obtain ⟨e, he, rfl⟩ := (r.mem_childrenOf p c).mp hp
    obtain ⟨f, hf, rfl⟩ := (r.mem_childrenOf q c).mp hq
    cases he.symm.trans hf
    rfl
  sorted := by
    intro p
    have hsub : (r.childrenOf p).Sublist r.elements.keys := by
      rw [childrenOf_eq, ← valuesAsc_map_id]
      exact List.filter_sublist.map _
    exact List.Pairwise.sublist hsub ExtTreeMap.ordered_keys

/-- One children list: the fold of the source appends what the traversal lists. -/
theorem foldlM_children_eq (r : Rga) {visit : RgaElementId → Option (List RgaElementId)}
    {step : List RgaElement → RgaElementId → Option (List RgaElement)} {cs : List RgaElementId}
    (hstep : ∀ id ∈ cs, ∀ out, step out id =
      (visit id).map fun ids => out ++ (id :: ids).filterMap (r.elements[·]?))
    (out : List RgaElement) :
    cs.foldlM step out =
      (visitAll visit cs).map fun ids => out ++ ids.filterMap (r.elements[·]?) := by
  induction cs generalizing out with
  | nil => simp [visitAll]
  | cons c cs ih =>
    have ih := ih fun id hid => hstep id (List.mem_cons_of_mem c hid)
    rw [List.foldlM_cons, hstep c List.mem_cons_self, visitAll]
    cases visit c with
    | none => rfl
    | some below =>
      simp only [Option.map_some, Option.bind_eq_bind, Option.bind_some, ih]
      cases visitAll visit cs with
      | none => rfl
      | some rest => simp [← List.filterMap_append]

/-- The recursion of the source is the traversal of the forest, at every depth bound. -/
theorem appendChildren_eq (r : Rga) (fuel : Nat) (p : Option RgaElementId)
    (out : List RgaElement) :
    appendChildren r.childIds r.elements fuel p out =
      (r.forest.preorder fuel p).map fun ids => out ++ ids.filterMap (r.elements[·]?) := by
  induction fuel generalizing p out with
  | zero => rfl
  | succ fuel ih =>
    have hstep : ∀ c ∈ r.childrenOf p, ∀ out,
        (match r.elements[c]? with
          | none => some out
          | some e => appendChildren r.childIds r.elements fuel (some c) (out ++ [e])) =
        (r.forest.preorder fuel (some c)).map fun ids =>
          out ++ (c :: ids).filterMap (r.elements[·]?) := by
      intro c hc out
      obtain ⟨e, he, -⟩ := (r.mem_childrenOf p c).mp hc
      simp [he, ih]
    change _ = (visitAll _ (r.childrenOf p)).map _
    rw [← r.foldlM_children_eq hstep out, appendChildren, childrenOf]
    cases r.childIds[p]? <;> rfl

/-- The depth bound of `orderedElements` is never reached. -/
theorem exists_preorder (r : Rga) :
    ∃ ids, r.forest.preorder (r.elements.size + 1) none = some ids := by
  apply Option.isSome_iff_exists.mp
  apply Forest.preorder_isSome .root
  change r.elements.keys.length < _
  rw [ExtTreeMap.length_keys]
  simp

/-- `orderedIds` is the depth-first listing of the forest. -/
theorem preorder_eq_orderedIds (r : Rga) :
    r.forest.preorder (r.elements.size + 1) none = some r.orderedIds := by
  obtain ⟨ids, hids⟩ := r.exists_preorder
  rw [hids, orderedIds, orderedElements, appendChildren_eq, hids]
  simp only [Option.map_some, List.nil_append, Option.getD_some, Option.some.injEq]
  -- every listed id has an element, stored under that id
  have hall : ∀ c ∈ ids, ∃ e, r.elements[c]? = some e ∧ e.id = c := by
    intro c hc
    obtain ⟨y, ys, hpath⟩ := (Forest.mem_preorder .root hids).mp hc
    obtain ⟨p, zs, -, hcp, -⟩ := hpath.some_inv
    obtain ⟨e, he, -⟩ := (r.mem_childrenOf p c).mp hcp
    exact ⟨e, he, r.keyed c e he⟩
  clear hids
  induction ids with
  | nil => rfl
  | cons c cs ih =>
    obtain ⟨e, he, hid⟩ := hall c List.mem_cons_self
    rw [List.filterMap_cons, he]
    simp only [List.map_cons, hid, ← ih fun d hd => hall d (List.mem_cons_of_mem c hd)]

/-- The elements behind the listed ids. -/
theorem orderedElements_eq (r : Rga) :
    r.orderedElements = r.orderedIds.filterMap (r.elements[·]?) := by
  rw [orderedElements, appendChildren_eq, preorder_eq_orderedIds]
  rfl

/-- Any depth bound above the number of elements gives the whole sequence. -/
theorem appendChildren_of_lt (r : Rga) {fuel : Nat} (h : r.elements.size < fuel) :
    appendChildren r.childIds r.elements fuel none [] = some r.orderedElements := by
  rw [appendChildren_eq, Forest.preorder_mono h r.preorder_eq_orderedIds, orderedElements_eq]
  rfl

/-! ## Updates commute -/

theorem applyInsert_elements (r : Rga) (id : String) (parent : Option String) (value : Bytes) :
    (r.applyInsert id parent value).1.elements =
      r.elements.alter id (fun old => some (old.getD { id, parent, value })) := by
  unfold applyInsert insert
  by_cases h : r.elements.contains id
  · rw [if_pos h]
    rw [ExtTreeMap.contains_eq_isSome_getElem?] at h
    obtain ⟨e, he⟩ := Option.isSome_iff_exists.mp h
    symm
    apply OrdMap.alter_eq_self
    simp [he]
  · rw [if_neg h]
    refine (OrdMap.insert_eq_alter _ _ _).trans (OrdMap.alter_congr _ _ ?_)
    rw [ExtTreeMap.contains_eq_isSome_getElem?] at h
    simp [Option.not_isSome_iff_eq_none.mp h]

@[simp] theorem applyInsert_tombstones (r : Rga) (id : String) (parent : Option String)
    (value : Bytes) : (r.applyInsert id parent value).1.tombstones = r.tombstones := by
  unfold applyInsert insert
  split <;> rfl

@[simp] theorem applyDelete_elements (r : Rga) (id : String) :
    (r.applyDelete id).1.elements = r.elements := rfl

@[simp] theorem applyDelete_tombstones (r : Rga) (id : String) :
    (r.applyDelete id).1.tombstones = r.tombstones.insert id := rfl

/-- Insertions of two different ids commute. -/
theorem applyInsert_right_comm (r : Rga) {i j : String} (p q : Option String) (v w : Bytes)
    (hne : i ≠ j) :
    ((r.applyInsert i p v).1.applyInsert j q w).1 =
      ((r.applyInsert j q w).1.applyInsert i p v).1 := by
  apply Rga.ext
  · simp only [applyInsert_elements]
    exact OrdMap.alter_comm _ _ _ _ _ fun h => absurd h hne
  · simp

theorem applyDelete_right_comm (r : Rga) (i j : String) :
    ((r.applyDelete i).1.applyDelete j).1 = ((r.applyDelete j).1.applyDelete i).1 := by
  apply Rga.ext
  · simp
  · apply ExtTreeSet.ext_mem
    intro a
    simp only [applyDelete_tombstones, ExtTreeSet.mem_insert]
    tauto

/-- Insertions and deletions touch different fields. -/
theorem applyInsert_applyDelete_comm (r : Rga) (i j : String) (p : Option String) (v : Bytes) :
    ((r.applyInsert i p v).1.applyDelete j).1 = ((r.applyDelete j).1.applyInsert i p v).1 := by
  apply Rga.ext
  · simp only [applyDelete_elements, applyInsert_elements]
  · simp

end Rga

end Numax
