import Mathlib

/-!
# Depth-first order of a finite forest

A `Forest` is given by its children lists: each node sits in at most one list
and each list is ascending. Nodes that hang in a cycle are allowed; they are
simply not reached from the root position `none`.

* **`preorder`** — the depth-first listing below a position, with a bound on
  the recursion depth; `preorder_isSome` shows that one more than the number of
  nodes is always enough, cycles or not;
* **`RootPath`** — the chain of ancestors of a reachable node, unique for each
  node (`RootPath.unique`) and without repetition (`RootPath.nodup`);
* **`mem_preorder`, `preorder_pairwise`** — the listing holds exactly the
  reachable nodes, in strictly ascending lexicographic order of their root
  paths.
-/

open Std

namespace Base

/-! ## Visiting a children list -/

section Visit

variable {ι : Type} {visit : ι → Option (List ι)}

/-- List every node of a children list, each followed by what `visit` lists below it. -/
def visitAll (visit : ι → Option (List ι)) : List ι → Option (List ι)
  | [] => some []
  | c :: cs => do
    let below ← visit c
    let rest ← visitAll visit cs
    some (c :: below ++ rest)

variable {cs : List ι}

theorem visitAll_isSome (h : ∀ c ∈ cs, (visit c).isSome) : (visitAll visit cs).isSome := by
  induction cs with
  | nil => rfl
  | cons c cs ih =>
    obtain ⟨below, hbelow⟩ := Option.isSome_iff_exists.mp (h c List.mem_cons_self)
    obtain ⟨rest, hrest⟩ :=
      Option.isSome_iff_exists.mp (ih fun d hd => h d (List.mem_cons_of_mem _ hd))
    simp [visitAll, hbelow, hrest]

variable {out : List ι}

/-- What a traversal over a children list returns, child by child. -/
theorem visitAll_eq_some (h : visitAll visit cs = some out) :
    (cs = [] ∧ out = []) ∨
      ∃ c rest below tail, cs = c :: rest ∧ visit c = some below ∧
        visitAll visit rest = some tail ∧ out = c :: below ++ tail := by
  cases cs with
  | nil => exact .inl ⟨rfl, by simpa [visitAll] using h.symm⟩
  | cons c cs =>
    simp only [visitAll, Option.bind_eq_bind, Option.bind_eq_some_iff, Option.some.injEq] at h
    obtain ⟨below, hbelow, tail, htail, rfl⟩ := h
    exact .inr ⟨c, cs, below, tail, rfl, hbelow, htail, rfl⟩

theorem mem_visitAll {d : ι} (h : visitAll visit cs = some out) :
    d ∈ out ↔ ∃ c ∈ cs, d = c ∨ ∃ below, visit c = some below ∧ d ∈ below := by
  induction cs generalizing out with
  | nil =>
    cases h
    simp
  | cons c cs ih =>
    rcases visitAll_eq_some h with ⟨hnil, -⟩ | ⟨c', rest, below, tail, heq, hbelow, htail, rfl⟩
    · cases hnil
    · cases heq
      simp only [List.cons_append, List.mem_cons, List.mem_append, ih htail, exists_eq_or_imp,
        hbelow, Option.some.injEq, exists_eq_left']
      rw [or_assoc]

theorem visit_of_visitAll (h : visitAll visit cs = some out) {c : ι} (hc : c ∈ cs) :
    ∃ below, visit c = some below := by
  induction cs generalizing out with
  | nil => cases hc
  | cons d ds ih =>
    rcases visitAll_eq_some h with ⟨hnil, -⟩ | ⟨c', rest, below, tail, heq, hbelow, htail, -⟩
    · cases hnil
    · cases heq
      rcases List.mem_cons.mp hc with rfl | hc
      · exact ⟨below, hbelow⟩
      · exact ih htail hc

/-- A visit that answers more often lists the same. -/
theorem visitAll_mono {visit' : ι → Option (List ι)}
    (hvisit : ∀ c below, visit c = some below → visit' c = some below)
    (h : visitAll visit cs = some out) : visitAll visit' cs = some out := by
  induction cs generalizing out with
  | nil => exact h
  | cons c cs ih =>
    rcases visitAll_eq_some h with ⟨hnil, -⟩ | ⟨c', rest, below, tail, heq, hbelow, htail, rfl⟩
    · cases hnil
    · cases heq
      simp [visitAll, hvisit c below hbelow, ih htail]

end Visit

/-- Children lists over a finite set of nodes. -/
structure Forest (ι : Type) [Ord ι] where
  nodes : List ι
  children : Option ι → List ι
  mem_nodes : ∀ {p c}, c ∈ children p → c ∈ nodes
  unique_parent : ∀ {p q c}, c ∈ children p → c ∈ children q → p = q
  sorted : ∀ p, (children p).Pairwise (fun a b => compare a b = .lt)

namespace Forest

variable {ι : Type} [Ord ι] (F : Forest ι)

/-! ## Root paths -/

/-- `RootPath p xs`: position `p` is reached from the root through `xs`. -/
inductive RootPath : Option ι → List ι → Prop
  | root : RootPath none []
  | child {p xs c} : RootPath p xs → c ∈ F.children p → RootPath (some c) (xs ++ [c])

variable {F} {xs : List ι}

theorem RootPath.some_inv {c : ι} (h : F.RootPath (some c) xs) :
    ∃ p ys, F.RootPath p ys ∧ c ∈ F.children p ∧ xs = ys ++ [c] := by
  cases h with
  | child hp hc => exact ⟨_, _, hp, hc, rfl⟩

variable {p : Option ι} {ys : List ι}

/-- A position has one root path, since every node has one parent. -/
theorem RootPath.unique (hx : F.RootPath p xs) (hy : F.RootPath p ys) : xs = ys := by
  induction hx generalizing ys with
  | root => cases hy; rfl
  | child hp hc ih =>
    obtain ⟨q, zs, hq, hcq, rfl⟩ := hy.some_inv
    cases F.unique_parent hc hcq
    rw [ih hq]

variable {d : ι}

/-- Every node on a path is reached by the initial segment that ends in it. -/
theorem RootPath.take_of_mem (h : F.RootPath p xs) (hd : d ∈ xs) :
    ∃ ys, F.RootPath (some d) ys ∧ ys <+: xs := by
  induction h with
  | root => cases hd
  | @child p xs c hp hc ih =>
    rcases List.mem_append.mp hd with hd | hd
    · obtain ⟨ys, hys, hpre⟩ := ih hd
      exact ⟨ys, hys, hpre.trans (List.prefix_append _ _)⟩
    · cases List.mem_singleton.mp hd
      exact ⟨xs ++ [d], .child hp hc, List.prefix_rfl⟩

theorem RootPath.nodup (h : F.RootPath p xs) : xs.Nodup := by
  induction h with
  | root => exact List.nodup_nil
  | @child p xs c hp hc ih =>
    rw [List.nodup_append]
    refine ⟨ih, List.nodup_singleton c, ?_⟩
    rintro d hd e he rfl
    cases List.mem_singleton.mp he
    -- a second visit to `d` would give it a path shorter than its own
    obtain ⟨ys, hys, hpre⟩ := hp.take_of_mem hd
    have hlen := hpre.length_le
    rw [hys.unique (.child hp hc), List.length_append] at hlen
    simp at hlen

theorem RootPath.subset_nodes (h : F.RootPath p xs) :
    xs ⊆ F.nodes := by
  induction h with
  | root => exact List.nil_subset _
  | child hp hc ih =>
    exact List.append_subset.mpr ⟨ih, List.cons_subset.mpr ⟨F.mem_nodes hc, List.nil_subset _⟩⟩

theorem RootPath.length_le (h : F.RootPath p xs) :
    xs.length ≤ F.nodes.length :=
  (List.subperm_of_subset h.nodup h.subset_nodes).length_le

/-! ## Traversal -/

variable (F) in
/-- The nodes below a position, depth first, to a depth of at most the fuel. -/
def preorder : Nat → Option ι → Option (List ι)
  | 0, _ => none
  | fuel + 1, p => visitAll (fun c => preorder fuel (some c)) (F.children p)

/-- The depth bound is never reached as long as it exceeds the number of nodes
not yet on the path. -/
theorem preorder_isSome (hp : F.RootPath p xs) (fuel : Nat)
    (hfuel : F.nodes.length < fuel + xs.length) : (F.preorder fuel p).isSome := by
  induction fuel generalizing p xs with
  | zero => exact absurd hp.length_le (by omega)
  | succ fuel ih =>
    apply visitAll_isSome
    intro c hc
    apply ih (RootPath.child hp hc)
    rw [List.length_append, List.length_singleton]
    omega

variable {out : List ι} {fuel : Nat}

/-- More depth than needed changes nothing. -/
theorem preorder_mono {fuel' : Nat} (hle : fuel ≤ fuel') (h : F.preorder fuel p = some out) :
    F.preorder fuel' p = some out := by
  induction fuel generalizing fuel' p out with
  | zero => cases h
  | succ fuel ih =>
    cases fuel' with
    | zero => exact absurd hle (Nat.not_succ_le_zero fuel)
    | succ fuel' =>
      refine visitAll_mono (fun c below hbelow => ?_) h
      exact ih (Nat.le_of_succ_le_succ hle) hbelow

/-! ## What the listing holds, and in which order -/

/-- A path determines its position. -/
theorem RootPath.eq_getLast (h : F.RootPath p xs) :
    p = xs.getLast? := by
  cases h with
  | root => rfl
  | child => simp

/-- Cutting a path anywhere leaves a path and a child of its position. -/
theorem RootPath.split {q : Option ι} {y : ι} (h : F.RootPath q (xs ++ y :: ys)) :
    ∃ p, F.RootPath p xs ∧ y ∈ F.children p := by
  generalize hzs : xs ++ y :: ys = zs at h
  induction h generalizing ys with
  | root => simp at hzs
  | @child p zs c hp hc ih =>
    rcases List.eq_nil_or_concat ys with rfl | ⟨ys', d, rfl⟩
    · obtain ⟨rfl, hcy⟩ := List.append_inj' hzs rfl
      cases hcy
      exact ⟨p, hp, hc⟩
    · rw [List.concat_eq_append, ← List.cons_append, ← List.append_assoc] at hzs
      exact ih (List.append_inj' hzs rfl).1

theorem RootPath.head_child {y : ι} (hp : F.RootPath p xs)
    (h : F.RootPath (some d) (xs ++ y :: ys)) : y ∈ F.children p := by
  obtain ⟨q, hq, hy⟩ := h.split
  rwa [hp.eq_getLast, ← hq.eq_getLast]

/-- The listing below a position holds exactly the nodes whose path extends its path. -/
theorem mem_preorder (hp : F.RootPath p xs) (hout : F.preorder fuel p = some out) :
    d ∈ out ↔ ∃ y ys, F.RootPath (some d) (xs ++ y :: ys) := by
  induction fuel generalizing p xs out with
  | zero => cases hout
  | succ fuel ih =>
    rw [mem_visitAll hout]
    constructor
    · rintro ⟨c, hc, rfl | ⟨below, hbelow, hd⟩⟩
      · exact ⟨d, [], .child hp hc⟩
      · obtain ⟨y, ys, hys⟩ := (ih (.child hp hc) hbelow).mp hd
        exact ⟨c, y :: ys, by simpa using hys⟩
    · rintro ⟨c, ys, hpath⟩
      have hc := hp.head_child hpath
      refine ⟨c, hc, ?_⟩
      cases ys with
      | nil => exact .inl (by simpa using hpath.eq_getLast)
      | cons y ys =>
        obtain ⟨below, hbelow⟩ := visit_of_visitAll hout hc
        exact .inr ⟨below, hbelow,
          (ih (.child hp hc) hbelow).mpr ⟨y, ys, by simpa using hpath⟩⟩

/-- The listing of the whole forest holds exactly the reachable nodes. -/
theorem mem_preorder_root (hout : F.preorder fuel none = some out) :
    d ∈ out ↔ ∃ xs, F.RootPath (some d) xs := by
  rw [mem_preorder .root hout]
  constructor
  · rintro ⟨y, ys, h⟩
    exact ⟨_, h⟩
  · rintro ⟨xs, h⟩
    obtain ⟨p, ys, -, -, rfl⟩ := h.some_inv
    cases ys with
    | nil => exact ⟨d, [], h⟩
    | cons y ys => exact ⟨y, ys ++ [d], h⟩

variable (F) in
/-- `a` precedes `b`: the root path of `a` is lexicographically smaller. -/
def PathLt (a b : ι) : Prop :=
  ∀ pa pb, F.RootPath (some a) pa → F.RootPath (some b) pb → compare pa pb = .lt

theorem PathLt.intro {a b : ι} {pa pb : List ι} (ha : F.RootPath (some a) pa)
    (hb : F.RootPath (some b) pb) (h : compare pa pb = .lt) : F.PathLt a b := by
  intro pa' pb' ha' hb'
  rwa [ha'.unique ha, hb'.unique hb]

variable [LawfulEqOrd ι]

theorem compare_append_left (xs ys zs : List ι) :
    compare (xs ++ ys) (xs ++ zs) = compare ys zs := by
  induction xs with
  | nil => rfl
  | cons x xs ih => simp [List.compare_cons_cons, ih]

theorem compare_branch (xs ys zs : List ι) {c : ι} (h : compare c d = .lt) :
    compare (xs ++ c :: ys) (xs ++ d :: zs) = .lt := by
  simp [compare_append_left, List.compare_cons_cons, h]

/-- One level of the traversal: blocks of ascending children, each headed by the child. -/
theorem visitAll_pairwise (hp : F.RootPath p xs)
    (ih : ∀ c ∈ F.children p, ∀ below, F.preorder fuel (some c) = some below →
      below.Pairwise F.PathLt) {cs : List ι} (hsub : ∀ c ∈ cs, c ∈ F.children p)
    (hcs : cs.Pairwise (fun a b => compare a b = .lt))
    (hout : visitAll (fun c => F.preorder fuel (some c)) cs = some out) :
    out.Pairwise F.PathLt := by
  induction cs generalizing out with
  | nil => cases hout; exact .nil
  | cons c cs ihcs =>
    rcases visitAll_eq_some hout with ⟨hnil, -⟩ | ⟨c', rest, below, tail, heq, hbelow, htail, rfl⟩
    · cases hnil
    cases heq
    rw [List.pairwise_cons] at hcs
    have hc : c ∈ F.children p := hsub c List.mem_cons_self
    have hpc : F.RootPath (some c) (xs ++ [c]) := .child hp hc
    have hrest : ∀ d ∈ cs, d ∈ F.children p := fun d hd => hsub d (List.mem_cons_of_mem _ hd)
    -- every node of the first block has a path through `c`
    have hblock : ∀ a ∈ c :: below, ∃ ys, F.RootPath (some a) (xs ++ c :: ys) := by
      intro a ha
      rcases List.mem_cons.mp ha with rfl | ha
      · exact ⟨[], hpc⟩
      · obtain ⟨y, ys, h⟩ := (mem_preorder hpc hbelow).mp ha
        exact ⟨y :: ys, by simpa using h⟩
    -- every later node has a path through a later child
    have htailPath : ∀ b ∈ tail, ∃ d ∈ cs, ∃ ys, F.RootPath (some b) (xs ++ d :: ys) := by
      intro b hb
      obtain ⟨d, hd, rfl | ⟨below', hbelow', hb⟩⟩ := (mem_visitAll htail).mp hb
      · exact ⟨b, hd, [], .child hp (hrest b hd)⟩
      · obtain ⟨y, ys, h⟩ := (mem_preorder (.child hp (hrest d hd)) hbelow').mp hb
        exact ⟨d, hd, y :: ys, by simpa using h⟩
    rw [List.pairwise_append]
    refine ⟨List.pairwise_cons.mpr ⟨?_, ih c hc below hbelow⟩, ihcs hrest hcs.2 htail, ?_⟩
    · intro b hb
      obtain ⟨y, ys, h⟩ := (mem_preorder hpc hbelow).mp hb
      refine .intro hpc h ?_
      have := compare_append_left (xs ++ [c]) [] (y :: ys)
      rw [List.append_nil] at this
      rw [this]
      rfl
    · intro a ha b hb
      obtain ⟨ys, hya⟩ := hblock a ha
      obtain ⟨d, hd, zs, hzb⟩ := htailPath b hb
      exact .intro hya hzb (compare_branch xs ys zs (hcs.1 d hd))

/-- The listing is strictly ascending in the lexicographic order of root paths. -/
theorem preorder_pairwise (hp : F.RootPath p xs) (hout : F.preorder fuel p = some out) :
    out.Pairwise F.PathLt := by
  induction fuel generalizing p xs out with
  | zero => cases hout
  | succ fuel ih =>
    exact visitAll_pairwise hp (fun c hc below hbelow => ih (.child hp hc) hbelow)
      (fun _ hc => hc) (F.sorted p) hout

/-- Two distinct members of a list stand in it one before the other. -/
theorem pair_sublist_or {α : Type} {l : List α} {a b : α} (ha : a ∈ l) (hb : b ∈ l)
    (hne : a ≠ b) : [a, b].Sublist l ∨ [b, a].Sublist l := by
  induction l with
  | nil => cases ha
  | cons x l ih =>
    rcases List.mem_cons.mp ha with rfl | ha'
    · have hb' : b ∈ l := (List.mem_cons.mp hb).resolve_left (Ne.symm hne)
      exact .inl ((List.singleton_sublist.mpr hb').cons_cons a)
    · rcases List.mem_cons.mp hb with rfl | hb'
      · exact .inr ((List.singleton_sublist.mpr ha').cons_cons b)
      · exact (ih ha' hb').imp (·.cons x) (·.cons x)

theorem nodup_preorder (hout : F.preorder fuel none = some out) :
    out.Nodup := by
  refine (preorder_pairwise .root hout).imp_of_mem ?_
  rintro a b ha - hlt rfl
  obtain ⟨xs, h⟩ := (mem_preorder_root hout).mp ha
  have := hlt _ _ h h
  rw [Std.compare_self] at this
  cases this

variable [OrientedOrd ι]

/-- In the listing of the whole forest, `a` stands before `b` exactly when its
root path is smaller. -/
theorem pair_sublist_preorder_iff (hout : F.preorder fuel none = some out) {a b : ι}
    {pa pb : List ι} (ha : F.RootPath (some a) pa) (hb : F.RootPath (some b) pb) :
    [a, b].Sublist out ↔ compare pa pb = .lt := by
  have hsorted := preorder_pairwise .root hout
  have hbefore : ∀ {c d pc pd}, [c, d].Sublist out → F.RootPath (some c) pc →
      F.RootPath (some d) pd → compare pc pd = .lt := by
    intro c d pc pd hsub hc hd
    have hcd := hsorted.sublist hsub
    rw [List.pairwise_pair] at hcd
    exact hcd pc pd hc hd
  refine ⟨fun h => hbefore h ha hb, fun hlt => ?_⟩
  have hmem : ∀ {c pc}, F.RootPath (some c) pc → c ∈ out :=
    fun hc => (mem_preorder_root hout).mpr ⟨_, hc⟩
  have hne : a ≠ b := by
    rintro rfl
    rw [ha.unique hb, Std.compare_self] at hlt
    cases hlt
  refine (pair_sublist_or (hmem ha) (hmem hb) hne).resolve_right fun hsub => ?_
  have hgt := hbefore hsub hb ha
  rw [OrientedOrd.eq_swap, hlt] at hgt
  cases hgt

end Forest

end Base
