import Numax.Base.OrdMap

/-!
# Sweeping an ordered map in pages

A sweep visits the entries of a map whose keys lie in a scope, in ascending
order and a page at a time, and rewrites or deletes each entry it visits. All
it remembers between two pages is the last key it visited. `Swept` says how far
it has come: entries up to the cursor hold the outcome of the rewrite, later
ones are as they were. A page moves the cursor to its last key
(`Swept.page`), and when nothing is pending the whole scope has been rewritten,
each entry once (`Swept.finish`).

The rewrite is a relation between an entry and what becomes of it, so that it
may be partial.
-/

open Std

namespace Base

section Sweep

variable {K V : Type} [Ord K] [TransOrd K]

/-- Has the cursor reached this key? -/
def passed (cursor : Option K) (k : K) : Bool :=
  match cursor with
  | none => false
  | some c => (compare k c).isLE

/-- The entries of the scope the cursor has not reached. -/
def pending (scope : K → Bool) (m : OrdMap K V) (cursor : Option K) : List (K × V) :=
  m.toList.filter fun entry => scope entry.1 && !passed cursor entry.1

theorem pending_sorted (scope : K → Bool) (m : OrdMap K V) (cursor : Option K) :
    (pending scope m cursor).Pairwise fun a b => compare a.1 b.1 = .lt :=
  (OrdMap.toList_sorted m).filter _

/-- A cursor that moves to a key it had not reached has passed more keys. -/
theorem passed_mono {cursor : Option K} {c k : K} (hc : passed cursor c = false)
    (hk : passed cursor k = true) : passed (some c) k = true := by
  cases cursor with
  | none => cases hk
  | some b =>
    have hcb : compare b c = .lt := by
      have hswap : compare b c = (compare c b).swap := OrientedOrd.eq_swap
      rw [hswap]
      simp only [passed] at hc
      revert hc
      cases compare c b <;> simp
    exact TransOrd.isLE_trans hk (by rw [hcb]; rfl)

/-- What a rewrite may make of a key: an absent key stays absent. -/
def Outcome (rewrites : K → V → Option V → Prop) (k : K) : Option V → Option V → Prop
  | none, new => new = none
  | some v, new => rewrites k v new

/-- How far a sweep that started on `base` has come in `m`. -/
def Swept (scope : K → Bool) (rewrites : K → V → Option V → Prop) (base m : OrdMap K V)
    (cursor : Option K) : Prop :=
  ∀ k, scope k = true →
    if passed cursor k = true then Outcome rewrites k base[k]? m[k]? else m[k]? = base[k]?

variable {scope : K → Bool} {rewrites : K → V → Option V → Prop} {base m m' : OrdMap K V}
  {cursor : Option K}

theorem Swept.start (base : OrdMap K V) : Swept scope rewrites base base none := by
  intro k _
  rfl

theorem Swept.get_pending (h : Swept scope rewrites base m cursor) {k : K}
    (hscope : scope k = true) (hnew : passed cursor k = false) : m[k]? = base[k]? := by
  have hk := h k hscope
  rw [if_neg (by simp [hnew])] at hk
  exact hk

/-- The pending keys up to the last key of a page are the page's. -/
theorem mem_page {page rest : List (K × V)} {last entry : K × V}
    (hpage : pending scope m cursor = page ++ rest) (hlast : page.getLast? = some last)
    (hmem : entry ∈ pending scope m cursor) (hle : (compare entry.1 last.1).isLE = true) :
    entry ∈ page := by
  rw [hpage] at hmem
  rcases List.mem_append.mp hmem with hin | hin
  · exact hin
  · have hsorted := pending_sorted scope m cursor
    rw [hpage, List.pairwise_append] at hsorted
    have hlt := hsorted.2.2 last (List.mem_of_getLast? hlast) entry hin
    have hswap : compare entry.1 last.1 = (compare last.1 entry.1).swap := OrientedOrd.eq_swap
    rw [hswap, hlt] at hle
    cases hle

variable [LawfulEqOrd K]

theorem mem_pending {k : K} {v : V} :
    (k, v) ∈ pending scope m cursor ↔
      m[k]? = some v ∧ scope k = true ∧ passed cursor k = false := by
  simp [pending]

theorem page_le_last {page rest : List (K × V)} {last entry : K × V}
    (hpage : pending scope m cursor = page ++ rest) (hlast : page.getLast? = some last)
    (hmem : entry ∈ page) : (compare entry.1 last.1).isLE = true := by
  have hsorted := pending_sorted scope m cursor
  rw [hpage, List.pairwise_append] at hsorted
  obtain ⟨init, rfl⟩ := List.getLast?_eq_some_iff.mp hlast
  rcases List.mem_append.mp hmem with hin | hin
  · rw [(List.pairwise_append.mp hsorted.1).2.2 entry hin last (by simp)]
    rfl
  · rw [List.mem_singleton.mp hin, Std.compare_self]
    rfl

/-- One page: its entries are rewritten, nothing else in the scope changes. -/
theorem Swept.page (h : Swept scope rewrites base m cursor) {page rest : List (K × V)}
    {last : K × V} (hpage : pending scope m cursor = page ++ rest)
    (hlast : page.getLast? = some last)
    (hrewrite : ∀ k v, (k, v) ∈ page → rewrites k v m'[k]?)
    (hframe : ∀ k, scope k = true → (∀ v, (k, v) ∉ page) → m'[k]? = m[k]?) :
    Swept scope rewrites base m' (some last.1) := by
  have hin : ∀ entry ∈ page, entry ∈ pending scope m cursor := fun entry hentry => by
    rw [hpage]
    exact List.mem_append_left _ hentry
  obtain ⟨_, hlastScope, hlastNew⟩ := mem_pending.mp (hin last (List.mem_of_getLast? hlast))
  intro k hscope
  have hk := h k hscope
  by_cases hold : passed cursor k = true
  · -- reached before this page, so not in it
    have hout : ∀ v, (k, v) ∉ page := fun v hv => by
      have hnew := (mem_pending.mp (hin _ hv)).2.2
      rw [hold] at hnew
      cases hnew
    rw [if_pos hold] at hk
    rw [if_pos (passed_mono hlastNew hold), hframe k hscope hout]
    exact hk
  · rw [if_neg hold] at hk
    have hnew : passed cursor k = false := by simpa using hold
    by_cases hreach : passed (some last.1) k = true
    · rw [if_pos hreach]
      cases hbase : base[k]? with
      | none =>
        have habsent : m[k]? = none := by rw [hk, hbase]
        have hout : ∀ v, (k, v) ∉ page := fun v hv => by
          rw [(mem_pending.mp (hin _ hv)).1] at habsent
          cases habsent
        exact (hframe k hscope hout).trans habsent
      | some v =>
        have hmem : (k, v) ∈ pending scope m cursor :=
          mem_pending.mpr ⟨by rw [hk, hbase], hscope, hnew⟩
        exact hrewrite k v (mem_page hpage hlast hmem hreach)
    · rw [if_neg hreach, hframe k hscope, hk]
      intro v hv
      exact hreach (page_le_last hpage hlast hv)

/-- Nothing pending: every entry of the scope has been rewritten. -/
theorem Swept.finish (h : Swept scope rewrites base m cursor)
    (hdone : pending scope m cursor = []) {k : K} (hscope : scope k = true) :
    Outcome rewrites k base[k]? m[k]? := by
  have hk := h k hscope
  by_cases hpassed : passed cursor k = true
  · rw [if_pos hpassed] at hk
    exact hk
  · rw [if_neg hpassed] at hk
    have habsent : m[k]? = none := by
      cases hget : m[k]? with
      | none => rfl
      | some v =>
        have hmem := mem_pending.mpr ⟨hget, hscope, by simpa using hpassed⟩
        rw [hdone] at hmem
        cases hmem
    rw [← hk, habsent]
    rfl

omit [LawfulEqOrd K] in
/-- Moving the cursor forward filters what is pending. -/
theorem pending_some_eq_filter {c : K} (hnew : passed cursor c = false) :
    pending scope m (some c) =
      (pending scope m cursor).filter fun entry => !passed (some c) entry.1 := by
  rw [pending, pending, List.filter_filter]
  refine List.filter_congr fun entry _ => ?_
  cases hp : passed cursor entry.1 with
  | false => simp [Bool.and_comm]
  | true => simp [passed_mono hnew hp]

/-- Moving the cursor to a pending key leaves fewer entries pending. -/
theorem length_pending_lt {c : K} {v : V} (hmem : (c, v) ∈ pending scope m cursor) :
    (pending scope m (some c)).length < (pending scope m cursor).length := by
  rw [pending_some_eq_filter (mem_pending.mp hmem).2.2]
  refine Nat.lt_of_le_of_ne (List.length_filter_le _ _) fun heq => ?_
  have hall := List.length_filter_eq_length_iff.mp heq (c, v) hmem
  simp [passed] at hall

/-- After a page, what is pending is what came behind it. -/
theorem pending_after_page {page rest : List (K × V)} {last : K × V}
    (hpage : pending scope m cursor = page ++ rest) (hlast : page.getLast? = some last) :
    pending scope m (some last.1) = rest := by
  have hin : last ∈ pending scope m cursor := by
    rw [hpage]
    exact List.mem_append_left _ (List.mem_of_getLast? hlast)
  rw [pending_some_eq_filter (mem_pending.mp hin).2.2, hpage, List.filter_append]
  have hbefore : page.filter (fun entry => !passed (some last.1) entry.1) = [] := by
    refine List.filter_eq_nil_iff.mpr fun entry hentry => ?_
    simp [passed, page_le_last hpage hlast hentry]
  have hbehind : rest.filter (fun entry => !passed (some last.1) entry.1) = rest := by
    refine List.filter_eq_self.mpr fun entry hentry => ?_
    have hsorted := pending_sorted scope m cursor
    rw [hpage, List.pairwise_append] at hsorted
    have hlt := hsorted.2.2 last (List.mem_of_getLast? hlast) entry hentry
    have hswap : compare entry.1 last.1 = (compare last.1 entry.1).swap := OrientedOrd.eq_swap
    simp [passed, hswap, hlt]
  rw [hbefore, hbehind, List.nil_append]

end Sweep

end Base
