import Mathlib

/-!
# Keeping the winner

A last-writer-wins cell keeps, of all the candidates written to it, one that is
greatest for some comparison `cmp`. `pick` is one such write and `pickOpt` the
same for a cell that may still be empty. Two writes commute as soon as
candidates that tie are equal (`pick_right_comm`, `pickOpt_right_comm`), which
is what makes the final cell independent of the order of the writes.

`pick` is associative and idempotent for every comparison; it is commutative
just where ties are equalities (`pick_comm_iff`), and a sequence of writes can
be reordered just when the greatest candidates above the cell are all equal
(`foldl_pick_perm_iff`).

Where ties are equalities, cells form a semilattice under `pickBoth`, and a cell
that was filled by writes and by joins is the greatest of all the candidates that
went into it (`Greatest`).
-/

open Std

namespace Base

variable {α : Type} (cmp : α → α → Ordering)

/-- Write `candidate` over `current` when it is strictly greater. -/
def pick (current candidate : α) : α :=
  if cmp current candidate = .lt then candidate else current

/-- Write `candidate` into a cell that may be empty. -/
def pickOpt (current : Option α) (candidate : α) : Option α :=
  match current with
  | none => some candidate
  | some r => some (pick cmp r candidate)

/-- Write what another cell holds, if anything. -/
def pickBoth (cell other : Option α) : Option α :=
  match other with
  | none => cell
  | some candidate => pickOpt cmp cell candidate

theorem pick_of_lt {r c : α} (h : cmp r c = .lt) : pick cmp r c = c := if_pos h

theorem pick_of_not_lt {r c : α} (h : cmp r c ≠ .lt) : pick cmp r c = r := if_neg h

/-- The result of a write is never below the old cell. -/
theorem le_pick_left [TransCmp cmp] (r c : α) : (cmp r (pick cmp r c)).isLE := by
  unfold pick
  split
  · next h => rw [h]; rfl
  · exact Ordering.isLE_of_eq_eq ReflCmp.compare_self

/-- The result of a write is never below the candidate. -/
theorem le_pick_right [TransCmp cmp] (r c : α) : (cmp c (pick cmp r c)).isLE := by
  unfold pick
  split
  · exact Ordering.isLE_of_eq_eq ReflCmp.compare_self
  · next h =>
      have hswap : cmp c r = (cmp r c).swap := OrientedCmp.eq_swap
      rw [hswap]
      cases hrc : cmp r c <;> simp_all

/-- Two writes commute when tied candidates are equal. -/
theorem pick_right_comm [TransCmp cmp] (r c d : α) (htie : cmp c d = .eq → c = d) :
    pick cmp (pick cmp r c) d = pick cmp (pick cmp r d) c := by
  have hdc : cmp d c = (cmp c d).swap := OrientedCmp.eq_swap
  by_cases hrc : cmp r c = .lt
  · rw [pick_of_lt cmp hrc]
    by_cases hrd : cmp r d = .lt
    · rw [pick_of_lt cmp hrd]
      -- both candidates beat the cell, so only their own comparison matters
      unfold pick
      cases hcd : cmp c d with
      | lt => simp [hdc, hcd]
      | eq => simp [htie hcd]
      | gt => simp [hdc, hcd]
    · have hcd : cmp c d ≠ .lt := fun h => hrd (TransCmp.lt_trans hrc h)
      rw [pick_of_not_lt cmp hcd, pick_of_not_lt cmp hrd, pick_of_lt cmp hrc]
  · rw [pick_of_not_lt cmp hrc]
    by_cases hrd : cmp r d = .lt
    · have hcd : cmp d c ≠ .lt := fun h => hrc (TransCmp.lt_trans hrd h)
      rw [pick_of_lt cmp hrd, pick_of_not_lt cmp hcd]
    · rw [pick_of_not_lt cmp hrd, pick_of_not_lt cmp hrc]

theorem pickOpt_right_comm [TransCmp cmp] (r : Option α) (c d : α)
    (htie : cmp c d = .eq → c = d) :
    pickOpt cmp (pickOpt cmp r c) d = pickOpt cmp (pickOpt cmp r d) c := by
  cases r with
  | some r => exact congrArg some (pick_right_comm cmp r c d htie)
  | none =>
    -- the first of the two candidates fills the cell
    have hdc : cmp d c = (cmp c d).swap := OrientedCmp.eq_swap
    simp only [pickOpt, pick, hdc]
    cases hcd : cmp c d with
    | lt => simp
    | eq => simp [htie hcd]
    | gt => simp

/-! ## The laws of a write -/

section Laws

variable [TransCmp cmp]

theorem pick_self (a : α) : pick cmp a a = a := by
  have hself : cmp a a = .eq := ReflCmp.compare_self
  exact pick_of_not_lt cmp (by rw [hself]; exact nofun)

/-- A write is commutative exactly where a tie means equality. -/
theorem pick_comm_iff (a b : α) : pick cmp a b = pick cmp b a ↔ (cmp a b = .eq → a = b) := by
  have hba : cmp b a = (cmp a b).swap := OrientedCmp.eq_swap
  unfold pick
  cases hab : cmp a b with
  | lt => simp [hba, hab]
  | gt => simp [hba, hab]
  | eq => simp [hba, hab]

/-- The first of the greatest survives, however the writes are grouped. -/
theorem pick_assoc (a b c : α) : pick cmp (pick cmp a b) c = pick cmp a (pick cmp b c) := by
  by_cases hab : cmp a b = .lt
  · rw [pick_of_lt cmp hab]
    by_cases hbc : cmp b c = .lt
    · rw [pick_of_lt cmp hbc, pick_of_lt cmp (TransCmp.lt_trans hab hbc)]
    · rw [pick_of_not_lt cmp hbc, pick_of_lt cmp hab]
  · rw [pick_of_not_lt cmp hab]
    by_cases hbc : cmp b c = .lt
    · rw [pick_of_lt cmp hbc]
    · have hac : cmp a c ≠ .lt := by
        have hca : (cmp c b).isLE := by
          have hswap : cmp c b = (cmp b c).swap := OrientedCmp.eq_swap
          rw [hswap]
          revert hbc
          cases cmp b c <;> simp
        intro hlt
        exact hab (TransCmp.lt_of_lt_of_isLE hlt hca)
      rw [pick_of_not_lt cmp hbc, pick_of_not_lt cmp hab, pick_of_not_lt cmp hac]

/-- What a sequence of writes leaves: the old cell if none beats it, and
otherwise one of the greatest candidates. -/
theorem foldl_pick_cases (r : α) (ws : List α) :
    (ws.foldl (pick cmp) r = r ∧ ∀ w ∈ ws, cmp r w ≠ .lt) ∨
      (ws.foldl (pick cmp) r ∈ ws ∧ cmp r (ws.foldl (pick cmp) r) = .lt ∧
        ∀ w ∈ ws, (cmp w (ws.foldl (pick cmp) r)).isLE) := by
  induction ws generalizing r with
  | nil => exact .inl ⟨rfl, fun w hw => by cases hw⟩
  | cons w ws ih =>
    rw [List.foldl_cons]
    -- the rest of the writes starts from the winner of the first
    by_cases hrw : cmp r w = .lt
    · rw [pick_of_lt cmp hrw]
      rcases ih w with ⟨heq, hle⟩ | ⟨hmem, hlt, hle⟩
      · rw [heq]
        refine .inr ⟨List.mem_cons_self, hrw, fun x hx => ?_⟩
        rcases List.mem_cons.mp hx with rfl | hx
        · exact Ordering.isLE_of_eq_eq ReflCmp.compare_self
        · have hswap : cmp x w = (cmp w x).swap := OrientedCmp.eq_swap
          have hnot := hle x hx
          rw [hswap]
          revert hnot
          cases cmp w x <;> simp
      · refine .inr ⟨List.mem_cons_of_mem _ hmem, TransCmp.lt_trans hrw hlt, fun x hx => ?_⟩
        rcases List.mem_cons.mp hx with rfl | hx
        · rw [hlt]
          rfl
        · exact hle x hx
    · rw [pick_of_not_lt cmp hrw]
      rcases ih r with ⟨heq, hle⟩ | ⟨hmem, hlt, hle⟩
      · refine .inl ⟨heq, fun x hx => ?_⟩
        rcases List.mem_cons.mp hx with rfl | hx
        · exact hrw
        · exact hle x hx
      · refine .inr ⟨List.mem_cons_of_mem _ hmem, hlt, fun x hx => ?_⟩
        rcases List.mem_cons.mp hx with rfl | hx
        · have hxr : (cmp x r).isLE := by
            have hswap : cmp x r = (cmp r x).swap := OrientedCmp.eq_swap
            rw [hswap]
            revert hrw
            cases cmp r x <;> simp
          exact TransCmp.isLE_trans hxr (by rw [hlt]; rfl)
        · exact hle x hx

/-- The candidates that could be left by some order of the writes are all one. -/
def TopAgree (r : α) (ws : List α) : Prop :=
  ∀ c ∈ ws, ∀ d ∈ ws, cmp r c = .lt → (∀ w ∈ ws, (cmp w c).isLE) → (∀ w ∈ ws, (cmp w d).isLE) →
    c = d

/-- A greatest candidate above the cell is left if it is written first. -/
theorem foldl_pick_of_top {r c : α} {ws : List α} (hrc : cmp r c = .lt)
    (htop : ∀ w ∈ ws, (cmp w c).isLE) : (c :: ws).foldl (pick cmp) r = c := by
  rw [List.foldl_cons, pick_of_lt cmp hrc]
  rcases foldl_pick_cases cmp c ws with ⟨heq, _⟩ | ⟨hmem, hlt, _⟩
  · exact heq
  · have hle := htop _ hmem
    have hswap : cmp (ws.foldl (pick cmp) c) c = (cmp c (ws.foldl (pick cmp) c)).swap :=
      OrientedCmp.eq_swap
    rw [hswap, hlt] at hle
    cases hle

/-- Reordering the writes changes nothing exactly if their top candidates agree. -/
theorem foldl_pick_perm_iff (r : α) (ws : List α) :
    (∀ ws' : List α, ws'.Perm ws → ws'.foldl (pick cmp) r = ws.foldl (pick cmp) r) ↔
      TopAgree cmp r ws := by
  constructor
  · intro h c hc d hd hrc hctop hdtop
    have hfirst : ∀ x ∈ ws, cmp r x = .lt → (∀ w ∈ ws, (cmp w x).isLE) →
        ws.foldl (pick cmp) r = x := by
      intro x hx hrx hxtop
      obtain ⟨before, after, hsplit⟩ := List.append_of_mem hx
      have hperm : (x :: (before ++ after)).Perm ws := by
        rw [hsplit]
        exact List.perm_middle.symm
      rw [← h _ hperm]
      exact foldl_pick_of_top cmp hrx fun w hw => hxtop w (hperm.mem_iff.mp
        (List.mem_cons_of_mem _ hw))
    have hrd : cmp r d = .lt := TransCmp.lt_of_lt_of_isLE hrc (hdtop c hc)
    rw [← hfirst c hc hrc hctop, hfirst d hd hrd hdtop]
  · intro h ws' hperm
    rcases foldl_pick_cases cmp r ws with ⟨heq, hnone⟩ | ⟨hmem, hlt, htop⟩
    · rcases foldl_pick_cases cmp r ws' with ⟨heq', _⟩ | ⟨hmem', hlt', _⟩
      · rw [heq, heq']
      · exact absurd hlt' (hnone _ (hperm.mem_iff.mp hmem'))
    · rcases foldl_pick_cases cmp r ws' with ⟨_, hnone'⟩ | ⟨hmem', hlt', htop'⟩
      · exact absurd hlt (hnone' _ (hperm.mem_iff.mpr hmem))
      · exact h _ (hperm.mem_iff.mp hmem') _ hmem hlt'
          (fun w hw => htop' w (hperm.mem_iff.mpr hw)) htop

/-! ## Cells -/

theorem pickBoth_comm (htie : ∀ c d : α, cmp c d = .eq → c = d) (a b : Option α) :
    pickBoth cmp a b = pickBoth cmp b a := by
  cases a with
  | none => cases b <;> rfl
  | some a =>
    cases b with
    | none => rfl
    | some b => exact congrArg some ((pick_comm_iff cmp a b).mpr (htie a b))

theorem pickBoth_assoc (a b c : Option α) :
    pickBoth cmp (pickBoth cmp a b) c = pickBoth cmp a (pickBoth cmp b c) := by
  cases c with
  | none => rfl
  | some c =>
    cases b with
    | none => rfl
    | some b =>
      cases a with
      | none => rfl
      | some a => exact congrArg some (pick_assoc cmp a b c)

theorem pickBoth_self (a : Option α) : pickBoth cmp a a = a := by
  cases a with
  | none => rfl
  | some a => exact congrArg some (pick_self cmp a)

/-- The cell holds the greatest of the candidates, and nothing if there are none. -/
def Greatest (candidates : List α) : Option α → Prop
  | none => candidates = []
  | some top => top ∈ candidates ∧ ∀ c ∈ candidates, (cmp c top).isLE

variable {cmp}

theorem Greatest.single (c : α) : Greatest cmp [c] (some c) := by
  refine ⟨List.mem_singleton_self c, fun d hd => ?_⟩
  rw [List.mem_singleton.mp hd]
  exact Ordering.isLE_of_eq_eq ReflCmp.compare_self

theorem Greatest.join {cs ds : List α} {a b : Option α} (ha : Greatest cmp cs a)
    (hb : Greatest cmp ds b) : Greatest cmp (cs ++ ds) (pickBoth cmp a b) := by
  cases b with
  | none =>
    have hds : ds = [] := hb
    rw [hds, List.append_nil]
    exact ha
  | some b =>
    cases a with
    | none =>
      have hcs : cs = [] := ha
      rw [hcs]
      exact hb
    | some a =>
      refine ⟨?_, ?_⟩
      · unfold pick
        split
        · exact List.mem_append_right _ hb.1
        · exact List.mem_append_left _ ha.1
      · intro c hc
        rcases List.mem_append.mp hc with hc | hc
        · exact TransCmp.isLE_trans (ha.2 c hc) (le_pick_left cmp a b)
        · exact TransCmp.isLE_trans (hb.2 c hc) (le_pick_right cmp a b)

/-- The greatest depends on which candidates there are, not on how often or in which order. -/
theorem Greatest.unique (htie : ∀ c d : α, cmp c d = .eq → c = d) {cs ds : List α}
    {a b : Option α} (ha : Greatest cmp cs a) (hb : Greatest cmp ds b)
    (hsame : ∀ c, c ∈ cs ↔ c ∈ ds) : a = b := by
  cases a with
  | none =>
    have hcs : cs = [] := ha
    cases b with
    | none => rfl
    | some b => exact absurd ((hsame b).mpr hb.1) (by rw [hcs]; exact List.not_mem_nil)
  | some a =>
    cases b with
    | none =>
      have hds : ds = [] := hb
      exact absurd ((hsame a).mp ha.1) (by rw [hds]; exact List.not_mem_nil)
    | some b =>
      have hab : (cmp a b).isLE := hb.2 a ((hsame a).mp ha.1)
      have hba : (cmp b a).isLE := ha.2 b ((hsame b).mpr hb.1)
      rw [htie a b (OrientedCmp.isLE_antisymm hab hba)]

end Laws

end Base
