import Numax.Store.Store
import Numax.Base.Sweep

/-!
# Pages addressed by a key

`scan_prefix_page_after` and `keys_prefix_page_after` as steps of a sweep over
the keys under a prefix, without the excluded ones: a page is the first `limit`
pending entries (`pageAfter_eq`), and following the last key of each page visits
every entry once, in ascending order (`Collected`).
-/

open Base Std

namespace Numax

namespace Store

/-- Is the key shown in the pages under this prefix? -/
def inScope (pfx : Bytes) (excluded : Option Bytes) (key : Bytes) : Bool :=
  startsWith key pfx && !isExcluded excluded key

/-- A cursor that lies under the prefix. -/
def CursorUnder (pfx : Bytes) : Option Bytes → Prop
  | none => True
  | some start => startsWith start pfx = true

theorem pageAfter_eq {α : Type} (row : Bytes × Bytes → α) (s : Store) {pfx : Bytes}
    {cursor : Option Bytes} (hcursor : CursorUnder pfx cursor) (limit : Nat)
    (excluded : Option Bytes) :
    pageLoop row 0 limit excluded (s.entriesAfter pfx cursor) 0 [] =
      ((pending (inScope pfx excluded) s cursor).take limit).map row := by
  have hvisible : (s.entriesAfter pfx cursor).filter (fun entry => !isExcluded excluded entry.1) =
      pending (inScope pfx excluded) s cursor := by
    cases cursor with
    | none =>
      rw [entriesAfter, withPrefix, List.filter_filter, pending]
      refine List.filter_congr fun entry _ => ?_
      simp [inScope, passed, Bool.and_comm]
    | some start =>
      rw [entriesAfter_some s hcursor, List.filter_filter, pending]
      refine List.filter_congr fun entry _ => ?_
      simp only [inScope, passed]
      cases startsWith entry.1 pfx <;> cases isExcluded excluded entry.1 <;> simp
  rw [pageLoop_eq, hvisible]
  simp

section Collect

variable {α : Type} {scope : Bytes → Bool} {s : Store} {cursor : Option Bytes}

/-- What the pages up to the cursor have brought, with what is still pending, is
the whole list. -/
def Collected (scope : Bytes → Bool) (s : Store) (row : Bytes × Bytes → α) (cursor : Option Bytes)
    (out : List α) : Prop :=
  out ++ (pending scope s cursor).map row = (pending scope s none).map row

theorem Collected.start (row : Bytes × Bytes → α) : Collected scope s row none [] :=
  List.nil_append _

/-- One page moves the cursor to its last key. -/
theorem Collected.page {row : Bytes × Bytes → α} {out : List α}
    (h : Collected scope s row cursor out) {page rest : List (Bytes × Bytes)}
    {last : Bytes × Bytes} (hpage : pending scope s cursor = page ++ rest)
    (hlast : page.getLast? = some last) :
    Collected scope s row (some last.1) (out ++ page.map row) := by
  rw [Collected, pending_after_page hpage hlast, List.append_assoc, ← List.map_append, ← hpage]
  exact h

theorem Collected.finish {row : Bytes × Bytes → α} {out : List α}
    (h : Collected scope s row cursor out) (hdone : pending scope s cursor = []) :
    out = (pending scope s none).map row := by
  rw [Collected, hdone, List.map_nil, List.append_nil] at h
  exact h

end Collect

end Store

end Numax
