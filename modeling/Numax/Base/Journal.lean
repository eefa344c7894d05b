import Mathlib.Data.List.Induction
import Mathlib.Data.List.Nodup

/-!
# Keyed components and their journal

A system of components, each under a key of its own, writes a journal: what happened to
which key. The journal determines an abstract state for every key (`journalState`), and
an entry is allowed or not in the state its key is in (`Lawful`).

The components are visited one after the other, the pass may stop early, and a visit
writes at most one entry, under the key of the component (`Pass`). If a visit keeps a
component in step with its abstract state, then so does a pass (`Pass.tracks`): entries
of the other components do not matter.
-/

namespace Base

section Journal

variable {κ ε σ : Type} [DecidableEq κ] (key : ε → κ) (apply : σ → ε → σ) (start : σ)

/-- The state of one key: only its own entries count. -/
def journalState (log : List ε) (k : κ) : σ :=
  (log.filter fun entry => key entry = k).foldl apply start

/-- Every entry is allowed in the state that the entries before it give its key. -/
def Lawful (allowed : σ → ε → Prop) (log : List ε) : Prop :=
  ∀ earlier entry later, log = earlier ++ entry :: later →
    allowed (journalState key apply start earlier (key entry)) entry

variable {key apply start} {allowed : σ → ε → Prop} {log more : List ε} {entry : ε} {k : κ}

@[simp] theorem journalState_nil : journalState key apply start [] k = start := rfl

theorem journalState_append_of_ne (h : ∀ entry ∈ more, key entry ≠ k) :
    journalState key apply start (log ++ more) k = journalState key apply start log k := by
  have hnone : (more.filter fun entry => key entry = k) = [] :=
    List.filter_eq_nil_iff.mpr fun entry hentry => by simp [h entry hentry]
  rw [journalState, List.filter_append, hnone, List.append_nil]
  rfl

theorem journalState_concat :
    journalState key apply start (log ++ [entry]) (key entry) =
      apply (journalState key apply start log (key entry)) entry := by
  rw [journalState, List.filter_append, List.foldl_append]
  simp [journalState]

theorem lawful_nil : Lawful key apply start allowed [] := by
  intro earlier entry later h
  exact absurd h.symm (List.append_ne_nil_of_right_ne_nil _ (List.cons_ne_nil _ _))

theorem Lawful.concat (h : Lawful key apply start allowed log)
    (hentry : allowed (journalState key apply start log (key entry)) entry) :
    Lawful key apply start allowed (log ++ [entry]) := by
  intro earlier other later heq
  rcases List.eq_nil_or_concat later with rfl | ⟨front, last, rfl⟩
  · obtain ⟨rfl, hsame⟩ := List.append_inj' heq rfl
    cases hsame
    exact hentry
  · rw [List.concat_eq_append, ← List.cons_append, ← List.append_assoc] at heq
    exact h earlier other front (List.append_inj' heq rfl).1

/-- Entries that are always allowed. -/
theorem Lawful.append (h : Lawful key apply start allowed log)
    (hmore : ∀ entry ∈ more, ∀ s, allowed s entry) :
    Lawful key apply start allowed (log ++ more) := by
  induction more using List.reverseRecOn with
  | nil => rwa [List.append_nil]
  | append_singleton more entry ih =>
    rw [← List.append_assoc]
    exact (ih fun other hother => hmore other (List.mem_append_left _ hother)).concat
      (hmore entry (by simp) _)

theorem Lawful.left (h : Lawful key apply start allowed (log ++ more)) :
    Lawful key apply start allowed log := by
  rintro earlier entry later rfl
  exact h earlier entry (later ++ more) (by simp)

/-- The new entry is allowed in the state of its key. -/
theorem Lawful.last (h : Lawful key apply start allowed (log ++ [entry])) :
    allowed (journalState key apply start log (key entry)) entry :=
  h log entry [] rfl

/-- What the new entries of a key keep in its state, as far as they are allowed, is kept. -/
theorem Lawful.keeps (P : σ → Prop) (h : Lawful key apply start allowed (log ++ more))
    (hkeeps : ∀ entry ∈ more, key entry = k → ∀ s, allowed s entry → P s → P (apply s entry))
    (hbefore : P (journalState key apply start log k)) :
    P (journalState key apply start (log ++ more) k) := by
  induction more using List.reverseRecOn with
  | nil => rwa [List.append_nil]
  | append_singleton more entry ih =>
    rw [← List.append_assoc] at h ⊢
    have hmore := ih h.left fun other hother => hkeeps other (List.mem_append_left _ hother)
    by_cases hkey : key entry = k
    · subst hkey
      rw [journalState_concat]
      exact hkeeps entry (by simp) rfl _ h.last hmore
    · rwa [journalState_append_of_ne (by simpa using hkey)]

theorem journalState_keeps (P : σ → Prop)
    (hkeeps : ∀ entry ∈ more, key entry = k → ∀ s, P s → P (apply s entry))
    (hbefore : P (journalState key apply start log k)) :
    P (journalState key apply start (log ++ more) k) := by
  have hlawful : Lawful key apply start (fun _ _ => True) (log ++ more) := fun _ _ _ _ => trivial
  exact hlawful.keeps P (fun entry hentry hkey s _ => hkeeps entry hentry hkey s) hbefore

/-- If all new entries of the key leave it in one state, and there is one, it is in it. -/
theorem journalState_append_of_const (state : σ)
    (hconst : ∀ entry ∈ more, key entry = k → ∀ s, apply s entry = state)
    (hmem : ∃ entry ∈ more, key entry = k) :
    journalState key apply start (log ++ more) k = state := by
  induction more using List.reverseRecOn with
  | nil => exact absurd hmem (by simp)
  | append_singleton more entry ih =>
    rw [← List.append_assoc]
    by_cases hkey : key entry = k
    · rw [← hkey, journalState_concat]
      exact hconst entry (by simp) hkey _
    · rw [journalState_append_of_ne (by simpa using hkey)]
      refine ih (fun other hother => hconst other (List.mem_append_left _ hother)) ?_
      obtain ⟨other, hother, heq⟩ := hmem
      rcases List.mem_append.mp hother with hin | hlast
      · exact ⟨other, hin, heq⟩
      · exact absurd (List.mem_singleton.mp hlast ▸ heq) hkey

end Journal

section Pass

variable {κ ε σ γ : Type} {visit : γ → γ → Option ε → Prop}

/-- A pass over the components: each is visited in turn, up to some point. -/
inductive Pass (visit : γ → γ → Option ε → Prop) : List γ → List γ → List ε → Prop
  | done (components : List γ) : Pass visit components components []
  | next {c c' : γ} {entry : Option ε} {rest rest' : List γ} {entries : List ε} :
      visit c c' entry → Pass visit rest rest' entries →
      Pass visit (c :: rest) (c' :: rest') (entry.toList ++ entries)

variable {key : ε → κ} {apply : σ → ε → σ} {start : σ} {allowed : σ → ε → Prop}
  {keyOf : γ → κ} {Tracks : σ → γ → Prop} {components after : List γ} {log entries : List ε}

/-- What a visit may do: it keeps the key, and it is in step with the abstract state. -/
structure VisitOk (visit : γ → γ → Option ε → Prop) (key : ε → κ) (apply : σ → ε → σ)
    (allowed : σ → ε → Prop) (keyOf : γ → κ) (Tracks : σ → γ → Prop) : Prop where
  keeps : ∀ c c' entry, visit c c' entry → keyOf c' = keyOf c
  own : ∀ c c' entry, visit c c' (some entry) → key entry = keyOf c
  silent : ∀ s c c', visit c c' none → Tracks s c → Tracks s c'
  spoken : ∀ s c c' entry, visit c c' (some entry) → Tracks s c →
    allowed s entry ∧ Tracks (apply s entry) c'

theorem Pass.map_keyOf (hok : VisitOk visit key apply allowed keyOf Tracks)
    (hpass : Pass visit components after entries) : after.map keyOf = components.map keyOf := by
  induction hpass with
  | done components => rfl
  | next hvisit hrest ih => rw [List.map_cons, List.map_cons, ih, hok.keeps _ _ _ hvisit]

/-- What a pass writes is written by a visit. -/
theorem Pass.mem_entries (hpass : Pass visit components after entries) :
    ∀ entry ∈ entries, ∃ c ∈ components, ∃ c', visit c c' (some entry) := by
  induction hpass with
  | done components => exact fun entry hentry => nomatch hentry
  | @next c c' first rest rest' entries hvisit hrest ih =>
    intro entry hentry
    rcases List.mem_append.mp hentry with hfirst | hlater
    · obtain rfl := Option.mem_toList.mp hfirst
      exact ⟨c, List.mem_cons_self, c', hvisit⟩
    · obtain ⟨other, hother, other', hvisit'⟩ := ih entry hlater
      exact ⟨other, List.mem_cons_of_mem _ hother, other', hvisit'⟩

/-- A pass keeps every component in step, and what it writes is lawful. -/
theorem Pass.tracks [DecidableEq κ] (hok : VisitOk visit key apply allowed keyOf Tracks)
    (hpass : Pass visit components after entries) (hdistinct : (components.map keyOf).Nodup)
    (hlawful : Lawful key apply start allowed log)
    (htracks : ∀ c ∈ components, Tracks (journalState key apply start log (keyOf c)) c) :
    Lawful key apply start allowed (log ++ entries) ∧
      ∀ c ∈ after, Tracks (journalState key apply start (log ++ entries) (keyOf c)) c := by
  induction hpass generalizing log with
  | done components =>
    rw [List.append_nil]
    exact ⟨hlawful, htracks⟩
  | @next c c' first rest rest' entries hvisit hrest ih =>
    obtain ⟨hnew, hdistinct⟩ := List.nodup_cons.mp hdistinct
    have hothers : ∀ other ∈ rest, keyOf other ≠ keyOf c := fun other hother heq =>
      hnew (heq ▸ List.mem_map_of_mem hother)
    -- the visit itself
    have hhere : Lawful key apply start allowed (log ++ first.toList) ∧
        Tracks (journalState key apply start (log ++ first.toList) (keyOf c)) c' ∧
        ∀ entry ∈ first.toList, key entry = keyOf c := by
      cases first with
      | none =>
        rw [Option.toList_none, List.append_nil]
        exact ⟨hlawful, hok.silent _ _ _ hvisit (htracks c List.mem_cons_self),
          fun entry hentry => nomatch hentry⟩
      | some entry =>
        have hown := hok.own _ _ _ hvisit
        obtain ⟨hallowed, hstep⟩ := hok.spoken _ _ _ _ hvisit (htracks c List.mem_cons_self)
        rw [← hown] at hallowed hstep ⊢
        refine ⟨hlawful.concat hallowed, ?_, fun other hother => ?_⟩
        · rwa [Option.toList_some, journalState_concat]
        · rw [List.mem_singleton.mp hother]
    obtain ⟨hlaw, hmine, hkeys⟩ := hhere
    have hrestTracks : ∀ other ∈ rest,
        Tracks (journalState key apply start (log ++ first.toList) (keyOf other)) other := by
      intro other hother
      rw [journalState_append_of_ne fun entry hentry heq =>
        hothers other hother (heq.symm.trans (hkeys entry hentry))]
      exact htracks other (List.mem_cons_of_mem _ hother)
    obtain ⟨hlawAll, hall⟩ := ih hdistinct hlaw hrestTracks
    rw [List.append_assoc] at hlawAll hall
    refine ⟨hlawAll, fun other hother => ?_⟩
    rcases List.mem_cons.mp hother with rfl | hlater
    · -- the entries after the visit belong to the rest
      rw [hok.keeps _ _ _ hvisit, ← List.append_assoc, journalState_append_of_ne]
      · exact hmine
      · intro entry hentry heq
        obtain ⟨other, hother, _, hvisit'⟩ := hrest.mem_entries entry hentry
        exact hothers other hother ((hok.own _ _ _ hvisit').symm.trans heq)
    · exact hall other hlater

end Pass

end Base
