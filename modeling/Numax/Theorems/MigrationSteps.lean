import Numax.Core.MigrationBatch

/-!
# Every migration step is applied once to every record

A table is brought from a version to its target by calls of
`migrateTableBatch` that may use different limits, while the engine rewrites
and deletes the records it is paging over. The invariant (`Migrating`) names
the version the table has reached, the records it had when that version was
reached and the cursor: records up to the cursor hold the outcome of the
running step, later ones are as they were (`Swept`). A page moves the cursor, a
finished step starts the next one with no cursor, and a call that finds the
target version has no cursor left, so the records are the outcomes of all the
steps.
-/

open Base Std

namespace Numax

/-! ## The registered path -/

theorem nextVersion_toNat {u t : UInt16} (h : u < t) : (nextVersion u).toNat = u.toNat + 1 := by
  have hlt : u.toNat < t.toNat := UInt16.lt_iff_toNat_lt.mp h
  have ht : t.toNat < 2 ^ 16 := t.toNat_lt
  have hne : u ≠ 65535 := fun heq => by
    rw [heq] at hlt
    simp at hlt
    omega
  rw [nextVersion, if_neg hne, UInt16.toNat_add]
  simp
  omega

/-- An accepted path has one step for each version, in order. -/
theorem walkMigrationPath_eq_ok {table : StoreTable} {target u reached : UInt16}
    {steps : List MigrationStep} (hu : u ≤ target)
    (h : walkMigrationPath table target steps u = .ok reached) :
    reached.toNat = u.toNat + steps.length ∧
      ∀ i step, steps[i]? = some step →
        step.fromVersion.toNat = u.toNat + i ∧ step.toVersion.toNat = u.toNat + i + 1 := by
  induction steps generalizing u with
  | nil =>
    cases h
    exact ⟨by simp, fun i step hi => by simp at hi⟩
  | cons step rest ih =>
    rw [walkMigrationPath] at h
    split at h
    · cases h
    · next hne =>
        have hlt : u < target := by
          refine UInt16.lt_iff_toNat_lt.mpr (Nat.lt_of_le_of_ne (UInt16.le_iff_toNat_le.mp hu) ?_)
          exact fun heq => hne (UInt16.toNat_inj.mp heq)
        split at h
        · cases h
        · next hfrom =>
            split at h
            · cases h
            · next hto =>
                rw [not_not] at hfrom hto
                have hnext := nextVersion_toNat hlt
                rw [hto] at h
                have hle : nextVersion u ≤ target := by
                  rw [UInt16.le_iff_toNat_le, hnext]
                  exact UInt16.lt_iff_toNat_lt.mp hlt
                -- the rest of the path starts at the next version
                obtain ⟨hreached, hsteps⟩ := ih hle h
                refine ⟨by rw [hreached, hnext, List.length_cons]; omega, ?_⟩
                intro i st hi
                cases i with
                | zero =>
                  cases hi
                  rw [hfrom, hto, hnext]
                  exact ⟨rfl, rfl⟩
                | succ i =>
                  have hst := hsteps i st (by simpa using hi)
                  rw [hnext] at hst
                  omega

/-- What `validateMigrationPath` accepts. -/
structure PathOk (target : UInt16) (steps : List MigrationStep) : Prop where
  length_eq : steps.length = target.toNat
  from_eq : ∀ (i : Nat) (step : MigrationStep), steps[i]? = some step → step.fromVersion.toNat = i
  to_eq : ∀ (i : Nat) (step : MigrationStep), steps[i]? = some step → step.toVersion.toNat = i + 1

theorem validateMigrationPath_eq_ok {table : StoreTable} {target : UInt16}
    {steps : List MigrationStep} (h : validateMigrationPath table target steps = .ok ()) :
    PathOk target steps := by
  obtain ⟨reached, hwalk, h⟩ := bind_eq_ok h
  have hzero : (0 : UInt16).toNat = 0 := rfl
  obtain ⟨hreached, hsteps⟩ := walkMigrationPath_eq_ok (UInt16.zero_le) hwalk
  split at h
  · cases h
  · next heq =>
      rw [not_not] at heq
      refine ⟨?_, fun i step hi => ?_, fun i step hi => ?_⟩
      · rw [← heq, hreached, hzero, Nat.zero_add]
      · rw [(hsteps i step hi).1, hzero, Nat.zero_add]
      · rw [(hsteps i step hi).2, hzero, Nat.zero_add]

theorem nextMigrationStep_eq_ok {table : StoreTable} {u target : UInt16}
    {steps : List MigrationStep} {step : MigrationStep} (hpath : PathOk target steps)
    (h : nextMigrationStep table u target steps = .ok step) :
    steps[u.toNat]? = some step ∧ step.fromVersion = u ∧ u < target := by
  rw [nextMigrationStep] at h
  split at h
  · cases h
  · next found hfound =>
      split at h
      · cases h
      · cases h
        obtain ⟨i, hi⟩ := List.getElem?_of_mem (List.mem_of_find?_eq_some hfound)
        have hu : step.fromVersion = u := by simpa using List.find?_some hfound
        have hidx : i = u.toNat := by rw [← hpath.from_eq i step hi, hu]
        subst hidx
        refine ⟨hi, hu, UInt16.lt_iff_toNat_lt.mpr ?_⟩
        rw [← hpath.length_eq]
        exact (List.getElem?_eq_some_iff.mp hi).1

/-! ## The outcome of several steps -/

/-- The steps in order, once each; a record that one of them deletes is gone. -/
def stepsOutcome (table : StoreTable) (key : Bytes) :
    List MigrationStep → Option Bytes → Except MigrationError (Option Bytes)
  | [], record => .ok record
  | _ :: _, none => .ok none
  | step :: rest, some value => do
    let record ← step.outcome table key value
    stepsOutcome table key rest record

theorem stepsOutcome_none (table : StoreTable) (key : Bytes) (steps : List MigrationStep) :
    stepsOutcome table key steps none = .ok none := by
  cases steps <;> rfl

theorem stepsOutcome_snoc {table : StoreTable} {key : Bytes} {steps : List MigrationStep}
    {step : MigrationStep} {record middle final : Option Bytes}
    (hsteps : stepsOutcome table key steps record = .ok middle)
    (hlast : Outcome (fun k v r => step.outcome table k v = .ok r) key middle final) :
    stepsOutcome table key (steps ++ [step]) record = .ok final := by
  induction steps generalizing record with
  | nil =>
    cases hsteps
    cases middle with
    | none =>
      rw [show final = none from hlast]
      rfl
    | some value =>
      have hvalue : step.outcome table key value = .ok final := hlast
      simp only [List.nil_append, stepsOutcome, hvalue]
      rfl
  | cons first rest ih =>
    cases record with
    | none =>
      rw [stepsOutcome_none] at hsteps
      cases hsteps
      rw [show final = none from hlast, stepsOutcome_none]
    | some value =>
      obtain ⟨record', hfirst, hrest⟩ := bind_eq_ok hsteps
      simp only [List.cons_append, stepsOutcome, hfirst]
      exact ih hrest

/-! ## The invariant -/

/-- The table has this version; without a header it has version 0. -/
def HasVersion (table : StoreTable) (s : Store) (version : UInt16) : Prop :=
  s[table.schemaKey]? = some (SchemaHeader.mk version table).encode ∨
    (version = 0 ∧ s[table.schemaKey]? = none)

theorem tableVersion_of_hasVersion {table : StoreTable} {s : Store} {u target : UInt16}
    {checkpointBytes : Option Bytes} {found : Option UInt16} (hversion : HasVersion table s u)
    (hle : u ≤ target)
    (h : tableVersion table target checkpointBytes s[table.schemaKey]? = .ok found) :
    (found = none ∧ u = target ∧ checkpointBytes = none ∧
        s[table.schemaKey]? = some (SchemaHeader.mk u table).encode) ∨ found = some u := by
  rcases hversion with hheader | ⟨hzero, hnone⟩
  · rw [hheader] at h
    have hdecode := SchemaHeader.decode_encode ⟨u, table⟩
    simp only at hdecode
    simp only [tableVersion, hdecode, ofSchema, Except.mapError, bind, Except.bind] at h
    split at h
    · next heq =>
        split at h
        · cases h
        · next hck =>
            cases h
            exact .inl ⟨rfl, heq, by simpa using hck, hheader⟩
    · split at h
      · next hgt => exact absurd hgt (UInt16.not_lt.mpr hle)
      · cases h
        exact .inr rfl
  · rw [hnone] at h
    cases h
    exact .inr (by rw [hzero])

/-- A table on its way from version `v` of the store `start`: it has reached
version `u`, and the step from `u` has come to the cursor. -/
structure Migrating (table : StoreTable) (target : UInt16) (steps : List MigrationStep)
    (start : Store) (v : UInt16) (s : Store) (u : UInt16) (cursor : Option Bytes) : Prop where
  from_le : v ≤ u
  le_target : u ≤ target
  header : HasVersion table s u
  checkpoint : HasCheckpoint table s u (nextVersion u) cursor
  cursor_in : ∀ c, cursor = some c → table.holds c = true
  records : ∃ base : Store,
    (∀ key, table.holds key = true →
      stepsOutcome table key ((steps.take u.toNat).drop v.toNat) start[key]? = .ok base[key]?) ∧
    Swept table.holds
      (fun key value record => ∀ step, steps[u.toNat]? = some step →
        step.outcome table key value = .ok record) base s cursor
  frame : ∀ key, table.holds key = false → key ≠ table.schemaKey → key ≠ checkpointKey table →
    s[key]? = start[key]?

theorem Migrating.start {table : StoreTable} {target v : UInt16} {steps : List MigrationStep}
    {s : Store} (hle : v ≤ target) (hheader : HasVersion table s v)
    (hck : s[checkpointKey table]? = none) : Migrating table target steps s v s v none where
  from_le := UInt16.le_refl v
  le_target := hle
  header := hheader
  checkpoint := hck
  cursor_in := fun c hc => by cases hc
  records := by
    refine ⟨s, fun key _ => ?_, Swept.start s⟩
    have hnil : (steps.take v.toNat).drop v.toNat = [] :=
      List.drop_of_length_le (List.length_take_le _ _)
    rw [hnil]
    rfl
  frame := fun _ _ _ _ => rfl

/-- The migrators of the steps touch a record's own key at most. -/
def OwnKeySteps (table : StoreTable) (steps : List MigrationStep) : Prop :=
  ∀ step ∈ steps, ∀ key value m, table.holds key = true →
    step.migrateRecord table key value = .ok m → m.OwnKey key

section Step

variable {table : StoreTable} {target v u : UInt16} {steps : List MigrationStep}
  {start s s' : Store} {cursor : Option Bytes} {options : MigrationOptions}

/-- The step and the cursor a call goes on with are those of the invariant. -/
theorem Migrating.resumes {step : MigrationStep} {checkpoint : MigrationCheckpoint}
    (h : Migrating table target steps start v s u cursor) (hpath : PathOk target steps)
    (hresume : Resumes table target steps s step checkpoint) :
    steps[u.toNat]? = some step ∧ step.fromVersion = u ∧ step.toVersion = nextVersion u ∧
      u < target ∧ checkpoint = ⟨table, u, nextVersion u, cursor⟩ := by
  obtain ⟨fromVersion, hfound, hstep⟩ := hresume.step_ok
  rcases tableVersion_of_hasVersion h.header h.le_target hfound with ⟨hnone, _⟩ | hsome
  · cases hnone
  · cases hsome
    obtain ⟨hget, hfrom, hlt⟩ := nextMigrationStep_eq_ok hpath hstep
    have hto : step.toVersion = nextVersion u := by
      rw [← UInt16.toNat_inj, hpath.to_eq _ _ hget, nextVersion_toNat hlt]
    have hck : HasCheckpoint table s step.fromVersion step.toVersion cursor := by
      rw [hfrom, hto]
      exact h.checkpoint
    have hcheckpoint := hresume.checkpoint_ok
    rw [resumeCheckpoint_of_hasCheckpoint hck h.cursor_in, hfrom, hto] at hcheckpoint
    exact ⟨hget, hfrom, hto, hlt, (Except.ok.inj hcheckpoint).symm⟩

/-- A finished step: nothing was pending, the next version starts without a cursor. -/
theorem Migrating.finish {step : MigrationStep} (hpath : PathOk target steps)
    (h : Migrating table target steps start v s u cursor)
    (hget : steps[u.toNat]? = some step) (hto : step.toVersion = nextVersion u) (hlt : u < target)
    (hdone : pending table.holds s cursor = [])
    (hwrite : s.applyBatch none [(table.schemaKey, (SchemaHeader.mk step.toVersion table).encode)]
      [checkpointKey table] = .ok s') :
    Migrating table target steps start v s' (nextVersion u) none := by
  have hnext := nextVersion_toNat hlt
  have hlookup := get_finished hwrite
  have hsame : ∀ key, table.holds key = true → s'[key]? = s[key]? := fun key hkey => by
    have hck : key ≠ checkpointKey table := fun heq => by
      rw [heq, StoreTable.holds_checkpointKey] at hkey
      cases hkey
    have hschema : key ≠ table.schemaKey := fun heq => by
      rw [heq, StoreTable.holds_schemaKey] at hkey
      cases hkey
    rw [hlookup, if_neg hck, if_neg hschema]
  refine ⟨?_, ?_, .inl ?_, ?_, (fun c hc => by cases hc), ?_, ?_⟩
  · exact UInt16.le_iff_toNat_le.mpr (by
      have := UInt16.le_iff_toNat_le.mp h.from_le
      omega)
  · exact UInt16.le_iff_toNat_le.mpr (by
      have := UInt16.lt_iff_toNat_lt.mp hlt
      omega)
  · rw [hlookup, if_neg (Ne.symm (StoreTable.checkpointKey_ne_schemaKey table table)), if_pos rfl,
      hto]
  · show s'[checkpointKey table]? = none
    rw [hlookup, if_pos rfl]
  · obtain ⟨base, hbase, hswept⟩ := h.records
    refine ⟨s', fun key hkey => ?_, Swept.start s'⟩
    have hout := hswept.finish hdone hkey
    have hvu := UInt16.le_iff_toNat_le.mp h.from_le
    have hlen : (steps.take u.toNat).length = u.toNat := by
      rw [List.length_take, hpath.length_eq]
      have := UInt16.lt_iff_toNat_lt.mp hlt
      omega
    -- one more step has been applied to every record
    have hsnoc : (steps.take (nextVersion u).toNat).drop v.toNat =
        (steps.take u.toNat).drop v.toNat ++ [step] := by
      rw [hnext, List.take_add_one, hget, List.drop_append_of_le_length (by omega)]
      rfl
    rw [hsnoc, hsame key hkey]
    refine stepsOutcome_snoc (hbase key hkey) ?_
    cases hold : base[key]? with
    | none =>
      rw [hold] at hout
      exact hout
    | some value =>
      rw [hold] at hout
      exact hout step hget
  · intro key hkey hschema hck
    rw [hlookup, if_neg hck, if_neg hschema]
    exact h.frame key hkey hschema hck

/-- A page: its records hold the step's outcome, the cursor is its last key. -/
theorem Migrating.page {step : MigrationStep} {entries rest : List (Bytes × Bytes)}
    {last : Bytes × Bytes} {batch : MutationBatch} {bytes : Bytes} {maxBytes size : Nat}
    (hown : OwnKeySteps table steps) (h : Migrating table target steps start v s u cursor)
    (hget : steps[u.toNat]? = some step)
    (hpage : pending table.holds s cursor = entries ++ rest) (hlast : entries.getLast? = some last)
    (hbatch : collectPage table step maxBytes entries ⟨∅, ∅, size⟩ = .ok batch)
    (hcursor : (MigrationCheckpoint.mk table u (nextVersion u) (some last.1)).encode = .ok bytes)
    (hwrite : s.applyBatch none (batch.sets.insert (checkpointKey table) bytes).toList
      batch.deletes.toList = .ok s') :
    Migrating table target steps start v s' u (some last.1) := by
  -- what is on the page is pending, and so in the table
  have hin : ∀ key value, (key, value) ∈ entries →
      s[key]? = some value ∧ table.holds key = true := fun key value hmem => by
    have hpending : (key, value) ∈ pending table.holds s cursor := by
      rw [hpage]
      exact List.mem_append_left _ hmem
    exact ⟨(mem_pending.mp hpending).1, (mem_pending.mp hpending).2.1⟩
  have hnodup : (entries.map Prod.fst).Nodup := by
    have hsub : (pending table.holds s cursor).map Prod.fst |>.Nodup :=
      (OrdMap.toList_nodup_keys s).sublist (List.filter_sublist.map _)
    rw [hpage, List.map_append] at hsub
    exact (List.nodup_append.mp hsub).1
  obtain ⟨hothers, hrecords⟩ := collectPage_own
    (fun key value m hmem => hown step (List.mem_of_getElem? hget) key value m
      (hin key value hmem).2)
    hnodup (fun k _ => ⟨by simp, by simp⟩) hbatch
  have hfree : ∀ key, key ∉ entries.map Prod.fst → batch.Free key := fun key hkey =>
    (hothers key hkey).free ⟨by simp, by simp⟩
  -- the steps touch their own keys only, so that the header stays
  have houtside : ∀ key, table.holds key = false → batch.Free key := fun key hkey =>
    hfree key fun hmem => by
      obtain ⟨⟨k, w⟩, hkw, rfl⟩ := List.mem_map.mp hmem
      rw [(hin k w hkw).2] at hkey
      cases hkey
  have hlookup := MutationBatch.get_written
    (houtside _ (StoreTable.holds_checkpointKey table table)) hwrite
  have hframe : ∀ key, key ≠ checkpointKey table → batch.Free key → s'[key]? = s[key]? :=
    fun key hck hkey => by
      rw [hlookup, if_neg hck, MutationBatch.overlay_free hkey]
  have hck : ∀ key, table.holds key = true → key ≠ checkpointKey table := fun key hkey heq => by
    rw [heq, StoreTable.holds_checkpointKey] at hkey
    cases hkey
  refine ⟨h.from_le, h.le_target, ?_, ⟨bytes, by rw [hlookup, if_pos rfl], hcursor⟩, ?_, ?_, ?_⟩
  · have hschema := hframe table.schemaKey
      (Ne.symm (StoreTable.checkpointKey_ne_schemaKey table table))
      (houtside _ (StoreTable.holds_schemaKey table table))
    rw [HasVersion, hschema]
    exact h.header
  · intro c hc
    cases hc
    exact (hin last.1 last.2 (List.mem_of_getLast? hlast)).2
  · obtain ⟨base, hbase, hswept⟩ := h.records
    refine ⟨base, hbase, hswept.page hpage hlast ?_ ?_⟩
    · intro key value hmem st hst
      have hst' : st = step := Option.some.inj (hst.symm.trans hget)
      obtain ⟨hold, hkey⟩ := hin key value hmem
      rw [hst', hlookup, if_neg (hck key hkey), hold]
      exact hrecords key value hmem
    · intro key hkey hnot
      refine hframe key (hck key hkey) (hfree key fun hmem => ?_)
      obtain ⟨⟨k, w⟩, hkw, rfl⟩ := List.mem_map.mp hmem
      exact hnot w hkw
  · intro key hkey hschema hne
    rw [hframe key hne (houtside key hkey)]
    exact h.frame key hkey hschema hne

/-- One successful call. -/
theorem Migrating.step {progress : Option MigrationProgress}
    (h : Migrating table target steps start v s u cursor) (hpath : PathOk target steps)
    (hown : OwnKeySteps table steps)
    (hstep : TableStep table target steps options s progress s') :
    (progress = none ∧ s' = s ∧ u = target ∧ cursor = none ∧
        s[table.schemaKey]? = some (SchemaHeader.mk target table).encode) ∨
      progress ≠ none ∧ ∃ u' cursor', Migrating table target steps start v s' u' cursor' := by
  cases hstep with
  | done hfound =>
    rcases tableVersion_of_hasVersion h.header h.le_target hfound with
      ⟨_, rfl, hck, hheader⟩ | hsome
    · refine .inl ⟨rfl, rfl, rfl, ?_, hheader⟩
      cases cursor with
      | none => rfl
      | some c =>
        obtain ⟨bytes, hbytes, _⟩ := h.checkpoint
        rw [hck] at hbytes
        cases hbytes
    · cases hsome
  | finish hresume hscan hwrite =>
    obtain ⟨hget, _, hto, hlt, rfl⟩ := h.resumes hpath hresume
    obtain ⟨rest, hpage, hempty⟩ := scan_eq_ok h.cursor_in hscan
    exact .inr ⟨by simp, _, _, h.finish hpath hget hto hlt (hempty rfl) hwrite⟩
  | page hresume hscan hlast hbatch hcursor hwrite =>
    obtain ⟨hget, _, _, _, rfl⟩ := h.resumes hpath hresume
    obtain ⟨rest, hpage, _⟩ := scan_eq_ok h.cursor_in hscan
    exact .inr ⟨by simp, _, _, h.page hown hget hpage hlast hbatch hcursor hwrite⟩

end Step

/-! ## Runs -/

/-- One call of `migrateTableBatch`: its limits and the storage failures it meets. -/
structure BatchCall where
  options : MigrationOptions
  faults : MigrationAccess → Option StoreError

def runBatches (table : StoreTable) (target : UInt16) (steps : List MigrationStep) :
    List BatchCall → Store → List (Except MigrationError (Option MigrationProgress)) × Store
  | [], s => ([], s)
  | call :: rest, s =>
    let (result, s) := (migrateTableBatch call.faults table target steps call.options).exec s
    let (results, s) := runBatches table target steps rest s
    (result :: results, s)

theorem length_runBatches (table : StoreTable) (target : UInt16) (steps : List MigrationStep)
    (calls : List BatchCall) (s : Store) :
    (runBatches table target steps calls s).1.length = calls.length := by
  induction calls generalizing s with
  | nil => rfl
  | cons call rest ih =>
    simp only [runBatches, List.length_cons]
    rw [ih]

/-- What a completed migration has made of the store `start`. -/
structure TableMigrated (table : StoreTable) (target : UInt16) (steps : List MigrationStep)
    (v : UInt16) (start s : Store) : Prop where
  records : ∀ key, table.holds key = true →
    stepsOutcome table key (steps.drop v.toNat) start[key]? = .ok s[key]?
  header : s[table.schemaKey]? = some (SchemaHeader.mk target table).encode
  checkpoint : s[checkpointKey table]? = none
  frame : ∀ key, table.holds key = false → key ≠ table.schemaKey → key ≠ checkpointKey table →
    s[key]? = start[key]?

section Run

variable {table : StoreTable} {target v u : UInt16} {steps : List MigrationStep}
  {start s s' : Store} {cursor : Option Bytes}

/-- At the target without a cursor every record has been through all the steps. -/
theorem Migrating.migrated (h : Migrating table target steps start v s target none)
    (hpath : PathOk target steps)
    (hheader : s[table.schemaKey]? = some (SchemaHeader.mk target table).encode) :
    TableMigrated table target steps v start s where
  records := by
    intro key hkey
    obtain ⟨base, hbase, hswept⟩ := h.records
    have hall : steps.take target.toNat = steps :=
      List.take_of_length_le (Nat.le_of_eq hpath.length_eq)
    have hout := hbase key hkey
    rw [hall] at hout
    rw [hout, hswept.get_pending hkey rfl]
  header := hheader
  checkpoint := h.checkpoint
  frame := h.frame

/-- Successful calls keep the invariant, and one that returns `None` ends it. -/
theorem Migrating.run {calls : List BatchCall}
    {results : List (Except MigrationError (Option MigrationProgress))}
    (h : Migrating table target steps start v s u cursor) (hpath : PathOk target steps)
    (hown : OwnKeySteps table steps) (hrun : runBatches table target steps calls s = (results, s'))
    (hok : ∀ r ∈ results, ∃ progress, r = .ok progress)
    (hlast : results.getLast? = some (.ok none)) :
    TableMigrated table target steps v start s' := by
  induction calls generalizing s u cursor results with
  | nil =>
    cases hrun
    cases hlast
  | cons call rest ih =>
    rcases hcall : (migrateTableBatch call.faults table target steps call.options).exec s with
      ⟨result, s₁⟩
    rcases hrest : runBatches table target steps rest s₁ with ⟨later, s₂⟩
    simp only [runBatches, hcall, hrest] at hrun
    cases hrun
    obtain ⟨progress, rfl⟩ := hok result List.mem_cons_self
    have hlater : ∀ r ∈ later, ∃ p, r = .ok p := fun r hr => hok r (List.mem_cons_of_mem _ hr)
    have hlen := length_runBatches table target steps rest s₁
    rw [hrest] at hlen
    rcases h.step hpath hown (exec_migrateTableBatch_ok hcall) with
      ⟨_, rfl, rfl, rfl, hheader⟩ | ⟨hsome, u', cursor', h'⟩
    · cases later with
      | nil =>
        rw [List.length_eq_zero_iff.mp hlen.symm] at hrest
        cases hrest
        exact h.migrated hpath hheader
      | cons r later' => exact ih h hrest hlater (by rwa [List.getLast?_cons_cons] at hlast)
    · cases later with
      | nil =>
        simp only [List.getLast?_singleton, Option.some.injEq, Except.ok.injEq] at hlast
        exact absurd hlast hsome
      | cons r later' => exact ih h' hrest hlater (by rwa [List.getLast?_cons_cons] at hlast)

/-- Successful calls with any limits, up to one that returns `None`, apply the
steps from the start version to the target once each to every record, and a
call that fails changes nothing. -/
theorem migrateTable_steps_once {table : StoreTable} {target : UInt16} {steps : List MigrationStep}
    (hpath : validateMigrationPath table target steps = .ok ())
    (hown : OwnKeySteps table steps) :
    (∀ (v : UInt16) (start : Store) (calls : List BatchCall), v ≤ target →
      HasVersion table start v → start[checkpointKey table]? = none →
      (∀ r ∈ (runBatches table target steps calls start).1, ∃ progress, r = .ok progress) →
      (runBatches table target steps calls start).1.getLast? = some (.ok none) →
      TableMigrated table target steps v start (runBatches table target steps calls start).2) ∧
    ∀ (call : BatchCall) (s : Store) (e : MigrationError) (s' : Store),
      (migrateTableBatch call.faults table target steps call.options).exec s = (.error e, s') →
      s' = s := by
  constructor
  · intro v start calls hle hversion hck hok hlast
    exact (Migrating.start hle hversion hck).run (validateMigrationPath_eq_ok hpath) hown rfl hok
      hlast
  · intro call s e s' h
    exact migrateTableBatch_failsClean call.faults s e s' h

/-! Two steps over three pages: one lengthens every record, the next drops the
short ones. -/

def lengthenStep : MigrationStep := ⟨0, 1, fun _ key value => .ok ⟨[(key, value ++ [0])], []⟩⟩

def dropShortStep : MigrationStep :=
  ⟨1, 2, fun _ key value => .ok ⟨[], if value.length < 2 then [key] else []⟩⟩

def seenOpsStore : Store :=
  OrdMap.insertAll ∅ [(tableKey .seenOps "a", []), (tableKey .seenOps "b", [5]),
    (asBytes "user", [9])]

def limitedCall (maxRecords : UInt32) (h : maxRecords ≠ 0) : BatchCall :=
  ⟨⟨maxRecords, 100, h, by decide⟩, fun _ => none⟩

def seenOpsCalls : List BatchCall :=
  List.replicate 3 (limitedCall 1 (by decide)) ++ List.replicate 3 (limitedCall 2 (by decide))

theorem ownKeySteps_lengthen_dropShort :
    OwnKeySteps .seenOps [lengthenStep, dropShortStep] := by
  intro step hstep key value m _ hm
  simp only [List.mem_cons, List.not_mem_nil, or_false] at hstep
  rcases hstep with rfl | rfl
  · cases hm
    exact ⟨by simp, by simp⟩
  · cases hm
    refine ⟨by simp, fun k hk => ?_⟩
    dsimp only at hk
    split at hk
    · simpa using hk
    · cases hk

theorem migrateTable_steps_once_seenOps :
    (runBatches .seenOps 2 [lengthenStep, dropShortStep] seenOpsCalls seenOpsStore).1 =
        [.ok (some (.batchValidated "seen-ops" 1)), .ok (some (.batchValidated "seen-ops" 1)),
          .ok (some (.tableCompleted "seen-ops" 0 1)), .ok (some (.batchValidated "seen-ops" 2)),
          .ok (some (.tableCompleted "seen-ops" 1 2)), .ok none] ∧
      TableMigrated .seenOps 2 [lengthenStep, dropShortStep] 0 seenOpsStore
        (runBatches .seenOps 2 [lengthenStep, dropShortStep] seenOpsCalls seenOpsStore).2 := by
  have hresults : (runBatches .seenOps 2 [lengthenStep, dropShortStep] seenOpsCalls
      seenOpsStore).1 =
        [.ok (some (.batchValidated "seen-ops" 1)), .ok (some (.batchValidated "seen-ops" 1)),
          .ok (some (.tableCompleted "seen-ops" 0 1)), .ok (some (.batchValidated "seen-ops" 2)),
          .ok (some (.tableCompleted "seen-ops" 1 2)), .ok none] := by
    decide +kernel
  refine ⟨hresults, (migrateTable_steps_once (by decide +kernel)
    ownKeySteps_lengthen_dropShort).1 0 seenOpsStore seenOpsCalls (by decide)
    (.inr ⟨rfl, by decide +kernel⟩) (by decide +kernel) ?_ ?_⟩
  · intro r hr
    rw [hresults] at hr
    simp only [List.mem_cons, List.not_mem_nil, or_false] at hr
    rcases hr with rfl | rfl | rfl | rfl | rfl | rfl <;> exact ⟨_, rfl⟩
  · rw [hresults]
    rfl

end Run

end Numax
