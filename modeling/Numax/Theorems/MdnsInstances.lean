import Numax.Base.Transition
import Numax.Discovery.Mdns
import Numax.Theorems.BootstrapSeed
import Numax.Theorems.DynamicState

/-!
# The instances of mDNS

The table keeps to its limits (`MdnsTable.Sound`), and while the loop listens it has no
instance of this node (`MdnsTable.Foreign`). Every change of the table is published, so
the views have nothing of this node either. What the daemon has registered, at the start
or on request, and the names it has given to that are recorded (`OwnedAnnouncements.Has`),
and what has once been this node's own stays so until the generation ends.
-/

open Base Std

namespace Numax

variable {v6 : Ipv6Text} {library : MdnsLibrary v6} {config : MdnsDiscoveryConfig}
  {fullname original : String}

namespace OwnedAnnouncements

variable {owned next : OwnedAnnouncements}

theorem matchesOwned_eq_false {endpoints : List String} :
    owned.matchesOwned library fullname endpoints = false ↔
      library.toLowercase fullname ∉ owned.names ∧
        ∀ endpoint ∈ endpoints, endpoint ∉ owned.endpoints := by
  rw [matchesOwned, Bool.or_eq_false_iff, List.any_eq_false, ← Bool.not_eq_true]
  simp only [ExtTreeSet.contains_iff_mem]

/-- What was ours stays ours. -/
structure Extends (owned next : OwnedAnnouncements) : Prop where
  names : ∀ name ∈ owned.names, name ∈ next.names
  endpoints : ∀ endpoint ∈ owned.endpoints, endpoint ∈ next.endpoints

theorem Extends.refl (owned : OwnedAnnouncements) : owned.Extends owned :=
  ⟨fun _ => id, fun _ => id⟩

theorem Extends.trans {later : OwnedAnnouncements} (h : owned.Extends next)
    (hlater : next.Extends later) : owned.Extends later :=
  ⟨fun name hname => hlater.names name (h.names name hname),
    fun endpoint hendpoint => hlater.endpoints endpoint (h.endpoints endpoint hendpoint)⟩

theorem accept_extends (fullname endpoint : String) :
    owned.Extends (owned.accept library fullname endpoint) :=
  ⟨fun _ hname => ExtTreeSet.mem_insert.mpr (.inr hname),
    fun _ hendpoint => ExtTreeSet.mem_insert.mpr (.inr hendpoint)⟩

variable (library) in
/-- The announcement of the endpoint under this name is recorded. -/
structure Has (owned : OwnedAnnouncements) (fullname endpoint : String) : Prop where
  name : library.toLowercase fullname ∈ owned.names
  endpoint : endpoint ∈ owned.endpoints

theorem has_accept (fullname endpoint : String) :
    (owned.accept library fullname endpoint).Has library fullname endpoint :=
  ⟨ExtTreeSet.mem_insert_self, ExtTreeSet.mem_insert_self⟩

/-- A replacement adds one key to at most one, and the service that is registered is ours. -/
theorem replaceAnnouncement_ok {endpoint : String} {registered : Except DiscoveryError Unit}
    {previous : Option String}
    (h : owned.replaceAnnouncement library config endpoint registered = .ok (next, previous)) :
    owned.Extends next ∧ next.keys.size ≤ 2 ∧ ∃ instanceName fullname,
      Mdns.buildService library { config with instanceName }
        (Mdns.clusterServiceType library config.clusterId) endpoint = .ok fullname ∧
      next.Has library fullname endpoint := by
  unfold replaceAnnouncement at h
  split at h
  · cases h
  · next hroom =>
      simp only [not_or, Nat.not_lt] at hroom
      extract_lets instanceName at h
      split at h
      · cases h
      · next fullname hservice =>
          split at h
          · cases h
          · split at h
            · cases h
            · cases h
              refine ⟨accept_extends _ _, ExtTreeSet.size_insert_le.trans ?_, instanceName,
                fullname, hservice, has_accept _ _⟩
              exact Nat.succ_le_succ hroom.2.2

theorem nameChange_ok {isSrv : Bool} {newName : String}
    (h : owned.nameChange library isSrv original newName = .ok (some next)) :
    owned.Extends next ∧ next.keys = owned.keys := by
  unfold nameChange at h
  split at h
  · cases h
  · extract_lets name at h
    split at h
    · cases h
    · cases h
      exact ⟨⟨fun _ hname => ExtTreeSet.mem_insert.mpr (.inr hname), fun _ => id⟩, rfl⟩

/-- A rename of one of ours gives up, or the new name is ours too. -/
theorem nameChange_own (h : library.toLowercase original ∈ owned.names) (newName : String) :
    (∃ error, owned.nameChange library true original newName = .error error) ∨
      ∃ next, owned.nameChange library true original newName = .ok (some next) ∧
        library.toLowercase newName ∈ next.names := by
  have hown : (!true || !owned.names.contains (library.toLowercase original)) = false := by
    rw [ExtTreeSet.contains_iff_mem.mpr h]
    rfl
  simp only [nameChange, hown, Bool.false_eq_true, if_false]
  split
  · exact .inl ⟨_, rfl⟩
  · exact .inr ⟨_, rfl, ExtTreeSet.mem_insert_self⟩

theorem withdrawn_extends (previous : String) (result : Except DiscoveryError Unit) :
    owned.Extends (owned.withdrawn previous result) ∧
      (owned.withdrawn previous result).keys.size ≤ owned.keys.size := by
  cases result with
  | error error => exact ⟨.refl owned, Nat.le_refl _⟩
  | ok value => exact ⟨⟨fun _ => id, fun _ => id⟩, ExtTreeSet.size_erase_le⟩

end OwnedAnnouncements

variable {peer : String}

namespace MdnsTable

variable {table : MdnsTable} {owned : OwnedAnnouncements}

/-- The stored endpoints, with repetitions. -/
def stored (table : MdnsTable) : Nat :=
  OrdMap.total (fun view => view.endpoints.length) table.instances

structure Sound (config : MdnsDiscoveryConfig) (table : MdnsTable) : Prop where
  nodup : table.order.Nodup
  mem_order : ∀ name, name ∈ table.order ↔ name ∈ table.instances
  bounded : table.instances.size ≤ config.maxInstances
  inhabited : ∀ (name : String) view, table.instances[name]? = some view → view.endpoints ≠ []
  stored_le : table.stored ≤ config.maxCandidates

variable (library) in
/-- No instance has a name or an endpoint of this node. -/
def Foreign (owned : OwnedAnnouncements) (table : MdnsTable) : Prop :=
  ∀ (name : String) view, table.instances[name]? = some view →
    owned.matchesOwned library name view.endpoints = false

theorem sound_empty : Sound config ⟨∅, []⟩ where
  nodup := List.nodup_nil
  mem_order name := by simp
  bounded := by simp
  inhabited name view h := by simp at h
  stored_le := by
    rw [stored, OrdMap.total, OrdMap.valuesAsc, ExtTreeMap.toList_eq_nil_iff.mpr rfl]
    exact Nat.zero_le _

theorem foreign_empty : Foreign library owned ⟨∅, []⟩ := by
  intro name view h
  simp at h

/-! ## Fewer instances -/

/-- Some of the instances, in the order they had. -/
theorem Sound.restrict (h : table.Sound config) {instances : OrdMap String InstanceView}
    (hsubset : ∀ (name : String) view, instances[name]? = some view →
      table.instances[name]? = some view)
    {keep : String → Bool} (hkeep : ∀ name ∈ table.order, keep name = true ↔ name ∈ instances) :
    Sound config ⟨instances, table.order.filter keep⟩ where
  nodup := h.nodup.filter _
  mem_order name := by
    rw [List.mem_filter]
    refine ⟨fun ⟨hname, hkept⟩ => (hkeep name hname).mp hkept, fun hname => ?_⟩
    obtain ⟨view, hview⟩ := Option.isSome_iff_exists.mp
      (ExtTreeMap.mem_iff_isSome_getElem?.mp hname)
    have hbefore : name ∈ table.order := by
      rw [h.mem_order, ExtTreeMap.mem_iff_isSome_getElem?, hsubset name view hview]
      rfl
    exact ⟨hbefore, (hkeep name hbefore).mpr hname⟩
  bounded := by
    refine (OrdMap.size_le_of_subset fun name hname => ?_).trans h.bounded
    obtain ⟨view, hview⟩ := Option.isSome_iff_exists.mp
      (ExtTreeMap.mem_iff_isSome_getElem?.mp hname)
    rw [ExtTreeMap.mem_iff_isSome_getElem?, hsubset name view hview]
    rfl
  inhabited name view hview := h.inhabited name view (hsubset name view hview)
  stored_le := (OrdMap.total_le_of_subset _ hsubset).trans h.stored_le

variable {view : InstanceView}

theorem get_of_get_erase {instances : OrdMap String InstanceView} {name : String}
    (h : (instances.erase fullname)[name]? = some view) :
    instances[name]? = some view := by
  rw [OrdMap.get_erase] at h
  split at h
  · cases h
  · exact h

theorem Sound.removeInstance (h : table.Sound config) (fullname : String) :
    (table.removeInstance fullname).Sound config := by
  unfold MdnsTable.removeInstance
  split
  · refine h.restrict (fun name view => get_of_get_erase) fun name hname => ?_
    have hmem := (h.mem_order name).mp hname
    simp only [ExtTreeMap.mem_erase, bne_iff_ne, ne_eq, LawfulEqOrd.compare_eq_iff_eq]
    exact ⟨fun hne => ⟨Ne.symm hne, hmem⟩, fun hne => Ne.symm hne.1⟩
  · exact h

theorem Foreign.removeInstance (h : table.Foreign library owned) (fullname : String) :
    (table.removeInstance fullname).Foreign library owned := by
  unfold MdnsTable.removeInstance
  split
  · exact fun name view hview => h name view (get_of_get_erase hview)
  · exact h

theorem get_removeOwned {name : String} :
    (table.removeOwned library owned).instances[name]? = some view ↔
      table.instances[name]? = some view ∧
        owned.matchesOwned library name view.endpoints = false := by
  rw [MdnsTable.removeOwned, ExtTreeMap.getElem?_filter', Option.filter_eq_some_iff,
    Bool.not_eq_true']

variable (library owned) in
theorem Sound.removeOwned (h : table.Sound config) :
    (table.removeOwned library owned).Sound config :=
  h.restrict (fun _ _ hview => (get_removeOwned.mp hview).1)
    fun _ _ => ExtTreeMap.contains_iff_mem

variable (library owned table) in
theorem foreign_removeOwned : (table.removeOwned library owned).Foreign library owned :=
  fun _ _ hview => (get_removeOwned.mp hview).2

/-! ## Another instance -/

/-- An instance with endpoints for which there is room. -/
theorem Sound.insert (h : table.Sound config) (hroom : table.instances.contains fullname = true ∨
      table.instances.size < config.maxInstances) (hview : view.endpoints ≠ [])
    (hstored : OrdMap.total (fun view => view.endpoints.length)
      (table.instances.filter fun name _ => name != fullname) + view.endpoints.length ≤
        config.maxCandidates) :
    Sound config
      { instances := table.instances.insert fullname view
        order := if table.instances.contains fullname then table.order
          else table.order ++ [fullname] } where
  nodup := by
    split
    · exact h.nodup
    · next hnew =>
        refine List.nodup_append.mpr ⟨h.nodup, List.nodup_singleton _, ?_⟩
        rintro name hname _ hlast rfl
        rw [List.mem_singleton.mp hlast, h.mem_order] at hname
        exact hnew (ExtTreeMap.contains_iff_mem.mpr hname)
  mem_order name := by
    simp only [ExtTreeMap.mem_insert, LawfulEqOrd.compare_eq_iff_eq]
    split
    · next hknown =>
        rw [h.mem_order]
        refine ⟨.inr, fun hname => hname.elim (fun heq => ?_) id⟩
        exact heq ▸ ExtTreeMap.contains_iff_mem.mp hknown
    · rw [List.mem_append, List.mem_singleton, h.mem_order, or_comm, eq_comm]
  bounded := by
    rw [ExtTreeMap.size_insert]
    split
    · exact h.bounded
    · next hnew =>
        exact hroom.resolve_left fun hknown => hnew (ExtTreeMap.contains_iff_mem.mp hknown)
  inhabited name view' hget := by
    rw [OrdMap.get_insert] at hget
    split at hget
    · cases hget
      exact hview
    · exact h.inhabited name view' hget
  stored_le := by
    rw [stored, OrdMap.total_insert]
    exact hstored

theorem Sound.storeInstance (h : table.Sound config) (fullname : String) (endpoints : List String)
    (now : Nat) : (table.storeInstance config fullname endpoints now).Sound config := by
  unfold MdnsTable.storeInstance
  split
  · exact h
  · next hroom =>
      extract_lets used kept
      split
      · exact h.removeInstance fullname
      · next hkept =>
          -- the endpoints of the others leave room for those that are kept
          have hused : used ≤ config.maxCandidates := by
            refine (OrdMap.total_le_of_subset _ fun name view hview => ?_).trans h.stored_le
            rw [ExtTreeMap.getElem?_filter', Option.filter_eq_some_iff] at hview
            exact hview.1
          have hlength : kept.length ≤ config.maxCandidates - used := List.length_take_le _ _
          refine h.insert ?_ (fun hnil => hkept (List.isEmpty_iff.mpr hnil)) ?_
          · by_contra hfull
            rw [not_or, Bool.not_eq_true, Nat.not_lt] at hfull
            exact hroom (by simp [hfull.1, hfull.2])
          · exact Nat.add_le_of_le_sub' hused hlength

theorem Foreign.storeInstance (h : table.Foreign library owned) {endpoints : List String}
    (hforeign : owned.matchesOwned library fullname endpoints = false) (now : Nat) :
    (table.storeInstance config fullname endpoints now).Foreign library owned := by
  unfold MdnsTable.storeInstance
  split
  · exact h
  · extract_lets used kept
    split
    · exact h.removeInstance fullname
    · intro name view hview
      rw [OrdMap.get_insert] at hview
      split at hview
      · next heq =>
          -- what is cut off does not match either
          cases hview
          subst heq
          rw [OwnedAnnouncements.matchesOwned_eq_false] at hforeign ⊢
          exact ⟨hforeign.1, fun endpoint hmem => hforeign.2 endpoint (List.mem_of_mem_take hmem)⟩
      · exact h name view hview

/-! ## Views -/

variable {maxCandidates : Nat}

theorem mem_flatten (h : peer ∈ table.flatten maxCandidates) :
    ∃ (name : String) (view : InstanceView), table.instances[name]? = some view ∧
      peer ∈ view.endpoints := by
  rw [flatten, firstDistinct_eq] at h
  obtain ⟨view, hview, hpeer⟩ := List.mem_flatMap.mp
    (List.mem_eraseDups.mp (List.mem_of_mem_take h))
  obtain ⟨name, -, hname⟩ := List.mem_filterMap.mp hview
  exact ⟨name, view, hname, hpeer⟩

theorem mem_published (h : peer ∈ (table.published maxCandidates).map Prod.fst) :
    peer ∈ table.flatten maxCandidates := by
  obtain ⟨⟨peer', observedAt⟩, hentry, rfl⟩ := List.mem_map.mp h
  obtain ⟨peer, hpeer, hmap⟩ := List.mem_filterMap.mp hentry
  obtain ⟨latest, -, heq⟩ := Option.map_eq_some_iff.mp hmap
  cases heq
  exact hpeer

variable (library owned table) in
/-- The peer comes from the table, and neither it nor any instance that has it is ours. -/
def Lists (peer : String) : Prop :=
  peer ∉ owned.endpoints ∧
    (∃ (name : String) (view : InstanceView), table.instances[name]? = some view ∧
      peer ∈ view.endpoints) ∧
    ∀ (name : String) (view : InstanceView), table.instances[name]? = some view →
      peer ∈ view.endpoints → library.toLowercase name ∉ owned.names

theorem Lists.of_extends {past : OwnedAnnouncements} (h : table.Lists library owned peer)
    (hpast : past.Extends owned) :
    table.Lists library past peer :=
  ⟨fun hown => h.1 (hpast.endpoints peer hown), h.2.1,
    fun name view hview hpeer hown => h.2.2 name view hview hpeer (hpast.names _ hown)⟩

theorem Foreign.lists (h : table.Foreign library owned)
    (hpeer : peer ∈ (table.published maxCandidates).map Prod.fst) :
    table.Lists library owned peer := by
  obtain ⟨name, view, hview, hmem⟩ := mem_flatten (mem_published hpeer)
  have hown := OwnedAnnouncements.matchesOwned_eq_false.mp (h name view hview)
  exact ⟨hown.2 peer hmem, ⟨name, view, hview, hmem⟩, fun name' view' hview' _ =>
    (OwnedAnnouncements.matchesOwned_eq_false.mp (h name' view' hview')).1⟩

end MdnsTable

/-! ## The loop -/

namespace MdnsLoop

variable {loop next : MdnsLoop} {event : MdnsEvent v6}

variable (library config) in
structure Sound (loop : MdnsLoop) : Prop where
  table : loop.table.Sound config
  keys : loop.owned.keys.size ≤ 2
  single : loop.phase = .listening → loop.owned.keys.size ≤ 1
  foreign : loop.phase = .listening → loop.table.Foreign library loop.owned

variable (library config) in
/-- What a step leaves: the own names and endpoints only grow, and a table that may have
changed is published, without anything of ours. -/
structure Follows (loop next : MdnsLoop) : Prop where
  sound : next.Sound library config
  grows : loop.owned.Extends next.owned
  view : next.world = loop.world ∧ next.table = loop.table ∨
    next.world = loop.world.observeAt (next.table.published config.maxCandidates) ∧
      next.table.Foreign library next.owned

/-- Only the phase changes, and the loop ends or has asked for an announcement. -/
theorem Sound.leave (h : loop.Sound library config) {owned : OwnedAnnouncements}
    (hgrows : loop.owned.Extends owned) (hkeys : owned.keys.size ≤ 2) {phase : MdnsPhase}
    (hphase : phase ≠ .listening) :
    Follows library config loop { loop with owned, phase } where
  sound := ⟨h.table, hkeys, fun heq => absurd heq hphase, fun heq => absurd heq hphase⟩
  grows := hgrows
  view := .inl ⟨rfl, rfl⟩

/-- After a request the table has nothing of ours, and one key is left if the loop goes on. -/
theorem announced_eq (loop : MdnsLoop) :
    ∃ ownEndpoint phase, loop.announced library config =
        { loop with
          table := loop.table.removeOwned library loop.owned
          world := loop.world.observeAt
            ((loop.table.removeOwned library loop.owned).published config.maxCandidates)
          ownEndpoint, phase } ∧
      (phase = .listening → loop.owned.keys.size ≤ 1) := by
  unfold MdnsLoop.announced dropOwned publishInstances
  extract_lets ownEndpoint cleared
  split
  · exact ⟨ownEndpoint, _, rfl, nofun⟩
  · split
    · exact ⟨ownEndpoint, _, rfl, nofun⟩
    · next hkeys => exact ⟨ownEndpoint, _, rfl, fun _ => Nat.le_of_not_lt hkeys⟩

theorem follows_announced (h : loop.Sound library config) {owned : OwnedAnnouncements}
    (hgrows : loop.owned.Extends owned) (hkeys : owned.keys.size ≤ 2) :
    Follows library config loop (announced library config { loop with owned }) := by
  obtain ⟨ownEndpoint, phase, heq, hsingle⟩ :=
    @announced_eq v6 library config { loop with owned }
  have hforeign := MdnsTable.foreign_removeOwned library loop.table owned
  rw [heq]
  exact ⟨⟨h.table.removeOwned library owned, hkeys, hsingle, fun _ => hforeign⟩, hgrows,
    .inr ⟨rfl, hforeign⟩⟩

theorem Sound.dropInstance (h : loop.Sound library config) (hlistening : loop.phase = .listening)
    (fullname : String) : Follows library config loop (loop.dropInstance config fullname) := by
  have hforeign := (h.foreign hlistening).removeInstance fullname
  unfold MdnsLoop.dropInstance publishInstances
  split
  · exact ⟨⟨h.table.removeInstance fullname, h.keys, h.single, fun _ => hforeign⟩, .refl _,
      .inr ⟨rfl, hforeign⟩⟩
  · exact ⟨h, .refl _, .inl ⟨rfl, rfl⟩⟩

theorem Sound.resolved (h : loop.Sound library config) (hlistening : loop.phase = .listening)
    (fullname : String) (endpoints : List String) (cluster : Option String) (now : Nat) :
    Follows library config loop
      (loop.resolved library config fullname endpoints cluster now) := by
  unfold MdnsLoop.resolved
  split
  · exact h.dropInstance hlistening fullname
  · next hother =>
      rw [Bool.or_eq_true, not_or, Bool.not_eq_true] at hother
      have hforeign : (loop.table.storeInstance config fullname endpoints now).Foreign library
          loop.owned := (h.foreign hlistening).storeInstance hother.1 now
      exact ⟨⟨h.table.storeInstance fullname endpoints now, h.keys, h.single, fun _ => hforeign⟩,
        .refl _, .inr ⟨rfl, hforeign⟩⟩

theorem Sound.nameChange (h : loop.Sound library config) (hlistening : loop.phase = .listening)
    {owned : OwnedAnnouncements} (hgrows : loop.owned.Extends owned)
    (hkeys : owned.keys = loop.owned.keys) :
    Follows library config loop (dropOwned library config { loop with owned }) := by
  have hforeign := MdnsTable.foreign_removeOwned library loop.table owned
  refine ⟨⟨h.table.removeOwned library owned, ?_, fun _ => ?_, fun _ => hforeign⟩, hgrows,
    .inr ⟨rfl, hforeign⟩⟩
  · exact hkeys ▸ h.keys
  · exact hkeys ▸ h.single hlistening

theorem Sound.handle (h : loop.Sound library config) (hlistening : loop.phase = .listening)
    (hstep : loop.handle library config event = some next) : Follows library config loop next := by
  cases event with
  | announce endpoint registered =>
    simp only [MdnsLoop.handle] at hstep
    split at hstep
    · cases hstep
      exact h.leave (.refl _) h.keys nofun
    · split at hstep
      · cases hstep
        exact follows_announced h (.refl _) h.keys
      · next hreplaced =>
          cases hstep
          obtain ⟨hgrows, hkeys, -⟩ := OwnedAnnouncements.replaceAnnouncement_ok hreplaced
          exact follows_announced h hgrows hkeys
      · next hreplaced =>
          cases hstep
          obtain ⟨hgrows, hkeys, -⟩ := OwnedAnnouncements.replaceAnnouncement_ok hreplaced
          exact h.leave hgrows hkeys nofun
  | resolved fullname addresses port cluster now =>
    cases hstep
    exact h.resolved hlistening fullname _ cluster now
  | removed fullname =>
    cases hstep
    exact h.dropInstance hlistening fullname
  | nameChange isSrv original newName =>
    simp only [MdnsLoop.handle] at hstep
    split at hstep
    · cases hstep
      exact h.leave (.refl _) h.keys nofun
    · cases hstep
      exact ⟨h, .refl _, .inl ⟨rfl, rfl⟩⟩
    · next hchange =>
        cases hstep
        obtain ⟨hgrows, hkeys⟩ := OwnedAnnouncements.nameChange_ok hchange
        exact h.nameChange hlistening hgrows hkeys
  | searchStopped =>
    cases hstep
    exact h.leave (.refl _) h.keys nofun
  | failed =>
    cases hstep
    exact h.leave (.refl _) h.keys nofun
  | noticeShutdown =>
    obtain ⟨-, heq⟩ := Option.ite_none_right_eq_some.mp hstep
    cases heq
    exact h.leave (.refl _) h.keys nofun
  | withdrawn result => cases hstep
  | requestShutdown => cases hstep

theorem Sound.step (h : loop.Sound library config)
    (hstep : loop.step library config event = some next) : Follows library config loop next := by
  cases event with
  | requestShutdown =>
    cases hstep
    exact ⟨⟨h.table, h.keys, h.single, h.foreign⟩, .refl _, .inl ⟨rfl, rfl⟩⟩
  | withdrawn result =>
    simp only [MdnsLoop.step] at hstep
    split at hstep
    · next hphase => exact h.handle hphase hstep
    · next previous hphase =>
        cases hstep
        obtain ⟨hgrows, hkeys⟩ := loop.owned.withdrawn_extends previous result
        exact follows_announced h hgrows (hkeys.trans h.keys)
    · cases hstep
  | _ =>
    -- all other events are handled only by a loop that listens
    simp only [MdnsLoop.step] at hstep
    split at hstep
    · next hphase => exact h.handle hphase hstep
    · cases hstep
    · cases hstep

theorem sound_start {world : DiscoveryWorld} {ownEndpoint : Option String}
    {registered : Except String Unit}
    (h : start library config world ownEndpoint registered = .ok loop) :
    loop.Sound library config ∧ loop.world = world ∧ loop.table = ⟨∅, []⟩ ∧
      ∀ endpoint, ownEndpoint = some endpoint → ∃ fullname,
        Mdns.buildService library config (Mdns.clusterServiceType library config.clusterId)
          endpoint = .ok fullname ∧ loop.owned.Has library fullname endpoint := by
  have hsound : ∀ owned : OwnedAnnouncements, owned.keys.size ≤ 1 →
      Sound library config ⟨⟨∅, []⟩, owned, ownEndpoint, world, false, .listening⟩ :=
    fun owned hkeys => ⟨MdnsTable.sound_empty, Nat.le_succ_of_le hkeys, fun _ => hkeys,
      fun _ => MdnsTable.foreign_empty⟩
  cases ownEndpoint with
  | none =>
    cases h
    exact ⟨hsound _ (Nat.zero_le _), rfl, rfl, nofun⟩
  | some endpoint =>
    cases hservice : Mdns.buildService library config
        (Mdns.clusterServiceType library config.clusterId) endpoint with
    | error error =>
      simp only [start, hservice] at h
      cases h
    | ok fullname =>
      cases registered with
      | error error =>
        simp only [start, hservice] at h
        cases h
      | ok value =>
        simp only [start, hservice] at h
        cases h
        refine ⟨hsound _ ExtTreeSet.size_insert_le, rfl, rfl, fun restored heq => ?_⟩
        cases heq
        exact ⟨fullname, hservice, OwnedAnnouncements.has_accept fullname endpoint⟩

theorem announced_owned (loop : MdnsLoop) : (loop.announced library config).owned = loop.owned := by
  obtain ⟨ownEndpoint, phase, heq, -⟩ := @announced_eq v6 library config loop
  rw [heq]

/-- An announcement that is accepted is ours from then on, also while the previous one is
withdrawn. -/
theorem step_announce {endpoint : String} {registered : Except DiscoveryError Unit}
    {owned : OwnedAnnouncements} {previous : Option String}
    (hstep : loop.step library config (.announce endpoint registered) = some next)
    (hrequested : loop.shutdownRequested = false)
    (haccepted : loop.owned.replaceAnnouncement library config endpoint registered =
      .ok (owned, previous)) :
    ∃ instanceName fullname, Mdns.buildService library { config with instanceName }
        (Mdns.clusterServiceType library config.clusterId) endpoint = .ok fullname ∧
      next.owned.Has library fullname endpoint := by
  obtain ⟨-, -, instanceName, fullname, hservice, hhas⟩ :=
    OwnedAnnouncements.replaceAnnouncement_ok haccepted
  refine ⟨instanceName, fullname, hservice, ?_⟩
  simp only [MdnsLoop.step] at hstep
  split at hstep
  · simp only [handle, hrequested, Bool.false_eq_true, if_false, haccepted] at hstep
    cases previous with
    | none =>
      cases hstep
      rw [announced_owned]
      exact hhas
    | some previous =>
      cases hstep
      exact hhas
  · cases hstep
  · cases hstep

/-- A new name of one of ours is ours, unless the loop ends with it. -/
theorem step_rename {newName : String}
    (hstep : loop.step library config (.nameChange true original newName) = some next)
    (hown : library.toLowercase original ∈ loop.owned.names) (hgoesOn : next.phase ≠ .ended false) :
    library.toLowercase newName ∈ next.owned.names := by
  simp only [MdnsLoop.step] at hstep
  split at hstep
  · rcases OwnedAnnouncements.nameChange_own hown newName with
      ⟨error, hchange⟩ | ⟨owned, hchange, hname⟩
    · simp only [handle, hchange] at hstep
      cases hstep
      exact absurd rfl hgoesOn
    · simp only [handle, hchange] at hstep
      cases hstep
      exact hname
  · cases hstep
  · cases hstep

/-- The view is that of the table, as long as there are revisions. -/
def Shown (config : MdnsDiscoveryConfig) (loop : MdnsLoop) : Prop :=
  loop.world.state.revision < u64Max →
    loop.world.state.peers = (loop.table.published config.maxCandidates).map Prod.fst

theorem Follows.shown (h : Follows library config loop next) (hshown : loop.Shown config) :
    next.Shown config := by
  intro hroom
  rcases h.view with ⟨hworld, htable⟩ | ⟨hworld, -⟩
  · rw [hworld] at hroom ⊢
    rw [htable]
    exact hshown hroom
  · rw [hworld] at hroom ⊢
    exact @DiscoveryWorld.peers_change loop.world (.observeAt _) hroom

/-- A new revision has nothing of ours. -/
theorem Follows.published (h : Follows library config loop next)
    (hnew : next.world.state.revision ≠ loop.world.state.revision)
    (hpeer : peer ∈ next.world.state.peers) : next.table.Lists library next.owned peer := by
  rcases h.view with ⟨hworld, -⟩ | ⟨hworld, hforeign⟩
  · exact absurd (by rw [hworld]) hnew
  · rw [hworld] at hnew hpeer
    have hpeers := @DiscoveryWorld.peers_change_of_published loop.world (.observeAt _) hnew
    exact hforeign.lists (hpeers ▸ hpeer)

theorem Sound.run (h : loop.Sound library config) {events : List (MdnsEvent v6)}
    (hrun : runSteps (MdnsLoop.step library config) loop events = some next) :
    next.Sound library config ∧ loop.owned.Extends next.owned ∧
      (loop.Shown config → next.Shown config) := by
  refine runSteps_keeps (P := fun later : MdnsLoop => later.Sound library config ∧
    loop.owned.Extends later.owned ∧ (loop.Shown config → later.Shown config)) (fun _ => True)
    ?_ (fun _ _ => trivial) ⟨h, .refl _, id⟩ hrun
  rintro later event next - ⟨hsound, hgrows, hshown⟩ hstep
  have hfollows := hsound.step hstep
  exact ⟨hfollows.sound, hgrows.trans hfollows.grows, fun hfirst => hfollows.shown (hshown hfirst)⟩

end MdnsLoop

/-- In every generation of the provider, at any time:

* the order lists exactly the instances, each once;
* the instances, and their endpoints all together, keep to the limits, and every instance
  has an endpoint;
* at most two keys are registered;
* what the node has announced is its own, with its endpoint and the name it is registered
  under: the announcement the start restores, every announcement that is accepted, and
  every name the daemon gives to one of them, unless the loop ends with that;
* a view that is published lists only peers of instances in the table, and neither they
  nor the instances that have them have been this node's in this generation;
* until the revisions are used up the same holds of the current view, whenever the loop
  listens. -/
theorem mdnsInstances_sound (library : MdnsLibrary v6) (config : MdnsDiscoveryConfig)
    {world : DiscoveryWorld} {ownEndpoint : Option String} {registered : Except String Unit}
    {first loop : MdnsLoop}
    (hstart : MdnsLoop.start library config world ownEndpoint registered = .ok first)
    {events : List (MdnsEvent v6)}
    (hrun : runSteps (MdnsLoop.step library config) first events = some loop) :
    loop.table.order.Nodup ∧
    (∀ name, name ∈ loop.table.order ↔ name ∈ loop.table.instances) ∧
    loop.table.instances.size ≤ config.maxInstances ∧
    (∀ (name : String) view, loop.table.instances[name]? = some view → view.endpoints ≠ []) ∧
    OrdMap.total (fun view => view.endpoints.length) loop.table.instances ≤
      config.maxCandidates ∧
    loop.owned.keys.size ≤ 2 ∧
    (∀ endpoint, ownEndpoint = some endpoint → ∃ fullname,
      Mdns.buildService library config (Mdns.clusterServiceType library config.clusterId)
        endpoint = .ok fullname ∧ first.owned.Has library fullname endpoint) ∧
    (∀ endpoint outcome owned previous next,
      loop.step library config (.announce endpoint outcome) = some next →
      loop.shutdownRequested = false →
      loop.owned.replaceAnnouncement library config endpoint outcome = .ok (owned, previous) →
      ∃ instanceName fullname, Mdns.buildService library { config with instanceName }
          (Mdns.clusterServiceType library config.clusterId) endpoint = .ok fullname ∧
        next.owned.Has library fullname endpoint) ∧
    (∀ original newName next,
      loop.step library config (.nameChange true original newName) = some next →
      library.toLowercase original ∈ loop.owned.names → next.phase ≠ .ended false →
      library.toLowercase newName ∈ next.owned.names) ∧
    (∀ event next, loop.step library config event = some next →
      next.world.state.revision ≠ loop.world.state.revision →
      ∀ peer ∈ next.world.state.peers, ∀ past : MdnsLoop, (past = next ∨
        ∃ earlier later, events = earlier ++ later ∧
          runSteps (MdnsLoop.step library config) first earlier = some past) →
        next.table.Lists library past.owned peer) ∧
    (world.state.peers = [] → loop.world.state.revision < u64Max → loop.phase = .listening →
      ∀ peer ∈ loop.world.state.peers, ∀ earlier later past, events = earlier ++ later →
        runSteps (MdnsLoop.step library config) first earlier = some past →
        loop.table.Lists library past.owned peer) := by
  obtain ⟨hfirst, hworld, htable, hrestored⟩ := MdnsLoop.sound_start hstart
  have hsound := (hfirst.run hrun).1
  -- what was ours at an earlier time is still ours
  have hpast : ∀ earlier later past, events = earlier ++ later →
      runSteps (MdnsLoop.step library config) first earlier = some past →
      past.owned.Extends loop.owned := by
    rintro earlier later past rfl hearlier
    obtain ⟨middle, hmiddle, hlater⟩ := runSteps_append.mp hrun
    cases hearlier.symm.trans hmiddle
    exact ((hfirst.run hearlier).1.run hlater).2.1
  refine ⟨hsound.table.nodup, hsound.table.mem_order, hsound.table.bounded,
    hsound.table.inhabited, hsound.table.stored_le, hsound.keys, hrestored,
    fun endpoint outcome owned previous next => MdnsLoop.step_announce,
    fun original newName next => MdnsLoop.step_rename, ?_, ?_⟩
  · intro event next hstep hnew peer hpeer past hpast'
    have hfollows := hsound.step hstep
    refine (hfollows.published hnew hpeer).of_extends ?_
    rcases hpast' with rfl | ⟨earlier, later, hevents, hearlier⟩
    · exact .refl _
    · exact (hpast earlier later past hevents hearlier).trans hfollows.grows
  · intro hempty hroom hlistening peer hpeer earlier later past hevents hearlier
    -- the current view is that of the table, which has nothing of ours
    have hshown : loop.Shown config := by
      refine (hfirst.run hrun).2.2 fun _ => ?_
      rw [hworld, htable, hempty]
      rfl
    rw [hshown hroom] at hpeer
    exact ((hsound.foreign hlistening).lists hpeer).of_extends
      (hpast earlier later past hevents hearlier)

/-! A peer is resolved; then this node announces the same endpoint, and the peer moves on. -/

def plainLibrary : MdnsLibrary loopbackV6 where
  toLowercase := id
  hash _ := "0"
  newService _ instanceName _ _ _ _ := .ok instanceName

def pairConfig : MdnsDiscoveryConfig := ⟨"a", "c", 2, 2, 1⟩

def freshLoop : MdnsLoop := ⟨⟨∅, []⟩, .default, none, .new 1, false, .listening⟩

def movedPeer : List (MdnsEvent loopbackV6) :=
  [.resolved "b" [.v6 ()] 8 (some "c") 5, .announce "[::1]:8" (.ok ()),
    .resolved "b" [.v6 ()] 9 (some "c") 6]

theorem pairConfig_valid : Mdns.validateConfig pairConfig = .ok () := by decide +kernel

/-- The announcement is accepted, and the last view has the peer at its new endpoint. -/
theorem movedPeer_view :
    (runSteps (MdnsLoop.step plainLibrary pairConfig) freshLoop (movedPeer.take 1)).any
      (fun loop => loop.shutdownRequested = false ∧
        (loop.step plainLibrary pairConfig (.announce "[::1]:8" (.ok ()))).isSome ∧
        (loop.owned.replaceAnnouncement plainLibrary pairConfig "[::1]:8" (.ok ())).isOk) = true ∧
    (runSteps (MdnsLoop.step plainLibrary pairConfig) freshLoop movedPeer).any (fun loop =>
      decide (loop.world.state.peers = ["[::1]:9"] ∧ loop.world.state.revision = 3 ∧
        loop.phase = .listening)) = true := by
  decide +kernel

theorem mdnsInstances_sound_movedPeer :
    Mdns.validateConfig pairConfig = .ok () ∧
    (∃ loop next, runSteps (MdnsLoop.step plainLibrary pairConfig) freshLoop (movedPeer.take 1) =
        some loop ∧
      loop.step plainLibrary pairConfig (.announce "[::1]:8" (.ok ())) = some next ∧
      "[::1]:8" ∈ next.owned.endpoints) ∧
    ∃ loop, runSteps (MdnsLoop.step plainLibrary pairConfig) freshLoop movedPeer = some loop ∧
      loop.table.Lists plainLibrary loop.owned "[::1]:9" := by
  have hstart : MdnsLoop.start plainLibrary pairConfig (.new 1) none (.ok ()) = .ok freshLoop := rfl
  refine ⟨pairConfig_valid, ?_, ?_⟩
  · obtain ⟨loop, hrun, hview⟩ := (Option.any_eq_true _ _).mp movedPeer_view.1
    obtain ⟨hrequested, hstep, haccepted⟩ := of_decide_eq_true hview
    obtain ⟨next, hstep⟩ := Option.isSome_iff_exists.mp hstep
    cases hreplaced : loop.owned.replaceAnnouncement plainLibrary pairConfig "[::1]:8" (.ok ()) with
    | error error =>
      rw [hreplaced] at haccepted
      cases haccepted
    | ok result =>
      obtain ⟨-, -, -, -, -, -, -, hannounced, -⟩ :=
        mdnsInstances_sound plainLibrary pairConfig hstart hrun
      obtain ⟨instanceName, fullname, -, hhas⟩ :=
        hannounced _ _ _ _ next hstep hrequested hreplaced
      exact ⟨loop, next, hrun, hstep, hhas.endpoint⟩
  · obtain ⟨loop, hrun, hview⟩ := (Option.any_eq_true _ _).mp movedPeer_view.2
    obtain ⟨hpeers, hrevision, hlistening⟩ := of_decide_eq_true hview
    refine ⟨loop, hrun, ?_⟩
    have hroom : loop.world.state.revision < u64Max := by
      rw [hrevision]
      decide
    obtain ⟨-, -, -, -, -, -, -, -, -, -, hcurrent⟩ :=
      mdnsInstances_sound plainLibrary pairConfig hstart hrun
    exact hcurrent rfl hroom hlistening "[::1]:9" (by rw [hpeers]; exact List.mem_cons_self)
      movedPeer [] loop (List.append_nil _).symm hrun

end Numax
