import Numax.Discovery.Watch

/-!
# Watches do not lose changes

A view of the provider belongs to its revision: two views of one run with the same
revision are the same view. Every channel carries the views of consecutive revisions,
from the revision at which it was opened on. A watch that has not been invalidated
stands in its channel right behind the last revision it has returned.

These facts are kept by every step (`Faithful.step`), against the set of views the
provider has had so far. They hold at any channel capacity, and an update that finds
the revisions used up changes nothing.
-/

open Base

namespace Numax

namespace DynamicState

/-- All of the view, with the revision it belongs to. -/
theorem snapshot_eq (s : DynamicState) :
    s.snapshot = ⟨s.revision, s.peers, some s.observations⟩ := by
  have hlength := s.aligned
  rw [snapshot, DiscoverySnapshot.observed, List.map_fst_zip hlength.ge,
    List.map_snd_zip hlength.le]

end DynamicState

/-- The event that tells a view. -/
def DiscoverySnapshot.event (view : DiscoverySnapshot) : DiscoveryEvent :=
  ⟨view.revision, .observed view⟩

namespace Subscriber

/-- The events that `recv` has returned. -/
def accepted (subscriber : Subscriber) : List DiscoveryEvent :=
  subscriber.returned.filterMap Except.toOption

/-- The view the consumer has: that of the last event, and that of the watch before. -/
def held (subscriber : Subscriber) : DiscoverySnapshot :=
  match subscriber.accepted.getLast? with
  | some ⟨_, .observed view⟩ => view
  | _ => subscriber.watch.snapshot

/-- The errors after which the consumer has to subscribe again. -/
def Fatal (result : Except DiscoveryError DiscoveryEvent) : Prop :=
  (∃ missed, result = .error (.watchOverflow missed)) ∨
    ∃ previous received, result = .error (.watchRevision previous received)

end Subscriber

/-! ## One call of `recv` -/

section Recv

variable {watch : DiscoveryWatch} {channel : Channel DiscoveryEvent} {closed : Bool}

/-- Apart from waiting, a call can pass on an event, refuse, or invalidate the watch. -/
inductive RecvOutcome (watch : DiscoveryWatch) (channel : Channel DiscoveryEvent) :
    DiscoveryWatch × Option (Except DiscoveryError DiscoveryEvent) → Prop where
  | waits : RecvOutcome watch channel (watch, none)
  | refuses (error : DiscoveryError) (harmless : ¬Subscriber.Fatal (.error error)) :
      RecvOutcome watch channel (watch, some (.error error))
  | invalidates (next : Nat) (error : DiscoveryError) :
      RecvOutcome watch channel
        ({ watch with next, invalidated := true }, some (.error error))
  | passes (event : DiscoveryEvent) (valid : watch.invalidated = false)
      (received : channel.recv watch.next = (watch.next + 1, .item event))
      (consecutive : event.revision = watch.lastRevision + 1) :
      RecvOutcome watch channel
        ({ watch with next := watch.next + 1, lastRevision := event.revision }, some (.ok event))

theorem Subscriber.not_fatal_invalidated : ¬Fatal (.error .watchInvalidated) := by
  rintro (⟨_, h⟩ | ⟨_, _, h⟩) <;> cases h

theorem Subscriber.not_fatal_closed : ¬Fatal (.error .watchClosed) := by
  rintro (⟨_, h⟩ | ⟨_, _, h⟩) <;> cases h

theorem DiscoveryWatch.recv_outcome : RecvOutcome watch channel (watch.recv channel closed) := by
  unfold DiscoveryWatch.recv
  split
  next => exact .refuses _ Subscriber.not_fatal_invalidated
  next hvalid =>
    split
    next next event hrecv =>
      obtain ⟨rfl, -⟩ := Channel.recv_item hrecv
      unfold DiscoveryWatch.accept
      split
      · exact .invalidates _ _
      · dsimp only
        split
        · exact .invalidates _ _
        next hrevision =>
          have hnext := (not_or.mp hrevision).2
          exact .passes event (Bool.eq_false_iff.mpr hvalid) hrecv (not_not.mp hnext).symm
    next => exact .invalidates _ _
    next =>
      cases closed
      · exact .waits
      · exact .refuses _ Subscriber.not_fatal_closed

theorem RecvOutcome.events_eq
    {outcome : DiscoveryWatch × Option (Except DiscoveryError DiscoveryEvent)}
    (h : RecvOutcome watch channel outcome) : outcome.1.events = watch.events := by
  cases h <;> rfl

end Recv

/-! ## What holds of one watch -/

/-- The views that a channel has carried, from the revision `base` on. -/
structure Carries (seen : DiscoverySnapshot → Prop) (channel : Channel DiscoveryEvent)
    (base : Nat) (sent : List DiscoverySnapshot) : Prop where
  holds : channel.Holds (sent.map DiscoverySnapshot.event)
  numbered : ∀ (j : Nat) (view : DiscoverySnapshot), sent[j]? = some view →
    seen view ∧ view.revision = base + j + 1

/-- A watch and its consumer, with respect to the channel that feeds it. -/
structure Subscriber.Faithful (seen : DiscoverySnapshot → Prop) (base : Nat)
    (sent : List DiscoverySnapshot) (subscriber : Subscriber) : Prop where
  count : subscriber.watch.lastRevision =
    subscriber.watch.snapshot.revision + subscriber.accepted.length
  held_seen : seen subscriber.held
  held_revision : subscriber.held.revision = subscriber.watch.lastRevision
  last : ∀ event, subscriber.accepted.getLast? = some event → event = subscriber.held.event
  position : subscriber.watch.invalidated = false →
    base + subscriber.watch.next = subscriber.watch.lastRevision ∧
      subscriber.watch.next ≤ sent.length
  reported : subscriber.watch.invalidated = true → ∃ error, .error error ∈ subscriber.returned
  fatal : ∀ result ∈ subscriber.returned, Fatal result → subscriber.watch.invalidated = true
  silent : subscriber.returned.Pairwise fun earlier later =>
    Fatal earlier → ∀ event, later ≠ .ok event

namespace Subscriber

variable {seen : DiscoverySnapshot → Prop} {base : Nat} {sent : List DiscoverySnapshot}
  {subscriber : Subscriber}

theorem Faithful.fresh {view : DiscoverySnapshot} (hseen : seen view) (events : Nat)
    (hbase : base + sent.length = view.revision) :
    Faithful seen base sent ⟨.new view events sent.length, []⟩ where
  count := rfl
  held_seen := hseen
  held_revision := rfl
  last _ h := nomatch h
  position _ := ⟨hbase, Nat.le_refl _⟩
  reported h := nomatch h
  fatal _ h := nomatch h
  silent := .nil

/-- More views on the channel, and more views of the provider, do no harm. -/
theorem Faithful.mono {seen' : DiscoverySnapshot → Prop} {sent' : List DiscoverySnapshot}
    (h : Faithful seen base sent subscriber) (hseen : ∀ view, seen view → seen' view)
    (hsent : sent.length ≤ sent'.length) : Faithful seen' base sent' subscriber :=
  { h with
    held_seen := hseen _ h.held_seen
    position := fun hvalid => ⟨(h.position hvalid).1, Nat.le_trans (h.position hvalid).2 hsent⟩ }

/-- An error is no event. -/
theorem accepted_error (subscriber : Subscriber) (watch : DiscoveryWatch) (error : DiscoveryError) :
    (⟨watch, subscriber.returned ++ [.error error]⟩ : Subscriber).accepted =
      subscriber.accepted := by
  simp [accepted, Except.toOption]

theorem accepted_ok (subscriber : Subscriber) (watch : DiscoveryWatch) (event : DiscoveryEvent) :
    (⟨watch, subscriber.returned ++ [.ok event]⟩ : Subscriber).accepted =
      subscriber.accepted ++ [event] := by
  simp [accepted, Except.toOption]

/-- An error, from a watch that is the same as before or has been invalidated. -/
theorem Faithful.erred (h : Faithful seen base sent subscriber) {watch : DiscoveryWatch}
    {error : DiscoveryError} (hsnapshot : watch.snapshot = subscriber.watch.snapshot)
    (hlast : watch.lastRevision = subscriber.watch.lastRevision)
    (hwatch : watch.invalidated = true ∨ watch = subscriber.watch ∧ ¬Fatal (.error error)) :
    Faithful seen base sent ⟨watch, subscriber.returned ++ [.error error]⟩ := by
  have haccepted := accepted_error subscriber watch error
  have hheld : (⟨watch, subscriber.returned ++ [.error error]⟩ : Subscriber).held =
      subscriber.held := by
    simp only [held, haccepted, hsnapshot]
  refine ⟨?_, ?_, ?_, ?_, ?_, ?_, ?_, ?_⟩
  · rw [haccepted, hlast, hsnapshot]; exact h.count
  · rw [hheld]; exact h.held_seen
  · rw [hheld, hlast]; exact h.held_revision
  · rw [haccepted, hheld]; exact h.last
  · intro hvalid
    rcases hwatch with hinvalid | ⟨rfl, -⟩
    · exact absurd (hvalid.symm.trans hinvalid) nofun
    · exact h.position hvalid
  · exact fun _ => ⟨error, List.mem_append_right _ (List.mem_singleton_self _)⟩
  · intro result hmem hfatal
    rcases hwatch with hinvalid | ⟨rfl, hharmless⟩
    · exact hinvalid
    rcases List.mem_append.mp hmem with hmem | hmem
    · exact h.fatal result hmem hfatal
    · rw [List.mem_singleton.mp hmem] at hfatal
      exact absurd hfatal hharmless
  · refine List.pairwise_append.mpr ⟨h.silent, List.pairwise_singleton _ _, ?_⟩
    intro earlier _ later hlater _ event
    rw [List.mem_singleton.mp hlater]
    exact nofun

/-- The event that is passed on tells the view behind the last one. -/
theorem Faithful.passed {channel : Channel DiscoveryEvent} (h : Faithful seen base sent subscriber)
    (hcarries : Carries seen channel base sent) {event : DiscoveryEvent}
    (hvalid : subscriber.watch.invalidated = false)
    (hrecv : channel.recv subscriber.watch.next = (subscriber.watch.next + 1, .item event))
    {watch : DiscoveryWatch} (hwatch : watch = { subscriber.watch with
      next := subscriber.watch.next + 1, lastRevision := event.revision }) :
    Faithful seen base sent ⟨watch, subscriber.returned ++ [.ok event]⟩ := by
  obtain ⟨hposition, -⟩ := h.position hvalid
  -- the event is the one at the position of the watch among all that were sent
  obtain ⟨view, hview, rfl⟩ : ∃ view, sent[subscriber.watch.next]? = some view ∧
      view.event = event := by
    rw [hcarries.holds.recv_of_le (Channel.recv_item hrecv).2, List.getElem?_map] at hrecv
    cases hsent : sent[subscriber.watch.next]? with
    | none =>
      rw [hsent] at hrecv
      exact absurd (Prod.mk.inj hrecv).2 nofun
    | some view =>
      rw [hsent] at hrecv
      exact ⟨view, rfl, Received.item.inj (Prod.mk.inj hrecv).2⟩
  obtain ⟨hseen, hrevision⟩ := hcarries.numbered _ view hview
  have hlast : watch.lastRevision = view.revision := by rw [hwatch]; rfl
  have hbehind : view.revision = subscriber.watch.lastRevision + 1 := by omega
  have haccepted := accepted_ok subscriber watch view.event
  have hheld : (⟨watch, subscriber.returned ++ [.ok view.event]⟩ : Subscriber).held = view := by
    rw [held, haccepted, List.getLast?_concat]
    rfl
  refine ⟨?_, ?_, ?_, ?_, ?_, ?_, ?_, ?_⟩
  · have hsnapshot : watch.snapshot = subscriber.watch.snapshot := by rw [hwatch]
    rw [haccepted, List.length_append, List.length_singleton, hlast, hbehind, h.count,
      hsnapshot, Nat.add_assoc]
  · rw [hheld]; exact hseen
  · rw [hheld, hlast]
  · intro event hevent
    rw [haccepted, List.getLast?_concat] at hevent
    rw [hheld, ← Option.some.inj hevent]
  · intro _
    have hlt : subscriber.watch.next < sent.length := (List.getElem?_eq_some_iff.mp hview).1
    have hnext : watch.next = subscriber.watch.next + 1 := by rw [hwatch]
    show base + watch.next = watch.lastRevision ∧ watch.next ≤ sent.length
    omega
  · intro hinvalid
    rw [hwatch] at hinvalid
    exact absurd (hvalid.symm.trans hinvalid) nofun
  · intro result hmem hfatal
    rcases List.mem_append.mp hmem with hmem | hmem
    · rw [hwatch]
      exact h.fatal result hmem hfatal
    · rw [List.mem_singleton.mp hmem] at hfatal
      rcases hfatal with ⟨_, hfatal⟩ | ⟨_, _, hfatal⟩ <;> cases hfatal
  · refine List.pairwise_append.mpr ⟨h.silent, List.pairwise_singleton _ _, ?_⟩
    intro earlier hearlier _ _ hfatal
    exact absurd (hvalid.symm.trans (h.fatal earlier hearlier hfatal)) nofun

theorem Faithful.recv {channel : Channel DiscoveryEvent} (h : Faithful seen base sent subscriber)
    (hcarries : Carries seen channel base sent)
    {outcome : DiscoveryWatch × Option (Except DiscoveryError DiscoveryEvent)}
    (houtcome : RecvOutcome subscriber.watch channel outcome) :
    Faithful seen base sent ⟨outcome.1, subscriber.returned ++ outcome.2.toList⟩ := by
  cases houtcome with
  | waits => simpa using h
  | refuses error harmless => exact h.erred rfl rfl (.inr ⟨rfl, harmless⟩)
  | invalidates next error => exact h.erred rfl rfl (.inl rfl)
  | passes event valid received consecutive => exact h.passed hcarries valid received rfl

end Subscriber

/-! ## Steps -/

theorem Carries.mono {seen seen' : DiscoverySnapshot → Prop} {channel : Channel DiscoveryEvent}
    {base : Nat} {sent : List DiscoverySnapshot} (h : Carries seen channel base sent)
    (hseen : ∀ view, seen view → seen' view) : Carries seen' channel base sent :=
  ⟨h.holds, fun j view hview => ⟨hseen _ (h.numbered j view hview).1, (h.numbered j view hview).2⟩⟩

theorem Carries.opened (seen : DiscoverySnapshot → Prop) (capacity base : Nat) :
    Carries seen (.new capacity) base [] :=
  ⟨Channel.holds_new capacity, nofun⟩

theorem Carries.send {seen : DiscoverySnapshot → Prop} {channel : Channel DiscoveryEvent}
    {base : Nat} {sent : List DiscoverySnapshot} (h : Carries seen channel base sent)
    {view : DiscoverySnapshot} (hseen : seen view)
    (hrevision : view.revision = base + sent.length + 1) :
    Carries seen (channel.send view.event) base (sent ++ [view]) := by
  refine ⟨by rw [List.map_append]; exact h.holds.send _, ?_⟩
  intro j view' hview'
  rcases Nat.lt_trichotomy j sent.length with hlt | rfl | hgt
  · rw [List.getElem?_append_left hlt] at hview'
    exact h.numbered j view' hview'
  · rw [List.getElem?_concat_length] at hview'
    cases hview'
    exact ⟨hseen, hrevision⟩
  · rw [List.getElem?_eq_none (by simp; omega)] at hview'
    cases hview'

/-- The provider, its channels and its watches against the views there have been. For
each channel, `base` is the revision at which it was opened and `sent` what it carried. -/
structure DiscoveryWorld.Faithful (seen : DiscoverySnapshot → Prop) (base : Nat → Nat)
    (sent : Nat → List DiscoverySnapshot) (w : DiscoveryWorld) : Prop where
  now : seen w.state.snapshot
  newest : ∀ view, seen view → view.revision ≤ w.state.revision
  unique : ∀ view view', seen view → seen view' → view.revision = view'.revision → view = view'
  channels : ∀ c, Carries seen (w.channels c) (base c) (sent c)
  current : base w.state.events + (sent w.state.events).length = w.state.revision
  subscribers : ∀ subscriber ∈ w.subscribers, subscriber.watch.events ≤ w.state.events ∧
    subscriber.Faithful seen (base subscriber.watch.events) (sent subscriber.watch.events)

namespace DiscoveryWorld

/-- The views up to now. -/
def Known (seen : DiscoverySnapshot → Prop) (w : DiscoveryWorld) (view : DiscoverySnapshot) :
    Prop :=
  seen view ∨ view = w.state.snapshot

variable {seen : DiscoverySnapshot → Prop} {base : Nat → Nat}
  {sent : Nat → List DiscoverySnapshot} {w : DiscoveryWorld}

/-- The current view is nothing new. -/
theorem Faithful.known (h : Faithful seen base sent w) : Faithful (Known seen w) base sent w := by
  have hknown : Known seen w = seen := by
    funext view
    refine propext ⟨?_, .inl⟩
    rintro (hseen | rfl)
    · exact hseen
    · exact h.now
  rw [hknown]
  exact h

/-- A change of the view gets the next revision, or none at all. -/
theorem publish_cases (w : DiscoveryWorld) (peers : List String) (observations : List Nat)
    (aligned : observations.length = peers.length) :
    w.publish peers observations aligned = w ∨
      ∃ view : DiscoverySnapshot, view.revision = w.state.revision + 1 ∧
        (w.publish peers observations aligned).state.snapshot = view ∧
        (w.publish peers observations aligned).state.events = w.state.events ∧
        (w.publish peers observations aligned).state.revision = w.state.revision + 1 ∧
        (w.publish peers observations aligned).subscribers = w.subscribers ∧
        (w.publish peers observations aligned).channels = Function.update w.channels
          w.state.events ((w.channels w.state.events).send view.event) := by
  unfold publish
  split
  · exact .inl rfl
  · exact .inr ⟨_, rfl, rfl, rfl, rfl, rfl, rfl⟩

theorem Faithful.publish (h : Faithful seen base sent w) (peers : List String)
    (observations : List Nat) (aligned : observations.length = peers.length) :
    ∃ sent', Faithful (Known seen (w.publish peers observations aligned)) base sent'
      (w.publish peers observations aligned) := by
  rcases w.publish_cases peers observations aligned with hsame | ⟨view, hview, hsnapshot, hevents,
    hrevision, hsubscribers, hchannels⟩
  · rw [hsame]
    exact ⟨sent, h.known⟩
  have hmono : ∀ view', seen view' → Known seen (w.publish peers observations aligned) view' :=
    fun _ => .inl
  have hknown : Known seen (w.publish peers observations aligned) view := .inr hsnapshot.symm
  have hcurrent := h.current
  refine ⟨Function.update sent w.state.events (sent w.state.events ++ [view]),
    .inr rfl, ?_, ?_, ?_, ?_, ?_⟩
  · rintro view' (hseen | rfl)
    · rw [hrevision]
      exact Nat.le_succ_of_le (h.newest _ hseen)
    · rw [hsnapshot, hview, hrevision]
  · -- the views before have a lower revision
    rintro view₁ view₂ (hseen₁ | rfl) (hseen₂ | rfl) heq
    · exact h.unique _ _ hseen₁ hseen₂ heq
    · rw [hsnapshot, hview] at heq
      exact absurd (h.newest _ hseen₁) (by omega)
    · rw [hsnapshot, hview] at heq
      exact absurd (h.newest _ hseen₂) (by omega)
    · rfl
  · intro c
    rw [hchannels]
    by_cases hc : c = w.state.events
    · subst hc
      simp only [Function.update_self]
      exact ((h.channels _).mono hmono).send hknown (by omega)
    · simp only [Function.update_of_ne hc]
      exact (h.channels c).mono hmono
  · rw [hevents, hrevision, Function.update_self, List.length_append, List.length_singleton,
      ← Nat.add_assoc, hcurrent]
  · intro subscriber hmem
    rw [hsubscribers] at hmem
    rw [hevents]
    obtain ⟨hle, hfaithful⟩ := h.subscribers subscriber hmem
    refine ⟨hle, hfaithful.mono hmono ?_⟩
    by_cases hc : subscriber.watch.events = w.state.events
    · rw [hc, Function.update_self, List.length_append]
      exact Nat.le_add_right _ _
    · rw [Function.update_of_ne hc]

/-- Nothing depends on whether the provider is available. -/
theorem Faithful.setAvailable (h : Faithful seen base sent w) (available : Bool) :
    Faithful seen base sent { w with state := { w.state with available } } :=
  ⟨h.now, h.newest, h.unique, h.channels, h.current, h.subscribers⟩

/-- A new channel starts at the revision of the state; the watches keep theirs. -/
theorem Faithful.rotate (h : Faithful seen base sent w) :
    ∃ base' sent', Faithful seen base' sent' { w with
      state := { w.state with events := w.state.events + 1 }
      channels := Function.update w.channels (w.state.events + 1)
        (.new w.state.eventCapacity) } := by
  refine ⟨Function.update base (w.state.events + 1) w.state.revision,
    Function.update sent (w.state.events + 1) [], h.now, h.newest, h.unique, ?_, ?_, ?_⟩
  · intro c
    by_cases hc : c = w.state.events + 1
    · subst hc
      simp only [Function.update_self]
      exact .opened seen _ _
    · simp only [Function.update_of_ne hc]
      exact h.channels c
  · simp only [Function.update_self, List.length_nil, Nat.add_zero]
  · intro subscriber hmem
    obtain ⟨hle, hfaithful⟩ := h.subscribers subscriber hmem
    have hne : subscriber.watch.events ≠ w.state.events + 1 := Nat.ne_of_lt (Nat.lt_succ_of_le hle)
    rw [Function.update_of_ne hne, Function.update_of_ne hne]
    exact ⟨Nat.le_succ_of_le hle, hfaithful⟩

theorem Faithful.liveWatch (h : Faithful seen base sent w) :
    Faithful seen base sent w.liveWatch := by
  unfold DiscoveryWorld.liveWatch
  split
  · refine ⟨h.now, h.newest, h.unique, h.channels, h.current, ?_⟩
    intro subscriber hmem
    rcases List.mem_append.mp hmem with hmem | hmem
    · exact h.subscribers subscriber hmem
    · have htail := (h.channels w.state.events).holds.tail_eq
      rw [List.length_map] at htail
      rw [List.mem_singleton.mp hmem, htail]
      exact ⟨Nat.le_refl _, .fresh h.now _ h.current⟩
  · exact h

theorem Faithful.recv (h : Faithful seen base sent w) (i : Nat) :
    Faithful seen base sent (w.recv i) := by
  unfold DiscoveryWorld.recv
  split
  next => exact h
  next subscriber hget =>
    obtain ⟨hle, hfaithful⟩ := h.subscribers subscriber (List.mem_of_getElem? hget)
    refine ⟨h.now, h.newest, h.unique, h.channels, h.current, ?_⟩
    intro subscriber' hmem
    rcases List.mem_or_eq_of_mem_set hmem with hmem | rfl
    · exact h.subscribers subscriber' hmem
    · have houtcome := @DiscoveryWatch.recv_outcome subscriber.watch
        (w.channels subscriber.watch.events) (subscriber.watch.events != w.state.events)
      have hresult := hfaithful.recv (h.channels _) houtcome
      refine ⟨houtcome.events_eq.trans_le hle, ?_⟩
      dsimp only
      rw [houtcome.events_eq]
      exact hresult

theorem Faithful.replace (h : Faithful seen base sent w) (peers : List String)
    (clock : Nat → Nat) :
    ∃ sent', Faithful (Known seen (w.replace peers clock)) base sent' (w.replace peers clock) := by
  unfold DiscoveryWorld.replace
  split
  · exact ⟨sent, h.known⟩
  · exact h.publish _ _ _

theorem Faithful.observeAt (h : Faithful seen base sent w) (peers : List (String × Nat)) :
    ∃ sent', Faithful (Known seen (w.observeAt peers)) base sent' (w.observeAt peers) := by
  unfold DiscoveryWorld.observeAt
  split
  · exact ⟨sent, h.known⟩
  · exact h.publish _ _ _

theorem Faithful.finish (h : Faithful seen base sent w) (unexpected : Bool) :
    ∃ base' sent', Faithful (Known seen (w.finish unexpected)) base' sent'
      (w.finish unexpected) := by
  -- the last view of the old channel comes before the new channel
  obtain ⟨w', hw', sent', h'⟩ : ∃ w', w' = (if w.state.peers.isEmpty then
        { w with state := { w.state with available := false } }
      else { w with state := { w.state with available := false } }.publish [] [] rfl) ∧
      ∃ sent', Faithful (Known seen w') base sent' w' := by
    refine ⟨_, rfl, ?_⟩
    split
    · exact ⟨sent, (h.setAvailable false).known⟩
    · exact (h.setAvailable false).publish _ _ _
  cases unexpected with
  | false =>
    have hfinish : w.finish false = w' := hw'.symm
    rw [hfinish]
    exact ⟨base, sent', h'⟩
  | true =>
    have hfinish : w.finish true = { w' with
        state := { w'.state with events := w'.state.events + 1 }
        channels := Function.update w'.channels (w'.state.events + 1)
          (.new w'.state.eventCapacity) } := by
      rw [hw']
      rfl
    rw [hfinish]
    exact h'.rotate

theorem Faithful.step (h : Faithful seen base sent w) (step : DiscoveryStep) :
    ∃ base' sent', Faithful (Known seen (w.step step)) base' sent' (w.step step) := by
  cases step with
  | replace peers clock => exact ⟨base, h.replace peers clock⟩
  | observe peers now => exact ⟨base, h.observeAt _⟩
  | observeAt peers => exact ⟨base, h.observeAt peers⟩
  | finish unexpected => exact h.finish unexpected
  | activate => exact ⟨base, sent, (h.setAvailable true).known⟩
  | liveWatch => exact ⟨base, sent, h.liveWatch.known⟩
  | recv i => exact ⟨base, sent, (h.recv i).known⟩

/-! ## Runs -/

/-- A view that the provider had after some of the steps. -/
def Seen (capacity : Nat) (steps : List DiscoveryStep) (view : DiscoverySnapshot) : Prop :=
  ∃ front, front <+: steps ∧ ((new capacity).run front).state.snapshot = view

theorem run_concat (w : DiscoveryWorld) (steps : List DiscoveryStep) (step : DiscoveryStep) :
    w.run (steps ++ [step]) = (w.run steps).step step := by
  rw [run, List.foldl_append]
  rfl

theorem seen_concat (capacity : Nat) (steps : List DiscoveryStep) (step : DiscoveryStep) :
    Seen capacity (steps ++ [step]) =
      Known (Seen capacity steps) ((new capacity).run (steps ++ [step])) := by
  funext view
  refine propext ⟨?_, ?_⟩
  · rintro ⟨front, hfront, rfl⟩
    rcases List.prefix_concat_iff.mp hfront with rfl | hfront
    · exact .inr rfl
    · exact .inl ⟨front, hfront, rfl⟩
  · rintro (⟨front, hfront, rfl⟩ | rfl)
    · exact ⟨front, hfront.trans (List.prefix_append _ _), rfl⟩
    · exact ⟨_, List.prefix_rfl, rfl⟩

theorem faithful_new (capacity : Nat) :
    Faithful (Seen capacity []) (fun _ => 0) (fun _ => []) (new capacity) where
  now := ⟨[], List.prefix_rfl, rfl⟩
  newest := by
    rintro view ⟨front, hfront, rfl⟩
    rw [List.prefix_nil.mp hfront]
    exact Nat.le_refl _
  unique := by
    rintro view view' ⟨front, hfront, rfl⟩ ⟨front', hfront', rfl⟩ _
    rw [List.prefix_nil.mp hfront, List.prefix_nil.mp hfront']
  channels _ := .opened _ _ _
  current := rfl
  subscribers _ h := nomatch h

theorem faithful_run (capacity : Nat) (steps : List DiscoveryStep) :
    ∃ base sent, Faithful (Seen capacity steps) base sent ((new capacity).run steps) := by
  induction steps using List.reverseRecOn with
  | nil => exact ⟨_, _, faithful_new capacity⟩
  | append_singleton steps step ih =>
    obtain ⟨base, sent, h⟩ := ih
    rw [seen_concat, run_concat]
    exact h.step step

end DiscoveryWorld

/-- No change is lost without a word. The last event of a watch that has returned `k` of
them tells the view of the provider `k` revisions after the one of the watch; an overflow
or a gap in the revisions is the end; and a watch that has read all of the channel in use
has the view of the provider. -/
theorem discoveryWatch_complete (capacity : Nat) (steps : List DiscoveryStep)
    (subscriber : Subscriber)
    (hsubscriber : subscriber ∈ ((DiscoveryWorld.new capacity).run steps).subscribers) :
    (∃ front, front <+: steps ∧
      ((DiscoveryWorld.new capacity).run front).state.revision =
        subscriber.watch.snapshot.revision + subscriber.accepted.length) ∧
    (∀ front, front <+: steps →
      ((DiscoveryWorld.new capacity).run front).state.revision =
        subscriber.watch.snapshot.revision + subscriber.accepted.length →
      ∀ event, subscriber.accepted.getLast? = some event →
        let state := ((DiscoveryWorld.new capacity).run front).state
        event = ⟨state.revision, .observed ⟨state.revision, state.peers,
          some state.observations⟩⟩) ∧
    (subscriber.returned.Pairwise fun earlier later =>
      Subscriber.Fatal earlier → ∀ event, later ≠ .ok event) ∧
    (let w := (DiscoveryWorld.new capacity).run steps;
      (∀ result ∈ subscriber.returned, ∃ event, result = .ok event) →
      ((w.channels subscriber.watch.events).recv subscriber.watch.next).2 = .empty →
      subscriber.watch.events = w.state.events →
      subscriber.held = ⟨w.state.revision, w.state.peers, some w.state.observations⟩) := by
  obtain ⟨base, sent, h⟩ := DiscoveryWorld.faithful_run capacity steps
  obtain ⟨hevents, hwatch⟩ := h.subscribers subscriber hsubscriber
  have hrevision : subscriber.held.revision =
      subscriber.watch.snapshot.revision + subscriber.accepted.length :=
    hwatch.held_revision.trans hwatch.count
  refine ⟨?_, ?_, hwatch.silent, ?_⟩
  · obtain ⟨front, hfront, hview⟩ := hwatch.held_seen
    exact ⟨front, hfront, by rw [← hrevision, ← hview]; rfl⟩
  · intro front hfront hfrontRevision event hevent
    have hview : subscriber.held = ((DiscoveryWorld.new capacity).run front).state.snapshot :=
      h.unique _ _ hwatch.held_seen ⟨front, hfront, rfl⟩ (hrevision.trans hfrontRevision.symm)
    rw [hwatch.last event hevent, hview, DiscoverySnapshot.event, DynamicState.snapshot_eq]
  · intro w hok hempty hcurrent
    have hvalid : subscriber.watch.invalidated = false := by
      refine Bool.eq_false_iff.mpr fun hinvalid => ?_
      obtain ⟨error, hmem⟩ := hwatch.reported hinvalid
      obtain ⟨event, hevent⟩ := hok _ hmem
      cases hevent
    obtain ⟨hposition, hnext⟩ := hwatch.position hvalid
    -- the position is behind all that was sent, so the last revision is that of the state
    have hall := (h.channels subscriber.watch.events).holds.length_le_of_recv_empty hempty
    rw [List.length_map] at hall
    have hlast : subscriber.held.revision = w.state.revision := by
      rw [hwatch.held_revision, ← hposition, ← h.current, hcurrent]
      rw [hcurrent] at hall hnext
      rw [Nat.le_antisymm hnext hall]
    have hview : subscriber.held = w.state.snapshot := h.unique _ _ hwatch.held_seen h.now hlast
    rw [hview, DynamicState.snapshot_eq]

/-- One watch, which has read the only change there was. -/
theorem discoveryWatch_complete_oneChange :
    ∃ subscriber ∈ ((DiscoveryWorld.new 2).run
        [.liveWatch, .observe ["a:1"] 5, .recv 0]).subscribers,
      subscriber.accepted.length = 1 ∧ subscriber.held = ⟨1, ["a:1"], some [5]⟩ := by
  let watch : DiscoveryWatch := ⟨⟨0, [], some []⟩, 0, 1, 1, false⟩
  let event : DiscoveryEvent := ⟨1, .observed ⟨1, ["a:1"], some [5]⟩⟩
  have hmem : (⟨watch, [.ok event]⟩ : Subscriber) ∈ ((DiscoveryWorld.new 2).run
      [.liveWatch, .observe ["a:1"] 5, .recv 0]).subscribers := List.mem_singleton.mpr rfl
  have hcomplete := discoveryWatch_complete 2 [.liveWatch, .observe ["a:1"] 5, .recv 0] _ hmem
  refine ⟨_, hmem, rfl, hcomplete.2.2.2 ?_ rfl rfl⟩
  intro result hresult
  exact ⟨event, List.mem_singleton.mp hresult⟩

end Numax
