import Numax.Theorems.ClusterDelivery

/-!
# Anti-entropy heals

A node that asks a peer for its log gets everything the peer had accepted when it was
asked, if the connection stays up, no error is counted and the peer's log has room for
all it accepts. It does not matter what was lost before: broadcasts to peers that were
not connected, batches on connections that broke, events that could not be applied. When
all nodes have asked each other since the last operation was remembered, they agree.
-/

open Base Std

namespace Numax

namespace Cluster

variable {ι : Type} [DecidableEq ι] {serde : Serde} {codec : PayloadCodec} {c next : Cluster ι}
  {i j : ι} {addr addrI addrJ : String} {k q : Nat} {actions : List (Action ι)}

/-- A request for the whole log is on its way to `i`. -/
inductive Requested (codec : PayloadCodec) (c : Cluster ι) (i : ι) (addr : String) (pipe : Nat) :
    Prop
  | onWire {p : Pipe ι} (pipe_eq : c.pipes[pipe]? = some p)
      (inFlight : InFlight codec p.bytes ⟨.pullSince none⟩)
  | received {sender : NodeId} (event : .pullRequested sender addr none ∈ (c.station i).inbox)

/-- The address at which the reader of a pipe answers. -/
def answersAt (c : Cluster ι) (pipe : Nat) : Option String := (c.pipes[pipe]?).map Pipe.addr

omit [DecidableEq ι] in
theorem lt_of_answersAt (h : c.answersAt q = some addr) : q < c.pipes.length := by
  obtain ⟨p, hp, -⟩ := Option.map_eq_some_iff.mp h
  exact (List.getElem?_eq_some_iff.mp hp).1

theorem Moves.answersAt (hmoves : Moves serde codec c next) (h : c.answersAt q = some addr) :
    next.answersAt q = some addr := by
  obtain ⟨p, hp, rfl⟩ := Option.map_eq_some_iff.mp h
  obtain ⟨p', hp', hfollows⟩ := hmoves.pipe hp
  rw [Cluster.answersAt, hp', Option.map_some, hfollows.later.addr]

/-- A request stays on its way until it is answered with the log. -/
theorem Moves.requested (hmoves : Moves serde codec c next) (h : c.Sound codec)
    (hold : k < c.pipes.length) (hup : next.Up i j addr k) (hupQ : next.Up j i addrJ q)
    (haddr : c.answersAt q = some addr)
    (herr : (next.station i).syncErrors = (c.station i).syncErrors)
    (hrequested : c.Requested codec i addr q) :
    next.Requested codec i addr q ∨
      ∀ op ∈ (c.station i).node.sync.opLog, next.Reaches codec i j addr k op := by
  cases hrequested with
  | @onWire p pipe_eq inFlight =>
    obtain ⟨p', hp', hfollows⟩ := hmoves.pipe pipe_eq
    obtain ⟨⟨p'', hp'', hdst, hbroken⟩, -, hrunning⟩ := hupQ
    cases hp'.symm.trans hp''
    rw [Cluster.answersAt, pipe_eq] at haddr
    cases haddr
    have hreader : (next.station p.dst).events = .running := by
      rw [← hfollows.later.dst, hdst]
      exact hrunning
    rcases hfollows.message hbroken hreader _ inFlight with hflight | hevent
    · exact .inl (.onWire hp' hflight)
    · have hinbox := hevent _ rfl
      rw [← hfollows.later.dst, hdst] at hinbox
      exact .inl (.received hinbox)
  | received event =>
    cases hmoves.handled h event with
    | waiting mem => exact .inl (.received mem)
    | error more => omega
    | @answered _ _ _ writer frame peer encoded pipes_eq =>
      right
      -- the answer goes to the pipe that is up
      obtain ⟨⟨p, hpipe, hdst, hbroken⟩, ⟨format, hpeer⟩, -⟩ := hmoves.up hold hup
      cases peer.symm.trans hpeer
      have hnext : next.pipes[k]? = some (p.write frame) := by
        rw [pipes_eq, List.getElem?_modify, hpipe]
        simp
      exact fun op hop => .onWire hnext (h.inFlight_write hpipe hbroken encoded) hop

/-- What holds along a run after `j` has asked `i`, for what `i` had accepted. -/
structure Pulling (codec : PayloadCodec) (start : Cluster ι) (i j : ι) (addrI addrJ : String)
    (k q : Nat) (c : Cluster ι) : Prop where
  sound : c.Sound codec
  old : k < c.pipes.length
  answersAt : c.answersAt q = some addrI
  laterI : (start.station i).Later (c.station i)
  laterJ : (start.station j).Later (c.station j)
  asked : c.Up i j addrI k → c.Up j i addrJ q →
    (c.station i).syncErrors = (start.station i).syncErrors →
    (c.station j).syncErrors = (start.station j).syncErrors →
    (c.station i).replica.accepted.length ≤
      normalizeOpLogLimit (start.station i).node.sync.opLogLimit →
    c.Requested codec i addrI q ∨
      ∀ op ∈ (start.station i).replica.accepted, c.Reaches codec i j addrI k op

theorem Moves.pulling (hmoves : Moves serde codec c next) (hproper : next.Proper)
    {start : Cluster ι} (h : Pulling codec start i j addrI addrJ k q c) :
    Pulling codec start i j addrI addrJ k q next where
  sound := hmoves.sound hproper h.sound
  old := hmoves.old_lt h.old
  answersAt := hmoves.answersAt h.answersAt
  laterI := h.laterI.trans (hmoves.later i)
  laterJ := h.laterJ.trans (hmoves.later j)
  asked := by
    intro hup hupQ herrI herrJ hroom
    have hI := (hmoves.later i).syncErrors
    have hJ := (hmoves.later j).syncErrors
    have hbeforeI := h.laterI.syncErrors
    have hbeforeJ := h.laterJ.syncErrors
    have hroom' := (hmoves.later i).accepted.length_le.trans hroom
    rcases h.asked (hmoves.up h.old hup) (hmoves.up (lt_of_answersAt h.answersAt) hupQ)
      (by omega) (by omega) hroom' with hrequested | hreaches
    · refine (hmoves.requested h.sound h.old hup hupQ h.answersAt (by omega)
        hrequested).imp_right ?_
      intro hlog op hop
      -- the log still holds everything that was accepted
      apply hlog
      rw [(h.sound.station i).opLog, h.laterI.opLogLimit, rtake_of_length_le hroom']
      exact h.laterI.accepted.subset hop
    · exact .inr fun op hop =>
        hmoves.reaches h.sound h.old hup (by omega) (by omega) (hreaches op hop)

theorem up_of_run (hold : k < c.pipes.length) (hrun : c.run serde codec actions = some next)
    (h : next.Up i j addr k) : c.Up i j addr k := by
  induction actions generalizing c with
  | nil =>
    cases hrun
    exact h
  | cons action actions ih =>
    obtain ⟨middle, hstep, hrest⟩ := runSteps_cons.mp hrun
    have hmoves := moves_of_step hstep
    exact hmoves.up hold (ih (hmoves.old_lt hold) hrest)

/-- A node that asks over a connection that stays up has sent its request. -/
theorem pulling_of_pull {last : Cluster ι} (hproper : last.Proper) (h : c.Sound codec)
    (hold : k < c.pipes.length) (haddr : c.answersAt q = some addrI)
    (hpull : c.step serde codec (.pull j addrJ none) = some next)
    (hrun : next.run serde codec actions = some last) (hup : last.Up j i addrJ q)
    (herrJ : (last.station j).syncErrors = (c.station j).syncErrors) :
    Pulling codec c i j addrI addrJ k q next := by
  have hmoves := moves_of_step hpull
  have holdQ := lt_of_answersAt haddr
  obtain ⟨⟨p, hpipe, -, hbroken⟩, ⟨format, hpeer⟩, -⟩ := hmoves.up holdQ
    (up_of_run (hmoves.old_lt holdQ) hrun hup)
  refine
    { sound := hmoves.sound (proper_of_run hproper hrun) h
      old := hmoves.old_lt hold
      answersAt := hmoves.answersAt haddr
      laterI := hmoves.later i
      laterJ := hmoves.later j
      asked := fun _ _ _ _ _ => .inl ?_ }
  have hcount := (later_of_run hrun j).syncErrors
  cases hencoded : (Message.mk (.pullSince none)).toBytesWithFormat codec format with
  | error e =>
    -- a request that cannot be encoded is counted
    simp only [step, Station.sendMessageToAddr, hpeer, hencoded] at hpull
    have hnext := Option.some.inj hpull
    rw [← hnext] at hcount
    change (Function.update c.station j _ j).syncErrors ≤ _ at hcount
    rw [Function.update_self] at hcount
    exact absurd hcount (by rw [herrJ]; exact Nat.not_succ_le_self _)
  | ok frame =>
    simp only [step, Station.sendMessageToAddr, hpeer, hencoded] at hpull
    have hnext := Option.some.inj hpull
    refine .onWire (p := p.write frame) ?_ (h.inFlight_write hpipe hbroken hencoded)
    rw [← hnext]
    change (c.pipes.modify q (Pipe.write frame))[q]? = _
    rw [List.getElem?_modify, hpipe]
    simp

/-- Between the two moments `j` has asked `i` for its log, over a connection that is still
up. Nothing is left to do for it, neither node has counted an error since the request,
and the log of `i` has had room for everything. -/
inductive Pulled (serde : Serde) (codec : PayloadCodec) (c₁ c₂ : Cluster ι) (i j : ι) : Prop
  | intro {asked sent : Cluster ι} {before after : List (Action ι)} {addrI addrJ : String}
      {k q : Nat} (run_before : c₁.run serde codec before = some asked)
      (pull : asked.step serde codec (.pull j addrJ none) = some sent)
      (run_after : sent.run serde codec after = some c₂)
      (pipe_k : k < asked.pipes.length) (pipe_q : asked.answersAt q = some addrI)
      (up_answers : c₂.Up i j addrI k) (up_requests : c₂.Up j i addrJ q)
      (errorsI : (c₂.station i).syncErrors = (asked.station i).syncErrors)
      (errorsJ : (c₂.station j).syncErrors = (asked.station j).syncErrors)
      (room : (c₂.station i).replica.accepted.length ≤
        normalizeOpLogLimit (c₂.station i).node.sync.opLogLimit)
      (drained_answers : c₂.Drained i j k) (drained_requests : c₂.Drained j i q) :
      Pulled serde codec c₁ c₂ i j

/-- A node that has asked another has accepted everything the other had. -/
theorem Pulled.accepted {c₁ c₂ : Cluster ι} (h : Pulled serde codec c₁ c₂ i j)
    (hproper : c₂.Proper) (hsound : c₁.Sound codec) :
    ∀ op ∈ (c₁.station i).replica.accepted,
      op.id ∈ (c₂.station j).replica.accepted.map Op.id := by
  obtain ⟨run_before, pull, run_after, pipe_k, pipe_q, up_answers, up_requests, errorsI, errorsJ,
    room, drained_answers, drained_requests⟩ := h
  rename_i asked sent before after addrI addrJ k q
  have hasked := sound_of_run hsound
    ((moves_of_step pull).proper (proper_of_run hproper run_after)) run_before
  have hstart : Pulling codec asked i j addrI addrJ k q sent :=
    pulling_of_pull hproper hasked pipe_k pipe_q pull run_after up_requests errorsJ
  have hend : Pulling codec asked i j addrI addrJ k q c₂ :=
    run_keeps hproper (fun _ _ hmoves hp hs => hmoves.pulling hp hs) hstart run_after
  intro op hop
  rcases hend.asked up_answers up_requests errorsI errorsJ
    (by rw [← hend.laterI.opLogLimit]; exact room) with hrequested | hreaches
  · -- no request is left
    cases hrequested with
    | onWire pipe_eq inFlight =>
      rw [drained_requests.pipe _ pipe_eq] at inFlight
      exact absurd inFlight not_inFlight_nil
    | received event =>
      rw [drained_requests.inbox] at event
      cases event
  · exact (hreaches op ((later_of_run run_before i).accepted.subset hop)).accepted_of_drained
      drained_answers

/-! ## Agreement -/

/-- Operations are remembered by a node that accepts them. -/
theorem Moves.remembered (hmoves : Moves serde codec c next) (h : c.Sound codec) :
    ∃ batch, next.remembered = c.remembered ++ batch ∧
      ∀ op ∈ batch, ∃ i, op.id ∈ (next.station i).replica.accepted.map Op.id := by
  cases hmoves with
  | @station i s pipes issued remembered step =>
    refine ⟨remembered, rfl, fun op hop => ⟨i, ?_⟩⟩
    change op.id ∈ (Function.update c.station i _ i).replica.accepted.map Op.id
    rw [Function.update_self]
    cases step with
    | remember phase result => exact (h.station i).mem_accepted hop
    | _ => cases hop
  | reply | ignore | cut | connect => exact ⟨[], (List.append_nil _).symm, nofun⟩

omit [DecidableEq ι] in
/-- Two stations that have accepted everything that was remembered hold the same. -/
theorem Sound.registries_eq (h : c.Sound codec)
    (hpendingI : (c.station i).replica.pending = [])
    (hpendingJ : (c.station j).replica.pending = [])
    (hevictedI : (c.station i).replica.evicted = [])
    (hevictedJ : (c.station j).replica.evicted = [])
    (hall : ∀ i, ∀ op ∈ c.remembered, op.id ∈ (c.station i).replica.accepted.map Op.id) :
    (c.station i).node.sync.registries = (c.station j).node.sync.registries := by
  have hissued : ∀ i, (c.station i).replica.accepted ⊆ c.issued := fun i =>
    List.Subset.trans (h.accepted_remembered i) h.world.remembered_issued
  have hnodup : ∀ i, (c.station i).replica.evicted = [] →
      ((c.station i).replica.accepted.map Op.id).Nodup := fun i hevicted =>
    ((h.world.replica i).kept hevicted).1 ▸ (h.world.replica i).seen.nodup
  have hsub : ∀ i j id, id ∈ (c.station i).replica.accepted.map Op.id →
      id ∈ (c.station j).replica.accepted.map Op.id := by
    intro i j id hid
    obtain ⟨op, hop, rfl⟩ := List.mem_map.mp hid
    exact hall j op (h.accepted_remembered i hop)
  calc (c.station i).node.sync.registries
      = (c.station i).replica.accepted.foldl applyOp {} :=
        h.world.registries_eq hpendingI hevictedI
    _ = (c.station j).replica.accepted.foldl applyOp {} :=
        h.world.issued.replayable.foldl_eq (hissued i) (hissued j) (hnodup i hevictedI)
          (hnodup j hevictedJ) (fun id => ⟨hsub i j id, hsub j i id⟩) {}
    _ = (c.station j).node.sync.registries :=
        (h.world.registries_eq hpendingJ hevictedJ).symm

/-- A codec for operations and requests of the whole log, told apart by their first byte. -/
def requestPayload : PayloadCodec where
  encodeMessage format message :=
    if format = .json ∧ message.kind = .pullSince none then .ok [1]
    else (jsonPayload.encodeMessage format message).map (0 :: ·)
  encode format message :=
    if format = .json ∧ message.kind = .pullSince none then .ok [1]
    else (jsonPayload.encode format message).map (0 :: ·)
  readJson payload :=
    match payload with
    | 1 :: _ => .ok ⟨.pullSince none⟩
    | 0 :: ops => jsonPayload.readJson ops
    | _ => .error (.serialization "unsupported")
  readBinary := jsonPayload.readBinary
  preallocation _ := 0
  encodeMessage_eq format message := by
    obtain ⟨kind⟩ := message
    cases kind with
    | pullSince sinceOpId => cases sinceOpId <;> cases format <;> rfl
    | _ => cases format <;> rfl
  readJson_encode {message payload} h := by
    split at h
    · next hkind =>
        cases h
        exact congrArg (fun kind => Except.ok (WireMessage.mk kind)) hkind.2.symm
    · cases hencode : jsonPayload.encode .json message with
      | error e =>
        rw [hencode] at h
        cases h
      | ok ops =>
        rw [hencode] at h
        cases h
        exact jsonPayload.readJson_encode hencode
  readBinary_encode h := nomatch h
  readBinary_refuse h := nomatch h

/-- At the end of a quiet run the counts are what they were before. -/
theorem PairQuiet.syncErrors {c c₂ : Cluster Bool} {actions : List (Action Bool)}
    (h : PairQuiet c₂) (hrun : c.run jsonSerde requestPayload actions = some c₂) (b : Bool) :
    (c₂.station b).syncErrors = (c.station b).syncErrors := by
  have hlater := (later_of_run hrun b).syncErrors
  rw [(h.2.1 b).2.2.2.1] at hlater ⊢
  exact (Nat.le_zero.mp hlater).symm

theorem PairQuiet.room {c : Cluster Bool} (h : PairQuiet c) (b : Bool) :
    (c.station b).replica.accepted.length ≤
      normalizeOpLogLimit (c.station b).node.sync.opLogLimit := by
  have hlength := congrArg List.length (h.2.1 b).2.2.2.2.2.1
  rw [List.length_map] at hlength
  rw [hlength, (h.2.1 b).2.2.2.2.2.2.1]
  decide

end Cluster

end Numax
