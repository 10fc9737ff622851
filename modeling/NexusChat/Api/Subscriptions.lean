import NexusChat.Api.JoinSteps

/-!
# The subscriptions of an instance (`RedisBroker.subscribe`, and the ways out of a room)

An instance subscribes to the channel of a room when a session joins it. When a connection stops
being in a room, because its user leaves, its session ends, another session replaces it or it is
forced out, nothing calls `unsubscribe`.

So the channels an instance has subscribed to are those of the rooms somebody is in, as long as
nobody is the last to go out of a room (`System.Staffed`), and `System.subscriptions_exact` says
this of every run.
-/

set_option autoImplicit false

namespace NexusChat

open ConnectionManager

/-! ## The subscriptions of all instances -/

/-- Somebody goes out of the room, or a join finds nobody to put into it. -/
def ConnectionManager.Vacates (m : ConnectionManager Delivery) (o : ManagerOp Delivery)
    (room : RoomId) : Prop :=
  (∃ v, m.OccupiedBy v room ∧ m.Removes o v room) ∨
    ∃ u, o = .joinRoom u room ∧ m.connections.get? u = none

namespace System

/-- Redis answers, and `listen()` does not raise. -/
def NoRedisError (s : System) (l : Label) : Prop :=
  s.RedisAnswers l ∧ ∀ srv, l ≠ .listener srv .fail

/-- Where somebody goes out of a room, somebody else stays in it, or is about to join it. -/
def Staffed (env : Env) (s : System) : Label → Prop
  | .run i _ => ∀ t o room, s.tasks[i]? = some t → t.head? = some (.manager o) →
      (s.world.servers t.activity.server).manager.Vacates o room →
        (∃ v, (s.world.servers t.activity.server).manager.OccupiedBy v room ∧
          ¬(s.world.servers t.activity.server).manager.Removes o v room) ∨
        ∃ (j : TaskId) (t' : Task), j ≠ i ∧ s.tasks[j]? = some t' ∧
          t'.Joining env t.activity.server (channelOf env room)
  | _ => True

/-- What holds of an instance throughout, sessions suspended midway or not. -/
structure Serves (env : Env) (s : System) (srv : ServerId) : Prop where
  pubsub : (s.world.servers srv).broker.pubsub = some 0
  listens : (s.world.servers srv).broker.Listens
  /-- a channel with a callback is that of a room with somebody in it, or on the way into it -/
  needed : ∀ ch ∈ (s.world.servers srv).broker.callbacks.keys,
    (∃ room, (s.world.servers srv).manager.Occupied room ∧ ch = channelOf env room) ∨
      ∃ (i : TaskId) (t : Task), s.tasks[i]? = some t ∧ t.Joining env srv ch
  called : ∀ room, (s.world.servers srv).manager.Occupied room →
    channelOf env room ∈ (s.world.servers srv).broker.callbacks.keys
  dummy : RedisBroker.dummyChannel ∈ ((s.world.servers srv).broker.heap 0).channels
  known : ∀ ch ∈ ((s.world.servers srv).broker.heap 0).channels,
    ch = RedisBroker.dummyChannel ∨ ch ∈ (s.world.servers srv).broker.callbacks.keys
  /-- and it is subscribed to, or about to be -/
  reached : ∀ ch ∈ (s.world.servers srv).broker.callbacks.keys,
    ch ∈ ((s.world.servers srv).broker.heap 0).channels ∨
      ∃ (i : TaskId) (t : Task), s.tasks[i]? = some t ∧ t.Calling srv ch
  programs : ∀ (i : TaskId) (t : Task), s.tasks[i]? = some t → t.activity.server = srv →
    t.Programs (AtStage env (s.world.servers srv).broker.callbacks.keys)

section Runs

variable {env : Env} {s s' : System} {l : Label} {srv : ServerId}

/-- Where nobody is on the way into a room by this step, and nobody leaves a room empty. -/
theorem Serves.frame (h : s.Serves env srv)
    (hb : (s.world.servers srv).broker.Keeps (s'.world.servers srv).broker)
    (hin : ∀ room, (s'.world.servers srv).manager.Occupied room →
      (s.world.servers srv).manager.Occupied room)
    (hout : ∀ room, (s.world.servers srv).manager.Occupied room →
      (s'.world.servers srv).manager.Occupied room ∨
        ∃ (i : TaskId) (t : Task), s'.tasks[i]? = some t ∧
          t.Joining env srv (channelOf env room))
    (hstay : ∀ (i : TaskId) (t : Task) (ch : Channel), s.tasks[i]? = some t →
      t.Joining env srv ch → s'.tasks[i]? = some t)
    (hprograms : ∀ (i : TaskId) (t : Task), s'.tasks[i]? = some t → t.activity.server = srv →
      t.Programs (AtStage env (s'.world.servers srv).broker.callbacks.keys)) :
    s'.Serves env srv where
  pubsub := hb.pubsub.trans h.pubsub
  listens := hb.listens h.listens
  needed ch hch := by
    rw [hb.callbacks] at hch
    rcases h.needed ch hch with ⟨room, hroom, rfl⟩ | ⟨i, t, hi, hjoining⟩
    · exact (hout room hroom).imp_left fun hroom' => ⟨room, hroom', rfl⟩
    · exact .inr ⟨i, t, hstay i t ch hi hjoining, hjoining⟩
  called room hroom := by
    rw [hb.callbacks]
    exact h.called room (hin room hroom)
  dummy := by
    rw [hb.channels]
    exact h.dummy
  known ch hch := by
    rw [hb.channels] at hch
    rw [hb.callbacks]
    exact h.known ch hch
  reached ch hch := by
    rw [hb.callbacks] at hch
    rw [hb.channels]
    refine (h.reached ch hch).imp_right fun ⟨i, t, hi, hcalling⟩ => ?_
    exact ⟨i, t, hstay i t ch hi hcalling.joining, hcalling⟩
  programs := hprograms

/-- The programs keep to their stages when the callbacks grow. -/
theorem Serves.programs_step (h : s.Serves env srv) (hok : s.RedisAnswers l)
    (hs : s.step env l = some s')
    (hkeys : ∀ ch ∈ (s.world.servers srv).broker.callbacks.keys,
      ch ∈ (s'.world.servers srv).broker.callbacks.keys)
    (hcall : ∀ i x t channel room, l = .run i x → s.tasks[i]? = some t →
      t.activity.server = srv → t.head? = some (.broker (.setCallback channel room)) →
        channel ∈ (s'.world.servers srv).broker.callbacks.keys)
    (i : TaskId) (t : Task) (hi : s'.tasks[i]? = some t) (hsrv : t.activity.server = srv) :
    t.Programs (AtStage env (s'.world.servers srv).broker.callbacks.keys) := by
  have hstart : Started env (AtStage env (s'.world.servers srv).broker.callbacks.keys) :=
    ⟨fun u username => ⟨.away, trivial, started_joins.connect u username⟩,
      fun u username data => ⟨.away, trivial, started_joins.frame u username data⟩,
      fun u m => ⟨.away, trivial, started_joins.send u m⟩,
      fun u username conn => ⟨.away, trivial, started_joins.cleanup u username conn⟩,
      fun r => ⟨.away, trivial, started_joins.request r⟩,
      fun conn reason => ⟨.away, trivial, started_joins.force conn reason⟩⟩
  refine (System.moves hs).programs_at hstart (fun i t hi hsrv => ?_) ?_ hi hsrv
  · refine Task.programs_mono (fun o {α} p hp => ?_) (h.programs i t hi hsrv)
    obtain ⟨st, hcalled, hjoins⟩ := hp
    exact ⟨st, hcalled.mono hkeys, hjoins⟩
  · rintro i x t rfl hi rfl α p p' ⟨st, hcalled, hjoins⟩ hhead hp
    obtain ⟨op, r, st', hop, hx, hmove, hjoins'⟩ := Coro.Follows.step hjoins hp fun op r hop hx =>
      granted_exec h.pubsub (hok t op hi (hhead ▸ hop)) hx
    refine ⟨st', ?_, hjoins'⟩
    cases hmove with
    | aside _ => trivial
    | call ho =>
      have hsession : t.owner ≠ none := by
        rw [ho]
        exact Option.some_ne_none _
      exact ⟨hsession, hcall i x t _ _ rfl hi rfl (hhead ▸ hop)⟩
    | subscribe => exact hcalled
    | join => trivial

/-- An operation of another instance, or a step that is no operation. -/
theorem Serves.other (h : s.Serves env srv) (hok : s.RedisAnswers l) (hs : s.step env l = some s')
    (hb : (s.world.servers srv).broker.Keeps (s'.world.servers srv).broker)
    (hsame : SameSessions (s.world.servers srv).manager (s'.world.servers srv).manager)
    (hstay : ∀ (i : TaskId) (t : Task) (ch : Channel), s.tasks[i]? = some t →
      t.Joining env srv ch → s'.tasks[i]? = some t)
    (hcall : ∀ i x t, l = .run i x → s.tasks[i]? = some t → t.activity.server ≠ srv) :
    s'.Serves env srv := by
  refine h.frame hb (fun room => (occupied_congr hsame).mp)
    (fun room hroom => .inl ((occupied_congr hsame).mpr hroom)) hstay ?_
  refine h.programs_step hok hs (fun ch hch => ?_) fun i x t _ _ hl hi hsrv _ =>
    absurd hsrv (hcall i x t hl hi)
  rw [hb.callbacks]
  exact hch

/-- The steps that are no operation of a task let the tasks that have one pending be. -/
theorem joining_stays (hl : ∀ i x, l ≠ .run i x) (hs : s.step env l = some s') {i : TaskId}
    {t : Task} {ch : Channel} (hi : s.tasks[i]? = some t) (h : t.Joining env srv ch) :
    s'.tasks[i]? = some t := by
  have hspawn : ∀ {t₁}, s'.tasks = s.tasks ++ [t₁] → s'.tasks[i]? = some t := by
    intro t₁ htasks
    rw [htasks, List.getElem?_append_left (List.getElem?_eq_some_iff.mp hi).1]
    exact hi
  have hmoves := System.moves hs
  cases hmoves with
  | run _ _ _ => exact absurd rfl (hl _ _)
  | connect _ htasks => exact hspawn htasks
  | request _ htasks => exact hspawn htasks
  | force htasks => exact hspawn htasks
  | background _ htasks =>
    rw [htasks]
    exact hi
  | @receive j frame ses ses' conn hj hphase _ htasks =>
    rw [htasks]
    by_cases hij : i = j
    · subst hij
      rw [hi] at hj
      cases hj
      -- a session that waits for a frame is in no join
      rcases h.2 with ⟨p, hop⟩ | ⟨u, room, hop, -⟩
      · rw [hphase] at hop
        cases hop
      · rw [hphase] at hop
        cases hop
    · rw [List.getElem?_set_ne (Ne.symm hij)]
      exact hi

section Operations

variable {i : TaskId} {x : Choice} {t t' : Task} {room : RoomId}

/-- What was true of some task is true of it still, unless it is the task that has gone on. -/
theorem exists_after {P : Task → Prop} (hi : s.tasks[i]? = some t)
    (htasks : s'.tasks = s.tasks.set i t')
    (h : ∃ (j : TaskId) (u : Task), s.tasks[j]? = some u ∧ P u) :
    (∃ (j : TaskId) (u : Task), j ≠ i ∧ s'.tasks[j]? = some u ∧ P u) ∨ P t := by
  obtain ⟨j, u, hj, hu⟩ := h
  by_cases hji : j = i
  · subst hji
    rw [hi] at hj
    cases hj
    exact .inr hu
  · refine .inl ⟨j, u, hji, ?_, hu⟩
    rw [htasks, List.getElem?_set_ne (Ne.symm hji)]
    exact hj

/-- An operation that is none of a join. -/
theorem Serves.aside {op : Op} {r : Except Exn op.Resp} (h : s.Serves env t.activity.server)
    (howned : s.world.Owned) (hok : s.RedisAnswers (.run i x))
    (hstaffed : s.Staffed env (.run i x)) (hs : s.step env (.run i x) = some s')
    (hi : s.tasks[i]? = some t) (htasks : s'.tasks = s.tasks.set i t')
    (hhead : t.head? = some op)
    (hx : op.exec env t.activity.server i x s.world = some (r, s'.world)) (hop : op.Aside) :
    s'.Serves env t.activity.server := by
  have hb : (s.world.servers t.activity.server).broker.Keeps
      (s'.world.servers t.activity.server).broker := by
    rcases brokers_exec hx t.activity.server with ⟨o, rfl, -⟩ | hb
    · exact absurd hop id
    · exact hb
  have hstay : ∀ (j : TaskId) (u : Task) (ch : Channel), s.tasks[j]? = some u →
      u.Joining env t.activity.server ch → s'.tasks[j]? = some u := by
    intro j u ch hj hjoining
    have hji : j ≠ i := by
      rintro rfl
      rw [hi] at hj
      cases hj
      exact hjoining.not_aside hhead hop
    rw [htasks, List.getElem?_set_ne (Ne.symm hji)]
    exact hj
  have hprograms := h.programs_step hok hs (fun ch hch => by rw [hb.callbacks]; exact hch)
    fun j x u ch room hl hj _ hset => by
      cases hl
      rw [hi] at hj
      cases hj
      rw [hhead] at hset
      cases hset
      exact absurd hop id
  rcases managers_exec hx t.activity.server with ⟨maxsize, me, o, rfl, -, he⟩ | he
  · refine h.frame hb (fun room ⟨v, hv⟩ => ?_) (fun room ⟨v, hv⟩ => ?_) hstay hprograms
    · rw [he] at hv
      rcases occupiedBy_before (howned _) hv with hv | ⟨u, rfl⟩
      · exact ⟨v, hv⟩
      · exact absurd hop id
    · -- who goes out of a room leaves somebody behind
      rw [he]
      have hstays : ∀ v', (s.world.servers t.activity.server).manager.OccupiedBy v' room →
          ¬(s.world.servers t.activity.server).manager.Removes o v' room →
          (o.after maxsize me (s.world.servers t.activity.server).manager).Occupied room :=
        fun v' hv' hnot => ⟨v', occupiedBy_after (howned _) hv' hnot⟩
      by_cases hremoved : (s.world.servers t.activity.server).manager.Removes o v room
      · rcases hstaffed t o room hi hhead (.inl ⟨v, hv, hremoved⟩) with ⟨v', hv', hnot⟩ |
          ⟨j, t₁, -, hj, hjoining⟩
        · exact .inl (hstays v' hv' hnot)
        · exact .inr ⟨j, t₁, hstay j t₁ _ hj hjoining, hjoining⟩
      · exact .inl (hstays v hv hremoved)
  · refine h.frame hb (fun room hroom => ?_) (fun room hroom => .inl ?_) hstay hprograms
    · rw [he] at hroom
      exact hroom
    · rw [he]
      exact hroom

/-- The callback is set, and the session is waiting for the SUBSCRIBE. -/
theorem Serves.call {r : Except Exn (Option PubSubId)} {ses : Session}
    (h : s.Serves env t.activity.server) (hok : s.RedisAnswers (.run i x))
    (hs : s.step env (.run i x) = some s') (hi : s.tasks[i]? = some t)
    (htasks : s'.tasks = s.tasks.set i (.session ses))
    (hhead : t.head? = some (.broker (.setCallback (channelOf env room) room)))
    (hx : (Op.broker (.setCallback (channelOf env room) room)).exec env t.activity.server i x
      s.world = some (r, s'.world))
    (hserver : ses.server = t.activity.server)
    (hnext : ses.phase.head? = some (.broker (.subscribe 0 (channelOf env room)))) :
    s'.Serves env t.activity.server := by
  obtain ⟨-, hb, hm⟩ := exec_brokerOp hx
  have hpubsub : (s.world.servers t.activity.server).broker.pubsub.isSome = true := by
    rw [h.pubsub]
    rfl
  rw [BrokerOp.after, if_pos hpubsub] at hb
  have hself : s'.tasks[i]? = some (.session ses) := by
    rw [htasks]
    exact List.getElem?_set_self (List.getElem?_eq_some_iff.mp hi).1
  have hcalling : (Task.session ses).Calling t.activity.server (channelOf env room) :=
    ⟨hserver, hnext⟩
  have hkeys : ∀ ch, ch ∈ (s'.world.servers t.activity.server).broker.callbacks.keys ↔
      ch = channelOf env room ∨
        ch ∈ (s.world.servers t.activity.server).broker.callbacks.keys := by
    intro ch
    rw [hb]
    exact Dict.mem_keys_set
  -- the task was setting the callback, so it was no call that had set it
  have hnone : ∀ ch, ¬t.Joining env t.activity.server ch := by
    intro ch hjoining
    rcases hjoining.head with ⟨p, hop⟩ | ⟨u, room', hop, -⟩
    · cases hhead.symm.trans hop
    · cases hhead.symm.trans hop
  refine ⟨?_, ?_, fun ch hch => ?_, fun room' hroom => ?_, ?_, fun ch hch => ?_, fun ch hch => ?_,
    h.programs_step hok hs (fun ch hch => (hkeys ch).mpr (.inr hch))
      fun j x u ch room' hl hj _ hset => ?_⟩
  · rw [hb]
    exact h.pubsub
  · rw [hb]
    exact h.listens
  · rcases (hkeys ch).mp hch with rfl | hch
    · -- the new callback is needed by the join it is set for
      exact .inr ⟨i, _, hself, hcalling.joining⟩
    · rcases h.needed ch hch with hroom | hjoining
      · rw [hm]
        exact .inl hroom
      · rcases exists_after hi htasks hjoining with ⟨j, u, -, hj, hu⟩ | hjoining
        · exact .inr ⟨j, u, hj, hu⟩
        · exact absurd hjoining (hnone ch)
  · rw [hm] at hroom
    exact (hkeys _).mpr (.inr (h.called room' hroom))
  · rw [hb]
    exact h.dummy
  · rw [hb] at hch
    exact (h.known ch hch).imp_right fun hch => (hkeys ch).mpr (.inr hch)
  · rcases (hkeys ch).mp hch with rfl | hch
    · -- its channel is being subscribed to
      exact .inr ⟨i, _, hself, hcalling⟩
    · rw [hb]
      rcases h.reached ch hch with hin | hcalling'
      · exact .inl hin
      · rcases exists_after hi htasks hcalling' with ⟨j, u, -, hj, hu⟩ | hcalling'
        · exact .inr ⟨j, u, hj, hu⟩
        · exact absurd hcalling'.joining (hnone ch)
  · cases hl
    rw [hi] at hj
    cases hj
    rw [hhead] at hset
    cases hset
    exact (hkeys _).mpr (.inl rfl)

/-- The channel is subscribed to, and the session goes on to `join_room`. -/
theorem Serves.subscribe {r : Except Exn Unit} {ses : Session} {u : UserId}
    (h : s.Serves env t.activity.server) (hok : s.RedisAnswers (.run i x))
    (hs : s.step env (.run i x) = some s') (hi : s.tasks[i]? = some t)
    (htasks : s'.tasks = s.tasks.set i (.session ses))
    (hhead : t.head? = some (.broker (.subscribe 0 (channelOf env room))))
    (hx : (Op.broker (.subscribe 0 (channelOf env room))).exec env t.activity.server i x s.world =
      some (r, s'.world))
    (hcalled : channelOf env room ∈ (s.world.servers t.activity.server).broker.callbacks.keys)
    (hserver : ses.server = t.activity.server)
    (hnext : ses.phase.head? = some (.manager (.joinRoom u room))) :
    s'.Serves env t.activity.server := by
  obtain ⟨-, hb, hm⟩ := exec_brokerOp hx
  have hanswers : x.ok = true := hok t _ hi hhead trivial
  rw [BrokerOp.after, if_pos hanswers] at hb
  have hself : s'.tasks[i]? = some (.session ses) := by
    rw [htasks]
    exact List.getElem?_set_self (List.getElem?_eq_some_iff.mp hi).1
  -- what is left of the call is the join itself
  have hjoins : (Task.session ses).Joining env t.activity.server (channelOf env room) :=
    ⟨hserver, .inr ⟨u, room, hnext, rfl⟩⟩
  have hkeys : (s'.world.servers t.activity.server).broker.callbacks =
      (s.world.servers t.activity.server).broker.callbacks := by
    rw [hb]
    rfl
  have hchannels : ∀ ch, ch ∈ ((s'.world.servers t.activity.server).broker.heap 0).channels ↔
      ch = channelOf env room ∨
        ch ∈ ((s.world.servers t.activity.server).broker.heap 0).channels := by
    intro ch
    rw [hb, RedisBroker.mem_channels_addChannel]
    exact or_congr_left (and_iff_right rfl)
  refine ⟨?_, ?_, fun ch hch => ?_, fun room' hroom => ?_, (hchannels _).mpr (.inr h.dummy),
    fun ch hch => ?_, fun ch hch => ?_, h.programs_step hok hs (fun ch hch => hkeys ▸ hch)
      fun j x v ch room' hl hj _ hset => ?_⟩
  · rw [hb]
    exact h.pubsub
  · rw [hb]
    exact h.listens
  · rw [hkeys] at hch
    rw [hm]
    refine (h.needed ch hch).imp_right fun hjoining => ?_
    rcases exists_after hi htasks hjoining with ⟨j, v, -, hj, hv⟩ | hjoining
    · exact ⟨j, v, hj, hv⟩
    · -- the session is still on its way
      rcases hjoining.head with ⟨p, hop⟩ | ⟨v, room', hop, -⟩
      · cases hhead.symm.trans hop
        exact ⟨i, _, hself, hjoins⟩
      · cases hhead.symm.trans hop
  · rw [hm] at hroom
    rw [hkeys]
    exact h.called room' hroom
  · rw [hkeys]
    rcases (hchannels ch).mp hch with rfl | hch
    · exact .inr hcalled
    · exact h.known ch hch
  · rw [hkeys] at hch
    rcases h.reached ch hch with hin | hcalling
    · exact .inl ((hchannels ch).mpr (.inr hin))
    · rcases exists_after hi htasks hcalling with ⟨j, v, -, hj, hv⟩ | hcalling
      · exact .inr ⟨j, v, hj, hv⟩
      · -- the channel that was being subscribed to is subscribed to now
        cases hhead.symm.trans hcalling.head
        exact .inl ((hchannels _).mpr (.inl rfl))
  · cases hl
    rw [hi] at hj
    cases hj
    rw [hhead] at hset
    cases hset

/-- The join is made, or finds nobody to put into the room. -/
theorem Serves.join {r : Except Exn Unit} {u : UserId} (h : s.Serves env t.activity.server)
    (howned : s.world.Owned) (hok : s.RedisAnswers (.run i x))
    (hstaffed : s.Staffed env (.run i x)) (hs : s.step env (.run i x) = some s')
    (hi : s.tasks[i]? = some t) (htasks : s'.tasks = s.tasks.set i t')
    (hhead : t.head? = some (.manager (.joinRoom u room)))
    (hx : (Op.manager (.joinRoom u room)).exec env t.activity.server i x s.world =
      some (r, s'.world))
    (hcalled : channelOf env room ∈ (s.world.servers t.activity.server).broker.callbacks.keys) :
    s'.Serves env t.activity.server := by
  obtain ⟨-, hm⟩ := exec_managerOp hx
  have hb : (s.world.servers t.activity.server).broker.Keeps
      (s'.world.servers t.activity.server).broker := by
    rcases brokers_exec hx t.activity.server with ⟨o, heq, -⟩ | hb
    · cases heq
    · exact hb
  have hstays : ∀ room', (s.world.servers t.activity.server).manager.Occupied room' →
      (s'.world.servers t.activity.server).manager.Occupied room' := by
    rintro room' ⟨v, hv⟩
    rw [hm]
    exact ⟨v, occupiedBy_after (howned _) hv id⟩
  have hnone : ∀ ch, ¬t.Calling t.activity.server ch := by
    intro ch hcalling
    cases hhead.symm.trans hcalling.head
  -- a join leaves the broker alone: what is left to show is that its room is still needed
  refine ⟨hb.pubsub.trans h.pubsub, hb.listens h.listens, fun ch hch => ?_, fun room' hroom => ?_,
    ?_, fun ch hch => ?_, fun ch hch => ?_, h.programs_step hok hs (fun ch hch => ?_)
      fun j x v ch room' hl hj _ hset => ?_⟩
  · rw [hb.callbacks] at hch
    rcases h.needed ch hch with ⟨room', hroom, rfl⟩ | hjoining
    · exact .inl ⟨room', hstays room' hroom, rfl⟩
    · rcases exists_after hi htasks hjoining with ⟨j, v, -, hj, hv⟩ | hjoining
      · exact .inr ⟨j, v, hj, hv⟩
      · -- the room of the join itself
        rcases hjoining.head with ⟨p, hop⟩ | ⟨v, room', hop, rfl⟩
        · cases hhead.symm.trans hop
        · cases hhead.symm.trans hop
          cases hget : (s.world.servers t.activity.server).manager.connections.get? u with
          | some conn =>
            refine .inl ⟨room, ⟨u, ?_⟩, rfl⟩
            rw [hm]
            exact occupiedBy_joinRoom hget
          | none =>
            -- the join finds nobody: somebody else needs the callback
            rcases hstaffed t _ room hi hhead (.inr ⟨u, rfl, hget⟩) with ⟨v, hv, -⟩ |
              ⟨j, t₁, hji, hj, hjoining'⟩
            · exact .inl ⟨room, hstays room ⟨v, hv⟩, rfl⟩
            · refine .inr ⟨j, t₁, ?_, hjoining'⟩
              rw [htasks, List.getElem?_set_ne (Ne.symm hji)]
              exact hj
  · rw [hb.callbacks]
    obtain ⟨v, hv⟩ := hroom
    rw [hm] at hv
    rcases occupiedBy_before (howned _) hv with hv | ⟨v', heq⟩
    · exact h.called room' ⟨v, hv⟩
    · cases heq
      exact hcalled
  · rw [hb.channels]
    exact h.dummy
  · rw [hb.channels] at hch
    rw [hb.callbacks]
    exact h.known ch hch
  · rw [hb.callbacks] at hch
    rw [hb.channels]
    refine (h.reached ch hch).imp_right fun hcalling => ?_
    rcases exists_after hi htasks hcalling with ⟨j, v, -, hj, hv⟩ | hcalling
    · exact ⟨j, v, hj, hv⟩
    · exact absurd hcalling (hnone ch)
  · rw [hb.callbacks]
    exact hch
  · cases hl
    rw [hi] at hj
    cases hj
    rw [hhead] at hset
    cases hset

/-- **An operation of the instance's own.** -/
theorem Serves.run (h : s.Serves env t.activity.server) (howned : s.world.Owned)
    (hok : s.RedisAnswers (.run i x)) (hstaffed : s.Staffed env (.run i x))
    (hs : s.step env (.run i x) = some s') (hi : s.tasks[i]? = some t)
    (ht : t.step env i x s.world = some (t', s'.world)) (htasks : s'.tasks = s.tasks.set i t') :
    s'.Serves env t.activity.server := by
  obtain ⟨op, r, st, st', hhead, hx, hcalled, hmove, hnext⟩ :=
    Task.joins_step (h.programs i t hi rfl) ht fun op r hop hx =>
      granted_exec h.pubsub (hok t op hi hop) hx
  cases hmove with
  | aside hop => exact h.aside howned hok hstaffed hs hi htasks hhead hx hop
  | call _ =>
    obtain ⟨ses, rfl, hserver, op', hop', rfl⟩ := hnext (by rintro ⟨⟩)
    exact h.call hok hs hi htasks hhead hx hserver hop'
  | subscribe =>
    obtain ⟨ses, rfl, hserver, op', hop', u, rfl⟩ := hnext (by rintro ⟨⟩)
    exact h.subscribe hok hs hi htasks hhead hx hcalled.2 hserver hop'
  | join => exact h.join howned hok hstaffed hs hi htasks hhead hx hcalled.2

end Operations

theorem serves_step (h : ∀ srv, s.Serves env srv) (howned : s.world.Owned)
    (hC : s.NoRedisError l ∧ s.Staffed env l) (hs : s.step env l = some s') (srv : ServerId) :
    s'.Serves env srv := by
  obtain ⟨⟨hok, hfail⟩, hstaffed⟩ := hC
  by_cases hl : ∃ i x, l = .run i x
  · obtain ⟨i, x, rfl⟩ := hl
    have hmoves := System.moves hs
    cases hmoves with
    | background hl _ => exact absurd hl id
    | @run _ _ t t' hi ht htasks =>
      by_cases hsrv : t.activity.server = srv
      · subst hsrv
        exact (h _).run howned hok hstaffed hs hi ht htasks
      · obtain ⟨op, r, -, hx⟩ := Task.step_exec ht
        have hb : (s.world.servers srv).broker.Keeps (s'.world.servers srv).broker := by
          rcases brokers_exec hx srv with ⟨o, -, heq, -⟩ | hb
          · exact absurd heq.symm hsrv
          · exact hb
        have hsame : SameSessions (s.world.servers srv).manager
            (s'.world.servers srv).manager := by
          rcases managers_exec hx srv with ⟨_, _, o, -, heq, -⟩ | he
          · exact absurd heq.symm hsrv
          · rw [he]
            exact .refl _
        refine (h srv).other hok hs hb hsame (fun j u ch hj hjoining => ?_) fun j x u hl hj => ?_
        · have hji : j ≠ i := by
            rintro rfl
            rw [hi] at hj
            cases hj
            cases t with
            | session ses => exact hsrv hjoining.1
            | request _ _ => exact hjoining
            | forced _ _ _ => exact hjoining
          rw [htasks, List.getElem?_set_ne (Ne.symm hji)]
          exact hj
        · cases hl
          rw [hi] at hj
          cases hj
          exact hsrv
  · have hl' : ∀ i x, l ≠ .run i x := fun i x he => hl ⟨i, x, he⟩
    have hpubsub : (s.world.servers srv).broker.pubsub ≠ none := by
      rw [(h srv).pubsub]
      exact Option.some_ne_none 0
    exact (h srv).other hok hs (keeps_env hl' hfail hs srv hpubsub (h srv).listens)
      (sameSessions_env hl' hs srv) (fun _ _ _ hj hjoining => joining_stays hl' hs hj hjoining)
      fun i x _ heq => absurd heq (hl' i x)

theorem serves_init {t : Tables} : (System.init t).Serves env srv where
  pubsub := rfl
  listens := .inl rfl
  needed ch hch := by cases hch
  called room := by
    rintro ⟨u, conn, hget, -⟩
    cases hget
  dummy := RedisBroker.mem_channels_addChannel.mpr (.inl ⟨rfl, rfl⟩)
  known ch hch := by
    rcases RedisBroker.mem_channels_addChannel.mp hch with ⟨-, rfl⟩ | hch
    · exact .inl rfl
    · cases hch
  reached ch hch := by cases hch
  programs i t hi := by cases hi

theorem serves_reach {t : Tables}
    (hr : Reach (System.step env) (fun s l => s.NoRedisError l ∧ s.Staffed env l) (.init t) s)
    (srv : ServerId) : s.Serves env srv := by
  induction hr generalizing srv with
  | init => exact serves_init
  | tail hr hC hs ih => exact serves_step ih (System.owning_reach hr).owned hC hs srv

/-! ### When no session is suspended midway -/

/-- Every session of the instance waits for a frame, or has ended. -/
def Idle (s : System) (srv : ServerId) : Prop :=
  ∀ (i : TaskId) (ses : Session), s.tasks[i]? = some (.session ses) → ses.server = srv →
    (∃ conn, ses.phase = .receiving conn) ∨ ses.phase = .ended

/-- Every session of the instance has ended. -/
def Ended (s : System) (srv : ServerId) : Prop :=
  ∀ (i : TaskId) (ses : Session), s.tasks[i]? = some (.session ses) → ses.server = srv →
    ses.phase = .ended

/-- The instance has callbacks for these channels, and is subscribed to these and the dummy. -/
structure SubscribedTo (s : System) (srv : ServerId) (channels : Set Channel) : Prop where
  callbacks : ∀ ch, ch ∈ (s.world.servers srv).broker.callbacks.keys ↔ ch ∈ channels
  pubsub : ∃ p, (s.world.servers srv).broker.pubsub = some p ∧
    ∀ ch, ch ∈ ((s.world.servers srv).broker.heap p).channels ↔
      ch = RedisBroker.dummyChannel ∨ ch ∈ channels

/-- The channels of the rooms that a connection registered on the instance has. -/
def roomChannels (env : Env) (s : System) (srv : ServerId) : Set Channel :=
  {ch | ∃ room, (s.world.servers srv).manager.Occupied room ∧ ch = channelOf env room}

theorem Serves.subscribedTo (h : s.Serves env srv) (hidle : s.Idle srv) :
    s.SubscribedTo srv (s.roomChannels env srv) := by
  have hnone : ∀ ch, ¬∃ (i : TaskId) (t : Task), s.tasks[i]? = some t ∧ t.Joining env srv ch := by
    rintro ch ⟨i, t, hi, hjoining⟩
    cases t with
    | request _ _ => exact hjoining
    | forced _ _ _ => exact hjoining
    | session ses =>
      -- a session that is idle has nothing to perform
      have hhead : ses.phase.head? = none := by
        rcases hidle i ses hi hjoining.1 with ⟨conn, hphase⟩ | hphase
        · rw [hphase]
          rfl
        · rw [hphase]
          rfl
      rcases hjoining.2 with ⟨p, hop⟩ | ⟨u, room, hop, -⟩
      · cases hhead.symm.trans hop
      · cases hhead.symm.trans hop
  have hcallbacks : ∀ ch, ch ∈ (s.world.servers srv).broker.callbacks.keys ↔
      ch ∈ s.roomChannels env srv := by
    intro ch
    constructor
    · intro hch
      exact (h.needed ch hch).resolve_right (hnone ch)
    · rintro ⟨room, hroom, rfl⟩
      exact h.called room hroom
  refine ⟨hcallbacks, 0, h.pubsub, fun ch => ?_⟩
  rw [← hcallbacks]
  constructor
  · exact h.known ch
  · rintro (rfl | hch)
    · exact h.dummy
    · exact (h.reached ch hch).resolve_right fun ⟨i, t, hi, hcalling⟩ =>
        hnone ch ⟨i, t, hi, hcalling.joining⟩

/-- **The channels subscribed to are those of the rooms somebody is in**, whenever no session of the
instance is suspended midway, and there are none when all its sessions have ended. -/
theorem subscriptions_exact {t : Tables}
    (hr : Reach (System.step env) (fun s l => s.NoRedisError l ∧ s.Staffed env l) (.init t) s)
    (hidle : s.Idle srv) :
    s.SubscribedTo srv (s.roomChannels env srv) ∧ (s.Ended srv → s.SubscribedTo srv ∅) := by
  have hexact := (serves_reach hr srv).subscribedTo hidle
  refine ⟨hexact, fun hended => ?_⟩
  have hempty : s.roomChannels env srv = ∅ := by
    rw [Set.eq_empty_iff_forall_notMem]
    rintro ch ⟨room, ⟨u, conn, hget, -⟩, -⟩
    have hanswers : Reach (System.step env) RedisAnswers (.init t) s :=
      hr.mono fun _ _ hC => hC.1.1
    rw [unregistered_of_ended hanswers hended u] at hget
    cases hget
  rw [← hempty]
  exact hexact

end Runs

/-! ### The last to leave a room -/

namespace Sample

open Clocked.Sample

def second : UserId := "00000000-0000-0000-0000-000000000002"

/-- User 2 is a member of room 3, too. -/
def shared : Tables :=
  { Tables.sample with
    roomMembers := Tables.sample.roomMembers.insert ⟨2, 3, 2, .member, Env.newYear⟩ }

/-- Users 1 and 2 join room 3, and user 1 leaves it. -/
def relieved : List Label :=
  enters 0 0 ++ handles 0 (about "join_room" []) 15 ++ (.connect 0 second "u2" :: goes 1 3) ++
    handles 1 (about "join_room" []) 16 ++ handles 0 (about "leave_room" []) 4

/-- Nothing Redis is asked fails. -/
def answered : Label → Bool
  | .run _ x => x.ok
  | .listener _ .fail => false
  | _ => true

/-- Who leaves a room leaves another user there, and who joins is registered; nobody is
unregistered. -/
def attended (m : ConnectionManager Delivery) : ManagerOp Delivery → Bool
  | .leaveRoom u (.str room) => m.connections.keys.any fun v =>
      v ≠ u && (m.connections.get? v).any fun conn => room ∈ (m.heap conn).rooms
  | .joinRoom u _ => (m.connections.get? u).isSome
  | .disconnectLocked _ | .forceCleanup _ | .replace _ _ _ => false
  | _ => true

def staffed (s : System) (l : Label) : Bool :=
  answered l && match l with
    | .run i _ => (s.tasks[i]?).all fun t => t.head?.all fun
      | .manager o => attended (s.world.servers t.activity.server).manager o
      | _ => true
    | _ => true

/-- The session waits for a frame, or has ended. -/
def rests : Phase → Bool
  | .receiving _ | .ended => true
  | _ => false

def waits (s : System) : Bool := s.tasks.all fun
  | .session ses => rests ses.phase
  | _ => true

theorem stays_of_attended {m : ConnectionManager Delivery} {o : ManagerOp Delivery} {room : RoomId}
    (h : attended m o = true) (hv : m.Vacates o room) :
    ∃ v, m.OccupiedBy v room ∧ ¬m.Removes o v room := by
  rcases hv with ⟨v, -, hv⟩ | ⟨u, rfl, hnone⟩
  · cases o with
    | leaveRoom u room_id =>
      obtain ⟨rfl, rfl⟩ := hv
      obtain ⟨v', -, hv'⟩ := List.any_eq_true.mp h
      obtain ⟨hne, hin⟩ := (Bool.and_eq_true _ _).mp hv'
      obtain ⟨conn, hget, hroom⟩ := (Option.any_eq_true _ _).mp hin
      exact ⟨v', ⟨conn, hget, of_decide_eq_true hroom⟩, fun hr => of_decide_eq_true hne hr.1⟩
    | disconnectLocked u => cases h
    | forceCleanup c => cases h
    | replace old u name => cases h
    | _ => exact absurd hv id
  · rw [attended, hnone] at h
    cases h

theorem answered_iff (s : System) (l : Label) (h : answered l = true) : s.NoRedisError l := by
  cases l with
  | run i x => exact ⟨redisAnswers_of_ok h, fun srv he => by cases he⟩
  | listener srv e =>
    refine ⟨trivial, fun other he => ?_⟩
    cases he
    cases h
  | _ => exact ⟨trivial, fun srv he => by cases he⟩

theorem staffed_iff (s : System) (l : Label) (h : staffed s l = true) :
    s.NoRedisError l ∧ s.Staffed .sample l := by
  obtain ⟨hanswered, hstaffed⟩ := (Bool.and_eq_true _ _).mp h
  refine ⟨answered_iff s l hanswered, ?_⟩
  cases l with
  | run i x =>
    intro t o room hi hhead hv
    simp only [hi, Option.all_some, hhead] at hstaffed
    exact .inl (stays_of_attended hstaffed hv)
  | _ => trivial

theorem idle_of_waits {s : System} {srv : ServerId} (h : waits s = true) : s.Idle srv := by
  intro i ses hi _
  have hrests : rests ses.phase = true := List.all_eq_true.mp h _ (List.mem_of_getElem? hi)
  cases hphase : ses.phase with
  | receiving conn => exact .inl ⟨conn, rfl⟩
  | ended => exact .inr rfl
  | _ =>
    rw [hphase] at hrests
    cases hrests

end Sample

set_option maxRecDepth 20000 in
open System.Sample Clocked.Sample in
/-- User 1 leaves a room with another user in it, and the subscription stays. -/
theorem subscriptions_exact_relieved : ∃ s, Reach (System.step .sample)
    (fun s l => s.NoRedisError l ∧ s.Staffed .sample l) (.init shared) s ∧
      (s.world.servers 0).broker.callbacks.keys = [roomThree] ∧
        s.SubscribedTo 0 (s.roomChannels .sample 0) := by
  have hrun : ((replayIf (System.step .sample) staffed relieved (.init shared)).any fun s =>
      waits s && (s.world.servers 0).broker.callbacks.keys = [roomThree]) = true := by
    decide +kernel
  obtain ⟨s, hs, htest⟩ := (Option.any_eq_true _ _).mp hrun
  obtain ⟨hwaits, hkeys⟩ := (Bool.and_eq_true _ _).mp htest
  have hr := Reach.of_replayIf staffed_iff .init hs
  exact ⟨s, hr, of_decide_eq_true hkeys, (subscriptions_exact hr (idle_of_waits hwaits)).1⟩

set_option maxRecDepth 20000 in
open System.Sample Clocked.Sample in
/-- **The subscription outlives the last connection in the room**: nobody is registered, every call
of Redis has been answered, and the instance is subscribed to a room. -/
theorem not_subscriptions_exact : ¬∀ (env : Env) (t : Tables) (s : System) (srv : ServerId),
    Reach (System.step env) NoRedisError (.init t) s → s.Idle srv →
    s.SubscribedTo srv (s.roomChannels env srv) ∧ (s.Ended srv → s.SubscribedTo srv ∅) := by
  intro hall
  have hrun : ((replayIf (System.step .sample) (fun _ => answered) visits
      (.init .sample)).any fun s => waits s && ((s.world.servers 0).manager.connections.keys = [] &&
        (s.world.servers 0).broker.callbacks.keys = [roomThree])) = true := by
    decide +kernel
  obtain ⟨s, hs, htest⟩ := (Option.any_eq_true _ _).mp hrun
  obtain ⟨hwaits, htest⟩ := (Bool.and_eq_true _ _).mp htest
  obtain ⟨hnobody, hkeys⟩ := (Bool.and_eq_true _ _).mp htest
  have hr := Reach.of_replayIf answered_iff .init hs
  have hexact := (hall _ _ s 0 hr (idle_of_waits hwaits)).1
  have hin : roomThree ∈ (s.world.servers 0).broker.callbacks.keys := by
    rw [of_decide_eq_true hkeys]
    exact List.mem_singleton_self _
  -- somebody would have the room
  obtain ⟨room, ⟨u, conn, hget, -⟩, -⟩ := (hexact.callbacks roomThree).mp hin
  have hregistered := Dict.mem_keys.mpr ⟨conn, hget⟩
  rw [of_decide_eq_true hnobody] at hregistered
  cases hregistered

end System

end NexusChat
