import NexusChat.Api.OnlineView
import NexusChat.Lib.Replica

/-!
# The online list of a client

A client that joins a room is told who is in it, by `online_users`, and from then on who comes and
goes, by the presence payloads. Its list is a copy of the presence set, kept by a snapshot and
events: the queue of events is what its instance has not handed out, and an entry is owed while a
handler has written a status that it has not published.

The snapshot is read some time before it is queued. What the client is told of a change in between
it forgets when the list arrives, and two handlers of one user may publish in another order than
they wrote. `InOrder` says of a step that it does neither; under it the list comes to what the
presence set holds.
-/

set_option autoImplicit false

namespace NexusChat

namespace Attendance

open WebSocketConnection ConnectionManager

variable {env : Env} {room_id : RoomId} {start : Time} {u v : UserId} {srv : ServerId}

/-! ## The runs -/

/-- A status of the user is in the presence set and has not been published. -/
def Owes (s : Attendance) (v : UserId) : Prop :=
  ∃ (j : TaskId) (c : Call), s.calls[j]? = some c ∧ c.userId = v ∧ c.owes ≠ none

/-- So it is by another call than call `i`. -/
def OthersOwe (s : Attendance) (i : TaskId) (v : UserId) : Prop :=
  ∃ (j : TaskId) (c : Call), j ≠ i ∧ s.calls[j]? = some c ∧ c.userId = v ∧ c.owes ≠ none

/-- A join of the user has queued its list. -/
def Listed (u : UserId) (s : Attendance) : Prop := ∃ c ∈ s.calls, c.userId = u ∧ c.listed = true

/-- The queue of the user's connection takes one more payload. -/
def HasSpace (env : Env) (u : UserId) (srv : ServerId) (s : Attendance) : Prop :=
  ∀ c, s.conn srv u = some c →
    full env.maxSendQueueSize ((s.world.servers srv).manager.heap c).sendQueue = false

/-- The user joins on one instance and does not leave, the others do as they like; nothing fails,
no queue of the user's is full and nobody refuses them; and all is done within the timeout from
`start` on. -/
def Undisturbed (env : Env) (room_id : RoomId) (start : Time) (u : UserId) (srv : ServerId)
    (s : Attendance) : Label → Prop
  | .connect _ _ _ => True
  | .join σ v _ => v = u → σ = srv
  | .leave _ v _ => v ≠ u
  | .run i x => x.ok = true ∧
      (∀ p, (s.world.servers srv).broker.pubsub = some p → x.received srv p = true) ∧
      start ≤ x.now ∧ x.now < start + env.presenceTimeout ∧
      ∀ c d, s.calls[i]? = some c → c.userId = u →
        c.prog.head? = some (.manager (.sendToUser u d)) →
        d.message.event ≠ "error" ∧ s.HasSpace env u srv
  | .listener _ .begin => True
  | .listener σ (.receive _) => σ = srv →
      u ∈ (s.world.servers srv).manager.getRoomUserIds room_id → s.HasSpace env u srv
  | .listener _ _ => False
  | .sendTake σ c =>
    ((s.world.servers σ).manager.heap c).websocket = ⟨.connected, .connected⟩
  | .sendDone _ _ ok _ => ok = true

/-- Two kinds of step can set the list of the user wrong. A call that publishes a status, the list
being queued, must publish the one its user has, unless another call has one of theirs to publish.
And when the list is queued, whoever has no status to be published must be in the room if the last
event of theirs under way says so, or, without one, if they were in the set that was read. -/
def InOrder (env : Env) (room_id : RoomId) (u : UserId) (srv : ServerId) (s : Attendance) :
    Label → Prop
  | .run i _ => ∀ c, s.calls[i]? = some c →
      (∀ ch message online, c.prog.head? = some (.publish ch message) → c.owes = some online →
        s.Listed u → ¬s.OthersOwe i c.userId → online = present env room_id s.world c.userId) ∧
      ∀ members d, c.userId = u → c.seen = some members →
        c.prog.head? = some (.manager (.sendToUser u d)) →
        ∀ v, ¬s.Owes v → Replica.settle (transit env room_id (s.world.servers srv).broker)
          (fun a => (members.get? a).isSome) v = present env room_id s.world v
  | _ => True

/-! ## What holds throughout -/

/-- The user is connected to the instance, it is subscribed to the channel, its callback is the
room's, and the user is in the room. -/
structure Receives (env : Env) (room_id : RoomId) (u : UserId) (srv : ServerId) (w : World) :
    Prop where
  conn : ((w.servers srv).manager.connections.get? u).isSome = true
  room : u ∈ (w.servers srv).manager.getRoomUserIds room_id
  callback : (w.servers srv).broker.callbacks.get? (channel env room_id) = some room_id
  subscribed : channel env room_id ∈ ((w.servers srv).broker.heap 0).channels

/-- As far as a join of the user has come, so much of it is true; and the user's calls are joins
that are not refused. -/
def Placed (env : Env) (room_id : RoomId) (u : UserId) (srv : ServerId) (w : World) :
    Stage → Prop
  | .joining => ((w.servers srv).manager.connections.get? u).isSome = true
  | .called => ((w.servers srv).manager.connections.get? u).isSome = true ∧
      (w.servers srv).broker.callbacks.get? (channel env room_id) = some room_id
  | .subscribed => ((w.servers srv).manager.connections.get? u).isSome = true ∧
      (w.servers srv).broker.callbacks.get? (channel env room_id) = some room_id ∧
      channel env room_id ∈ ((w.servers srv).broker.heap 0).channels
  | .inside | .wrote true | .announced | .read _ | .listed => Receives env room_id u srv w
  | .refused | .leaving | .wrote false | .left => False

/-- What a call is at its end: it owes nothing, and has queued the list if it is the user's. -/
def Ends (u v : UserId) (r : Except Exn Unit) (st : Stage) : Prop :=
  st.owes = none ∧ (v = u → r = .ok () → st = .listed ∨ st = .refused)

/-- A call is at a stage. `synced` says that the list has been queued. -/
structure At (env : Env) (room_id : RoomId) (start : Time) (u : UserId) (srv : ServerId)
    (synced : Prop) (w : World) (c : Call) (st : Stage) : Prop where
  keeps : Keeps env room_id start c.userId (Ends u c.userId) c.prog st
  owes : c.owes = st.owes
  seen : ∀ ids, st = .read ids → ids.Nodup ∧
    ∃ members, c.seen = some members ∧ ∀ v, v ∈ ids ↔ (members.get? v).isSome = true
  mine : c.userId = u → c.server = srv ∧ Placed env room_id u srv w st ∧ (st = .listed → synced)

/-- **The invariant.** -/
structure Inv (env : Env) (room_id : RoomId) (start : Time) (u : UserId) (srv : ServerId)
    (c₀ : Client) (synced : Prop) (s : Attendance) : Prop where
  sound : Sound env room_id start srv s.world
  calls : ∀ (i : TaskId) (c : Call), s.calls[i]? = some c →
    ∃ st, At env room_id start u srv synced s.world c st
  listed : synced → s.Listed u
  receives : synced → Receives env room_id u srv s.world
  noDuplicates : synced → NoDuplicates room_id (client u c₀ (s.world.servers srv).manager)
  converges : synced → Replica.Converges (present env room_id s.world) s.Owes
    (transit env room_id (s.world.servers srv).broker)
    (shown room_id (client u c₀ (s.world.servers srv).manager))

/-- What a session has achieved stays. -/
structure Lasts (env : Env) (room_id : RoomId) (u : UserId) (srv : ServerId) (w w' : World) :
    Prop where
  conn : ((w.servers srv).manager.connections.get? u).isSome = true →
    ((w'.servers srv).manager.connections.get? u).isSome = true
  room : u ∈ (w.servers srv).manager.getRoomUserIds room_id →
    u ∈ (w'.servers srv).manager.getRoomUserIds room_id
  callback : (w.servers srv).broker.callbacks.get? (channel env room_id) = some room_id →
    (w'.servers srv).broker.callbacks.get? (channel env room_id) = some room_id
  subscribed : channel env room_id ∈ ((w.servers srv).broker.heap 0).channels →
    channel env room_id ∈ ((w'.servers srv).broker.heap 0).channels

section Stages

variable {synced synced' : Prop} {s s' : Attendance} {w w' : World} {σ : ServerId} {i : TaskId}
  {c : Call} {st st' : Stage} {op : Op} {r : Except Exn op.Resp} {me : TaskId} {x : Choice}

theorem Calm.lasts (h : Calm env room_id u srv w w') : Lasts env room_id u srv w w' where
  conn := fun hc => by
    obtain ⟨c, hc⟩ := Option.isSome_iff_exists.mp hc
    exact Option.isSome_iff_exists.mpr ⟨c, h.manager.conn c hc⟩
  room := h.manager.room
  callback := h.broker.callback
  subscribed := h.broker.subscribed

theorem Lasts.trans {w'' : World} (h : Lasts env room_id u srv w w')
    (h' : Lasts env room_id u srv w' w'') : Lasts env room_id u srv w w'' :=
  ⟨h'.conn ∘ h.conn, h'.room ∘ h.room, h'.callback ∘ h.callback, h'.subscribed ∘ h.subscribed⟩

theorem Lasts.receives (h : Lasts env room_id u srv w w') (hr : Receives env room_id u srv w) :
    Receives env room_id u srv w' :=
  ⟨h.conn hr.conn, h.room hr.room, h.callback hr.callback, h.subscribed hr.subscribed⟩

theorem Lasts.placed (h : Lasts env room_id u srv w w') (hp : Placed env room_id u srv w st) :
    Placed env room_id u srv w' st := by
  cases st with
  | joining => exact h.conn hp
  | called => exact ⟨h.conn hp.1, h.callback hp.2⟩
  | subscribed => exact ⟨h.conn hp.1, h.callback hp.2.1, h.subscribed hp.2.2⟩
  | inside | announced | read _ | listed => exact h.receives hp
  | wrote online =>
    cases online with
    | true => exact h.receives hp
    | false => exact hp
  | refused | leaving | left => exact hp

theorem At.lasts (h : At env room_id start u srv synced w c st) (hl : Lasts env room_id u srv w w')
    (hs : synced → synced') : At env room_id start u srv synced' w' c st where
  keeps := h.keeps
  owes := h.owes
  seen := h.seen
  mine := fun hu => by
    obtain ⟨hserver, hplaced, hlisted⟩ := h.mine hu
    exact ⟨hserver, hl.placed hplaced, fun hst => hs (hlisted hst)⟩

/-- A join of the user gets one step further. -/
theorem placed_move (hmove : Moves env room_id start u st op r st')
    (hx : op.exec env srv me x w = some (r, w')) (hok : x.ok = true)
    (hplain : Plain (w.servers srv).broker) (hl : Lasts env room_id u srv w w')
    (hp : Placed env room_id u srv w st) (hst : st' ≠ .refused) :
    Placed env room_id u srv w' st' := by
  cases hmove with
  | verify => exact hl.placed hp
  | refuse _ => exact absurd rfl hst
  | close | exit | depart | takeLeave => exact absurd hp id
  | setCallback =>
    refine ⟨hl.conn hp, ?_⟩
    obtain ⟨-, rfl⟩ := Op.world_broker hx
    rw [World.broker_setBroker, if_pos rfl]
    simp [BrokerOp.after, hplain.pubsub]
  | subscribe =>
    refine ⟨hl.conn hp.1, hl.callback hp.2, ?_⟩
    obtain ⟨-, rfl⟩ := Op.world_broker hx
    rw [World.broker_setBroker, if_pos rfl, hok]
    exact RedisBroker.mem_channels_addChannel.mpr (Or.inl ⟨rfl, rfl⟩)
  | enter =>
    refine ⟨hl.conn hp.1, ?_, hl.callback hp.2.1, hl.subscribed hp.2.2⟩
    obtain ⟨-, rfl⟩ := Op.world_manager hx
    rw [World.manager_setManager, if_pos rfl]
    exact mem_getRoomUserIds_joinRoom.mpr
      (Or.inr ⟨rfl, rfl, Option.isSome_iff_exists.mp hp.1⟩)
  | joinClock | arrive _ | setName | announce | listClock | expire _ | read _ | getName | list =>
    exact hl.receives hp

/-- What a call owes is recorded. -/
theorem owes_record (hmove : Moves env room_id start v st op r st') (h : c.owes = st.owes) :
    (c.record w op).owes = st'.owes := by
  cases hmove with
  | verify | refuse _ | close | setCallback | subscribe | enter | joinClock | setName | listClock
  | expire _ | read _ | getName | list | exit => exact h
  | arrive _ | announce | depart | takeLeave => rfl

theorem userId_record : (c.record w op).userId = c.userId := by
  unfold Call.record
  split <;> rfl

theorem server_record : (c.record w op).server = c.server := by
  unfold Call.record
  split <;> rfl

/-- A call that owes a status owes one until it publishes. -/
theorem owes_move (hmove : Moves env room_id start v st op r st')
    (hpublish : ∀ ch message, op ≠ .publish ch message) (h : st'.owes = none) :
    st.owes = none := by
  cases hmove with
  | announce => exact absurd rfl (hpublish _ _)
  | takeLeave => exact absurd rfl (hpublish _ _)
  | arrive _ | depart | setName => cases h
  | _ => rfl

/-- The list that is read is the presence set. -/
theorem seen_move (hmove : Moves env room_id start v st op r st')
    (hx : op.exec env σ me x w = some (r, w')) (hsound : Sound env room_id start srv w)
    (h : ∀ ids, st = .read ids → ids.Nodup ∧
      ∃ members, c.seen = some members ∧ ∀ a, a ∈ ids ↔ (members.get? a).isSome = true)
    {ids : List UserId} (hst : st' = .read ids) : ids.Nodup ∧
      ∃ members, (c.record w op).seen = some members ∧
        ∀ a, a ∈ ids ↔ (members.get? a).isSome = true := by
  cases hmove with
  | @read min ids hmin =>
    cases hst
    have hids : ids = w.redis.answer (.zrangebyscore (key env room_id) min) := by
      simp only [Op.exec, Option.some.injEq, Prod.mk.injEq] at hx
      have hanswer := hx.1
      split at hanswer
      · exact (Except.ok.inj hanswer).symm
      · cases hanswer
    rw [hids]
    refine ⟨PresenceService.nodup_zrangebyscore, _, rfl, fun a => ?_⟩
    rw [PresenceService.mem_zrangebyscore]
    constructor
    · rintro ⟨t, ht, -⟩
      exact Option.isSome_iff_exists.mpr ⟨t, ht⟩
    · intro ha
      obtain ⟨t, ht⟩ := Option.isSome_iff_exists.mp ha
      exact ⟨t, ht, hmin.trans (Int.ofNat_le.mpr (hsound.recent a t ht))⟩
  | getName => exact h ids hst
  | _ => cases hst

/-- **A call that performs an operation** is at the next stage. -/
theorem At.next (h : At env room_id start u srv synced w c st)
    (hmove : Moves env room_id start c.userId st op r st')
    (hx : op.exec env c.server me x w = some (r, w')) (hok : x.ok = true)
    (hsound : Sound env room_id start srv w) {p : Prog Unit}
    (hp : Keeps env room_id start c.userId (Ends u c.userId) p st')
    (hl : Lasts env room_id u srv w w')
    (hmine : c.userId = u → st' ≠ .refused ∧ (st' = .listed → synced')) :
    At env room_id start u srv synced' w' { c.record w op with prog := p } st' where
  keeps := by
    change Keeps env room_id start (c.record w op).userId (Ends u (c.record w op).userId) p st'
    rw [userId_record]
    exact hp
  owes := owes_record hmove h.owes
  seen := fun ids hst => seen_move hmove hx hsound h.seen hst
  mine := fun hu => by
    have hu : c.userId = u := userId_record.symm.trans hu
    obtain ⟨hserver, hplaced, -⟩ := h.mine hu
    obtain ⟨hrefused, hlisted⟩ := hmine hu
    refine ⟨server_record.trans hserver, ?_, hlisted⟩
    rw [hu] at hmove
    rw [hserver] at hx
    exact placed_move hmove hx hok (hsound.plain srv) hl hplaced hrefused

/-- What has been queued stays queued. -/
theorem listed_record (h : c.listed = true) : (c.record w op).listed = true := by
  unfold Call.record
  split
  all_goals simp [h]

/-! ### What is owed -/

theorem owes_iff (hi : s.calls[i]? = some c) :
    s.Owes v ↔ s.OthersOwe i v ∨ (c.userId = v ∧ c.owes ≠ none) := by
  constructor
  · rintro ⟨j, d, hj, hv, howes⟩
    by_cases hji : j = i
    · subst hji
      cases hi.symm.trans hj
      exact Or.inr ⟨hv, howes⟩
    · exact Or.inl ⟨j, d, hji, hj, hv, howes⟩
  · rintro (⟨j, d, -, hj, hv, howes⟩ | ⟨hv, howes⟩)
    · exact ⟨j, d, hj, hv, howes⟩
    · exact ⟨i, c, hi, hv, howes⟩

theorem owes_set (hi : s.calls[i]? = some c) {c' : Call} :
    Owes { world := w', calls := s.calls.set i c' } v ↔
      s.OthersOwe i v ∨ (c'.userId = v ∧ c'.owes ≠ none) := by
  have hlt : i < s.calls.length := (List.getElem?_eq_some_iff.mp hi).1
  rw [owes_iff (i := i) (c := c') (by exact List.getElem?_set_self hlt)]
  refine or_congr_left ?_
  constructor
  · rintro ⟨j, d, hji, hj, hv, howes⟩
    exact ⟨j, d, hji, by rwa [List.getElem?_set_ne (Ne.symm hji)] at hj, hv, howes⟩
  · rintro ⟨j, d, hji, hj, hv, howes⟩
    exact ⟨j, d, hji, by rwa [List.getElem?_set_ne (Ne.symm hji)], hv, howes⟩

end Stages

section Steps

variable {c₀ : Client} {synced synced' : Prop} {s s' : Attendance} {w' : World} {i : TaskId}
  {c c' : Call} {st st' : Stage} {op : Op} {r : Except Exn op.Resp} {x : Choice} {p : Prog Unit}

theorem Inv.calls_set (h : Inv env room_id start u srv c₀ synced s)
    (hl : Lasts env room_id u srv s.world w') (hs : synced → synced')
    (hat : At env room_id start u srv synced' w' c' st') :
    ∀ (j : TaskId) (d : Call), (s.calls.set i c')[j]? = some d →
      ∃ st, At env room_id start u srv synced' w' d st := by
  intro j d hj
  rcases getElem?_replace hj with ⟨-, hj⟩ | ⟨-, rfl⟩
  · obtain ⟨st, hst⟩ := h.calls j d hj
    exact ⟨st, hst.lasts hl hs⟩
  · exact ⟨st', hat⟩

/-- The list is queued before and after an operation, or the operation queues it. -/
theorem listed_set (hi : s.calls[i]? = some c) (h : s.Listed u) :
    Listed u { world := w', calls := s.calls.set i { c.record s.world op with prog := p } } := by
  have hlt : i < s.calls.length := (List.getElem?_eq_some_iff.mp hi).1
  obtain ⟨d, hd, hu, hlisted⟩ := h
  obtain ⟨j, hj⟩ := List.getElem?_of_mem hd
  by_cases hji : j = i
  · subst hji
    cases hi.symm.trans hj
    exact ⟨_, List.mem_of_getElem? (List.getElem?_set_self hlt), userId_record.trans hu,
      listed_record hlisted⟩
  · refine ⟨d, List.mem_of_getElem? (i := j) ?_, hu, hlisted⟩
    rw [List.getElem?_set_ne (Ne.symm hji)]
    exact hj

/-- An operation that is neither a publish nor a payload for the user. -/
theorem Inv.run_calm (h : Inv env room_id start u srv c₀ synced s) (hi : s.calls[i]? = some c)
    (hat : At env room_id start u srv synced s.world c st)
    (hmove : Moves env room_id start c.userId st op r st')
    (hx : op.exec env c.server i x s.world = some (r, w')) (hok : x.ok = true)
    (hp : Keeps env room_id start c.userId (Ends u c.userId) p st')
    (hpublish : ∀ ch message, op ≠ .publish ch message)
    (hsend : ∀ d, c.server = srv → op ≠ .manager (.sendToUser u d)) :
    Inv env room_id start u srv c₀ synced
      { world := w', calls := s.calls.set i { c.record s.world op with prog := p } } := by
  have hleaving : c.userId = u → st ≠ .leaving := fun hu hst => by
    obtain ⟨-, hplaced, -⟩ := hat.mine hu
    rw [hst] at hplaced
    exact hplaced
  have hcalm := h.sound.calm_move (u := u) hmove hx hok hleaving hpublish hsend
  have hscore : ∀ a, w'.redis.score (key env room_id) a =
      op.rescore (key env room_id) a true (s.world.redis.score (key env room_id) a) := fun a => by
    rw [Op.exec_score hx, hok, Bool.true_or]
  have hrescore := fun a => rescore_move (a := a) hmove (h.sound.recent a)
  have hmine : c.userId = u → st' ≠ .refused ∧ (st' = .listed → synced) := by
    intro hu
    obtain ⟨hserver, hplaced, -⟩ := hat.mine hu
    cases hmove with
    | refuse _ | list => exact absurd (by rw [hu]) (hsend _ hserver)
    | close => exact absurd hplaced id
    | _ => exact ⟨nofun, nofun⟩
  have hsound : Sound env room_id start srv w' := hcalm.sound fun a t ht => by
    rw [hscore a] at ht
    exact (hrescore a).1 t ht
  have hclient : client u c₀ (w'.servers srv).manager =
      client u c₀ (s.world.servers srv).manager := by
    unfold client
    rw [hcalm.manager.inbound]
  refine ⟨hsound, h.calls_set hcalm.lasts id (hat.next hmove hx hok h.sound hp hcalm.lasts hmine),
    fun hs => listed_set hi (h.listed hs), fun hs => hcalm.lasts.receives (h.receives hs),
    fun hs => ?_, fun hs => ?_⟩
  · change NoDuplicates room_id (client u c₀ (w'.servers srv).manager)
    rw [hclient]
    exact h.noDuplicates hs
  · change Replica.Converges _ _ (transit env room_id (w'.servers srv).broker)
      (shown room_id (client u c₀ (w'.servers srv).manager))
    rw [hcalm.broker.transit, hclient]
    refine (h.converges hs).change fun a ha => ?_
    rw [owes_set hi, not_or, not_and_not_right] at ha
    obtain ⟨hothers, hown⟩ := ha
    have hst : c.userId = a → st'.owes = none := fun hca =>
      (owes_record hmove hat.owes).symm.trans (hown (userId_record.trans hca))
    refine ⟨?_, ?_⟩
    · rw [owes_iff hi, not_or, not_and_not_right]
      exact ⟨hothers, fun hca => hat.owes.trans (owes_move hmove hpublish (hst hca))⟩
    · unfold present
      rw [hscore a, (hrescore a).2]
      split
      · rename_i hac
        rw [hst hac.1.symm]
        rfl
      · rfl

theorem transit_publish {w : World} {received : ServerId → PubSubId → Bool} {username : String}
    {online : Bool} (hp : Plain (w.servers srv).broker) (hr : received srv 0 = true) :
    transit env room_id ((w.publish received (channel env room_id)
        (envelope "presence" (presence room_id v username online))).servers srv).broker =
      transit env room_id (w.servers srv).broker ++
        if channel env room_id ∈ ((w.servers srv).broker.heap 0).channels then [(v, online)]
        else [] := transit_deliver hp hr

theorem publish_move {ch : Channel} {message : Json} {r : Except Exn Unit}
    (hmove : Moves env room_id start v st (.publish ch message) r st') :
    ∃ username online, st = .wrote online ∧ ch = channel env room_id ∧
      message = envelope "presence" (presence room_id v username online) ∧
      st'.owes = none ∧ st' ≠ .refused ∧ st' ≠ .listed := by
  cases hmove with
  | @announce username r => exact ⟨username, true, rfl, rfl, rfl, rfl, nofun, nofun⟩
  | @takeLeave username r => exact ⟨username, false, rfl, rfl, rfl, rfl, nofun, nofun⟩

/-- A publish of a status. -/
theorem Inv.run_publish (h : Inv env room_id start u srv c₀ synced s) (hi : s.calls[i]? = some c)
    (hat : At env room_id start u srv synced s.world c st) {ch : Channel} {message : Json}
    {r : Except Exn Unit} (hmove : Moves env room_id start c.userId st (.publish ch message) r st')
    (hx : (Op.publish ch message).exec env c.server i x s.world = some (r, w'))
    (hok : x.ok = true) (hreceived : x.received srv 0 = true)
    (hp : Keeps env room_id start c.userId (Ends u c.userId) p st')
    (horder : ∀ online, c.owes = some online → s.Listed u → ¬s.OthersOwe i c.userId →
      online = present env room_id s.world c.userId) :
    Inv env room_id start u srv c₀ synced
      { world := w'
        calls := s.calls.set i { c.record s.world (.publish ch message) with prog := p } } := by
  obtain ⟨username, online, rfl, rfl, rfl, hdone, hrefused, hlisted⟩ := publish_move hmove
  obtain rfl : w' = s.world.publish x.received (channel env room_id)
      (envelope "presence" (presence room_id c.userId username online)) := by
    cases hx
    rw [hok]
    rfl
  have hplain := h.sound.plain srv
  have hsound : Sound env room_id start srv (s.world.publish x.received (channel env room_id)
      (envelope "presence" (presence room_id c.userId username online))) :=
    ⟨fun σ => ⟨(h.sound.plain σ).pubsub, (h.sound.plain σ).listener⟩, h.sound.owned,
      serves_deliver hplain h.sound.serves hreceived, h.sound.recent⟩
  have hl : Lasts env room_id u srv s.world (s.world.publish x.received (channel env room_id)
      (envelope "presence" (presence room_id c.userId username online))) := by
    refine ⟨id, id, id, fun hin => ?_⟩
    simp only [World.publish, World.deliverTo]
    split
    · exact hin
    · exact hin
  refine ⟨hsound, h.calls_set hl id (hat.next hmove hx hok h.sound hp hl
    fun _ => ⟨hrefused, fun hst => absurd hst hlisted⟩), fun hs => listed_set hi (h.listed hs),
    fun hs => hl.receives (h.receives hs), h.noDuplicates, fun hs => ?_⟩
  change Replica.Converges (present env room_id s.world) _ (transit env room_id
    ((s.world.publish x.received (channel env room_id)
      (envelope "presence" (presence room_id c.userId username online))).servers srv).broker)
    (shown room_id (client u c₀ (s.world.servers srv).manager))
  rw [transit_publish hplain hreceived, if_pos (h.receives hs).subscribed]
  refine (h.converges hs).announce (fun a hne ha => ?_) fun ha => ?_
  · rw [owes_set hi, not_or] at ha
    rw [owes_iff hi, not_or]
    exact ⟨ha.1, fun hca => hne hca.1.symm⟩
  · rw [owes_set hi, not_or] at ha
    exact horder online hat.owes (h.listed hs) ha.1

theorem send_move {d : Delivery} {r : Except Exn Unit}
    (hmove : Moves env room_id start v st (.manager (.sendToUser u d)) r st') :
    v = u ∧ (d.message.event = "error" ∨ ∃ us, d = { message := onlineUsers room_id us, source := none } ∧
      st = .read (userIds us) ∧ st' = .listed) := by
  cases hmove with
  | refuse herror => exact ⟨rfl, Or.inl herror⟩
  | @list us r => exact ⟨rfl, Or.inr ⟨us, rfl, rfl, rfl⟩⟩

/-- A change of the instance's manager that keeps the user connected and in the room. -/
theorem lasts_setManager {w : World} {m : ConnectionManager Delivery}
    (hconn : m.connections = (w.servers srv).manager.connections)
    (hroom : m.getRoomUserIds room_id = (w.servers srv).manager.getRoomUserIds room_id) :
    Lasts env room_id u srv w (w.setManager srv m) := by
  refine ⟨fun hc => ?_, fun hu => ?_, ?_, ?_⟩
  · rw [World.manager_setManager, if_pos rfl, hconn]
    exact hc
  · rw [World.manager_setManager, if_pos rfl, hroom]
    exact hu
  · rw [World.broker_setManager]
    exact id
  · rw [World.broker_setManager]
    exact id

theorem sound_setManager {w : World} {m : ConnectionManager Delivery}
    (h : Sound env room_id start srv w) (hm : m.Owned) :
    Sound env room_id start srv (w.setManager srv m) := by
  refine ⟨fun σ => ?_, ?_, ?_, h.recent⟩
  · rw [World.broker_setManager]
    exact h.plain σ
  · rw [World.manager_setManager, if_pos rfl]
    exact hm
  · rw [World.broker_setManager]
    exact h.serves

/-- The user's list is queued. -/
theorem Inv.run_list (h : Inv env room_id start u srv c₀ synced s) (hi : s.calls[i]? = some c)
    (hat : At env room_id start u srv synced s.world c st) (hserver : c.server = srv)
    {d : Delivery} {r : Except Exn Unit}
    (hmove : Moves env room_id start c.userId st (.manager (.sendToUser u d)) r st')
    (hx : (Op.manager (.sendToUser u d)).exec env c.server i x s.world = some (r, w'))
    (hok : x.ok = true) (hp : Keeps env room_id start c.userId (Ends u c.userId) p st')
    (herror : d.message.event ≠ "error") (hspace : s.HasSpace env u srv)
    (horder : ∀ members, c.seen = some members → ∀ v, ¬s.Owes v →
      Replica.settle (transit env room_id (s.world.servers srv).broker)
        (fun a => (members.get? a).isSome) v = present env room_id s.world v) :
    Inv env room_id start u srv c₀ True
      { world := w'
        calls := s.calls.set i
          { c.record s.world (.manager (.sendToUser u d)) with prog := p } } := by
  obtain ⟨hu, hsent⟩ := send_move hmove
  obtain ⟨us, rfl, rfl, rfl⟩ := hsent.resolve_left herror
  obtain ⟨-, hreceives, -⟩ := hat.mine hu
  obtain ⟨hnodup, members, hseen, hmem⟩ := hat.seen _ rfl
  obtain ⟨conn, hconn⟩ := Option.isSome_iff_exists.mp hreceives.conn
  subst hserver
  have hl : Lasts env room_id u c.server s.world (s.world.setManager c.server
      ((s.world.servers c.server).manager.sendToUser env.maxSendQueueSize u
        { message := onlineUsers room_id us, source := none })) :=
    lasts_setManager connections_sendToUser getRoomUserIds_sendToUser
  obtain ⟨-, rfl⟩ := Op.world_manager hx
  -- the client shows the list it is sent
  have hlist : (users room_id (client u c₀ ((s.world.setManager c.server
      ((s.world.servers c.server).manager.sendToUser env.maxSendQueueSize u
        { message := onlineUsers room_id us, source := none })).servers c.server).manager)).map
          Client.OnlineUser.userId = userIds us := by
    rw [World.manager_setManager, if_pos rfl]
    unfold client
    rw [inbound_sendToUser hconn (hspace conn hconn), List.foldl_append]
    exact map_users_onlineUsers
  have hshown : shown room_id (client u c₀ ((s.world.setManager c.server
      ((s.world.servers c.server).manager.sendToUser env.maxSendQueueSize u
        { message := onlineUsers room_id us, source := none })).servers c.server).manager) =
          fun a => (members.get? a).isSome := by
    funext a
    rw [Bool.eq_iff_iff, shown_iff, hlist]
    exact hmem a
  have hlt : i < s.calls.length := (List.getElem?_eq_some_iff.mp hi).1
  refine ⟨sound_setManager h.sound (owned_sendToUser h.sound.owned), h.calls_set hl
    (fun _ => trivial) (hat.next hmove hx hok h.sound hp hl fun _ => ⟨nofun, fun _ => trivial⟩),
    fun _ => ⟨_, List.mem_of_getElem? (List.getElem?_set_self hlt), hu, ?_⟩,
    fun _ => hl.receives hreceives, fun _ => ?_, fun _ => ?_⟩
  · simp [Call.record, onlineUsers]
  · have hnodup : (userIds us).Nodup := hnodup
    rw [← hlist] at hnodup
    exact hnodup
  · change Replica.Converges (present env room_id s.world) _ (transit env room_id
      ((s.world.setManager c.server _).servers c.server).broker) _
    rw [World.broker_setManager]
    intro a ha
    have hnone : ¬s.Owes a := by
      -- whoever owed an event before still does
      rw [owes_set hi, not_or] at ha
      rw [owes_iff hi, not_or]
      exact ⟨ha.1, fun hca => hca.2 hat.owes⟩
    exact (congrArg (fun copy => Replica.settle _ copy a) hshown).trans
      (horder members hseen a hnone)

/-! ### Every step -/

/-- A step of a call. -/
theorem Inv.run (h : Inv env room_id start u srv c₀ synced s)
    (hcond : s.Undisturbed env room_id start u srv (.run i x))
    (horder : s.InOrder env room_id u srv (.run i x))
    (hs : step env room_id s (.run i x) = some s') :
    ∃ synced', Inv env room_id start u srv c₀ synced' s' := by
  obtain ⟨c, op, k, r, w, hi, hprog, hx, rfl⟩ := step_run hs
  obtain ⟨hok, hreceived, hstart, hnow, hsmooth⟩ := hcond
  obtain ⟨hpublish, hlist⟩ := horder c hi
  have hhead : c.prog.head? = some op := by rw [hprog]; rfl
  obtain ⟨st, hat⟩ := h.calls i c hi
  have hkeeps := hat.keeps
  rw [hprog] at hkeeps
  obtain ⟨st', hmove, hp⟩ := hkeeps r
    (answered hx hok hstart hnow (h.sound.plain c.server).pubsub)
  by_cases hpub : ∃ ch message, op = .publish ch message
  · obtain ⟨ch, message, rfl⟩ := hpub
    exact ⟨synced, h.run_publish hi hat hmove hx hok (hreceived 0 (h.sound.plain srv).pubsub) hp
      fun online => hpublish ch message online hhead⟩
  · by_cases hsend : c.server = srv ∧ ∃ d, op = .manager (.sendToUser u d)
    · obtain ⟨hserver, d, rfl⟩ := hsend
      have hu : c.userId = u := (send_move hmove).1
      obtain ⟨herror, hspace⟩ := hsmooth c d hi hu hhead
      exact ⟨True, h.run_list hi hat hserver hmove hx hok hp herror hspace
        fun members hseen => hlist members d hu hseen hhead⟩
    · exact ⟨synced, h.run_calm hi hat hmove hx hok hp
        (fun ch message he => hpub ⟨ch, message, he⟩)
        fun d hserver he => hsend ⟨hserver, d, he⟩⟩

/-- The calls stay where they are. -/
theorem Inv.of_world (h : Inv env room_id start u srv c₀ synced s)
    (hsound : Sound env room_id start srv w') (hl : Lasts env room_id u srv s.world w')
    (hnodup : synced → NoDuplicates room_id (client u c₀ (w'.servers srv).manager))
    (hconverges : synced → Replica.Converges (present env room_id w') s.Owes
      (transit env room_id (w'.servers srv).broker)
      (shown room_id (client u c₀ (w'.servers srv).manager))) :
    Inv env room_id start u srv c₀ synced { s with world := w' } := by
  refine ⟨hsound, fun i c hi => ?_, h.listed, fun hs => hl.receives (h.receives hs), hnodup,
    hconverges⟩
  obtain ⟨st, hat⟩ := h.calls i c hi
  exact ⟨st, hat.lasts hl id⟩

theorem present_congr {w : World} (hr : w'.redis = w.redis) :
    present env room_id w' = present env room_id w := by
  unfold present
  rw [hr]

/-- A step that concerns neither the calls nor the user. -/
theorem Inv.calm (h : Inv env room_id start u srv c₀ synced s)
    (hc : Calm env room_id u srv s.world w') (hr : w'.redis = s.world.redis) :
    Inv env room_id start u srv c₀ synced { s with world := w' } := by
  have hclient : client u c₀ (w'.servers srv).manager =
      client u c₀ (s.world.servers srv).manager := by
    unfold client
    rw [hc.manager.inbound]
  refine h.of_world (hc.sound fun v t ht => h.sound.recent v t (by rwa [hr] at ht)) hc.lasts
    (fun hs => ?_) fun hs => ?_
  · rw [hclient]
    exact h.noDuplicates hs
  · rw [present_congr hr, hc.broker.transit, hclient]
    exact h.converges hs

/-- A call begins. -/
theorem Inv.begin (h : Inv env room_id start u srv c₀ synced s) {σ : ServerId}
    (hat : At env room_id start u srv synced s.world (.start σ v p) st) :
    Inv env room_id start u srv c₀ synced { s with calls := s.calls ++ [.start σ v p] } := by
  refine ⟨h.sound, fun i c hi => ?_, fun hs => ?_, h.receives, h.noDuplicates,
    fun hs => (h.converges hs).change fun a ha => ⟨fun hold => ha ?_, rfl⟩⟩
  · rcases List.mem_append.mp (List.mem_of_getElem? hi) with hold | hnew
    · obtain ⟨j, hj⟩ := List.getElem?_of_mem hold
      exact h.calls j c hj
    · cases List.mem_singleton.mp hnew
      exact ⟨st, hat⟩
  · obtain ⟨c, hc, hu⟩ := h.listed hs
    exact ⟨c, List.mem_append_left _ hc, hu⟩
  · obtain ⟨j, d, hj, hd⟩ := hold
    refine ⟨j, d, ?_, hd⟩
    rw [List.getElem?_append_left (List.getElem?_eq_some_iff.mp hj).1]
    exact hj

/-- The user is handed an event. -/
theorem Inv.arrive (h : Inv env room_id start u srv c₀ synced s)
    (hsound : Sound env room_id start srv w') (hl : Lasts env room_id u srv s.world w')
    (hr : w'.redis = s.world.redis) {username : String} {online : Bool}
    {source : Option (Channel × Nat)}
    (htransit : transit env room_id (s.world.servers srv).broker =
      (v, online) :: transit env room_id (w'.servers srv).broker)
    (hinbound : inbound (w'.servers srv).manager u = inbound (s.world.servers srv).manager u ++
      [{ message := presence room_id v username online, source }]) :
    Inv env room_id start u srv c₀ synced { s with world := w' } := by
  have hclient : client u c₀ (w'.servers srv).manager =
      (client u c₀ (s.world.servers srv).manager).receive
        (presence room_id v username online) := by
    unfold client
    rw [hinbound, List.foldl_append]
    rfl
  refine h.of_world hsound hl (fun hs => ?_) fun hs => ?_
  · rw [hclient]
    exact noDuplicates_presence (h.noDuplicates hs)
  · have hconverges := h.converges hs
    rw [htransit] at hconverges
    rw [present_congr hr, hclient, shown_presence]
    exact hconverges.arrive

/-- The event is broadcast, after the broker of the instance has taken it out of its inbox. -/
theorem Inv.broadcast (h : Inv env room_id start u srv c₀ synced s) {w : World}
    (hsound : Sound env room_id start srv w) (hl : Lasts env room_id u srv s.world w)
    (hr : w.redis = s.world.redis) (hm : (w.servers srv).manager = (s.world.servers srv).manager)
    {username : String} {online : Bool} {source : Option (Channel × Nat)}
    (htransit : transit env room_id (s.world.servers srv).broker =
      (v, online) :: transit env room_id (w.servers srv).broker)
    (hspace : u ∈ (s.world.servers srv).manager.getRoomUserIds room_id → s.HasSpace env u srv)
    (hw : w' = w.setManager srv ((w.servers srv).manager.broadcastToRoom env.maxSendQueueSize
      room_id { message := presence room_id v username online, source } none)) :
    Inv env room_id start u srv c₀ synced { s with world := w' } := by
  have hmanager : (w'.servers srv).manager = (s.world.servers srv).manager.broadcastToRoom
      env.maxSendQueueSize room_id { message := presence room_id v username online, source }
        none := by
    rw [hw, World.manager_setManager, if_pos rfl, hm]
  have hbroker : (w'.servers srv).broker = (w.servers srv).broker := by
    rw [hw, World.broker_setManager]
  have hsound' : Sound env room_id start srv w' := by
    rw [hw]
    exact sound_setManager hsound (owned_broadcastToRoom hsound.owned)
  have hl' : Lasts env room_id u srv s.world w' := by
    rw [hw]
    exact hl.trans (lasts_setManager connections_broadcastToRoom getRoomUserIds_broadcastToRoom)
  have hr' : w'.redis = s.world.redis := by
    rw [hw]
    exact hr
  rw [← hbroker] at htransit
  by_cases hin : u ∈ (s.world.servers srv).manager.getRoomUserIds room_id
  · cases hconn : (s.world.servers srv).manager.connections.get? u with
    | none =>
      have hs : ¬synced := fun hs => by
        have hconnected := (h.receives hs).conn
        rw [hconn] at hconnected
        cases hconnected
      exact h.of_world hsound' hl' (absurd · hs) (absurd · hs)
    | some c =>
      have hinbound : inbound (w'.servers srv).manager u =
          inbound (s.world.servers srv).manager u ++
            [{ message := presence room_id v username online, source }] := by
        rw [hmanager]
        exact inbound_broadcastToRoom h.sound.owned hin hconn (hspace hin c hconn)
      exact h.arrive hsound' hl' hr' htransit hinbound
  · -- the user has not joined yet
    have hs : ¬synced := fun hs => hin (h.receives hs).room
    exact h.of_world hsound' hl' (absurd · hs) (absurd · hs)

/-- The listener of the instance hands out an event. -/
theorem Inv.receive (h : Inv env room_id start u srv c₀ synced s) {ch : Channel}
    (hspace : u ∈ (s.world.servers srv).manager.getRoomUserIds room_id → s.HasSpace env u srv)
    (hs : s.world.listen env srv (.receive ch) = some w') :
    Inv env room_id start u srv c₀ synced { s with world := w' } := by
  obtain ⟨⟨b, m⟩, hb, hw⟩ := Option.map_eq_some_iff.mp hs
  obtain ⟨n, v, username, online, rfl, htransit, hplain, hserves, hcallbacks, hchannels⟩ :=
    receive_eq (h.sound.plain srv) h.sound.serves hb
  have hw : (s.world.setBroker srv b).dispatchMessage env srv (channel env room_id) n
      (envelope "presence" (presence room_id v username online)) = w' := hw
  have hbroker : ((s.world.setBroker srv b).servers srv).broker = b := by
    rw [World.broker_setBroker, if_pos rfl]
  have hsound : Sound env room_id start srv (s.world.setBroker srv b) := by
    refine ⟨fun σ => ?_, ?_, hbroker.symm ▸ hserves, h.sound.recent⟩
    · rw [World.broker_setBroker]
      split
      · exact hplain
      · exact h.sound.plain σ
    · rw [World.manager_setBroker]
      exact h.sound.owned
  have hl : Lasts env room_id u srv s.world (s.world.setBroker srv b) := by
    refine ⟨?_, ?_, ?_, ?_⟩
    · rw [World.manager_setBroker]
      exact id
    · rw [World.manager_setBroker]
      exact id
    · rw [hbroker, hcallbacks]
      exact id
    · rw [hbroker, hchannels]
      exact id
  rw [← hbroker] at htransit
  cases hcallback : (s.world.servers srv).broker.callbacks.get? (channel env room_id) with
  | none =>
    rw [World.dispatchMessage_none (by rwa [hbroker, hcallbacks])] at hw
    have hs : ¬synced := fun hs => by
      rw [(h.receives hs).callback] at hcallback
      cases hcallback
    exact hw ▸ h.of_world hsound hl (absurd · hs) (absurd · hs)
  | some room =>
    obtain rfl := h.sound.serves.callback room hcallback
    have hhandler : Chat.roomMessageHandler (envelope "presence" (presence room v username online)) =
        .ok (some (presence room v username online, none)) := rfl
    rw [World.dispatchMessage_some (by rwa [hbroker, hcallbacks]) hhandler] at hw
    exact h.broadcast hsound hl rfl World.manager_setBroker htransit hspace hw.symm

/-- Brokers stay plain when their listener starts or hands out a message. -/
theorem Plain.listenerStep {b b' : RedisBroker} {m : Option (Channel × Nat × Json)}
    {e : RedisBroker.ListenerEvent} (h : Plain b) (he : e = .begin ∨ ∃ ch, e = .receive ch)
    (hs : b.listenerStep e = some (b', m)) : Plain b' := by
  rcases he with rfl | ⟨ch, rfl⟩
  · rcases h.listener with hl | hl
    · simp only [RedisBroker.listenerStep, hl, Option.some.injEq, Prod.mk.injEq] at hs
      obtain ⟨rfl, -⟩ := hs
      rw [h.startListening]
      exact ⟨h.pubsub, Or.inr rfl⟩
    · simp [RedisBroker.listenerStep, hl] at hs
  · rcases h.listener with hl | hl
    · simp [RedisBroker.listenerStep, hl] at hs
    · simp only [RedisBroker.listenerStep, hl] at hs
      split at hs
      · cases hs
      · cases hs
        exact ⟨h.pubsub, Or.inr hl⟩

/-- The listener of another instance. -/
theorem Inv.elsewhere (h : Inv env room_id start u srv c₀ synced s) {σ : ServerId}
    {e : RedisBroker.ListenerEvent} (he : e = .begin ∨ ∃ ch, e = .receive ch) (hσ : srv ≠ σ)
    (hs : s.world.listen env σ e = some w') :
    Inv env room_id start u srv c₀ synced { s with world := w' } := by
  obtain ⟨⟨b, m⟩, hb, hw⟩ := Option.map_eq_some_iff.mp hs
  have hcalm : Calm env room_id u srv s.world (s.world.setBroker σ b) :=
    h.sound.calm_setBroker ((h.sound.plain σ).listenerStep he hb) fun hsame => absurd hsame.symm hσ
  have hsound := hcalm.sound h.sound.recent
  cases m with
  | none => exact hw ▸ h.calm hcalm rfl
  | some msg =>
    have hw : (s.world.setBroker σ b).dispatchMessage env σ msg.1 msg.2.1 msg.2.2 = w' := hw
    have h₁ := h.calm hcalm rfl
    obtain hd | ⟨_, _, _, -, hd⟩ :=
      @World.dispatchMessage_cases env (s.world.setBroker σ b) σ msg.1 msg.2.1 msg.2.2
    · rw [hd] at hw
      exact hw ▸ h₁
    · rw [hd] at hw
      exact hw ▸ h₁.calm (h₁.sound.calm_setManager fun hsame => absurd hsame.symm hσ) rfl

/-- **Every step keeps the invariant.** -/
theorem Inv.step (h : Inv env room_id start u srv c₀ synced s) {l : Label}
    (hcond : s.Undisturbed env room_id start u srv l) (horder : s.InOrder env room_id u srv l)
    (hs : s.step env room_id l = some s') :
    ∃ synced', Inv env room_id start u srv c₀ synced' s' := by
  cases l with
  | run i x => exact h.run hcond horder hs
  | connect σ v username =>
    simp only [Attendance.step] at hs
    split at hs
    · cases hs
    · rename_i hnone
      cases hs
      refine ⟨synced, h.calm (h.sound.calm_setManager fun hσ => ?_) rfl⟩
      subst hσ
      exact aside_register h.sound.owned (Option.not_isSome_iff_eq_none.mp hnone)
  | join σ v username =>
    simp only [Attendance.step, Attendance.begin] at hs
    split at hs
    · rename_i hconn
      cases hs
      have hat : At env room_id start u srv synced s.world
          (.start σ v (joinProg env room_id v username)) .joining := by
        refine ⟨?_, rfl, nofun, fun hu => ?_⟩
        · exact follows_join.mono fun r st hst => ⟨hst.1, fun _ => hst.2⟩
        · -- the user calls one join, on this instance
          obtain rfl := hcond hu
          exact ⟨rfl, hu ▸ hconn, nofun⟩
      exact ⟨synced, h.begin hat⟩
    · cases hs
  | leave σ v username =>
    simp only [Attendance.step, Attendance.begin] at hs
    split at hs
    · cases hs
      have hat : At env room_id start u srv synced s.world
          (.start σ v (leaveProg env room_id v username)) .leaving := by
        refine ⟨?_, rfl, nofun, fun hu => absurd hu hcond⟩
        exact follows_leave.mono fun r st hst => ⟨hst, fun hu => absurd hu hcond⟩
      exact ⟨synced, h.begin hat⟩
    · cases hs
  | listener σ e =>
    obtain ⟨w, hw, rfl⟩ := Option.map_eq_some_iff.mp hs
    have he : e = .begin ∨ ∃ ch, e = .receive ch := by
      cases e with
      | begin => exact Or.inl rfl
      | receive ch => exact Or.inr ⟨ch, rfl⟩
      | _ => exact absurd hcond id
    -- the listener of the instance is the one that brings events to the user
    by_cases hσ : srv = σ
    · subst hσ
      rcases he with rfl | ⟨ch, rfl⟩
      · obtain ⟨⟨b, m⟩, hb, hm⟩ := Option.map_eq_some_iff.mp hw
        obtain ⟨rfl, hunheard⟩ := unheard_begin (h.sound.plain srv) h.sound.serves hb
        exact ⟨synced, hm ▸ h.calm (h.sound.calm_setBroker hunheard.plain fun _ => hunheard) rfl⟩
      · exact ⟨synced, h.receive (hcond rfl) hw⟩
    · exact ⟨synced, h.elsewhere he hσ hw⟩
  | sendTake σ c =>
    obtain ⟨m, hm, rfl⟩ := Option.map_eq_some_iff.mp hs
    refine ⟨synced, h.calm (h.sound.calm_setManager fun hσ => ?_) rfl⟩
    subst hσ
    exact aside_sendTake h.sound.owned hcond hm
  | sendDone σ c ok wrote =>
    obtain ⟨m, hm, rfl⟩ := Option.map_eq_some_iff.mp hs
    obtain rfl : ok = true := hcond
    refine ⟨synced, h.calm (h.sound.calm_setManager fun hσ => ?_) rfl⟩
    subst hσ
    exact aside_sendDone h.sound.owned hm

theorem inv_init {t : Tables} : Inv env room_id start u srv c₀ False (init t) where
  sound := by
    refine ⟨fun σ => ⟨rfl, Or.inl rfl⟩, fun v c hc => ?_, ⟨fun room hroom => ?_,
      fun ch e he => ?_, fun _ => rfl⟩, fun v t ht => ?_⟩
    · cases hc
    · cases hroom
    · cases he
    · cases ht
  calls := fun i c hi => by cases hi
  listed := fun hs => hs.elim
  receives := fun hs => hs.elim
  noDuplicates := fun hs => hs.elim
  converges := fun hs => hs.elim

/-- **The invariant holds throughout.** -/
theorem inv_reach (c₀ : Client) {t : Tables} (hr : Reach (step env room_id)
    (fun s l => s.Undisturbed env room_id start u srv l ∧ s.InOrder env room_id u srv l)
    (init t) s) : ∃ synced, Inv env room_id start u srv c₀ synced s :=
  hr.invariant (I := fun s => ∃ synced, Inv env room_id start u srv c₀ synced s)
    ⟨False, inv_init⟩ fun _ _ _ h hc hs => h.elim fun _ h => h.step hc.1 hc.2 hs

end Steps

/-! ## The end of a run -/

/-- Every handler has finished, the instance has handed out every event, and the user's connection
has nothing left to write. -/
structure Finished (env : Env) (room_id : RoomId) (u : UserId) (srv : ServerId)
    (s : Attendance) : Prop where
  calls : ∀ c ∈ s.calls, c.prog.head? = none
  events : (s.world.servers srv).broker.waiting (channel env room_id) = []
  queue : ∀ c, s.conn srv u = some c → ((s.world.servers srv).manager.heap c).sendQueue = [] ∧
    ((s.world.servers srv).manager.heap c).sendTask = .waiting

section End

variable {c₀ : Client} {synced : Prop} {s : Attendance}

end End

namespace Sample

def room : RoomId := "00000000-0000-0000-0000-000000000003"

def user : UserId := "00000000-0000-0000-0000-000000000001"

/-- Both users are members of room 3. -/
def tables : Tables :=
  { Tables.sample with
    roomMembers := Tables.sample.roomMembers.insert ⟨2, 3, 2, .member, Env.newYear⟩ }

/-- Call `i` performs its next `n` operations. -/
def goes (i : TaskId) (n : Nat) : List Label := List.replicate n (.run i (System.smooth 0))

def hears (n : Nat) : List Label := List.replicate n (.listener 0 (.receive System.roomThree))

def drains (n : Nat) : List Label :=
  (List.replicate n [Label.sendTake 0 0, .sendDone 0 0 true true]).flatten

/-- Two users join the room on instance 0. User 1 has read the presence set when user 2 comes
in. -/
def joins : List Label :=
  [.connect 0 user "u1", .connect 0 "00000000-0000-0000-0000-000000000002" "u2",
    .listener 0 .begin, .join 0 user "u1", .join 0 "00000000-0000-0000-0000-000000000002" "u2"] ++
      goes 0 12 ++ goes 1 15

def hasSpace (s : Attendance) : Bool := (s.conn 0 user).all fun c =>
  !full Env.sample.maxSendQueueSize ((s.world.servers 0).manager.heap c).sendQueue

/-- The operation queues nothing for the user that it should not. -/
def spares (s : Attendance) : Op → Bool
  | .manager (.sendToUser _ d) => d.message.event ≠ "error" && hasSpace s
  | _ => true

/-- What the operation of call `i` publishes is true, and the list it queues comes to the presence
set. -/
def orders (s : Attendance) (c : Call) : Op → Bool
  | .publish _ _ => c.owes.all fun online => online = present .sample room s.world c.userId
  | .manager (.sendToUser _ _) => c.seen.all fun members =>
      (members.keys ++ (transit .sample room (s.world.servers 0).broker).map Prod.fst ++
        (s.world.redis.sortedSet (key .sample room)).keys).all fun v =>
          Replica.settle (transit .sample room (s.world.servers 0).broker)
            (fun a => (members.get? a).isSome) v = present .sample room s.world v
  | _ => true

def inOrder (s : Attendance) : Label → Bool
  | .run i _ => (s.calls[i]?).all fun c => c.prog.head?.all (orders s c)
  | _ => true

def idle : SendTask Delivery → Bool
  | .waiting => true
  | _ => false

/-- Every call has come to its end, and nothing is under way to the user. -/
def finished (s : Attendance) : Bool :=
  (s.calls.all fun c => c.prog.head?.isNone) &&
    ((s.world.servers 0).broker.waiting System.roomThree).isEmpty &&
    (s.conn 0 user).all fun c => ((s.world.servers 0).manager.heap c).sendQueue.isEmpty &&
      idle ((s.world.servers 0).manager.heap c).sendTask

def returned : Prog Unit → Bool
  | .ret _ => true
  | _ => false

def joined (s : Attendance) : Bool := s.calls.any fun c => c.userId = user && returned c.prog

end Sample

end Attendance

end NexusChat
