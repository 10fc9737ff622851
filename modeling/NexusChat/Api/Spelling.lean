import NexusChat.Api.Idempotency
import NexusChat.Services.PresenceEntries
import NexusChat.App.Frame
import NexusChat.Messaging.SingleSession

/-!
# The spelling of a room

`UUID()` takes an id in many spellings. The handlers parse `room_id` for the database, and use the
string as it came everywhere else: it names the channel, the entry of the room index and the
presence set, and a message goes to the channel of its own spelling. So a room that is spelled in
two ways is one room in the tables and two rooms for everybody who is connected
(`one_room_iff`).
-/

set_option autoImplicit false

namespace NexusChat.Chat

/-! ## Joining -/

section Join

variable {env : Env} {srv : ServerId} {me : TaskId} {x : Choice} {w : World} {user_id : UserId}
  {username s : String} {p : PubSubId}

/-- The world after `subscribe`. -/
def subscribed (w : World) (srv : ServerId) (p : PubSubId) (channel : Channel)
    (room_id : RoomId) : World :=
  w.setBroker srv
    ({ (w.servers srv).broker with
      callbacks := (w.servers srv).broker.callbacks.set channel room_id }.addChannel p channel)

theorem run_subscribe (hx : x.ok = true) (hp : (w.servers srv).broker.pubsub = some p)
    {channel : Channel} {room_id : RoomId} :
    (RedisBroker.subscribe brokerOp channel room_id).run (Op.exec env srv me) x w =
      some (.ok (), subscribed w srv p channel room_id) := by
  refine (Coro.run_perform_bind (S := Op.sig) ..).trans ?_
  simp only [Op.exec, BrokerOp.exec, BrokerOp.answer, BrokerOp.after, hp, Option.isSome_some,
    if_true, Option.map_some, Option.bind_some]
  refine (Coro.run_perform (S := Op.sig) ..).trans ?_
  simp [Op.exec, BrokerOp.exec, BrokerOp.answer, BrokerOp.after, hx, subscribed, World.setBroker]
  rw [hp]

theorem run_joinOp {α : Type} {f : Unit → Prog α} {room_id : RoomId}
    (hlock : (w.servers srv).manager.lock = none) :
    (managerOp (.joinRoom user_id room_id) >>= f).run (Op.exec env srv me) x w =
      (f ()).run (Op.exec env srv me) x
        (w.setManager srv ((w.servers srv).manager.joinRoom user_id room_id)) := by
  refine (Coro.run_perform_bind (S := Op.sig) ..).trans ?_
  simp [Op.exec, ManagerOp.exec, ManagerOp.enabled, ManagerOp.answer, ManagerOp.after, hlock]

/-- The room as the user has entered it: the steps of `enterRoom` up to the list of users. -/
def announced (env : Env) (srv : ServerId) (p : PubSubId) (x : Choice) (user_id : UserId)
    (username s : String) (w : World) : World :=
  let channel := roomChannel env (.str s)
  let joined := (subscribed w srv p channel s).setManager srv
    ((w.servers srv).manager.joinRoom user_id s)
  ({ joined with
    redis := (joined.redis.after (.zadd (PresenceService.key env (.str s)) user_id x.now)).after
      (.hset user_id username) }).publish x.received channel
    (envelope "presence" (.presenceUpdate (.str s) user_id username "online"))

/-- The world after the list of users has been read and put on the queue. -/
def entered (env : Env) (srv : ServerId) (p : PubSubId) (x : Choice) (user_id : UserId)
    (username s : String) (w : World) : World :=
  let key := PresenceService.key env (.str s)
  let cutoff : Int := x.now - env.presenceTimeout
  let w₁ := announced env srv p x user_id username s w
  let w₂ := { w₁ with redis := w₁.redis.after (.zremrangebyscore key cutoff) }
  let users := (w₂.redis.answer (.zrangebyscore key cutoff)).map
    (PresenceService.listing w₂.redis)
  w₂.setManager srv ((w₂.servers srv).manager.sendToUser env.maxSendQueueSize user_id
    { message := { event := "online_users", data := [("room_id", .str s), ("users", .arr users)] },
      source := none })

theorem run_enterRoom (hx : x.ok = true) (hp : (w.servers srv).broker.pubsub = some p)
    (hlock : (w.servers srv).manager.lock = none) :
    (enterRoom env user_id username s).run (Op.exec env srv me) x w =
      some (.ok (), entered env srv p x user_id username s w) := by
  unfold enterRoom
  refine (Coro.run_bind ..).trans ?_
  rw [run_subscribe hx hp]
  have hlock' : ((subscribed w srv p (roomChannel env (.str s)) s).servers srv).manager.lock =
      none := by
    rw [subscribed, World.manager_setBroker]
    exact hlock
  refine (run_joinOp hlock').trans ?_
  rw [subscribed, World.manager_setBroker, ← subscribed]
  refine (Coro.run_bind ..).trans ?_
  have honline : ∀ w' : World, (PresenceService.setOnline env (.str s) user_id username).run
      (Op.exec env srv me) x w' = some (.ok (), { w' with
        redis := (w'.redis.after (.zadd (PresenceService.key env (.str s)) user_id x.now)).after
          (.hset user_id username) }) := by
    intro w'
    refine (Coro.run_perform_bind (S := Op.sig) ..).trans ?_
    refine (PresenceService.run_redisOp hx _).trans ?_
    refine (Coro.run_perform (S := Op.sig) ..).trans ?_
    simp [Op.exec, hx, Redis.answer]
  rw [honline]
  refine (Coro.run_bind ..).trans ?_
  rw [run_publish hx]
  refine (Coro.run_bind ..).trans ?_
  rw [PresenceService.run_getOnlineUsers hx rfl rfl]
  rfl

/-- Everything a member's `join_room` does, with nothing else going on. -/
theorem run_handleJoinRoom (hx : x.ok = true) (hp : (w.servers srv).broker.pubsub = some p)
    (hlock : (w.servers srv).manager.lock = none) (hidle : w.db.pending = []) {room user : Uuid}
    (hs : s ≠ "") (hroom : env.uuid s = some room) (huser : env.uuid user_id = some user)
    (hmember : w.db.committed.IsMember room user) :
    (handleJoinRoom env user_id username (.obj [("room_id", .str s)])).run
        (Op.exec env srv me) x w =
      some (.ok (), entered env srv p x user_id username s w) := by
  have hverify : (verifyMembership env user_id (.str s)).run (Op.exec env srv me) x w =
      some (.ok true, w) := by
    have hselect : DbOp.exec me (.selectMember room user) x.db w.db =
        some (.ok (w.db.committed.membership room user), w.db) := by
      have hview : w.db.view me = w.db.committed := by
        simp [Database.view, Database.flushed, hidle]
      have hok : x.db.ok = true := hx
      simp [DbOp.exec, DbOp.blocked, DbOp.answer, DbOp.reply, DbOp.after, hok, hview]
    have hsome := Tables.isSome_membership.mpr hmember
    refine (run_withSession (r := .ok true) ?_).trans (by rw [forget_idle hidle])
    rw [Env.parseUuid, hroom, Env.parseUuid, huser]
    change ((dbOp (.selectMember room user) >>= fun member =>
      (pure member.isSome : Prog Bool)) >>= fun is_member => _).run _ _ _ = _
    rw [bind_assoc, run_dbOp_ok hselect, pure_bind, hsome]
    rfl
  have htruthy : (Json.str s).truthy = true := by simp [Json.truthy, hs]
  change (if (Json.str s).truthy then
      (verifyMembership env user_id (.str s) >>= fun is_member =>
        if is_member = true then enterRoom env user_id username s else pure ())
    else _ : Prog Unit).run _ _ _ = _
  rw [htruthy, if_pos rfl]
  refine (Coro.run_bind ..).trans ?_
  rw [hverify]
  exact run_enterRoom hx hp hlock

/-! What the user has joined. -/

theorem getRoomUserIds_entered {r : RoomId} :
    ((entered env srv p x user_id username s w).servers srv).manager.getRoomUserIds r =
      ((w.servers srv).manager.joinRoom user_id s).getRoomUserIds r := by
  rw [entered, World.manager_setManager, if_pos rfl, ConnectionManager.getRoomUserIds,
    ConnectionManager.roomConnections_sendToUser]
  simp only [announced, World.manager_publish, World.manager_setManager]
  rfl

theorem channels_deliverTo {received : PubSubId → Bool} {channel other : Channel} {n : Nat}
    {message : Json} {b : RedisBroker} {q : PubSubId} :
    other ∈ ((World.deliverTo received channel n message b).heap q).channels ↔
      other ∈ (b.heap q).channels := by
  simp only [World.deliverTo]
  split <;> rfl

theorem channels_entered {channel : Channel} : channel ∈
      (((entered env srv p x user_id username s w).servers srv).broker.heap p).channels ↔
    channel = roomChannel env (.str s) ∨ channel ∈ ((w.servers srv).broker.heap p).channels := by
  rw [entered, World.broker_setManager]
  change channel ∈ ((World.deliverTo _ _ _ _ _).heap p).channels ↔ _
  rw [channels_deliverTo, World.broker_setManager, subscribed, World.broker_setBroker, if_pos rfl,
    RedisBroker.mem_channels_addChannel]
  simp

theorem score_entered {key : String} (htimeout : 0 < env.presenceTimeout)
    (hempty : ∀ k, w.redis.score k user_id = none) :
    ((entered env srv p x user_id username s w).redis.score key user_id).isSome = true ↔
      key = PresenceService.key env (.str s) := by
  have hnow : ¬(x.now : Int) ≤ (x.now : Int) - env.presenceTimeout :=
    PresenceService.not_le_cutoff.mpr (Nat.lt_add_of_pos_right htimeout)
  change (((((w.redis.after (.zadd (PresenceService.key env (.str s)) user_id x.now)).after
    (.hset user_id username)).after (.zremrangebyscore (PresenceService.key env (.str s))
      ((x.now : Int) - env.presenceTimeout))).score key user_id).isSome = true) ↔ _
  simp only [Redis.score_after, RedisOp.rescore, hempty]
  by_cases hk : key = PresenceService.key env (.str s)
  · simp [hk, hnow]
  · simp [hk]

end Join

/-! ## Two spellings of a room -/

/-- `join_room` with this spelling takes one world to the other. -/
def Joins (env : Env) (srv : ServerId) (me : TaskId) (x : Choice) (user_id : UserId)
    (username s : String) (w w' : World) : Prop :=
  (handleJoinRoom env user_id username (.obj [("room_id", .str s)])).run (Op.exec env srv me) x w =
    some (.ok (), w')

/-- Where a connection is: by server, user and name of the place. -/
abbrev Place := ServerId → UserId → World → String → Prop

/-- The user is in this entry of `_room_connections`. -/
def inEntry : Place := fun srv user_id w room_id =>
  user_id ∈ (w.servers srv).manager.getRoomUserIds room_id

/-- The instance is subscribed to this channel. -/
def onChannel : Place := fun srv _ w channel =>
  ∃ p, (w.servers srv).broker.pubsub = some p ∧
    channel ∈ ((w.servers srv).broker.heap p).channels

/-- The user is in the sorted set with this key. -/
def present : Place := fun _ user_id w key => (w.redis.score key user_id).isSome = true

/-- Joining with either spelling puts the user into the same places. -/
def JoinsAlike (env : Env) (s₁ s₂ : String) (place : Place) : Prop :=
  ∀ srv me x user_id username w w₁ w₂, Joins env srv me x user_id username s₁ w w₁ →
    Joins env srv me x user_id username s₂ w w₂ →
    ∀ name, place srv user_id w₁ name ↔ place srv user_id w₂ name

/-- The message is waiting for the listener of the instance, and the queue of the connection grows
when the listener hands it out. -/
def Hears (env : Env) (w : World) (srv : ServerId) (c : ConnId) (channel : Channel)
    (message : Json) : Prop :=
  ∃ p n, (w.servers srv).broker.listenerTask = some (.listening p) ∧
    (n, message) ∈ ((w.servers srv).broker.heap p).inbox channel ∧
    ((w.servers srv).manager.heap c).sendQueue.length <
      (((w.dispatchMessage env srv channel n message).servers srv).manager.heap c).sendQueue.length

/-- Handling the `message` event takes one world to the other and publishes `message`. -/
def SendsAs (env : Env) (srv : ServerId) (me : TaskId) (x : Choice) (user_id : UserId)
    (username content : String) (idempotency_key : Json) (s : String) (w w' : World)
    (channel : Channel) (message : Json) : Prop :=
  (handleMessage env user_id username (.obj [("room_id", .str s), ("content", .str content),
    ("idempotency_key", idempotency_key)])).run (Op.exec env srv me) x w = some (.ok (), w') ∧
  w'.redis.published = w.redis.published ++ [(channel, message)]

/-- A message with either spelling reaches the same connections. -/
def HeardAlike (env : Env) (s₁ s₂ : String) : Prop :=
  ∀ srv me x user_id username content key w w₁ w₂ channel₁ channel₂ message₁ message₂,
    SendsAs env srv me x user_id username content key s₁ w w₁ channel₁ message₁ →
    SendsAs env srv me x user_id username content key s₂ w w₂ channel₂ message₂ →
    ∀ other c, Hears env w₁ other c channel₁ message₁ ↔ Hears env w₂ other c channel₂ message₂

/-- The two spellings name one room. -/
structure OneRoom (env : Env) (s₁ s₂ : String) : Prop where
  heard : HeardAlike env s₁ s₂
  entry : JoinsAlike env s₁ s₂ inEntry
  channel : JoinsAlike env s₁ s₂ onChannel
  presence : JoinsAlike env s₁ s₂ present

section Spelling

variable {env : Env} {s s₁ s₂ : String} {room : Uuid}

theorem joinsAlike_self {place : Place} : JoinsAlike env s s place := by
  intro srv me x user_id username w w₁ w₂ h₁ h₂ name
  have hsame : w₁ = w₂ := by
    rw [Joins, h₁, Option.some.injEq, Prod.mk.injEq] at h₂
    exact h₂.2
  rw [hsame]

theorem heardAlike_self : HeardAlike env s s := by
  intro srv me x user_id username content key w w₁ w₂ channel₁ channel₂ message₁ message₂ h₁ h₂
    other c
  have hsame : w₁ = w₂ := by
    have h := h₂.1
    rw [h₁.1, Option.some.injEq, Prod.mk.injEq] at h
    exact h.2
  subst hsame
  have hlast := List.append_cancel_left (h₁.2.symm.trans h₂.2)
  cases hlast
  rfl

theorem roomChannel_inj : roomChannel env (.str s₁) = roomChannel env (.str s₂) ↔ s₁ = s₂ :=
  String.append_right_inj "room:"

theorem presenceKey_inj :
    PresenceService.key env (.str s₁) = PresenceService.key env (.str s₂) ↔ s₁ = s₂ :=
  String.append_right_inj "presence:"

/-! ### A user in a room -/

/-- The user is a member of the room. Any id will do for the user. -/
def roomTables (room user : Uuid) : Tables where
  users := Table.insert ∅ ⟨user, "u", "u@x.org", "", none, true⟩
  rooms := Table.insert ∅ ⟨room, "r", none, false, some user, Env.newYear⟩
  roomMembers := Table.insert ∅ ⟨0, room, user, .member, Env.newYear⟩
  messages := ∅

/-- The user has a connection on instance 0, whose listener runs, and has joined nothing. -/
def home (room user : Uuid) (user_id : UserId) : World :=
  ((World.init (roomTables room user)).setManager 0
    (ConnectionManager.init.register user_id "u")).setBroker 0
      RedisBroker.connected.startListening

/-- The user has joined the room with this spelling, and nothing is waiting. -/
def inside (env : Env) (room user : Uuid) (user_id : UserId) (s : String) : World :=
  (subscribed (home room user user_id) 0 0 (roomChannel env (.str s)) s).setManager 0
    ((ConnectionManager.init.register user_id "u").joinRoom user_id s)

theorem joins_home {user : Uuid} {user_id : UserId} (hroom : env.uuid s = some room) (hs : s ≠ "")
    (huser : env.uuid user_id = some user) :
    Joins env 0 0 (System.smooth 1) user_id "u" s (home room user user_id)
      (entered env 0 0 (System.smooth 1) user_id "u" s (home room user user_id)) := by
  refine run_handleJoinRoom (p := 0) rfl rfl ?_ rfl hs hroom huser
    ⟨⟨0, room, user, .member, Env.newYear⟩, List.mem_singleton_self _, rfl, rfl⟩
  rfl

/-- A message that goes through, from anybody. -/
theorem run_message {x : Choice} {srv : ServerId} {me : TaskId} {w : World} {user_id : UserId}
    {username : String} {data : Json} {d : MessageData} (hx : x.ok = true)
    (hw : w.db.pending = []) (hread : readMessage env data = .ok d) (hvalid : d.valid = true)
    {m : MessageRow} {t : Tables}
    (hstored : stored env x.db w.db.committed user_id d = .ok (m, t)) :
    (handleMessage env user_id username data).run (Op.exec env srv me) x w =
      some (.ok (), ({ w with db := { committed := t, pending := [] } } : World).publish x.received
        (roomChannel env d.roomId) (envelope "chat" (chatPayload env user_id username d m))) := by
  simp only [MessageData.valid, Bool.and_eq_true, decide_eq_true_eq] at hvalid
  obtain ⟨⟨htruthy, hcontent⟩, hlength⟩ := hvalid
  rw [handleMessage_eq, hread]
  change (handleRead env user_id username d).run _ _ _ = _
  rw [handleRead, if_neg (by simp [htruthy, hcontent]), if_neg (Nat.not_lt.mpr hlength)]
  refine (Coro.run_bind ..).trans ?_
  rw [run_storeMessage hx hw, hstored]
  exact run_publish hx

theorem sends_inside (s₁ : String) {user : Uuid} {user_id : UserId} (hroom : env.uuid s = some room)
    (hs : s ≠ "") (huser : env.uuid user_id = some user) (hstrip : env.strip "hi" = "hi") :
    ∃ m t, SendsAs env 0 0 (System.smooth 1) user_id "u" "hi" .null s
      (inside env room user user_id s₁)
      (({ inside env room user user_id s₁ with
        db := { committed := t, pending := [] } } : World).publish (fun _ _ => true)
          (roomChannel env (.str s)) m)
      (roomChannel env (.str s)) m ∧
      ∃ payload, m = envelope "chat" payload := by
  have hread : readMessage env (.obj [("room_id", .str s), ("content", .str "hi"),
      ("idempotency_key", .null)]) = .ok ⟨.str s, "hi", .null⟩ := by
    change (do
      let content ← Except.ok (env.strip "hi")
      pure (⟨.str s, content, .null⟩ : MessageData) : Except Exn MessageData) = _
    rw [hstrip]
    rfl
  have hvalid : MessageData.valid ⟨.str s, "hi", .null⟩ = true := by
    simp only [MessageData.valid, Json.truthy, bne_iff_ne, ne_eq, hs, not_false_eq_true,
      Bool.and_eq_true, decide_eq_true_eq, true_and]
    decide
  have hrow : DbOp.messageRow (System.smooth 1).db (roomTables room user) room user "hi" .text
      .null = .ok (DbOp.newMessage (System.smooth 1).db room user "hi" .text none) :=
    DbOp.messageRow_eq_ok.mpr ⟨none, rfl, by decide, rfl,
      ⟨⟨user, "u", "u@x.org", "", none, true⟩, List.mem_singleton_self _, rfl⟩,
      ⟨⟨room, "r", none, false, some user, Env.newYear⟩, List.mem_singleton_self _, rfl⟩,
      fun _ h => by cases h⟩
  have hstored : stored env (System.smooth 1).db (inside env room user user_id s₁).db.committed
      user_id ⟨.str s, "hi", .null⟩ =
      .ok (DbOp.newMessage (System.smooth 1).db room user "hi" .text none,
        (roomTables room user).apply (.addMessage
          (DbOp.newMessage (System.smooth 1).db room user "hi" .text none))) := by
    have hanswer : DbOp.answer (System.smooth 1).db (roomTables room user)
        (.insertMessage room user "hi" .text .null) =
          .ok (DbOp.newMessage (System.smooth 1).db room user "hi" .text none) := hrow
    rw [stored, Env.parseUuid, hroom, Env.parseUuid, huser]
    change saved (System.smooth 1).db (roomTables room user) room user "hi" .null = _
    rw [saved, if_neg (by decide), saved.inserted, hanswer]
    rfl
  exact ⟨_, _, ⟨run_message rfl rfl hread hvalid hstored, rfl⟩, _, rfl⟩

theorem roomChannel_ne_dummy : roomChannel env (.str s) ≠ RedisBroker.dummyChannel := by
  intro h
  have := congrArg (fun c : String => c.toList.head?) h
  simp [roomChannel, RedisBroker.dummyChannel] at this

theorem queue_joined (user_id : UserId) :
    ((((ConnectionManager.init (π := Delivery)).register user_id "u").joinRoom user_id s).heap
      0).sendQueue = [] := by
  rw [ConnectionManager.heap_joinRoom]
  split <;> rfl

theorem queue_broadcast {user_id : UserId} {maxsize : Nat} {d : Delivery} :
    ((((ConnectionManager.init.register user_id "u").joinRoom user_id s).broadcastToRoom maxsize s
      d none).heap 0).sendQueue = [d] := by
  have hconn : ((ConnectionManager.init (π := Delivery)).register user_id "u").connections.get?
      user_id = some 0 := Dict.get?_set_self _ _ _
  have hjoined : (((ConnectionManager.init (π := Delivery)).register user_id "u").joinRoom user_id
      s).connections.get? user_id = some 0 := by
    rw [ConnectionManager.connections_joinRoom]
    exact hconn
  have helems : ((((ConnectionManager.init (π := Delivery)).register user_id "u").joinRoom user_id
      s).getRoomUserIds s).elems = [user_id] := by
    simp only [ConnectionManager.joinRoom, hconn, ConnectionManager.getRoomUserIds,
      Dict.get?_set_self, Option.getD_some]
    rfl
  have hqueue := queue_joined (s := s) user_id
  have hfull : ConnectionManager.full maxsize ([] : List Delivery) = false := by
    simp only [ConnectionManager.full, List.length_nil, Bool.and_eq_false_iff,
      decide_eq_false_iff_not]
    omega
  generalize ((ConnectionManager.init (π := Delivery)).register user_id "u").joinRoom user_id s = m
    at hjoined helems hqueue ⊢
  simp [ConnectionManager.broadcastToRoom, helems, ConnectionManager.deliver, hjoined, hqueue,
    hfull, ConnectionManager.enqueue, ConnectionManager.modify]

/-- A connection in the room hears a message with the spelling it has joined with, and no other. -/
theorem hears_inside {user : Uuid} {user_id : UserId} {t : Tables} {payload : WSOutboundMessage} :
    Hears env (({ inside env room user user_id s₁ with
      db := { committed := t, pending := [] } } : World).publish (fun _ _ => true)
        (roomChannel env (.str s)) (envelope "chat" payload)) 0 0 (roomChannel env (.str s))
      (envelope "chat" payload) ↔ s = s₁ := by
  constructor
  · rintro ⟨p, n, -, -, hgrows⟩
    by_contra hne
    have hcallback : ((({ inside env room user user_id s₁ with
        db := { committed := t, pending := [] } } : World).publish (fun _ _ => true)
          (roomChannel env (.str s)) (envelope "chat" payload)).servers 0).broker.callbacks.get?
            (roomChannel env (.str s)) = none := by
      change ((∅ : Dict Channel RoomId).set (roomChannel env (.str s₁)) s₁).get? _ = none
      rw [Dict.get?_set, if_neg (mt roomChannel_inj.mp hne)]
      rfl
    rw [World.dispatchMessage_none hcallback] at hgrows
    exact Nat.lt_irrefl _ hgrows
  · rintro rfl
    refine ⟨0, 0, rfl, ?_, ?_⟩
    · have hon : roomChannel env (.str s) ∈
          (((inside env room user user_id s).servers 0).broker.heap 0).channels := by
        rw [inside, World.broker_setManager, subscribed, World.broker_setBroker, if_pos rfl,
          RedisBroker.mem_channels_addChannel]
        exact .inl ⟨rfl, rfl⟩
      change (0, _) ∈ (if _ ∈ (((inside env room user user_id s).servers 0).broker.heap 0).channels ∧
        true = true then _ else _ : PubSub).inbox _
      rw [if_pos ⟨hon, rfl⟩]
      change (0, _) ∈ Function.update (β := fun _ : Channel => List (Nat × Json)) _ _ _ _
      rw [Function.update_self]
      exact List.mem_append_right _ (List.mem_singleton_self _)
    · have hcallback : ((({ inside env room user user_id s with
          db := { committed := t, pending := [] } } : World).publish (fun _ _ => true)
            (roomChannel env (.str s)) (envelope "chat" payload)).servers 0).broker.callbacks.get?
              (roomChannel env (.str s)) = some s := by
        change ((∅ : Dict Channel RoomId).set (roomChannel env (.str s)) s).get? _ = some s
        rw [Dict.get?_set_self]
      have hhandler : roomMessageHandler (envelope "chat" payload) = .ok (some (payload, none)) := rfl
      rw [World.dispatchMessage_some hcallback hhandler, World.manager_setManager, if_pos rfl,
        World.manager_publish]
      change _ < ((((ConnectionManager.init.register user_id "u").joinRoom user_id s).broadcastToRoom
        _ s _ none).heap 0).sendQueue.length
      rw [queue_broadcast]
      change ((((ConnectionManager.init.register user_id "u").joinRoom user_id s).heap
        0).sendQueue.length) < 1
      rw [queue_joined]
      exact Nat.one_pos

/-- Two spellings are two rooms, for the messages and in each of the three places. -/
theorem spellings_apart (hroom₁ : env.uuid s₁ = some room) (hroom₂ : env.uuid s₂ = some room)
    (hempty : env.uuid "" = none) (hstrip : env.strip "hi" = "hi")
    (htimeout : 0 < env.presenceTimeout) (hne : s₁ ≠ s₂) :
    ¬HeardAlike env s₁ s₂ ∧ ¬JoinsAlike env s₁ s₂ inEntry ∧
      ¬JoinsAlike env s₁ s₂ onChannel ∧ ¬JoinsAlike env s₁ s₂ present := by
  have hs₁ : s₁ ≠ "" := by
    rintro rfl
    rw [hempty] at hroom₁
    cases hroom₁
  have hs₂ : s₂ ≠ "" := by
    rintro rfl
    rw [hempty] at hroom₂
    cases hroom₂
  -- the user's id is spelled like the room's
  have hjoins₁ := joins_home hroom₁ hs₁ hroom₁
  have hjoins₂ := joins_home hroom₂ hs₂ hroom₁
  have hentry : JoinsAlike env s₁ s₂ inEntry → s₁ = s₂ := by
    intro h
    have hin : inEntry 0 s₁ (entered env 0 0 (System.smooth 1) s₁ "u" s₁ (home room room s₁)) s₁ := by
      rw [inEntry, getRoomUserIds_entered, ConnectionManager.mem_getRoomUserIds_joinRoom]
      exact .inr ⟨rfl, rfl, 0, Dict.get?_set_self _ _ _⟩
    have hin₂ := (h _ _ _ _ _ _ _ _ hjoins₁ hjoins₂ s₁).mp hin
    rw [inEntry, getRoomUserIds_entered, ConnectionManager.mem_getRoomUserIds_joinRoom] at hin₂
    rcases hin₂ with hold | ⟨-, he, -⟩
    · cases hold
    · exact he
  have hchannel : JoinsAlike env s₁ s₂ onChannel → s₁ = s₂ := by
    intro h
    have hon : onChannel 0 s₁ (entered env 0 0 (System.smooth 1) s₁ "u" s₁ (home room room s₁))
        (roomChannel env (.str s₁)) := ⟨0, rfl, channels_entered.mpr (.inl rfl)⟩
    obtain ⟨p, hp, hon₂⟩ := (h _ _ _ _ _ _ _ _ hjoins₁ hjoins₂ _).mp hon
    cases hp
    rcases channels_entered.mp hon₂ with he | hdummy
    · exact roomChannel_inj.mp he
    · exact absurd (List.mem_singleton.mp hdummy) roomChannel_ne_dummy
  have hpresent : JoinsAlike env s₁ s₂ present → s₁ = s₂ := by
    intro h
    have hempty : ∀ k, (home room room s₁).redis.score k s₁ = none := fun _ => rfl
    have hin : present 0 s₁ (entered env 0 0 (System.smooth 1) s₁ "u" s₁ (home room room s₁))
        (PresenceService.key env (.str s₁)) := (score_entered htimeout hempty).mpr rfl
    have hin₂ := (h _ _ _ _ _ _ _ _ hjoins₁ hjoins₂ _).mp hin
    exact presenceKey_inj.mp ((score_entered htimeout hempty).mp hin₂)
  have hheard : HeardAlike env s₁ s₂ → s₁ = s₂ := by
    intro h
    obtain ⟨m₁, t₁, hsends₁, payload₁, rfl⟩ :=
      sends_inside s₁ hroom₁ hs₁ hroom₁ hstrip
    obtain ⟨m₂, t₂, hsends₂, payload₂, rfl⟩ :=
      sends_inside s₁ hroom₂ hs₂ hroom₁ hstrip
    have hboth := h _ _ _ _ _ _ _ _ _ _ _ _ _ _ hsends₁ hsends₂ 0 0
    exact (hears_inside.mp (hboth.mp (hears_inside.mpr rfl))).symm
  exact ⟨mt hheard hne, mt hentry hne, mt hchannel hne, mt hpresent hne⟩

/-- **A room is its spelling, not its UUID.** -/
theorem one_room_iff (hroom₁ : env.uuid s₁ = some room) (hroom₂ : env.uuid s₂ = some room)
    (hempty : env.uuid "" = none) (hstrip : env.strip "hi" = "hi")
    (htimeout : 0 < env.presenceTimeout) :
    (OneRoom env s₁ s₂ ↔ s₁ = s₂) ∧
    (s₁ ≠ s₂ → ¬HeardAlike env s₁ s₂ ∧ ¬JoinsAlike env s₁ s₂ inEntry ∧
      ¬JoinsAlike env s₁ s₂ onChannel ∧ ¬JoinsAlike env s₁ s₂ present) := by
  have happart := spellings_apart hroom₁ hroom₂ hempty hstrip htimeout
  refine ⟨⟨fun h => ?_, ?_⟩, happart⟩
  · by_contra hne
    exact (happart hne).2.1 h.entry
  · rintro rfl
    exact ⟨heardAlike_self, joinsAlike_self, joinsAlike_self, joinsAlike_self⟩

end Spelling

/-! ### With and without hyphens -/

namespace Sample

/-- Room 3 may also be spelled without hyphens. -/
def lenient : Env :=
  { Env.sample with
    uuid := fun s => if s = "00000000000000000000000000000003" then some 3
      else Env.sample.uuid s }

end Sample

/-- The canonical spelling of room 3. -/
theorem one_room_canonical : OneRoom Sample.lenient "00000000-0000-0000-0000-000000000003"
    "00000000-0000-0000-0000-000000000003" :=
  have hroom : Sample.lenient.uuid "00000000-0000-0000-0000-000000000003" = some 3 := by decide
  (one_room_iff hroom hroom (by decide) rfl (by decide)).1.mpr rfl

/-- **Room 3 with hyphens and room 3 without are not one room.** -/
theorem not_one_room : ¬∀ (env : Env) (s₁ s₂ : String) (room : Uuid), env.uuid s₁ = some room →
    env.uuid s₂ = some room → OneRoom env s₁ s₂ := by
  intro hall
  have hyphens : Sample.lenient.uuid "00000000-0000-0000-0000-000000000003" = some 3 := by decide
  have hplain : Sample.lenient.uuid "00000000000000000000000000000003" = some 3 := by decide
  exact (spellings_apart hyphens hplain (by decide) rfl (by decide) (by decide)).2.1
    (hall _ _ _ 3 hyphens hplain).entry

end NexusChat.Chat
