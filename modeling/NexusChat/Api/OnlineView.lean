import NexusChat.Api.Attendance
import NexusChat.App.LiveOrder
import NexusChat.Messaging.SingleSession

/-!
# What a client sees of a room

Three places hold a piece of the online list a client will show: the list itself, the payloads
queued on the connection, and the events its instance has not handed out. Here is what each
operation of a call, and each step of a listener or a send task, does to the three.

Most do nothing to them: `Aside` is said of such a change of the manager, `Unheard` of the broker,
and `Calm` of the world.
-/

set_option autoImplicit false

namespace NexusChat

namespace Attendance

open WebSocketConnection ConnectionManager

variable {env : Env} {room_id : RoomId} {start : Time} {u v : UserId} {srv : ServerId}

/-! ## What the client shows -/

/-- `onlineUsers[room_id]` -/
def users (room_id : RoomId) (c : Client) : List Client.OnlineUser :=
  (c.onlineUsers.get? room_id).getD []

/-- The user is on the list. -/
def shown (room_id : RoomId) (c : Client) (v : UserId) : Bool :=
  (users room_id c).any fun e => e.userId = v

/-- Nobody is on the list twice. -/
def NoDuplicates (room_id : RoomId) (c : Client) : Prop :=
  ((users room_id c).map Client.OnlineUser.userId).Nodup

section Client

variable {c : Client} {username : String} {online : Bool} {us : List Json}

theorem shown_iff : shown room_id c v = true ↔
    v ∈ (users room_id c).map Client.OnlineUser.userId := by
  simp [shown]

theorem users_presence : users room_id (c.receive (presence room_id v username online)) =
    if online then
      if shown room_id c v then users room_id c else users room_id c ++ [⟨v, username⟩]
    else (users room_id c).filter fun e => e.userId ≠ v := by
  unfold Client.receive presence
  rw [Client.decode_presenceUpdate]
  simp only [users, Client.handleWSMessage, Client.handlePresenceUpdate, Dict.get?_set_self,
    Option.getD_some]
  cases online with
  | true => rfl
  | false => rfl

/-- **A presence payload sets one entry.** -/
theorem shown_presence : shown room_id (c.receive (presence room_id v username online)) =
    Function.update (shown room_id c) v online := by
  funext w
  rw [Bool.eq_iff_iff, shown_iff, users_presence]
  by_cases hw : w = v
  · subst hw
    rw [Function.update_self]
    cases online with
    | false => simp
    | true =>
      simp only [if_true, iff_true]
      split
      · rename_i hshown
        exact shown_iff.mp hshown
      · simp
  · rw [Function.update_of_ne hw]
    refine Iff.trans ?_ shown_iff.symm
    cases online with
    | false =>
      simp only [Bool.false_eq_true, if_false, List.mem_map, List.mem_filter, decide_eq_true_eq]
      constructor
      · rintro ⟨e, ⟨he, -⟩, rfl⟩
        exact ⟨e, he, rfl⟩
      · rintro ⟨e, he, rfl⟩
        exact ⟨e, ⟨he, hw⟩, rfl⟩
    | true =>
      simp only [if_true]
      split
      · exact Iff.rfl
      · simp [hw]

theorem noDuplicates_presence (h : NoDuplicates room_id c) :
    NoDuplicates room_id (c.receive (presence room_id v username online)) := by
  unfold NoDuplicates
  rw [users_presence]
  cases online with
  | false => exact h.sublist (List.filter_sublist.map _)
  | true =>
    simp only [if_true]
    split
    · exact h
    · rename_i hnew
      rw [List.map_append, List.map_singleton]
      exact h.append (List.nodup_singleton _) (by simpa [shown_iff] using hnew)

/-- The list replaces what was there. -/
theorem map_users_onlineUsers :
    (users room_id (c.receive (onlineUsers room_id us))).map Client.OnlineUser.userId =
      userIds us := by
  have hdecode : Client.Event.decode (onlineUsers room_id us) =
      some (.onlineUsers room_id (us.filterMap Client.OnlineUser.ofJson)) := by
    simp [Client.Event.decode, onlineUsers, Client.field, Json.lookup]
  unfold Client.receive
  rw [hdecode]
  simp only [users, Client.handleWSMessage, Client.handleOnlineUsers, Dict.get?_set_self,
    Option.getD_some]
  rfl

end Client

/-! ## What the client is sent -/

/-- What has been queued for the user on the instance, the oldest first. -/
def inbound (m : ConnectionManager Delivery) (u : UserId) : List Delivery :=
  match m.connections.get? u with
  | some c => (m.heap c).passed
  | none => []

/-- A change of the manager that does not concern the user: it queues nothing for them, and they
stay connected and in the room. -/
structure Aside (room_id : RoomId) (u : UserId) (m m' : ConnectionManager Delivery) : Prop where
  owned : m'.Owned
  inbound : inbound m' u = inbound m u
  conn : ∀ c, m.connections.get? u = some c → m'.connections.get? u = some c
  room : u ∈ m.getRoomUserIds room_id → u ∈ m'.getRoomUserIds room_id

section Manager

variable {m m' : ConnectionManager Delivery} {d : Delivery} {maxsize : Nat} {c : ConnId}

theorem inbound_of_passed (hconn : m'.connections = m.connections)
    (hpassed : ∀ c, (m'.heap c).passed = (m.heap c).passed) : inbound m' u = inbound m u := by
  unfold inbound
  rw [hconn]
  split
  · exact hpassed _
  · rfl

theorem aside_joinRoom (h : m.Owned) : Aside room_id u m (m.joinRoom v room_id) where
  owned := by
    change ((ManagerOp.joinRoom v room_id).after 0 0 m).Owned
    exact owned_after h
  inbound := inbound_of_passed connections_joinRoom fun c => by
    rw [heap_joinRoom]
    split <;> rfl
  conn := fun c hc => by rwa [connections_joinRoom]
  room := fun hu => mem_getRoomUserIds_joinRoom.mpr (Or.inl hu)

theorem aside_leaveRoom (h : m.Owned) (hv : v ≠ u) :
    Aside room_id u m (m.leaveRoom v (.str room_id)).2 where
  owned := by
    change ((ManagerOp.leaveRoom v (.str room_id)).after 0 0 m).Owned
    exact owned_after h
  inbound := inbound_of_passed connections_leaveRoom fun c => by
    rw [heap_leaveRoom]
    dsimp only
    split <;> rfl
  conn := fun c hc => by rwa [connections_leaveRoom]
  room := fun hu => mem_getRoomUserIds_leaveRoom.mpr ⟨hu, fun hvu => hv hvu.1.symm⟩

theorem getRoomUserIds_sendToUser {r : RoomId} :
    (m.sendToUser maxsize v d).getRoomUserIds r = m.getRoomUserIds r := by
  rw [getRoomUserIds, roomConnections_sendToUser]
  rfl

/-- A payload for somebody else. -/
theorem aside_sendToUser (h : m.Owned) (hv : v ≠ u) :
    Aside room_id u m (m.sendToUser maxsize v d) where
  owned := owned_sendToUser h
  inbound := by
    unfold inbound
    rw [connections_sendToUser]
    split
    · rename_i c hc
      rw [heap_sendToUser_eq, heap_deliver_of_ne]
      intro hcv
      exact hv ((h v c hcv).1.symm.trans (h u c hc).1)
    · rfl
  conn := fun c hc => by rwa [connections_sendToUser]
  room := fun hu => by rwa [getRoomUserIds_sendToUser]

/-- A connection for a user who has none. -/
theorem aside_register {username : String} (h : m.Owned) (hnone : m.connections.get? v = none) :
    Aside room_id u m (m.register v username) where
  owned := owned_register h
  inbound := by
    unfold inbound
    rw [get?_register]
    by_cases huv : u = v
    · subst huv
      rw [if_pos rfl, hnone]
      simp only [heap_register, if_true]
      rfl
    · rw [if_neg huv]
      split
      · rename_i c hc
        rw [heap_register, if_neg (Nat.ne_of_lt (h u c hc).2)]
      · rfl
  conn := fun c hc => by
    have huv : u ≠ v := fun he => by rw [he, hnone] at hc; cases hc
    rwa [get?_register, if_neg huv]
  room := id

/-- The send task takes a payload of an open socket. -/
theorem aside_sendTake (h : m.Owned) (hopen : (m.heap c).websocket = ⟨.connected, .connected⟩)
    (hs : m.sendTake c = some m') : Aside room_id u m m' := by
  unfold sendTake at hs
  split at hs
  · rename_i p queue htask hqueue
    cases hs
    refine ⟨owned_modify h fun _ => rfl, inbound_of_passed rfl fun c' => ?_, fun _ hc => hc, id⟩
    rw [heap_modify]
    by_cases hc : c' = c
    · subst hc
      rw [if_pos rfl, if_pos hopen]
      simp [passed, inFlight, htask, hqueue]
    · rw [if_neg hc]
  · cases hs

theorem aside_sendDone {wrote : Bool} (h : m.Owned) (hs : m.sendDone c true wrote = some m') :
    Aside room_id u m m' := by
  unfold sendDone at hs
  split at hs
  · rename_i p htask
    cases hs
    refine ⟨owned_modify h fun _ => rfl, inbound_of_passed rfl fun c' => ?_, fun _ hc => hc, id⟩
    rw [heap_modify]
    split
    · rename_i hc
      subst hc
      simp [passed, inFlight, htask]
    · rfl
  · cases hs

theorem getRoomUserIds_broadcastToRoom {r : RoomId} {ex : Option UserId} :
    (m.broadcastToRoom maxsize room_id d ex).getRoomUserIds r = m.getRoomUserIds r := by
  refine broadcastToRoom_induction (P := fun m' => m'.getRoomUserIds r = m.getRoomUserIds r) rfl
    fun m' w hm' => ?_
  rw [← hm']
  unfold deliver
  split
  · rfl
  · split <;> rfl

theorem owned_broadcastToRoom (h : m.Owned) :
    (m.broadcastToRoom maxsize room_id d none).Owned :=
  owned_congr h (fun _ _ hc => by rwa [connections_broadcastToRoom] at hc)
    (fun _ => congrArg Prod.snd identity_broadcastToRoom) (Nat.le_of_eq flags_broadcastToRoom.1.symm)

/-- A broadcast to a room the user is in. -/
theorem inbound_broadcastToRoom (h : m.Owned) (hu : u ∈ m.getRoomUserIds room_id)
    (hc : m.connections.get? u = some c) (hspace : full maxsize (m.heap c).sendQueue = false) :
    inbound (m.broadcastToRoom maxsize room_id d none) u = inbound m u ++ [d] := by
  have hin : u ∈ (m.getRoomUserIds room_id).elems.filter fun w => some w ≠ none :=
    List.mem_filter.mpr ⟨hu, by simp⟩
  have hto : m.addressees ((m.getRoomUserIds room_id).elems.filter fun w => some w ≠ none) c =
      true := List.any_eq_true.mpr ⟨u, hin, decide_eq_true hc⟩
  unfold inbound
  rw [connections_broadcastToRoom, hc]
  dsimp only
  rw [broadcastToRoom, heap_deliverAll h ((m.getRoomUserIds room_id).nodup.filter _), hto, hspace]
  exact passed_enqueue _ _

/-- A payload for the user. -/
theorem inbound_sendToUser (hc : m.connections.get? u = some c)
    (hspace : full maxsize (m.heap c).sendQueue = false) :
    inbound (m.sendToUser maxsize u d) u = inbound m u ++ [d] := by
  unfold inbound
  rw [connections_sendToUser, hc]
  dsimp only
  rw [heap_sendToUser_eq, heap_deliver_self hc, hspace]
  exact passed_enqueue _ _

end Manager

/-! ## What is under way -/

/-- Whose status a message on the room's channel announces, and which. -/
def news (message : Json) : Option (UserId × Bool) :=
  match Chat.roomMessageHandler message with
  | .ok (some (outbound, _)) =>
    match Client.Event.decode outbound with
    | some (.presence _ user_id _ status) => some (user_id, decide (status = "online"))
    | _ => none
  | _ => none

theorem news_presence {username : String} {online : Bool} :
    news (envelope "presence" (presence room_id v username online)) = some (v, online) := by
  have hhandler : Chat.roomMessageHandler
      (envelope "presence" (presence room_id v username online)) =
        .ok (some (presence room_id v username online, none)) := rfl
  unfold news
  rw [hhandler]
  unfold presence
  simp only [Client.decode_presenceUpdate]
  cases online with
  | true => rfl
  | false => rfl

/-- The presence events the instance has not handed out. -/
def transit (env : Env) (room_id : RoomId) (b : RedisBroker) : List (UserId × Bool) :=
  (b.waiting (channel env room_id)).filterMap fun e => news e.2

/-- The broker has the PubSub it was started with. -/
structure Plain (b : RedisBroker) : Prop where
  pubsub : b.pubsub = some 0
  listener : b.listenerTask = some .created ∨ b.listenerTask = some (.listening 0)

/-- A broker that serves no room but this one. -/
structure Serves (env : Env) (room_id : RoomId) (b : RedisBroker) : Prop where
  callback : ∀ room, b.callbacks.get? (channel env room_id) = some room → room = room_id
  news : ∀ ch, ∀ e ∈ b.waiting ch, ch = channel env room_id ∧
    ∃ v username online, e.2 = envelope "presence" (presence room_id v username online)
  silent : channel env room_id ∉ (b.heap 0).channels → b.waiting (channel env room_id) = []

/-- A change of the broker by which nothing arrives; its callback and its subscription stay. -/
structure Unheard (env : Env) (room_id : RoomId) (b b' : RedisBroker) : Prop where
  plain : Plain b'
  serves : Serves env room_id b'
  callback : b.callbacks.get? (channel env room_id) = some room_id →
    b'.callbacks.get? (channel env room_id) = some room_id
  subscribed : channel env room_id ∈ (b.heap 0).channels →
    channel env room_id ∈ (b'.heap 0).channels
  waiting : ∀ ch, b'.waiting ch = b.waiting ch

section Broker

variable {b b' : RedisBroker} {n : Nat} {message : Json}

theorem Plain.tuned (h : Plain b) : b.Tuned := by
  intro p hp
  rcases h.listener with hl | hl
  · rw [hl] at hp
    cases hp
  · rw [hl] at hp
    cases hp
    exact h.pubsub

theorem Plain.waiting (h : Plain b) (ch : Channel) : b.waiting ch = (b.heap 0).inbox ch := by
  rw [RedisBroker.waiting, h.pubsub]

theorem Plain.startListening (h : Plain b) : b.startListening =
    { b with
      listenerTask := some (.listening 0)
      starts := b.starts ++ [(b.heap 0).channels.elems.length] } := by
  unfold RedisBroker.startListening
  rw [h.pubsub]

theorem Plain.setCallback (h : Plain b) {ch : Channel} {room : RoomId} :
    Plain ((BrokerOp.setCallback ch room).after true b) := by
  simp only [BrokerOp.after]
  split
  · exact ⟨h.pubsub, h.listener⟩
  · exact h

theorem Plain.subscribe (h : Plain b) {ch : Channel} :
    Plain ((BrokerOp.subscribe 0 ch).after true b) := ⟨h.pubsub, h.listener⟩

/-- The callback is stored. -/
theorem unheard_setCallback (hp : Plain b) (h : Serves env room_id b) : Unheard env room_id b
    ((BrokerOp.setCallback (channel env room_id) room_id).after true b) := by
  have hafter : (BrokerOp.setCallback (channel env room_id) room_id).after true b =
      { b with callbacks := b.callbacks.set (channel env room_id) room_id } := by
    simp only [BrokerOp.after, hp.pubsub, Option.isSome_some, if_true]
  rw [hafter]
  have hget : (b.callbacks.set (channel env room_id) room_id).get? (channel env room_id) =
      some room_id := Dict.get?_set_self ..
  refine ⟨⟨hp.pubsub, hp.listener⟩, ⟨fun room hroom => ?_, h.news, h.silent⟩, fun _ => hget, id,
    fun _ => rfl⟩
  exact Option.some.inj (hroom.symm.trans hget)

/-- The channel is subscribed to. -/
theorem unheard_subscribe (hp : Plain b) (h : Serves env room_id b) : Unheard env room_id b
    ((BrokerOp.subscribe 0 (channel env room_id)).after true b) := by
  have hwaiting : ∀ ch, ((BrokerOp.subscribe 0 (channel env room_id)).after true b).waiting ch =
      b.waiting ch := fun ch => RedisBroker.waiting_after (by simp)
  have hin : channel env room_id ∈
      (((BrokerOp.subscribe 0 (channel env room_id)).after true b).heap 0).channels :=
    RedisBroker.mem_channels_addChannel.mpr (Or.inl ⟨rfl, rfl⟩)
  refine ⟨⟨hp.pubsub, hp.listener⟩, ⟨h.callback, fun ch e he => ?_, fun hn => absurd hin hn⟩, id,
    fun _ => hin, hwaiting⟩
  exact h.news ch e (hwaiting ch ▸ he)

/-- Redis delivers a message of a channel to a broker that is subscribed to it. -/
theorem waiting_deliver (hp : Plain b) {received : PubSubId → Bool} (hr : received 0 = true)
    (ch other : Channel) : (World.deliverTo received ch n message b).waiting other =
      b.waiting other ++
        if other = ch ∧ ch ∈ (b.heap 0).channels then [(n, message)] else [] := by
  have hp' : Plain (World.deliverTo received ch n message b) := ⟨hp.pubsub, hp.listener⟩
  rw [hp'.waiting, hp.waiting]
  simp only [World.deliverTo, hr, and_true]
  by_cases hch : ch ∈ (b.heap 0).channels
  · rw [if_pos hch]
    by_cases ho : other = ch
    · subst ho
      simp [hch]
    · simp [ho]
  · simp [hch]

/-- A presence event reaches the broker if it is subscribed. -/
theorem transit_deliver (hp : Plain b) {received : PubSubId → Bool} (hr : received 0 = true)
    {username : String} {online : Bool} :
    transit env room_id (World.deliverTo received (channel env room_id) n
        (envelope "presence" (presence room_id v username online)) b) =
      transit env room_id b ++
        if channel env room_id ∈ (b.heap 0).channels then [(v, online)] else [] := by
  unfold transit
  rw [waiting_deliver hp hr, List.filterMap_append]
  split
  · rename_i h
    simp [h.2, news_presence]
  · rename_i h
    simp only [true_and] at h
    simp [h]

theorem serves_deliver (hp : Plain b) (h : Serves env room_id b) {received : PubSubId → Bool}
    (hr : received 0 = true) {username : String} {online : Bool} :
    Serves env room_id (World.deliverTo received (channel env room_id) n
      (envelope "presence" (presence room_id v username online)) b) := by
  have hchannels : ((World.deliverTo received (channel env room_id) n
      (envelope "presence" (presence room_id v username online)) b).heap 0).channels =
        (b.heap 0).channels := by
    simp only [World.deliverTo]
    split <;> rfl
  refine ⟨h.callback, fun ch e he => ?_, fun hn => ?_⟩
  · rw [waiting_deliver hp hr] at he
    rcases List.mem_append.mp he with he | he
    · exact h.news ch e he
    · split at he
      · rename_i hch
        cases List.mem_singleton.mp he
        exact ⟨hch.1, _, _, _, rfl⟩
      · cases he
  · rw [hchannels] at hn
    rw [waiting_deliver hp hr, h.silent hn, if_neg fun hch => hn hch.2]
    rfl

/-- The listener starts. -/
theorem unheard_begin (hp : Plain b) (h : Serves env room_id b)
    {m : Option (Channel × Nat × Json)} (hs : b.listenerStep .begin = some (b', m)) :
    m = none ∧ Unheard env room_id b b' := by
  rcases hp.listener with hl | hl
  · simp only [RedisBroker.listenerStep, hl, hp.startListening, Option.some.injEq,
      Prod.mk.injEq] at hs
    obtain ⟨rfl, rfl⟩ := hs
    exact ⟨rfl, ⟨hp.pubsub, Or.inr rfl⟩, ⟨h.callback, h.news, h.silent⟩, id, id, fun _ => rfl⟩
  · simp [RedisBroker.listenerStep, hl] at hs

/-- It hands out the oldest presence event: its broker has nothing else. -/
theorem receive_eq (hp : Plain b) (h : Serves env room_id b) {ch : Channel}
    {m : Option (Channel × Nat × Json)} (hs : b.listenerStep (.receive ch) = some (b', m)) :
    ∃ n v username online, m = some (channel env room_id, n,
        envelope "presence" (presence room_id v username online)) ∧
      transit env room_id b = (v, online) :: transit env room_id b' ∧
      Plain b' ∧ Serves env room_id b' ∧ b'.callbacks = b.callbacks ∧
      (b'.heap 0).channels = (b.heap 0).channels := by
  rcases hp.listener with hl | hl
  · simp [RedisBroker.listenerStep, hl] at hs
  · have hwait := RedisBroker.listenerStep_waiting hp.tuned hs
    simp only [RedisBroker.listenerStep, hl] at hs
    split at hs
    · cases hs
    · rename_i n data rest hinbox
      cases hs
      obtain ⟨-, hhead, hother⟩ := hwait
      obtain ⟨rfl, v, username, online, hdata⟩ := h.news ch (n, data) (by
        rw [hhead]
        exact List.mem_cons_self)
      obtain rfl : data = _ := hdata
      have hchannels : ((b.takeMessage 0 (channel env room_id) rest).heap 0).channels =
          (b.heap 0).channels := by
        rw [RedisBroker.takeMessage, RedisBroker.heap_modify, if_pos rfl]
      refine ⟨n, v, username, online, rfl, ?_, ⟨hp.pubsub, Or.inr hl⟩, ⟨h.callback, ?_, ?_⟩, rfl,
        hchannels⟩
      · unfold transit
        rw [hhead]
        exact List.filterMap_cons_some news_presence
      · intro ch e he
        by_cases hch : ch = channel env room_id
        · subst hch
          exact h.news _ e (hhead ▸ List.mem_cons_of_mem _ he)
        · exact h.news ch e (hother ch hch ▸ he)
      · intro hn
        rw [hchannels] at hn
        rw [h.silent hn] at hhead
        cases hhead

end Broker

/-! ## The world the user sees -/

/-- The user is in `presence:{room_id}`. -/
def present (env : Env) (room_id : RoomId) (w : World) (v : UserId) : Bool :=
  (w.redis.score (key env room_id) v).isSome

/-- The client of the user when everything queued for it has been processed. -/
def client (u : UserId) (c : Client) (m : ConnectionManager Delivery) : Client :=
  (inbound m u).foldl (fun c d => c.receive d.message) c

/-- No broker has been replaced, the instance serves this room alone, and no presence is old. -/
structure Sound (env : Env) (room_id : RoomId) (start : Time) (srv : ServerId) (w : World) :
    Prop where
  plain : ∀ σ, Plain (w.servers σ).broker
  owned : (w.servers srv).manager.Owned
  serves : Serves env room_id (w.servers srv).broker
  recent : ∀ v score, w.redis.score (key env room_id) v = some score → start ≤ score

/-- A step by which nothing is queued for the user and no event comes or goes. -/
structure Calm (env : Env) (room_id : RoomId) (u : UserId) (srv : ServerId) (w w' : World) :
    Prop where
  plain : ∀ σ, Plain (w'.servers σ).broker
  manager : Aside room_id u (w.servers srv).manager (w'.servers srv).manager
  broker : Unheard env room_id (w.servers srv).broker (w'.servers srv).broker

section World

variable {w w' : World} {σ : ServerId} {m : ConnectionManager Delivery} {b : RedisBroker}

theorem Unheard.transit {b' : RedisBroker} (h : Unheard env room_id b b') :
    transit env room_id b' = transit env room_id b := by
  unfold Attendance.transit
  rw [h.waiting]

theorem Sound.aside (h : Sound env room_id start srv w) :
    Aside room_id u (w.servers srv).manager (w.servers srv).manager :=
  ⟨h.owned, rfl, fun _ hc => hc, id⟩

theorem Sound.unheard (h : Sound env room_id start srv w) :
    Unheard env room_id (w.servers srv).broker (w.servers srv).broker :=
  ⟨h.plain srv, h.serves, id, id, fun _ => rfl⟩

theorem Calm.sound (hc : Calm env room_id u srv w w')
    (hrecent : ∀ v score, w'.redis.score (key env room_id) v = some score → start ≤ score) :
    Sound env room_id start srv w' :=
  ⟨hc.plain, hc.manager.owned, hc.broker.serves, hrecent⟩

/-- The servers are as they were. -/
theorem Sound.calm_servers (h : Sound env room_id start srv w) (hs : w'.servers = w.servers) :
    Calm env room_id u srv w w' := by
  refine ⟨fun σ => ?_, ?_, ?_⟩
  · rw [hs]
    exact h.plain σ
  · rw [hs]
    exact h.aside
  · rw [hs]
    exact h.unheard

/-- A manager changes. -/
theorem Sound.calm_setManager (h : Sound env room_id start srv w)
    (ha : σ = srv → Aside room_id u (w.servers srv).manager m) :
    Calm env room_id u srv w (w.setManager σ m) := by
  refine ⟨fun σ' => ?_, ?_, ?_⟩
  · rw [World.broker_setManager]
    exact h.plain σ'
  · rw [World.manager_setManager]
    split
    · rename_i hσ
      exact ha hσ.symm
    · exact h.aside
  · rw [World.broker_setManager]
    exact h.unheard

/-- A broker changes. -/
theorem Sound.calm_setBroker (h : Sound env room_id start srv w) (hp : Plain b)
    (hb : σ = srv → Unheard env room_id (w.servers srv).broker b) :
    Calm env room_id u srv w (w.setBroker σ b) := by
  refine ⟨fun σ' => ?_, ?_, ?_⟩
  · rw [World.broker_setBroker]
    split
    · exact hp
    · exact h.plain σ'
  · rw [World.manager_setBroker]
    exact h.aside
  · rw [World.broker_setBroker]
    split
    · rename_i hσ
      exact hb hσ.symm
    · exact h.unheard

/-- **An operation of a call** queues nothing for the user and brings no event, unless it is a
publish or a payload for the user; the user calls no leave. -/
theorem Sound.calm_move (h : Sound env room_id start srv w) {st st' : Stage} {op : Op}
    {r : Except Exn op.Resp} {me : TaskId} {x : Choice}
    (hmove : Moves env room_id start v st op r st')
    (hx : op.exec env σ me x w = some (r, w')) (hok : x.ok = true) (hu : v = u → st ≠ .leaving)
    (hpublish : ∀ ch message, op ≠ .publish ch message)
    (hsend : ∀ d, σ = srv → op ≠ .manager (.sendToUser u d)) : Calm env room_id u srv w w' := by
  cases op with
  | publish ch message => exact absurd rfl (hpublish ch message)
  | sleep => cases hmove
  | time =>
    cases hx
    exact h.calm_servers rfl
  | redis o =>
    cases hx
    rw [hok]
    exact h.calm_servers rfl
  | db o =>
    obtain ⟨d, -, rfl⟩ := Op.exec_dbOp hx
    exact h.calm_servers rfl
  | broker o =>
    obtain ⟨-, rfl⟩ := Op.world_broker hx
    rw [hok]
    -- a server that subscribes again does not lose what waits for it
    cases hmove with
    | setCallback =>
      refine h.calm_setBroker (h.plain σ).setCallback fun hσ => ?_
      subst hσ
      exact unheard_setCallback (h.plain σ) h.serves
    | subscribe =>
      refine h.calm_setBroker (h.plain σ).subscribe fun hσ => ?_
      subst hσ
      exact unheard_subscribe (h.plain σ) h.serves
  | manager o =>
    obtain ⟨-, rfl⟩ := Op.world_manager hx
    refine h.calm_setManager fun hσ => ?_
    subst hσ
    cases hmove with
    -- messages for other users only: `hsend` leaves those for `u` to another lemma
    | refuse _ | list => exact aside_sendToUser h.owned fun hv => hsend _ rfl (by rw [hv])
    | enter => exact aside_joinRoom h.owned
    | exit => exact aside_leaveRoom h.owned fun hv => hu hv rfl

/-- What an operation of a call does to the presence set: a score that is written or kept is not
old, and who is in the set changes with what the call owes. -/
theorem rescore_move {st st' : Stage} {op : Op} {r : Except Exn op.Resp} {a : UserId}
    {score : Option Time} (hmove : Moves env room_id start v st op r st')
    (hrecent : ∀ t, score = some t → start ≤ t) :
    (∀ t, op.rescore (key env room_id) a true score = some t → start ≤ t) ∧
      (op.rescore (key env room_id) a true score).isSome =
        if a = v ∧ st.owes = none then st'.owes.getD score.isSome else score.isSome := by
  cases hmove with
  | arrive hstart =>
    simp only [Op.rescore, if_true, RedisOp.rescore, true_and, Stage.owes, and_true,
      Option.getD_some]
    split
    · exact ⟨fun t ht => Option.some.inj ht ▸ hstart, rfl⟩
    · exact ⟨hrecent, rfl⟩
  | depart =>
    simp only [Op.rescore, if_true, RedisOp.rescore, true_and, Stage.owes, and_true,
      Option.getD_some]
    split
    · exact ⟨fun t ht => (by cases ht), rfl⟩
    · exact ⟨hrecent, rfl⟩
  | expire hmax =>
    simp only [Op.rescore, if_true, RedisOp.rescore, Stage.owes, Option.getD_none, ite_self]
    cases score with
    | none => exact ⟨hrecent, rfl⟩
    | some t =>
      have hkept : ¬(t : Int) ≤ _ :=
        Int.not_le.mpr (lt_of_lt_of_le hmax (Int.ofNat_le.mpr (hrecent t rfl)))
      rw [Option.filter_some, if_pos (by simpa using hkept)]
      exact ⟨hrecent, rfl⟩
  | _ => exact ⟨hrecent, by simp [Stage.owes, Op.rescore, RedisOp.rescore]⟩

end World

end Attendance

end NexusChat
