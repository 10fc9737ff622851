import NexusChat.App.LiveOrder
import NexusChat.App.Moves
import NexusChat.Lib.Conduit
import NexusChat.Lib.Promise

/-!
# Nothing is missed

`LiveOrder` says that a connection is written a part of its channel, in order. Here is when it is
written all of it. A seat is a connection in a room together with the way to it: the PubSub its
instance listens on, the channel, and the callback of the room. As long as the seat is taken, each
publish reaches the PubSub and the send queue has room, the seat is a `Conduit`: what is published
on the channel comes out of it as the callback renders it, complete, once and in order, but for
what the callback leaves the user out of.
-/

set_option autoImplicit false

namespace NexusChat

open WebSocketConnection ConnectionManager

/-- A connection of a user in a room, and the way to it from a channel. -/
structure Seat where
  server : ServerId
  userId : UserId
  conn : ConnId
  channel : Channel
  roomId : RoomId
  pubsub : PubSubId

/-- The user is connected and in the room, the send task runs, and the listener listens where the
channel is subscribed, with the callback of the room. -/
structure Seat.Taken (q : Seat) (s : Server) : Prop where
  listening : s.broker.listenerTask = some (.listening q.pubsub)
  subscribed : q.channel ∈ (s.broker.heap q.pubsub).channels
  callback : s.broker.callbacks.get? q.channel = some q.roomId
  registered : s.manager.connections.get? q.userId = some q.conn
  joined : q.userId ∈ s.manager.getRoomUserIds q.roomId
  live : ¬(s.manager.heap q.conn).Finished

/-- The payload comes from a publish on the channel. -/
def Delivery.from (channel : Channel) (d : Delivery) : Bool := (d.position channel).isSome

/-- The publishes of a channel, each with its position. -/
def Redis.entries (r : Redis) (channel : Channel) : List (Nat × Json) :=
  (r.log channel).zipIdx.map Prod.swap

namespace Seat

/-- What the user of the seat is to be written for a publish on the channel. -/
def render (q : Seat) (e : Nat × Json) : Option Delivery :=
  match Chat.roomMessageHandler e.2 with
  | .ok (some (outbound, exclude_user)) =>
    if exclude_user = some q.userId then none
    else some { message := outbound, source := some (q.channel, e.1) }
  | _ => none

def conduit (q : Seat) (w : World) : Conduit (Nat × Json) Delivery where
  waiting := (w.servers q.server).broker.waiting q.channel
  out := ((w.servers q.server).manager.heap q.conn).passed.filter (Delivery.from q.channel)

end Seat

/-! ## The log -/

theorem World.entries_publish {w : World} {received : ServerId → PubSubId → Bool}
    {channel other : Channel} {message : Json} :
    (w.publish received channel message).redis.entries other = w.redis.entries other ++
      if other = channel then [((w.redis.log channel).length, message)] else [] := by
  simp only [Redis.entries, World.log_publish, List.zipIdx_append, List.map_append]
  split
  · rename_i h
    simp [h]
  · simp

theorem Redis.entries_after {r : Redis} {op : RedisOp} {channel : Channel} :
    (r.after op).entries channel = r.entries channel := by
  simp only [Redis.entries, Redis.log, Redis.published_after]

/-! ## One step -/

/-- A listener that listens hands out the first message of a channel, or stops listening; it
starts over only when its PubSub has no channel left. -/
theorem RedisBroker.listenerStep_listening {b b' : RedisBroker} {e : RedisBroker.ListenerEvent}
    {m : Option (Channel × Nat × Json)} {p : PubSubId}
    (hl : b.listenerTask = some (.listening p)) (hs : b.listenerStep e = some (b', m)) :
    (∃ channel n data, e = .receive channel ∧ m = some (channel, n, data) ∧
        b'.listenerTask = b.listenerTask ∧ b'.callbacks = b.callbacks ∧
        ∀ other, other ∈ (b'.heap p).channels ↔ other ∈ (b.heap p).channels) ∨
      (m = none ∧ ((b.heap p).channels.isEmpty = true ∨ b'.listenerTask = some .backoff)) := by
  unfold listenerStep at hs
  rw [hl] at hs
  cases e with
  | receive channel =>
    simp only at hs
    split at hs
    · cases hs
    · cases hs
      exact .inl ⟨channel, _, _, rfl, rfl, rfl, rfl, fun _ => mem_channels_takeMessage⟩
  | exhausted =>
    simp only at hs
    split at hs
    · rename_i hempty
      cases hs
      exact .inr ⟨rfl, .inl hempty⟩
    · cases hs
  | fail =>
    cases hs
    exact .inr ⟨rfl, .inr rfl⟩
  | begin => cases hs
  | wake ok => cases hs
  | subscribed ok => cases hs

section Steps

variable {env : Env} {w w' : World} {q : Seat} {srv : ServerId}

namespace Seat

theorem conduit_congr (hw : (w'.servers q.server).broker.waiting q.channel =
      (w.servers q.server).broker.waiting q.channel)
    (hp : ((w'.servers q.server).manager.heap q.conn).passed.filter (Delivery.from q.channel) =
      ((w.servers q.server).manager.heap q.conn).passed.filter (Delivery.from q.channel)) :
    q.conduit w' = q.conduit w := by
  rw [conduit, conduit, hw, hp]

theorem conduit_setManager {m : ConnectionManager Delivery}
    (hp : srv = q.server → (m.heap q.conn).passed.filter (Delivery.from q.channel) =
      ((w.servers q.server).manager.heap q.conn).passed.filter (Delivery.from q.channel)) :
    q.conduit (w.setManager srv m) = q.conduit w := by
  refine conduit_congr (by rw [World.broker_setManager]) ?_
  rw [World.manager_setManager]
  split
  · rename_i hsrv
    exact hp hsrv.symm
  · rfl

theorem conduit_setBroker {b : RedisBroker} (hw : srv = q.server →
      b.waiting q.channel = (w.servers q.server).broker.waiting q.channel) :
    q.conduit (w.setBroker srv b) = q.conduit w := by
  refine conduit_congr ?_ (by rw [World.manager_setBroker])
  rw [World.broker_setBroker]
  split
  · rename_i hsrv
    exact hw hsrv.symm
  · rfl

/-- A payload from elsewhere does not show. -/
theorem filter_enqueue {k : WebSocketConnection Delivery} {d : Delivery}
    (hd : d.position q.channel = none) :
    (passed { k with sendQueue := k.sendQueue ++ [d] }).filter (Delivery.from q.channel) =
      k.passed.filter (Delivery.from q.channel) := by
  rw [passed_enqueue, List.filter_append]
  simp [Delivery.from, hd]

/-- What a task does to the connections leaves a seat's payloads alone, as long as the seat is
taken. -/
theorem filter_after {m : ConnectionManager Delivery} {maxsize : Nat} {me : TaskId}
    {op : ManagerOp Delivery} (hop : (Op.manager op).Issued) (howned : m.Owned)
    (hc : m.connections.get? q.userId = some q.conn)
    (hlive : ¬((op.after maxsize me m).heap q.conn).Finished) :
    ((op.after maxsize me m).heap q.conn).passed.filter (Delivery.from q.channel) =
      (m.heap q.conn).passed.filter (Delivery.from q.channel) := by
  by_cases hsend : ∃ u p, op = .sendToUser u p
  · obtain ⟨u, p, rfl⟩ := hsend
    have hnone : p.position q.channel = none := by
      rw [Delivery.position, show p.source = none from hop]
      rfl
    rcases heap_sendToUser (m := m) (u := u) (c := q.conn) (n := maxsize) (p := p) with he | ⟨-, he⟩
    · show ((m.sendToUser maxsize u p).heap q.conn).passed.filter _ = _
      rw [he]
    · show ((m.sendToUser maxsize u p).heap q.conn).passed.filter _ = _
      rw [he, filter_enqueue hnone]
  · rcases drains_after (c := q.conn) (m := m) (fun u p he => hsend ⟨u, p, he⟩) with
      hd | ⟨hnew, -⟩
    · rw [(hd.live hlive).2]
    · -- a registered connection is not the next one to be made
      exact absurd hnew (Nat.ne_of_lt (howned _ _ hc).2)

theorem filter_event {m m' : ConnectionManager Delivery} (h : ManagerEvent m m')
    (hlive : ¬(m'.heap q.conn).Finished) :
    (m'.heap q.conn).passed.filter (Delivery.from q.channel) =
      (m.heap q.conn).passed.filter (Delivery.from q.channel) := by
  cases h with
  | force => rfl
  | clientGone => rw [(drains_clientGone.live hlive).2]
  | sendTake h => rw [((drains_sendTake h).live hlive).2]
  | sendDone h => rw [((drains_sendDone h).live hlive).2]

/-- The user of the seat is in the room, so a broadcast to the room queues its payload for the
seat, unless it leaves the user out. -/
theorem heap_broadcast {m : ConnectionManager Delivery} {maxsize : Nat} (p : Delivery)
    (exclude_user : Option UserId) (howned : m.Owned)
    (hc : m.connections.get? q.userId = some q.conn)
    (hjoined : q.userId ∈ m.getRoomUserIds q.roomId)
    (hroom : full maxsize (m.heap q.conn).sendQueue = false) :
    (m.broadcastToRoom maxsize q.roomId p exclude_user).heap q.conn =
      if exclude_user = some q.userId then m.heap q.conn
      else { m.heap q.conn with sendQueue := (m.heap q.conn).sendQueue ++ [p] } := by
  rw [broadcastToRoom, heap_deliverAll howned ((m.getRoomUserIds q.roomId).nodup.filter _), hroom,
    Bool.not_false, Bool.and_true]
  have haddressed : m.addressees ((m.getRoomUserIds q.roomId).elems.filter
      fun u => some u ≠ exclude_user) q.conn = true ↔ ¬exclude_user = some q.userId := by
    constructor
    · intro h he
      obtain ⟨u, hu, hget⟩ := List.any_eq_true.mp h
      have huser : u = q.userId := by
        rw [← (howned u q.conn (of_decide_eq_true hget)).1, (howned _ _ hc).1]
      rw [huser, he] at hu
      simp at hu
    · intro hne
      refine List.any_eq_true.mpr ⟨q.userId, List.mem_filter.mpr ⟨hjoined, ?_⟩, ?_⟩
      · simpa using Ne.symm hne
      · simpa using hc
  by_cases he : exclude_user = some q.userId
  · rw [if_pos he, if_neg fun h => haddressed.mp h he]
  · rw [if_neg he, if_pos (haddressed.mpr he)]

theorem moves_still (hw : q.conduit w' = q.conduit w)
    (hlog : w'.redis.entries q.channel = w.redis.entries q.channel) :
    ∃ as, (q.conduit w).Moves q.render as (q.conduit w') ∧
      w'.redis.entries q.channel = w.redis.entries q.channel ++ as :=
  ⟨[], hw ▸ .still, by rw [hlog, List.append_nil]⟩

/-- A publish goes into the seat's conduit if it is on the seat's channel. -/
theorem moves_publish {received : ServerId → PubSubId → Bool} {channel : Channel} {message : Json}
    (horder : w.InOrder) (h : q.Taken (w.servers q.server))
    (hreceived : received q.server q.pubsub = true) :
    ∃ as, (q.conduit w).Moves q.render as (q.conduit (w.publish received channel message)) ∧
      (w.publish received channel message).redis.entries q.channel =
        w.redis.entries q.channel ++ as := by
  have hp : (w.servers q.server).broker.pubsub = some q.pubsub :=
    (horder q.server).tuned _ h.listening
  by_cases hch : q.channel = channel
  · subst hch
    refine ⟨[((w.redis.log q.channel).length, message)], ?_, ?_⟩
    · have hwaiting : (World.deliverTo (received q.server) q.channel
          (w.redis.log q.channel).length message (w.servers q.server).broker).waiting q.channel =
            (w.servers q.server).broker.waiting q.channel ++
              [((w.redis.log q.channel).length, message)] := by
        simp only [RedisBroker.waiting, World.deliverTo, hp,
          if_pos (And.intro h.subscribed hreceived), Function.update_self]
      have hput : q.conduit (w.publish received q.channel message) =
          { q.conduit w with waiting := (q.conduit w).waiting ++
            [((w.redis.log q.channel).length, message)] } := by
        show Conduit.mk ((World.deliverTo _ _ _ _ _).waiting q.channel) _ = _
        rw [hwaiting]
        rfl
      rw [hput]
      exact .put _
    · rw [World.entries_publish, if_pos rfl]
  · refine moves_still (conduit_congr ?_ rfl) ?_
    · rcases RedisBroker.waiting_deliverTo (received q.server) (w.servers q.server).broker
        channel q.channel (w.redis.log channel).length message with he | ⟨he, -⟩
      · exact he
      · exact absurd he hch
    · rw [World.entries_publish, if_neg hch, List.append_nil]

/-- An operation of a task leaves the seat alone, or publishes. -/
theorem moves_exec {me : TaskId} {op : Op} {x : Choice} {r : Except Exn op.Resp}
    (hop : op.Issued) (horder : w.InOrder) (h : q.Taken (w.servers q.server))
    (h' : q.Taken (w'.servers q.server)) (hreceived : x.received q.server q.pubsub = true)
    (hx : op.exec env srv me x w = some (r, w')) :
    ∃ as, (q.conduit w).Moves q.render as (q.conduit w') ∧
      w'.redis.entries q.channel = w.redis.entries q.channel ++ as := by
  cases op with
  | manager o =>
    obtain ⟨-, rfl⟩ := Op.world_manager hx
    refine moves_still (conduit_setManager fun hsrv => ?_) rfl
    subst hsrv
    have hlive := h'.live
    rw [World.manager_setManager, if_pos rfl] at hlive
    exact filter_after hop (horder q.server).owned h.registered hlive
  | broker o =>
    obtain ⟨-, rfl⟩ := Op.world_broker hx
    refine moves_still (conduit_setBroker fun hsrv => ?_) rfl
    subst hsrv
    exact RedisBroker.waiting_after fun he => by rw [he] at hop; exact hop
  | db o =>
    obtain ⟨d, -, rfl⟩ := Op.exec_dbOp hx
    exact moves_still rfl rfl
  | redis o =>
    cases hx
    split
    · exact moves_still rfl Redis.entries_after
    · exact moves_still rfl rfl
  | publish channel message =>
    cases hx
    split
    · exact moves_publish horder h hreceived
    · exact moves_still rfl rfl
  | sleep => cases hx; exact moves_still rfl rfl
  | time => cases hx; exact moves_still rfl rfl

/-- The callback of the seat's instance, for a message on the seat's channel. -/
theorem conduit_callback {n : Nat} {data : Json} (howned : (w.servers q.server).manager.Owned)
    (h : q.Taken (w.servers q.server)) (hroom : full env.maxSendQueueSize
      ((w.servers q.server).manager.heap q.conn).sendQueue = false) :
    q.conduit (w.dispatchMessage env q.server q.channel n data) =
      { q.conduit w with out := (q.conduit w).out ++ (q.render (n, data)).toList } := by
  by_cases hsome : ∃ m, Chat.roomMessageHandler data = .ok (some m)
  · obtain ⟨⟨outbound, exclude_user⟩, hr⟩ := hsome
    rw [World.dispatchMessage_some h.callback hr]
    have hheap := heap_broadcast ⟨outbound, some (q.channel, n)⟩ exclude_user howned h.registered
      h.joined hroom
    have hrender : q.render (n, data) = if exclude_user = some q.userId then none
        else some { message := outbound, source := some (q.channel, n) } := by
      simp only [render, hr]
    rw [hrender, conduit, conduit, World.broker_setManager, World.manager_setManager, if_pos rfl,
      hheap]
    split
    · simp
    · rw [passed_enqueue, List.filter_append]
      simp [Delivery.from, Delivery.position]
  · -- the callback raises, or passes the message over
    have hsame : w.dispatchMessage env q.server q.channel n data = w := by
      unfold World.dispatchMessage
      split
      · rename_i hr
        exact absurd ⟨_, hr⟩ hsome
      · rfl
    have hnone : q.render (n, data) = none := by
      unfold render
      split
      · rename_i hr
        exact absurd ⟨_, hr⟩ hsome
      · rfl
    rw [hsame, hnone, Option.toList_none, List.append_nil]

theorem conduit_dispatch {n : Nat} {data : Json} {channel : Channel}
    (hch : q.channel ≠ channel ∨ srv ≠ q.server) (howned : (w.servers q.server).manager.Owned) :
    q.conduit (w.dispatchMessage env srv channel n data) = q.conduit w := by
  rcases @World.dispatchMessage_cases env w srv channel n data with he |
    ⟨room_id, outbound, exclude_user, -, he⟩
  · rw [he]
  · rw [he]
    refine conduit_setManager fun hsrv => ?_
    subst hsrv
    have hne : q.channel ≠ channel := hch.resolve_right fun h => h rfl
    rcases @passed_broadcastToRoom _ _ env.maxSendQueueSize room_id ⟨outbound, some (channel, n)⟩
      exclude_user howned q.conn with hpassed | hpassed
    · rw [hpassed]
    · rw [hpassed]
      refine filter_enqueue ?_
      simp [Delivery.position, Ne.symm hne]

/-- A step of the listener of the seat's instance hands the seat what is first in its inbox. -/
theorem moves_listen_self {e : RedisBroker.ListenerEvent} (horder : w.InOrder)
    (h : q.Taken (w.servers q.server)) (h' : q.Taken (w'.servers q.server))
    (hroom : e = .receive q.channel → full env.maxSendQueueSize
      ((w.servers q.server).manager.heap q.conn).sendQueue = false)
    (hs : w.listen env q.server e = some w') :
    (q.conduit w).Moves q.render [] (q.conduit w') := by
  obtain ⟨⟨b, m⟩, hstep, rfl⟩ := Option.map_eq_some_iff.mp hs
  have howned : (w.servers q.server).manager.Owned := (horder q.server).owned
  rcases RedisBroker.listenerStep_listening h.listening hstep with
    ⟨channel, n, data, rfl, rfl, hlistening, hcallbacks, hsubscribed⟩ | ⟨rfl, hempty | hbackoff⟩
  · obtain ⟨-, hhead, hother⟩ := RedisBroker.listenerStep_waiting (horder q.server).tuned hstep
    show (q.conduit w).Moves q.render []
      (q.conduit ((w.setBroker q.server b).dispatchMessage env q.server channel n data))
    have hmanager : ((w.setBroker q.server b).servers q.server).manager =
        (w.servers q.server).manager := World.manager_setBroker
    by_cases hch : channel = q.channel
    · subst hch
      have htaken : q.Taken ((w.setBroker q.server b).servers q.server) := by
        refine ⟨?_, ?_, ?_, ?_, ?_, ?_⟩
        · rw [World.broker_setBroker, if_pos rfl, hlistening]
          exact h.listening
        · rw [World.broker_setBroker, if_pos rfl]
          exact (hsubscribed _).mpr h.subscribed
        · rw [World.broker_setBroker, if_pos rfl, hcallbacks]
          exact h.callback
        · rw [hmanager]
          exact h.registered
        · rw [hmanager]
          exact h.joined
        · rw [hmanager]
          exact h.live
      rw [conduit_callback (by rw [hmanager]; exact howned) htaken
        (by rw [hmanager]; exact hroom rfl)]
      have hbehind : q.conduit (w.setBroker q.server b) =
          { q.conduit w with waiting := b.waiting q.channel } := by
        rw [conduit, conduit, hmanager, World.broker_setBroker, if_pos rfl]
      rw [hbehind]
      exact .take hhead
    · rw [conduit_dispatch (.inl (Ne.symm hch)) (by rw [hmanager]; exact howned),
        conduit_setBroker fun _ => hother _ (Ne.symm hch)]
      exact .still
  · exact absurd h.subscribed (PySet.isEmpty_iff.mp hempty _)
  · have hl := h'.listening
    rw [World.broker_setBroker, if_pos rfl, hbackoff] at hl
    cases hl

/-- The listeners of the other instances have nothing to do with the seat. -/
theorem conduit_listen {e : RedisBroker.ListenerEvent} (horder : w.InOrder) (hne : srv ≠ q.server)
    (hs : w.listen env srv e = some w') : q.conduit w' = q.conduit w := by
  obtain ⟨⟨b, m⟩, -, rfl⟩ := Option.map_eq_some_iff.mp hs
  have hbroker : q.conduit (w.setBroker srv b) = q.conduit w :=
    conduit_setBroker fun h => absurd h hne
  cases m with
  | none => exact hbroker
  | some m =>
    refine (conduit_dispatch (.inr hne) ?_).trans hbroker
    rw [World.manager_setBroker]
    exact (horder q.server).owned

end Seat

end Steps

/-! ## Every run -/

section Issued

variable {env : Env} {u : UserId} {username : String}

theorem issued_handleFrame {data : Json} :
    (Chat.handleFrame env u username data).All Op.Issued := by
  have hquiet : ∀ op : Op, op.Quiet → op.Issued := fun _ => Op.Quiet.issued
  rw [Chat.handleFrame_eq]
  refine Coro.all_bind (Coro.all_ofExcept _) fun event => Coro.all_bind (Coro.all_ofExcept _)
    fun event_data => Coro.all_bind (all_rateLimited hquiet) fun limited => ?_
  split
  · exact all_sendToUser hquiet
  · apply Chat.dispatch_cases
    · intro _
      exact all_handleJoinRoom hquiet (fun _ _ => trivial) trivial (fun _ => trivial)
        (fun _ _ => trivial) (fun _ => trivial) fun _ => trivial
    · intro _
      exact all_handleLeaveRoom hquiet (fun _ _ => trivial) fun _ _ => trivial
    · intro _
      refine all_handleMessage hquiet (fun d _ => ?_) fun _ _ _ => trivial
      exact ⟨trivial, fun _ _ _ _ => trivial, trivial, trivial, trivial⟩
    · exact fun _ => all_handleTyping hquiet fun _ _ => trivial
    · exact fun _ => all_handleTyping hquiet fun _ _ => trivial
    · exact fun _ => all_sendToUser hquiet

theorem started_issued : Started env fun _ {_} p => p.All Op.Issued where
  connect _ _ := all_connect trivial trivial (fun _ => trivial) (fun _ _ => trivial)
    (fun _ => trivial) fun _ => trivial
  frame _ _ _ := issued_handleFrame
  send _ _ := all_sendToUser fun _ => Op.Quiet.issued
  cleanup _ _ _ := all_cleanup (fun _ => Op.Quiet.issued) (fun _ => trivial) trivial
    (fun _ => trivial) trivial
  request _ := all_request fun _ => trivial
  force _ _ := all_forceDisconnect trivial (fun _ => trivial) trivial trivial

/-- What the tasks wait for is what tasks perform. -/
def System.Issues (s : System) : Prop :=
  ∀ (i : TaskId) t, s.tasks[i]? = some t → t.Programs fun _ {_} p => p.All Op.Issued

theorem System.issues_reach {C : System → Label → Prop} {ts : Tables} {s : System}
    (hr : Reach (System.step env) C (.init ts) s) : s.Issues := by
  have hinit : (System.init ts).Issues := fun i t hi => by cases hi
  refine hr.invariant hinit fun s l s' h _ hs i t hi => ?_
  exact (System.moves hs).programs started_issued h
    (fun _ _ _ _ _ _ _ _ hp hstep => Coro.All.step hp hstep) hi

end Issued

namespace Seat

variable {env : Env} {q : Seat} {s s' : System} {l : Label} {ts : Tables}

/-- What has been published on the seat's channel since `s`. -/
def published (q : Seat) (s s' : System) : List (Nat × Json) :=
  (s'.world.redis.entries q.channel).drop (s.world.redis.log q.channel).length

/-- The seat is taken, a publish reaches its PubSub, and a message of its channel finds room in
its send queue. -/
structure Kept (q : Seat) (env : Env) (s : System) (l : Label) : Prop where
  taken : q.Taken (s.world.servers q.server)
  reached : ∀ i x, l = .run i x → x.received q.server q.pubsub = true
  room : l = .listener q.server (.receive q.channel) → full env.maxSendQueueSize
    ((s.world.servers q.server).manager.heap q.conn).sendQueue = false

/-- **One step of the system** is a move of the seat's conduit. -/
theorem moves_step (hr : Reach (System.step env) Always (.init ts) s) (h : q.Kept env s l)
    (h' : q.Taken (s'.world.servers q.server)) (hs : s.step env l = some s') :
    ∃ as, (q.conduit s.world).Moves q.render as (q.conduit s'.world) ∧
      s'.world.redis.entries q.channel = s.world.redis.entries q.channel ++ as := by
  have horder := inOrder_reach hr
  by_cases hl : ∀ i x, l ≠ .run i x
  · have hlog : s'.world.redis.entries q.channel = s.world.redis.entries q.channel := by
      rw [(System.stores_env hl hs).2]
    rcases System.env_cases hl hs with he | ⟨srv, m, he, hevent⟩ | ⟨srv, e, rfl, hlisten⟩
    · exact moves_still (by rw [he]) hlog
    · refine moves_still ?_ hlog
      rw [he]
      refine conduit_setManager fun hsrv => ?_
      subst hsrv
      have hlive := h'.live
      rw [he, World.manager_setManager, if_pos rfl] at hlive
      exact filter_event hevent hlive
    · by_cases hsrv : srv = q.server
      · subst hsrv
        refine ⟨[], ?_, by rw [hlog, List.append_nil]⟩
        exact moves_listen_self horder h.taken h' (fun he => h.room (he ▸ rfl)) hlisten
      · exact moves_still (conduit_listen horder hsrv hlisten) hlog
  · push Not at hl
    obtain ⟨i, x, rfl⟩ := hl
    cases System.moves hs with
    | run hi ht htasks =>
      obtain ⟨op, r, hhead, hexec⟩ := Task.step_exec ht
      obtain ⟨α, p, hp, hhead⟩ := Task.exists_program (System.issues_reach hr i _ hi) hhead
      exact moves_exec (hp.head hhead) horder h.taken h' (h.reached i x rfl) hexec
    | background hl _ => exact absurd hl id

/-- What is published only grows. -/
theorem published_append {s₀ : System} {as : List (Nat × Json)}
    (hlen : (s₀.world.redis.log q.channel).length ≤ (s.world.redis.entries q.channel).length)
    (h : s'.world.redis.entries q.channel = s.world.redis.entries q.channel ++ as) :
    q.published s₀ s' = q.published s₀ s ++ as := by
  rw [published, h, List.drop_append_of_le_length hlen]
  rfl

theorem length_entries {r : Redis} {channel : Channel} :
    (r.entries channel).length = (r.log channel).length := by
  simp [Redis.entries]

/-- **A run in which the seat is kept** is a run of its conduit. -/
theorem runs_reach (hr : Reach (System.step env) Always (.init ts) s)
    (hrun : Reach (System.step env) (q.Kept env) s s') (h' : q.Taken (s'.world.servers q.server)) :
    (q.conduit s.world).Runs q.render (q.published s s') (q.conduit s'.world) ∧
      (s.world.redis.log q.channel).length ≤ (s'.world.redis.log q.channel).length := by
  induction hrun with
  | init =>
    refine ⟨?_, le_rfl⟩
    have hnone : q.published s s = [] := by
      rw [published, ← length_entries, List.drop_length]
    rw [hnone]
    exact .refl
  | tail hbefore hkept hs ih =>
    rename_i s₁ s₂ l
    obtain ⟨hruns, hlen⟩ := ih hkept.taken
    have hr₁ : Reach (System.step env) Always (.init ts) s₁ :=
      hr.trans (hbefore.mono fun _ _ _ => trivial)
    obtain ⟨as, hmove, hentries⟩ := moves_step hr₁ hkept h' hs
    constructor
    · rw [published_append (by rw [length_entries]; exact hlen) hentries]
      exact hruns.tail hmove
    · have hgrown : (s₂.world.redis.entries q.channel).length =
          (s₁.world.redis.entries q.channel).length + as.length := by
        rw [hentries, List.length_append]
      rw [length_entries, length_entries] at hgrown
      omega

end Seat

/-- **A kept seat misses nothing.** From any state the system reaches, as long as the seat is kept,
what has passed the send queue of its connection, followed by what is still to pass of the inbox,
has grown by exactly what has been published on the channel since, in the order of the publishes,
each as the callback renders it, but for what leaves the user out. -/
theorem System.nothing_missed {env : Env} {ts : Tables} {s s' : System} {q : Seat}
    (hr : Reach (System.step env) Always (.init ts) s)
    (hrun : Reach (System.step env) (q.Kept env) s s')
    (htaken : q.Taken (s'.world.servers q.server)) :
    (q.conduit s'.world).content q.render =
      (q.conduit s.world).content q.render ++ (q.published s s').filterMap q.render :=
  (Seat.runs_reach hr hrun htaken).1.content

/-- The seat of user 1 in room 3 on the second instance. -/
def Seat.roomThree : Seat where
  server := 1
  userId := "00000000-0000-0000-0000-000000000001"
  conn := 0
  channel := System.roomThree
  roomId := "00000000-0000-0000-0000-000000000003"
  pubsub := 0

/-- `Seat.Taken`, as a test. -/
def Seat.isTaken (q : Seat) (s : Server) : Bool :=
  s.broker.listenerTask = some (.listening q.pubsub) &&
    (s.broker.heap q.pubsub).channels.elems.contains q.channel &&
    s.broker.callbacks.get? q.channel = some q.roomId &&
    s.manager.connections.get? q.userId = some q.conn &&
    (s.manager.getRoomUserIds q.roomId).elems.contains q.userId &&
    match (s.manager.heap q.conn).sendTask with
    | .finished => false
    | _ => true

theorem Seat.taken_of_isTaken {q : Seat} {s : Server} (h : q.isTaken s = true) : q.Taken s := by
  simp only [isTaken, Bool.and_eq_true, decide_eq_true_eq, List.contains_iff_mem] at h
  obtain ⟨⟨⟨⟨⟨hlistening, hsubscribed⟩, hcallback⟩, hregistered⟩, hjoined⟩, hlive⟩ := h
  refine ⟨hlistening, hsubscribed, hcallback, hregistered, hjoined, fun hfinished => ?_⟩
  rw [show (s.manager.heap q.conn).sendTask = .finished from hfinished] at hlive
  cases hlive

/-- `Seat.Kept`, as a test. -/
def Seat.isKept (q : Seat) (env : Env) (s : System) (l : Label) : Bool :=
  q.isTaken (s.world.servers q.server) &&
    !full env.maxSendQueueSize ((s.world.servers q.server).manager.heap q.conn).sendQueue &&
    match l with
    | .run _ x => x.received q.server q.pubsub
    | _ => true

theorem Seat.kept_of_isKept {q : Seat} {env : Env} {s : System} {l : Label}
    (h : q.isKept env s l = true) : q.Kept env s l := by
  simp only [isKept, Bool.and_eq_true, Bool.not_eq_true'] at h
  obtain ⟨⟨htaken, hroom⟩, hreached⟩ := h
  refine ⟨taken_of_isTaken htaken, fun i x hl => ?_, fun _ => hroom⟩
  subst hl
  exact hreached

/-- Both sessions are in room 3, and both listeners listen. -/
def System.bothIn : List Label :=
  enters 0 0 ++ handles 0 (about "join_room" []) 15 ++ enters 1 1 ++
    handles 1 (about "join_room" []) 15 ++ [.listener 0 .begin, .listener 1 .begin]

/-- Two messages from the first instance, while the second hears and writes. -/
def System.twoMessages : List Label :=
  handles 0 (about "message" [("content", .str "hi")]) 6 1 ++ hears 1 2 ++ drains 1 0 3 ++
    handles 0 (about "message" [("content", .str "ho")]) 6 2 ++ hears 1 1 ++ drains 1 0 2

set_option maxRecDepth 20000 in
/-- The seat's connection is written both, behind the presence that was waiting for it. -/
theorem System.nothing_missed_shared : ∃ s s',
    replay (System.step .sample) System.bothIn (.init .sample) = some s ∧
    s'.writes 1 0 System.roomThree = [1, 2, 3] ∧
    (Seat.roomThree.published s s').length = 2 ∧
    (Seat.roomThree.conduit s'.world).content Seat.roomThree.render =
      (Seat.roomThree.conduit s.world).content Seat.roomThree.render ++
        (Seat.roomThree.published s s').filterMap Seat.roomThree.render := by
  have hrun : ((replay (System.step .sample) System.bothIn (.init .sample)).any fun s =>
      (replayIf (System.step .sample) (Seat.roomThree.isKept .sample) System.twoMessages s).any
        fun s' => Seat.roomThree.isTaken (s'.world.servers 1) &&
          decide (s'.writes 1 0 System.roomThree = [1, 2, 3]) &&
          decide ((Seat.roomThree.published s s').length = 2)) = true := by
    decide +kernel
  obtain ⟨s, hs, hrest⟩ := (Option.any_eq_true _ _).mp hrun
  obtain ⟨s', hs', htest⟩ := (Option.any_eq_true _ _).mp hrest
  simp only [Bool.and_eq_true, decide_eq_true_eq] at htest
  obtain ⟨⟨htaken, hwrites⟩, hlength⟩ := htest
  exact ⟨s, s', hs, hwrites, hlength, System.nothing_missed (.of_replay .init hs)
    (.of_replayIf (fun _ _ => Seat.kept_of_isKept) .init hs') (Seat.taken_of_isTaken htaken)⟩

end NexusChat
