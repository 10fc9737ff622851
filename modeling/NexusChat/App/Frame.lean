import NexusChat.App.System
import NexusChat.Db.Transactions

/-!
# What an operation leaves alone

Each component of the world is changed by one kind of operation only: the database by a database
operation, the log by a PUBLISH, a manager by an operation of its own instance.
-/

set_option autoImplicit false

namespace NexusChat

namespace World

variable {w : World} {srv other : ServerId} {m : ConnectionManager Delivery} {b : RedisBroker}
  {received : ServerId → PubSubId → Bool} {channel : Channel} {message : Json}

theorem servers_setManager_of_ne (h : other ≠ srv) :
    (w.setManager srv m).servers other = w.servers other := Function.update_of_ne h _ _

theorem servers_setBroker_of_ne (h : other ≠ srv) :
    (w.setBroker srv b).servers other = w.servers other := Function.update_of_ne h _ _

theorem manager_setManager : ((w.setManager srv m).servers other).manager =
    if other = srv then m else (w.servers other).manager := by
  simp only [setManager, Function.update_apply]
  split <;> rfl

@[simp] theorem broker_setManager :
    ((w.setManager srv m).servers other).broker = (w.servers other).broker := by
  simp only [setManager, Function.update_apply]
  split
  · rename_i h; rw [h]
  · rfl

@[simp] theorem manager_setBroker :
    ((w.setBroker srv b).servers other).manager = (w.servers other).manager := by
  simp only [setBroker, Function.update_apply]
  split
  · rename_i h; rw [h]
  · rfl

theorem broker_setBroker : ((w.setBroker srv b).servers other).broker =
    if other = srv then b else (w.servers other).broker := by
  simp only [setBroker, Function.update_apply]
  split <;> rfl

@[simp] theorem manager_publish :
    ((w.publish received channel message).servers srv).manager = (w.servers srv).manager := rfl

end World

/-- No Redis command but PUBLISH changes the log. -/
@[simp] theorem Redis.published_after (r : Redis) (op : RedisOp) :
    (r.after op).published = r.published := by
  cases op <;> rfl

namespace Op

theorem exec_dbOp {env : Env} {srv : ServerId} {me : TaskId} {x : Choice} {w w' : World}
    {o : DbOp} {r : Except Exn o.Resp} (h : (Op.db o).exec env srv me x w = some (r, w')) :
    ∃ d, o.exec me x.db w.db = some (r, d) ∧ w' = { w with db := d } := by
  obtain ⟨⟨r', d⟩, hx, heq⟩ := Option.map_eq_some_iff.mp h
  cases heq
  exact ⟨d, hx, rfl⟩

/-- An operation of a manager: its answer and what becomes of the world. -/
theorem world_manager {env : Env} {srv : ServerId} {me : TaskId} {x : Choice} {w w' : World}
    {o : ManagerOp Delivery} {r : Except Exn o.Resp}
    (h : (Op.manager o).exec env srv me x w = some (r, w')) :
    r = o.answer x.socket (w.servers srv).manager ∧
      w' = w.setManager srv (o.after env.maxSendQueueSize me (w.servers srv).manager) := by
  obtain ⟨⟨r', m⟩, ho, heq⟩ := Option.map_eq_some_iff.mp h
  obtain ⟨-, rfl, rfl⟩ := ManagerOp.exec_eq_some ho
  cases heq
  exact ⟨rfl, rfl⟩

/-- An operation of a broker. -/
theorem world_broker {env : Env} {srv : ServerId} {me : TaskId} {x : Choice} {w w' : World}
    {o : BrokerOp} {r : Except Exn o.Resp}
    (h : (Op.broker o).exec env srv me x w = some (r, w')) :
    r = o.answer x.ok (w.servers srv).broker ∧
      w' = w.setBroker srv (o.after x.ok (w.servers srv).broker) := by
  cases h
  exact ⟨rfl, rfl⟩

variable {env : Env} {srv other : ServerId} {me : TaskId} {x : Choice} {w w' : World} {op : Op}
  {r : Except Exn op.Resp} (h : op.exec env srv me x w = some (r, w'))
include h

theorem exec_db : w'.db = w.db ∨ ∃ o r', op = .db o ∧ o.exec me x.db w.db = some (r', w'.db) := by
  cases op with
  | db o =>
    obtain ⟨⟨r', d⟩, hx, heq⟩ := Option.map_eq_some_iff.mp h
    cases heq
    exact Or.inr ⟨o, r, rfl, hx⟩
  | manager o =>
    obtain ⟨⟨r', m⟩, -, heq⟩ := Option.map_eq_some_iff.mp h
    cases heq
    exact Or.inl rfl
  | broker o =>
    cases h
    exact Or.inl rfl
  | redis o =>
    cases h
    refine Or.inl ?_
    split <;> rfl
  | publish channel message =>
    cases h
    refine Or.inl ?_
    split <;> rfl
  | sleep => cases h; exact Or.inl rfl
  | time => cases h; exact Or.inl rfl

theorem exec_published : w'.redis.published = w.redis.published ∨
    ∃ channel message, op = .publish channel message ∧
      w' = w.publish x.received channel message := by
  cases op with
  | publish channel message =>
    cases h
    split
    · exact Or.inr ⟨channel, message, rfl, rfl⟩
    · exact Or.inl rfl
  | db o =>
    obtain ⟨⟨r', d⟩, -, heq⟩ := Option.map_eq_some_iff.mp h
    cases heq
    exact Or.inl rfl
  | manager o =>
    obtain ⟨⟨r', m⟩, -, heq⟩ := Option.map_eq_some_iff.mp h
    cases heq
    exact Or.inl rfl
  | broker o =>
    cases h
    exact Or.inl rfl
  | redis o =>
    cases h
    refine Or.inl ?_
    split
    · exact Redis.published_after _ _
    · rfl
  | sleep => cases h; exact Or.inl rfl
  | time => cases h; exact Or.inl rfl

theorem exec_manager : (∀ other, (w'.servers other).manager = (w.servers other).manager) ∨
    ∃ o r', op = .manager o ∧
      o.exec env.maxSendQueueSize me x.socket (w.servers srv).manager =
        some (r', (w'.servers srv).manager) ∧
      ∀ other, other ≠ srv → (w'.servers other).manager = (w.servers other).manager := by
  cases op with
  | manager o =>
    obtain ⟨⟨r', m⟩, hx, heq⟩ := Option.map_eq_some_iff.mp h
    cases heq
    refine Or.inr ⟨o, r, rfl, ?_, fun other hne => ?_⟩
    · rw [World.manager_setManager, if_pos rfl]; exact hx
    · rw [World.manager_setManager, if_neg hne]
  | db o =>
    obtain ⟨⟨r', d⟩, -, heq⟩ := Option.map_eq_some_iff.mp h
    cases heq
    exact Or.inl fun _ => rfl
  | broker o =>
    cases h
    exact Or.inl fun _ => World.manager_setBroker
  | redis o =>
    cases h
    refine Or.inl fun _ => ?_
    split <;> rfl
  | publish channel message =>
    cases h
    refine Or.inl fun _ => ?_
    split <;> rfl
  | sleep => cases h; exact Or.inl fun _ => rfl
  | time => cases h; exact Or.inl fun _ => rfl

end Op

namespace World

variable {env : Env} {w w' : World} {srv other : ServerId} {channel : Channel} {n : Nat}
  {message : Json} {room_id : RoomId} {outbound : WSOutboundMessage} {exclude_user : Option UserId}

theorem dispatchMessage_none (h : (w.servers srv).broker.callbacks.get? channel = none) :
    w.dispatchMessage env srv channel n message = w := by
  unfold dispatchMessage
  rw [h]

theorem dispatchMessage_some (h : (w.servers srv).broker.callbacks.get? channel = some room_id)
    (hhandler : Chat.roomMessageHandler message = .ok (some (outbound, exclude_user))) :
    w.dispatchMessage env srv channel n message =
      w.setManager srv ((w.servers srv).manager.broadcastToRoom env.maxSendQueueSize room_id
        { message := outbound, source := some (channel, n) } exclude_user) := by
  unfold dispatchMessage
  rw [h, hhandler]

/-- What the callback of a channel does: nothing, or one broadcast to its room. -/
theorem dispatchMessage_cases : w.dispatchMessage env srv channel n message = w ∨
    ∃ room_id outbound exclude_user,
      (w.servers srv).broker.callbacks.get? channel = some room_id ∧
      w.dispatchMessage env srv channel n message =
        w.setManager srv ((w.servers srv).manager.broadcastToRoom env.maxSendQueueSize room_id
          { message := outbound, source := some (channel, n) } exclude_user) := by
  unfold dispatchMessage
  split
  · rename_i hcallback _
    exact .inr ⟨_, _, _, hcallback, rfl⟩
  · exact .inl rfl

theorem stores_dispatchMessage :
    (w.dispatchMessage env srv channel n message).db = w.db ∧
      (w.dispatchMessage env srv channel n message).redis = w.redis := by
  unfold dispatchMessage
  split <;> exact ⟨rfl, rfl⟩

/-- A listener reads from its instance's inbox and writes to its connections. -/
theorem stores_listen {e : RedisBroker.ListenerEvent} (h : w.listen env srv e = some w') :
    w'.db = w.db ∧ w'.redis = w.redis := by
  obtain ⟨⟨b, m⟩, -, rfl⟩ := Option.map_eq_some_iff.mp h
  cases m with
  | none => exact ⟨rfl, rfl⟩
  | some m => exact stores_dispatchMessage

/-- **What a listener does to the managers**: nothing, or one broadcast to the connections of its
own instance, in the room of the callback of a channel. -/
theorem manager_listen {e : RedisBroker.ListenerEvent} (h : w.listen env srv e = some w')
    (other : ServerId) :
    (w'.servers other).manager = (w.servers other).manager ∨
    other = srv ∧ ∃ b channel n message room_id outbound exclude_user,
      (w.servers srv).broker.listenerStep e = some (b, some (channel, n, message)) ∧
      b.callbacks.get? channel = some room_id ∧
      (w'.servers srv).manager =
        (w.servers srv).manager.broadcastToRoom env.maxSendQueueSize room_id
          { message := outbound, source := some (channel, n) } exclude_user := by
  obtain ⟨⟨b, yielded⟩, hb, rfl⟩ := Option.map_eq_some_iff.mp h
  cases yielded with
  | none => exact .inl manager_setBroker
  | some yielded =>
    obtain ⟨channel, n, message⟩ := yielded
    dsimp only
    rcases @dispatchMessage_cases env (w.setBroker srv b) srv channel n message with he |
      ⟨room_id, outbound, exclude_user, hcallback, he⟩
    · rw [he]
      exact .inl manager_setBroker
    · rw [he]
      by_cases hother : other = srv
      · refine .inr ⟨hother, b, channel, n, message, room_id, outbound, exclude_user, hb, ?_, ?_⟩
        · rwa [broker_setBroker, if_pos rfl] at hcallback
        · rw [manager_setManager, if_pos rfl, manager_setBroker]
      · rw [manager_setManager, if_neg hother]
        exact .inl manager_setBroker

end World

/-- Only the operations of the tasks reach the database and Redis. -/
theorem System.stores_env {env : Env} {s s' : System} {l : Label} (hl : ∀ i x, l ≠ .run i x)
    (hs : s.step env l = some s') :
    s'.world.db = s.world.db ∧ s'.world.redis = s.world.redis := by
  cases l with
  | run i x => exact absurd rfl (hl i x)
  | connect srv u name => cases hs; exact ⟨rfl, rfl⟩
  | request r => cases hs; exact ⟨rfl, rfl⟩
  | force srv =>
    simp only [System.step] at hs
    split at hs
    · cases hs
    · cases hs; exact ⟨rfl, rfl⟩
  | receive i frame =>
    simp only [System.step] at hs
    split at hs
    · split at hs
      · cases hs
        cases frame <;> exact ⟨rfl, rfl⟩
      · cases hs
    · cases hs
  | listener srv e =>
    obtain ⟨w, hw, rfl⟩ := Option.map_eq_some_iff.mp hs
    exact World.stores_listen hw
  | sendTake srv conn =>
    obtain ⟨m, -, rfl⟩ := Option.map_eq_some_iff.mp hs
    exact ⟨rfl, rfl⟩
  | sendDone srv conn ok wrote =>
    obtain ⟨m, -, rfl⟩ := Option.map_eq_some_iff.mp hs
    exact ⟨rfl, rfl⟩

/-- What an instance's connections undergo outside the tasks: a forced disconnect is taken up, a
client goes away, and the send tasks run. -/
inductive ManagerEvent (m : ConnectionManager Delivery) : ConnectionManager Delivery → Prop where
  | force {rest : List ConnId} : ManagerEvent m { m with forced := rest }
  | clientGone {conn : ConnId} : ManagerEvent m (m.clientGone conn)
  | sendTake {conn : ConnId} {m' : ConnectionManager Delivery} (h : m.sendTake conn = some m') :
      ManagerEvent m m'
  | sendDone {conn : ConnId} {ok wrote : Bool} {m' : ConnectionManager Delivery}
      (h : m.sendDone conn ok wrote = some m') : ManagerEvent m m'

/-- A step that is no operation of a task is one instance's. -/
theorem System.env_cases {env : Env} {s s' : System} {l : Label} (hl : ∀ i x, l ≠ .run i x)
    (hs : s.step env l = some s') : s'.world = s.world ∨
      (∃ srv m, s'.world = s.world.setManager srv m ∧ ManagerEvent (s.world.servers srv).manager m) ∨
      ∃ srv e, l = .listener srv e ∧ s.world.listen env srv e = some s'.world := by
  cases l with
  | run i x => exact absurd rfl (hl i x)
  | connect srv u name => cases hs; exact Or.inl rfl
  | request r => cases hs; exact Or.inl rfl
  | force srv =>
    simp only [System.step] at hs
    split at hs
    · cases hs
    · cases hs; exact Or.inr (Or.inl ⟨srv, _, rfl, .force⟩)
  | receive i frame =>
    simp only [System.step] at hs
    split at hs
    · rename_i ses _
      split at hs
      · cases hs
        cases frame with
        | disconnect => exact Or.inr (Or.inl ⟨ses.server, _, rfl, .clientGone⟩)
        | json _ | notJson | binary => exact Or.inl rfl
      · cases hs
    · cases hs
  | listener srv e =>
    obtain ⟨w, hw, rfl⟩ := Option.map_eq_some_iff.mp hs
    exact Or.inr (Or.inr ⟨srv, e, rfl, hw⟩)
  | sendTake srv conn =>
    obtain ⟨m, hm, rfl⟩ := Option.map_eq_some_iff.mp hs
    exact Or.inr (Or.inl ⟨srv, m, rfl, .sendTake hm⟩)
  | sendDone srv conn ok wrote =>
    obtain ⟨m, hm, rfl⟩ := Option.map_eq_some_iff.mp hs
    exact Or.inr (Or.inl ⟨srv, m, rfl, .sendDone hm⟩)

end NexusChat
