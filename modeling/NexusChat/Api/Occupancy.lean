import NexusChat.Api.Registered

/-!
# Who is in a room on an instance, and what leaves its subscriptions alone

A room is occupied on an instance if the registered connection of some user has it. `join_room`
brings a user into a room; `leave_room`, a disconnect, a replacement and a forced disconnect take
one out, and nobody else is affected by that. The subscriptions are changed by the broker's own
operations only, as long as `listen()` does not raise.
-/

set_option autoImplicit false

namespace NexusChat

open ConnectionManager

/-! ## Who is in a room -/

namespace ConnectionManager

/-- The user's registered connection has the room. -/
def OccupiedBy (m : ConnectionManager Delivery) (u : UserId) (room : RoomId) : Prop :=
  ∃ conn, m.connections.get? u = some conn ∧ room ∈ (m.heap conn).rooms

/-- Some registered connection has it. -/
def Occupied (m : ConnectionManager Delivery) (room : RoomId) : Prop := ∃ u, m.OccupiedBy u room

/-- The operation takes the user out of the room, if the user is in it. -/
def Removes (m : ConnectionManager Delivery) : ManagerOp Delivery → UserId → RoomId → Prop
  | .leaveRoom u room_id, v, room => v = u ∧ room_id = .str room
  | .disconnectLocked u, v, _ => v = u
  | .forceCleanup conn, v, _ => v = (m.heap conn).userId
  | .replace old u _, v, _ => v = (m.heap old).userId ∨ v = u
  | _, _, _ => False

section Rooms

variable {m : ConnectionManager Delivery} {maxsize : Nat} {me : TaskId} {o : ManagerOp Delivery}
  {u v : UserId} {room : RoomId} {conn : ConnId}

/-- A user who is not removed keeps the connection. -/
theorem get?_after (hget : m.connections.get? v = some conn) (hnot : ¬m.Removes o v room)
    (hleave : ∀ u room_id, o ≠ .leaveRoom u room_id) :
    (o.after maxsize me m).connections.get? v = some conn := by
  cases o with
  | accept | clientState | sendText | rooms | unlock | close => exact hget
  | connectLocked u name =>
    cases hu : m.connections.get? u with
    | some c =>
      simp only [ManagerOp.after, hu]
      exact hget
    | none =>
      simp only [ManagerOp.after, hu]
      rw [get?_register, if_neg ?_]
      · exact hget
      · rintro rfl
        rw [hu] at hget
        cases hget
  | forceCleanup c =>
    have hne : v ≠ (m.heap c).userId := hnot
    show (m.forceCleanup c).connections.get? v = _
    rw [get?_forceCleanup, if_neg hne]
    exact hget
  | replace old u name =>
    obtain ⟨hold, hu⟩ := not_or.mp hnot
    show ((m.forceCleanup old).register u name).connections.get? v = _
    rw [get?_register, if_neg hu, get?_forceCleanup, if_neg hold]
    exact hget
  | disconnectLocked u =>
    have hne : v ≠ u := hnot
    show (m.unregister u).connections.get? v = _
    rw [get?_unregister, if_neg hne]
    exact hget
  | joinRoom u r =>
    show (m.joinRoom u r).connections.get? v = _
    rw [connections_joinRoom]
    exact hget
  | leaveRoom u r => exact absurd rfl (hleave u r)
  | sendToUser u p =>
    show (m.sendToUser maxsize u p).connections.get? v = _
    rw [connections_sendToUser]
    exact hget

/-- **Whoever is not removed stays in the room.** -/
theorem occupiedBy_after (ho : m.Owned) (h : m.OccupiedBy v room) (hnot : ¬m.Removes o v room) :
    (o.after maxsize me m).OccupiedBy v room := by
  obtain ⟨conn, hget, hroom⟩ := h
  obtain ⟨howner, hlt⟩ := ho v conn hget
  have hin : room ∈ ((o.after maxsize me m).heap conn).rooms := by
    rcases rooms_after (o := o) hlt hroom with hin | ⟨u, rfl, hu⟩
    · exact hin
    · -- a connection has one user
      exact absurd ⟨howner.symm.trans (ho u conn hu).1, rfl⟩ hnot
  by_cases hleave : ∃ u room_id, o = .leaveRoom u room_id
  · obtain ⟨u, room_id, rfl⟩ := hleave
    refine ⟨conn, ?_, hin⟩
    show (m.leaveRoom u room_id).2.connections.get? v = _
    rw [connections_leaveRoom]
    exact hget
  · exact ⟨conn, get?_after hget hnot fun u room_id he => hleave ⟨u, room_id, he⟩, hin⟩

/-- **Only `join_room` brings a user into a room.** -/
theorem occupiedBy_before (ho : m.Owned) (h : (o.after maxsize me m).OccupiedBy v room) :
    m.OccupiedBy v room ∨ ∃ u, o = .joinRoom u room := by
  obtain ⟨conn, hget, hroom⟩ := h
  have hregister : ∀ {n : ConnectionManager Delivery} {u : UserId} (name : String), n.Owned →
      (n.register u name).connections.get? v = some conn →
      room ∈ ((n.register u name).heap conn).rooms → n.OccupiedBy v room := by
    intro n u name hn hget hroom
    -- a new connection is in no room
    rw [get?_register] at hget
    split at hget
    · cases hget
      rw [heap_register, if_pos rfl] at hroom
      exact absurd hroom (PySet.not_mem_empty room)
    · rw [heap_register, if_neg (Nat.ne_of_lt (hn v conn hget).2)] at hroom
      exact ⟨conn, hget, hroom⟩
  have hforce : ∀ {c : ConnId}, (m.forceCleanup c).OccupiedBy v room → m.OccupiedBy v room := by
    rintro c ⟨conn, hget, hroom⟩
    rw [get?_forceCleanup] at hget
    split at hget
    · cases hget
    · refine ⟨conn, hget, ?_⟩
      rw [heap_forceCleanup] at hroom
      split at hroom
      · rename_i heq
        rw [heq]
        exact hroom
      · exact hroom
  cases o with
  | accept | clientState | sendText | rooms | unlock => exact .inl ⟨conn, hget, hroom⟩
  | close c =>
    refine .inl ⟨conn, hget, ?_⟩
    rw [ManagerOp.after, heap_closeSocket] at hroom
    split at hroom
    · rename_i heq
      rw [heq]
      exact hroom
    · exact hroom
  | connectLocked u name =>
    cases hu : m.connections.get? u with
    | some c =>
      simp only [ManagerOp.after, hu] at hget hroom
      exact .inl ⟨conn, hget, hroom⟩
    | none =>
      simp only [ManagerOp.after, hu] at hget hroom
      exact .inl (hregister name ho hget hroom)
  | forceCleanup c => exact .inl (hforce ⟨conn, hget, hroom⟩)
  | replace old u name =>
    have hn : (m.forceCleanup old).Owned := owned_forceCleanup ho
    exact .inl (hforce (hregister (n := m.forceCleanup old) name hn hget hroom))
  | disconnectLocked u =>
    -- the user who leaves is registered no more, and the rooms of the others stay
    left
    have hu : (m.unregister u).connections.get? v = some conn := hget
    have hin : room ∈ ((m.unregister u).heap conn).rooms := hroom
    rw [get?_unregister] at hu
    rw [heap_unregister] at hin
    split at hu
    · cases hu
    · refine ⟨conn, hu, ?_⟩
      split at hin <;> exact hin
  | joinRoom u r =>
    have hu : (m.joinRoom u r).connections.get? v = some conn := hget
    have hin : room ∈ ((m.joinRoom u r).heap conn).rooms := hroom
    rw [connections_joinRoom] at hu
    rw [heap_joinRoom] at hin
    split at hin
    · rcases PySet.mem_add.mp hin with rfl | hin
      · exact .inr ⟨u, rfl⟩
      · exact .inl ⟨conn, hu, hin⟩
    · exact .inl ⟨conn, hu, hin⟩
  | leaveRoom u r =>
    -- only a string names a room: anything else leaves the set as it is
    left
    have hu : (m.leaveRoom u r).2.connections.get? v = some conn := hget
    have hin : room ∈ ((m.leaveRoom u r).2.heap conn).rooms := hroom
    rw [connections_leaveRoom] at hu
    rw [heap_leaveRoom] at hin
    refine ⟨conn, hu, ?_⟩
    cases r with
    | str r =>
      dsimp only at hin
      split at hin
      · exact (PySet.mem_discard.mp hin).1
      · exact hin
    | _ => exact hin
  | sendToUser u p =>
    left
    have hu : (m.sendToUser maxsize u p).connections.get? v = some conn := hget
    have hin : room ∈ ((m.sendToUser maxsize u p).heap conn).rooms := hroom
    rw [connections_sendToUser] at hu
    refine ⟨conn, hu, ?_⟩
    rcases heap_sendToUser (m := m) (u := u) (c := conn) (n := maxsize) (p := p) with he | ⟨-, he⟩
    · rw [he] at hin
      exact hin
    · rw [he] at hin
      exact hin

/-- A join that finds a connection puts it into the room. -/
theorem occupiedBy_joinRoom (hget : m.connections.get? u = some conn) :
    (m.joinRoom u room).OccupiedBy u room := by
  refine ⟨conn, ?_, ?_⟩
  · rw [connections_joinRoom]
    exact hget
  · rw [heap_joinRoom, if_pos hget]
    exact PySet.mem_add.mpr (.inl rfl)

theorem occupied_congr {m' : ConnectionManager Delivery} (h : SameSessions m m') :
    m'.Occupied room ↔ m.Occupied room := by
  unfold Occupied OccupiedBy
  rw [h.connections]
  simp only [h.rooms]

end Rooms

end ConnectionManager

/-! ## What leaves the subscriptions alone -/

namespace RedisBroker

/-- The listener runs, and has had no error. -/
def Listens (b : RedisBroker) : Prop :=
  b.listenerTask = some .created ∨ ∃ p, b.listenerTask = some (.listening p)

/-- Nothing but messages has come and gone. -/
structure Keeps (b b' : RedisBroker) : Prop where
  callbacks : b'.callbacks = b.callbacks
  pubsub : b'.pubsub = b.pubsub
  channels : ∀ p, (b'.heap p).channels = (b.heap p).channels
  listens : b.Listens → b'.Listens

section Keeps

variable {b b' : RedisBroker} {channel : Channel} {n : Nat} {message : Json}

theorem Keeps.refl (b : RedisBroker) : b.Keeps b := ⟨rfl, rfl, fun _ => rfl, id⟩

theorem keeps_deliverTo {received : PubSubId → Bool} :
    b.Keeps (World.deliverTo received channel n message b) := by
  refine ⟨rfl, rfl, fun p => ?_, id⟩
  simp only [World.deliverTo]
  split <;> rfl

theorem keeps_startListening (h : b.pubsub ≠ none) : b.Keeps b.startListening := by
  obtain ⟨p, hp⟩ := Option.ne_none_iff_exists'.mp h
  simp only [startListening, hp]
  exact ⟨rfl, hp.symm, fun _ => rfl, fun _ => .inr ⟨p, rfl⟩⟩

/-- The listener takes messages, as long as `listen()` does not raise. -/
theorem keeps_listenerStep {e : ListenerEvent} {m : Option (Channel × Nat × Json)}
    (hp : b.pubsub ≠ none) (hl : b.Listens) (he : e ≠ .fail)
    (hs : b.listenerStep e = some (b', m)) : b.Keeps b' := by
  rcases hl with hl | ⟨p, hl⟩
  · cases e with
    | «begin» =>
      simp only [listenerStep, hl, Option.some.injEq, Prod.mk.injEq] at hs
      rw [← hs.1]
      exact keeps_startListening hp
    | _ => simp [listenerStep, hl] at hs
  · cases e with
    | receive ch =>
      simp only [listenerStep, hl] at hs
      split at hs
      · cases hs
      · rename_i rest _
        cases hs
        refine ⟨rfl, rfl, fun q => ?_, id⟩
        rw [takeMessage, heap_modify]
        split
        · rename_i hq
          rw [hq]
        · rfl
    | exhausted =>
      simp only [listenerStep, hl] at hs
      split at hs
      · cases hs
        exact keeps_startListening hp
      · cases hs
    | fail => exact absurd rfl he
    | _ => simp [listenerStep, hl] at hs

end Keeps

end RedisBroker

section Steps

variable {env : Env} {srv : ServerId} {me : TaskId} {x : Choice} {w w' : World} {op : Op}
  {r : Except Exn op.Resp}

/-- Only an operation of the broker itself changes its subscriptions. -/
theorem brokers_exec (h : op.exec env srv me x w = some (r, w')) (other : ServerId) :
    (∃ o, op = .broker o ∧ other = srv ∧
      (w'.servers other).broker = o.after x.ok (w.servers other).broker) ∨
    (w.servers other).broker.Keeps (w'.servers other).broker := by
  cases op with
  | broker o =>
    cases h
    rw [World.broker_setBroker]
    split
    · rename_i hsrv
      subst hsrv
      exact .inl ⟨o, rfl, rfl, rfl⟩
    · exact .inr (.refl _)
  | manager o =>
    obtain ⟨⟨r', m⟩, -, heq⟩ := Option.map_eq_some_iff.mp h
    cases heq
    rw [World.broker_setManager]
    exact .inr (.refl _)
  | db o =>
    obtain ⟨⟨r', d⟩, -, heq⟩ := Option.map_eq_some_iff.mp h
    cases heq
    exact .inr (.refl _)
  | redis o =>
    cases h
    split <;> exact .inr (.refl _)
  | publish channel message =>
    cases h
    split
    · exact .inr RedisBroker.keeps_deliverTo
    · exact .inr (.refl _)
  | sleep =>
    cases h
    exact .inr (.refl _)
  | time =>
    cases h
    exact .inr (.refl _)

/-- An operation of the broker, its answer, and what it leaves alone. -/
theorem exec_brokerOp {o : BrokerOp} {r : Except Exn o.Resp}
    (h : (Op.broker o).exec env srv me x w = some (r, w')) :
    r = o.answer x.ok (w.servers srv).broker ∧
      (w'.servers srv).broker = o.after x.ok (w.servers srv).broker ∧
        (w'.servers srv).manager = (w.servers srv).manager := by
  obtain ⟨hr, rfl⟩ := Op.world_broker h
  refine ⟨hr, ?_, World.manager_setBroker⟩
  rw [World.broker_setBroker, if_pos rfl]

theorem broker_dispatchMessage {channel : Channel} {n : Nat} {message : Json} {other : ServerId} :
    ((w.dispatchMessage env srv channel n message).servers other).broker =
      (w.servers other).broker := by
  unfold World.dispatchMessage
  split
  · exact World.broker_setManager
  · rfl

/-- A step that is no operation of a task leaves them alone, if `listen()` does not raise. -/
theorem keeps_env {s s' : System} {l : Label} (hl : ∀ i x, l ≠ .run i x)
    (hfail : ∀ srv, l ≠ .listener srv .fail) (hs : s.step env l = some s') (other : ServerId)
    (hpubsub : (s.world.servers other).broker.pubsub ≠ none)
    (hlistens : (s.world.servers other).broker.Listens) :
    (s.world.servers other).broker.Keeps (s'.world.servers other).broker := by
  rcases System.env_cases hl hs with he | ⟨srv, m, he, -⟩ | ⟨srv, e, rfl, hlisten⟩
  · rw [he]
    exact .refl _
  · rw [he, World.broker_setManager]
    exact .refl _
  · obtain ⟨⟨b, message⟩, hb, hw⟩ := Option.map_eq_some_iff.mp hlisten
    have hbroker : (s'.world.servers other).broker =
        if other = srv then b else (s.world.servers other).broker := by
      rw [← World.broker_setBroker, ← hw]
      cases message with
      | none => rfl
      | some message => exact broker_dispatchMessage
    rw [hbroker]
    split
    · rename_i hsrv
      subst hsrv
      refine RedisBroker.keeps_listenerStep hpubsub hlistens ?_ hb
      rintro rfl
      exact hfail other rfl
    · exact .refl _

end Steps

end NexusChat
