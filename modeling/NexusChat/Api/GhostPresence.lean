import NexusChat.Api.Online
import NexusChat.App.Ownership
import NexusChat.Lib.Promise

/-!
# Presence entries nobody takes away (`set_online`, and the `finally` of a session)

An entry of a user is taken away by a session of the user: by `leave_room`, or by the `finally`,
which walks over the rooms of its connection object. `_handle_join_room` writes the entry in any
case, and records the room only if the user has a registered connection at that moment.

So every entry is accounted for, as long as a room is on a connection object that is still to be
walked over when the user is set online there (`System.Accounted`). If the connection is
unregistered in the middle of a join, the entry stays after all sessions have ended.
-/

set_option autoImplicit false

namespace NexusChat

open ConnectionManager

/-! ## The rooms of a connection object -/

section Rooms

variable {env : Env} {srv other : ServerId} {me : TaskId} {x : Choice} {w w' : World} {op : Op}
  {conn : ConnId} {room : RoomId}

/-- **A room stays on a connection object until the user leaves it.** -/
theorem rooms_after {m : ConnectionManager Delivery} {maxsize : Nat} {o : ManagerOp Delivery}
    (hconn : conn < m.nextConn) (hroom : room ∈ (m.heap conn).rooms) :
    room ∈ ((o.after maxsize me m).heap conn).rooms ∨
      ∃ u, o = .leaveRoom u (.str room) ∧ m.connections.get? u = some conn := by
  have hregister : ∀ {n : ConnectionManager Delivery} {u : UserId} {name : String},
      conn < n.nextConn → room ∈ (n.heap conn).rooms →
        room ∈ ((n.register u name).heap conn).rooms := by
    intro n u name hlt hin
    rw [heap_register, if_neg (Nat.ne_of_lt hlt)]
    exact hin
  have hforce : ∀ {c : ConnId}, room ∈ ((m.forceCleanup c).heap conn).rooms := by
    intro c
    rw [heap_forceCleanup]
    split
    · rename_i heq
      rw [← heq]
      exact hroom
    · exact hroom
  cases o with
  | accept | clientState | sendText | rooms | unlock => exact .inl hroom
  | connectLocked u name =>
    simp only [ManagerOp.after]
    split
    · exact .inl hroom
    · exact .inl (hregister hconn hroom)
  | close c =>
    rw [ManagerOp.after, heap_closeSocket]
    split
    · rename_i heq
      rw [← heq]
      exact .inl hroom
    · exact .inl hroom
  | forceCleanup c => exact .inl hforce
  | replace old u name => exact .inl (hregister (n := m.forceCleanup old) hconn hforce)
  | disconnectLocked u =>
    show room ∈ ((m.unregister u).heap conn).rooms ∨ _
    rw [heap_unregister]
    split <;> exact .inl hroom
  | joinRoom u r =>
    show room ∈ ((m.joinRoom u r).heap conn).rooms ∨ _
    rw [heap_joinRoom]
    split
    · exact .inl (PySet.mem_add.mpr (.inr hroom))
    · exact .inl hroom
  | leaveRoom u r =>
    show room ∈ ((m.leaveRoom u r).2.heap conn).rooms ∨ _
    rw [heap_leaveRoom]
    cases r with
    | str r =>
      -- the discard reaches the connection the user has registered
      by_cases hleft : m.connections.get? u = some conn ∧ room = r
      · obtain ⟨hget, rfl⟩ := hleft
        exact .inr ⟨u, rfl, hget⟩
      · refine .inl ?_
        dsimp only
        split
        · rename_i hget
          exact PySet.mem_discard.mpr ⟨hroom, fun heq => hleft ⟨hget, heq⟩⟩
        · exact hroom
    | _ => exact .inl hroom
  | sendToUser u p =>
    refine .inl ?_
    show room ∈ ((m.sendToUser maxsize u p).heap conn).rooms
    rcases heap_sendToUser (m := m) (u := u) (c := conn) (n := maxsize) (p := p) with he | ⟨-, he⟩
    · rw [he]
      exact hroom
    · rw [he]
      exact hroom

theorem World.rooms_exec {r : Except Exn op.Resp} (h : op.exec env srv me x w = some (r, w'))
    (hconn : conn < (w.servers other).manager.nextConn)
    (hroom : room ∈ ((w.servers other).manager.heap conn).rooms) :
    room ∈ ((w'.servers other).manager.heap conn).rooms ∨
      ∃ u, op = .manager (.leaveRoom u (.str room)) ∧
        (w.servers other).manager.connections.get? u = some conn := by
  rcases managers_exec h other with ⟨maxsize, me, o, rfl, -, he⟩ | he
  · rw [he]
    rcases rooms_after (o := o) hconn hroom with hin | ⟨u, rfl, hget⟩
    · exact .inl hin
    · exact .inr ⟨u, rfl, hget⟩
  · rw [he]
    exact .inl hroom

end Rooms

/-! ## Who takes an entry away -/

/-- Redis has answered. -/
def Op.Answered : (op : Op) → Except Exn op.Resp → Prop
  | .redis _, r => ∃ a, r = .ok a
  | _, _ => True

theorem Op.redis_answered {env : Env} {srv : ServerId} {me : TaskId} {x : Choice} {w w' : World}
    {o : RedisOp} {r : Except Exn (Op.redis o).Resp} (hok : x.ok = true)
    (h : (Op.redis o).exec env srv me x w = some (r, w')) : ∃ a, r = .ok a := by
  obtain ⟨hr, -⟩ := Prod.mk.inj (Option.some.inj h)
  rw [if_pos hok] at hr
  exact ⟨_, hr.symm⟩

/-- The program is going to take the user off the presence set, if Redis answers. -/
def Erases (key : String) (u : UserId) {α : Type} (p : Prog α) : Prop :=
  p.Surely (S := Op.sig) Op.Answered fun op : Op => op = .redis (.zrem key u)

/-- `leave_room` takes the user off the presence set after it has taken the room off the
connection object; and only a session of the user does that. -/
def Op.Hands (env : Env) (owner : Option UserId) {α : Type} (op : Op)
    (k : Except Exn op.Resp → Prog α) : Prop :=
  ∀ u room, op = .manager (.leaveRoom u (.str room)) →
    owner = some u ∧ ∀ a, Erases (PresenceService.key env (.str room)) u (k (.ok a))

section Programs

variable {env : Env} {o : Option UserId} {u : UserId} {username key : String} {α : Type}

theorem not_erases_ret (a : α) : ¬Erases key u (.ret a : Prog α) := id

theorem not_erases_raise (e : Exn) : ¬Erases key u (.raise e : Prog α) := id

/-- The operations that take no room off a connection object. -/
def Op.Stays (op : Op) : Prop := ∀ u room, op ≠ .manager (.leaveRoom u room)

theorem Op.Quiet.stays {op : Op} (h : op.Quiet) : op.Stays := by
  rintro u room rfl
  exact h

theorem hands_of_stays (op : Op) (k : Except Exn op.Resp → Prog α) (h : op.Stays) :
    op.Hands env o k := fun u room heq => absurd heq (h u (.str room))

theorem hands_of_all {p : Prog α} (h : p.All Op.Stays) : p.Nodes (Op.Hands env o) :=
  Coro.nodes_of_all hands_of_stays h

theorem erases_setOffline {room_id : Json} :
    Erases (PresenceService.key env room_id) u (PresenceService.setOffline env room_id u) :=
  Coro.surely_perform (S := Op.sig) rfl

theorem hands_handleLeaveRoom {event_data : Json} :
    (Chat.handleLeaveRoom env u username event_data).Nodes (Op.Hands env (some u)) := by
  unfold Chat.handleLeaveRoom
  cases event_data.get "room_id" (.str "") with
  | error e => trivial
  | ok room_id =>
    change Coro.Nodes (S := Op.sig) _ (if room_id.truthy = true then _ else _)
    split
    · refine ⟨fun u' room heq => ?_, fun r => ?_⟩
      · cases heq
        have herases : Erases (PresenceService.key env (.str room)) u
            (PresenceService.setOffline env (.str room) u >>= fun _ =>
              RedisBroker.publish (Chat.roomChannel env (.str room))
                (envelope "presence" (.presenceUpdate (.str room) u username "offline"))) :=
          Coro.surely_bind (S := Op.sig) erases_setOffline
        exact ⟨rfl, fun _ => herases⟩
      · cases r with
        | error e => trivial
        | ok a =>
          have hquiet : ∀ op : Op, op.Quiet → op.Stays := fun _ => Op.Quiet.stays
          show Coro.Nodes (S := Op.sig) _ (PresenceService.setOffline env room_id u >>= fun _ =>
            RedisBroker.publish (Chat.roomChannel env room_id)
              (envelope "presence" (.presenceUpdate room_id u username "offline")))
          exact hands_of_all (Coro.all_bind (all_redisOp hquiet) fun _ =>
            all_publish hquiet fun _ _ heq => by cases heq)
    · trivial

theorem hands_handleFrame {data : Json} :
    (Chat.handleFrame env u username data).Nodes (Op.Hands env (some u)) := by
  have hquiet : ∀ op : Op, op.Quiet → op.Stays := fun _ => Op.Quiet.stays
  have hpub : ∀ channel message, (Op.publish channel message).Stays := fun _ _ _ _ heq => by
    cases heq
  have hdb : ∀ op, (Op.db op).Stays := fun _ _ _ heq => by cases heq
  have hbroker : ∀ op, (Op.broker op).Stays := fun _ _ _ heq => by cases heq
  rw [Chat.handleFrame_eq]
  cases data.get "event" (.str "") with
  | error e => trivial
  | ok event =>
    cases data.get "data" (.obj []) with
    | error e => trivial
    | ok event_data =>
      show (Chat.handleEvent env u username event event_data).Nodes (Op.Hands env (some u))
      refine Coro.nodes_bind hands_of_stays (all_rateLimited hquiet) fun limited => ?_
      split
      · exact hands_of_all (all_sendToUser hquiet)
      · apply Chat.dispatch_cases (P := fun p => p.Nodes (Op.Hands env (some u)))
        · intro _
          exact hands_of_all (all_handleJoinRoom hquiet (fun _ _ => hdb _) (hdb _)
            (fun _ => hbroker _) (fun _ _ => hbroker _) (fun _ _ _ heq => by cases heq)
            fun _ => hpub _ _)
        · exact fun _ => hands_handleLeaveRoom
        · intro _
          exact hands_of_all (all_handleMessage hquiet (fun _ _ => ⟨hdb _, fun _ _ _ _ => hdb _,
            hdb _, hdb _, hdb _⟩) fun _ _ _ => hpub _ _)
        · exact fun _ => hands_of_all (all_handleTyping hquiet fun _ _ => hpub _ _)
        · exact fun _ => hands_of_all (all_handleTyping hquiet fun _ _ => hpub _ _)
        · exact fun _ => hands_of_all (all_sendToUser hquiet)

/-- Whoever takes a room off a connection object goes on to take its user off the presence set. -/
theorem started_hands : Started env fun o {_} p => p.Nodes (Op.Hands env o) where
  connect _ _ := hands_of_all (all_connect (fun _ _ heq => by cases heq)
    (fun _ _ heq => by cases heq) (fun _ _ _ heq => by cases heq) (fun _ _ _ _ heq => by cases heq)
    (fun _ _ _ heq => by cases heq) fun _ _ _ heq => by cases heq)
  frame _ _ _ := hands_handleFrame
  send _ _ := hands_of_all (all_sendToUser fun _ => Op.Quiet.stays)
  cleanup _ _ _ := hands_of_all (all_cleanup (fun _ => Op.Quiet.stays)
    (fun _ _ _ heq => by cases heq) (fun _ _ heq => by cases heq) (fun _ _ _ heq => by cases heq)
    fun _ _ heq => by cases heq)
  request _ := hands_of_all (all_request fun _ _ _ heq => by cases heq)
  force _ _ := hands_of_all (all_forceDisconnect (fun _ _ heq => by cases heq)
    (fun _ _ _ heq => by cases heq) (fun _ _ heq => by cases heq) fun _ _ heq => by cases heq)

/-- **The loop of the `finally` takes the user off each of the rooms it walks over.** -/
theorem erases_leaveAll {room : RoomId} {rooms : List RoomId} (h : room ∈ rooms) :
    Erases (PresenceService.key env (.str room)) u (Chat.leaveAll env u username rooms) := by
  induction rooms with
  | nil => cases h
  | cons room_id rooms ih =>
    rcases List.mem_cons.mp h with rfl | hin
    · exact Coro.surely_bind (S := Op.sig) erases_setOffline
    · refine Coro.surely_after (S := Op.sig) (Coro.ends_perform fun _ hr => hr) fun _ => ?_
      exact Coro.surely_after (S := Op.sig) (Coro.ends_tryCatch fun _ => trivial) fun _ => ih hin

end Programs

/-! ## The sessions that are going to take an entry away -/

/-- The `finally` of the session has yet to list the rooms of the connection. -/
def Phase.Walks (env : Env) (u : UserId) (username : String) (conn : ConnId) : Phase → Prop
  | .receiving c | .handling c _ _ => c = conn
  | .cleanup c p => c = conn ∧ p = Chat.cleanup env u username conn
  | .connecting _ | .ended => False

namespace Task

/-- The task is a session of the user, a room of the key is on its connection object, and its
`finally` has yet to list the rooms. -/
def Walks (env : Env) (w : World) (key : String) (u : UserId) : Task → Prop
  | .session ses => ses.userId = u ∧ ∃ conn room, ses.phase.Walks env u ses.username conn ∧
      PresenceService.key env (.str room) = key ∧
        room ∈ ((w.servers ses.server).manager.heap conn).rooms
  | .request _ _ | .forced _ _ _ => False

/-- The task is a session of the user, and on its way to take the user off the presence set. -/
def Erases (key : String) (u : UserId) : Task → Prop
  | .session ses => ses.userId = u ∧ ses.phase.Does fun {_} p => NexusChat.Erases key u p
  | .request _ _ | .forced _ _ _ => False

end Task

section Steps

variable {env : Env} {srv : ServerId} {me : TaskId} {x : Choice} {w w' : World} {u : UserId}
  {username key : String} {conn : ConnId} {phase phase' : Phase} {t t' : Task}

theorem Phase.Walks.conn_eq (h : phase.Walks env u username conn) : phase.conn = some conn := by
  cases phase with
  | connecting p => exact absurd h id
  | ended => exact absurd h id
  | receiving c => exact congrArg some h
  | handling c frame p => exact congrArg some h
  | cleanup c p => exact congrArg some h.1

/-- A session goes on to its `finally` with its connection, or lists the rooms. -/
theorem Phase.walks_step {isOpen : ConnId → Bool} (h : phase.Walks env u username conn)
    (hs : phase.step env srv me x w = some (phase', w')) :
    (phase'.settle env u username isOpen).Walks env u username conn ∨
      ∀ room ∈ ((w.servers srv).manager.heap conn).rooms,
        phase'.Does fun {_} p => Erases (PresenceService.key env (.str room)) u p := by
  cases phase with
  | connecting p => exact absurd h id
  | ended => exact absurd h id
  | receiving c => cases hs
  | handling c frame p =>
    obtain rfl : c = conn := h
    obtain ⟨⟨p', w₁⟩, hp, heq⟩ := Option.map_eq_some_iff.mp hs
    cases heq
    left
    cases p' with
    | ret a =>
      simp only [settle]
      split
      · rfl
      · exact ⟨rfl, rfl⟩
    | raise e => exact ⟨rfl, rfl⟩
    | await op k => rfl
  | cleanup c p =>
    obtain ⟨rfl, rfl⟩ := h
    obtain ⟨⟨p', w₁⟩, hp, heq⟩ := Option.map_eq_some_iff.mp hs
    cases heq
    right
    intro room hroom
    obtain ⟨op, k, r, hop, hx, rfl⟩ := Coro.step_eq_some hp
    cases hop
    obtain ⟨⟨r', m⟩, ho, heq⟩ := Option.map_eq_some_iff.mp hx
    cases heq
    -- the rooms are listed in an order of their own
    have henabled : (ManagerOp.rooms c).enabled x.socket (w.servers srv).manager = true := by
      unfold ManagerOp.exec at ho
      split at ho
      · assumption
      · cases ho
    obtain ⟨-, rfl, -⟩ := ManagerOp.exec_eq_some ho
    have hperm : x.order.Perm ((w.servers srv).manager.heap c).rooms.elems :=
      of_decide_eq_true (Bool.and_eq_true_iff.mp henabled).2
    show Erases _ u (Chat.leaveAll env u username x.order >>= fun _ =>
      ConnectionManager.disconnect managerOp u)
    exact Coro.surely_bind (S := Op.sig) (erases_leaveAll (hperm.mem_iff.mpr hroom))

/-- An operation takes the room off the connection object only if its user leaves it. -/
theorem System.Owning.rooms_exec {s : System} {i : TaskId} {ses : Session} {op : Op}
    {r : Except Exn op.Resp} {room : RoomId} (howning : s.Owning env)
    (hi : s.tasks[i]? = some (.session ses)) (hconn : ses.phase.conn = some conn)
    (hexec : op.exec env srv me x s.world = some (r, w'))
    (hroom : room ∈ ((s.world.servers ses.server).manager.heap conn).rooms) :
    room ∈ ((w'.servers ses.server).manager.heap conn).rooms ∨
      op = .manager (.leaveRoom ses.userId (.str room)) := by
  obtain ⟨howner, hlt⟩ := howning.session hi hconn
  rcases World.rooms_exec hexec hlt hroom with hin | ⟨u', rfl, hget⟩
  · exact .inl hin
  · -- the registered connections are their users' own
    have huser : u' = ses.userId := ((howning.owned _ _ _ hget).1).symm.trans howner
    exact .inr (by rw [huser])

/-- An operation of another task. -/
theorem Task.walks_other {s : System} {i : TaskId} {op : Op} {r : Except Exn op.Resp}
    (howning : s.Owning env) (hi : s.tasks[i]? = some t) (h : t.Walks env s.world key u)
    (hexec : op.exec env srv me x s.world = some (r, w')) : t.Walks env w' key u ∨
      ∃ room, op = .manager (.leaveRoom u (.str room)) ∧
        PresenceService.key env (.str room) = key := by
  cases t with
  | request _ _ => exact absurd h id
  | forced _ _ _ => exact absurd h id
  | session ses =>
    obtain ⟨rfl, conn, room, hwalks, hkey, hroom⟩ := h
    rcases howning.rooms_exec hi hwalks.conn_eq hexec hroom with hin | hleave
    · exact .inl ⟨rfl, conn, room, hwalks, hkey, hin⟩
    · exact .inr ⟨room, hleave, hkey⟩

/-- The session's own operation: the room is left, listed, or stays. -/
theorem Task.walks_step {s : System} {i : TaskId} (howning : s.Owning env)
    (hi : s.tasks[i]? = some t) (h : t.Walks env s.world key u)
    (hs : t.step env i x s.world = some (t', w')) : t'.Walks env w' key u ∨ t'.Erases key u ∨
      ∃ room, t.head? = some (.manager (.leaveRoom u (.str room))) ∧
        PresenceService.key env (.str room) = key := by
  obtain ⟨op, r, hhead, hexec⟩ := Task.step_exec hs
  cases t with
  | request _ _ => exact absurd h id
  | forced _ _ _ => exact absurd h id
  | session ses =>
    obtain ⟨rfl, conn, room, hwalks, hkey, hroom⟩ := h
    rcases howning.rooms_exec hi hwalks.conn_eq hexec hroom with hin | rfl
    · obtain ⟨⟨phase', w₁⟩, hphase, heq⟩ := Option.map_eq_some_iff.mp hs
      cases heq
      rcases Phase.walks_step hwalks hphase with hwalks' | hlisted
      · exact .inl ⟨rfl, conn, room, hwalks', hkey, hin⟩
      · subst hkey
        exact .inr (.inl ⟨rfl, Phase.does_settle not_erases_ret not_erases_raise
          (hlisted room hroom)⟩)
    · exact .inr (.inr ⟨room, hhead, hkey⟩)

theorem leaveRoom_answers {m : ConnectionManager Delivery} {room : RoomId} :
    ∃ a, (m.leaveRoom u (.str room)).1 = .ok a := by
  unfold ConnectionManager.leaveRoom
  split <;> exact ⟨(), rfl⟩

theorem Phase.programs_head {R : {α : Type} → Prog α → Prop} {op : Op} (h : phase.Programs R)
    (hhead : phase.head? = some op) : phase.Programs fun {_} p => R p ∧ p.head? = some op := by
  cases phase with
  | connecting p => exact ⟨h, hhead⟩
  | handling conn frame p => exact ⟨h, hhead⟩
  | cleanup conn p => exact ⟨h, hhead⟩
  | receiving conn => trivial
  | ended => trivial

/-- The session whose user leaves the room is on its way to take the user off the presence set. -/
theorem Task.erases_leaveRoom {room : RoomId}
    (hs : t.step env me x w = some (t', w'))
    (hP : t.Programs fun o {_} p => p.Nodes (Op.Hands env o))
    (hhead : t.head? = some (.manager (.leaveRoom u (.str room)))) :
    t'.Erases (PresenceService.key env (.str room)) u := by
  -- the node says whose session it is, and what comes next
  obtain ⟨α, p, hp, hop⟩ := Task.exists_program hP hhead
  have howner : t.owner = some u := by
    cases p with
    | ret a => cases hop
    | raise e => cases hop
    | await op k =>
      cases hop
      exact (hp.1 u room rfl).1
  cases t with
  | request _ _ => cases howner
  | forced _ _ _ => cases howner
  | session ses =>
    cases howner
    obtain ⟨⟨phase', w₁⟩, hphase, heq⟩ := Option.map_eq_some_iff.mp hs
    cases heq
    refine ⟨rfl, Phase.does_settle not_erases_ret not_erases_raise ?_⟩
    have hnodes : ses.phase.Programs fun {_} p => p.Nodes (Op.Hands env (some ses.userId)) := hP
    refine Phase.does_step (Phase.programs_head hnodes hhead) hphase ?_
    rintro β q q' ⟨hnodes, hq⟩ hstep
    obtain ⟨op, k, r, rfl, hx, rfl⟩ := Coro.step_eq_some hstep
    cases hq
    obtain ⟨hr, -⟩ := exec_managerOp hx
    obtain ⟨a, ha⟩ : ∃ a, r = .ok a := by
      rw [hr]
      exact leaveRoom_answers
    rw [ha]
    exact (hnodes.1 _ room rfl).2 a

/-- It is on its way until it has done so, if Redis answers. -/
theorem Task.erases_step {op : Op} (hs : t.step env me x w = some (t', w'))
    (h : t.Erases key u) (hhead : t.head? = some op)
    (hother : op ≠ .redis (.zrem key u))
    (hanswer : ∀ r, op.exec env t.activity.server me x w = some (r, w') → op.Answered r) :
    t'.Erases key u := by
  cases t with
  | request _ _ => exact absurd h id
  | forced _ _ _ => exact absurd h id
  | session ses =>
    obtain ⟨rfl, hdoes⟩ := h
    obtain ⟨⟨phase', w₁⟩, hphase, heq⟩ := Option.map_eq_some_iff.mp hs
    cases heq
    have hprograms : ses.phase.Programs fun {_} p => NexusChat.Erases key ses.userId p := by
      cases hses : ses.phase with
      | receiving conn => trivial
      | ended => trivial
      | _ =>
        rw [hses] at hdoes
        exact hdoes
    refine ⟨rfl, Phase.does_settle not_erases_ret not_erases_raise ?_⟩
    refine Phase.does_step (Phase.programs_head hprograms hhead) hphase ?_
    rintro β q q' ⟨herases, hq⟩ hstep
    refine Coro.Surely.step herases hstep fun op' r' hop hx => ?_
    rw [hq] at hop
    cases hop
    exact ⟨hother, hanswer r' hx⟩

/-- Nothing else touches a connection object's rooms. -/
theorem Task.Walks.same (h : t.Walks env w key u) (hsame : ∀ srv,
    SameSessions (w.servers srv).manager (w'.servers srv).manager) : t.Walks env w' key u := by
  cases t with
  | request _ _ => exact absurd h id
  | forced _ _ _ => exact absurd h id
  | session ses =>
    obtain ⟨hu, conn, room, hwalks, hkey, hroom⟩ := h
    refine ⟨hu, conn, room, hwalks, hkey, ?_⟩
    rw [(hsame ses.server).rooms]
    exact hroom

theorem Session.walks_receive {ses ses' : Session} {frame : Frame}
    (hphase : ses.phase = .receiving conn) (hses : ses.receive env conn w frame = (ses', w'))
    (h : (Task.session ses).Walks env w' key u) : (Task.session ses').Walks env w' key u := by
  obtain ⟨rfl, c, room, hwalks, hkey, hroom⟩ := h
  rw [hphase] at hwalks
  obtain rfl : conn = c := hwalks
  cases frame with
  | json data =>
    cases hses
    refine ⟨rfl, conn, room, ?_, hkey, hroom⟩
    show Phase.Walks env _ _ conn (Phase.settle _ _ _ _ (.handling conn (some data)
      (Chat.handleFrame env ses.userId ses.username data)))
    generalize Chat.handleFrame env ses.userId ses.username data = p
    cases p with
    | ret a =>
      simp only [Phase.settle]
      split
      · rfl
      · exact ⟨rfl, rfl⟩
    | raise e => exact ⟨rfl, rfl⟩
    | await op k => rfl
  | notJson =>
    cases hses
    exact ⟨rfl, conn, room, rfl, hkey, hroom⟩
  | binary =>
    cases hses
    exact ⟨rfl, conn, room, ⟨rfl, rfl⟩, hkey, hroom⟩
  | disconnect =>
    cases hses
    exact ⟨rfl, conn, room, ⟨rfl, rfl⟩, hkey, hroom⟩

end Steps

/-! ## The account of all entries -/

/-- The operations that call Redis. -/
def Op.CallsRedis : Op → Prop
  | .redis _ | .publish _ _ | .broker _ => True
  | _ => False

namespace System

/-- A session of the user is going to take the entry away. -/
def Covered (env : Env) (s : System) (key : String) (u : UserId) : Prop :=
  ∃ (i : TaskId) (t : Task), s.tasks[i]? = some t ∧ (t.Walks env s.world key u ∨ t.Erases key u)

def Accounted (env : Env) (s : System) : Prop :=
  ∀ key u, s.world.redis.score key u ≠ none → s.Covered env key u

/-- Redis answers. -/
def RedisAnswers (s : System) : Label → Prop
  | .run i x => ∀ t op, s.tasks[i]? = some t → t.head? = some op → op.CallsRedis → x.ok = true
  | _ => True

/-- When a user is set online in a room, the room is on the connection object of a session of the
user whose `finally` has yet to list the rooms. -/
def Recorded (env : Env) (s : System) : Label → Prop
  | .run i _ => ∀ t key u now, s.tasks[i]? = some t →
      t.head? = some (.redis (.zadd key u now)) →
      ∃ (j : TaskId) (t' : Task), s.tasks[j]? = some t' ∧ t'.Walks env s.world key u
  | _ => True

/-- The conditions together. -/
def Careful (env : Env) (s : System) (l : Label) : Prop := s.RedisAnswers l ∧ s.Recorded env l

section Account

variable {env : Env} {s s' : System} {l : Label} {key : String} {u : UserId}

/-- **An operation leaves an entry covered**, unless it takes the entry away. -/
theorem Covered.run {i : TaskId} {x : Choice} {t t' : Task} {op : Op} {r : Except Exn op.Resp}
    (h : s.Covered env key u) (howning : s.Owning env)
    (hhands : t.Programs fun o {_} p => p.Nodes (Op.Hands env o)) (hi : s.tasks[i]? = some t)
    (ht : t.step env i x s.world = some (t', s'.world)) (htasks : s'.tasks = s.tasks.set i t')
    (hhead : t.head? = some op)
    (hexec : op.exec env t.activity.server i x s.world = some (r, s'.world))
    (hother : op ≠ .redis (.zrem key u)) (hok : op.CallsRedis → x.ok = true) :
    s'.Covered env key u := by
  obtain ⟨j, t₀, hj, hcover⟩ := h
  have hself : s'.tasks[i]? = some t' := by
    rw [htasks]
    exact List.getElem?_set_self (List.getElem?_eq_some_iff.mp hi).1
  have hleaves : ∀ {room}, op = .manager (.leaveRoom u (.str room)) →
      PresenceService.key env (.str room) = key → s'.Covered env key u := by
    rintro room rfl rfl
    exact ⟨i, t', hself, .inr (Task.erases_leaveRoom ht hhands hhead)⟩
  by_cases hji : j = i
  · subst hji
    rw [hi] at hj
    cases hj
    rcases hcover with hwalks | herases
    · rcases Task.walks_step howning hi hwalks ht with hwalks' | herases | ⟨room, hleave, hkey⟩
      · exact ⟨j, t', hself, .inl hwalks'⟩
      · exact ⟨j, t', hself, .inr herases⟩
      · rw [hhead] at hleave
        cases hleave
        exact hleaves rfl hkey
    · refine ⟨j, t', hself, .inr (Task.erases_step ht herases hhead hother fun r' hx => ?_)⟩
      rw [hexec] at hx
      cases hx
      cases op with
      | redis o => exact Op.redis_answered (hok trivial) hexec
      | _ => trivial
  · have hkept : s'.tasks[j]? = some t₀ := by
      rw [htasks, List.getElem?_set_ne (Ne.symm hji)]
      exact hj
    rcases hcover with hwalks | herases
    · rcases Task.walks_other howning hj hwalks hexec with hwalks' | ⟨room, hleave, hkey⟩
      · exact ⟨j, t₀, hkept, .inl hwalks'⟩
      · exact hleaves hleave hkey
    · exact ⟨j, t₀, hkept, .inr herases⟩

/-- The other steps leave it covered. -/
theorem Covered.other (h : s.Covered env key u) (hl : ∀ i x, l ≠ .run i x)
    (hs : s.step env l = some s') : s'.Covered env key u := by
  obtain ⟨j, t, hj, hcover⟩ := h
  have hsame := fun srv => sameSessions_env hl hs srv
  have hcover' : t.Walks env s'.world key u ∨ t.Erases key u :=
    hcover.imp_left fun hwalks => hwalks.same hsame
  have hspawn : ∀ {t₁}, s'.tasks = s.tasks ++ [t₁] → s'.Covered env key u := by
    intro t₁ htasks
    refine ⟨j, t, ?_, hcover'⟩
    rw [htasks, List.getElem?_append_left (List.getElem?_eq_some_iff.mp hj).1]
    exact hj
  have hmoves := System.moves hs
  cases hmoves with
  | run _ _ _ => exact absurd rfl (hl _ _)
  | connect _ htasks => exact hspawn htasks
  | request _ htasks => exact hspawn htasks
  | force htasks => exact hspawn htasks
  | background _ htasks =>
    refine ⟨j, t, ?_, hcover'⟩
    rw [htasks]
    exact hj
  | @receive i frame ses ses' conn hi hphase hses htasks =>
    by_cases hji : j = i
    · subst hji
      rw [hi] at hj
      cases hj
      refine ⟨j, .session ses', ?_, ?_⟩
      · rw [htasks]
        exact List.getElem?_set_self (List.getElem?_eq_some_iff.mp hi).1
      · rcases hcover' with hwalks | ⟨-, hdoes⟩
        · exact .inl (Session.walks_receive hphase hses hwalks)
        · rw [hphase] at hdoes
          exact absurd hdoes id
    · refine ⟨j, t, ?_, hcover'⟩
      rw [htasks, List.getElem?_set_ne (Ne.symm hji)]
      exact hj

theorem accounted_step (h : s.Accounted env) (howning : s.Owning env)
    (hhands : ∀ (i : TaskId) (t : Task), s.tasks[i]? = some t →
      t.Programs fun o {_} p => p.Nodes (Op.Hands env o))
    (hC : s.Careful env l) (hs : s.step env l = some s') : s'.Accounted env := by
  intro key u hscore
  by_cases hl : ∃ i x, l = .run i x
  · obtain ⟨i, x, rfl⟩ := hl
    obtain ⟨hanswers, hrecorded⟩ := hC
    have hmoves := System.moves hs
    cases hmoves with
    | background hl _ => exact absurd hl id
    | @run _ _ t t' hi ht htasks =>
      obtain ⟨op, r, hhead, hexec⟩ := Task.step_exec ht
      have hok : op.CallsRedis → x.ok = true := hanswers t op hi hhead
      rw [Op.exec_score hexec] at hscore
      have hother : op ≠ .redis (.zrem key u) := by
        rintro rfl
        simp [Op.rescore, RedisOp.rescore, hok trivial] at hscore
      -- the entry was there before, or is being written
      have hbefore : s.Covered env key u := by
        rcases op.rescore_cases key u (x.ok || x.executed) with hsame | ⟨now, rfl, -⟩ | rfl |
          ⟨max, rfl, hx⟩
        · rw [hsame] at hscore
          exact h key u hscore
        · obtain ⟨j, t₀, hj, hwalks⟩ := hrecorded t key u now hi hhead
          exact ⟨j, t₀, hj, .inl hwalks⟩
        · exact absurd rfl hother
        · refine h key u fun hnone => hscore ?_
          simp [Op.rescore, RedisOp.rescore, hnone]
      exact hbefore.run howning (hhands i t hi) hi ht htasks hhead hexec hother hok
  · have hl' : ∀ i x, l ≠ .run i x := fun i x he => hl ⟨i, x, he⟩
    rw [(System.stores_env hl' hs).2] at hscore
    exact (h key u hscore).other hl' hs

theorem hands_reach {C : System → Label → Prop} {t : Tables}
    (hr : Reach (System.step env) C (.init t) s) (i : TaskId) (task : Task)
    (hi : s.tasks[i]? = some task) : task.Programs fun o {_} p => p.Nodes (Op.Hands env o) := by
  induction hr generalizing i task with
  | init => cases hi
  | tail _ _ hs ih =>
    exact (System.moves hs).programs started_hands ih (fun _ _ _ _ _ _ _ _ => Coro.Nodes.step) hi

/-- **In the runs in which Redis answers and each `set_online` finds the room recorded, every entry
has a session that is going to take it away.** -/
theorem accounted_reach {t : Tables} (hr : Reach (System.step env) (Careful env) (.init t) s) :
    s.Accounted env := by
  induction hr with
  | init => exact fun key u hscore => absurd rfl hscore
  | tail hr hC hs ih =>
    exact accounted_step ih (System.owning_reach hr) (hands_reach hr) hC hs

/-- **No ghosts**: when all sessions of a user have ended, the user is in no presence set. -/
theorem no_ghost {t : Tables} (hr : Reach (System.step env) (Careful env) (.init t) s)
    (hended : ∀ (i : TaskId) (ses : Session), s.tasks[i]? = some (.session ses) →
      ses.userId = u → ses.phase = .ended) (room : RoomId) :
    s.world.redis.score (PresenceService.key env (.str room)) u = none := by
  by_contra hscore
  obtain ⟨i, task, hi, hcover⟩ := accounted_reach hr _ u hscore
  cases task with
  | request _ _ => exact hcover.elim id id
  | forced _ _ _ => exact hcover.elim id id
  | session ses =>
    rcases hcover with ⟨huser, conn, room, hwalks, -⟩ | ⟨huser, hdoes⟩
    · rw [hended i ses hi huser] at hwalks
      exact hwalks
    · rw [hended i ses hi huser] at hdoes
      exact hdoes

end Account

/-! ### A join in the middle of a reconnect -/

namespace Sample

open Clocked.Sample

/-- User 1 joins room 3, and disconnects. -/
def visits : List Label :=
  enters 0 0 ++ handles 0 (about "join_room" []) 15 ++
    [.receive 0 .disconnect, .run 0 { smooth 0 with order := [room] }] ++ goes 0 3

/-- The user opens a second socket, which replaces the first, and joins the room there; before the
room is recorded, the first session ends, and unregisters the second one's connection. -/
def interrupted : List Label :=
  enters 0 0 ++ (.connect 0 user "u1" :: goes 1 7) ++ handles 1 (about "join_room" []) 5 ++
    (.receive 0 .disconnect :: goes 0 4) ++ goes 1 12

/-- A session of the user that has not come to its `finally` has a room of the key. -/
def walks (w : World) (key : String) (u : UserId) : Task → Bool
  | .session ses => ses.userId = u && match ses.phase with
    | .receiving c | .handling c _ _ =>
      ((w.servers ses.server).manager.heap c).rooms.elems.any fun r =>
        PresenceService.key .sample (.str r) = key
    | _ => false
  | _ => false

def careful (s : System) : Label → Bool
  | .run i x => x.ok && match (s.tasks[i]?).bind Task.head? with
    | some (.redis (.zadd key u _)) => s.tasks.any (walks s.world key u)
    | _ => true
  | _ => true

/-- Every session has ended. -/
def allEnded (s : System) : Bool := s.tasks.all fun
  | .session ses => ses.phase.stage = 2
  | _ => true

theorem walks_iff {w : World} {key : String} {u : UserId} {t : Task} (h : walks w key u t = true) :
    t.Walks .sample w key u := by
  cases t with
  | request _ _ => cases h
  | forced _ _ _ => cases h
  | session ses =>
    obtain ⟨huser, hphase⟩ := (Bool.and_eq_true _ _).mp h
    have hany : ∀ {c : ConnId}, ((w.servers ses.server).manager.heap c).rooms.elems.any
        (fun r => PresenceService.key .sample (.str r) = key) = true →
        ∃ r, PresenceService.key .sample (.str r) = key ∧
          r ∈ ((w.servers ses.server).manager.heap c).rooms := by
      intro c hc
      obtain ⟨r, hr, hkey⟩ := List.any_eq_true.mp hc
      exact ⟨r, of_decide_eq_true hkey, hr⟩
    refine ⟨of_decide_eq_true huser, ?_⟩
    cases hses : ses.phase with
    | receiving c =>
      rw [hses] at hphase
      obtain ⟨r, hkey, hr⟩ := hany hphase
      exact ⟨c, r, rfl, hkey, hr⟩
    | handling c frame p =>
      rw [hses] at hphase
      obtain ⟨r, hkey, hr⟩ := hany hphase
      exact ⟨c, r, rfl, hkey, hr⟩
    | _ =>
      rw [hses] at hphase
      cases hphase

theorem redisAnswers_of_ok {s : System} {i : TaskId} {x : Choice} (h : x.ok = true) :
    s.RedisAnswers (.run i x) := fun _ _ _ _ _ => h

theorem careful_iff (s : System) (l : Label) (h : careful s l = true) : s.Careful .sample l := by
  cases l with
  | run i x =>
    obtain ⟨hok, hzadd⟩ := (Bool.and_eq_true _ _).mp h
    refine ⟨redisAnswers_of_ok hok, fun t key u now hi hhead => ?_⟩
    simp only [hi, Option.bind_some, hhead] at hzadd
    obtain ⟨t', ht', hwalks⟩ := List.any_eq_true.mp hzadd
    obtain ⟨j, hj⟩ := List.mem_iff_getElem?.mp ht'
    exact ⟨j, t', hj, walks_iff hwalks⟩
  | _ => exact ⟨trivial, trivial⟩

theorem ended_of_allEnded {s : System} (h : allEnded s = true) {i : TaskId} {ses : Session}
    (hi : s.tasks[i]? = some (.session ses)) : ses.phase = .ended := by
  have hstage := List.all_eq_true.mp h _ (List.mem_of_getElem? hi)
  have hstage : ses.phase.stage = 2 := of_decide_eq_true hstage
  cases hphase : ses.phase with
  | ended => rfl
  | _ =>
    rw [hphase] at hstage
    cases hstage

end Sample

set_option maxRecDepth 20000 in
open System.Sample Clocked.Sample in
/-- After a visit, the user is in the presence set of no room. -/
theorem no_ghost_visits : ∃ s, Reach (System.step .sample) (Careful .sample) (.init .sample) s ∧
    s.tasks.length = 1 ∧ ∀ room,
      s.world.redis.score (PresenceService.key .sample (.str room)) user = none := by
  have hrun : ((replayIf (System.step .sample) careful visits (.init .sample)).any fun s =>
      allEnded s && s.tasks.length = 1) = true := by
    decide +kernel
  obtain ⟨s, hs, htest⟩ := (Option.any_eq_true _ _).mp hrun
  obtain ⟨hended, hlength⟩ := (Bool.and_eq_true _ _).mp htest
  have hr := Reach.of_replayIf careful_iff .init hs
  exact ⟨s, hr, of_decide_eq_true hlength, no_ghost hr fun _ _ hi _ => ended_of_allEnded hended hi⟩

set_option maxRecDepth 20000 in
open System.Sample Clocked.Sample in
/-- **A join whose connection is unregistered leaves a ghost**, with every call of Redis
answered. -/
theorem not_no_ghost : ¬∀ (env : Env) (t : Tables) (s : System) (u : UserId),
    Reach (System.step env) RedisAnswers (.init t) s →
    (∀ (i : TaskId) (ses : Session), s.tasks[i]? = some (.session ses) → ses.userId = u →
      ses.phase = .ended) →
    ∀ room, s.world.redis.score (PresenceService.key env (.str room)) u = none := by
  intro hall
  have hrun : ((replayIf (System.step .sample) (fun _ l => match l with
      | .run _ x => x.ok
      | _ => true) interrupted (.init .sample)).any fun s =>
        allEnded s && s.world.redis.score key user = some Env.newYear) = true := by
    decide +kernel
  obtain ⟨s, hs, htest⟩ := (Option.any_eq_true _ _).mp hrun
  obtain ⟨hended, hscore⟩ := (Bool.and_eq_true _ _).mp htest
  have hr : Reach (System.step .sample) RedisAnswers (.init .sample) s := by
    refine Reach.of_replayIf (fun s l hl => ?_) .init hs
    cases l with
    | run i x => exact redisAnswers_of_ok hl
    | _ => trivial
  have hnone := hall _ _ s user hr (fun _ _ hi _ => ended_of_allEnded hended hi) room
  rw [show PresenceService.key .sample (.str room) = key from rfl, of_decide_eq_true hscore] at hnone
  cases hnone

end System

end NexusChat
