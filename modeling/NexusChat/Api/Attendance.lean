import NexusChat.App.System
import NexusChat.Client.Payloads
import NexusChat.Services.PresenceEntries
import NexusChat.Lib.Protocol

/-!
# Joins and leaves of one room

Users connect to any instance and call `_handle_join_room` and `_handle_leave_room` for one room,
any number of times and in any interleaving; the listeners and the send tasks run in between.
`Attendance` is that system, cut out of the whole: each call is a program of its own.

`Stage` is where such a call is, and `Moves` the operations that lead from one place to the next.
Both handlers follow it (`follows_join`, `follows_leave`), so what one operation of a call can be is
read off `Moves`, and the handlers are not unfolded again.
-/

set_option autoImplicit false

namespace NexusChat

namespace Attendance

/-- A call of a handler, and of its history the status it has written to the presence set and has
not published, the presence set as it was when the call read it, and whether it has queued the list
made of that. -/
structure Call where
  server : ServerId
  userId : UserId
  prog : Prog Unit
  owes : Option Bool
  seen : Option (Dict String Time)
  listed : Bool

/-- A call before its first operation. -/
def Call.start (server : ServerId) (userId : UserId) (prog : Prog Unit) : Call :=
  { server, userId, prog, owes := none, seen := none, listed := false }

/-- The call has performed an operation in the world `w`. -/
def Call.record (w : World) (op : Op) (c : Call) : Call :=
  match op with
  | .redis (.zadd _ _ _) => { c with owes := some true }
  | .redis (.zrem _ _) => { c with owes := some false }
  | .publish _ _ => { c with owes := none }
  | .redis (.zrangebyscore key _) => { c with seen := some (w.redis.sortedSet key) }
  | .manager (.sendToUser _ d) => { c with listed := c.listed || d.message.event = "online_users" }
  | _ => c

inductive Label where
  /-- a user without a connection to the instance gets one -/
  | connect (server : ServerId) (user_id : UserId) (username : String)
  /-- a connected user joins the room, or leaves it -/
  | join (server : ServerId) (user_id : UserId) (username : String)
  | leave (server : ServerId) (user_id : UserId) (username : String)
  /-- call `i` performs its next operation -/
  | run (i : TaskId) (x : Choice)
  | listener (server : ServerId) (e : RedisBroker.ListenerEvent)
  | sendTake (server : ServerId) (conn : ConnId)
  | sendDone (server : ServerId) (conn : ConnId) (ok wrote : Bool)

end Attendance

structure Attendance where
  world : World
  calls : List Attendance.Call

namespace Attendance

/-- The `data` of the two frames. -/
def eventData (room_id : RoomId) : Json := .obj [("room_id", .str room_id)]

/-- `_handle_join_room` for the room -/
def joinProg (env : Env) (room_id : RoomId) (user_id : UserId) (username : String) : Prog Unit :=
  Chat.handleJoinRoom env user_id username (eventData room_id)

/-- `_handle_leave_room` for the room -/
def leaveProg (env : Env) (room_id : RoomId) (user_id : UserId) (username : String) : Prog Unit :=
  Chat.handleLeaveRoom env user_id username (eventData room_id)

/-- Every instance has started and nobody has connected. -/
def init (t : Tables) : Attendance := { world := .init t, calls := [] }

/-- The connection of a user on an instance. -/
def conn (s : Attendance) (srv : ServerId) (user_id : UserId) : Option ConnId :=
  (s.world.servers srv).manager.connections.get? user_id

/-- A connected user begins a call. -/
def begin (s : Attendance) (srv : ServerId) (user_id : UserId) (p : Prog Unit) :
    Option Attendance :=
  if (s.conn srv user_id).isSome then
    some { s with calls := s.calls ++ [.start srv user_id p] }
  else none

/-- The call `c`, which is call `i`, performs its next operation. -/
def perform (env : Env) (s : Attendance) (i : TaskId) (x : Choice) (c : Call) :
    Option Attendance :=
  match c.prog with
  | .await op k => (op.exec env c.server i x s.world).map fun (res, w) =>
      { world := w, calls := s.calls.set i { c.record s.world op with prog := k res } }
  | .ret _ | .raise _ => none

def step (env : Env) (room_id : RoomId) (s : Attendance) : Label → Option Attendance
  | .connect srv user_id username =>
    if (s.conn srv user_id).isSome then none
    else some { s with
      world := s.world.setManager srv ((s.world.servers srv).manager.register user_id username) }
  | .join srv user_id username => s.begin srv user_id (joinProg env room_id user_id username)
  | .leave srv user_id username => s.begin srv user_id (leaveProg env room_id user_id username)
  | .run i x => (s.calls[i]?).bind (s.perform env i x)
  | .listener srv e => (s.world.listen env srv e).map fun w => { s with world := w }
  | .sendTake srv conn => ((s.world.servers srv).manager.sendTake conn).map fun m =>
      { s with world := s.world.setManager srv m }
  | .sendDone srv conn ok wrote => ((s.world.servers srv).manager.sendDone conn ok wrote).map
      fun m => { s with world := s.world.setManager srv m }

/-- What a step of a call does. -/
theorem step_run {env : Env} {room_id : RoomId} {s s' : Attendance} {i : TaskId} {x : Choice}
    (h : step env room_id s (.run i x) = some s') :
    ∃ c op k res w, s.calls[i]? = some c ∧ c.prog = .await op k ∧
      op.exec env c.server i x s.world = some (res, w) ∧
      s' = { world := w, calls := s.calls.set i { c.record s.world op with prog := k res } } := by
  obtain ⟨c, hi, h⟩ := Option.bind_eq_some_iff.mp h
  unfold perform at h
  split at h
  · rename_i op k hprog
    obtain ⟨⟨res, w⟩, hx, rfl⟩ := Option.map_eq_some_iff.mp h
    exact ⟨c, op, k, res, w, hi, hprog, hx, rfl⟩
  all_goals cases h

/-! ## Where a call is -/

inductive Stage where
  /-- a join: the membership is verified, the channel subscribed to, the room entered -/
  | joining
  | called
  | subscribed
  | inside
  /-- a join that is over, with an error for the user -/
  | refused
  | leaving
  /-- the presence set says `online`, and the room has not been told -/
  | wrote (online : Bool)
  /-- a leave that is over -/
  | left
  | announced
  /-- the presence set has been read -/
  | read (ids : List UserId)
  /-- a join that is over, `online_users` queued -/
  | listed

/-- The status a call at this stage owes. -/
def Stage.owes : Stage → Option Bool
  | .wrote online => some online
  | _ => none

/-- The presence payload of a user. -/
def presence (room_id : RoomId) (user_id : UserId) (username : String) (online : Bool) :
    WSOutboundMessage :=
  .presenceUpdate (.str room_id) user_id username (if online then "online" else "offline")

/-- The payload `online_users` -/
def onlineUsers (room_id : RoomId) (users : List Json) : WSOutboundMessage :=
  { event := "online_users", data := [("room_id", .str room_id), ("users", .arr users)] }

/-- The users of a list as the client reads it. -/
def userIds (users : List Json) : List UserId :=
  (users.filterMap Client.OnlineUser.ofJson).map Client.OnlineUser.userId

variable (env : Env) (room_id : RoomId) (start : Time)

def channel : Channel := Chat.roomChannel env (.str room_id)

def key : String := PresenceService.key env (.str room_id)

/-- The operations of the calls of a user, by the stage they lead from and to. The scores written
are not below `start`, and nothing from `start` on is expired or overlooked. -/
inductive Moves (user_id : UserId) : Stage → (op : Op) → Except Exn op.Resp → Stage → Prop where
  | verify {op : DbOp} {r : Except Exn op.Resp} : Moves user_id .joining (.db op) r .joining
  | refuse {m : WSOutboundMessage} {r : Except Exn Unit} : m.event = "error" → Moves user_id
      .joining (.manager (.sendToUser user_id { message := m, source := none })) r .refused
  | close {op : DbOp} {r : Except Exn op.Resp} : Moves user_id .refused (.db op) r .refused
  | setCallback : Moves user_id .joining (.broker (.setCallback (channel env room_id) room_id))
      (.ok (some 0)) .called
  | subscribe : Moves user_id .called (.broker (.subscribe 0 (channel env room_id))) (.ok ())
      .subscribed
  | enter {r : Except Exn Unit} :
      Moves user_id .subscribed (.manager (.joinRoom user_id room_id)) r .inside
  | joinClock {r : Except Exn Time} : Moves user_id .inside .time r .inside
  | arrive {score : Time} {r : Except Exn Unit} : start ≤ score →
      Moves user_id .inside (.redis (.zadd (key env room_id) user_id score)) r (.wrote true)
  | setName {field value : String} {r : Except Exn Unit} :
      Moves user_id (.wrote true) (.redis (.hset field value)) r (.wrote true)
  | announce {username : String} {r : Except Exn Unit} : Moves user_id (.wrote true)
      (.publish (channel env room_id)
        (envelope "presence" (presence room_id user_id username true))) r .announced
  | listClock {r : Except Exn Time} : Moves user_id .announced .time r .announced
  | expire {max : Int} {r : Except Exn Unit} : max < start → Moves user_id .announced
      (.redis (.zremrangebyscore (key env room_id) max)) r .announced
  | read {min : Int} {ids : List UserId} : min ≤ start → Moves user_id .announced
      (.redis (.zrangebyscore (key env room_id) min)) (.ok ids) (.read ids)
  | getName {ids : List UserId} {field : String} {r : Except Exn (Option String)} :
      Moves user_id (.read ids) (.redis (.hget field)) r (.read ids)
  | list {users : List Json} {r : Except Exn Unit} : Moves user_id (.read (userIds users))
      (.manager (.sendToUser user_id { message := onlineUsers room_id users, source := none })) r
      .listed
  | exit {r : Except Exn Unit} : Moves user_id .leaving
      (.manager (.leaveRoom user_id (.str room_id))) r .leaving
  | depart {r : Except Exn Unit} :
      Moves user_id .leaving (.redis (.zrem (key env room_id) user_id)) r (.wrote false)
  | takeLeave {username : String} {r : Except Exn Unit} : Moves user_id (.wrote false)
      (.publish (channel env room_id)
        (envelope "presence" (presence room_id user_id username false))) r .left

/-- The answers when nothing fails, between `start` and the moment a presence would expire. -/
def Answered : (op : Op) → Except Exn op.Resp → Prop
  | .time, r => ∃ now : Time, r = .ok now ∧ start ≤ now ∧ now < start + env.presenceTimeout
  | .redis _, r => ∃ a, r = .ok a
  | .publish _ _, r => r = .ok ()
  | .broker (.setCallback _ _), r => r = .ok (some 0)
  | .broker (.subscribe _ _), r => r = .ok ()
  | .manager (.joinRoom _ _), r => r = .ok ()
  | .manager (.leaveRoom _ (.str _)), r => r = .ok ()
  | .manager (.sendToUser _ _), r => r = .ok ()
  | _, _ => True

variable {env room_id start}

section Handlers

variable {user_id : UserId} {username : String}

/-- A call of a handler keeps to the stages. -/
abbrev Keeps (env : Env) (room_id : RoomId) (start : Time) (user_id : UserId) {α : Type}
    (Q : Except Exn α → Stage → Prop) (p : Prog α) (st : Stage) : Prop :=
  p.Follows (Answered env start) (Moves env room_id start user_id) Q st

/-- How the membership check ends. -/
def Verified : Except Exn Bool → Stage → Prop
  | .ok is_member, st => st = if is_member then .joining else .refused
  | .error _, st => st = .joining ∨ st = .refused

/-- The membership check lets a join go on, or refuses it. -/
theorem follows_verifyMembership {room : Json} : Keeps env room_id start user_id
    Verified (Chat.verifyMembership env user_id room) .joining := by
  unfold Chat.verifyMembership withSession
  refine Coro.follows_bind (Coro.follows_tryCatch ?_)
  -- the body of the session ends as the whole does, and both stages let it be closed
  refine Coro.Follows.mono (Q := Verified) (fun r st hst => ?_) ?_
  · cases r with
    | ok is_member =>
      obtain rfl : st = if is_member then .joining else .refused := hst
      refine Coro.follows_perform fun r _ =>
        ⟨if is_member then .joining else .refused, ?_, ?_⟩
      · cases is_member with
        | false => exact .close
        | true => exact .verify
      · cases r with
        | ok _ => exact rfl
        | error _ =>
          cases is_member with
          | false => exact Or.inr rfl
          | true => exact Or.inl rfl
    | error e =>
      refine Coro.follows_perform fun r _ => ⟨st, ?_, ?_⟩
      · rcases hst with rfl | rfl
        · exact .verify
        · exact .close
      · cases r with
        | ok _ => exact hst
        | error _ => exact hst
  · cases env.parseUuid room with
    | error e => exact Or.inl rfl
    | ok room =>
      cases env.parseUuid (.str user_id) with
      | error e => exact Or.inl rfl
      | ok user =>
        refine Coro.follows_bind (p := RoomService.isMember dbOp room user)
          (Coro.follows_perform fun r _ => ⟨.joining, .verify, ?_⟩)
        cases r with
        | error e => exact Or.inl rfl
        | ok member =>
          cases member with
          | some m => exact rfl
          | none =>
            refine Coro.follows_perform fun r hr => ⟨.refused, .refuse rfl, ?_⟩
            obtain rfl := hr
            exact rfl

/-- A message published on the room's channel. -/
theorem follows_publish {channel : Channel} {message : Json} {st st' : Stage}
    {Q : Except Exn Unit → Stage → Prop}
    (hmove : Moves env room_id start user_id st (.publish channel message) (.ok ()) st')
    (hQ : Q (.ok ()) st') :
    Keeps env room_id start user_id Q (RedisBroker.publish channel message) st := by
  intro r hr
  obtain rfl := hr
  exact ⟨st', hmove, hQ⟩

theorem follows_subscribe {Q : Except Exn Unit → Stage → Prop} (hQ : Q (.ok ()) .subscribed) :
    Keeps env room_id start user_id Q
      (RedisBroker.subscribe brokerOp (channel env room_id) room_id) .joining := by
  refine Coro.follows_perform fun r hr => ⟨.called, ?_⟩
  obtain rfl := hr
  refine ⟨.setCallback, ?_⟩
  refine Coro.follows_last fun r hr => ⟨.subscribed, ?_⟩
  obtain rfl := hr
  exact ⟨.subscribe, hQ⟩

theorem follows_setOnline {Q : Except Exn Unit → Stage → Prop} (hQ : Q (.ok ()) (.wrote true)) :
    Keeps env room_id start user_id Q
      (PresenceService.setOnline env (.str room_id) user_id username) .inside := by
  refine Coro.follows_perform fun r hr => ⟨.inside, .joinClock, ?_⟩
  obtain ⟨now, rfl, hstart, -⟩ := hr
  refine Coro.follows_perform fun r hr => ⟨.wrote true, .arrive hstart, ?_⟩
  obtain ⟨_, rfl⟩ := hr
  refine Coro.follows_last fun r hr => ⟨.wrote true, .setName, ?_⟩
  obtain ⟨_, rfl⟩ := hr
  exact hQ

/-- The names are looked up one by one, and the users listed are those that were read. -/
theorem follows_withUsernames {ids uids : List UserId} : Keeps env room_id start user_id
    (fun r st => st = .read ids ∧ ∃ users, r = .ok users ∧ userIds users = uids)
    (PresenceService.withUsernames uids) (.read ids) := by
  induction uids with
  | nil => exact ⟨rfl, [], rfl, rfl⟩
  | cons uid uids ih =>
    refine Coro.follows_perform fun r hr => ⟨.read ids, .getName, ?_⟩
    obtain ⟨name, rfl⟩ := hr
    refine Coro.follows_bind (ih.mono fun r st hst => ?_)
    obtain ⟨rfl, users, rfl, rfl⟩ := hst
    exact ⟨rfl, _, rfl, rfl⟩

theorem follows_getOnlineUsers : Keeps env room_id start user_id
    (fun r st => ∃ users, r = .ok users ∧ st = .read (userIds users))
    (PresenceService.getOnlineUsers env (.str room_id)) .announced := by
  refine Coro.follows_perform fun r hr => ⟨.announced, .listClock, ?_⟩
  obtain ⟨now, rfl, hstart, hnow⟩ := hr
  have hcutoff : (now : Int) - env.presenceTimeout < start :=
    Int.not_le.mp (PresenceService.not_le_cutoff.mpr hnow)
  refine Coro.follows_perform fun r hr => ⟨.announced, .expire hcutoff, ?_⟩
  obtain ⟨_, rfl⟩ := hr
  refine Coro.follows_perform fun r hr => ?_
  obtain ⟨ids, rfl⟩ := hr
  refine ⟨.read ids, .read hcutoff.le, ?_⟩
  refine follows_withUsernames.mono fun r st hst => ?_
  obtain ⟨rfl, users, rfl, rfl⟩ := hst
  exact ⟨users, rfl, rfl⟩

/-- **A join keeps to the stages.** When it returns it has queued its list, or was refused. -/
theorem follows_join : Keeps env room_id start user_id
    (fun r st => st.owes = none ∧ (r = .ok () → st = .listed ∨ st = .refused))
    (joinProg env room_id user_id username) .joining := by
  unfold joinProg Chat.handleJoinRoom
  change Keeps _ _ _ _ _ (if (Json.str room_id).truthy then _ else _) _
  split
  · refine Coro.follows_bind (follows_verifyMembership.mono fun r st hst => ?_)
    cases r with
    | error e =>
      refine ⟨?_, fun h => by cases h⟩
      rcases hst with rfl | rfl
      · exact rfl
      · exact rfl
    | ok is_member =>
      obtain rfl : st = if is_member then .joining else .refused := hst
      cases is_member with
      | false => exact ⟨rfl, fun _ => Or.inr rfl⟩
      | true =>
        refine Coro.follows_bind (follows_subscribe ?_)
        refine Coro.follows_perform fun r hr => ⟨.inside, .enter, ?_⟩
        obtain rfl := hr
        refine Coro.follows_bind (follows_setOnline ?_)
        refine Coro.follows_bind (follows_publish .announce ?_)
        refine Coro.follows_bind (follows_getOnlineUsers.mono fun r st hst => ?_)
        obtain ⟨users, rfl, rfl⟩ := hst
        exact Coro.follows_last fun r hr => ⟨.listed, .list, rfl, fun _ => Or.inl rfl⟩
  · exact Coro.follows_last fun r hr => ⟨.refused, .refuse rfl, rfl, fun _ => Or.inr rfl⟩

/-- **A leave keeps to the stages.** -/
theorem follows_leave : Keeps env room_id start user_id (fun _ st => st.owes = none)
    (leaveProg env room_id user_id username) .leaving := by
  unfold leaveProg Chat.handleLeaveRoom
  change Keeps _ _ _ _ _ (if (Json.str room_id).truthy then _ else _) _
  split
  · refine Coro.follows_perform fun r hr => ⟨.leaving, .exit, ?_⟩
    obtain rfl := hr
    refine Coro.follows_perform fun r hr => ⟨.wrote false, .depart, ?_⟩
    obtain ⟨_, rfl⟩ := hr
    exact follows_publish .takeLeave rfl
  · exact rfl

end Handlers

/-- **Nothing fails**: an operation is answered as `Answered` says. -/
theorem answered {srv : ServerId} {me : TaskId} {op : Op} {x : Choice} {w w' : World}
    {r : Except Exn op.Resp} (h : op.exec env srv me x w = some (r, w')) (hok : x.ok = true)
    (hstart : start ≤ x.now) (hnow : x.now < start + env.presenceTimeout)
    (hpubsub : (w.servers srv).broker.pubsub = some 0) : Answered env start op r := by
  cases op with
  | time =>
    cases h
    exact ⟨x.now, rfl, hstart, hnow⟩
  | redis o =>
    cases h
    rw [if_pos hok]
    exact ⟨_, rfl⟩
  | publish channel message =>
    cases h
    rw [if_pos hok]
    exact rfl
  | sleep => trivial
  | db o => trivial
  | broker o =>
    cases o with
    | setCallback channel room_id =>
      cases h
      exact congrArg Except.ok hpubsub
    | subscribe p channel =>
      cases h
      exact if_pos hok
    | _ => trivial
  | manager o =>
    obtain ⟨⟨r', m⟩, ho, heq⟩ := Option.map_eq_some_iff.mp h
    obtain ⟨-, hr, -⟩ := ManagerOp.exec_eq_some ho
    cases heq
    subst hr
    cases o with
    | joinRoom u r => exact rfl
    | sendToUser u p => exact rfl
    | leaveRoom u r =>
      cases r with
      | str r =>
        change ((_ : ConnectionManager Delivery).leaveRoom u (.str r)).1 = _
        unfold ConnectionManager.leaveRoom
        split
        · rfl
        · rfl
      | _ => trivial
    | _ => trivial

end Attendance

end NexusChat
