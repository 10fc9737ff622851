import NexusChat.App.System

/-!
# What the handlers do

For each program of the application, the operations it can perform, whatever it is answered. A
lemma says: if a property holds of the operations listed, it holds of every operation of the
program. Most operations are *quiet*: they touch no room, no table and no channel, and are taken
together.
-/

set_option autoImplicit false

namespace NexusChat

/-- Operations that touch no room, no table and no channel: a payload for a user alone, the
presence sets, the clock. -/
def Op.Quiet : Op → Prop
  | .manager (.sendToUser _ p) => p.source = none
  | .manager (.rooms _) => True
  | .redis _ | .sleep | .time => True
  | _ => False

/-- The Redis commands that change a presence set. -/
def RedisOp.Presence : RedisOp → Prop
  | .zadd _ _ _ | .zrem _ _ | .zremrangebyscore _ _ => True
  | _ => False

/-- The quiet operations that change no presence set either. -/
def Op.Plain : Op → Prop
  | .redis op => ¬op.Presence
  | op => op.Quiet

theorem Op.Plain.quiet {op : Op} (h : op.Plain) : op.Quiet := by
  cases op <;> first | exact h | exact trivial

variable {φ : Op → Prop}

theorem all_managerOp {op : ManagerOp Delivery} (h : φ (.manager op)) : (managerOp op).All φ :=
  Coro.all_perform (S := Op.sig) h

theorem all_brokerOp {op : BrokerOp} (h : φ (.broker op)) : (brokerOp op).All φ :=
  Coro.all_perform (S := Op.sig) h

theorem all_dbOp {op : DbOp} (h : φ (.db op)) : (dbOp op).All φ :=
  Coro.all_perform (S := Op.sig) h

/-! ## The connection manager's methods -/

theorem all_notifyAndClose' {c : ConnId} {reason : String} (hs : φ (.manager (.clientState c)))
    (ht : ∀ m, φ (.manager (.sendText c m))) (hc : φ (.manager (.close c))) :
    (ConnectionManager.notifyAndClose managerOp c reason).All φ := by
  refine Coro.all_tryCatch (Coro.all_bind (all_managerOp hs) fun state => ?_) fun _ => trivial
  split
  · exact Coro.all_bind (all_managerOp (ht _)) fun _ => all_managerOp hc
  · trivial

theorem all_connect {user_id : UserId} {username : String} (ha : φ (.manager .accept))
    (hl : φ (.manager (.connectLocked user_id username)))
    (hs : ∀ c, φ (.manager (.clientState c))) (ht : ∀ c m, φ (.manager (.sendText c m)))
    (hc : ∀ c, φ (.manager (.close c)))
    (hr : ∀ c, φ (.manager (.replace c user_id username))) :
    (ConnectionManager.connect managerOp user_id username).All φ := by
  refine Coro.all_bind (all_managerOp ha) fun _ => Coro.all_bind (all_managerOp hl) fun r => ?_
  rcases r with old | c
  · exact Coro.all_bind (all_notifyAndClose' (hs old) (ht old) (hc old)) fun _ =>
      all_managerOp (hr old)
  · trivial

theorem all_forceDisconnect {c : ConnId} {reason : String} (hs : φ (.manager (.clientState c)))
    (ht : ∀ m, φ (.manager (.sendText c m))) (hc : φ (.manager (.close c)))
    (hf : φ (.manager (.forceCleanup c))) :
    (ConnectionManager.forceDisconnect managerOp c reason).All φ :=
  Coro.all_bind (all_notifyAndClose' hs ht hc) fun _ => all_managerOp hf

theorem all_disconnect {user_id : UserId} (hd : φ (.manager (.disconnectLocked user_id)))
    (hc : ∀ c, φ (.manager (.close c))) (hu : φ (.manager .unlock)) :
    (ConnectionManager.disconnect managerOp user_id).All φ := by
  refine Coro.all_bind (all_managerOp hd) fun r => ?_
  cases r with
  | none => trivial
  | some c =>
    refine Coro.all_bind (Coro.all_tryCatch (all_managerOp (hc c)) fun _ => trivial) fun _ => ?_
    exact all_managerOp hu

/-! ## The database's sessions and the requests -/

theorem all_withSession {α : Type} {body : Prog α} (hb : body.All φ)
    (hr : φ (.db .rollback)) : (withSession dbOp body).All φ := by
  refine Coro.all_bind (Coro.all_tryCatch hb fun e => ?_) fun a => ?_
  · exact Coro.all_bind (all_dbOp hr) fun _ => trivial
  · exact Coro.all_bind (all_dbOp hr) fun _ => trivial

/-- The statements that are not about messages. -/
def DbOp.OfRooms : DbOp → Prop
  | .insertMessage _ _ _ _ _ | .selectMessageByKey _ | .selectMessages _ _ _ => False
  | _ => True

/-- A request performs such statements only. -/
theorem all_request_ops {r : Request} (h : ∀ op : DbOp, op.OfRooms → φ (.db op)) :
    r.prog.All φ := by
  have hdb : ∀ op : DbOp, op.OfRooms → (dbOp op).All φ := fun op hop => all_dbOp (h op hop)
  cases r with
  | createRoom data user =>
    refine all_withSession (Coro.all_bind (Coro.all_bind ?_ fun _ => trivial) fun _ => ?_)
      (h _ trivial)
    · exact Coro.all_bind (hdb _ trivial) fun room => Coro.all_bind (hdb _ trivial) fun _ =>
        Coro.all_bind (hdb _ trivial) fun _ => trivial
    · exact Coro.all_bind (hdb _ trivial) fun _ => trivial
  | joinRoom room_id user =>
    refine all_withSession (Coro.all_bind (Coro.all_bind ?_ fun _ => trivial) fun _ => ?_)
      (h _ trivial)
    · refine Coro.all_bind (Coro.all_bind (hdb _ trivial) fun room => ?_) fun _ =>
        Coro.all_bind (hdb _ trivial) fun member => ?_
      · cases room <;> trivial
      · cases member with
        | none => exact hdb _ trivial
        | some m => trivial
    · exact Coro.all_bind (hdb _ trivial) fun _ => trivial
  | leaveRoom room_id user =>
    refine all_withSession (Coro.all_bind (Coro.all_bind (hdb _ trivial) fun member => ?_)
      fun _ => ?_) (h _ trivial)
    · cases member with
      | none => trivial
      | some m => exact hdb _ trivial
    · exact Coro.all_bind (hdb _ trivial) fun _ => trivial

/-- A request performs operations on the database only. -/
theorem all_request {r : Request} (h : ∀ op, φ (.db op)) : r.prog.All φ :=
  all_request_ops fun op _ => h op

/-! ## `_handle_message`, piece by piece -/

namespace Chat

/-- `UUID()` takes strings only. -/
theorem parseUuid_eq_ok {env : Env} {x : Json} {u : Uuid} (h : env.parseUuid x = .ok u) :
    ∃ s, x = .str s ∧ env.uuid s = some u := by
  cases x with
  | str s =>
    simp only [Env.parseUuid] at h
    split at h
    · rename_i u' hu
      cases h
      exact ⟨s, rfl, hu⟩
    · cases h
  | null | bool b | num s | arr l | obj l => cases h

/-- What `_handle_message` reads of the event. -/
structure MessageData where
  roomId : Json
  content : String
  idempotencyKey : Json

def readMessage (env : Env) (event_data : Json) : Except Exn MessageData := do
  let room_id ← event_data.get "room_id" (.str "")
  let content ← (event_data.get "content" (.str "")).bind (strip env)
  let idempotency_key ← event_data.get "idempotency_key" .null
  pure { roomId := room_id, content, idempotencyKey := idempotency_key }

/-- The payload for a stored row. -/
def chatPayload (env : Env) (user_id : UserId) (username : String) (d : MessageData)
    (m : MessageRow) : WSOutboundMessage :=
  .chatMessage (env.uuidStr m.id) d.roomId user_id username d.content "text"
    (env.isoformat m.createdAt)

/-- The session of `_handle_message`, for a room and a sender that are UUIDs. -/
def storeIn (env : Env) (user_id : UserId) (username : String) (d : MessageData)
    (room sender : Uuid) : Prog WSOutboundMessage := do
  let message ← MessageService.saveMessage dbOp room sender d.content .text d.idempotencyKey
  dbOp .commit
  pure (chatPayload env user_id username d message)

theorem storeMessage_eq {env : Env} {user_id : UserId} {username : String} {d : MessageData} :
    storeMessage env user_id username d.roomId d.content d.idempotencyKey =
      withSession dbOp (Coro.ofExcept (env.parseUuid d.roomId) >>= fun room =>
        Coro.ofExcept (env.parseUuid (.str user_id)) >>= fun sender =>
          storeIn env user_id username d room sender) := rfl

/-- `_handle_message` after it has read the event. -/
def handleRead (env : Env) (user_id : UserId) (username : String) (d : MessageData) :
    Prog Unit :=
  if !d.roomId.truthy || d.content = "" then
    sendToUser user_id (.errorMessage "room_id and content are required")
  else if 5000 < d.content.length then
    sendToUser user_id (.errorMessage "Message too long (max 5000 chars)")
  else do
    let chat_msg ← storeMessage env user_id username d.roomId d.content d.idempotencyKey
    RedisBroker.publish (roomChannel env d.roomId) (envelope "chat" chat_msg)

theorem handleMessage_eq {env : Env} {user_id : UserId} {username : String} {event_data : Json} :
    handleMessage env user_id username event_data =
      Coro.ofExcept (readMessage env event_data) >>= handleRead env user_id username := by
  unfold handleMessage readMessage
  cases event_data.get "room_id" (.str "") with
  | error e => rfl
  | ok room_id =>
    cases (event_data.get "content" (.str "")).bind (strip env) with
    | error e => rfl
    | ok content =>
      cases event_data.get "idempotency_key" .null with
      | error e => rfl
      | ok key => rfl

/-- The rate limit of a frame, as `handleFrame` asks for it. -/
def rateLimited (user_id : UserId) : Prog Bool :=
  tryCatchThe Exn (redisOp (.checkWsRateLimit user_id) >>= fun _ => pure false) fun _ => pure true

/-- `handleFrame` after it has read the frame. -/
def handleEvent (env : Env) (user_id : UserId) (username : String) (event event_data : Json) :
    Prog Unit := do
  let limited ← rateLimited user_id
  if limited then
    sendToUser user_id
      (.errorMessage "Rate limit exceeded. Please slow down." "rate_limited")
  else dispatch env user_id username event event_data

theorem handleFrame_eq {env : Env} {user_id : UserId} {username : String} {data : Json} :
    handleFrame env user_id username data =
      Coro.ofExcept (data.get "event" (.str "")) >>= fun event =>
        Coro.ofExcept (data.get "data" (.obj [])) >>= fun event_data =>
          handleEvent env user_id username event event_data := rfl

/-- The frame is the event `name` with the data `event_data`. -/
def FrameIs (data : Json) (name : String) (event_data : Json) : Prop :=
  ∃ event, data.get "event" (.str "") = .ok event ∧ isEvent event name = true ∧
    data.get "data" (.obj []) = .ok event_data

/-- The branches of a dispatch, each with the event that leads to it. -/
theorem dispatch_cases {P : Prog Unit → Prop} {env : Env} {user_id : UserId} {username : String}
    {event event_data : Json}
    (hjoin : isEvent event "join_room" = true →
      P (handleJoinRoom env user_id username event_data))
    (hleave : isEvent event "leave_room" = true →
      P (handleLeaveRoom env user_id username event_data))
    (hmessage : isEvent event "message" = true →
      P (handleMessage env user_id username event_data))
    (hstart : isEvent event "typing_start" = true →
      P (handleTyping env user_id username event_data true))
    (hstop : isEvent event "typing_stop" = true →
      P (handleTyping env user_id username event_data false))
    (hsend : ∀ m, P (sendToUser user_id m)) :
    P (dispatch env user_id username event event_data) := by
  unfold dispatch
  split
  · rename_i he; exact hjoin he
  · split
    · rename_i he; exact hleave he
    · split
      · rename_i he; exact hmessage he
      · split
        · rename_i he; exact hstart he
        · split
          · rename_i he; exact hstop he
          · split
            · exact hsend _
            · exact hsend _

/-- The operations on the database while a message is stored. -/
structure Storing (φ : Op → Prop) (env : Env) (user_id : UserId) (d : MessageData) : Prop where
  select : φ (.db (.selectMessageByKey d.idempotencyKey))
  insert : ∀ room sender, env.parseUuid d.roomId = .ok room →
    env.parseUuid (.str user_id) = .ok sender →
    φ (.db (.insertMessage room sender d.content .text d.idempotencyKey))
  refresh : φ (.db .refresh)
  commit : φ (.db .commit)
  rollback : φ (.db .rollback)

theorem all_storeIn {env : Env} {user_id : UserId} {username : String} {d : MessageData}
    {room sender : Uuid} (h : Storing φ env user_id d) (hroom : env.parseUuid d.roomId = .ok room)
    (hsender : env.parseUuid (.str user_id) = .ok sender) :
    (storeIn env user_id username d room sender).All φ := by
  have hins : (MessageService.saveMessage.insert dbOp room sender d.content .text
      d.idempotencyKey : Prog MessageRow).All φ :=
    Coro.all_bind (all_dbOp (h.insert _ _ hroom hsender)) fun _ =>
      Coro.all_bind (all_dbOp h.refresh) fun _ => trivial
  refine Coro.all_bind ?_ fun _ => Coro.all_bind (all_dbOp h.commit) fun _ => trivial
  unfold MessageService.saveMessage
  split
  · refine Coro.all_bind (all_dbOp h.select) fun existing => ?_
    cases existing with
    | none => exact hins
    | some m => trivial
  · exact hins

theorem all_storeMessage {env : Env} {user_id : UserId} {username : String} {d : MessageData}
    (h : Storing φ env user_id d) :
    (storeMessage env user_id username d.roomId d.content d.idempotencyKey).All φ := by
  rw [storeMessage_eq]
  refine all_withSession ?_ h.rollback
  cases hroom : env.parseUuid d.roomId with
  | error e => trivial
  | ok room =>
    cases hsender : env.parseUuid (.str user_id) with
    | error e => trivial
    | ok sender => exact all_storeIn h hroom hsender

end Chat

/-! ## Publishing -/

/-- Three attempts, and the entry in the dead letter queue. -/
theorem all_publish_ops {channel : Channel} {message : Json} (hp : φ (.publish channel message))
    (ht : φ .time) (hs : φ .sleep) (hpush : ∀ entry, φ (.redis (.lpush entry)))
    (htrim : φ (.redis (.ltrim 9999))) : (RedisBroker.publish channel message).All φ := by
  have hletter : ∀ e, (RedisBroker.publishDeadLetter channel message e).All φ := fun e =>
    Coro.all_bind (Coro.all_perform (S := Op.sig) ht) fun _ => Coro.all_tryCatch
      (Coro.all_bind (Coro.all_perform (S := Op.sig) (hpush _)) fun _ =>
        Coro.all_perform (S := Op.sig) htrim) fun _ => trivial
  have hattempts : ∀ left, (RedisBroker.publishAttempts channel message left).All φ := by
    intro left
    induction left with
    | zero => trivial
    | succ left ih =>
      refine Coro.all_tryCatch (Coro.all_perform (S := Op.sig) hp) fun e => ?_
      split
      · exact hletter e
      · exact Coro.all_bind (Coro.all_perform (S := Op.sig) hs) fun _ => ih
  exact hattempts 3

/-! ## The programs that change no presence set -/

section Plain

variable {env : Env} {user_id : UserId} {username : String} {event_data : Json}
  (hp : ∀ op : Op, op.Plain → φ op)
include hp

theorem plain_redisOp {op : RedisOp} (h : ¬op.Presence) : (redisOp op).All φ :=
  Coro.all_perform (S := Op.sig) (hp (.redis op) h)

theorem plain_sendToUser {m : WSOutboundMessage} : (Chat.sendToUser user_id m).All φ :=
  all_managerOp (hp _ rfl)

theorem plain_publish {channel : Channel} {message : Json} (h : φ (.publish channel message)) :
    (RedisBroker.publish channel message).All φ :=
  all_publish_ops h (hp .time trivial) (hp .sleep trivial) (fun _ => hp (.redis _) id)
    (hp (.redis _) id)

/-- The rate limit of a frame, before it is dispatched. -/
theorem plain_rateLimited : (Chat.rateLimited user_id).All φ :=
  Coro.all_tryCatch (Coro.all_bind (plain_redisOp hp id) fun _ => trivial) fun _ => trivial

theorem plain_withUsernames {uids : List UserId} :
    (PresenceService.withUsernames uids).All φ := by
  induction uids with
  | nil => trivial
  | cons uid uids ih =>
    exact Coro.all_bind (plain_redisOp hp id) fun _ => Coro.all_bind ih fun _ => trivial

theorem plain_verifyMembership {room_id : Json}
    (hs : ∀ room user, φ (.db (.selectMember room user))) (hr : φ (.db .rollback)) :
    (Chat.verifyMembership env user_id room_id).All φ := by
  refine all_withSession (Coro.all_bind (Coro.all_ofExcept _) fun room =>
    Coro.all_bind (Coro.all_ofExcept _) fun user => Coro.all_bind
      (Coro.all_bind (all_dbOp (hs _ _)) fun _ => trivial) fun is_member => ?_) hr
  split
  · trivial
  · exact Coro.all_bind (plain_sendToUser hp) fun _ => trivial

theorem plain_handleTyping {is_typing : Bool}
    (hpub : ∀ room_id, event_data.get "room_id" (.str "") = .ok room_id →
      φ (.publish (Chat.roomChannel env room_id) (envelope "typing"
        (.typingIndicator room_id user_id username is_typing)))) :
    (Chat.handleTyping env user_id username event_data is_typing).All φ := by
  unfold Chat.handleTyping
  cases hroom : event_data.get "room_id" (.str "") with
  | error e => trivial
  | ok room_id =>
    change Coro.All (S := Op.sig) φ (if room_id.truthy = true then _ else _)
    split
    · split
      · exact Coro.all_bind (plain_redisOp hp id) fun _ => plain_publish hp (hpub _ hroom)
      · exact Coro.all_bind (plain_redisOp hp id) fun _ => plain_publish hp (hpub _ hroom)
    · trivial

theorem plain_handleMessage
    (hs : ∀ d, Chat.readMessage env event_data = .ok d → Chat.Storing φ env user_id d)
    (hpub : ∀ d m, Chat.readMessage env event_data = .ok d →
      φ (.publish (Chat.roomChannel env d.roomId) (envelope "chat" m))) :
    (Chat.handleMessage env user_id username event_data).All φ := by
  rw [Chat.handleMessage_eq]
  cases hd : Chat.readMessage env event_data with
  | error e => trivial
  | ok d =>
    change (Chat.handleRead env user_id username d).All φ
    unfold Chat.handleRead
    split
    · exact plain_sendToUser hp
    · split
      · exact plain_sendToUser hp
      · exact Coro.all_bind (Chat.all_storeMessage (hs d hd)) fun m =>
          plain_publish hp (hpub d m hd)

end Plain

/-! ## The handlers of a session -/

section Session

variable {env : Env} {user_id : UserId} {username : String} {event_data : Json}
  (hq : ∀ op : Op, op.Quiet → φ op)
include hq

theorem all_redisOp {op : RedisOp} : (redisOp op).All φ :=
  Coro.all_perform (S := Op.sig) (hq (.redis op) trivial)

theorem all_time : (await .time).All φ := Coro.all_perform (S := Op.sig) (hq .time trivial)

theorem all_sendToUser {m : WSOutboundMessage} : (Chat.sendToUser user_id m).All φ :=
  plain_sendToUser fun _ h => hq _ h.quiet

theorem all_publish {channel : Channel} {message : Json} (hp : φ (.publish channel message)) :
    (RedisBroker.publish channel message).All φ :=
  plain_publish (fun _ h => hq _ h.quiet) hp

theorem all_getOnlineUsers {room_id : Json} :
    (PresenceService.getOnlineUsers env room_id).All φ :=
  Coro.all_bind (all_time hq) fun _ => Coro.all_bind (all_redisOp hq) fun _ =>
    Coro.all_bind (all_redisOp hq) fun _ => plain_withUsernames fun _ h => hq _ h.quiet

theorem all_verifyMembership {room_id : Json}
    (hs : ∀ room user, φ (.db (.selectMember room user))) (hr : φ (.db .rollback)) :
    (Chat.verifyMembership env user_id room_id).All φ :=
  plain_verifyMembership (fun _ h => hq _ h.quiet) hs hr

theorem all_enterRoom {room_id : RoomId}
    (hset : φ (.broker (.setCallback (Chat.roomChannel env (.str room_id)) room_id)))
    (hsub : ∀ p, φ (.broker (.subscribe p (Chat.roomChannel env (.str room_id)))))
    (hjoin : φ (.manager (.joinRoom user_id room_id)))
    (hpub : φ (.publish (Chat.roomChannel env (.str room_id)) (envelope "presence"
      (.presenceUpdate (.str room_id) user_id username "online")))) :
    (Chat.enterRoom env user_id username room_id).All φ := by
  have hsubscribe : (RedisBroker.subscribe brokerOp (Chat.roomChannel env (.str room_id))
      room_id).All φ := by
    refine Coro.all_bind (all_brokerOp hset) fun p => ?_
    cases p with
    | none => trivial
    | some p => exact all_brokerOp (hsub p)
  have honline : (PresenceService.setOnline env (.str room_id) user_id username).All φ :=
    Coro.all_bind (all_time hq) fun _ => Coro.all_bind (all_redisOp hq) fun _ => all_redisOp hq
  exact Coro.all_bind hsubscribe fun _ => Coro.all_bind (all_managerOp hjoin) fun _ =>
    Coro.all_bind honline fun _ => Coro.all_bind (all_publish hq hpub) fun _ =>
      Coro.all_bind (all_getOnlineUsers hq) fun _ => all_sendToUser hq

theorem all_handleLeaveRoom
    (hleave : ∀ room_id, event_data.get "room_id" (.str "") = .ok room_id →
      φ (.manager (.leaveRoom user_id room_id)))
    (hpub : ∀ room_id, event_data.get "room_id" (.str "") = .ok room_id →
      φ (.publish (Chat.roomChannel env room_id) (envelope "presence"
        (.presenceUpdate room_id user_id username "offline")))) :
    (Chat.handleLeaveRoom env user_id username event_data).All φ := by
  unfold Chat.handleLeaveRoom
  cases hroom : event_data.get "room_id" (.str "") with
  | error e => trivial
  | ok room_id =>
    change Coro.All (S := Op.sig) φ (if room_id.truthy = true then _ else _)
    split
    · exact Coro.all_bind (all_managerOp (hleave _ hroom)) fun _ =>
        Coro.all_bind (all_redisOp hq) fun _ => all_publish hq (hpub _ hroom)
    · trivial

theorem all_handleTyping {is_typing : Bool}
    (hpub : ∀ room_id, event_data.get "room_id" (.str "") = .ok room_id →
      φ (.publish (Chat.roomChannel env room_id) (envelope "typing"
        (.typingIndicator room_id user_id username is_typing)))) :
    (Chat.handleTyping env user_id username event_data is_typing).All φ :=
  plain_handleTyping (fun _ h => hq _ h.quiet) hpub

theorem all_handleMessage
    (hs : ∀ d, Chat.readMessage env event_data = .ok d → Chat.Storing φ env user_id d)
    (hpub : ∀ d m, Chat.readMessage env event_data = .ok d →
      φ (.publish (Chat.roomChannel env d.roomId) (envelope "chat" m))) :
    (Chat.handleMessage env user_id username event_data).All φ :=
  plain_handleMessage (fun _ h => hq _ h.quiet) hs hpub

theorem all_leaveAll {rooms : List RoomId}
    (hpub : ∀ room_id ∈ rooms, φ (.publish (Chat.roomChannel env (.str room_id))
      (envelope "presence" (.presenceUpdate (.str room_id) user_id username "offline")))) :
    (Chat.leaveAll env user_id username rooms).All φ := by
  induction rooms with
  | nil => trivial
  | cons room_id rooms ih =>
    obtain ⟨hroom, hrooms⟩ := List.forall_mem_cons.mp hpub
    refine Coro.all_bind (all_redisOp hq) fun _ => Coro.all_bind ?_ fun _ => ih hrooms
    exact Coro.all_tryCatch (all_publish hq hroom) fun _ => trivial

theorem all_cleanup {conn : ConnId}
    (hpub : ∀ room_id, φ (.publish (Chat.roomChannel env (.str room_id))
      (envelope "presence" (.presenceUpdate (.str room_id) user_id username "offline"))))
    (hd : φ (.manager (.disconnectLocked user_id))) (hc : ∀ c, φ (.manager (.close c)))
    (hu : φ (.manager .unlock)) : (Chat.cleanup env user_id username conn).All φ :=
  Coro.all_bind (all_managerOp (hq _ trivial)) fun _ =>
    Coro.all_bind (all_leaveAll hq fun room_id _ => hpub room_id) fun _ =>
      all_disconnect hd hc hu

/-! ## A frame -/

theorem all_handleJoinRoom (hs : ∀ room user, φ (.db (.selectMember room user)))
    (hr : φ (.db .rollback))
    (hset : ∀ room_id, φ (.broker (.setCallback (Chat.roomChannel env (.str room_id)) room_id)))
    (hsub : ∀ p channel, φ (.broker (.subscribe p channel)))
    (hjoin : ∀ room_id, φ (.manager (.joinRoom user_id room_id)))
    (hpub : ∀ room_id, φ (.publish (Chat.roomChannel env (.str room_id)) (envelope "presence"
      (.presenceUpdate (.str room_id) user_id username "online")))) :
    (Chat.handleJoinRoom env user_id username event_data).All φ := by
  refine Coro.all_bind (Coro.all_ofExcept _) fun room_id => ?_
  split
  · refine Coro.all_bind (all_verifyMembership hq hs hr) fun ok => ?_
    split
    · exact all_enterRoom hq (hset _) (fun p => hsub p _) (hjoin _) (hpub _)
    · trivial
  · exact all_sendToUser hq

/-- The quiet operations before a frame is dispatched. -/
theorem all_rateLimited : (Chat.rateLimited user_id).All φ :=
  plain_rateLimited fun _ h => hq _ h.quiet

end Session

end NexusChat
