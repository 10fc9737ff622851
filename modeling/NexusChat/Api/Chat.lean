import NexusChat.Services.PresenceService
import NexusChat.Services.MessageService
import NexusChat.Services.RoomService

/-!
# The WebSocket endpoint (`app/api/websocket/chat.py`)

The handlers of the inbound events and the cleanup of a session, as programs, and the callback
that hands a published message to the connections of a room. A frame is any JSON value: whatever
a handler does with a field of the wrong type is what Python does with it.
-/

set_option autoImplicit false

namespace NexusChat

/-! ## Publishing (`RedisBroker.publish`) -/

namespace RedisBroker

/-- `publish_dead_letter` -/
def publishDeadLetter (channel : Channel) (message : Json) (error : Exn) : Prog Unit := do
  let now ← await .time
  tryCatchThe Exn
    (do
      redisOp (.lpush { originalChannel := channel, message, error, timestamp := now })
      redisOp (.ltrim 9999))
    -- a dead letter that cannot be stored is logged and given up
    fun _ => pure ()

/-- The attempts `publish` has left. -/
def publishAttempts (channel : Channel) (message : Json) : Nat → Prog Unit
  | 0 => pure ()
  | left + 1 =>
    tryCatchThe Exn (await (.publish channel message)) fun e =>
      -- `attempt == max_retries - 1`: the last attempt is not slept after
      if left = 0 then publishDeadLetter channel message e
      else do
        await .sleep
        publishAttempts channel message left

/-- `publish` -/
def publish (channel : Channel) (message : Json) : Prog Unit := publishAttempts channel message 3

end RedisBroker

namespace Chat

variable (env : Env)

/-- `f"room:{room_id}"` -/
def roomChannel (room_id : Json) : Channel := "room:" ++ room_id.format env.repr

def sendToUser (user_id : UserId) (message : WSOutboundMessage) : Prog Unit :=
  managerOp (.sendToUser user_id { message, source := none })

/-! ## The handlers -/

/-- The membership check of `_handle_join_room`, in a session of its own. -/
def verifyMembership (user_id : UserId) (room_id : Json) : Prog Bool :=
  withSession dbOp do
    -- a room id that is no UUID raises inside the session
    let room ← Coro.ofExcept (env.parseUuid room_id)
    let user ← Coro.ofExcept (env.parseUuid (.str user_id))
    let is_member ← RoomService.isMember dbOp room user
    if is_member then pure true
    else do
      sendToUser user_id (.errorMessage "You are not a member of this room")
      pure false

/-- The rest of `_handle_join_room`, for a room id that `UUID()` has accepted. -/
def enterRoom (user_id : UserId) (username : String) (room_id : RoomId) : Prog Unit := do
  let channel := roomChannel env (.str room_id)
  RedisBroker.subscribe brokerOp channel room_id
  -- from here on the subscription has gone through
  managerOp (.joinRoom user_id room_id)
  PresenceService.setOnline env (.str room_id) user_id username
  RedisBroker.publish channel
    (envelope "presence" (.presenceUpdate (.str room_id) user_id username "online"))
  let online ← PresenceService.getOnlineUsers env (.str room_id)
  sendToUser user_id
    { event := "online_users", data := [("room_id", .str room_id), ("users", .arr online)] }

/-- `_handle_join_room` -/
def handleJoinRoom (user_id : UserId) (username : String) (event_data : Json) : Prog Unit := do
  let room_id ← Coro.ofExcept (event_data.get "room_id" (.str ""))
  if room_id.truthy then
    if ← verifyMembership env user_id room_id then
      -- the f-strings and the keys use the id as it came
      enterRoom env user_id username (room_id.format env.repr)
    else pure ()
  else sendToUser user_id (.errorMessage "room_id is required")

/-- `_handle_leave_room` -/
def handleLeaveRoom (user_id : UserId) (username : String) (event_data : Json) : Prog Unit := do
  let room_id ← Coro.ofExcept (event_data.get "room_id" (.str ""))
  if room_id.truthy then do
    managerOp (.leaveRoom user_id room_id)
    PresenceService.setOffline env room_id user_id
    RedisBroker.publish (roomChannel env room_id)
      (envelope "presence" (.presenceUpdate room_id user_id username "offline"))
  -- without a room id nothing is sent back
  else pure ()

/-- `value.strip()`: only a string has it. -/
def strip : Json → Except Exn String
  | .str s => .ok (env.strip s)
  | _ => .error .attributeError

/-- The session in which `_handle_message` stores the message and builds the payload. -/
def storeMessage (user_id : UserId) (username : String) (room_id : Json) (content : String)
    (idempotency_key : Json) : Prog WSOutboundMessage :=
  withSession dbOp do
    let room ← Coro.ofExcept (env.parseUuid room_id)
    let sender ← Coro.ofExcept (env.parseUuid (.str user_id))
    let message ← MessageService.saveMessage dbOp room sender content .text idempotency_key
    -- the commit comes before the payload is built, and before the PUBLISH
    dbOp .commit
    pure (.chatMessage (env.uuidStr message.id) room_id user_id username content "text"
      (env.isoformat message.createdAt))

/-- `_handle_message` -/
def handleMessage (user_id : UserId) (username : String) (event_data : Json) : Prog Unit := do
  let room_id ← Coro.ofExcept (event_data.get "room_id" (.str ""))
  let content ← Coro.ofExcept ((event_data.get "content" (.str "")).bind (strip env))
  let idempotency_key ← Coro.ofExcept (event_data.get "idempotency_key" .null)
  if !room_id.truthy || content = "" then
    sendToUser user_id (.errorMessage "room_id and content are required")
  else if 5000 < content.length then
    -- `len(content)` counts characters
    sendToUser user_id (.errorMessage "Message too long (max 5000 chars)")
  else do
    let chat_msg ← storeMessage env user_id username room_id content idempotency_key
    RedisBroker.publish (roomChannel env room_id) (envelope "chat" chat_msg)

/-- The branches `typing_start` and `typing_stop`. -/
def handleTyping (user_id : UserId) (username : String) (event_data : Json)
    (is_typing : Bool) : Prog Unit := do
  let room_id ← Coro.ofExcept (event_data.get "room_id" (.str ""))
  if room_id.truthy then do
    if is_typing then TypingService.setTyping env room_id user_id username
    else TypingService.clearTyping env room_id user_id
    RedisBroker.publish (roomChannel env room_id)
      (envelope "typing" (.typingIndicator room_id user_id username is_typing))
  else pure ()

/-- `event == name` -/
def isEvent (event : Json) (name : String) : Bool :=
  match event with
  | .str s => s = name
  | _ => false

/-- The branches of the main loop on `event`. -/
def dispatch (user_id : UserId) (username : String) (event event_data : Json) : Prog Unit :=
  if isEvent event "join_room" then handleJoinRoom env user_id username event_data
  else if isEvent event "leave_room" then handleLeaveRoom env user_id username event_data
  else if isEvent event "message" then handleMessage env user_id username event_data
  else if isEvent event "typing_start" then handleTyping env user_id username event_data true
  else if isEvent event "typing_stop" then handleTyping env user_id username event_data false
  else if isEvent event "ping" || isEvent event "pong" then sendToUser user_id .pong
  else sendToUser user_id (.errorMessage ("Unknown event: " ++ event.format env.repr))

/-- One iteration of the main loop, for a frame that is JSON. -/
def handleFrame (user_id : UserId) (username : String) (data : Json) : Prog Unit := do
  let event ← Coro.ofExcept (data.get "event" (.str ""))
  let event_data ← Coro.ofExcept (data.get "data" (.obj []))
  let limited ← tryCatchThe Exn
    (do
      redisOp (.checkWsRateLimit user_id)
      pure false)
    -- whatever the rate limiter raises counts as over the limit
    fun _ => pure true
  if limited then
    sendToUser user_id
      (.errorMessage "Rate limit exceeded. Please slow down." "rate_limited")
  else dispatch env user_id username event event_data

/-- The loop of the `finally` over `list(conn.rooms)`. -/
def leaveAll (user_id : UserId) (username : String) : List RoomId → Prog Unit
  | [] => pure ()
  | room_id :: rooms => do
    PresenceService.setOffline env (.str room_id) user_id
    -- `set_offline` is outside the `try`: if it raises, the loop ends here
    tryCatchThe Exn
      (RedisBroker.publish (roomChannel env (.str room_id))
        (envelope "presence" (.presenceUpdate (.str room_id) user_id username "offline")))
      fun _ => pure ()
    leaveAll user_id username rooms

/-- The `finally` of the endpoint. -/
def cleanup (user_id : UserId) (username : String) (conn : ConnId) : Prog Unit := do
  -- the rooms of the connection object, registered or not
  let rooms ← managerOp (.rooms conn)
  leaveAll env user_id username rooms
  ConnectionManager.disconnect managerOp user_id

/-! ## The callback of a room -/

/-- `payload.get("data", {}).get(key, "")` -/
def payloadData (payload : Json) (key : String) : Except Exn Json := do
  let data ← payload.get "data" (.obj [])
  data.get key (.str "")

/-- What `room_message_handler` broadcasts for a message, and whom it leaves out. -/
def roomMessageHandler (message : Json) :
    Except Exn (Option (WSOutboundMessage × Option UserId)) := do
  let msg_type ← message.get "type" (.str "")
  let payload ← message.get "payload" (.obj [])
  if isEvent msg_type "chat" then do
    -- `sender_id` is read and not used: the sender gets the message as well
    let _ ← payloadData payload "sender_id"
    let outbound ← WSOutboundMessage.ofPayload payload
    pure (some (outbound, none))
  else if isEvent msg_type "typing" then do
    let outbound ← WSOutboundMessage.ofPayload payload
    let typer_id ← payloadData payload "user_id"
    match typer_id with
    -- who types is left out; an id that is no string leaves nobody out
    | .str u => pure (some (outbound, some u))
    | _ => pure (some (outbound, none))
  else if isEvent msg_type "presence" || isEvent msg_type "system" then do
    let outbound ← WSOutboundMessage.ofPayload payload
    pure (some (outbound, none))
  else pure none

end Chat

end NexusChat
