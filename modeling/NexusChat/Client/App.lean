import NexusChat.Lib.Dict
import NexusChat.Schemas.Ws

/-!
# The browser client (`client/app.js`)

JavaScript runs from one `await` to the next without interruption, so the client is a state and
the functions between two awaits. An action that has reached an `await` is an `Awaiting`: it says
which request is out and what the action does when the request comes back. `api` throws for every
answer that is not a success, and each caller catches, so one answer is a `Reply` or nothing.

Of the page the model keeps what the functions read again: the list of rendered messages and
whether the *load more* button is shown.
-/

set_option autoImplicit false

namespace NexusChat

namespace Client

/-- A room as `GET /rooms` lists it. -/
structure Room where
  id : RoomId
  name : String
  memberCount : Nat
  deriving DecidableEq, Repr

/-- A message as the history and the `message` event show it. -/
structure Message where
  id : String
  roomId : RoomId
  senderId : Option UserId
  senderUsername : Option String
  content : String
  messageType : String
  createdAt : String
  deriving DecidableEq, Repr

/-- An entry of `onlineUsers[room_id]`. -/
structure OnlineUser where
  userId : UserId
  username : String
  deriving DecidableEq, Repr

/-- What `GET /rooms/{id}/messages` answers. -/
structure Page where
  messages : List Message
  hasMore : Bool
  nextCursor : Option String
  deriving DecidableEq, Repr

/-- The payloads of the socket, by their event. -/
inductive Event where
  | message (m : Message)
  | presence (room_id : RoomId) (user_id : UserId) (username status : String)
  | onlineUsers (room_id : RoomId) (users : List OnlineUser)
  | system (room_id : RoomId) (content : String)
  | ping
  deriving DecidableEq, Repr

/-- A frame for the server. -/
structure Frame where
  event : String
  roomId : Option RoomId
  deriving DecidableEq, Repr

/-- An element of `dom.messages`. The element of a system message does not name its room; `roomId`
is the room of the payload it was made of. -/
inductive Element where
  | message (m : Message) (isOwn isGrouped : Bool)
  | system (roomId : RoomId) (content : String)
  deriving DecidableEq, Repr

namespace Element

/-- The room a rendered message belongs to. -/
def roomId : Element → RoomId
  | .message m _ _ => m.roomId
  | .system roomId _ => roomId

/-- `dataset.messageId` -/
def messageId : Element → Option String
  | .message m _ _ => some m.id
  | .system _ _ => none

end Element

/-- Where an action waits. -/
inductive Awaiting where
  /-- `loadMessages(roomId, before)`, for the page -/
  | messages (roomId : RoomId) (before : Option String)
  /-- `createRoom`, for the new room -/
  | createRoom (name description : String) (isPrivate : Bool)
  /-- `joinRoom(roomId)` -/
  | joinRoom (roomId : RoomId)
  /-- `leaveCurrentRoom`, for the `DELETE` of the room -/
  | leaveRoom (roomId : RoomId)
  /-- `loadRooms`, and the room its caller switches to afterwards -/
  | rooms (next : Option RoomId)
  /-- `createRoom` and `joinRoom` after their `await loadRooms()` -/
  | switchRoom (roomId : RoomId)
  deriving DecidableEq, Repr

/-- A success, by the request it answers. -/
inductive Reply where
  | page (data : Page)
  | room (id : RoomId)
  | rooms (rooms : List Room)
  | done
  deriving DecidableEq, Repr

end Client

open Client in
/-- `state`, the rendered messages, and the actions that wait. `sent` are the frames handed to the
socket that have not arrived, oldest first. -/
structure Client where
  user : Option UserId
  wsOpen : Bool
  sent : List Frame
  currentRoom : Option Room
  rooms : List Room
  onlineUsers : Dict RoomId (List OnlineUser)
  messageCursors : Dict RoomId (Option String)
  messageCache : Dict RoomId (List Message)
  lastSenders : Dict RoomId (Option UserId)
  messages : List Element
  hasMore : Bool
  pending : List Awaiting

namespace Client

/-- After the login, on a socket that is open. -/
def init (user : UserId) : Client where
  user := some user
  wsOpen := true
  sent := []
  currentRoom := none
  rooms := []
  onlineUsers := ∅
  messageCursors := ∅
  messageCache := ∅
  lastSenders := ∅
  messages := []
  hasMore := false
  pending := []

/-- `state.currentRoom && state.currentRoom.id === roomId` -/
def inRoom (c : Client) (roomId : RoomId) : Bool := c.currentRoom.any fun room => room.id = roomId

/-- `wsSend(event, data)`: nothing is sent on a socket that is not open. -/
def wsSend (event : String) (roomId : Option RoomId) (c : Client) : Client :=
  if c.wsOpen then { c with sent := c.sent ++ [{ event, roomId }] } else c

/-- The action stops at an `await`. -/
def await (a : Awaiting) (c : Client) : Client := { c with pending := c.pending ++ [a] }

section

variable {c : Client} {event : String} {roomId : Option RoomId} {a : Awaiting}

@[simp] theorem messages_wsSend : (c.wsSend event roomId).messages = c.messages := by
  unfold wsSend
  split <;> rfl

@[simp] theorem currentRoom_wsSend : (c.wsSend event roomId).currentRoom = c.currentRoom := by
  unfold wsSend
  split <;> rfl

@[simp] theorem rooms_wsSend : (c.wsSend event roomId).rooms = c.rooms := by
  unfold wsSend
  split <;> rfl

@[simp] theorem pending_wsSend : (c.wsSend event roomId).pending = c.pending := by
  unfold wsSend
  split <;> rfl

@[simp] theorem wsOpen_wsSend : (c.wsSend event roomId).wsOpen = c.wsOpen := by
  unfold wsSend
  split <;> rfl

theorem sent_wsSend (h : c.wsOpen = true) :
    (c.wsSend event roomId).sent = c.sent ++ [⟨event, roomId⟩] := by
  unfold wsSend
  rw [if_pos h]

@[simp] theorem messages_await : (c.await a).messages = c.messages := rfl

@[simp] theorem currentRoom_await : (c.await a).currentRoom = c.currentRoom := rfl

@[simp] theorem pending_await : (c.await a).pending = c.pending ++ [a] := rfl

@[simp] theorem sent_await : (c.await a).sent = c.sent := rfl

@[simp] theorem wsOpen_await : (c.await a).wsOpen = c.wsOpen := rfl

end

/-! ## Message rendering -/

/-- `renderSystemMessage(content)`, for a payload of `roomId` -/
def renderSystemMessage (roomId : RoomId) (content : String) (c : Client) : Client :=
  { c with messages := c.messages ++ [.system roomId content] }

/-- `renderMessage(msg, prepend)` -/
def renderMessage (msg : Message) (prepend : Bool) (c : Client) : Client :=
  if msg.messageType = "system" then
    -- without a look at `prepend`
    c.renderSystemMessage msg.roomId msg.content
  else
    let isGrouped := decide (c.lastSenders.get? msg.roomId = some msg.senderId)
    let isOwn := c.user.any fun id => msg.senderId = some id
    let messageEl := Element.message msg isOwn isGrouped
    { c with
      lastSenders := c.lastSenders.set msg.roomId msg.senderId
      messages := if prepend then messageEl :: c.messages else c.messages ++ [messageEl] }

/-! ## The socket's messages -/

/-- `handleIncomingMessage(payload)` -/
def handleIncomingMessage (payload : Message) (c : Client) : Client :=
  let cached := (c.messageCache.get? payload.roomId).getD []
  let c := { c with messageCache := c.messageCache.set payload.roomId (cached ++ [payload]) }
  if c.inRoom payload.roomId then c.renderMessage payload false else c

/-- `handlePresenceUpdate(payload)` -/
def handlePresenceUpdate (room_id : RoomId) (user_id : UserId) (username status : String)
    (c : Client) : Client :=
  let users := (c.onlineUsers.get? room_id).getD []
  let users :=
    if status = "online" then
      if users.any fun u => u.userId = user_id then users
      else users ++ [{ userId := user_id, username }]
    else users.filter fun u => u.userId ≠ user_id
  { c with onlineUsers := c.onlineUsers.set room_id users }

/-- `handleOnlineUsers(payload)` -/
def handleOnlineUsers (room_id : RoomId) (users : List OnlineUser) (c : Client) : Client :=
  { c with onlineUsers := c.onlineUsers.set room_id users }

/-- `handleSystemMessage(payload)` -/
def handleSystemMessage (room_id : RoomId) (content : String) (c : Client) : Client :=
  if c.inRoom room_id then c.renderSystemMessage room_id content else c

/-- `handleWSMessage(data)` -/
def handleWSMessage (event : Event) (c : Client) : Client :=
  match event with
  | .message m => c.handleIncomingMessage m
  | .presence room_id user_id username status =>
    c.handlePresenceUpdate room_id user_id username status
  | .onlineUsers room_id users => c.handleOnlineUsers room_id users
  | .system room_id content => c.handleSystemMessage room_id content
  | .ping => c.wsSend "pong" none

/-! ## Room management -/

/-- `loadRooms()` up to its `await`, for a caller that switches to `next` afterwards -/
def loadRooms (next : Option RoomId) (c : Client) : Client := c.await (.rooms next)

/-- `loadMessages(roomId, before)` up to its `await` -/
def loadMessages (roomId : RoomId) (before : Option String) (c : Client) : Client :=
  c.await (.messages roomId before)

/-- `loadMessages` with its page -/
def showMessages (roomId : RoomId) (before : Option String) (data : Page) (c : Client) : Client :=
  let c :=
    { c with
      hasMore := data.hasMore
      messageCursors := c.messageCursors.set roomId data.nextCursor }
  let c :=
    if before.isNone then
      { c with messages := [], lastSenders := c.lastSenders.set roomId none }
    else c
  data.messages.foldl (fun c msg => c.renderMessage msg before.isSome) c

/-- `switchRoom(roomId)` -/
def switchRoom (roomId : RoomId) (c : Client) : Client :=
  let c :=
    match c.currentRoom with
    | some room => c.wsSend "leave_room" (some room.id)
    | none => c
  match c.rooms.find? fun r => r.id = roomId with
  | none => c
  | some room =>
    let c := { c with currentRoom := some room, messages := [], lastSenders := ∅ }
    (c.wsSend "join_room" (some roomId)).loadMessages roomId none

/-- `leaveCurrentRoom()` up to its `await` -/
def leaveCurrentRoom (c : Client) : Client :=
  match c.currentRoom with
  | none => c
  | some room => (c.wsSend "leave_room" (some room.id)).await (.leaveRoom room.id)

/-- The click on *load more*. -/
def loadMore (c : Client) : Client :=
  match c.currentRoom with
  | none => c
  | some room =>
    match c.messageCursors.get? room.id with
    | some (some cursor) => if cursor = "" then c else c.loadMessages room.id (some cursor)
    | _ => c

/-- An action after its `await`, with the answer or with the error it catches; `none` for an
answer of another request, and for a page with messages of another room. -/
def resume (a : Awaiting) (reply : Option Reply) (c : Client) : Option Client :=
  match a, reply with
  | .messages roomId before, some (.page data) =>
    if data.messages.all fun m => m.roomId = roomId then some (c.showMessages roomId before data)
    else none
  | .createRoom _ _ _, some (.room id) => some (c.loadRooms (some id))
  | .joinRoom roomId, some .done => some (c.loadRooms (some roomId))
  | .leaveRoom _, some .done => some ({ c with currentRoom := none }.loadRooms none)
  | .rooms next, some (.rooms rooms) => some (afterRooms next { c with rooms })
  | .switchRoom roomId, some .done => some (c.switchRoom roomId)
  -- the catch clauses show the error; after `loadRooms` its caller goes on
  | .rooms next, none => some (afterRooms next c)
  | .messages _ _, none | .createRoom _ _ _, none | .joinRoom _, none | .leaveRoom _, none =>
    some c
  | _, _ => none
where
  afterRooms (next : Option RoomId) (c : Client) : Client :=
    match next with
    | some roomId => c.await (.switchRoom roomId)
    | none => c

/-! ## The client as a machine -/

/-- What happens to the client next. -/
inductive Input where
  | loadRooms
  | createRoom (name description : String) (isPrivate : Bool)
  | joinRoom (roomId : RoomId)
  | switchRoom (roomId : RoomId)
  | leaveCurrentRoom
  | loadMore
  | event (e : Event)
  /-- the action at position `i` of those that wait goes on -/
  | resume (i : Nat) (reply : Option Reply)
  deriving DecidableEq, Repr

def step (c : Client) : Input → Option Client
  | .loadRooms => some (c.loadRooms none)
  | .createRoom name description isPrivate =>
    some (c.await (.createRoom name description isPrivate))
  | .joinRoom roomId => some (c.await (.joinRoom roomId))
  | .switchRoom roomId => some (c.switchRoom roomId)
  | .leaveCurrentRoom => some c.leaveCurrentRoom
  | .loadMore => some c.loadMore
  | .event e => some (c.handleWSMessage e)
  | .resume i reply =>
    match c.pending[i]? with
    | none => none
    | some a => { c with pending := c.pending.eraseIdx i }.resume a reply

end Client

end NexusChat
