import NexusChat.Client.App
import NexusChat.Services.MessageHistory

/-!
# What the client gets from the server

A payload of the socket is a `WSOutboundMessage` as JSON, a page of the history is a
`MessageListResponse` as JSON. Both are read here the way the client's handlers take them apart.
`json` is how a response renders a timestamp, which the client only formats again.
-/

set_option autoImplicit false

namespace NexusChat

namespace Client

/-! ## Pages -/

/-- `MessageType`, by its value -/
def messageTypeValue : MessageType → String
  | .text => "text"
  | .system => "system"
  | .image => "image"

variable (env : Env) (json : Time → String)

/-- A `MessageResponse` as JSON. -/
def Message.ofResponse (m : MessageResponse) : Message where
  id := env.uuidStr m.id
  roomId := env.uuidStr m.roomId
  senderId := m.senderId.map env.uuidStr
  senderUsername := m.senderUsername
  content := m.content
  messageType := messageTypeValue m.messageType
  createdAt := json m.createdAt

/-- A `MessageListResponse` as JSON. -/
def Page.ofResponse (r : MessageListResponse) : Page where
  messages := r.messages.map (Message.ofResponse env json)
  hasMore := r.hasMore
  nextCursor := r.nextCursor

/-- The first page of a room, queried by a session of its own. -/
def firstPage (t : Tables) (ties : NewestFirst) (room_id : Uuid) (limit : Nat) : Option Page :=
  match (MessageService.getRoomMessages (F := Coro DbOp.sig Exn)
      (fun op => Coro.perform (S := DbOp.sig) op) env room_id limit none).run (DbOp.exec 0)
      (MessageService.answering ties) { committed := t, pending := [] } with
  | some (.ok r, _) => some (.ofResponse env json r)
  | _ => none

variable {env json}

/-- A room that fits on its first page is on it, oldest message first. -/
theorem firstPage_eq {t : Tables} {ties : NewestFirst} {room_id : Uuid} {limit : Nat}
    (hmax : limit ≤ 100) (hfits : (MessageService.roomRows t room_id).length ≤ limit) :
    ∃ page, firstPage env json t ties room_id limit = some page ∧
      page.messages.Perm ((MessageService.roomRows t room_id).map fun m =>
        .ofResponse env json (MessageService.shown t m)) := by
  let shown (m : MessageRow) : MessageRow × Option UserRow :=
    (m, t.users.find? fun u => some u.id = m.senderId)
  let rows := ties.order (MessageService.roomRows t room_id)
  have hrows : rows.length = (MessageService.roomRows t room_id).length := (ties.perm _).length_eq
  have hpage : firstPage env json t ties room_id limit =
      some (.ofResponse env json (MessageService.pageResponse env limit
        ((rows.take (limit + 1)).map shown))) := by
    unfold firstPage
    rw [MessageService.run_getRoomMessages, Nat.min_eq_left hmax]
    simp only [DbOp.pageRows, MessageService.cursor, Option.all_none, Bool.and_true]
    rfl
  refine ⟨_, hpage, ?_⟩
  show ((MessageService.pageResponse env limit ((rows.take (limit + 1)).map shown)).messages.map
    _).Perm _
  rw [MessageService.messages_pageResponse, if_neg (by omega), ← List.map_reverse,
    List.map_map]
  refine ((List.reverse_perm _).map _).trans ?_
  exact (ties.perm _).map _

/-! ## Payloads -/

/-- `payload.key`, where it is a string -/
def field (key : String) (data : List (String × Json)) : Option String :=
  match Json.lookup key data with
  | some (.str s) => some s
  | _ => none

/-- An element of `users`. -/
def OnlineUser.ofJson : Json → Option OnlineUser
  | .obj fields => do
    let userId ← field "user_id" fields
    let username ← field "username" fields
    pure { userId, username }
  | _ => none

/-- What `handleWSMessage` makes of a payload; `none` where it changes nothing that is kept. -/
def Event.decode (m : WSOutboundMessage) : Option Event :=
  if m.event = "message" then do
    let id ← field "id" m.data
    let roomId ← field "room_id" m.data
    let content ← field "content" m.data
    let messageType ← field "message_type" m.data
    let createdAt ← field "created_at" m.data
    let senderId := field "sender_id" m.data
    let senderUsername := field "sender_username" m.data
    pure (.message { id, roomId, senderId, senderUsername, content, messageType, createdAt })
  else if m.event = "presence" then do
    let room_id ← field "room_id" m.data
    let user_id ← field "user_id" m.data
    let username ← field "username" m.data
    let status ← field "status" m.data
    pure (.presence room_id user_id username status)
  else if m.event = "online_users" then do
    let room_id ← field "room_id" m.data
    match Json.lookup "users" m.data with
    | some (.arr users) => pure (.onlineUsers room_id (users.filterMap OnlineUser.ofJson))
    | _ => none
  else if m.event = "system" then do
    let room_id ← field "room_id" m.data
    let content ← field "content" m.data
    pure (.system room_id content)
  else if m.event = "ping" then some .ping
  else none

/-- The client with a payload of the socket. -/
def receive (c : Client) (m : WSOutboundMessage) : Client :=
  match Event.decode m with
  | some e => c.handleWSMessage e
  | none => c

theorem decode_chatMessage {id room_id sender_id sender_username content message_type
    created_at : String} :
    Event.decode (.chatMessage id (.str room_id) sender_id sender_username content message_type
        created_at) =
      some (.message ⟨id, room_id, some sender_id, some sender_username, content, message_type,
        created_at⟩) := by
  simp [Event.decode, WSOutboundMessage.chatMessage, field, Json.lookup]

theorem decode_presenceUpdate {room_id user_id username status : String} :
    Event.decode (.presenceUpdate (.str room_id) user_id username status) =
      some (.presence room_id user_id username status) := by
  simp [Event.decode, WSOutboundMessage.presenceUpdate, field, Json.lookup]

end Client

end NexusChat
