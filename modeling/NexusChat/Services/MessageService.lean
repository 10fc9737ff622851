import NexusChat.Db.Database

/-!
# Messages (`app/services/message_service.py`)

`save_message` returns the row a key already has, or writes a new one. `get_room_messages`
returns one page of a room's history, newest messages first, cut at `limit`; the page is turned
round, and its oldest timestamp is the cursor for the next one.
-/

set_option autoImplicit false

namespace NexusChat

/-- `MessageResponse` -/
structure MessageResponse where
  id : Uuid
  roomId : Uuid
  senderId : Option Uuid
  senderUsername : Option String
  content : String
  messageType : MessageType
  createdAt : Time
  deriving DecidableEq, Repr

/-- `MessageListResponse` -/
structure MessageListResponse where
  messages : List MessageResponse
  hasMore : Bool
  nextCursor : Option String
  deriving DecidableEq, Repr

/-- The response for one row of the page query. -/
def MessageResponse.ofRow (row : MessageRow × Option UserRow) : MessageResponse where
  id := row.1.id
  roomId := row.1.roomId
  senderId := row.1.senderId
  senderUsername := row.2.map User.username
  content := row.1.content
  messageType := row.1.messageType
  createdAt := row.1.createdAt

namespace MessageService

variable {F : Type → Type} [Monad F] (lift : (op : DbOp) → F op.Resp)

/-- `save_message` -/
def saveMessage (room_id sender_id : Uuid) (content : String) (message_type : MessageType)
    (idempotency_key : Json) : F MessageRow := do
  if idempotency_key.truthy then
    match ← lift (.selectMessageByKey idempotency_key) with
    | some existing => pure existing
    | none => insert
  else insert
where
  insert : F MessageRow := do
    let message ← lift (.insertMessage room_id sender_id content message_type idempotency_key)
    lift .refresh
    pure message

/-- The cursor a request means: an empty or an invalid one is ignored. -/
def cursor (env : Env) (before : Option String) : Option Time :=
  match before with
  | none => none
  | some s => if s = "" then none else env.fromisoformat s

/-- The response built from what the page query returned: `limit + 1` rows mean that there are
more. -/
def pageResponse (env : Env) (limit : Nat) (rows : List (MessageRow × Option UserRow)) :
    MessageListResponse :=
  let has_more := decide (limit < rows.length)
  let messages := ((if has_more then rows.take limit else rows).map MessageResponse.ofRow).reverse
  { messages
    hasMore := has_more
    nextCursor :=
      if has_more then messages.head?.map fun m => env.isoformat m.createdAt else none }

/-- `get_room_messages` -/
def getRoomMessages (env : Env) (room_id : Uuid) (limit : Nat) (before : Option String) :
    F MessageListResponse := do
  let limit := min limit 100
  let rows ← lift (.selectMessages room_id (cursor env before) (limit + 1))
  pure (pageResponse env limit rows)

end MessageService

end NexusChat
