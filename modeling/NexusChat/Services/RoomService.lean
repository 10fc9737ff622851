import NexusChat.Db.Database

/-!
# Rooms and memberships (`app/services/room_service.py`)
-/

set_option autoImplicit false

namespace NexusChat

/-- `NotFoundError(resource)` -/
def notFoundError (resource : String) : Exn := .httpException 404 (resource ++ " not found")

/-- `ConflictError(detail)` -/
def conflictError (detail : String) : Exn := .httpException 409 detail

/-- `AuthorizationError(detail)` -/
def authorizationError (detail : String) : Exn := .httpException 403 detail

/-- `RoomCreate` -/
structure RoomCreate where
  name : String
  description : Option String
  isPrivate : Bool

/-- `RoomResponse` -/
structure RoomResponse where
  id : Uuid
  name : String
  description : Option String
  isPrivate : Bool
  createdBy : Option Uuid
  createdAt : Time
  memberCount : Nat
  deriving DecidableEq, Repr

/-- The response for a room with its number of members. -/
def RoomResponse.ofRow (room : RoomRow) (member_count : Nat) : RoomResponse where
  id := room.id
  name := room.name
  description := room.description
  isPrivate := room.isPrivate
  createdBy := room.createdBy
  createdAt := room.createdAt
  memberCount := member_count

/-- One of the dictionaries `get_room_members` returns. -/
structure MemberResponse where
  userId : String
  username : String
  displayName : Option String
  role : RoomRole
  joinedAt : String
  deriving DecidableEq, Repr

/-- The dictionary for one row of the query. -/
def MemberResponse.ofRow (env : Env) (row : RoomMemberRow × User) : MemberResponse where
  userId := env.uuidStr row.2.id
  username := row.2.username
  displayName := row.2.displayName
  role := row.1.role
  joinedAt := env.isoformat row.1.joinedAt

namespace RoomService

variable {F : Type → Type} [Monad F] [MonadExceptOf Exn F] (lift : (op : DbOp) → F op.Resp)

/-- `create_room` -/
def createRoom (data : RoomCreate) (user_id : Uuid) : F RoomRow := do
  let room ← lift (.insertRoom data.name data.description data.isPrivate user_id)
  let _ ← lift (.insertMember room.id user_id .admin)
  lift .refresh
  pure room

/-- `get_room` -/
def getRoom (room_id : Uuid) : F RoomRow := do
  match ← lift (.selectRoom room_id) with
  | some room => pure room
  | none => throw (notFoundError "Room")

/-- `join_room` -/
def joinRoom (room_id user_id : Uuid) : F RoomMemberRow := do
  let _ ← getRoom lift room_id
  match ← lift (.selectMember room_id user_id) with
  | some _ => throw (conflictError "Already a member of this room")
  | none => lift (.insertMember room_id user_id .member)

/-- `leave_room` -/
def leaveRoom (room_id user_id : Uuid) : F Unit := do
  match ← lift (.selectMember room_id user_id) with
  | some member => lift (.deleteMember member.id)
  | none => throw (notFoundError "Room membership")

/-- `is_member` -/
def isMember (room_id user_id : Uuid) : F Bool := do
  let member ← lift (.selectMember room_id user_id)
  pure member.isSome

/-- The loop of the two listings: each room is counted by a query of its own. -/
def roomResponses : List RoomRow → F (List RoomResponse)
  | [] => pure []
  | room :: rooms => do
    let member_count ← lift (.countMembers room.id)
    let room_responses ← roomResponses rooms
    pure (.ofRow room member_count :: room_responses)

/-- `list_user_rooms` -/
def listUserRooms (user_id : Uuid) : F (List RoomResponse) := do
  let rooms ← lift (.selectUserRooms user_id)
  roomResponses lift rooms

/-- `list_public_rooms` -/
def listPublicRooms : F (List RoomResponse) := do
  let rooms ← lift .selectPublicRooms
  roomResponses lift rooms

/-- `get_room_members` -/
def getRoomMembers (env : Env) (room_id : Uuid) : F (List MemberResponse) := do
  let rows ← lift (.selectRoomMembers room_id)
  pure (rows.map (.ofRow env))

end RoomService

end NexusChat
