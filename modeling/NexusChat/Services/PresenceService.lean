import NexusChat.App.World

/-!
# Presence and typing (`app/services/presence_service.py`, `typing_service.py`)

Who is online in a room is a sorted set of user ids by the time they were last seen. A room id is
whatever the client sent, rendered into the key.
-/

set_option autoImplicit false

namespace NexusChat

namespace PresenceService

variable (env : Env)

def key (room_id : Json) : String := "presence:" ++ room_id.format env.repr

/-- `set_online` -/
def setOnline (room_id : Json) (user_id : UserId) (username : String) : Prog Unit := do
  let now ← await .time
  redisOp (.zadd (key env room_id) user_id now)
  redisOp (.hset user_id username)

/-- `set_offline` -/
def setOffline (room_id : Json) (user_id : UserId) : Prog Unit :=
  redisOp (.zrem (key env room_id) user_id)

/-- `heartbeat` -/
def heartbeat (room_id : Json) (user_id : UserId) : Prog Unit := do
  let now ← await .time
  redisOp (.zadd (key env room_id) user_id now)

/-- The usernames of the users online, one `hget` after the other. -/
def withUsernames : List UserId → Prog (List Json)
  | [] => pure []
  | uid :: uids => do
    let username ← redisOp (.hget uid)
    let rest ← withUsernames uids
    pure (.obj [("user_id", .str uid),
      ("username", .str ((username.filter (· ≠ "")).getD "Unknown"))] :: rest)

/-- `get_online_users` -/
def getOnlineUsers (room_id : Json) : Prog (List Json) := do
  let now ← await .time
  let cutoff : Int := now - env.presenceTimeout
  redisOp (.zremrangebyscore (key env room_id) cutoff)
  let user_ids ← redisOp (.zrangebyscore (key env room_id) cutoff)
  withUsernames user_ids

/-- `is_online` -/
def isOnline (room_id : Json) (user_id : UserId) : Prog Bool := do
  match ← redisOp (.zscore (key env room_id) user_id) with
  | none => pure false
  | some score => do
    let now ← await .time
    pure (decide ((now : Int) - score < env.presenceTimeout))

end PresenceService

namespace TypingService

variable (env : Env)

def key (room_id : Json) (user_id : UserId) : String :=
  "typing:" ++ room_id.format env.repr ++ ":" ++ user_id

/-- `set_typing` -/
def setTyping (room_id : Json) (user_id : UserId) (username : String) : Prog Unit :=
  redisOp (.setex (key env room_id user_id) username)

/-- `clear_typing` -/
def clearTyping (room_id : Json) (user_id : UserId) : Prog Unit :=
  redisOp (.delete (key env room_id user_id))

end TypingService

end NexusChat
