import NexusChat.Lib.Dict
import NexusChat.Lib.Coro
import NexusChat.Schemas.Ws

/-!
# The connection manager (`app/messaging/connection_manager.py`)

`ConnectionManager` keeps three structures that ought to tell one story: `_connections` (user
to connection), `_room_connections` (room to users) and the `rooms` of each connection object.
A connection object outlives its registration (its handler and any forced disconnect still
hold it), so the objects live in a heap and `ConnId` is a reference.

Each method is a coroutine over the operations below. An operation is what the source does
between two awaits, or one awaited I/O call, so the points where another task may run are
operation boundaries. `join_room` and `leave_room` await nothing while they hold the lock, so
each is one operation that needs the lock to be free; `connect` and `disconnect` hold it across
a send and a close. The `_force_disconnect` a broadcast schedules never takes it.
-/

set_option autoImplicit false

namespace NexusChat

abbrev ConnId := Nat

/-- `starlette.websockets.WebSocketState` -/
inductive WebSocketState where
  | connecting
  | connected
  | disconnected
  deriving DecidableEq, Repr

/-- The two halves of a socket: `clientState` turns when the client's disconnect has been
received, `applicationState` when the server has sent its close. -/
structure WebSocket where
  clientState : WebSocketState
  applicationState : WebSocketState
  deriving DecidableEq, Repr

/-- Where the task running `_process_send_queue` is. -/
inductive SendTask (π : Type) where
  /-- suspended in `send_queue.get()` -/
  | waiting
  /-- suspended in `send_text(payload)` -/
  | sending (payload : π)
  /-- returned or cancelled -/
  | finished

/-- `WebSocketConnection`; `sent` is the history of what its send task has written. -/
structure WebSocketConnection (π : Type) where
  websocket : WebSocket
  userId : UserId
  username : String
  rooms : PySet RoomId
  sendQueue : List π
  sendTask : SendTask π
  sent : List π

/-- A connection as `connect` builds it: socket accepted, nothing joined, nothing queued. -/
def WebSocketConnection.fresh {π : Type} (user_id : UserId) (username : String) :
    WebSocketConnection π where
  websocket := ⟨.connected, .connected⟩
  userId := user_id
  username := username
  rooms := ∅
  sendQueue := []
  sendTask := .waiting
  sent := []

/-- `ConnectionManager`. `lock` is the task inside `async with self._lock`, `forced` are the
`_force_disconnect` tasks created by a broadcast that have not started, `joined` is the history
of the joins that found a connection. -/
structure ConnectionManager (π : Type) where
  connections : Dict UserId ConnId
  roomConnections : Dict RoomId (PySet UserId)
  lock : Option TaskId
  heap : ConnId → WebSocketConnection π
  nextConn : ConnId
  forced : List ConnId
  joined : List (UserId × RoomId)

namespace ConnectionManager

variable {π : Type}

/-- `ConnectionManager()` -/
def init : ConnectionManager π where
  connections := ∅
  roomConnections := ∅
  lock := none
  heap := fun _ => .fresh "" ""
  nextConn := 0
  forced := []
  joined := []

/-- `_connections.get(user_id)` -/
def getConnection (m : ConnectionManager π) (user_id : UserId) : Option ConnId :=
  m.connections.get? user_id

/-- `_room_connections.get(room_id, set())` -/
def getRoomUserIds (m : ConnectionManager π) (room_id : RoomId) : PySet UserId :=
  (m.roomConnections.get? room_id).getD ∅

def modify (m : ConnectionManager π) (c : ConnId)
    (f : WebSocketConnection π → WebSocketConnection π) : ConnectionManager π :=
  { m with heap := Function.update m.heap c (f (m.heap c)) }

/-- `conn._send_task.cancel()` -/
def cancelSend (m : ConnectionManager π) (c : ConnId) : ConnectionManager π :=
  m.modify c fun k => { k with sendTask := .finished }

/-- One pass of the loop both cleanups run over `conn.rooms`: `room_set = get(room_id)`, and if
it is non-empty, `discard`. Only `disconnect` and `leave_room` delete a set they emptied. -/
def dropUser (prune : Bool) (user_id : UserId) (index : Dict RoomId (PySet UserId))
    (room_id : RoomId) : Dict RoomId (PySet UserId) :=
  match index.get? room_id with
  | none => index
  | some users =>
    -- `if room_set:` passes over an empty set as over a missing one
    if users.isEmpty then index
    else if prune && (users.discard user_id).isEmpty then index.pop room_id
    else index.set room_id (users.discard user_id)

/-- The end of `connect`: create the connection, start its send task, register it. -/
def register (m : ConnectionManager π) (user_id : UserId) (username : String) :
    ConnectionManager π :=
  { m with
    heap := Function.update m.heap m.nextConn (.fresh user_id username)
    nextConn := m.nextConn + 1
    connections := m.connections.set user_id m.nextConn }

/-- `disconnect` up to the close: unregister, leave every room, cancel the send task. -/
def unregister (m : ConnectionManager π) (user_id : UserId) : ConnectionManager π :=
  match m.connections.get? user_id with
  | none => m
  | some c =>
    -- the connection object keeps its rooms
    { m with
      connections := m.connections.pop user_id
      roomConnections := (m.heap c).rooms.elems.foldl (dropUser true user_id)
        m.roomConnections }.cancelSend c

/-- The connection `disconnect` goes on to close: the registered one, if its client is there. -/
def toClose (m : ConnectionManager π) (user_id : UserId) : Option ConnId :=
  (m.connections.get? user_id).filter fun c => (m.heap c).websocket.clientState = .connected

/-- `join_room` -/
def joinRoom (m : ConnectionManager π) (user_id : UserId) (room_id : RoomId) :
    ConnectionManager π :=
  match m.connections.get? user_id with
  -- nobody is connected under this id: the call does nothing
  | none => m
  | some c =>
    { m.modify c fun k => { k with rooms := k.rooms.add room_id } with
      roomConnections := m.roomConnections.set room_id ((m.getRoomUserIds room_id).add user_id)
      joined := (user_id, room_id) :: m.joined }

/-- `leave_room`. A room id that is not a string is in no set; an unhashable one makes
`discard` raise. -/
def leaveRoom (m : ConnectionManager π) (user_id : UserId) (room_id : Json) :
    Except Exn Unit × ConnectionManager π :=
  match m.connections.get? user_id with
  | none => (.ok (), m)
  | some c =>
    match room_id with
    | .str r =>
      (.ok (), { m.modify c fun k => { k with rooms := k.rooms.discard r } with
        roomConnections := dropUser true user_id m.roomConnections r })
    -- unhashable
    | .arr _ | .obj _ => (.error .typeError, m)
    | _ => (.ok (), m)

/-- The `finally` of `_force_disconnect`: it pops by user id, whatever is registered there, and
discards the user from the rooms of the connection it was given. -/
def forceCleanup (m : ConnectionManager π) (c : ConnId) : ConnectionManager π :=
  { m with
    connections := m.connections.pop (m.heap c).userId
    roomConnections := (m.heap c).rooms.elems.foldl (dropUser false (m.heap c).userId)
      m.roomConnections }.cancelSend c

/-- `asyncio.Queue(maxsize)`: a `maxsize` of 0 means no bound. -/
def full (maxsize : Nat) (queue : List π) : Bool := 0 < maxsize && maxsize ≤ queue.length

def enqueue (m : ConnectionManager π) (c : ConnId) (payload : π) : ConnectionManager π :=
  m.modify c fun k => { k with sendQueue := k.sendQueue ++ [payload] }

/-- `send_to_user` -/
def sendToUser (maxsize : Nat) (m : ConnectionManager π) (user_id : UserId) (payload : π) :
    ConnectionManager π :=
  match m.connections.get? user_id with
  | none => m
  -- `QueueFull` is logged and the message dropped
  | some c => if full maxsize (m.heap c).sendQueue then m else m.enqueue c payload

/-- One recipient of `broadcast_to_room`: a full queue schedules a forced disconnect. -/
def deliver (maxsize : Nat) (payload : π) (m : ConnectionManager π) (user_id : UserId) :
    ConnectionManager π :=
  match m.connections.get? user_id with
  | none => m
  | some c =>
    if full maxsize (m.heap c).sendQueue then { m with forced := m.forced ++ [c] }
    else m.enqueue c payload

/-- `broadcast_to_room`; it awaits nothing, so it is one step of whoever calls it. -/
def broadcastToRoom (maxsize : Nat) (m : ConnectionManager π) (room_id : RoomId) (payload : π)
    (exclude_user : Option UserId) : ConnectionManager π :=
  ((m.getRoomUserIds room_id).elems.filter fun u => some u ≠ exclude_user).foldl
    (deliver maxsize payload) m

/-- The send task comes back from `send_queue.get()`. A socket that is not connected makes the
loop end, by the `break` or by the exception of `send_text`. -/
def sendTake (m : ConnectionManager π) (c : ConnId) : Option (ConnectionManager π) :=
  match (m.heap c).sendTask, (m.heap c).sendQueue with
  | .waiting, p :: queue => some <| m.modify c fun k =>
      { k with
        sendQueue := queue
        sendTask := if k.websocket = ⟨.connected, .connected⟩ then .sending p else .finished }
  | _, _ => none

/-- The send task comes back from `send_text(payload)`: with an exception (`ok = false`, the
payload written or not) the loop ends. -/
def sendDone (m : ConnectionManager π) (c : ConnId) (ok wrote : Bool) :
    Option (ConnectionManager π) :=
  match (m.heap c).sendTask with
  | .sending p => some <| m.modify c fun k =>
      { k with
        sent := if ok || wrote then k.sent ++ [p] else k.sent
        sendTask := if ok then .waiting else .finished }
  | _ => none

/-- `websocket.close()`: the close is sent, whatever the transport then does. -/
def closeSocket (m : ConnectionManager π) (c : ConnId) : ConnectionManager π :=
  m.modify c fun k =>
    { k with websocket := { k.websocket with applicationState := .disconnected } }

/-- The client's disconnect is received. -/
def clientGone (m : ConnectionManager π) (c : ConnId) : ConnectionManager π :=
  m.modify c fun k => { k with websocket := { k.websocket with clientState := .disconnected } }

end ConnectionManager

/-! ## The operations and the methods -/

/-- What the manager's methods await, or do between two awaits. -/
inductive ManagerOp (π : Type) where
  /-- `websocket.accept()` -/
  | accept
  /-- `connect` takes the lock: `.inl old` if the user has a connection, which is then to be
  forced out, and otherwise the new connection, registered at once. -/
  | connectLocked (user_id : UserId) (username : String)
  /-- `conn.websocket.client_state` -/
  | clientState (c : ConnId)
  /-- `conn.websocket.send_text` in `_force_disconnect` -/
  | sendText (c : ConnId) (message : WSOutboundMessage)
  /-- `conn.websocket.close` -/
  | close (c : ConnId)
  /-- the `finally` of a scheduled `_force_disconnect` -/
  | forceCleanup (c : ConnId)
  /-- the `finally` of the `_force_disconnect` inside `connect`, and the rest of `connect`:
  nothing is awaited between the two -/
  | replace (old : ConnId) (user_id : UserId) (username : String)
  /-- `disconnect` takes the lock; the answer is the connection it goes on to close -/
  | disconnectLocked (user_id : UserId)
  /-- leaving `disconnect`'s `async with self._lock` after the close -/
  | unlock
  | joinRoom (user_id : UserId) (room_id : RoomId)
  | leaveRoom (user_id : UserId) (room_id : Json)
  | sendToUser (user_id : UserId) (payload : π)
  /-- `list(conn.rooms)` -/
  | rooms (c : ConnId)

abbrev ManagerOp.Resp {π : Type} : ManagerOp π → Type
  | .connectLocked _ _ => ConnId ⊕ ConnId
  | .clientState _ => WebSocketState
  | .replace _ _ _ => ConnId
  | .disconnectLocked _ => Option ConnId
  | .rooms _ => List RoomId
  | _ => Unit

/-- What the environment decides about one manager operation: whether an awaited socket call
succeeds, and in which order a set is iterated. -/
structure SocketOutcome where
  ok : Bool
  order : List RoomId

namespace ManagerOp

variable {π : Type}

open ConnectionManager

/-- The operations that enter `async with self._lock`. -/
def needsLock : ManagerOp π → Bool
  | .connectLocked _ _ | .disconnectLocked _ | .joinRoom _ _ | .leaveRoom _ _ => true
  | _ => false

/-- An operation that enters the lock waits while it is held; a set is iterated in an order of
its own elements. -/
def enabled (op : ManagerOp π) (x : SocketOutcome) (m : ConnectionManager π) : Bool :=
  !(op.needsLock && m.lock.isSome) &&
    match op with
    | .rooms c => decide (x.order.Perm (m.heap c).rooms.elems)
    | _ => true

def answer : (op : ManagerOp π) → SocketOutcome → ConnectionManager π → Except Exn op.Resp
  | .accept, x, _ => if x.ok then .ok () else .error .runtimeError
  | .connectLocked u _, _, m =>
    match m.connections.get? u with
    | some old => .ok (.inl old)
    | none => .ok (.inr m.nextConn)
  | .clientState c, _, m => .ok (m.heap c).websocket.clientState
  | .sendText c _, x, m =>
    if (m.heap c).websocket.applicationState = .connected ∧ x.ok then .ok ()
    else .error .runtimeError
  | .close c, x, m =>
    if (m.heap c).websocket.applicationState = .connected ∧ x.ok then .ok ()
    else .error .runtimeError
  | .replace _ _ _, _, m => .ok m.nextConn
  | .disconnectLocked u, _, m => .ok (m.toClose u)
  | .leaveRoom u r, _, m => (m.leaveRoom u r).1
  -- a set may be iterated in any order
  | .rooms _, x, _ => .ok x.order
  | .forceCleanup _, _, _ | .unlock, _, _ | .joinRoom _ _, _, _ | .sendToUser _ _, _, _ => .ok ()

/-- The manager after one operation of task `me`. -/
def after (maxsize : Nat) (me : TaskId) : ManagerOp π → ConnectionManager π → ConnectionManager π
  | .connectLocked u name, m =>
    match m.connections.get? u with
    -- the lock is held while the old connection is closed
    | some _ => { m with lock := some me }
    | none => m.register u name
  | .close c, m => m.closeSocket c
  | .forceCleanup c, m => m.forceCleanup c
  | .replace old u name, m => { (m.forceCleanup old).register u name with lock := none }
  -- the lock is held only if there is a socket to close
  | .disconnectLocked u, m => { m.unregister u with lock := (m.toClose u).map fun _ => me }
  | .unlock, m => { m with lock := none }
  | .joinRoom u r, m => m.joinRoom u r
  | .leaveRoom u r, m => (m.leaveRoom u r).2
  | .sendToUser u p, m => m.sendToUser maxsize u p
  | .accept, m | .clientState _, m | .sendText _ _, m | .rooms _, m => m

def exec (maxsize : Nat) (me : TaskId) (op : ManagerOp π) (x : SocketOutcome)
    (m : ConnectionManager π) : Option (Except Exn op.Resp × ConnectionManager π) :=
  if op.enabled x m then some (op.answer x m, op.after maxsize me m) else none

theorem exec_eq_some {maxsize : Nat} {me : TaskId} {op : ManagerOp π} {x : SocketOutcome}
    {m m' : ConnectionManager π} {r : Except Exn op.Resp}
    (h : op.exec maxsize me x m = some (r, m')) :
    (op.needsLock = true → m.lock = none) ∧ r = op.answer x m ∧ m' = op.after maxsize me m := by
  unfold exec at h
  split at h
  · rename_i he
    simp only [Option.some.injEq, Prod.mk.injEq] at h
    refine ⟨fun hn => ?_, h.1.symm, h.2.symm⟩
    simpa [enabled, hn] using (Bool.and_eq_true_iff.mp he).1
  · exact absurd h (by simp)

/-- The signature the manager's own methods are written over. -/
abbrev sig (π : Type) : Sig := ⟨ManagerOp π, ManagerOp.Resp⟩

end ManagerOp

namespace ConnectionManager

/-- A program type the manager's methods can be written in: `lift` sends one of the manager's
operations to the caller's program. -/
abbrev Lift (π : Type) (F : Type → Type) := (op : ManagerOp π) → F op.Resp

variable {π : Type} {F : Type → Type} [Monad F] [MonadExceptOf Exn F] (lift : Lift π F)

/-- The `try` of `_force_disconnect`, whose exceptions are swallowed. -/
def notifyAndClose (c : ConnId) (reason : String) : F Unit :=
  tryCatchThe Exn
    (do
      let state ← lift (.clientState c)
      if state = .connected then
        lift (.sendText c (.errorMessage reason "disconnected"))
        lift (.close c)
      else pure ())
    fun _ => pure ()

/-- `_force_disconnect`, as the task a broadcast creates. -/
def forceDisconnect (c : ConnId) (reason : String) : F Unit := do
  notifyAndClose lift c reason
  lift (.forceCleanup c)

/-- `connect` -/
def connect (user_id : UserId) (username : String) : F ConnId := do
  lift .accept
  match ← lift (.connectLocked user_id username) with
  | .inr c => pure c
  | .inl old => do
    notifyAndClose lift old "New connection opened"
    lift (.replace old user_id username)

/-- `disconnect` -/
def disconnect (user_id : UserId) : F Unit := do
  match ← lift (.disconnectLocked user_id) with
  | some c => do
    tryCatchThe Exn (lift (.close c)) fun _ => pure ()
    lift .unlock
  | none => pure ()

end ConnectionManager

end NexusChat
