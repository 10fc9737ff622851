import NexusChat.Api.Chat
import NexusChat.Lib.Machine

/-!
# The whole system

Any number of instances, sessions and HTTP requests. Every task is a program and every operation
of every task is a step, so a run is an arbitrary interleaving at the awaits; the other steps are
new sockets and requests, inbound frames, the listeners, the send tasks, and the forced
disconnects that start running.

A session is in one of the phases of `websocket_chat`: it connects, waits for a frame, handles
one, cleans up, or has ended. Nothing is awaited between the end of one phase and the first await
of the next, so `settle` moves on in the same step.
-/

set_option autoImplicit false

namespace NexusChat

/-- Where a session is. -/
inductive Phase where
  /-- in `connection_manager.connect` -/
  | connecting (p : Prog ConnId)
  /-- in `websocket.receive_text()` -/
  | receiving (conn : ConnId)
  /-- handling a frame; `none` is the welcome and the answer to a frame that is not JSON -/
  | handling (conn : ConnId) (frame : Option Json) (p : Prog Unit)
  /-- in the `finally` -/
  | cleanup (conn : ConnId) (p : Prog Unit)
  | ended

/-- One call of `websocket_chat`, of a user whose token has been accepted. -/
structure Session where
  server : ServerId
  userId : UserId
  username : String
  phase : Phase

/-- The HTTP requests that change memberships, by the user the token names. -/
inductive Request where
  | createRoom (data : RoomCreate) (user : Uuid)
  | joinRoom (room_id user : Uuid)
  | leaveRoom (room_id user : Uuid)

/-- The route of a request, inside its `get_db` session. -/
def Request.prog : Request → Prog Unit
  | .createRoom data user => getDbSession dbOp do
    let _ ← RoomService.createRoom dbOp data user
    pure ()
  | .joinRoom room_id user => getDbSession dbOp do
    let _ ← RoomService.joinRoom dbOp room_id user
    pure ()
  | .leaveRoom room_id user => getDbSession dbOp (RoomService.leaveRoom dbOp room_id user)

inductive Task where
  | session (s : Session)
  | request (r : Request) (p : Prog Unit)
  /-- a `_force_disconnect` a broadcast has created -/
  | forced (server : ServerId) (conn : ConnId) (p : Prog Unit)

/-- What `receive_text` comes back with. -/
inductive Frame where
  | json (data : Json)
  | notJson
  /-- a message without text -/
  | binary
  | disconnect

structure System where
  world : World
  tasks : List Task

inductive Label where
  /-- a socket of an authenticated user reaches an instance -/
  | connect (server : ServerId) (user_id : UserId) (username : String)
  | request (r : Request)
  /-- the oldest scheduled `_force_disconnect` of an instance starts -/
  | force (server : ServerId)
  /-- session `i` receives a frame -/
  | receive (i : TaskId) (frame : Frame)
  /-- task `i` performs its next operation -/
  | run (i : TaskId) (x : Choice)
  | listener (server : ServerId) (e : RedisBroker.ListenerEvent)
  | sendTake (server : ServerId) (conn : ConnId)
  | sendDone (server : ServerId) (conn : ConnId) (ok wrote : Bool)

namespace Phase

/-- The next phase, when a program has come to its end: a session whose socket the server has
closed finds that out when it calls `receive_text` again. -/
def settle (env : Env) (user_id : UserId) (username : String) (isOpen : ConnId → Bool) :
    Phase → Phase
  | .connecting (.ret conn) => .handling conn none
      (Chat.sendToUser user_id (.systemMessage "system"
        ("Welcome, " ++ username ++ "! You are connected.")))
  -- `connect` is outside the `try`: no `finally`
  | .connecting (.raise _) => .ended
  | .handling conn _ (.ret _) =>
    -- `receive_text` on a socket the server has closed raises
    if isOpen conn then .receiving conn
    else .cleanup conn (Chat.cleanup env user_id username conn)
  | .handling conn _ (.raise _) => .cleanup conn (Chat.cleanup env user_id username conn)
  | .cleanup _ (.ret _) | .cleanup _ (.raise _) => .ended
  | phase => phase

/-- The phase with its program one operation further. -/
def step (env : Env) (srv : ServerId) (me : TaskId) (x : Choice) (w : World) :
    Phase → Option (Phase × World)
  | .connecting p => (p.step (Op.exec env srv me) x w).map fun (p', w') => (.connecting p', w')
  | .handling conn frame p =>
    (p.step (Op.exec env srv me) x w).map fun (p', w') => (.handling conn frame p', w')
  | .cleanup conn p =>
    (p.step (Op.exec env srv me) x w).map fun (p', w') => (.cleanup conn p', w')
  | .receiving _ | .ended => none

end Phase

namespace World

/-- The server has not sent a close on the socket. -/
def isOpen (w : World) (srv : ServerId) (conn : ConnId) : Bool :=
  ((w.servers srv).manager.heap conn).websocket.applicationState = .connected

/-- The listener hands a message to the callback of its channel. Whatever the callback raises is
logged, and it awaits nothing but the broadcast. -/
def dispatchMessage (env : Env) (w : World) (srv : ServerId) (channel : Channel) (n : Nat)
    (message : Json) : World :=
  match (w.servers srv).broker.callbacks.get? channel, Chat.roomMessageHandler message with
  | some room_id, .ok (some (outbound, exclude_user)) =>
    w.setManager srv ((w.servers srv).manager.broadcastToRoom env.maxSendQueueSize room_id
      { message := outbound, source := some (channel, n) } exclude_user)
  | _, _ => w

/-- A step of a listener, and the callback for the message it yields. -/
def listen (env : Env) (w : World) (srv : ServerId) (e : RedisBroker.ListenerEvent) : Option World :=
  ((w.servers srv).broker.listenerStep e).map fun (b, m) =>
    match m with
    | some (channel, n, message) => (w.setBroker srv b).dispatchMessage env srv channel n message
    | none => w.setBroker srv b

end World

namespace Task

/-- One operation of task `me`. -/
def step (env : Env) (me : TaskId) (x : Choice) (w : World) : Task → Option (Task × World)
  | .session s => (s.phase.step env s.server me x w).map fun (phase, w') =>
      (.session { s with phase := phase.settle env s.userId s.username (w'.isOpen s.server) }, w')
  | .request r p => (p.step (Op.exec env 0 me) x w).map fun (p', w') => (.request r p', w')
  | .forced srv conn p =>
    (p.step (Op.exec env srv me) x w).map fun (p', w') => (.forced srv conn p', w')

end Task

namespace Session

/-- The session comes back from `receive_text`. -/
def receive (env : Env) (s : Session) (conn : ConnId) (w : World) : Frame → Session × World
  | .json data =>
    let phase := Phase.handling conn (some data) (Chat.handleFrame env s.userId s.username data)
    ({ s with phase := phase.settle env s.userId s.username (w.isOpen s.server) }, w)
  | .notJson =>
    let answer := Chat.sendToUser s.userId (.errorMessage "Invalid JSON format")
    ({ s with phase := .handling conn none answer }, w)
  -- `message["text"]` raises a KeyError, which ends the loop
  | .binary =>
    ({ s with phase := .cleanup conn (Chat.cleanup env s.userId s.username conn) }, w)
  -- the socket knows that its client is gone, and `receive_text` raises
  | .disconnect =>
    ({ s with phase := .cleanup conn (Chat.cleanup env s.userId s.username conn) },
      w.setManager s.server ((w.servers s.server).manager.clientGone conn))

end Session

namespace System

/-- Nothing runs; the tables are as `t` says. -/
def init (t : Tables) : System := { world := .init t, tasks := [] }

/-- The session of a new socket. -/
def newSession (srv : ServerId) (user_id : UserId) (username : String) : Session where
  server := srv
  userId := user_id
  username := username
  phase := .connecting (ConnectionManager.connect managerOp user_id username)

def step (env : Env) (s : System) : Label → Option System
  | .connect srv user_id username =>
    some { s with tasks := s.tasks ++ [.session (newSession srv user_id username)] }
  | .request r => some { s with tasks := s.tasks ++ [.request r r.prog] }
  | .force srv =>
    match (s.world.servers srv).manager.forced with
    | [] => none
    | conn :: rest => some
        { world := s.world.setManager srv { (s.world.servers srv).manager with forced := rest }
          tasks := s.tasks ++ [.forced srv conn (ConnectionManager.forceDisconnect managerOp conn
            "Send queue overflow (slow client)")] }
  | .receive i frame =>
    match s.tasks[i]? with
    | some (.session ses) =>
      match ses.phase with
      | .receiving conn =>
        let (ses', w) := ses.receive env conn s.world frame
        some { world := w, tasks := s.tasks.set i (.session ses') }
      | _ => none
    | _ => none
  | .run i x =>
    match s.tasks[i]? with
    | some t => (t.step env i x s.world).map fun (t', w) =>
        { world := w, tasks := s.tasks.set i t' }
    | none => none
  | .listener srv e => (s.world.listen env srv e).map fun w => { s with world := w }
  | .sendTake srv conn =>
    ((s.world.servers srv).manager.sendTake conn).map fun m =>
      { s with world := s.world.setManager srv m }
  | .sendDone srv conn ok wrote =>
    ((s.world.servers srv).manager.sendDone conn ok wrote).map fun m =>
      { s with world := s.world.setManager srv m }

/-! ## Sample runs -/

/-- Everything is answered; a new row gets the id `uuid`. -/
def smooth (uuid : Uuid) : Choice where
  ok := true
  executed := true
  order := []
  now := Env.newYear
  uuid := uuid
  ties := .stable
  received := fun _ _ => true

/-- Task `i` performs its next `n` operations. -/
def goes (i : TaskId) (n : Nat) (uuid : Uuid := 0) : List Label :=
  List.replicate n (.run i (smooth uuid))

/-- User 1 reaches instance `srv`, is registered and welcomed. -/
def enters (i : TaskId) (srv : ServerId) : List Label :=
  .connect srv "00000000-0000-0000-0000-000000000001" "u1" :: goes i 3

/-- A frame about room 3. -/
def about (event : String) (fields : List (String × Json)) : Frame :=
  .json (.obj [("event", .str event), ("data", .obj
    (("room_id", .str "00000000-0000-0000-0000-000000000003") :: fields))])

/-- Session `i` receives a frame and performs the `n` operations of its handler. -/
def handles (i : TaskId) (frame : Frame) (n : Nat) (uuid : Uuid := 0) : List Label :=
  .receive i frame :: goes i n uuid

/-- The channel of room 3. -/
def roomThree : Channel := "room:00000000-0000-0000-0000-000000000003"

/-- The listener of an instance hands out the next `n` messages of room 3. -/
def hears (srv : ServerId) (n : Nat) : List Label :=
  List.replicate n (.listener srv (.receive roomThree))

/-- The send task of a connection writes its next `n` payloads. -/
def drains (srv : ServerId) (conn : ConnId) (n : Nat) : List Label :=
  (List.replicate n [.sendTake srv conn, .sendDone srv conn true true]).flatten

end System

end NexusChat
