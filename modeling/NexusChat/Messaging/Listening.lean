import NexusChat.Lib.Isolation
import NexusChat.Api.Chat

/-!
# Messages that cannot be handled (`_listen`, `room_message_handler`)

The listener is handed strings, and much can go wrong with a string: it is no JSON, or no object, or
what it describes is no outbound message, or that message has no JSON. So the body of the listener's
loop is a program that may raise at any depth, and what it has done until then is done. It raises
before it touches a queue, or not at all: the payload is rendered before the loop over the users
starts, and the one exception of that loop is caught in it.
-/

set_option autoImplicit false

namespace NexusChat

/-- What the listener's `try` can catch. -/
inductive Raised where
  | jsonDecodeError
  | queueFull
  | other (e : Exn)

/-- JSON, read and written by somebody else's code, which may raise anything. -/
structure Codec where
  /-- `json.loads(s)` -/
  loads : String → Except Raised Json
  /-- `message.model_dump_json()` -/
  modelDumpJson : WSOutboundMessage → Except Raised String

/-- The part of an instance that a message can reach; what is queued are strings. -/
structure Receiver where
  broker : RedisBroker
  manager : ConnectionManager String

/-- Python code over the instance: an exception leaves it as it was when it was raised. -/
abbrev Handler (α : Type) := EStateM Raised Receiver α

/-- What `listen()` yields. Only a `"message"` comes from a `publish`. -/
structure PubSubMessage where
  type : String
  channel : Channel
  data : String

namespace Receiver

open ConnectionManager

def setManager (r : Receiver) (m : ConnectionManager String) : Receiver := { r with manager := m }

variable (maxsize : Nat)

/-- `conn.send_queue.put_nowait(payload)` -/
def putNowait (conn : ConnId) (payload : String) : Handler Unit := do
  let r ← get
  if full maxsize (r.manager.heap conn).sendQueue then throw .queueFull
  else set (r.setManager (r.manager.enqueue conn payload))

/-- `asyncio.create_task(self._force_disconnect(conn, ...))` -/
def scheduleForce (conn : ConnId) : Handler Unit :=
  modify fun r => r.setManager { r.manager with forced := r.manager.forced ++ [conn] }

/-- The body of the loop of `broadcast_to_room`. -/
def deliverTo (payload : String) (exclude_user : Option UserId) (user_id : UserId) :
    Handler Unit := do
  let r ← get
  if some user_id = exclude_user then pure ()
  else
    match r.manager.connections.get? user_id with
    | none => pure ()
    | some conn =>
      tryCatch (putNowait maxsize conn payload) fun
        | .queueFull => scheduleForce conn
        | e => throw e

variable (codec : Codec)

/-- `broadcast_to_room` -/
def broadcastToRoom (room_id : RoomId) (message : WSOutboundMessage)
    (exclude_user : Option UserId) : Handler Unit := do
  let r ← get
  let payload ← ofExcept (codec.modelDumpJson message)
  (r.manager.getRoomUserIds room_id).elems.forM (deliverTo maxsize payload exclude_user)

/-- `room_message_handler`, the closure over a room. -/
def roomMessageHandler (room_id : RoomId) (message : Json) : Handler Unit := do
  let outbound ← ofExcept ((Chat.roomMessageHandler message).mapError .other)
  match outbound with
  | none => pure ()
  | some (outbound, exclude_user) => broadcastToRoom maxsize codec room_id outbound exclude_user

/-- What the listener does with a message, up to the `except` clauses. -/
def handle (message : PubSubMessage) : Handler Unit := do
  let r ← get
  if message.type = "message" then
    match r.broker.callbacks.get? message.channel with
    | none => pure ()
    | some room_id => do
      let data ← ofExcept (codec.loads message.data)
      roomMessageHandler maxsize codec room_id data
  else pure ()

/-- What happens to an instance: its listener gets a message, or something else runs, which may do
whatever it likes. -/
inductive Event where
  | message (message : PubSubMessage)
  | other (f : Receiver → Receiver)

/-- The body of the `async for`, without its `try`, and what runs while it waits. -/
def body : Event → Handler Unit
  | .message message => handle maxsize codec message
  | .other f => modify f

/-- `async for message in self._pubsub.listen()`; both `except` clauses only log. -/
def listen (events : List Event) : Handler Unit :=
  Isolation.guarded (body maxsize codec) events

/-! ## Where it can raise -/

section Raising

open Isolation

variable {maxsize : Nat} {codec : Codec} {r : Receiver} {payload : String} {room_id : RoomId}
  {exclude_user : Option UserId} {message : WSOutboundMessage}

/-- **The body of the loop raises nothing**, and is the manager's delivery to one user. -/
theorem run_deliverTo {u : UserId} : (deliverTo maxsize payload exclude_user u).run r =
    .ok () (r.setManager
      (if some u ≠ exclude_user then deliver maxsize payload r.manager u else r.manager)) := by
  rw [deliverTo, run_bind]
  show (if some u = exclude_user then _ else _ : Handler Unit).run r = _
  by_cases hu : some u = exclude_user
  · rw [if_pos hu, if_neg (not_not_intro hu)]
    rfl
  · rw [if_neg hu, if_pos hu, deliver]
    cases r.manager.connections.get? u with
    | none => rfl
    | some conn =>
      dsimp only
      rw [run_tryCatch, putNowait, run_bind]
      simp only [run_get]
      cases full maxsize (r.manager.heap conn).sendQueue <;> rfl

theorem run_deliverAll {us : List UserId} :
    (us.forM (deliverTo maxsize payload exclude_user)).run r = .ok () (r.setManager
      ((us.filter fun u => some u ≠ exclude_user).foldl (deliver maxsize payload) r.manager)) := by
  induction us generalizing r with
  | nil => rfl
  | cons u us ih =>
    show (deliverTo maxsize payload exclude_user u >>= fun _ => us.forM _).run r = _
    rw [run_bind, run_deliverTo]
    dsimp only
    rw [ih, List.filter_cons]
    by_cases hu : some u ≠ exclude_user
    · rw [if_pos hu, if_pos (decide_eq_true hu)]
      rfl
    · rw [if_neg hu, if_neg (mt of_decide_eq_true hu)]
      rfl

/-- **`broadcast_to_room` raises before its loop or not at all.** -/
theorem run_broadcastToRoom :
    (broadcastToRoom maxsize codec room_id message exclude_user).run r =
      match codec.modelDumpJson message with
      | .error e => .error e r
      | .ok payload => .ok ()
          (r.setManager (r.manager.broadcastToRoom maxsize room_id payload exclude_user)) := by
  rw [broadcastToRoom, run_bind]
  show (ofExcept (codec.modelDumpJson message) >>= fun payload => _ : Handler Unit).run r = _
  rw [run_bind]
  cases codec.modelDumpJson message with
  | error e => rfl
  | ok payload => exact run_deliverAll

theorem atomic_broadcastToRoom :
    Atomic (broadcastToRoom maxsize codec room_id message exclude_user) :=
  still_get.bind fun _ => still_ofExcept.bind fun _ =>
    (Total.forM (fun _ _ => ⟨_, _, run_deliverTo⟩) _).atomic

theorem atomic_handle (message : PubSubMessage) : Atomic (handle maxsize codec message) := by
  refine still_get.bind fun r => ?_
  split
  · split
    · exact total_pure.atomic
    · refine still_ofExcept.bind fun data => still_ofExcept.bind fun outbound => ?_
      split
      · exact total_pure.atomic
      · exact atomic_broadcastToRoom
  · exact total_pure.atomic

theorem atomic_body : ∀ event, Atomic (body maxsize codec event)
  | .message message => atomic_handle message
  | .other _ => total_modify.atomic

end Raising

end Receiver

open Receiver Isolation

/-- **Messages that cannot be handled are isolated.** The loop comes to the end of its messages; it
leaves the instance as it would have without those whose handling raises; and handling that raises
leaves the instance alone. -/
theorem poison_isolated (maxsize : Nat) (codec : Codec) (events : List Event) (r : Receiver) :
    ∃ r', (listen maxsize codec events).run r = .ok () r' ∧
      (listen maxsize codec (survivors (body maxsize codec) events r)).run r = .ok () r' ∧
      ∀ message s e s', (handle maxsize codec message).run s = .error e s' → s' = s := by
  have htotal : Total (listen maxsize codec events) := total_guarded events
  obtain ⟨⟨⟩, r', hr'⟩ := htotal r
  exact ⟨r', hr', (run_guarded_survivors atomic_body events r).trans hr', atomic_handle⟩

end NexusChat
