import NexusChat.Lib.Dict
import NexusChat.Lib.Coro
import NexusChat.Schemas.Ws

/-!
# The Redis broker (`app/messaging/redis_broker.py`)

`RedisBroker` keeps the callback of each channel and one PubSub object, and runs one listener
task. A PubSub object outlives its use: a `subscribe` call that is suspended still holds the
object it was made on after `_reconnect` has replaced `self._pubsub`. So the objects live in a
heap and a `PubSubId` is a reference.

`connect`, `subscribe` and `unsubscribe` are coroutines over the operations below. The listener
is not: `_listen` loops for ever, so it is a state machine with one state per await.
-/

set_option autoImplicit false

namespace NexusChat

abbrev Channel := String
abbrev PubSubId := Nat

/-- A redis-py PubSub: the channels whose `subscribe` succeeded on it, and what Redis has
delivered on each channel and `listen()` has not yielded yet, every message with its position
among those published on the channel. -/
structure PubSub where
  channels : PySet Channel
  inbox : Channel → List (Nat × Json)

/-- Where the task running `_listen` is. -/
inductive Listener where
  /-- created by `connect`, and not run yet -/
  | created
  /-- suspended in `async for message in self._pubsub.listen()` -/
  | listening (p : PubSubId)
  /-- after an error, in `asyncio.sleep(self._reconnect_delay)` -/
  | backoff
  /-- in `_reconnect`, suspended in the subscription of the key at position `i`; the iterator
  over `_callbacks` was made when the dictionary had `size` keys -/
  | subscribing (size i : Nat) (channel : Channel)
  deriving DecidableEq, Repr

/-- `RedisBroker`. The callback of a channel is a closure over one room id, which stands for
it. `starts` is the history of `_listen`: the number of channels of the PubSub each time it
started iterating `listen()`. -/
structure RedisBroker where
  callbacks : Dict Channel RoomId
  heap : PubSubId → PubSub
  nextPubsub : PubSubId
  pubsub : Option PubSubId
  listenerTask : Option Listener
  reconnectDelay : Nat
  starts : List Nat

namespace RedisBroker

def maxReconnectDelay : Nat := 30

def dummyChannel : Channel := "system:dummy"

/-- `RedisBroker()` -/
def init : RedisBroker where
  callbacks := ∅
  heap := fun _ => ⟨∅, fun _ => []⟩
  nextPubsub := 0
  pubsub := none
  listenerTask := none
  reconnectDelay := 1
  starts := []

def modify (b : RedisBroker) (p : PubSubId) (f : PubSub → PubSub) : RedisBroker :=
  { b with heap := Function.update b.heap p (f (b.heap p)) }

/-- `self._pubsub = self._redis.pubsub()` -/
def newPubsub (b : RedisBroker) : RedisBroker :=
  { b with
    heap := Function.update b.heap b.nextPubsub ⟨∅, fun _ => []⟩
    nextPubsub := b.nextPubsub + 1
    pubsub := some b.nextPubsub }

/-- What a successful `pubsub.subscribe(channel)` leaves behind. -/
def addChannel (b : RedisBroker) (p : PubSubId) (channel : Channel) : RedisBroker :=
  b.modify p fun k => { k with channels := k.channels.add channel }

def dropChannel (b : RedisBroker) (p : PubSubId) (channel : Channel) : RedisBroker :=
  b.modify p fun k => { k with channels := k.channels.discard channel }

/-- `listen()` has yielded a message of the channel; `rest` is what it has still to yield. -/
def takeMessage (b : RedisBroker) (p : PubSubId) (channel : Channel)
    (rest : List (Nat × Json)) : RedisBroker :=
  b.modify p fun k => { k with inbox := Function.update k.inbox channel rest }

/-! ### What the PubSub objects hold -/

section Views

variable {b : RedisBroker} {p q : PubSubId} {channel other : Channel}

theorem heap_modify {f : PubSub → PubSub} :
    (b.modify p f).heap q = if q = p then f (b.heap p) else b.heap q := by
  simp [RedisBroker.modify, Function.update_apply]

theorem mem_channels_addChannel : other ∈ ((b.addChannel p channel).heap q).channels ↔
    (q = p ∧ other = channel) ∨ other ∈ (b.heap q).channels := by
  rw [addChannel, heap_modify]
  by_cases hq : q = p
  · subst hq; simp
  · simp [hq]

theorem mem_channels_dropChannel : other ∈ ((b.dropChannel p channel).heap q).channels ↔
    other ∈ (b.heap q).channels ∧ ¬(q = p ∧ other = channel) := by
  rw [dropChannel, heap_modify]
  by_cases hq : q = p
  · subst hq; simp
  · simp [hq]

@[simp] theorem mem_channels_takeMessage {rest : List (Nat × Json)} :
    other ∈ ((b.takeMessage p channel rest).heap q).channels ↔ other ∈ (b.heap q).channels := by
  rw [takeMessage, heap_modify]
  split
  · rename_i hq; subst hq; rfl
  · rfl

end Views

/-! ## The listener -/

/-- The top of the `while` loop: `self._pubsub.listen()` is evaluated and iterated. -/
def startListening (b : RedisBroker) : RedisBroker :=
  match b.pubsub with
  -- `None.listen()` raises before anything is iterated
  | none => b
  | some p =>
    { b with
      listenerTask := some (.listening p)
      starts := b.starts ++ [(b.heap p).channels.elems.length] }

/-- One `next` of `for channel in self._callbacks`. A dictionary whose size has changed raises,
and whatever `_reconnect` raises `_listen` swallows. -/
def resubscribeNext (b : RedisBroker) (size i : Nat) : RedisBroker :=
  -- a session has subscribed or unsubscribed in the meantime
  if b.callbacks.size ≠ size then b.startListening
  else
    match b.callbacks.keys[i]? with
    | some channel => { b with listenerTask := some (.subscribing size i channel) }
    -- the end of `_reconnect`, and back to the top of `_listen`
    | none => { b with reconnectDelay := 1 }.startListening

/-- What happens to the listener; the environment decides whether an awaited call succeeds. -/
inductive ListenerEvent where
  /-- the task runs for the first time -/
  | begin
  /-- `listen()` yields the next message of a channel -/
  | receive (channel : Channel)
  /-- `listen()` returns, its PubSub having no channel left -/
  | exhausted
  /-- `listen()` raises -/
  | fail
  /-- the sleep is over; `ok` if the new client and its PubSub could be made -/
  | wake (ok : Bool)
  /-- the subscription `_reconnect` waits for is done or has raised -/
  | subscribed (ok : Bool)

/-- One step of `_listen`, and the message it hands to the callback of a channel. -/
def listenerStep (b : RedisBroker) (e : ListenerEvent) :
    Option (RedisBroker × Option (Channel × Nat × Json)) :=
  match b.listenerTask, e with
  | some .created, .begin => some (b.startListening, none)
  | some (.listening p), .receive channel =>
    match (b.heap p).inbox channel with
    | [] => none
    | (n, data) :: rest => some (b.takeMessage p channel rest, some (channel, n, data))
  | some (.listening p), .exhausted =>
    if (b.heap p).channels.isEmpty then some (b.startListening, none) else none
  | some (.listening _), .fail => some ({ b with listenerTask := some .backoff }, none)
  | some .backoff, .wake ok =>
    -- the delay is doubled whether the reconnect then succeeds or not
    let b := { b with reconnectDelay := min (b.reconnectDelay * 2) maxReconnectDelay }
    some (if ok then b.newPubsub.resubscribeNext b.callbacks.size 0 else b.startListening, none)
  | some (.subscribing size i channel), .subscribed ok =>
    match b.pubsub with
    | none => none
    | some p => some
        (if ok then (b.addChannel p channel).resubscribeNext size (i + 1) else b.startListening,
          none)
  | _, _ => none

end RedisBroker

/-! ## The operations and the methods -/

/-- What the broker's methods await, or do between two awaits. -/
inductive BrokerOp where
  /-- `connect` makes its client and its PubSub -/
  | openPubsub
  /-- `connect` starts the listener task -/
  | startListener
  /-- `self._callbacks[channel] = callback`, and the PubSub there is -/
  | setCallback (channel : Channel) (room_id : RoomId)
  /-- `self._callbacks.pop(channel, None)`, and the PubSub there is -/
  | popCallback (channel : Channel)
  /-- `pubsub.subscribe(channel)` -/
  | subscribe (p : PubSubId) (channel : Channel)
  /-- `pubsub.unsubscribe(channel)` -/
  | unsubscribe (p : PubSubId) (channel : Channel)

abbrev BrokerOp.Resp : BrokerOp → Type
  | .openPubsub => PubSubId
  | .setCallback _ _ | .popCallback _ => Option PubSubId
  | _ => Unit

namespace BrokerOp

open RedisBroker

/-- Only the calls that go to Redis can fail; a failed one has no effect. -/
def answer (ok : Bool) (b : RedisBroker) : (op : BrokerOp) → Except Exn op.Resp
  | .openPubsub => if ok then .ok b.nextPubsub else .error .redisError
  | .setCallback _ _ | .popCallback _ => .ok b.pubsub
  | .subscribe _ _ | .unsubscribe _ _ => if ok then .ok () else .error .redisError
  | .startListener => .ok ()

def after (ok : Bool) (b : RedisBroker) : BrokerOp → RedisBroker
  | .openPubsub => if ok then b.newPubsub else b
  | .startListener => { b with listenerTask := some .created, reconnectDelay := 1 }
  | .setCallback channel room_id =>
    -- without a PubSub `subscribe` returns before it sets anything
    if b.pubsub.isSome then { b with callbacks := b.callbacks.set channel room_id } else b
  | .popCallback channel =>
    if b.pubsub.isSome then { b with callbacks := b.callbacks.pop channel } else b
  | .subscribe p channel => if ok then b.addChannel p channel else b
  | .unsubscribe p channel => if ok then b.dropChannel p channel else b

def exec (op : BrokerOp) (ok : Bool) (b : RedisBroker) :
    Option (Except Exn op.Resp × RedisBroker) :=
  some (op.answer ok b, op.after ok b)

/-- The signature the broker's own methods are written over. -/
abbrev sig : Sig := ⟨BrokerOp, BrokerOp.Resp⟩

end BrokerOp

namespace RedisBroker

variable {F : Type → Type} [Monad F] (lift : (op : BrokerOp) → F op.Resp)

/-- `connect` -/
def connect : F Unit := do
  let p ← lift .openPubsub
  lift (.subscribe p dummyChannel)
  lift .startListener

/-- `subscribe` -/
def subscribe (channel : Channel) (room_id : RoomId) : F Unit := do
  match ← lift (.setCallback channel room_id) with
  | some p => lift (.subscribe p channel)
  | none => pure ()

/-- `unsubscribe` -/
def unsubscribe (channel : Channel) : F Unit := do
  match ← lift (.popCallback channel) with
  | some p => lift (.unsubscribe p channel)
  | none => pure ()

end RedisBroker

end NexusChat
