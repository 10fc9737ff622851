import NexusChat.Messaging.ConnectionManager
import NexusChat.Messaging.RedisBroker
import NexusChat.Db.Database

/-!
# Servers, Redis and the database

The state the application runs on: any number of instances, each with its connection manager and
its broker, one Redis and one database. `Op` is everything a task awaits, and `Op.exec` what one
of them does; the outcome of the world outside is a `Choice`.

A PUBLISH is one step of Redis. It is recorded in the order Redis executes it, and appended to the
inbox of every PubSub that is subscribed to its channel at that moment, except where the delivery
is lost. So the publishes of one channel have one order, and every instance is delivered a part of
it in that order, each at most once; when it takes them out of its inbox is up to its listener.
-/

set_option autoImplicit false

namespace NexusChat

abbrev ServerId := Nat

/-- What is put on a send queue. `source` tells a payload of the room callback from one sent to
the user alone: the channel it came from and its position in the channel's log. -/
structure Delivery where
  message : WSOutboundMessage
  source : Option (Channel × Nat)

/-- `app.state` of one instance -/
structure Server where
  manager : ConnectionManager Delivery
  broker : RedisBroker

/-- An entry of the list `dead_letter_queue` -/
structure DeadLetter where
  originalChannel : Channel
  message : Json
  error : Exn
  timestamp : Time

/-- What is stored in Redis. `published` is the history of PUBLISH, oldest first. The sorted sets
are the presence sets, with a timestamp as score. -/
structure Redis where
  published : List (Channel × Json)
  sortedSets : Dict String (Dict String Time)
  usernames : Dict String String
  deadLetters : List DeadLetter

structure World where
  servers : ServerId → Server
  redis : Redis
  db : Database

/-- The broker of an instance that has started: `connect` has returned. -/
def RedisBroker.connected : RedisBroker :=
  { RedisBroker.init.newPubsub.addChannel 0 dummyChannel with listenerTask := some .created }

def Server.init : Server := { manager := .init, broker := .connected }

def Redis.init : Redis := { published := [], sortedSets := ∅, usernames := ∅, deadLetters := [] }

/-- Every instance has started and nobody has connected; the tables are as `t` says. -/
def World.init (t : Tables) : World where
  servers := fun _ => .init
  redis := .init
  db := { committed := t, pending := [] }

/-! ## The operations -/

/-- The Redis commands but PUBLISH. -/
inductive RedisOp where
  | zadd (key member : String) (score : Time)
  | zrem (key member : String)
  /-- from a score of 0 -/
  | zremrangebyscore (key : String) (max : Int)
  | zrangebyscore (key : String) (min : Int)
  | zscore (key member : String)
  | hset (field value : String)
  | hget (field : String)
  | setex (key value : String)
  | delete (key : String)
  | lpush (entry : DeadLetter)
  | ltrim (stop : Nat)
  /-- the pipeline of `check_ws_rate_limit` -/
  | checkWsRateLimit (user_id : UserId)

abbrev RedisOp.Resp : RedisOp → Type
  | .zrangebyscore _ _ => List String
  | .zscore _ _ => Option Time
  | .hget _ => Option String
  | _ => Unit

/-- Everything a task awaits, or does between two awaits. -/
inductive Op where
  | manager (op : ManagerOp Delivery)
  | broker (op : BrokerOp)
  | db (op : DbOp)
  | redis (op : RedisOp)
  | publish (channel : Channel) (message : Json)
  | sleep
  | time

abbrev Op.Resp : Op → Type
  | .manager op => op.Resp
  | .broker op => op.Resp
  | .db op => op.Resp
  | .redis op => op.Resp
  | .time => Time
  | _ => Unit

/-- What is decided outside the program about one operation: whether it is answered, whether it
was executed all the same if not, the order a set is iterated in, the clock, a new UUID, the order
of rows that compare equal, and which PubSub objects a publish reaches. -/
structure Choice where
  ok : Bool
  executed : Bool
  order : List RoomId
  now : Time
  uuid : Uuid
  ties : NewestFirst
  received : ServerId → PubSubId → Bool

namespace Choice

def socket (x : Choice) : SocketOutcome := { ok := x.ok, order := x.order }

def db (x : Choice) : DbOutcome :=
  { ok := x.ok, executed := x.executed, now := x.now, uuid := x.uuid, ties := x.ties }

end Choice

namespace Redis

/-- What was published on one channel. -/
def log (r : Redis) (channel : Channel) : List Json :=
  (r.published.filter fun e => e.1 = channel).map Prod.snd

def sortedSet (r : Redis) (key : String) : Dict String Time := (r.sortedSets.get? key).getD ∅

def setSortedSet (r : Redis) (key : String) (members : Dict String Time) : Redis :=
  { r with sortedSets := r.sortedSets.set key members }

/-- The members of a sorted set, by score and then by name. -/
def byScore (members : Dict String Time) : List (String × Time) :=
  members.entries.insertionSort fun a b => a.2 < b.2 ∨ (a.2 = b.2 ∧ a.1 ≤ b.1)

def answer (r : Redis) : (op : RedisOp) → op.Resp
  | .zrangebyscore key min =>
    ((byScore (r.sortedSet key)).filter fun e => min ≤ e.2).map Prod.fst
  | .zscore key member => (r.sortedSet key).get? member
  | .hget field => r.usernames.get? field
  | .zadd _ _ _ | .zrem _ _ | .zremrangebyscore _ _ | .hset _ _ | .setex _ _ | .delete _
  | .lpush _ | .ltrim _ | .checkWsRateLimit _ => ()

def after (r : Redis) : RedisOp → Redis
  | .zadd key member score => r.setSortedSet key ((r.sortedSet key).set member score)
  | .zrem key member => r.setSortedSet key ((r.sortedSet key).pop member)
  | .zremrangebyscore key max =>
    r.setSortedSet key (((r.sortedSet key).entries.filter fun e => e.2 ≤ max).foldl
      (fun members e => members.pop e.1) (r.sortedSet key))
  | .hset field value => { r with usernames := r.usernames.set field value }
  | .lpush entry => { r with deadLetters := entry :: r.deadLetters }
  | .ltrim stop => { r with deadLetters := r.deadLetters.take (stop + 1) }
  | .zrangebyscore _ _ | .zscore _ _ | .hget _ | .setex _ _ | .delete _
  | .checkWsRateLimit _ => r

end Redis

namespace World

def setManager (w : World) (srv : ServerId) (m : ConnectionManager Delivery) : World :=
  { w with servers := Function.update w.servers srv { w.servers srv with manager := m } }

def setBroker (w : World) (srv : ServerId) (b : RedisBroker) : World :=
  { w with servers := Function.update w.servers srv { w.servers srv with broker := b } }

/-- The subscribers of a channel are delivered its message `n`. -/
def deliverTo (received : PubSubId → Bool) (channel : Channel) (n : Nat) (message : Json)
    (b : RedisBroker) : RedisBroker :=
  { b with
    heap := fun p =>
      -- a PubSub that is cut off just then misses the message
      if channel ∈ (b.heap p).channels ∧ received p = true then
        { b.heap p with
          inbox := Function.update (b.heap p).inbox channel
            ((b.heap p).inbox channel ++ [(n, message)]) }
      else b.heap p }

/-- Redis executes a PUBLISH. -/
def publish (w : World) (received : ServerId → PubSubId → Bool) (channel : Channel)
    (message : Json) : World :=
  { w with
    redis := { w.redis with published := w.redis.published ++ [(channel, message)] }
    servers := fun srv =>
      { w.servers srv with
        -- the message is the next one of its channel
        broker := deliverTo (received srv) channel (w.redis.log channel).length message
          (w.servers srv).broker } }

end World

namespace Op

/-- One operation of task `me` on the instance `srv`. -/
def exec (env : Env) (srv : ServerId) (me : TaskId) (op : Op) (x : Choice) (w : World) :
    Option (Except Exn op.Resp × World) :=
  match op with
  | .manager op =>
    (op.exec env.maxSendQueueSize me x.socket (w.servers srv).manager).map
      fun (r, m) => (r, w.setManager srv m)
  | .broker op =>
    (op.exec x.ok (w.servers srv).broker).map fun (r, b) => (r, w.setBroker srv b)
  | .db op => (op.exec me x.db w.db).map fun (r, d) => (r, { w with db := d })
  | .redis op => some
      (if x.ok then .ok (w.redis.answer op) else .error .redisError,
        -- a command whose answer is lost may have been executed
        if x.ok || x.executed then { w with redis := w.redis.after op } else w)
  | .publish channel message => some
      (if x.ok then .ok () else .error .redisError,
        if x.ok || x.executed then w.publish x.received channel message else w)
  | .sleep => some (.ok (), w)
  | .time => some (.ok x.now, w)

abbrev sig : Sig := ⟨Op, Op.Resp⟩

end Op

/-- The programs of the application. -/
abbrev Prog (α : Type) := Coro Op.sig Exn α

def await (op : Op) : Prog op.Resp := Coro.perform (S := Op.sig) op

def managerOp (op : ManagerOp Delivery) : Prog op.Resp := await (.manager op)

def brokerOp (op : BrokerOp) : Prog op.Resp := await (.broker op)

def dbOp (op : DbOp) : Prog op.Resp := await (.db op)

def redisOp (op : RedisOp) : Prog op.Resp := await (.redis op)

end NexusChat
