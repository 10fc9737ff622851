import NexusChat.Env
import NexusChat.Lib.Table
import NexusChat.Lib.Coro

/-!
# The database (`app/models`, `app/db`)

Four tables with their primary keys, and the transactions in progress. A session is the one
transaction of the task that opened it: its writes are pending until it commits and visible to
nobody else (READ COMMITTED), and the unique and foreign keys are checked when a row is flushed.
A unique key that another transaction has pending makes the flush wait for that transaction, as
PostgreSQL does.

What a task writes is decided by the operations of `DbOp`, one for each statement the services
execute; ids and timestamps are column defaults, so they are an outcome of the flush.
-/

set_option autoImplicit false

namespace NexusChat

/-- `MessageType` -/
inductive MessageType where
  | text
  | system
  | image
  deriving DecidableEq, Repr

/-- `RoomRole` -/
inductive RoomRole where
  | admin
  | member
  deriving DecidableEq, Repr

/-- `users` -/
structure User where
  id : Uuid
  username : String
  email : String
  hashedPassword : String
  displayName : Option String
  isActive : Bool
  deriving DecidableEq, Repr

abbrev UserRow := User

/-- `rooms` -/
structure RoomRow where
  id : Uuid
  name : String
  description : Option String
  isPrivate : Bool
  createdBy : Option Uuid
  createdAt : Time
  deriving DecidableEq, Repr

/-- `room_members` -/
structure RoomMemberRow where
  id : Uuid
  roomId : Uuid
  userId : Uuid
  role : RoomRole
  joinedAt : Time
  deriving DecidableEq, Repr

/-- `messages` -/
structure MessageRow where
  id : Uuid
  roomId : Uuid
  senderId : Option Uuid
  content : String
  messageType : MessageType
  idempotencyKey : Option String
  createdAt : Time
  deriving DecidableEq, Repr

structure Tables where
  users : Table User User.id
  rooms : Table RoomRow RoomRow.id
  roomMembers : Table RoomMemberRow RoomMemberRow.id
  messages : Table MessageRow MessageRow.id

/-- One flushed statement. -/
inductive Write where
  | addUser (u : User)
  | addRoom (r : RoomRow)
  | addMember (m : RoomMemberRow)
  | addMessage (m : MessageRow)
  | deleteMember (id : Uuid)
  deriving DecidableEq

namespace Tables

def init : Tables := { users := ∅, rooms := ∅, roomMembers := ∅, messages := ∅ }

def apply (t : Tables) : Write → Tables
  | .addUser u => { t with users := t.users.insert u }
  | .addRoom r => { t with rooms := t.rooms.insert r }
  | .addMember m => { t with roomMembers := t.roomMembers.insert m }
  | .addMessage m => { t with messages := t.messages.insert m }
  | .deleteMember id => { t with roomMembers := t.roomMembers.delete fun m => m.id = id }

/-- The row of `room_members` for a room and a user. -/
def membership (t : Tables) (room_id user_id : Uuid) : Option RoomMemberRow :=
  t.roomMembers.find? fun m => m.roomId = room_id && m.userId = user_id

/-- The user is a member of the room. -/
def IsMember (t : Tables) (room_id user_id : Uuid) : Prop :=
  ∃ m ∈ t.roomMembers, m.roomId = room_id ∧ m.userId = user_id

theorem isSome_membership {t : Tables} {room_id user_id : Uuid} :
    (t.membership room_id user_id).isSome = true ↔ t.IsMember room_id user_id := by
  constructor
  · intro h
    obtain ⟨m, hm⟩ := Option.isSome_iff_exists.mp h
    obtain ⟨hmem, hp⟩ := Table.find?_eq_some hm
    simp only [Bool.and_eq_true, decide_eq_true_eq] at hp
    exact ⟨m, hmem, hp⟩
  · rintro ⟨m, hm, hp⟩
    by_contra hn
    have := Table.find?_eq_none.mp (Option.not_isSome_iff_eq_none.mp hn) m hm
    simp [hp] at this

instance (t : Tables) (room_id user_id : Uuid) : Decidable (t.IsMember room_id user_id) :=
  decidable_of_iff _ isSome_membership

/-- Two users and two rooms, for concrete runs: user 1 is a member of room 3. -/
def sample : Tables where
  users := (Table.insert ∅ ⟨1, "u1", "u1@x.org", "", some "u1", true⟩).insert
    ⟨2, "u2", "u2@x.org", "", some "u2", true⟩
  rooms := (Table.insert ∅ ⟨3, "r3", none, false, some 1, Env.newYear⟩).insert
    ⟨4, "r4", none, false, some 1, Env.newYear⟩
  roomMembers := Table.insert ∅ ⟨1, 3, 1, .admin, Env.newYear⟩
  messages := ∅

end Tables

/-- The committed tables, and what the transactions in progress have flushed, oldest first. -/
structure Database where
  committed : Tables
  pending : List (TaskId × Write)

namespace Database

def init : Database := { committed := .init, pending := [] }

/-- What transaction `me` has flushed. -/
def flushed (d : Database) (me : TaskId) : List Write :=
  (d.pending.filter fun e => e.1 = me).map Prod.snd

/-- What the others have. -/
def others (d : Database) (me : TaskId) : List Write :=
  (d.pending.filter fun e => e.1 ≠ me).map Prod.snd

/-- The tables as transaction `me` sees them. -/
def view (d : Database) (me : TaskId) : Tables := (d.flushed me).foldl Tables.apply d.committed

def flush (d : Database) (me : TaskId) (w : Write) : Database :=
  { d with pending := d.pending ++ [(me, w)] }

/-- The end of a transaction. -/
def forget (d : Database) (me : TaskId) : Database :=
  { d with pending := d.pending.filter fun e => e.1 ≠ me }

def commit (d : Database) (me : TaskId) : Database := { d.forget me with committed := d.view me }

end Database

/-- An order the database may return rows in for `ORDER BY created_at DESC`: rows of one
timestamp come in any order. -/
structure NewestFirst where
  order : List MessageRow → List MessageRow
  perm : ∀ l, (order l).Perm l
  sorted : ∀ l, (order l).Pairwise fun a b => b.createdAt ≤ a.createdAt

/-- The order that keeps rows of one timestamp as they are in the table. -/
def NewestFirst.stable : NewestFirst where
  order := List.insertionSort fun a b => b.createdAt ≤ a.createdAt
  perm := List.perm_insertionSort _
  sorted := by
    have : Std.Total fun a b : MessageRow => b.createdAt ≤ a.createdAt :=
      ⟨fun a b => Nat.le_total b.createdAt a.createdAt⟩
    have : IsTrans MessageRow fun a b => b.createdAt ≤ a.createdAt :=
      ⟨fun a b c hab hbc => Nat.le_trans hbc hab⟩
    exact List.pairwise_insertionSort _

/-- An order the database may return rows in that it sorts by `before`. -/
structure OrderedBy {ρ : Type} (before : ρ → ρ → Prop) where
  order : List ρ → List ρ
  perm : ∀ l, (order l).Perm l
  sorted : ∀ l, (order l).Pairwise before

/-- The order that keeps rows with equal times as they are in the table. -/
def OrderedBy.stable {ρ : Type} (time : ρ → Time) : OrderedBy fun a b => time a ≤ time b where
  order := List.insertionSort fun a b => time a ≤ time b
  perm := List.perm_insertionSort _
  sorted := by
    have : Std.Total fun a b : ρ => time a ≤ time b := ⟨fun a b => Nat.le_total (time a) (time b)⟩
    have : IsTrans ρ fun a b => time a ≤ time b := ⟨fun _ _ _ hab hbc => Nat.le_trans hab hbc⟩
    exact List.pairwise_insertionSort _

/-- The same for the latest first. -/
def OrderedBy.stableDesc {ρ : Type} (time : ρ → Time) : OrderedBy fun a b => time b ≤ time a where
  order := List.insertionSort fun a b => time b ≤ time a
  perm := List.perm_insertionSort _
  sorted := by
    have : Std.Total fun a b : ρ => time b ≤ time a := ⟨fun a b => Nat.le_total (time b) (time a)⟩
    have : IsTrans ρ fun a b => time b ≤ time a := ⟨fun _ _ _ hab hbc => Nat.le_trans hbc hab⟩
    exact List.pairwise_insertionSort _

/-! ## The operations -/

/-- The statements the services execute, and the ends of a session. -/
inductive DbOp where
  /-- `where((User.username == username) | (User.email == email))` -/
  | selectUser (username email : String)
  /-- the rooms a user is a member of, by the `JOIN` with the memberships -/
  | selectUserRooms (user_id : Uuid)
  | selectPublicRooms
  | countMembers (room_id : Uuid)
  /-- the memberships of a room with their users -/
  | selectRoomMembers (room_id : Uuid)
  | selectRoom (room_id : Uuid)
  | selectMember (room_id user_id : Uuid)
  | selectMessageByKey (idempotency_key : Json)
  /-- `LIMIT limit`, the messages before `before` with their senders -/
  | selectMessages (room_id : Uuid) (before : Option Time) (limit : Nat)
  | insertUser (username email hashed_password : String) (display_name : Option String)
  | insertRoom (name : String) (description : Option String) (is_private : Bool)
      (created_by : Uuid)
  | insertMember (room_id user_id : Uuid) (role : RoomRole)
  | insertMessage (room_id sender_id : Uuid) (content : String) (message_type : MessageType)
      (idempotency_key : Json)
  | deleteMember (id : Uuid)
  /-- `session.refresh(row)`: the row is read again, and is what it was -/
  | refresh
  | commit
  /-- `session.rollback()`, and what closing a session does -/
  | rollback

abbrev DbOp.Resp : DbOp → Type
  | .selectUser _ _ => Option User
  | .selectUserRooms _ | .selectPublicRooms => List RoomRow
  | .countMembers _ => Nat
  | .selectRoomMembers _ => List (RoomMemberRow × User)
  | .insertUser _ _ _ _ => User
  | .selectRoom _ => Option RoomRow
  | .selectMember _ _ => Option RoomMemberRow
  | .selectMessageByKey _ => Option MessageRow
  | .selectMessages _ _ _ => List (MessageRow × Option UserRow)
  | .insertRoom _ _ _ _ => RoomRow
  | .insertMember _ _ _ => RoomMemberRow
  | .insertMessage _ _ _ _ _ => MessageRow
  | _ => Unit

/-- What the environment decides about one database operation: whether the server answers, for a
commit that is not answered whether it was executed, the column defaults, and the order of rows
that compare equal. -/
structure DbOutcome where
  ok : Bool
  executed : Bool
  now : Time
  uuid : Uuid
  ties : NewestFirst
  roomTies : OrderedBy fun a b : RoomRow => b.createdAt ≤ a.createdAt := .stableDesc _
  memberTies : OrderedBy fun a b : RoomMemberRow × User => a.1.joinedAt ≤ b.1.joinedAt := .stable _

/-- `result.scalar_one_or_none()`: more than one row is an error. -/
def scalarOneOrNone {α : Type} : List α → Except Exn (Option α)
  | [] => .ok none
  | [a] => .ok (some a)
  -- `MultipleResultsFound`
  | _ => .error .dbError

theorem scalarOneOrNone_eq_some {α : Type} {l : List α} {a : α}
    (h : scalarOneOrNone l = .ok (some a)) : a ∈ l := by
  match l, h with
  | [b], h =>
    cases h
    exact List.mem_singleton_self _

namespace DbOp

open Tables

/-- PostgreSQL has no text with a NUL character in it. -/
def storable (s : String) : Bool := !s.toList.contains (Char.ofNat 0)

/-- A value bound to the column `idempotency_key`, `String(100)`. -/
def keyColumn : Json → Except Exn (Option String)
  | .null => .ok none
  | .str k => if storable k && k.length ≤ 100 then .ok (some k) else .error .dbError
  | _ => .error .dbError

def newUser (x : DbOutcome) (username email hashed_password : String)
    (display_name : Option String) : User :=
  { id := x.uuid, username, email, hashedPassword := hashed_password, displayName := display_name,
    isActive := true }

def newRoom (x : DbOutcome) (name : String) (description : Option String) (is_private : Bool)
    (created_by : Uuid) : RoomRow :=
  { id := x.uuid, name, description, isPrivate := is_private, createdBy := some created_by,
    createdAt := x.now }

def newMember (x : DbOutcome) (room_id user_id : Uuid) (role : RoomRole) : RoomMemberRow :=
  { id := x.uuid, roomId := room_id, userId := user_id, role, joinedAt := x.now }

def newMessage (x : DbOutcome) (room_id sender_id : Uuid) (content : String)
    (message_type : MessageType) (key : Option String) : MessageRow :=
  { id := x.uuid, roomId := room_id, senderId := some sender_id, content,
    messageType := message_type, idempotencyKey := key, createdAt := x.now }

/-- The row and another one cannot both be in `users`. -/
def userClash (u u' : User) : Bool :=
  u.id = u'.id || u.username = u'.username || u.email = u'.email

/-- The row and another one cannot both be in `messages`. -/
def messageClash (m m' : MessageRow) : Bool :=
  m.id = m'.id || (m.idempotencyKey.isSome && m.idempotencyKey = m'.idempotencyKey)

def memberClash (m m' : RoomMemberRow) : Bool :=
  m.id = m'.id || (m.roomId = m'.roomId && m.userId = m'.userId)

/-- A flush that would clash with what another transaction has pending waits for it; so does one
that touches a membership another transaction is deleting. -/
def blocked (x : DbOutcome) (me : TaskId) (d : Database) : DbOp → Bool
  | .insertUser username email hashed_password display_name => (d.others me).any fun
    | .addUser u => userClash (newUser x username email hashed_password display_name) u
    | _ => false
  | .insertRoom name description is_private created_by => (d.others me).any fun
    | .addRoom r => r.id = (newRoom x name description is_private created_by).id
    | _ => false
  | .insertMember room_id user_id role => (d.others me).any fun
    | .addMember m => memberClash (newMember x room_id user_id role) m
    -- the row that is being deleted still has its key
    | .deleteMember id => d.committed.roomMembers.rows.any fun m =>
        m.id = id && memberClash (newMember x room_id user_id role) m
    | _ => false
  | .insertMessage room_id sender_id content message_type key => (d.others me).any fun
    | .addMessage m =>
      match keyColumn key with
      | .ok k => messageClash (newMessage x room_id sender_id content message_type k) m
      | .error _ => false
    | _ => false
  | .deleteMember id => (d.others me).contains (.deleteMember id)
  | _ => false

/-- Foreign keys and unique keys of a new row, against the tables its transaction sees. -/
def checkUser (t : Tables) (u : User) : Except Exn User :=
  if t.users.rows.any (userClash u) then .error .integrityError else .ok u

def checkRoom (t : Tables) (r : RoomRow) : Except Exn RoomRow :=
  if (t.users.find? fun u => some u.id = r.createdBy).isNone then .error .integrityError
  else if t.rooms.rows.any fun r' => r'.id = r.id then .error .integrityError
  else .ok r

def checkMember (t : Tables) (m : RoomMemberRow) : Except Exn RoomMemberRow :=
  -- the foreign keys first, then the primary key and `uq_room_member`
  if (t.users.find? fun u => u.id = m.userId).isNone then .error .integrityError
  else if (t.rooms.find? fun r => r.id = m.roomId).isNone then .error .integrityError
  else if t.roomMembers.rows.any (memberClash m) then .error .integrityError
  else .ok m

def checkMessage (t : Tables) (m : MessageRow) : Except Exn MessageRow :=
  if (t.users.find? fun u => some u.id = m.senderId).isNone then .error .integrityError
  else if (t.rooms.find? fun r => r.id = m.roomId).isNone then .error .integrityError
  else if t.messages.rows.any (messageClash m) then .error .integrityError
  else .ok m

/-- The row a flush writes, or why it cannot. -/
def messageRow (x : DbOutcome) (t : Tables) (room_id sender_id : Uuid) (content : String)
    (message_type : MessageType) (key : Json) : Except Exn MessageRow :=
  match keyColumn key with
  | .error e => .error e
  | .ok k =>
    if storable content then checkMessage t (newMessage x room_id sender_id content message_type k)
    else .error .dbError

theorem checkMessage_eq_ok {t : Tables} {m m' : MessageRow} :
    checkMessage t m = .ok m' ↔ m' = m ∧ (∃ u ∈ t.users, some u.id = m.senderId) ∧
      (∃ r ∈ t.rooms, r.id = m.roomId) ∧ ∀ other ∈ t.messages, messageClash m other = false := by
  simp only [checkMessage, Option.isNone_iff_eq_none, Table.find?_eq_none,
    decide_eq_false_iff_not, List.any_eq_true]
  constructor
  · intro h
    split at h
    · exact absurd h (by simp)
    · rename_i hu
      split at h
      · exact absurd h (by simp)
      · rename_i hr
        split at h
        · exact absurd h (by simp)
        · rename_i hm
          push Not at hu hr hm
          exact ⟨(Except.ok.inj h).symm, hu, hr, fun other ho => by simpa using hm other ho⟩
  · rintro ⟨rfl, ⟨u, hu, hus⟩, ⟨r, hr, hrr⟩, hm⟩
    rw [if_neg (fun h => h u hu hus), if_neg (fun h => h r hr hrr), if_neg]
    rintro ⟨other, ho, hc⟩
    exact absurd hc (by simp [hm other ho])

/-- **When a message is written**: its key fits the column, its content is text, its sender and
its room exist, and it clashes with no row. -/
theorem messageRow_eq_ok {x : DbOutcome} {t : Tables} {room_id sender_id : Uuid}
    {content : String} {message_type : MessageType} {key : Json} {m : MessageRow} :
    messageRow x t room_id sender_id content message_type key = .ok m ↔
      ∃ k, keyColumn key = .ok k ∧ storable content = true ∧
        m = newMessage x room_id sender_id content message_type k ∧
        (∃ u ∈ t.users, u.id = sender_id) ∧ (∃ r ∈ t.rooms, r.id = room_id) ∧
        ∀ other ∈ t.messages, messageClash m other = false := by
  unfold messageRow
  cases keyColumn key with
  | error e => simp
  | ok k =>
    by_cases hc : storable content = true
    · simp only [hc, if_true, checkMessage_eq_ok, Except.ok.injEq, exists_eq_left', true_and]
      constructor
      · rintro ⟨rfl, ⟨u, hu, hus⟩, hr, hm⟩
        exact ⟨rfl, ⟨u, hu, Option.some.inj hus⟩, hr, hm⟩
      · rintro ⟨rfl, ⟨u, hu, hus⟩, hr, hm⟩
        exact ⟨rfl, ⟨u, hu, congrArg some hus⟩, hr, hm⟩
    · simp [hc]

/-- The rows of a page query. -/
def pageRows (t : Tables) (ties : NewestFirst) (room_id : Uuid) (before : Option Time)
    (limit : Nat) : List MessageRow :=
  (ties.order (t.messages.rows.filter fun m =>
    m.roomId = room_id && (before.all fun c => m.createdAt < c))).take limit

/-- The memberships of a room with their users. -/
def memberRows (t : Tables) (room_id : Uuid) : List (RoomMemberRow × User) :=
  (t.roomMembers.rows.filter fun m => m.roomId = room_id).filterMap fun m =>
    (t.users.find? fun u => u.id = m.userId).map (m, ·)

/-- What the server answers. -/
def reply (x : DbOutcome) (t : Tables) : (op : DbOp) → Except Exn op.Resp
  | .selectUser username email =>
    scalarOneOrNone (t.users.rows.filter fun u => u.username = username || u.email = email)
  | .selectUserRooms user_id =>
    -- a join on `room_members`: one row for each membership
    .ok (x.roomTies.order (t.rooms.rows.flatMap fun r =>
      (t.roomMembers.rows.filter fun m => r.id = m.roomId && m.userId = user_id).map fun _ => r))
  | .selectPublicRooms => .ok (x.roomTies.order (t.rooms.rows.filter fun r => !r.isPrivate))
  | .countMembers room_id =>
    .ok (t.roomMembers.rows.filter fun m => m.roomId = room_id).length
  | .selectRoomMembers room_id => .ok (x.memberTies.order (memberRows t room_id))
  | .selectRoom room_id => .ok (t.rooms.find? fun r => r.id = room_id)
  | .selectMember room_id user_id => .ok (t.membership room_id user_id)
  | .selectMessageByKey key =>
    match key with
    | .str k =>
      if storable k then .ok (t.messages.find? fun m => m.idempotencyKey = some k)
      else .error .dbError
    | _ => .error .dbError
  | .selectMessages room_id before limit =>
    -- a sender whose row is gone is `None`
    .ok ((pageRows t x.ties room_id before limit).map fun m =>
      (m, t.users.find? fun u => some u.id = m.senderId))
  | .insertUser username email hashed_password display_name =>
    checkUser t (newUser x username email hashed_password display_name)
  | .insertRoom name description is_private created_by =>
    checkRoom t (newRoom x name description is_private created_by)
  | .insertMember room_id user_id role => checkMember t (newMember x room_id user_id role)
  | .insertMessage room_id sender_id content message_type key =>
    messageRow x t room_id sender_id content message_type key
  | .deleteMember _ | .refresh | .commit | .rollback => .ok ()

/-- A rollback needs no answer. -/
def answer (x : DbOutcome) (t : Tables) (op : DbOp) : Except Exn op.Resp :=
  match op with
  | .rollback => .ok ()
  | op => if x.ok then reply x t op else .error .dbError

/-- The database after one operation of transaction `me`. -/
def after (x : DbOutcome) (me : TaskId) (d : Database) (op : DbOp) : Database :=
  match op with
  | .insertUser username email hashed_password display_name =>
    match answer x (d.view me) (.insertUser username email hashed_password display_name) with
    | .ok u => d.flush me (.addUser u)
    | .error _ => d
  | .insertRoom name description is_private created_by =>
    match answer x (d.view me) (.insertRoom name description is_private created_by) with
    | .ok r => d.flush me (.addRoom r)
    | .error _ => d
  | .insertMember room_id user_id role =>
    match answer x (d.view me) (.insertMember room_id user_id role) with
    | .ok m => d.flush me (.addMember m)
    | .error _ => d
  | .insertMessage room_id sender_id content message_type key =>
    match answer x (d.view me) (.insertMessage room_id sender_id content message_type key) with
    | .ok m => d.flush me (.addMessage m)
    | .error _ => d
  | .deleteMember id => if x.ok then d.flush me (.deleteMember id) else d
  -- a commit that is not answered may have been executed all the same
  | .commit => if x.ok || x.executed then d.commit me else d.forget me
  | .rollback => d.forget me
  | _ => d

def exec (me : TaskId) (op : DbOp) (x : DbOutcome) (d : Database) :
    Option (Except Exn op.Resp × Database) :=
  if op.blocked x me d then none else some (op.answer x (d.view me), op.after x me d)

abbrev sig : Sig := ⟨DbOp, DbOp.Resp⟩

end DbOp

/-! ## Sessions -/

section Sessions

variable {α : Type} {F : Type → Type} [Monad F] [MonadExceptOf Exn F]
  (lift : (op : DbOp) → F op.Resp)

/-- `async with async_session_factory() as db: body` -/
def withSession (body : F α) : F α := do
  let a ← tryCatchThe Exn body fun e => do
    lift .rollback
    throw e
  lift .rollback
  pure a

/-- `get_db_session` around a request: it commits what the request has flushed, or nothing. -/
def getDbSession (body : F α) : F α :=
  withSession lift do
    let a ← body
    -- the handler has returned by now
    lift .commit
    pure a

end Sessions

end NexusChat
