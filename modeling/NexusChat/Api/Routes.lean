import NexusChat.Services.AuthService
import NexusChat.Services.RoomService
import NexusChat.Services.MessageService

/-!
# The HTTP endpoints (`app/api/routes`)

A request runs in the session `get_db_session` gives it: what it has flushed is committed after
the endpoint has returned, and rolled back if anything raises. The user a request is made by is
the one `get_current_user` has authenticated; that dependency only reads.
-/

set_option autoImplicit false

namespace NexusChat

/-! ## Mutations -/

/-- A request that writes. `salt` is what `gensalt` gives. -/
inductive WriteRequest where
  | register (data : UserRegister) (salt : String)
  | createRoom (data : RoomCreate) (user_id : Uuid)
  | joinRoom (room_id user_id : Uuid)
  | leaveRoom (room_id user_id : Uuid)

/-- What is answered. -/
inductive Response where
  | user (user : User)
  | room (room : RoomResponse)
  | detail (detail : String)
  deriving DecidableEq, Repr

namespace Tables

/-- The unique and foreign keys hold. -/
structure Valid (t : Tables) : Prop where
  creators : ∀ r ∈ t.rooms, ∀ id, r.createdBy = some id → ∃ u ∈ t.users, u.id = id
  memberUsers : ∀ m ∈ t.roomMembers, ∃ u ∈ t.users, u.id = m.userId
  memberRooms : ∀ m ∈ t.roomMembers, ∃ r ∈ t.rooms, r.id = m.roomId
  members : ∀ m ∈ t.roomMembers, ∀ m' ∈ t.roomMembers,
    m.roomId = m'.roomId → m.userId = m'.userId → m = m'
  senders : ∀ m ∈ t.messages, ∀ id, m.senderId = some id → ∃ u ∈ t.users, u.id = id
  messageRooms : ∀ m ∈ t.messages, ∃ r ∈ t.rooms, r.id = m.roomId

end Tables

namespace Routes

section

variable {F : Type → Type} [Monad F] [MonadExceptOf Exn F] (lift : (op : DbOp) → F op.Resp)

/-- `AuthService.register` -/
def register (lib : AuthLib) (data : UserRegister) (salt : String) : F User := do
  match ← lift (.selectUser data.username data.email) with
  | some existing =>
    if existing.username = data.username then throw (conflictError "Username already taken")
    else throw (conflictError "Email already registered")
  | none =>
    let user ← lift (.insertUser data.username data.email
      (Security.hashPassword lib salt data.password)
      (some ((data.displayName.filter (· ≠ "")).getD data.username)))
    lift .refresh
    pure user

/-- The endpoint of a request. -/
def handle (lib : AuthLib) : WriteRequest → F Response
  | .register data salt => do
    let user ← register lift lib data salt
    pure (.user user)
  | .createRoom data user_id => do
    let room ← RoomService.createRoom lift data user_id
    pure (.room (.ofRow room 1))
  | .joinRoom room_id user_id => do
    let _ ← RoomService.joinRoom lift room_id user_id
    pure (.detail "Successfully joined the room")
  | .leaveRoom room_id user_id => do
    RoomService.leaveRoom lift room_id user_id
    pure (.detail "Successfully left the room")

end

/-- A request in its session. -/
abbrev Call (α : Type) := Coro DbOp.sig Exn α

def db (op : DbOp) : Call op.Resp := Coro.perform (S := DbOp.sig) op

/-- The request as FastAPI runs it. -/
def prog (lib : AuthLib) (r : WriteRequest) : Call Response := getDbSession db (handle db lib r)

section Run

variable {α : Type} {me : TaskId} {x : DbOutcome} {d : Database}

/-- A request that runs alone, at its next statement. -/
theorem run_db_bind {op : DbOp} {f : op.Resp → Call α} (h : op.blocked x me d = false) :
    (db op >>= f).run (DbOp.exec me) x d =
      match op.answer x (d.view me) with
      | .ok a => (f a).run (DbOp.exec me) x (op.after x me d)
      | .error e => some (.error e, op.after x me d) := by
  rw [db, Coro.run_perform_bind]
  simp only [DbOp.exec, h, Bool.false_eq_true, if_false, Option.bind_some]
  cases op.answer x (d.view me) with
  | ok a => rfl
  | error e => rfl

/-- **Registering is `AuthService.register` on the table of the users**, for a request that runs
alone. -/
theorem run_register {lib : AuthLib} {data : UserRegister} {salt : String} {t : Tables}
    (hok : x.ok = true) :
    ((register db lib data salt).run (DbOp.exec me) x { committed := t, pending := [] }).map
        (fun e => (e.1, (e.2.view me).users)) =
      some (AuthService.register lib data x.uuid salt t.users) := by
  unfold register AuthService.register
  rw [run_db_bind rfl]
  have hanswer : (DbOp.selectUser data.username data.email).answer x
      (Database.view { committed := t, pending := [] } me) =
      scalarOneOrNone (t.users.rows.filter fun u =>
        u.username = data.username || u.email = data.email) := by
    simp [DbOp.answer, DbOp.reply, hok, Database.view, Database.flushed]
  rw [hanswer]
  cases hrows : scalarOneOrNone (t.users.rows.filter fun u =>
      u.username = data.username || u.email = data.email) with
  | error e => rfl
  | ok existing =>
    cases existing with
    | some existing =>
      dsimp only
      by_cases hname : existing.username = data.username
      · rw [if_pos hname, if_pos hname]
        rfl
      · rw [if_neg hname, if_neg hname]
        rfl
    | none =>
      have hnone : (t.users.rows.filter fun u =>
          u.username = data.username || u.email = data.email) = [] := by
        cases hl : t.users.rows.filter fun u =>
            u.username = data.username || u.email = data.email with
        | nil => rfl
        | cons u us =>
          rw [hl] at hrows
          cases us <;> cases hrows
      -- only the id can clash
      have hclash : t.users.rows.any (DbOp.userClash (DbOp.newUser x data.username data.email
          (Security.hashPassword lib salt data.password)
          (some ((data.displayName.filter (· ≠ "")).getD data.username)))) =
          (Users.byId t.users x.uuid).isSome := by
        rw [Bool.eq_iff_iff, List.any_eq_true, Option.isSome_iff_exists]
        constructor
        · rintro ⟨u, hu, hc⟩
          simp only [DbOp.userClash, DbOp.newUser, Bool.or_eq_true] at hc
          have hfresh := List.filter_eq_nil_iff.mp hnone u hu
          simp only [Bool.or_eq_true, decide_eq_true_eq, not_or] at hfresh
          rcases hc with (hid | hname) | hemail
          · cases hfind : Users.byId t.users x.uuid with
            | some u' => exact ⟨u', rfl⟩
            | none =>
              have hne := Table.find?_eq_none.mp hfind u hu
              rw [decide_eq_false_iff_not] at hne
              exact absurd (of_decide_eq_true hid).symm hne
          · exact absurd (of_decide_eq_true hname).symm hfresh.1
          · exact absurd (of_decide_eq_true hemail).symm hfresh.2
        · rintro ⟨u, hu⟩
          obtain ⟨hmem, hid⟩ := Users.byId_eq_some hu
          exact ⟨u, hmem, by simp [DbOp.userClash, DbOp.newUser, hid]⟩
      dsimp only
      rw [run_db_bind rfl]
      simp only [DbOp.after, DbOp.answer, DbOp.reply, DbOp.checkUser, hok, if_true, hclash,
        Database.view, Database.flushed, List.filter_nil, List.map_nil, List.foldl_nil]
      cases hid : (Users.byId t.users x.uuid).isSome with
      | true => rfl
      | false =>
        simp only [Bool.false_eq_true, if_false]
        rw [run_db_bind rfl]
        simp [DbOp.answer, DbOp.reply, DbOp.after, hok, Database.flush, Tables.apply,
          DbOp.newUser, pure]

/-- The database once a session has been closed: `r` is what its request has ended with. -/
def closed (me : TaskId) (d : Database) (r : Except Exn α) : Database :=
  match r with
  | .ok _ => d.commit me
  | .error _ => d.forget me

/-- **A session alone** commits what the request has flushed if it returns, and nothing if it
raises. -/
theorem run_session {body : Call α} {r : Except Exn α} {d' : Database} (hok : x.ok = true)
    (h : body.run (DbOp.exec me) x d = some (r, d')) :
    (getDbSession db body).run (DbOp.exec me) x d =
      some (r, closed me d' r) := by
  have hcommit : ∀ t, DbOp.answer x t .commit = .ok () := fun t => by
    simp [DbOp.answer, DbOp.reply, hok]
  have hafter : DbOp.after x me d' .commit = d'.commit me := by simp [DbOp.after, hok]
  -- there is nothing left to roll back
  have hforget : (d'.commit me).forget me = d'.commit me := by
    simp [Database.commit, Database.forget]
  unfold getDbSession withSession
  rw [Coro.run_bind]
  have hbody : (tryCatchThe Exn (do
        let a ← body
        db .commit
        pure a) fun e => do
        db .rollback
        throw e : Call α).run (DbOp.exec me) x d =
      some (r, closed me d' r) := by
    refine (Coro.run_tryCatch _ _ _).trans ?_
    rw [Coro.run_bind, h]
    cases r with
    | ok a =>
      simp only [Option.bind_some]
      rw [run_db_bind rfl, hcommit, hafter]
      rfl
    | error e =>
      simp only [Option.bind_some]
      rw [run_db_bind rfl]
      rfl
  rw [hbody]
  cases r with
  | ok a =>
    simp only [Option.bind_some]
    rw [run_db_bind rfl]
    simp only [DbOp.answer, DbOp.after, closed, hforget]
    rfl
  | error e => rfl

/-- A request that runs alone and only reads has its answer from its endpoint. -/
theorem run_getDbSession {body : Call α} {r : Except Exn α} {t : Tables} (hok : x.ok = true)
    (h : body.run (DbOp.exec me) x { committed := t, pending := [] } =
      some (r, { committed := t, pending := [] })) :
    (getDbSession db body).run (DbOp.exec me) x { committed := t, pending := [] } =
      some (r, { committed := t, pending := [] }) := by
  rw [run_session hok h]
  cases r <;> rfl

end Run

/-! ## Reads -/

/-- A request that reads. -/
inductive ReadRequest where
  | listRooms (my_rooms : Bool)
  | getRoom (room_id : Uuid)
  | getRoomMembers (room_id : Uuid)
  | getMessages (room_id : Uuid) (limit : Int) (before : Option String)

/-- What `get_room` returns. -/
structure RoomDetail where
  id : String
  name : String
  description : Option String
  isPrivate : Bool
  createdBy : Option String
  createdAt : String
  members : List MemberResponse
  deriving DecidableEq, Repr

inductive ReadResponse where
  | rooms (rooms : List RoomResponse) (total : Nat)
  | room (room : RoomDetail)
  | members (members : List MemberResponse)
  | messages (messages : MessageListResponse)
  deriving DecidableEq, Repr

section

variable {F : Type → Type} [Monad F] [MonadExceptOf Exn F] (lift : (op : DbOp) → F op.Resp)
  (env : Env)

/-- `list_rooms` -/
def listRooms (my_rooms : Bool) (user_id : Uuid) : F ReadResponse := do
  let rooms ← (if my_rooms then RoomService.listUserRooms lift user_id
    else RoomService.listPublicRooms lift)
  pure (.rooms rooms rooms.length)

/-- `get_room` -/
def getRoom (room_id : Uuid) : F ReadResponse := do
  let room ← RoomService.getRoom lift room_id
  let members ← RoomService.getRoomMembers lift env room_id
  pure <| .room {
    id := env.uuidStr room.id
    name := room.name
    description := room.description
    isPrivate := room.isPrivate
    createdBy := room.createdBy.map env.uuidStr
    createdAt := env.isoformat room.createdAt
    members }

/-- `get_room_members` -/
def getRoomMembers (room_id : Uuid) : F ReadResponse := do
  let members ← RoomService.getRoomMembers lift env room_id
  pure (.members members)

/-- `get_messages`; `limit` is declared with `ge=1, le=100`. -/
def getMessages (room_id : Uuid) (limit : Int) (before : Option String) (user_id : Uuid) :
    F ReadResponse := do
  if limit < 1 ∨ 100 < limit then throw (.httpException 422 "Unprocessable Entity")
  else if ← RoomService.isMember lift room_id user_id then do
    let messages ← MessageService.getRoomMessages lift env room_id limit.toNat before
    pure (.messages messages)
  else throw (authorizationError "You must be a member of this room to view messages")

/-- The endpoint of a request of the user. -/
def read (user_id : Uuid) : ReadRequest → F ReadResponse
  | .listRooms my_rooms => listRooms lift my_rooms user_id
  | .getRoom room_id => getRoom lift env room_id
  | .getRoomMembers room_id => getRoomMembers lift env room_id
  | .getMessages room_id limit before => getMessages lift env room_id limit before user_id

end

end Routes

end NexusChat
