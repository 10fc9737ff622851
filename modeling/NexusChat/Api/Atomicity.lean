import NexusChat.Api.Requests

/-!
# All or nothing

What a request writes is pending until `get_db_session` commits it, and a request that anything
fails in does not get there. `Own` is what one request knows of its transaction: what it has
flushed, the memberships it has found and how often it has committed. `Own.safe_prog` says that
each of the four requests commits at most once, and then all of its statements; the rest is that a
commit of all the statements of a request is its complete effect, whatever the other requests have
committed in between.
-/

set_option autoImplicit false

namespace NexusChat

/-! ## The effects -/

/-- The complete effect of a request on the tables. -/
def WriteRequest.Effect (lib : AuthLib) : WriteRequest → Tables → Tables → Prop
  | .register data salt, t, t' => ∃ x : DbOutcome, x.uuid ∉ t.ids ∧
      t' = t.apply (.addUser (DbOp.newUser x data.username data.email
        (Security.hashPassword lib salt data.password)
        (some ((data.displayName.filter (· ≠ "")).getD data.username))))
  | .createRoom data user_id, t, t' => ∃ x y : DbOutcome, x.uuid ∉ t.ids ∧ y.uuid ∉ t.ids ∧
      t' = (t.apply (.addRoom (DbOp.newRoom x data.name data.description data.isPrivate
        user_id))).apply (.addMember (DbOp.newMember y x.uuid user_id .admin))
  | .joinRoom room_id user_id, t, t' => ∃ x : DbOutcome, x.uuid ∉ t.ids ∧
      t' = t.apply (.addMember (DbOp.newMember x room_id user_id .member))
  -- the row may have gone since it was found
  | .leaveRoom room_id user_id, t, t' => t' = t ∨
      ∃ m ∈ t.roomMembers, (m.roomId = room_id ∧ m.userId = user_id) ∧
        t' = t.apply (.deleteMember m.id)

/-- The room is new, and so is a membership that makes its creator an administrator. -/
def Tables.Founds (t t' : Tables) (room : RoomRow) : Prop :=
  room ∉ t.rooms ∧ room ∈ t'.rooms ∧
    ∃ m ∈ t'.roomMembers, m ∉ t.roomMembers ∧ m.roomId = room.id ∧
      room.createdBy = some m.userId ∧ m.role = .admin

/-- **A room that a request adds, it adds together with the membership of its creator.** -/
theorem WriteRequest.Effect.founds {lib : AuthLib} {r : WriteRequest} {t t' : Tables}
    (h : r.Effect lib t t') {room : RoomRow} (hroom : room ∈ t'.rooms) :
    room ∈ t.rooms ∨ t.Founds t' room := by
  cases r with
  | register data salt =>
    obtain ⟨x, -, rfl⟩ := h
    exact .inl hroom
  | createRoom data user_id =>
    obtain ⟨x, y, hx, hy, rfl⟩ := h
    rcases Table.mem_insert hroom with hold | rfl
    · exact .inl hold
    · have hmember : ∀ m ∈ t.roomMembers, m.id ≠ y.uuid := fun m hm he =>
        hy (Tables.mem_ids.mpr (.inr (.inr (.inl ⟨m, hm, he⟩))))
      have hnew : ∀ r ∈ t.rooms, r.id ≠ x.uuid := fun r hr he =>
        hx (Tables.mem_ids.mpr (.inr (.inl ⟨r, hr, he⟩)))
      exact .inr ⟨fun hold => hnew _ hold rfl, hroom, _, Table.mem_insert_self hmember,
        fun hold => hmember _ hold rfl, rfl, rfl, rfl⟩
  | joinRoom room_id user_id =>
    obtain ⟨x, -, rfl⟩ := h
    exact .inl hroom
  | leaveRoom room_id user_id =>
    rcases h with rfl | ⟨m, -, -, rfl⟩
    · exact .inl hroom
    · exact .inl hroom

/-- The requests have been carried out one after the other, each completely. -/
inductive Applied (lib : AuthLib) (t : Tables) : List WriteRequest → Tables → Prop
  | nil : Applied lib t [] t
  | snoc {rs : List WriteRequest} {r : WriteRequest} {t₁ t₂ : Tables} (h : Applied lib t rs t₁)
      (he : r.Effect lib t₁ t₂) : Applied lib t (rs ++ [r]) t₂

/-! ## One transaction -/

/-- What a request has flushed, the memberships it has found, and its commits. -/
structure Own where
  written : List Write
  found : List RoomMemberRow
  commits : Nat

namespace Own

variable {lib : AuthLib} {r : WriteRequest} {o o' : Own}

def add (o : Own) (wr : Write) : Own := { o with written := o.written ++ [wr] }

/-- An operation as its own transaction sees it. -/
def exec : (op : DbOp) → Own → Except Exn op.Resp → Own → Prop
  | .insertUser username email hashed_password display_name, o, res, o' =>
    (∃ x, res = .ok (DbOp.newUser x username email hashed_password display_name) ∧
      o' = o.add (.addUser (DbOp.newUser x username email hashed_password display_name))) ∨
    ((∃ e, res = .error e) ∧ o' = o)
  | .insertRoom name description is_private created_by, o, res, o' =>
    (∃ x, res = .ok (DbOp.newRoom x name description is_private created_by) ∧
      o' = o.add (.addRoom (DbOp.newRoom x name description is_private created_by))) ∨
    ((∃ e, res = .error e) ∧ o' = o)
  | .insertMember room_id user_id role, o, res, o' =>
    (∃ x, res = .ok (DbOp.newMember x room_id user_id role) ∧
      o' = o.add (.addMember (DbOp.newMember x room_id user_id role))) ∨
    ((∃ e, res = .error e) ∧ o' = o)
  | .deleteMember id, o, res, o' =>
    (res = .ok () ∧ o' = o.add (.deleteMember id)) ∨ ((∃ e, res = .error e) ∧ o' = o)
  | .selectMember room_id user_id, o, res, o' =>
    (∃ m, res = .ok (some m) ∧ (m.roomId = room_id ∧ m.userId = user_id) ∧
      o' = { o with found := m :: o.found }) ∨
    ((∀ m, res ≠ .ok (some m)) ∧ o' = o)
  | .commit, o, res, o' =>
    o' = { o with written := [], commits := o.commits + 1 } ∨
    ((∃ e, res = .error e) ∧ o' = { o with written := [] })
  | .rollback, o, res, o' => res = .ok () ∧ o' = { o with written := [] }
  -- no request writes a message
  | .insertMessage _ _ _ _ _, _, _, _ => True
  | _, o, _, o' => o' = o

/-- What has been flushed is everything the request writes. -/
def Complete (lib : AuthLib) : WriteRequest → Own → Prop
  | .register data salt, o => ∃ x, o.written = [.addUser (DbOp.newUser x data.username data.email
      (Security.hashPassword lib salt data.password)
      (some ((data.displayName.filter (· ≠ "")).getD data.username)))]
  | .createRoom data user_id, o => ∃ x y, o.written =
      [.addRoom (DbOp.newRoom x data.name data.description data.isPrivate user_id),
        .addMember (DbOp.newMember y x.uuid user_id .admin)]
  | .joinRoom room_id user_id, o =>
    ∃ x, o.written = [.addMember (DbOp.newMember x room_id user_id .member)]
  | .leaveRoom room_id user_id, o => ∃ m ∈ o.found, (m.roomId = room_id ∧ m.userId = user_id) ∧
      o.written = [.deleteMember m.id]

/-- The first commit is of everything the request writes, and there is no second. -/
def Step (lib : AuthLib) (r : WriteRequest) (o o' : Own) : Prop :=
  o'.commits = o.commits ∨ o.commits = 0 ∧ o'.commits = 1 ∧ Complete lib r o

/-- A request leaves nothing pending, and has committed if it returns. -/
def Ended (res : Except Exn Response) (o : Own) : Prop :=
  o.written = [] ∧ ∀ a, res = .ok a → o.commits = 1

/-- What the endpoint has to do for its session. -/
def Ready (lib : AuthLib) (r : WriteRequest) (res : Except Exn Response) (o : Own) : Prop :=
  o.commits = 0 ∧ ∀ a, res = .ok a → Complete lib r o

/-- **`get_db_session` commits what the endpoint has completed.** -/
theorem safe_getDbSession {body : Routes.Call Response}
    (h : Coro.Safe exec Eq (Step lib r) (Ready lib r) body o) :
    Coro.Safe exec Eq (Step lib r) Ended (getDbSession Routes.db body) o := by
  have hraise : ∀ {Q : Except Exn Response → Own → Prop} {o₁ : Own} {e : Exn},
      Q (.error e) { o₁ with written := [] } → Coro.Safe exec Eq (Step lib r) Q
        (Routes.db .rollback >>= fun _ => (.raise e : Routes.Call Response)) o₁ := by
    intro Q o₁ e hQ
    refine Coro.safe_perform ?_
    rintro _ rfl res o₂ ⟨rfl, rfl⟩
    exact ⟨.inl rfl, hQ⟩
  have hreturn : ∀ {o₁ : Own} {a : Response}, o₁.commits = 1 → Coro.Safe exec Eq (Step lib r) Ended
      (Routes.db .rollback >>= fun _ => (.ret a : Routes.Call Response)) o₁ := by
    intro o₁ a hcommits
    refine Coro.safe_perform ?_
    rintro _ rfl res o₂ ⟨rfl, rfl⟩
    exact ⟨.inl rfl, rfl, fun _ _ => hcommits⟩
  have hended : ∀ {o₁ : Own} {e : Exn}, Ended (.error e) { o₁ with written := [] } :=
    ⟨rfl, fun _ ha => by cases ha⟩
  refine Coro.safe_bind (Coro.safe_tryCatch (Coro.safe_bind (h.mono ?_)))
  rintro (e | a) o₁ ⟨hzero, hcomplete⟩
  · exact hraise hended
  · refine Coro.safe_perform ?_
    rintro _ rfl res o₂ hx
    rcases hx with rfl | ⟨⟨e, rfl⟩, rfl⟩
    · have hone : o₁.commits + 1 = 1 := congrArg (· + 1) hzero
      refine ⟨.inr ⟨hzero, hone, hcomplete a rfl⟩, ?_⟩
      cases res with
      | ok u => exact hreturn hone
      | error e => exact hraise hended
    · exact ⟨.inl rfl, hraise hended⟩

/-- A request that has raised in its endpoint is not going to commit. -/
theorem ready_error {e : Exn} (h : o.commits = 0) : Ready lib r (.error e) o :=
  ⟨h, fun _ ha => by cases ha⟩

/-- The state of a request that starts. -/
def start : Own := { written := [], found := [], commits := 0 }

theorem safe_register {data : UserRegister} {salt : String} :
    Coro.Safe exec Eq (Step lib (.register data salt)) (Ready lib (.register data salt))
      (Routes.handle Routes.db lib (.register data salt)) start := by
  refine Coro.safe_bind (Coro.safe_perform ?_)
  rintro _ rfl res o₁ rfl
  refine ⟨.inl rfl, ?_⟩
  cases res with
  | error e => exact ready_error rfl
  | ok existing =>
    cases existing with
    | some existing =>
      dsimp only
      split <;> exact ready_error rfl
    | none =>
      refine Coro.safe_perform ?_
      rintro _ rfl res o₂ hx
      rcases hx with ⟨x, rfl, rfl⟩ | ⟨⟨e, rfl⟩, rfl⟩
      · refine ⟨.inl rfl, Coro.safe_perform ?_⟩
        rintro _ rfl res o₃ rfl
        refine ⟨.inl rfl, ?_⟩
        cases res with
        | ok u => exact ⟨rfl, fun _ _ => ⟨x, rfl⟩⟩
        | error e => exact ready_error rfl
      · exact ⟨.inl rfl, ready_error rfl⟩

theorem safe_createRoom {data : RoomCreate} {user_id : Uuid} :
    Coro.Safe exec Eq (Step lib (.createRoom data user_id)) (Ready lib (.createRoom data user_id))
      (Routes.handle Routes.db lib (.createRoom data user_id)) start := by
  refine Coro.safe_bind (Coro.safe_perform ?_)
  rintro _ rfl res o₁ hx
  rcases hx with ⟨x, rfl, rfl⟩ | ⟨⟨e, rfl⟩, rfl⟩
  · refine ⟨.inl rfl, Coro.safe_perform ?_⟩
    rintro _ rfl res o₂ hx
    rcases hx with ⟨y, rfl, rfl⟩ | ⟨⟨e, rfl⟩, rfl⟩
    · refine ⟨.inl rfl, Coro.safe_perform ?_⟩
      rintro _ rfl res o₃ rfl
      refine ⟨.inl rfl, ?_⟩
      cases res with
      | ok u => exact ⟨rfl, fun _ _ => ⟨x, y, rfl⟩⟩
      | error e => exact ready_error rfl
    · exact ⟨.inl rfl, ready_error rfl⟩
  · exact ⟨.inl rfl, ready_error rfl⟩

theorem safe_joinRoom {room_id user_id : Uuid} :
    Coro.Safe exec Eq (Step lib (.joinRoom room_id user_id))
      (Ready lib (.joinRoom room_id user_id))
      (Routes.handle Routes.db lib (.joinRoom room_id user_id)) start := by
  refine Coro.safe_bind (Coro.safe_bind (Coro.safe_perform ?_))
  rintro _ rfl res o₁ rfl
  refine ⟨.inl rfl, ?_⟩
  cases res with
  | error e => exact ready_error rfl
  | ok room =>
    cases room with
    | none => exact ready_error rfl
    | some room =>
      refine Coro.safe_perform ?_
      rintro _ rfl res o₂ hx
      rcases hx with ⟨m, rfl, -, rfl⟩ | ⟨hne, rfl⟩
      · exact ⟨.inl rfl, ready_error rfl⟩
      · refine ⟨.inl rfl, ?_⟩
        cases res with
        | error e => exact ready_error rfl
        | ok existing =>
          cases existing with
          | some m => exact absurd rfl (hne m)
          | none =>
            refine Coro.safe_last ?_
            rintro _ rfl res o₃ hx
            rcases hx with ⟨x, rfl, rfl⟩ | ⟨⟨e, rfl⟩, rfl⟩
            · exact ⟨.inl rfl, rfl, fun _ _ => ⟨x, rfl⟩⟩
            · exact ⟨.inl rfl, ready_error rfl⟩

theorem safe_leaveRoom {room_id user_id : Uuid} :
    Coro.Safe exec Eq (Step lib (.leaveRoom room_id user_id))
      (Ready lib (.leaveRoom room_id user_id))
      (Routes.handle Routes.db lib (.leaveRoom room_id user_id)) start := by
  refine Coro.safe_bind (Coro.safe_perform ?_)
  rintro _ rfl res o₁ hx
  rcases hx with ⟨m, rfl, hm, rfl⟩ | ⟨hne, rfl⟩
  · refine ⟨.inl rfl, Coro.safe_last ?_⟩
    rintro _ rfl res o₂ hx
    rcases hx with ⟨rfl, rfl⟩ | ⟨⟨e, rfl⟩, rfl⟩
    · exact ⟨.inl rfl, rfl, fun _ _ => ⟨m, List.mem_cons_self .., hm, rfl⟩⟩
    · exact ⟨.inl rfl, ready_error rfl⟩
  · refine ⟨.inl rfl, ?_⟩
    cases res with
    | error e => exact ready_error rfl
    | ok member =>
      cases member with
      | some m => exact absurd rfl (hne m)
      | none => exact ready_error rfl

/-- **A request commits at most once, and then everything it writes.** -/
theorem safe_prog (r : WriteRequest) :
    Coro.Safe exec Eq (Step lib r) Ended (Routes.prog lib r) start := by
  refine safe_getDbSession ?_
  cases r with
  | register data salt => exact safe_register
  | createRoom data user_id => exact safe_createRoom
  | joinRoom room_id user_id => exact safe_joinRoom
  | leaveRoom room_id user_id => exact safe_leaveRoom

/-! ## The database -/

variable {d d' : Database} {ids : List Uuid} {me : TaskId} {op : DbOp} {x : DbOutcome}
  {res : Except Exn op.Resp}

/-- **An operation on the database is one its own transaction knows of**, and only a commit changes
the committed tables. -/
theorem of_exec (hx : op.exec me x d = some (res, d')) (ho : o.written = d.flushed me) :
    ∃ o', exec op o res o' ∧ o'.written = d'.flushed me ∧
      (∀ m ∈ o'.found, m ∈ o.found ∨ m ∈ (d.view me).roomMembers) ∧
      (o'.commits = o.commits ∧ d'.committed = d.committed ∨
        o'.commits = o.commits + 1 ∧ d' = d.commit me) := by
  obtain ⟨rfl, rfl⟩ := DbOp.exec_eq_some hx
  -- a statement that was not carried out, and one that was
  have hsame : o.written = d.flushed me ∧
      (∀ m ∈ o.found, m ∈ o.found ∨ m ∈ (d.view me).roomMembers) ∧
      (o.commits = o.commits ∧ d.committed = d.committed ∨
        o.commits = o.commits + 1 ∧ d = d.commit me) :=
    ⟨ho, fun _ hm => .inl hm, .inl ⟨rfl, rfl⟩⟩
  have hflush : ∀ wr, (o.add wr).written = (d.flush me wr).flushed me ∧
      (∀ m ∈ (o.add wr).found, m ∈ o.found ∨ m ∈ (d.view me).roomMembers) ∧
      ((o.add wr).commits = o.commits ∧ (d.flush me wr).committed = d.committed ∨
        (o.add wr).commits = o.commits + 1 ∧ d.flush me wr = d.commit me) := fun wr =>
    ⟨by rw [Database.flushed_flush_self, ← ho]; rfl, fun _ hm => .inl hm, .inl ⟨rfl, rfl⟩⟩
  cases op with
  | insertUser username email hashed_password display_name =>
    simp only [DbOp.after]
    cases ha : DbOp.answer x (d.view me) (.insertUser username email hashed_password
      display_name) with
    | ok u =>
      cases DbOp.checkUser_eq_ok (DbOp.answer_eq_ok (by simp) ha).2
      exact ⟨_, .inl ⟨x, rfl, rfl⟩, hflush _⟩
    | error e => exact ⟨o, .inr ⟨⟨e, rfl⟩, rfl⟩, hsame⟩
  | insertRoom name description is_private created_by =>
    simp only [DbOp.after]
    cases ha : DbOp.answer x (d.view me) (.insertRoom name description is_private
      created_by) with
    | ok room =>
      cases DbOp.checkRoom_eq_ok (DbOp.answer_eq_ok (by simp) ha).2
      exact ⟨_, .inl ⟨x, rfl, rfl⟩, hflush _⟩
    | error e => exact ⟨o, .inr ⟨⟨e, rfl⟩, rfl⟩, hsame⟩
  | insertMember room_id user_id role =>
    simp only [DbOp.after]
    cases ha : DbOp.answer x (d.view me) (.insertMember room_id user_id role) with
    | ok m =>
      cases (DbOp.checkMember_eq_ok (DbOp.answer_eq_ok (by simp) ha).2).1
      exact ⟨_, .inl ⟨x, rfl, rfl⟩, hflush _⟩
    | error e => exact ⟨o, .inr ⟨⟨e, rfl⟩, rfl⟩, hsame⟩
  | deleteMember id =>
    simp only [DbOp.after, DbOp.answer]
    split
    · exact ⟨_, .inl ⟨rfl, rfl⟩, hflush _⟩
    · exact ⟨o, .inr ⟨⟨_, rfl⟩, rfl⟩, hsame⟩
  | selectMember room_id user_id =>
    cases ha : DbOp.answer x (d.view me) (.selectMember room_id user_id) with
    | error e => exact ⟨o, .inr ⟨(fun _ he => by cases he), rfl⟩, hsame⟩
    | ok found =>
      cases found with
      | none => exact ⟨o, .inr ⟨(fun _ he => by cases he), rfl⟩, hsame⟩
      | some m =>
        have hreply := (DbOp.answer_eq_ok (by simp) ha).2
        have hfind := Table.find?_eq_some (Except.ok.inj hreply)
        have hp : m.roomId = room_id ∧ m.userId = user_id := by simpa using hfind.2
        refine ⟨_, .inl ⟨m, rfl, hp, rfl⟩, ho, fun m' hm' => ?_, .inl ⟨rfl, rfl⟩⟩
        rcases List.mem_cons.mp hm' with rfl | hold
        · exact .inr hfind.1
        · exact .inl hold
  | commit =>
    simp only [DbOp.after]
    split
    · exact ⟨_, .inl rfl, Database.flushed_commit_self.symm, fun _ hm => .inl hm,
        .inr ⟨rfl, rfl⟩⟩
    · rename_i hnot
      have hok : x.ok = false := by
        cases hx : x.ok
        · rfl
        · exact absurd (by rw [hx]; rfl) hnot
      refine ⟨_, .inr ⟨⟨.dbError, ?_⟩, rfl⟩, Database.flushed_forget_self.symm,
        fun _ hm => .inl hm, .inl ⟨rfl, rfl⟩⟩
      simp [DbOp.answer, hok]
  | rollback =>
    exact ⟨_, ⟨rfl, rfl⟩, Database.flushed_forget_self.symm, fun _ hm => .inl hm,
      .inl ⟨rfl, rfl⟩⟩
  | insertMessage room_id sender_id content message_type key =>
    refine ⟨{ o with written := (DbOp.after x me d (.insertMessage room_id sender_id content
      message_type key)).flushed me }, trivial, rfl, fun _ hm => .inl hm, .inl ⟨rfl, ?_⟩⟩
    simp only [DbOp.after]
    split <;> rfl
  | selectUser | selectUserRooms | selectPublicRooms | countMembers | selectRoomMembers |
    selectRoom | selectMessageByKey | selectMessages | refresh => exact ⟨o, rfl, hsame⟩

/-- **The commit of all statements of a request is its complete effect.** -/
theorem Complete.effect (h : Complete lib r o) (ho : o.written = d.flushed me)
    (hf : d.FreshIds ids) (hfound : ∀ m ∈ o.found, d.Known ids m) :
    r.Effect lib d.committed (d.commit me).committed := by
  have hnew : ∀ wr ∈ o.written, ∀ id, wr.newId = some id → id ∉ d.committed.ids :=
    fun wr hwr id hid => hf.pending _ (Database.mem_flushed.mp (ho ▸ hwr)) id hid
  change r.Effect lib d.committed ((d.flushed me).foldl Tables.apply d.committed)
  rw [← ho]
  cases r with
  | register data salt =>
    obtain ⟨x, hx⟩ := h
    rw [hx] at hnew ⊢
    exact ⟨x, hnew _ (List.mem_cons_self ..) _ rfl, rfl⟩
  | createRoom data user_id =>
    obtain ⟨x, y, hxy⟩ := h
    rw [hxy] at hnew ⊢
    exact ⟨x, y, hnew _ (List.mem_cons_self ..) _ rfl,
      hnew _ (List.mem_cons_of_mem _ (List.mem_cons_self ..)) _ rfl, rfl⟩
  | joinRoom room_id user_id =>
    obtain ⟨x, hx⟩ := h
    rw [hx] at hnew ⊢
    exact ⟨x, hnew _ (List.mem_cons_self ..) _ rfl, rfl⟩
  | leaveRoom room_id user_id =>
    obtain ⟨m, hm, hp, hwritten⟩ := h
    rw [hwritten]
    by_cases hmem : m ∈ d.committed.roomMembers
    · exact .inr ⟨m, hmem, hp, rfl⟩
    · -- no other row has its id
      refine .inl ?_
      have hgone : d.committed.roomMembers.delete (fun m' => m'.id = m.id) =
          d.committed.roomMembers := by
        refine Table.delete_eq_self fun m' hm' => ?_
        rw [decide_eq_false_iff_not]
        intro hid
        exact hmem ((hfound m hm).committed m' hm' hid ▸ hm')
      simp only [List.foldl_cons, List.foldl_nil, Tables.apply, hgone]

end Own

/-! ## Every run -/

namespace RequestPool

variable {lib : AuthLib} {t : Tables} {s s' : RequestPool} {l : Label}
  {done : List (TaskId × WriteRequest)}

/-- The calls `done` have been carried out in this order, and nothing else has. -/
structure Progress (lib : AuthLib) (t : Tables) (s : RequestPool)
    (done : List (TaskId × WriteRequest)) : Prop where
  fresh : s.db.FreshIds s.ids
  idle : ∀ i, s.calls.length ≤ i → s.db.flushed i = []
  once : (done.map Prod.fst).Nodup
  requests : ∀ e ∈ done, ∃ p, s.calls[e.1]? = some (e.2, p)
  applied : Applied lib t (done.map Prod.snd) s.db.committed
  calls : ∀ i r p, s.calls[i]? = some (r, p) → ∃ o : Own, o.written = s.db.flushed i ∧
    (∀ m ∈ o.found, s.db.Known s.ids m) ∧ o.commits = (done.map Prod.fst).count i ∧
    Coro.Safe Own.exec Eq (Own.Step lib r) Own.Ended p o

theorem progress_init : Progress lib t (init t) [] where
  fresh := Database.freshIds_init
  idle := fun _ _ => rfl
  once := .nil
  requests := fun _ h => by cases h
  applied := .nil
  calls := fun _ _ _ h => by cases h

theorem Progress.start (h : Progress lib t s done) (r : WriteRequest) :
    Progress lib t { s with calls := s.calls ++ [(r, Routes.prog lib r)] } done where
  fresh := h.fresh
  idle := idle_start h.idle
  once := h.once
  requests := fun e he => request_start (h.requests e he)
  applied := h.applied
  calls := by
    intro i r' p hi
    rcases getElem?_start hi with hold | ⟨rfl, rfl, rfl⟩
    · exact h.calls i r' p hold
    · refine ⟨Own.start, (h.idle _ (Nat.le_refl _)).symm, (fun _ hm => by cases hm), ?_,
        Own.safe_prog r'⟩
      refine (List.count_eq_zero.mpr fun hmem => ?_).symm
      obtain ⟨e, he, hei⟩ := List.mem_map.mp hmem
      obtain ⟨p, hp⟩ := h.requests e he
      exact absurd hei (Nat.ne_of_lt (List.getElem?_eq_some_iff.mp hp).1)

/-- **A step carries out one request, or none.** -/
theorem Progress.step (h : Progress lib t s done) (hs : step lib s l = some s') :
    (Progress lib t s' done ∧ s'.db.committed = s.db.committed) ∨
    ∃ i x r p, l = .run i x ∧ s.calls[i]? = some (r, p) ∧
      r.Effect lib s.db.committed s'.db.committed ∧ Progress lib t s' (done ++ [(i, r)]) := by
  cases l with
  | start r =>
    cases hs
    exact .inl ⟨h.start r, rfl⟩
  | run i x =>
    obtain ⟨hnew, r, op, k, res, d, hi, hx, rfl⟩ := step_run hs
    obtain ⟨o, ho, hfound, hcount, hsafe⟩ := h.calls i r _ hi
    obtain ⟨o', hexec, ho', hfound', hcommits⟩ := Own.of_exec hx ho
    obtain ⟨hstep, hsafe'⟩ := hsafe o rfl res o' hexec
    -- what does not depend on whether this is a commit
    have hidle := @idle_run s i x r _ (k res) _ _ _ h.idle hi hx
    have hcalls : ∀ done' : List (TaskId × WriteRequest),
        o'.commits = (done'.map Prod.fst).count i →
        (∀ j, j ≠ i → (done'.map Prod.fst).count j = (done.map Prod.fst).count j) →
        ∀ (j : TaskId) (r' : WriteRequest) (p : Routes.Call Response),
        (s.calls.set i (r, k res))[j]? = some (r', p) → ∃ o : Own,
          o.written = d.flushed j ∧ (∀ m ∈ o.found, d.Known (x.uuid :: s.ids) m) ∧
          o.commits = (done'.map Prod.fst).count j ∧
          Coro.Safe Own.exec Eq (Own.Step lib r') Own.Ended p o := by
      intro done' hself hothers j r' p hj
      rcases getElem?_replace hj with ⟨hji, hj⟩ | ⟨rfl, he⟩
      · obtain ⟨o₁, ho₁, hfound₁, hcount₁, hsafe₁⟩ := h.calls j r' p hj
        exact ⟨o₁, ho₁.trans (DbOp.flushed_exec hx hji).symm,
          fun m hm => (hfound₁ m hm).exec hnew hx, hcount₁.trans (hothers j hji).symm, hsafe₁⟩
      · cases he
        refine ⟨o', ho', fun m hm => ?_, hself, hsafe'⟩
        rcases hfound' m hm with hold | hseen
        · exact (hfound m hold).exec hnew hx
        · exact (h.fresh.known_of_view hseen).exec hnew hx
    rcases hcommits with ⟨hsame, hcommitted⟩ | ⟨hmore, rfl⟩
    · refine .inl ⟨⟨h.fresh.exec hnew hx, hidle, h.once, ?_, ?_, ?_⟩, hcommitted⟩
      · intro e he
        exact request_run hi (h.requests e he)
      · exact hcommitted ▸ h.applied
      · exact hcalls done (hsame.trans hcount) fun _ _ => rfl
    · -- the first commit of this call
      obtain ⟨hzero, hone, hcomplete⟩ : o.commits = 0 ∧ o'.commits = 1 ∧
          Own.Complete lib r o := by
        rcases hstep with hsame | hfirst
        · exact absurd (hmore.symm.trans hsame) (Nat.succ_ne_self _)
        · exact hfirst
      have hnot : i ∉ done.map Prod.fst := List.count_eq_zero.mp (hcount.symm.trans hzero)
      have heffect := hcomplete.effect ho h.fresh hfound
      refine .inr ⟨i, x, r, _, rfl, hi, heffect, h.fresh.exec hnew hx, hidle, ?_, ?_, ?_, ?_⟩
      · rw [List.map_append]
        exact List.nodup_append.mpr ⟨h.once, List.nodup_singleton _, by
          rintro j hj _ hmem rfl
          have hji : j = i := List.mem_singleton.mp hmem
          exact hnot (hji ▸ hj)⟩
      · intro e he
        rcases List.mem_append.mp he with he | he
        · exact request_run hi (h.requests e he)
        · cases List.mem_singleton.mp he
          exact request_run hi ⟨_, hi⟩
      · rw [List.map_append]
        exact h.applied.snoc heffect
      · refine hcalls _ ?_ fun j hji => ?_
        · rw [List.map_append, List.count_append, List.count_eq_zero.mpr hnot, hone]
          simp
        · rw [List.map_append, List.count_append]
          simp [Ne.symm hji]

theorem progress_reach (hr : Reach (RequestPool.step lib) Always (init t) s) :
    ∃ done, Progress lib t s done := by
  refine Reach.invariant (I := fun s => ∃ done, Progress lib t s done) ⟨[], progress_init⟩ ?_ hr
  rintro s l s' ⟨done, h⟩ - hs
  rcases h.step hs with ⟨h', -⟩ | ⟨i, x, r, p, -, -, -, h'⟩
  · exact ⟨done, h'⟩
  · exact ⟨_, h'⟩

/-- **A room that is committed was there at the start, or was committed in one step together with
the membership of its creator.** -/
theorem founded_reach (hr : Reach (RequestPool.step lib) Always (init t) s) {room : RoomRow}
    (hroom : room ∈ s.db.committed.rooms) : room ∈ t.rooms ∨
      ∃ s₁ l s₂, Reach (RequestPool.step lib) Always (init t) s₁ ∧
        RequestPool.step lib s₁ l = some s₂ ∧
        s₁.db.committed.Founds s₂.db.committed room := by
  induction hr with
  | init => exact .inl hroom
  | @tail s₁ s₂ l hr _ hs ih =>
    obtain ⟨done, h⟩ := progress_reach hr
    rcases h.step hs with ⟨-, hsame⟩ | ⟨i, x, r, p, -, -, heffect, -⟩
    · exact ih (hsame ▸ hroom)
    · rcases heffect.founds hroom with hold | hfounds
      · exact ih hold
      · exact .inr ⟨s₁, l, s₂, hr, hs, hfounds⟩

/-- **All or nothing**: in every run the committed tables are those of the start with some of the
requests carried out, each once and completely, all that have returned among them; a step carries
out one request or none; and a room is committed together with the membership of its creator. -/
theorem all_or_nothing (hr : Reach (RequestPool.step lib) Always (init t) s) :
    (∃ done : List (TaskId × WriteRequest), (done.map Prod.fst).Nodup ∧
      (∀ e ∈ done, ∃ p, s.calls[e.1]? = some (e.2, p)) ∧
      Applied lib t (done.map Prod.snd) s.db.committed ∧
      ∀ i r, (∀ a, s.calls[i]? = some (r, .ret a) → (i, r) ∈ done ∧ s.db.flushed i = []) ∧
        ∀ e, s.calls[i]? = some (r, .raise e) → s.db.flushed i = []) ∧
    (∀ l s', RequestPool.step lib s l = some s' → s'.db.committed = s.db.committed ∨
      ∃ i x r p, l = .run i x ∧ s.calls[i]? = some (r, p) ∧
        r.Effect lib s.db.committed s'.db.committed) ∧
    ∀ room ∈ s.db.committed.rooms, room ∈ t.rooms ∨
      ∃ s₁ l s₂, Reach (RequestPool.step lib) Always (init t) s₁ ∧
        RequestPool.step lib s₁ l = some s₂ ∧
        s₁.db.committed.Founds s₂.db.committed room := by
  obtain ⟨done, h⟩ := progress_reach hr
  refine ⟨⟨done, h.once, h.requests, h.applied, fun i r => ⟨fun a hi => ?_, fun e hi => ?_⟩⟩, ?_,
    fun room hroom => founded_reach hr hroom⟩
  · obtain ⟨o, ho, -, hcount, hended⟩ := h.calls i r _ hi
    refine ⟨?_, ho ▸ hended.1⟩
    have hmem : i ∈ done.map Prod.fst := by
      refine List.count_pos_iff.mp ?_
      rw [← hcount, hended.2 a rfl]
      exact Nat.one_pos
    obtain ⟨⟨j, r'⟩, he, rfl⟩ := List.mem_map.mp hmem
    obtain ⟨p, hp⟩ := h.requests _ he
    have hsame : r' = r := (Prod.mk.inj (Option.some.inj (hp.symm.trans hi))).1
    exact hsame ▸ he
  · obtain ⟨o, ho, -, -, hended⟩ := h.calls i r _ hi
    exact ho ▸ hended.1
  · intro l s' hs
    rcases h.step hs with ⟨-, hsame⟩ | ⟨i, x, r, p, hl, hi, heffect, -⟩
    · exact .inl hsame
    · exact .inr ⟨i, x, r, p, hl, hi, heffect⟩

/-! ### Two rooms, one of which fails -/

namespace Sample

def outcome (ok : Bool) (id : Uuid) : DbOutcome where
  ok := ok
  executed := false
  now := Env.newYear
  uuid := id
  ties := .stable

/-- User 1 creates two rooms; in the second request the membership is not flushed. -/
def createsTwo : List Label :=
  .start (.createRoom ⟨"first", none, false⟩ 1) :: .start (.createRoom ⟨"second", none, false⟩ 1) ::
    ([(0, true), (1, true), (1, false), (0, true), (1, true), (0, true), (0, true)].zipIdx.map
      fun ((i, ok), n) => .run i (outcome ok (10 + n)))

end Sample

open RequestPool.Sample in
/-- One room is committed, with its membership. -/
theorem all_or_nothing_two : ∃ s : RequestPool,
    Reach (RequestPool.step Security.Sample.plain) Always (init .sample) s ∧
    s.db.committed.rooms.rows.length = 3 ∧ s.db.committed.roomMembers.rows.length = 2 ∧
    s.db.pending = [] ∧ ∀ room ∈ s.db.committed.rooms, room ∈ Tables.sample.rooms ∨
      ∃ s₁ l s₂, Reach (RequestPool.step Security.Sample.plain) Always (init .sample) s₁ ∧
        RequestPool.step Security.Sample.plain s₁ l = some s₂ ∧
        s₁.db.committed.Founds s₂.db.committed room := by
  have hrun : ((replay (RequestPool.step Security.Sample.plain) createsTwo (init .sample)).any
      fun s => s.db.committed.rooms.rows.length = 3 ∧
        s.db.committed.roomMembers.rows.length = 2 ∧ s.db.pending = []) = true := by
    decide +kernel
  obtain ⟨s, hs, hcounts⟩ := (Option.any_eq_true _ _).mp hrun
  have hr := Reach.of_replay .init hs
  obtain ⟨hrooms, hmembers, hpending⟩ := of_decide_eq_true hcounts
  exact ⟨s, hr, hrooms, hmembers, hpending, (all_or_nothing hr).2.2⟩

end RequestPool

end NexusChat
