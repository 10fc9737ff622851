import NexusChat.Api.Memberships
import NexusChat.Api.Privacy

/-!
# Rooms and memberships, one call after the other

`create_room`, `join_room` and `leave_room`, each in the session `get_db_session` gives it, with
nobody else at the database. Every statement of a call has an outcome of its own, so a row gets any
id and any time. `safe_call` says once what a call that returns has done to the tables
(`RoomCall.Does`); a call that reports a conflict or a missing row has done nothing. A `History` is
a run of such calls, and it keeps the keys of the tables (`Does.valid`).
-/

set_option autoImplicit false

namespace NexusChat

open Routes

inductive RoomCall where
  | create (data : RoomCreate) (user_id : Uuid)
  | join (room_id user_id : Uuid)
  | leave (room_id user_id : Uuid)

namespace RoomCall

def request : RoomCall → WriteRequest
  | .create data user_id => .createRoom data user_id
  | .join room_id user_id => .joinRoom room_id user_id
  | .leave room_id user_id => .leaveRoom room_id user_id

/-- What a call that returns has found in the tables and has made of them. -/
def Does (t : Tables) : RoomCall → Response → Tables → Prop
  | .create data user_id, out, t' => ∃ x y : DbOutcome,
      out = .room (.ofRow (DbOp.newRoom x data.name data.description data.isPrivate user_id) 1) ∧
      (∃ u ∈ t.users, u.id = user_id) ∧ (∀ r ∈ t.rooms, r.id ≠ x.uuid) ∧
      (∀ m ∈ t.roomMembers, m.id ≠ y.uuid) ∧
      t' = (t.apply (.addRoom (DbOp.newRoom x data.name data.description data.isPrivate
        user_id))).apply (.addMember (DbOp.newMember y x.uuid user_id .admin))
  | .join room_id user_id, _, t' => ∃ x : DbOutcome, (∃ u ∈ t.users, u.id = user_id) ∧
      (∃ r ∈ t.rooms, r.id = room_id) ∧ (∀ m ∈ t.roomMembers, m.id ≠ x.uuid) ∧
      ¬t.IsMember room_id user_id ∧
      t' = t.apply (.addMember (DbOp.newMember x room_id user_id .member))
  | .leave room_id user_id, _, t' => ∃ m ∈ t.roomMembers,
      (m.roomId = room_id ∧ m.userId = user_id) ∧ t' = t.apply (.deleteMember m.id)

end RoomCall

/-- One statement, with any outcome. -/
def Answers (me : TaskId) (op : DbOp) (d : Database) (res : Except Exn op.Resp) (d' : Database) :
    Prop :=
  ∃ x, op.exec me x d = some (res, d')

/-- A request from start to end, with nobody else at the database. -/
def Executed (lib : AuthLib) (r : WriteRequest) (t : Tables) (out : Except Exn Response)
    (t' : Tables) : Prop :=
  ∃ me, Coro.Runs (Answers me) Eq (prog lib r) { committed := t, pending := [] } out
    { committed := t', pending := [] }

/-- The call returns, or reports a `ConflictError` or a `NotFoundError`. -/
def Reported (out : Except Exn Response) : Prop :=
  (∃ a, out = .ok a) ∨ (∃ detail, out = .error (conflictError detail)) ∨
    ∃ resource, out = .error (notFoundError resource)

/-- A call in a history, with the tables before and after it. -/
structure Entry where
  before : Tables
  call : RoomCall
  out : Except Exn Response
  after : Tables

/-- The calls that have been carried out, one after the other. -/
inductive History (lib : AuthLib) (t : Tables) : List Entry → Tables → Prop
  | nil : History lib t [] t
  | snoc {es : List Entry} {call : RoomCall} {out : Except Exn Response} {t₁ t₂ : Tables}
      (h : History lib t es t₁) (hrun : Executed lib call.request t₁ out t₂)
      (hout : Reported out) : History lib t (es ++ [⟨t₁, call, out, t₂⟩]) t₂

/-! ## One transaction -/

/-- The database while the transaction is the only one, and has flushed the statements. -/
def Database.within (me : TaskId) (t : Tables) (ws : List Write) : Database :=
  { committed := t, pending := ws.map fun w => (me, w) }

namespace Database

variable {me : TaskId} {t : Tables} {ws : List Write}

theorem flushed_within : (within me t ws).flushed me = ws := by
  have hall : (ws.map fun w => (me, w)).filter (fun e => decide (e.1 = me)) =
      ws.map fun w => (me, w) := by
    rw [List.filter_eq_self]
    intro e he
    obtain ⟨w, -, rfl⟩ := List.mem_map.mp he
    exact decide_eq_true rfl
  rw [flushed, within, hall, List.map_map]
  exact List.map_id ws

theorem view_within : (within me t ws).view me = ws.foldl Tables.apply t := by
  rw [view, flushed_within]
  rfl

theorem others_within : (within me t ws).others me = [] := by
  have hnone : (ws.map fun w => (me, w)).filter (fun e => decide (e.1 ≠ me)) = [] := by
    rw [List.filter_eq_nil_iff]
    intro e he
    obtain ⟨w, -, rfl⟩ := List.mem_map.mp he
    simp
  rw [others, within, hnone]
  rfl

theorem flush_within {w : Write} : (within me t ws).flush me w = within me t (ws ++ [w]) := by
  simp [flush, within]

theorem forget_within : (within me t ws).forget me = within me t [] := by
  have h : (within me t ws).others me = [] := others_within
  rw [others, List.map_eq_nil_iff] at h
  rw [forget, h]
  rfl

theorem commit_within : (within me t ws).commit me = within me (ws.foldl Tables.apply t) [] := by
  rw [commit, view_within, forget_within]
  rfl

end Database

namespace DbOp

theorem checkRoom_iff {t : Tables} {r r' : RoomRow} (h : checkRoom t r = .ok r') :
    r' = r ∧ (∃ u ∈ t.users, some u.id = r.createdBy) ∧ ∀ other ∈ t.rooms, other.id ≠ r.id := by
  have heq := checkRoom_eq_ok h
  unfold checkRoom at h
  split at h
  · cases h
  · rename_i huser
    split at h
    · cases h
    · rename_i hroom
      obtain ⟨u, hu⟩ := Option.ne_none_iff_exists'.mp (by simpa using huser)
      obtain ⟨hmem, hid⟩ := Table.find?_eq_some hu
      refine ⟨heq, ⟨u, hmem, of_decide_eq_true hid⟩, fun other hother hsame => hroom ?_⟩
      exact List.any_eq_true.mpr ⟨other, hother, decide_eq_true hsame⟩

theorem checkMember_iff {t : Tables} {m m' : RoomMemberRow} (h : checkMember t m = .ok m') :
    m' = m ∧ (∃ u ∈ t.users, u.id = m.userId) ∧ (∃ r ∈ t.rooms, r.id = m.roomId) ∧
      (∀ other ∈ t.roomMembers, other.id ≠ m.id) ∧ ¬t.IsMember m.roomId m.userId := by
  obtain ⟨heq, hclash⟩ := checkMember_eq_ok h
  unfold checkMember at h
  split at h
  · cases h
  · rename_i huser
    split at h
    · cases h
    · rename_i hroom
      obtain ⟨u, hu⟩ := Option.ne_none_iff_exists'.mp (by simpa using huser)
      obtain ⟨r, hr⟩ := Option.ne_none_iff_exists'.mp (by simpa using hroom)
      obtain ⟨humem, huid⟩ := Table.find?_eq_some hu
      obtain ⟨hrmem, hrid⟩ := Table.find?_eq_some hr
      refine ⟨heq, ⟨u, humem, of_decide_eq_true huid⟩, ⟨r, hrmem, of_decide_eq_true hrid⟩,
        fun other hother hid => ?_, ?_⟩
      · have hno := hclash other hother
        simp [memberClash, hid] at hno
      · rintro ⟨other, hother, hroom, huser⟩
        have hno := hclash other hother
        simp [memberClash, hroom, huser] at hno

end DbOp

section Statements

open Database DbOp

variable {me : TaskId} {t : Tables} {ws : List Write} {d' : Database}

theorem answers_within {op : DbOp} {res : Except Exn op.Resp}
    (h : Answers me op (within me t ws) res d') :
    ∃ x, res = op.answer x (ws.foldl Tables.apply t) ∧ d' = op.after x me (within me t ws) := by
  obtain ⟨x, hx⟩ := h
  unfold exec at hx
  split at hx
  · cases hx
  · cases hx
    exact ⟨x, by rw [view_within], rfl⟩

/-- A statement that only reads. -/
theorem answers_read {op : DbOp} {res : Except Exn op.Resp} (hop : op ≠ .rollback)
    (hafter : ∀ x d, op.after x me d = d) (h : Answers me op (within me t ws) res d') :
    d' = within me t ws ∧
      ∀ a, res = .ok a → ∃ x, op.reply x (ws.foldl Tables.apply t) = .ok a := by
  obtain ⟨x, rfl, rfl⟩ := answers_within h
  exact ⟨hafter x _, fun a ha => ⟨x, (answer_eq_ok hop ha).2⟩⟩

theorem answers_insertRoom {name : String} {description : Option String} {is_private : Bool}
    {user_id : Uuid} {res : Except Exn RoomRow}
    (h : Answers me (.insertRoom name description is_private user_id) (within me t ws) res d') :
    (∀ e, res = .error e → d' = within me t ws) ∧ ∀ r, res = .ok r →
      d' = within me t (ws ++ [.addRoom r]) ∧ ∃ x, r = newRoom x name description is_private user_id ∧
        (∃ u ∈ (ws.foldl Tables.apply t).users, u.id = user_id) ∧
        ∀ other ∈ (ws.foldl Tables.apply t).rooms, other.id ≠ x.uuid := by
  obtain ⟨x, rfl, rfl⟩ := answers_within h
  refine ⟨fun e he => ?_, fun r hr => ?_⟩
  · simp only [after, view_within, he]
  · obtain ⟨rfl, ⟨u, hu, hid⟩, hnew⟩ := checkRoom_iff (answer_eq_ok (by simp) hr).2
    simp only [after, view_within, hr, flush_within]
    exact ⟨trivial, x, rfl, ⟨u, hu, Option.some.inj hid⟩, hnew⟩

theorem answers_insertMember {room_id user_id : Uuid} {role : RoomRole}
    {res : Except Exn RoomMemberRow}
    (h : Answers me (.insertMember room_id user_id role) (within me t ws) res d') :
    (∀ e, res = .error e → d' = within me t ws) ∧ ∀ m, res = .ok m →
      d' = within me t (ws ++ [.addMember m]) ∧ ∃ x, m = newMember x room_id user_id role ∧
        (∃ u ∈ (ws.foldl Tables.apply t).users, u.id = user_id) ∧
        (∃ r ∈ (ws.foldl Tables.apply t).rooms, r.id = room_id) ∧
        (∀ other ∈ (ws.foldl Tables.apply t).roomMembers, other.id ≠ x.uuid) ∧
        ¬(ws.foldl Tables.apply t).IsMember room_id user_id := by
  obtain ⟨x, rfl, rfl⟩ := answers_within h
  refine ⟨fun e he => ?_, fun m hm => ?_⟩
  · simp only [after, view_within, he]
  · obtain ⟨rfl, huser, hroom, hnew, hmember⟩ := checkMember_iff (answer_eq_ok (by simp) hm).2
    simp only [after, view_within, hm, flush_within]
    exact ⟨trivial, x, rfl, huser, hroom, hnew, hmember⟩

theorem answers_deleteMember {id : Uuid} {res : Except Exn Unit}
    (h : Answers me (.deleteMember id) (within me t ws) res d') :
    (∀ e, res = .error e → d' = within me t ws) ∧
      (res = .ok () → d' = within me t (ws ++ [.deleteMember id])) := by
  obtain ⟨x, rfl, rfl⟩ := answers_within h
  simp only [answer, after, reply]
  cases x.ok with
  | true => exact ⟨fun _ he => (by cases he), fun _ => flush_within⟩
  | false => exact ⟨fun _ _ => rfl, fun he => (by cases he)⟩

theorem answers_commit {res : Except Exn Unit} (h : Answers me .commit (within me t ws) res d') :
    (res = .ok () ∧ d' = within me (ws.foldl Tables.apply t) []) ∨
      (res = .error .dbError ∧ ∃ t', d' = within me t' []) := by
  obtain ⟨x, rfl, rfl⟩ := answers_within h
  simp only [answer, after, reply, commit_within, forget_within]
  cases x.ok with
  | true => exact .inl ⟨rfl, rfl⟩
  | false =>
    cases x.executed with
    | true => exact .inr ⟨rfl, _, rfl⟩
    | false => exact .inr ⟨rfl, _, rfl⟩

theorem answers_rollback {res : Except Exn Unit}
    (h : Answers me .rollback (within me t ws) res d') : res = .ok () ∧ d' = within me t [] := by
  obtain ⟨x, rfl, rfl⟩ := answers_within h
  exact ⟨rfl, forget_within⟩

end Statements

/-! ## One call -/

section Calls

open Database

variable {lib : AuthLib} {me : TaskId} {t : Tables}

/-- The end of a transaction: nothing is pending, and a request that has returned has made of the
tables what it says. -/
structure Closed (me : TaskId) (t : Tables) (φ : Response → Tables → Prop)
    (out : Except Exn Response) (d : Database) : Prop where
  idle : ∃ t', d = within me t' []
  returned : ∀ a, out = .ok a → φ a d.committed
  raised : ∀ e, out = .error e → e = .dbError ∨ d.committed = t

/-- What the endpoint has to leave for its session. -/
def Open (me : TaskId) (t : Tables) (φ : Response → Tables → Prop) (out : Except Exn Response)
    (d : Database) : Prop :=
  ∃ ws, d = within me t ws ∧ ∀ a, out = .ok a → φ a (ws.foldl Tables.apply t)

def Free (_ _ : Database) : Prop := True

/-- **`get_db_session` commits what a request that returns has flushed, and nothing else.** -/
theorem safe_session {φ : Response → Tables → Prop} {body : Call Response}
    (h : Coro.Safe (Answers me) Eq Free (Open me t φ) body (within me t [])) :
    Coro.Safe (Answers me) Eq Free (Closed me t φ) (getDbSession db body) (within me t []) := by
  have hraise : ∀ {Q : Except Exn Response → Database → Prop} {t₁ : Tables} {ws : List Write}
      {e : Exn}, Q (.error e) (within me t₁ []) → Coro.Safe (Answers me) Eq Free Q
        (db .rollback >>= fun _ => (.raise e : Call Response)) (within me t₁ ws) := by
    intro Q t₁ ws e hQ
    refine Coro.safe_perform ?_
    rintro _ rfl res d h
    obtain ⟨rfl, rfl⟩ := answers_rollback h
    exact ⟨trivial, hQ⟩
  have hreturn : ∀ {t₁ : Tables} {a : Response}, φ a t₁ → Coro.Safe (Answers me) Eq Free
      (Closed me t φ) (db .rollback >>= fun _ => (.ret a : Call Response)) (within me t₁ []) := by
    intro t₁ a ha
    refine Coro.safe_perform ?_
    rintro _ rfl res d h
    obtain ⟨rfl, rfl⟩ := answers_rollback h
    refine ⟨trivial, ⟨t₁, rfl⟩, fun b hb => ?_, fun e he => nomatch he⟩
    cases hb
    exact ha
  refine Coro.safe_bind (Coro.safe_tryCatch (Coro.safe_bind (h.mono ?_)))
  rintro (e | a) _ ⟨ws, rfl, hφ⟩
  · exact hraise ⟨⟨t, rfl⟩, fun a ha => (nomatch ha), fun _ _ => .inr rfl⟩
  · refine Coro.safe_perform ?_
    rintro _ rfl res d h
    rcases answers_commit h with ⟨rfl, rfl⟩ | ⟨rfl, t', rfl⟩
    · exact ⟨trivial, hreturn (hφ a rfl)⟩
    · refine ⟨trivial, hraise ⟨⟨t', rfl⟩, fun a ha => (nomatch ha), fun e he => ?_⟩⟩
      cases he
      exact .inl rfl

/-- A request that raises in its endpoint. -/
theorem open_error {φ : Response → Tables → Prop} {ws : List Write} {e : Exn} :
    Open me t φ (.error e) (within me t ws) := ⟨ws, rfl, fun _ ha => nomatch ha⟩

theorem safe_create {data : RoomCreate} {user_id : Uuid} :
    Coro.Safe (Answers me) Eq Free (Open me t (RoomCall.Does t (.create data user_id)))
      (handle db lib (.createRoom data user_id)) (within me t []) := by
  refine Coro.safe_bind (Coro.safe_perform ?_)
  rintro _ rfl res d₁ h
  obtain ⟨hfail, hdone⟩ := answers_insertRoom h
  refine ⟨trivial, ?_⟩
  cases res with
  | error e => exact hfail e rfl ▸ open_error
  | ok room =>
    obtain ⟨rfl, x, rfl, huser, hroom⟩ := hdone _ rfl
    refine Coro.safe_perform ?_
    rintro _ rfl res d₂ h
    obtain ⟨hfail, hdone⟩ := answers_insertMember h
    refine ⟨trivial, ?_⟩
    cases res with
    | error e => exact hfail e rfl ▸ open_error
    | ok m =>
      obtain ⟨rfl, y, rfl, -, -, hmember, -⟩ := hdone _ rfl
      refine Coro.safe_perform ?_
      rintro _ rfl res d₃ h
      obtain ⟨rfl, -⟩ := answers_read (by simp) (fun _ _ => rfl) h
      refine ⟨trivial, ?_⟩
      cases res with
      | error e => exact open_error
      | ok u =>
        refine ⟨_, rfl, fun a ha => ?_⟩
        cases ha
        exact ⟨x, y, rfl, huser, hroom, hmember, rfl⟩

theorem safe_join {room_id user_id : Uuid} :
    Coro.Safe (Answers me) Eq Free (Open me t (RoomCall.Does t (.join room_id user_id)))
      (handle db lib (.joinRoom room_id user_id)) (within me t []) := by
  refine Coro.safe_bind (Coro.safe_bind (Coro.safe_perform ?_))
  rintro _ rfl res d₁ h
  obtain ⟨rfl, -⟩ := answers_read (by simp) (fun _ _ => rfl) h
  refine ⟨trivial, ?_⟩
  cases res with
  | error e => exact open_error
  | ok room =>
    cases room with
    | none => exact open_error
    | some room =>
      refine Coro.safe_perform ?_
      rintro _ rfl res d₂ h
      obtain ⟨rfl, -⟩ := answers_read (by simp) (fun _ _ => rfl) h
      refine ⟨trivial, ?_⟩
      cases res with
      | error e => exact open_error
      | ok existing =>
        cases existing with
        | some m => exact open_error
        | none =>
          refine Coro.safe_last ?_
          rintro _ rfl res d₃ h
          obtain ⟨hfail, hdone⟩ := answers_insertMember h
          refine ⟨trivial, ?_⟩
          cases res with
          | error e => exact hfail e rfl ▸ open_error
          | ok m =>
            obtain ⟨rfl, x, rfl, huser, hroom, hnew, hmember⟩ := hdone _ rfl
            exact ⟨_, rfl, fun _ _ => ⟨x, huser, hroom, hnew, hmember, rfl⟩⟩

theorem safe_leave {room_id user_id : Uuid} :
    Coro.Safe (Answers me) Eq Free (Open me t (RoomCall.Does t (.leave room_id user_id)))
      (handle db lib (.leaveRoom room_id user_id)) (within me t []) := by
  refine Coro.safe_bind (Coro.safe_perform ?_)
  rintro _ rfl res d₁ h
  obtain ⟨rfl, hfound⟩ := answers_read (by simp) (fun _ _ => rfl) h
  refine ⟨trivial, ?_⟩
  cases res with
  | error e => exact open_error
  | ok member =>
    cases member with
    | none => exact open_error
    | some m =>
      obtain ⟨x, hx⟩ := hfound _ rfl
      obtain ⟨hmem, hp⟩ := Table.find?_eq_some (Except.ok.inj hx)
      simp only [Bool.and_eq_true, decide_eq_true_eq] at hp
      refine Coro.safe_last ?_
      rintro _ rfl res d₂ h
      obtain ⟨hfail, hdone⟩ := answers_deleteMember h
      refine ⟨trivial, ?_⟩
      cases res with
      | error e => exact hfail e rfl ▸ open_error
      | ok u =>
        obtain rfl := hdone rfl
        exact ⟨_, rfl, fun _ _ => ⟨m, hmem, hp, rfl⟩⟩

theorem safe_call (call : RoomCall) : Coro.Safe (Answers me) Eq Free (Closed me t (call.Does t))
    (prog lib call.request) (within me t []) := by
  refine safe_session ?_
  cases call with
  | create data user_id => exact safe_create
  | join room_id user_id => exact safe_join
  | leave room_id user_id => exact safe_leave

/-- Nothing is pending when a call has come to its end. -/
theorem executed_of_runs {call : RoomCall} {out : Except Exn Response} {d : Database}
    (h : Coro.Runs (Answers me) Eq (prog lib call.request) { committed := t, pending := [] } out d) :
    Executed lib call.request t out d.committed := by
  have hclosed : Closed me t (call.Does t) out d := (safe_call call).of_runs h
  obtain ⟨t', rfl⟩ := hclosed.idle
  exact ⟨me, h⟩

/-- **What a call does**: if it returns it has done what it says, and if it reports a conflict or a
missing row it has done nothing. -/
theorem executed_call {call : RoomCall} {out : Except Exn Response} {t' : Tables}
    (h : Executed lib call.request t out t') (hout : Reported out) :
    (∃ a, out = .ok a ∧ call.Does t a t') ∨ t' = t := by
  obtain ⟨me, hruns⟩ := h
  have hclosed := (safe_call call).of_runs hruns
  rcases hout with ⟨a, rfl⟩ | ⟨detail, rfl⟩ | ⟨resource, rfl⟩
  · exact .inl ⟨a, rfl, hclosed.returned a rfl⟩
  · exact .inr ((hclosed.raised _ rfl).resolve_left nofun)
  · exact .inr ((hclosed.raised _ rfl).resolve_left nofun)

end Calls

/-! ## Histories -/

section Keys

variable {t t' : Tables}

theorem valid_addRoom (h : t.Valid) {r : RoomRow}
    (hcreator : ∀ id, r.createdBy = some id → ∃ u ∈ t.users, u.id = id) :
    (t.apply (.addRoom r)).Valid where
  creators := by
    intro r' hr'
    rcases Table.mem_insert hr' with hold | rfl
    · exact h.creators r' hold
    · exact hcreator
  memberUsers := h.memberUsers
  memberRooms := fun m hm => by
    obtain ⟨r', hr', hid⟩ := h.memberRooms m hm
    exact ⟨r', Table.mem_insert_of_mem hr', hid⟩
  members := h.members
  senders := h.senders
  messageRooms := fun m hm => by
    obtain ⟨r', hr', hid⟩ := h.messageRooms m hm
    exact ⟨r', Table.mem_insert_of_mem hr', hid⟩

theorem valid_deleteMember (h : t.Valid) {id : Uuid} : (t.apply (.deleteMember id)).Valid where
  creators := h.creators
  memberUsers := fun m hm => h.memberUsers m (Table.mem_delete.mp hm).1
  memberRooms := fun m hm => h.memberRooms m (Table.mem_delete.mp hm).1
  members := fun m hm m' hm' => h.members m (Table.mem_delete.mp hm).1 m' (Table.mem_delete.mp hm').1
  senders := h.senders
  messageRooms := h.messageRooms

/-- **A call keeps the keys.** -/
theorem RoomCall.Does.valid {call : RoomCall} {a : Response} (hvalid : t.Valid)
    (h : call.Does t a t') : t'.Valid := by
  cases call with
  | create data user_id =>
    obtain ⟨x, y, -, huser, hroom, hmember, rfl⟩ := h
    have hrooms := valid_addRoom hvalid
      (r := DbOp.newRoom x data.name data.description data.isPrivate user_id) fun id hid =>
        Option.some.inj hid ▸ huser
    refine valid_entered hrooms huser ⟨_, Table.mem_insert_self hroom, rfl⟩ fun m hm hsame => ?_
    -- nobody can be a member of a room that has only just been added
    obtain ⟨r, hr, hid⟩ := hvalid.memberRooms m hm
    exact absurd (hid.trans hsame) (hroom r hr)
  | join room_id user_id =>
    obtain ⟨x, huser, hroom, hnew, hmember, rfl⟩ := h
    exact valid_entered hvalid huser hroom fun m hm hr hu => hmember ⟨m, hm, hr, hu⟩
  | leave room_id user_id =>
    obtain ⟨m, -, -, rfl⟩ := h
    exact valid_deleteMember hvalid

/-- A call adds no user. -/
theorem RoomCall.Does.users {call : RoomCall} {a : Response} (h : call.Does t a t') :
    t'.users = t.users := by
  cases call with
  | create data user_id =>
    obtain ⟨x, y, -, -, -, -, rfl⟩ := h
    rfl
  | join room_id user_id =>
    obtain ⟨x, -, -, -, -, rfl⟩ := h
    rfl
  | leave room_id user_id =>
    obtain ⟨m, -, -, rfl⟩ := h
    rfl

end Keys

/-! ## Administrators -/

/-- The membership was added by a `create_room` of the user, together with its room. -/
def MadeByCreate (es : List Entry) (m : RoomMemberRow) : Prop :=
  ∃ e ∈ es, ∃ data room, e.call = .create data m.userId ∧ e.out = .ok (.room room) ∧
    room.id = m.roomId ∧ room.createdBy = some m.userId ∧ m ∉ e.before.roomMembers ∧
    m ∈ e.after.roomMembers

section Runs

variable {lib : AuthLib} {t t' : Tables} {es : List Entry}

/-- A membership after a call was there before, is an ordinary one, or is the creator's. -/
theorem RoomCall.Does.admin {call : RoomCall} {a : Response} (h : call.Does t a t')
    {m : RoomMemberRow} (hm : m ∈ t'.roomMembers) (hadmin : m.role = .admin) :
    m ∈ t.roomMembers ∨ MadeByCreate [⟨t, call, .ok a, t'⟩] m := by
  cases call with
  | create data user_id =>
    obtain ⟨x, y, rfl, -, -, hmember, rfl⟩ := h
    rcases Table.mem_insert hm with hold | rfl
    · exact .inl hold
    · refine .inr ⟨_, List.mem_singleton_self _, data, _, rfl, rfl, rfl, rfl, fun hold => ?_, hm⟩
      exact hmember _ hold rfl
  | join room_id user_id =>
    obtain ⟨x, -, -, -, -, rfl⟩ := h
    rcases Table.mem_insert hm with hold | rfl
    · exact .inl hold
    · cases hadmin
  | leave room_id user_id =>
    obtain ⟨m', -, -, rfl⟩ := h
    exact .inl (Table.mem_delete.mp hm).1

/-- The users of the service, and nothing else. -/
def Tables.withUsers (users : Table User User.id) : Tables := { Tables.init with users }

theorem valid_withUsers {users : Table User User.id} : (Tables.withUsers users).Valid where
  creators := fun _ hr => (nomatch hr)
  memberUsers := fun _ hm => (nomatch hm)
  memberRooms := fun _ hm => (nomatch hm)
  members := fun _ hm => (nomatch hm)
  senders := fun _ hm => (nomatch hm)
  messageRooms := fun _ hm => (nomatch hm)

/-- **The invariants of a history**: the keys hold, and every administrator is the creator of a
room, in the membership that came with the room. -/
theorem History.invariants {users : Table User User.id}
    (h : History lib (.withUsers users) es t) : t.Valid ∧ t.users = users ∧
      ∀ m ∈ t.roomMembers, m.role = .admin → MadeByCreate es m := by
  induction h with
  | nil => exact ⟨valid_withUsers, rfl, fun m hm => (nomatch hm)⟩
  | @snoc es call out t₁ t₂ _ hrun hout ih =>
    obtain ⟨hvalid, husers, hadmins⟩ := ih
    have hearlier : ∀ m, MadeByCreate es m → MadeByCreate (es ++ [⟨t₁, call, out, t₂⟩]) m :=
      fun m ⟨e, he, hmade⟩ => ⟨e, List.mem_append_left _ he, hmade⟩
    rcases executed_call hrun hout with ⟨a, rfl, hdoes⟩ | rfl
    · refine ⟨hdoes.valid hvalid, hdoes.users.trans husers, fun m hm hadmin => ?_⟩
      rcases hdoes.admin hm hadmin with hold | ⟨e, he, hmade⟩
      · exact hearlier m (hadmins m hold hadmin)
      · exact ⟨e, List.mem_append_right _ he, hmade⟩
    · exact ⟨hvalid, husers, fun m hm hadmin => hearlier m (hadmins m hm hadmin)⟩

end Runs

end NexusChat
