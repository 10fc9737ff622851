import NexusChat.Api.Routes

/-!
# What an outsider learns about private rooms

Two states of the database that differ in private rooms only are the same to somebody outside
those rooms if every endpoint looks at the rooms it may show. The listings and the history do.
`get_room` and `get_room_members` show whatever room they are asked for.
-/

set_option autoImplicit false

namespace NexusChat

open Routes

/-! ## The answers -/

/-- The answer to a request of the user, in a state nobody is changing. -/
def respond (env : Env) (x : DbOutcome) (t : Tables) (user_id : Uuid) (r : ReadRequest) :
    Option (Except Exn ReadResponse) :=
  ((getDbSession db (read db env user_id r)).run (DbOp.exec 0) x
    { committed := t, pending := [] }).map Prod.fst

namespace Tables

/-- The rooms with a membership of the user, once for each. -/
def userRooms (t : Tables) (user_id : Uuid) : List RoomRow :=
  t.rooms.rows.flatMap fun r =>
    (t.roomMembers.rows.filter fun m => r.id = m.roomId && m.userId = user_id).map fun _ => r

def publicRooms (t : Tables) : List RoomRow := t.rooms.rows.filter fun r => !r.isPrivate

def memberCount (t : Tables) (room_id : Uuid) : Nat :=
  (t.roomMembers.rows.filter fun m => m.roomId = room_id).length

end Tables

section Answers

variable {env : Env} {x : DbOutcome} {t : Tables} {user_id : Uuid}

/-- The members as the endpoints show them. -/
def shownMembers (env : Env) (x : DbOutcome) (t : Tables) (room_id : Uuid) : List MemberResponse :=
  (x.memberTies.order (DbOp.memberRows t room_id)).map (.ofRow env)

def shownRooms (t : Tables) (rooms : List RoomRow) : ReadResponse :=
  let shown := rooms.map fun r => .ofRow r (t.memberCount r.id)
  .rooms shown shown.length

def shownRoom (env : Env) (x : DbOutcome) (t : Tables) (room : RoomRow) : RoomDetail where
  id := env.uuidStr room.id
  name := room.name
  description := room.description
  isPrivate := room.isPrivate
  createdBy := room.createdBy.map env.uuidStr
  createdAt := env.isoformat room.createdAt
  members := shownMembers env x t room.id

/-- The page of a room from the cursor on. -/
def shownPage (env : Env) (x : DbOutcome) (t : Tables) (room_id : Uuid) (limit : Nat)
    (before : Option String) : MessageListResponse :=
  MessageService.pageResponse env limit
    ((DbOp.pageRows t x.ties room_id (MessageService.cursor env before) (limit + 1)).map fun m =>
      (m, t.users.find? fun u => some u.id = m.senderId))

/-- What each request is answered, from the tables. -/
def answerOf (env : Env) (x : DbOutcome) (t : Tables) (user_id : Uuid) :
    ReadRequest → Except Exn ReadResponse
  | .listRooms my_rooms =>
    .ok (shownRooms t (x.roomTies.order (if my_rooms then t.userRooms user_id else t.publicRooms)))
  | .getRoom room_id =>
    match t.rooms.find? fun r => r.id = room_id with
    | some room => .ok (.room (shownRoom env x t room))
    | none => .error (notFoundError "Room")
  | .getRoomMembers room_id => .ok (.members (shownMembers env x t room_id))
  | .getMessages room_id limit before =>
    if limit < 1 ∨ 100 < limit then .error (.httpException 422 "Unprocessable Entity")
    else if (t.membership room_id user_id).isSome then
      .ok (.messages (shownPage env x t room_id (min limit.toNat 100) before))
    else .error (authorizationError "You must be a member of this room to view messages")

/-- A statement that only reads. -/
def Reads (op : DbOp) : Prop :=
  ∀ (x : DbOutcome) (t : Tables), op.blocked x 0 { committed := t, pending := [] } = false ∧
    op.after x 0 { committed := t, pending := [] } = { committed := t, pending := [] } ∧
    op.answer x t = if x.ok then op.reply x t else .error .dbError

theorem run_reads {α : Type} {op : DbOp} {f : op.Resp → Call α} (h : Reads op) (hok : x.ok = true) :
    (db op >>= f).run (DbOp.exec 0) x { committed := t, pending := [] } =
      match op.reply x t with
      | .ok a => (f a).run (DbOp.exec 0) x { committed := t, pending := [] }
      | .error e => some (.error e, { committed := t, pending := [] }) := by
  obtain ⟨hblocked, hafter, hanswer⟩ := h x t
  have hreply : op.answer x (Database.view { committed := t, pending := [] } 0) = op.reply x t :=
    hanswer.trans (if_pos hok)
  rw [run_db_bind hblocked, hafter]
  cases hr : op.reply x t with
  | ok a => simp only [hreply, hr]
  | error e => simp only [hreply, hr]

/-- The loop over the rooms counts the members of each. -/
theorem run_roomResponses (hok : x.ok = true) {rooms : List RoomRow} :
    (RoomService.roomResponses db rooms).run (DbOp.exec 0) x { committed := t, pending := [] } =
      some (.ok (rooms.map fun r => .ofRow r (t.memberCount r.id)),
        { committed := t, pending := [] }) := by
  induction rooms with
  | nil => rfl
  | cons room rooms ih =>
    unfold RoomService.roomResponses
    rw [run_reads (fun _ _ => ⟨rfl, rfl, rfl⟩) hok]
    simp only [DbOp.reply]
    rw [Coro.run_bind, ih]
    rfl

theorem run_getRoomMembers (hok : x.ok = true) {room_id : Uuid} :
    (RoomService.getRoomMembers db env room_id).run (DbOp.exec 0) x
        { committed := t, pending := [] } =
      some (.ok (shownMembers env x t room_id), { committed := t, pending := [] }) := by
  unfold RoomService.getRoomMembers
  rw [run_reads (fun _ _ => ⟨rfl, rfl, rfl⟩) hok]
  rfl

/-- **The endpoints answer from the committed tables.** -/
theorem respond_eq (hok : x.ok = true) (r : ReadRequest) :
    respond env x t user_id r = some (answerOf env x t user_id r) := by
  have hread : (read db env user_id r).run (DbOp.exec 0) x { committed := t, pending := [] } =
      some (answerOf env x t user_id r, { committed := t, pending := [] }) := by
    cases r with
    | listRooms my_rooms =>
      have hrooms : (if my_rooms then RoomService.listUserRooms db user_id
            else RoomService.listPublicRooms db : Call (List RoomResponse)).run (DbOp.exec 0) x
            { committed := t, pending := [] } =
          some (.ok ((x.roomTies.order (if my_rooms then t.userRooms user_id
            else t.publicRooms)).map fun r => .ofRow r (t.memberCount r.id)),
            { committed := t, pending := [] }) := by
        cases my_rooms with
        | true =>
          show (RoomService.listUserRooms db user_id : Call _).run _ _ _ = _
          unfold RoomService.listUserRooms
          rw [run_reads (fun _ _ => ⟨rfl, rfl, rfl⟩) hok]
          exact run_roomResponses hok
        | false =>
          show (RoomService.listPublicRooms db : Call _).run _ _ _ = _
          unfold RoomService.listPublicRooms
          rw [run_reads (fun _ _ => ⟨rfl, rfl, rfl⟩) hok]
          exact run_roomResponses hok
      show (listRooms db my_rooms user_id : Call ReadResponse).run _ _ _ = _
      unfold listRooms
      rw [Coro.run_bind, hrooms]
      rfl
    | getRoom room_id =>
      show (getRoom db env room_id : Call ReadResponse).run _ _ _ = _
      unfold getRoom RoomService.getRoom
      rw [bind_assoc, run_reads (fun _ _ => ⟨rfl, rfl, rfl⟩) hok]
      simp only [DbOp.reply, answerOf]
      cases hfind : t.rooms.find? fun r => r.id = room_id with
      | none => rfl
      | some room =>
        -- `get_room` goes on to the members without asking who is looking
        obtain rfl : room.id = room_id := of_decide_eq_true (Table.find?_eq_some hfind).2
        rw [pure_bind, Coro.run_bind, run_getRoomMembers hok]
        rfl
    | getRoomMembers room_id =>
      show (getRoomMembers db env room_id : Call ReadResponse).run _ _ _ = _
      unfold getRoomMembers
      rw [Coro.run_bind, run_getRoomMembers hok]
      rfl
    | getMessages room_id limit before =>
      show (getMessages db env room_id limit before user_id : Call ReadResponse).run _ _ _ = _
      unfold getMessages
      simp only [answerOf]
      by_cases hlimit : limit < 1 ∨ 100 < limit
      · rw [if_pos hlimit, if_pos hlimit]
        rfl
      · rw [if_neg hlimit, if_neg hlimit]
        -- the only one of the four that asks whether the user is a member
        unfold RoomService.isMember
        rw [bind_assoc, run_reads (fun _ _ => ⟨rfl, rfl, rfl⟩) hok]
        simp only [DbOp.reply, pure_bind]
        cases t.membership room_id user_id with
        | none => rfl
        | some m =>
          unfold MessageService.getRoomMessages
          simp only [Option.isSome_some, if_true]
          rw [bind_assoc, run_reads (fun _ _ => ⟨rfl, rfl, rfl⟩) hok]
          rfl
  rw [respond, run_getDbSession hok hread]
  rfl

end Answers

/-! ## Two states an outsider cannot tell apart -/

namespace Tables

/-- A private room of which the user is not a member. -/
def Hidden (t : Tables) (user_id room_id : Uuid) : Prop :=
  (∃ r ∈ t.rooms, r.id = room_id ∧ r.isPrivate = true) ∧ ¬t.IsMember room_id user_id

end Tables

/-- The states differ in the names, descriptions, members and messages of rooms hidden from the
user, and the rooms stay hidden. -/
structure Similar (user_id : Uuid) (t t' : Tables) : Prop where
  users : t'.users = t.users
  rooms : List.Forall₂ (fun r r' => r' = r ∨ t.Hidden user_id r.id ∧
    r' = { r with name := r'.name, description := r'.description }) t.rooms.rows t'.rooms.rows
  outside : ∀ id, t.Hidden user_id id → ¬t'.IsMember id user_id
  members : ∀ id, ¬t.Hidden user_id id →
    (t'.roomMembers.rows.filter fun m => m.roomId = id) =
      t.roomMembers.rows.filter fun m => m.roomId = id
  messages : ∀ id, ¬t.Hidden user_id id →
    (t'.messages.rows.filter fun m => m.roomId = id) =
      t.messages.rows.filter fun m => m.roomId = id

/-- The request shows a hidden room: its details, or its members where there can be any. -/
def Exposes (t : Tables) (user_id : Uuid) : ReadRequest → Prop
  | .getRoom room_id => t.Hidden user_id room_id
  | .getRoomMembers room_id =>
    t.Hidden user_id room_id ∧ ∃ u ∈ t.users, u.id ≠ user_id
  | _ => False

section TwoRuns

variable {env : Env} {x : DbOutcome} {t t' : Tables} {user_id : Uuid}

theorem Similar.rooms_id (h : Similar user_id t t') :
    List.Forall₂ (fun r r' => r'.id = r.id ∧ r'.isPrivate = r.isPrivate ∧
      (¬t.Hidden user_id r.id → r' = r)) t.rooms.rows t'.rooms.rows := by
  refine h.rooms.imp fun r r' hr => ?_
  rcases hr with rfl | ⟨hidden, hr⟩
  · exact ⟨rfl, rfl, fun _ => rfl⟩
  · rw [hr]
    exact ⟨rfl, rfl, fun hnot => absurd hidden hnot⟩

/-- A room that is not private is not hidden: there is one row of its id. -/
theorem not_hidden_of_public {r : RoomRow} (hr : r ∈ t.rooms) (hp : r.isPrivate = false) :
    ¬t.Hidden user_id r.id := by
  rintro ⟨⟨r', hr', hid, hp'⟩, -⟩
  obtain rfl := Table.eq_of_key hr' hr hid
  rw [hp] at hp'
  cases hp'

theorem Similar.memberCount (h : Similar user_id t t') {id : Uuid} (hid : ¬t.Hidden user_id id) :
    t'.memberCount id = t.memberCount id := by
  rw [Tables.memberCount, Tables.memberCount, h.members id hid]

theorem Similar.isMember (h : Similar user_id t t') (id : Uuid) :
    t'.IsMember id user_id ↔ t.IsMember id user_id := by
  by_cases hid : t.Hidden user_id id
  · exact ⟨fun hm => absurd hm (h.outside id hid), fun hm => absurd hm hid.2⟩
  · have hrows : ∀ m, m ∈ t'.roomMembers ∧ m.roomId = id ↔ m ∈ t.roomMembers ∧ m.roomId = id := by
      intro m
      have := congrArg (m ∈ ·) (h.members id hid)
      simpa [Table.mem_def] using this
    constructor
    · rintro ⟨m, hm, hroom, huser⟩
      exact ⟨m, ((hrows m).mp ⟨hm, hroom⟩).1, hroom, huser⟩
    · rintro ⟨m, hm, hroom, huser⟩
      exact ⟨m, ((hrows m).mpr ⟨hm, hroom⟩).1, hroom, huser⟩

/-- The memberships of the user in one room. -/
theorem filter_user_eq {id : Uuid} : (t.roomMembers.rows.filter fun m =>
      id = m.roomId && m.userId = user_id) =
    (t.roomMembers.rows.filter fun m => m.roomId = id).filter fun m => m.userId = user_id := by
  rw [List.filter_filter]
  refine List.filter_congr fun m _ => ?_
  rw [Bool.and_comm, decide_eq_decide.mpr (eq_comm (a := id))]

theorem filter_user_eq_nil {id : Uuid} (h : ¬t.IsMember id user_id) :
    (t.roomMembers.rows.filter fun m => id = m.roomId && m.userId = user_id) = [] := by
  rw [List.filter_eq_nil_iff]
  intro m hm hp
  simp only [Bool.and_eq_true, decide_eq_true_eq] at hp
  exact h ⟨m, hm, hp.1.symm, hp.2⟩

theorem Similar.userRooms (h : Similar user_id t t') :
    t'.userRooms user_id = t.userRooms user_id := by
  unfold Tables.userRooms
  have hrooms := h.rooms_id
  generalize t.rooms.rows = rows at hrooms
  generalize t'.rooms.rows = rows' at hrooms
  induction hrooms with
  | nil => rfl
  | @cons r r' rows rows' hr _ ih =>
    rw [List.flatMap_cons, List.flatMap_cons, ih, hr.1]
    by_cases hid : t.Hidden user_id r.id
    · rw [filter_user_eq_nil (h.outside r.id hid), filter_user_eq_nil hid.2]
      rfl
    · rw [hr.2.2 hid, filter_user_eq, filter_user_eq, h.members r.id hid]

theorem Similar.publicRooms (h : Similar user_id t t') : t'.publicRooms = t.publicRooms := by
  unfold Tables.publicRooms
  have hmem : ∀ r ∈ t.rooms.rows, r ∈ t.rooms := fun _ hr => hr
  have hrooms := h.rooms_id
  generalize t.rooms.rows = rows at hrooms hmem
  generalize t'.rooms.rows = rows' at hrooms
  induction hrooms with
  | nil => rfl
  | @cons r r' rows rows' hr _ ih =>
    obtain ⟨-, hp, heq⟩ := hr
    have hih := ih fun r hr => hmem r (List.mem_cons_of_mem _ hr)
    rw [List.filter_cons, List.filter_cons, hp, hih]
    cases hpriv : r.isPrivate with
    | true => rfl
    | false => rw [heq (not_hidden_of_public (hmem r List.mem_cons_self) hpriv)]

theorem Similar.find? (h : Similar user_id t t') {id : Uuid} (hid : ¬t.Hidden user_id id) :
    (t'.rooms.find? fun r => r.id = id) = t.rooms.find? fun r => r.id = id := by
  unfold Table.find?
  have hrooms := h.rooms_id
  generalize t.rooms.rows = rows at hrooms
  generalize t'.rooms.rows = rows' at hrooms
  induction hrooms with
  | nil => rfl
  | @cons r r' rows rows' hr _ ih =>
    obtain ⟨hsame, -, heq⟩ := hr
    rw [List.find?_cons, List.find?_cons, hsame, ih]
    by_cases hr : r.id = id
    · rw [heq (hr ▸ hid)]
    · rw [decide_eq_false hr]

theorem Similar.memberRows (h : Similar user_id t t') {id : Uuid} (hid : ¬t.Hidden user_id id) :
    DbOp.memberRows t' id = DbOp.memberRows t id := by
  rw [DbOp.memberRows, DbOp.memberRows, h.members id hid, h.users]

/-- A hidden room has no members that are users, where the user is the only one. -/
theorem memberRows_eq_nil {id : Uuid} (hm : ¬t.IsMember id user_id)
    (honly : ∀ u ∈ t.users, u.id = user_id) : DbOp.memberRows t id = [] := by
  rw [DbOp.memberRows, List.filterMap_eq_nil_iff]
  intro m hm'
  obtain ⟨hmem, hroom⟩ := List.mem_filter.mp hm'
  rw [Option.map_eq_none_iff, Table.find?_eq_none]
  intro u hu
  rw [decide_eq_false_iff_not]
  intro hid
  exact hm ⟨m, hmem, of_decide_eq_true hroom, by rw [← hid, honly u hu]⟩

/-- The rooms of a listing are not hidden. -/
theorem not_hidden_of_userRooms {r : RoomRow} (hr : r ∈ t.userRooms user_id) :
    ¬t.Hidden user_id r.id := by
  obtain ⟨room, -, hmem⟩ := List.mem_flatMap.mp hr
  obtain ⟨m, hm, rfl⟩ := List.mem_map.mp hmem
  obtain ⟨hm, hp⟩ := List.mem_filter.mp hm
  simp only [Bool.and_eq_true, decide_eq_true_eq] at hp
  exact fun hidden => hidden.2 ⟨m, hm, hp.1.symm, hp.2⟩

theorem Similar.shownRooms (h : Similar user_id t t') {rooms : List RoomRow}
    (hrooms : ∀ r ∈ rooms, ¬t.Hidden user_id r.id) :
    shownRooms t' rooms = NexusChat.shownRooms t rooms := by
  have hmap : (rooms.map fun r => RoomResponse.ofRow r (t'.memberCount r.id)) =
      rooms.map fun r => RoomResponse.ofRow r (t.memberCount r.id) :=
    List.map_congr_left fun r hr => by rw [h.memberCount (hrooms r hr)]
  unfold NexusChat.shownRooms
  rw [hmap]

theorem Similar.shownPage (h : Similar user_id t t') {id : Uuid} (hid : ¬t.Hidden user_id id)
    {limit : Nat} {before : Option String} :
    shownPage env x t' id limit before = NexusChat.shownPage env x t id limit before := by
  have hrows : ∀ c : Option Time, (t'.messages.rows.filter fun m =>
        m.roomId = id && (c.all fun c => m.createdAt < c)) =
      t.messages.rows.filter fun m => m.roomId = id && (c.all fun c => m.createdAt < c) := by
    intro c
    have hf : ∀ rows : List MessageRow, (rows.filter fun m =>
          m.roomId = id && (c.all fun c => m.createdAt < c)) =
        (rows.filter fun m => m.roomId = id).filter fun m => c.all fun c => m.createdAt < c := by
      intro rows
      rw [List.filter_filter]
      exact List.filter_congr fun m _ => Bool.and_comm _ _
    rw [hf, hf, h.messages id hid]
  unfold NexusChat.shownPage DbOp.pageRows
  rw [hrows, h.users]

/-- **A request that exposes no hidden room is answered the same.** -/
theorem Similar.answerOf (h : Similar user_id t t') {r : ReadRequest}
    (hr : ¬Exposes t user_id r) :
    answerOf env x t' user_id r = NexusChat.answerOf env x t user_id r := by
  cases r with
  | listRooms my_rooms =>
    have hlist : (if my_rooms then t'.userRooms user_id else t'.publicRooms) =
        if my_rooms then t.userRooms user_id else t.publicRooms := by
      rw [h.userRooms, h.publicRooms]
    have hvisible : ∀ r ∈ if my_rooms then t.userRooms user_id else t.publicRooms,
        ¬t.Hidden user_id r.id := by
      intro r hr
      split at hr
      · exact not_hidden_of_userRooms hr
      · obtain ⟨hmem, hp⟩ := List.mem_filter.mp hr
        exact not_hidden_of_public hmem (by simpa using hp)
    simp only [NexusChat.answerOf]
    rw [hlist, h.shownRooms fun r hr => hvisible r ((x.roomTies.perm _).mem_iff.mp hr)]
  | getRoom room_id =>
    have hid : ¬t.Hidden user_id room_id := hr
    simp only [NexusChat.answerOf, h.find? hid]
    cases hfind : t.rooms.find? fun r => r.id = room_id with
    | none => rfl
    | some room =>
      obtain rfl : room.id = room_id := of_decide_eq_true (Table.find?_eq_some hfind).2
      simp only [shownRoom, shownMembers, h.memberRows hid]
  | getRoomMembers room_id =>
    simp only [NexusChat.answerOf, shownMembers]
    by_cases hid : t.Hidden user_id room_id
    · -- nobody else is there to be a member
      have honly : ∀ u ∈ t.users, u.id = user_id := by
        intro u hu
        by_contra hne
        exact hr ⟨hid, u, hu, hne⟩
      have honly' : ∀ u ∈ t'.users, u.id = user_id := by
        rw [h.users]
        exact honly
      rw [memberRows_eq_nil hid.2 honly, memberRows_eq_nil (h.outside _ hid) honly']
    · rw [h.memberRows hid]
  | getMessages room_id limit before =>
    have hmember : (t'.membership room_id user_id).isSome =
        (t.membership room_id user_id).isSome := by
      rw [Bool.eq_iff_iff, Tables.isSome_membership, Tables.isSome_membership, h.isMember]
    simp only [NexusChat.answerOf, hmember]
    split
    · rfl
    · split
      · rename_i hm
        have hid : ¬t.Hidden user_id room_id := fun hidden =>
          hidden.2 (Tables.isSome_membership.mp hm)
        rw [h.shownPage hid]
      · rfl

/-! ### What an exposed room shows -/

/-- The room under another name. -/
def Tables.renamed (t : Tables) (room_id : Uuid) : Tables :=
  { t with rooms := ⟨t.rooms.rows.map fun r =>
      if r.id = room_id then { r with name := r.name ++ "!" } else r, by
        rw [List.map_map]
        have hid : (RoomRow.id ∘ fun r : RoomRow =>
            if r.id = room_id then { r with name := r.name ++ "!" } else r) = RoomRow.id := by
          funext r
          dsimp only [Function.comp]
          split <;> rfl
        rw [hid]
        exact t.rooms.nodup⟩ }

/-- The room without its members. -/
def Tables.emptied (t : Tables) (room_id : Uuid) : Tables :=
  { t with roomMembers := t.roomMembers.delete fun m => m.roomId = room_id }

/-- The room with one more membership. -/
def Tables.entered (t : Tables) (m : RoomMemberRow) : Tables :=
  { t with roomMembers := t.roomMembers.insert m }

theorem Tables.mem_renamed {room_id : Uuid} {r : RoomRow} (hr : r ∈ (t.renamed room_id).rooms) :
    ∃ r' ∈ t.rooms, r.id = r'.id ∧ r.createdBy = r'.createdBy := by
  obtain ⟨r', hr', rfl⟩ := List.mem_map.mp (show r ∈ t.rooms.rows.map _ from hr)
  refine ⟨r', hr', ?_⟩
  split <;> exact ⟨rfl, rfl⟩

theorem Tables.renamed_of_mem {room_id : Uuid} {r : RoomRow} (hr : r ∈ t.rooms) :
    ∃ r' ∈ (t.renamed room_id).rooms, r'.id = r.id := by
  refine ⟨_, List.mem_map.mpr ⟨r, hr, rfl⟩, ?_⟩
  split <;> rfl

theorem valid_renamed (h : t.Valid) {room_id : Uuid} : (t.renamed room_id).Valid where
  creators := by
    intro r hr id hid
    obtain ⟨r', hr', -, hby⟩ := Tables.mem_renamed hr
    exact h.creators r' hr' id (hby ▸ hid)
  memberUsers := h.memberUsers
  memberRooms := by
    intro m hm
    obtain ⟨r, hr, hid⟩ := h.memberRooms m hm
    obtain ⟨r', hr', hid'⟩ := Tables.renamed_of_mem hr
    exact ⟨r', hr', hid'.trans hid⟩
  members := h.members
  senders := h.senders
  messageRooms := by
    intro m hm
    obtain ⟨r, hr, hid⟩ := h.messageRooms m hm
    obtain ⟨r', hr', hid'⟩ := Tables.renamed_of_mem hr
    exact ⟨r', hr', hid'.trans hid⟩

theorem similar_renamed {room_id : Uuid} (h : t.Hidden user_id room_id) :
    Similar user_id t (t.renamed room_id) where
  users := rfl
  rooms := by
    refine List.forall₂_map_right_iff.mpr (List.forall₂_same.mpr fun r _ => ?_)
    split
    · rename_i hid
      exact Or.inr ⟨hid ▸ h, rfl⟩
    · exact Or.inl rfl
  outside := fun _ hid => hid.2
  members := fun _ _ => rfl
  messages := fun _ _ => rfl

theorem valid_emptied (h : t.Valid) {room_id : Uuid} : (t.emptied room_id).Valid where
  creators := h.creators
  memberUsers := fun m hm => h.memberUsers m (Table.mem_delete.mp hm).1
  memberRooms := fun m hm => h.memberRooms m (Table.mem_delete.mp hm).1
  members := fun m hm m' hm' => h.members m (Table.mem_delete.mp hm).1 m' (Table.mem_delete.mp hm').1
  senders := h.senders
  messageRooms := h.messageRooms

theorem similar_emptied {room_id : Uuid} (h : t.Hidden user_id room_id) :
    Similar user_id t (t.emptied room_id) where
  users := rfl
  rooms := List.forall₂_same.mpr fun _ _ => Or.inl rfl
  outside := by
    rintro id hid ⟨m, hm, hp⟩
    exact hid.2 ⟨m, (Table.mem_delete.mp hm).1, hp⟩
  members := by
    intro id hid
    show (List.filter _ (t.roomMembers.rows.filter fun m => !decide (m.roomId = room_id))) = _
    rw [List.filter_filter]
    refine List.filter_congr fun m _ => ?_
    by_cases hm : m.roomId = id
    · have hne : m.roomId ≠ room_id := fun heq => hid ((hm.symm.trans heq) ▸ h)
      simp [hm, hm ▸ hne]
    · simp [hm]
  messages := fun _ _ => rfl

theorem valid_entered (h : t.Valid) {m : RoomMemberRow} (huser : ∃ u ∈ t.users, u.id = m.userId)
    (hroom : ∃ r ∈ t.rooms, r.id = m.roomId)
    (hnew : ∀ m' ∈ t.roomMembers, m'.roomId = m.roomId → m'.userId ≠ m.userId) :
    (t.entered m).Valid where
  creators := h.creators
  memberUsers := by
    intro m' hm'
    rcases Table.mem_insert hm' with hold | rfl
    · exact h.memberUsers m' hold
    · exact huser
  memberRooms := by
    intro m' hm'
    rcases Table.mem_insert hm' with hold | rfl
    · exact h.memberRooms m' hold
    · exact hroom
  members := by
    intro a ha b hb hr hu
    rcases Table.mem_insert ha with ha' | rfl
    · rcases Table.mem_insert hb with hb' | rfl
      · exact h.members a ha' b hb' hr hu
      · exact absurd hu (hnew a ha' hr)
    · rcases Table.mem_insert hb with hb' | rfl
      · exact absurd hu.symm (hnew b hb' hr.symm)
      · rfl
  senders := h.senders
  messageRooms := h.messageRooms

theorem similar_entered {m : RoomMemberRow} (h : t.Hidden user_id m.roomId)
    (huser : m.userId ≠ user_id) (hid : ∀ m' ∈ t.roomMembers, m'.id ≠ m.id) :
    Similar user_id t (t.entered m) where
  users := rfl
  rooms := List.forall₂_same.mpr fun _ _ => Or.inl rfl
  outside := by
    rintro id hidden ⟨m', hm', hr, hu⟩
    rcases Table.mem_insert hm' with hold | rfl
    · exact hidden.2 ⟨m', hold, hr, hu⟩
    · exact huser hu
  members := by
    intro id hvisible
    have hne : m.roomId ≠ id := fun heq => hvisible (heq ▸ h)
    show (List.filter _ (t.roomMembers.insert m).rows) = _
    rw [Table.rows_insert hid, List.filter_append]
    simp [hne]
  messages := fun _ _ => rfl

theorem length_shownMembers {room_id : Uuid} :
    (shownMembers env x t room_id).length = (DbOp.memberRows t room_id).length := by
  rw [shownMembers, List.length_map]
  exact (x.memberTies.perm _).length_eq

theorem memberRows_emptied {room_id : Uuid} : DbOp.memberRows (t.emptied room_id) room_id = [] := by
  have hrows : ((t.emptied room_id).roomMembers.rows.filter fun m => m.roomId = room_id) = [] := by
    rw [List.filter_eq_nil_iff]
    intro m hm
    exact (Table.mem_delete.mp hm).2 ▸ Bool.false_ne_true
  rw [DbOp.memberRows, hrows]
  rfl

theorem mem_memberRows {m : RoomMemberRow} (hm : m ∈ t.roomMembers)
    (hu : ∃ u ∈ t.users, u.id = m.userId) : ∃ u, (m, u) ∈ DbOp.memberRows t m.roomId := by
  cases hfind : t.users.find? fun u => u.id = m.userId with
  | none =>
    obtain ⟨u, hu, hid⟩ := hu
    have hne := Table.find?_eq_none.mp hfind u hu
    rw [decide_eq_false_iff_not] at hne
    exact absurd hid hne
  | some u =>
    refine ⟨u, List.mem_filterMap.mpr ⟨m, List.mem_filter.mpr ⟨hm, decide_eq_true rfl⟩, ?_⟩⟩
    rw [hfind]
    rfl

/-- The row of a room's id. -/
theorem find?_room {room : RoomRow} (h : room ∈ t.rooms) :
    (t.rooms.find? fun r => r.id = room.id) = some room := by
  cases hfind : t.rooms.find? fun r => r.id = room.id with
  | none =>
    have hne := Table.find?_eq_none.mp hfind room h
    rw [decide_eq_false_iff_not] at hne
    exact absurd rfl hne
  | some r =>
    obtain ⟨hr, hid⟩ := Table.find?_eq_some hfind
    rw [Table.eq_of_key hr h (of_decide_eq_true hid)]

theorem find?_renamed {room : RoomRow} (h : room ∈ t.rooms) :
    ((t.renamed room.id).rooms.find? fun r => r.id = room.id) =
      some { room with name := room.name ++ "!" } := by
  have hfind := find?_room h
  unfold Table.find? at hfind ⊢
  show (t.rooms.rows.map fun r : RoomRow =>
    if r.id = room.id then { r with name := r.name ++ "!" } else r).find? _ = _
  have hid : ((fun r : RoomRow => decide (r.id = room.id)) ∘ fun r : RoomRow =>
      if r.id = room.id then { r with name := r.name ++ "!" } else r) =
      fun r => decide (r.id = room.id) := by
    funext r
    dsimp only [Function.comp]
    split <;> rfl
  rw [List.find?_map, hid, hfind]
  simp

/-- **An exposed room tells two states apart.** -/
theorem exposes_differs (hvalid : t.Valid) {r : ReadRequest} (hr : Exposes t user_id r) :
    ∃ t', t'.Valid ∧ Similar user_id t t' ∧
      answerOf env x t' user_id r ≠ answerOf env x t user_id r := by
  cases r with
  | listRooms my_rooms => exact hr.elim
  | getMessages room_id limit before => exact hr.elim
  | getRoom room_id =>
    -- the response shows the name of the hidden room
    refine ⟨t.renamed room_id, valid_renamed hvalid, similar_renamed hr, fun heq => ?_⟩
    obtain ⟨⟨room, hroom, rfl, -⟩, -⟩ := hr
    simp only [answerOf, find?_room hroom, find?_renamed hroom, Except.ok.injEq,
      ReadResponse.room.injEq] at heq
    have hname : room.name ++ "!" = room.name := congrArg RoomDetail.name heq
    have hlen := congrArg String.length hname
    rw [String.length_append] at hlen
    simp at hlen
  | getRoomMembers room_id =>
    obtain ⟨hidden, v, hv, hne⟩ := hr
    have hlen : ∀ t', answerOf env x t' user_id (.getRoomMembers room_id) =
          answerOf env x t user_id (.getRoomMembers room_id) →
        (DbOp.memberRows t' room_id).length = (DbOp.memberRows t room_id).length := by
      intro t' heq
      simp only [answerOf, Except.ok.injEq, ReadResponse.members.injEq] at heq
      rw [← length_shownMembers (x := x), heq, length_shownMembers]
    by_cases hnil : DbOp.memberRows t room_id = []
    · -- one more member
      obtain ⟨id, hid⟩ := Infinite.exists_notMem_finset
        (t.roomMembers.rows.map RoomMemberRow.id).toFinset
      have hfresh : ∀ m' ∈ t.roomMembers, m'.id ≠ id := by
        intro m' hm' heq
        exact hid (List.mem_toFinset.mpr (List.mem_map.mpr ⟨m', hm', heq⟩))
      let m : RoomMemberRow :=
        { id, roomId := room_id, userId := v.id, role := .member, joinedAt := 0 }
      have hnew : ∀ m' ∈ t.roomMembers, m'.roomId = m.roomId → m'.userId ≠ m.userId := by
        rintro m' hm' hroom -
        obtain ⟨u, hu⟩ := mem_memberRows hm' (hvalid.memberUsers m' hm')
        rw [hroom, hnil] at hu
        cases hu
      obtain ⟨room, hroom, hroomId, -⟩ := hidden.1
      refine ⟨t.entered m, valid_entered hvalid ⟨v, hv, rfl⟩ ⟨room, hroom, hroomId⟩ hnew,
        similar_entered hidden hne hfresh, fun heq => ?_⟩
      obtain ⟨u, hu⟩ := mem_memberRows (t := t.entered m) (Table.mem_insert_self hfresh)
        ⟨v, hv, rfl⟩
      have hzero := hlen _ heq
      rw [hnil] at hzero
      rw [List.length_eq_zero_iff.mp hzero] at hu
      cases hu
    · -- no member is left
      refine ⟨t.emptied room_id, valid_emptied hvalid, similar_emptied hidden, fun heq => ?_⟩
      have hzero := hlen _ heq
      rw [memberRows_emptied] at hzero
      exact hnil (List.length_eq_zero_iff.mp hzero.symm)

/-- **When an outsider learns nothing**: exactly if no request asks for the details or the members
of a hidden room. -/
theorem reads_alike_iff (hvalid : t.Valid) (hok : x.ok = true) (requests : List ReadRequest) :
    (∀ t', t'.Valid → Similar user_id t t' →
      requests.map (respond env x t' user_id) = requests.map (respond env x t user_id)) ↔
    ∀ r ∈ requests, ¬Exposes t user_id r := by
  constructor
  · intro h r hr hexposes
    obtain ⟨t', hvalid', hsimilar, hne⟩ := exposes_differs (x := x) hvalid hexposes
    have heq := List.map_inj_left.mp (h t' hvalid' hsimilar) r hr
    rw [respond_eq hok, respond_eq hok] at heq
    exact hne (Option.some.inj heq)
  · intro h t' _ hsimilar
    refine List.map_congr_left fun r hr => ?_
    rw [respond_eq hok, respond_eq hok, hsimilar.answerOf (h r hr)]

end TwoRuns

/-! ### A private room of somebody else -/

namespace Privacy.Sample

/-- User 1 has the private room 4. -/
def privateRoom : Tables where
  users := Tables.sample.users
  rooms := Table.insert ∅ ⟨4, "r4", none, true, some 1, Env.newYear⟩
  roomMembers := Table.insert ∅ ⟨1, 4, 1, .admin, Env.newYear⟩
  messages := ∅

/-- A database that answers, with rows of one time as they are in the table. -/
def answering : DbOutcome := { ok := true, executed := true, now := 0, uuid := 0, ties := .stable }

theorem valid_privateRoom : privateRoom.Valid where
  creators := by
    intro r hr id hid
    obtain rfl := List.mem_singleton.mp hr
    cases hid
    exact ⟨⟨1, "u1", "u1@x.org", "", some "u1", true⟩, by decide, rfl⟩
  memberUsers := by
    intro m hm
    obtain rfl := List.mem_singleton.mp hm
    exact ⟨⟨1, "u1", "u1@x.org", "", some "u1", true⟩, by decide, rfl⟩
  memberRooms := by
    intro m hm
    obtain rfl := List.mem_singleton.mp hm
    exact ⟨⟨4, "r4", none, true, some 1, Env.newYear⟩, List.mem_singleton_self _, rfl⟩
  members := by
    intro m hm m' hm' _ _
    rw [List.mem_singleton.mp hm, List.mem_singleton.mp hm']
  senders := by
    intro m hm
    cases hm
  messageRooms := by
    intro m hm
    cases hm

theorem hidden_privateRoom : privateRoom.Hidden 2 4 := by
  refine ⟨⟨⟨4, "r4", none, true, some 1, Env.newYear⟩, List.mem_singleton_self _, rfl, rfl⟩, ?_⟩
  rintro ⟨m, hm, -, hu⟩
  obtain rfl := List.mem_singleton.mp hm
  cases hu

end Privacy.Sample

open Privacy.Sample in
/-- The listings and the history tell user 2 nothing of room 4. -/
theorem reads_alike_listings : privateRoom.Hidden 2 4 ∧
    ∀ t', t'.Valid → Similar 2 privateRoom t' →
      [.listRooms true, .listRooms false, .getMessages 4 50 none].map
          (respond .sample answering t' 2) =
        [.listRooms true, .listRooms false, .getMessages 4 50 none].map
          (respond .sample answering privateRoom 2) := by
  refine ⟨hidden_privateRoom, (reads_alike_iff valid_privateRoom rfl _).mpr fun r hr => ?_⟩
  simp only [List.mem_cons, List.not_mem_nil, or_false] at hr
  rcases hr with rfl | rfl | rfl <;> exact id

open Privacy.Sample in
/-- **`get_room` shows a private room to anybody.** -/
theorem not_reads_alike : ¬∀ (env : Env) (x : DbOutcome) (user_id : Uuid) (t t' : Tables)
    (requests : List ReadRequest), x.ok = true → t.Valid → t'.Valid → Similar user_id t t' →
    requests.map (respond env x t' user_id) = requests.map (respond env x t user_id) := by
  intro hall
  have hexposes : Exposes privateRoom 2 (.getRoom 4) := hidden_privateRoom
  obtain ⟨t', hvalid', hsimilar, hne⟩ := exposes_differs (x := answering)
    valid_privateRoom hexposes
  have heq := List.map_inj_left.mp
    (hall .sample answering 2 privateRoom t' [.getRoom 4] rfl valid_privateRoom hvalid' hsimilar)
    (.getRoom 4) (List.mem_singleton_self _)
  rw [respond_eq rfl, respond_eq rfl] at heq
  exact hne (Option.some.inj heq)

end NexusChat
