import NexusChat.Api.RoomCalls

/-!
# The views of the memberships

Five queries read who is in which room: the two listings with their counts, the list of members and
the test that `join_room`, `leave_room` and the history make. They join and count differently, and
they describe one relation because the keys hold: a foreign key makes the joins total, and the
unique key makes them list nothing twice.
-/

set_option autoImplicit false

namespace NexusChat

open Routes

/-- The query may return this, with nobody else at the database and whatever the order of rows that
compare equal. -/
def Returns {α : Type} (t : Tables) (p : Call α) (a : α) : Prop :=
  ∃ me d, Coro.Runs (Answers me) Eq p { committed := t, pending := [] } (.ok a) d

/-- The query returns when the database answers as `x`. -/
def Completes {α : Type} (x : DbOutcome) (t : Tables) (p : Call α) : Prop :=
  ∃ a, p.run (DbOp.exec 0) x { committed := t, pending := [] } =
    some (.ok a, { committed := t, pending := [] })

theorem Completes.returns {α : Type} {x : DbOutcome} {t : Tables} {p : Call α}
    (h : Completes x t p) : ∃ a, Returns t p a := by
  obtain ⟨a, ha⟩ := h
  exact ⟨a, 0, _, Coro.runs_of_run (fun _ => rfl) (fun _ _ _ _ hx => ⟨x, hx⟩) ha⟩

/-! ## What the queries return -/

section Queries

open Database

variable {me : TaskId} {t : Tables} {env : Env} {room_id user_id : Uuid}

/-- A query leaves the database alone, and returns what it is to return. -/
def Gives {α : Type} (me : TaskId) (t : Tables) (φ : α → Prop) (out : Except Exn α) (d : Database) :
    Prop :=
  d = within me t [] ∧ ∀ a, out = .ok a → φ a

theorem gives_error {α : Type} {φ : α → Prop} {e : Exn} :
    Gives me t φ (.error e) (within me t []) := ⟨rfl, fun _ ha => nomatch ha⟩

/-- A query that begins with a statement. -/
theorem safe_query {α : Type} {op : DbOp} {f : op.Resp → Call α} {φ : α → Prop}
    (hop : op ≠ .rollback) (hafter : ∀ x d, op.after x me d = d)
    (h : ∀ a, (∃ x, op.reply x t = .ok a) →
      Coro.Safe (Answers me) Eq Free (Gives me t φ) (f a) (within me t [])) :
    Coro.Safe (Answers me) Eq Free (Gives me t φ) (db op >>= f) (within me t []) := by
  refine Coro.safe_perform ?_
  rintro _ rfl res d hx
  obtain ⟨rfl, hreply⟩ := answers_read hop hafter hx
  refine ⟨trivial, ?_⟩
  cases res with
  | error e => exact gives_error
  | ok a => exact h a (hreply a rfl)

theorem safe_roomResponses {rooms : List RoomRow} : Coro.Safe (Answers me) Eq Free
    (Gives me t fun shown => shown = rooms.map fun r => .ofRow r (t.memberCount r.id))
    (RoomService.roomResponses db rooms) (within me t []) := by
  induction rooms with
  | nil => exact ⟨rfl, fun a ha => by cases ha; rfl⟩
  | cons room rooms ih =>
    refine safe_query (by simp) (fun _ _ => rfl) ?_
    rintro count ⟨x, hx⟩
    obtain rfl := Except.ok.inj hx
    refine Coro.safe_bind (ih.mono ?_)
    rintro (e | shown) d ⟨rfl, hshown⟩
    · exact gives_error
    · refine ⟨rfl, fun a ha => ?_⟩
      cases ha
      rw [hshown shown rfl]
      rfl

/-- The rooms in some order, each with its number of members. -/
def Listing (t : Tables) (rows : List RoomRow) (shown : List RoomResponse) : Prop :=
  ∃ order : List RoomRow, order.Perm rows ∧
    shown = order.map fun r => .ofRow r (t.memberCount r.id)

theorem safe_listUserRooms : Coro.Safe (Answers me) Eq Free
    (Gives me t (Listing t (t.userRooms user_id))) (RoomService.listUserRooms db user_id)
    (within me t []) := by
  refine safe_query (by simp) (fun _ _ => rfl) ?_
  rintro rooms ⟨x, hx⟩
  obtain rfl := Except.ok.inj hx
  exact safe_roomResponses.mono fun out d h =>
    ⟨h.1, fun shown ha => ⟨_, x.roomTies.perm _, h.2 shown ha⟩⟩

theorem safe_listPublicRooms : Coro.Safe (Answers me) Eq Free
    (Gives me t (Listing t t.publicRooms)) (RoomService.listPublicRooms db) (within me t []) := by
  refine safe_query (by simp) (fun _ _ => rfl) ?_
  rintro rooms ⟨x, hx⟩
  obtain rfl := Except.ok.inj hx
  exact safe_roomResponses.mono fun out d h =>
    ⟨h.1, fun shown ha => ⟨_, x.roomTies.perm _, h.2 shown ha⟩⟩

theorem safe_isMember : Coro.Safe (Answers me) Eq Free
    (Gives me t fun member => member = (t.membership room_id user_id).isSome)
    (RoomService.isMember db room_id user_id) (within me t []) := by
  refine safe_query (by simp) (fun _ _ => rfl) ?_
  rintro member ⟨x, hx⟩
  obtain rfl := Except.ok.inj hx
  exact ⟨rfl, fun a ha => by cases ha; rfl⟩

theorem safe_getRoomMembers : Coro.Safe (Answers me) Eq Free
    (Gives me t fun members => ∃ rows : List (RoomMemberRow × User),
      rows.Perm (DbOp.memberRows t room_id) ∧ members = rows.map (.ofRow env))
    (RoomService.getRoomMembers db env room_id) (within me t []) := by
  refine safe_query (by simp) (fun _ _ => rfl) ?_
  rintro rows ⟨x, hx⟩
  obtain rfl := Except.ok.inj hx
  exact ⟨rfl, fun a ha => ⟨_, x.memberTies.perm _, by cases ha; rfl⟩⟩

theorem of_returns {α : Type} {p : Call α} {φ : α → Prop}
    (hsafe : ∀ me, Coro.Safe (Answers me) Eq Free (Gives me t φ) p (within me t [])) {a : α}
    (h : Returns t p a) : φ a := by
  obtain ⟨me, d, hruns⟩ := h
  exact ((hsafe me).of_runs hruns).2 a rfl

end Queries

/-! ## One relation -/

section Tables

variable {t : Tables} {room_id user_id : Uuid}

theorem Table.count_filter_of_mem {ρ κ : Type} {key : ρ → κ} [DecidableEq κ] {t : Table ρ key}
    {p : ρ → Bool} {r : ρ} (hr : r ∈ t) (hp : p r = true) :
    ((t.rows.filter p).map key).count (key r) = 1 :=
  List.count_eq_one_of_mem (t.nodup.sublist (List.filter_sublist.map key))
    (List.mem_map_of_mem (List.mem_filter.mpr ⟨hr, hp⟩))

theorem Table.count_filter_of_forall {ρ κ : Type} {key : ρ → κ} [DecidableEq κ] {t : Table ρ key}
    {p : ρ → Bool} {k : κ} (h : ∀ r ∈ t, key r = k → p r = false) :
    ((t.rows.filter p).map key).count k = 0 := by
  refine List.count_eq_zero_of_not_mem fun hmem => ?_
  obtain ⟨r, hr, hk⟩ := List.mem_map.mp hmem
  obtain ⟨hr, hp⟩ := List.mem_filter.mp hr
  rw [h r hr hk] at hp
  cases hp

/-- The memberships of a user in a room are one or none, by the unique key. -/
theorem filter_user_of_isMember (h : t.Valid) (hm : t.IsMember room_id user_id) :
    ∃ m, (t.roomMembers.rows.filter fun m => room_id = m.roomId && m.userId = user_id) = [m] := by
  obtain ⟨m, hm, hroom, huser⟩ := hm
  refine ⟨m, List.perm_singleton.mp ?_⟩
  refine (List.perm_ext_iff_of_nodup ((Table.rows_nodup _).filter _)
    (List.nodup_singleton m)).mpr fun m' => ?_
  rw [List.mem_filter, List.mem_singleton, Bool.and_eq_true, decide_eq_true_eq, decide_eq_true_eq]
  constructor
  · rintro ⟨hm', hroom', huser'⟩
    exact h.members m' hm' m hm (hroom'.symm.trans hroom.symm) (huser'.trans huser.symm)
  · rintro rfl
    exact ⟨hm, hroom.symm, huser⟩

/-- **The join with the memberships lists a room of the user's once.** -/
theorem userRooms_eq (h : t.Valid) :
    t.userRooms user_id = t.rooms.rows.filter fun r => t.IsMember r.id user_id := by
  unfold Tables.userRooms
  induction t.rooms.rows with
  | nil => rfl
  | cons r rows ih =>
    rw [List.flatMap_cons, List.filter_cons, ih]
    by_cases hm : t.IsMember r.id user_id
    · obtain ⟨m, hone⟩ := filter_user_of_isMember h hm
      rw [hone, if_pos (decide_eq_true hm)]
      rfl
    · rw [filter_user_eq_nil hm, if_neg (by simpa using hm)]
      rfl

theorem count_userRooms (h : t.Valid) : ((t.userRooms user_id).map RoomRow.id).count room_id =
    if t.IsMember room_id user_id then 1 else 0 := by
  rw [userRooms_eq h]
  split
  · rename_i hm
    obtain ⟨m, hmem, hroom, -⟩ := id hm
    obtain ⟨r, hr, hid⟩ := h.memberRooms m hmem
    obtain rfl := hid.trans hroom
    exact Table.count_filter_of_mem hr (decide_eq_true hm)
  · rename_i hm
    exact Table.count_filter_of_forall fun r _ hid => by rw [hid]; exact decide_eq_false hm

/-- The room is there and is not private. -/
def Tables.IsPublic (t : Tables) (room_id : Uuid) : Prop :=
  ∃ r ∈ t.rooms, r.id = room_id ∧ r.isPrivate = false

instance : Decidable (t.IsPublic room_id) :=
  inferInstanceAs (Decidable (∃ r ∈ t.rooms.rows, r.id = room_id ∧ r.isPrivate = false))

theorem count_publicRooms : (t.publicRooms.map RoomRow.id).count room_id =
    if t.IsPublic room_id then 1 else 0 := by
  split
  · rename_i hpublic
    obtain ⟨r, hr, rfl, hprivate⟩ := hpublic
    exact Table.count_filter_of_mem hr (by simp [hprivate])
  · rename_i hno
    refine Table.count_filter_of_forall fun r hr hid => ?_
    cases hprivate : r.isPrivate with
    | true => rfl
    | false => exact absurd ⟨r, hr, hid, hprivate⟩ hno

/-- **The join with the users loses no membership**, by the foreign key. -/
theorem map_memberRows (h : t.Valid) : (DbOp.memberRows t room_id).map Prod.fst =
    t.roomMembers.rows.filter fun m => m.roomId = room_id := by
  have hall : ∀ m ∈ t.roomMembers.rows.filter fun m => m.roomId = room_id,
      ∃ u ∈ t.users, u.id = m.userId := fun m hm => h.memberUsers m (List.mem_of_mem_filter hm)
  unfold DbOp.memberRows
  generalize (t.roomMembers.rows.filter fun m => m.roomId = room_id) = rows at hall ⊢
  induction rows with
  | nil => rfl
  | cons m ms ih =>
    obtain ⟨u, hu⟩ := Table.exists_find? (hall m (List.mem_cons_self ..))
    rw [List.filterMap_cons, hu]
    simp only [Option.map_some, List.map_cons]
    rw [ih fun m' hm' => hall m' (List.mem_cons_of_mem _ hm')]

/-- The user of a row is the member. -/
theorem user_of_memberRows {row : RoomMemberRow × User} (h : row ∈ DbOp.memberRows t room_id) :
    row.1 ∈ t.roomMembers ∧ row.1.roomId = room_id ∧ row.2.id = row.1.userId := by
  obtain ⟨m, hm, hrow⟩ := List.mem_filterMap.mp h
  obtain ⟨hmem, hroom⟩ := List.mem_filter.mp hm
  obtain ⟨u, hu, rfl⟩ := Option.map_eq_some_iff.mp hrow
  exact ⟨hmem, of_decide_eq_true hroom, of_decide_eq_true (Table.find?_eq_some hu).2⟩

/-- The users of the rows, each once. -/
theorem users_memberRows (h : t.Valid) : (DbOp.memberRows t room_id).map (fun row => row.2.id) =
    (t.roomMembers.rows.filter fun m => m.roomId = room_id).map RoomMemberRow.userId := by
  rw [← map_memberRows h, List.map_map]
  exact List.map_congr_left fun row hrow => (user_of_memberRows hrow).2.2

theorem nodup_users (h : t.Valid) :
    ((DbOp.memberRows t room_id).map fun row => row.2.id).Nodup := by
  rw [users_memberRows h]
  refine List.Nodup.map_on (fun m hm m' hm' heq => ?_) ((Table.rows_nodup _).filter _)
  obtain ⟨hmem, hroom⟩ := List.mem_filter.mp hm
  obtain ⟨hmem', hroom'⟩ := List.mem_filter.mp hm'
  exact h.members m hmem m' hmem'
    ((of_decide_eq_true hroom).trans (of_decide_eq_true hroom').symm) heq

theorem mem_users_iff (h : t.Valid) :
    user_id ∈ (DbOp.memberRows t room_id).map (fun row => row.2.id) ↔
      t.IsMember room_id user_id := by
  rw [users_memberRows h, List.mem_map]
  simp only [List.mem_filter, decide_eq_true_eq, Tables.IsMember, Table.mem_def, and_assoc]

theorem length_memberRows (h : t.Valid) :
    (DbOp.memberRows t room_id).length = t.memberCount room_id := by
  rw [Tables.memberCount, ← map_memberRows h, List.length_map]

end Tables

/-! ## The views agree -/

/-- What the calls say about a user and a room. -/
structure ViewsAgree (lib : AuthLib) (env : Env) (es : List Entry) (t : Tables)
    (user_id room_id : Uuid) : Prop where
  isMember : ∀ v member, Returns t (RoomService.isMember db room_id v) member →
    (member = true ↔ t.IsMember room_id v)
  userRooms : ∀ rooms member, Returns t (RoomService.listUserRooms db user_id) rooms →
    Returns t (RoomService.isMember db room_id user_id) member →
    (rooms.map RoomResponse.id).count room_id = if member = true then 1 else 0
  publicRooms : ∀ rooms, Returns t (RoomService.listPublicRooms db) rooms →
    (rooms.map RoomResponse.id).count room_id = if t.IsPublic room_id then 1 else 0
  counts : ∀ rooms members, Returns t (RoomService.listUserRooms db user_id) rooms ∨
    Returns t (RoomService.listPublicRooms db) rooms →
    Returns t (RoomService.getRoomMembers db env room_id) members →
    ∀ room ∈ rooms, room.id = room_id → room.memberCount = members.length
  /-- each member is listed once, and an administrator made the room -/
  members : ∀ members, Returns t (RoomService.getRoomMembers db env room_id) members →
    ∃ rows : List (RoomMemberRow × User), members = rows.map (.ofRow env) ∧
      (rows.map fun row => row.2.id).Nodup ∧
      (∀ v, v ∈ rows.map (fun row => row.2.id) ↔ t.IsMember room_id v) ∧
      ∀ row ∈ rows, row.1.userId = row.2.id ∧ (row.1.role = .admin → MadeByCreate es row.1)
  /-- a database that answers answers the four queries -/
  answered : ∀ x : DbOutcome, x.ok = true →
    Completes x t (RoomService.listUserRooms db user_id) ∧
    Completes x t (RoomService.listPublicRooms db) ∧
    Completes x t (RoomService.isMember db room_id user_id) ∧
    Completes x t (RoomService.getRoomMembers db env room_id)
  join : ∀ me (x : DbOutcome), x.ok = true → x.uuid ∉ t.ids → ∃ out d,
    alone lib me (.joinRoom room_id user_id) x t = some (out, d) ∧
    ((∃ a, out = .ok a) ↔ (∃ r ∈ t.rooms, r.id = room_id) ∧ ¬t.IsMember room_id user_id)
  leave : ∀ me (x : DbOutcome), x.ok = true → ∃ out d,
    alone lib me (.leaveRoom room_id user_id) x t = some (out, d) ∧
    ((∃ a, out = .ok a) ↔ t.IsMember room_id user_id)

section Agreement

variable {lib : AuthLib} {env : Env} {t : Tables} {es : List Entry} {user_id room_id : Uuid}
  {users : Table User User.id}

/-- A listing counts an id as often as the rows it shows do. -/
theorem Listing.count {rows : List RoomRow} {shown : List RoomResponse} (h : Listing t rows shown) :
    (shown.map RoomResponse.id).count room_id = (rows.map RoomRow.id).count room_id := by
  obtain ⟨order, hperm, rfl⟩ := h
  rw [List.map_map]
  exact (hperm.map RoomRow.id).count_eq room_id

theorem Listing.memberCount {rows : List RoomRow} {shown : List RoomResponse}
    (h : Listing t rows shown) {room : RoomResponse} (hroom : room ∈ shown) :
    room.memberCount = t.memberCount room.id := by
  obtain ⟨order, -, rfl⟩ := h
  obtain ⟨r, -, rfl⟩ := List.mem_map.mp hroom
  rfl

theorem join_iff (hvalid : t.Valid) (huser : ∃ u ∈ t.users, u.id = user_id) (me : TaskId)
    {x : DbOutcome} (hok : x.ok = true) (hid : x.uuid ∉ t.ids) :
    ∃ out d, alone lib me (.joinRoom room_id user_id) x t = some (out, d) ∧
      ((∃ a, out = .ok a) ↔ (∃ r ∈ t.rooms, r.id = room_id) ∧ ¬t.IsMember room_id user_id) := by
  by_cases hmember : t.IsMember room_id user_id
  · obtain ⟨m, hm, hroom, huid⟩ := id hmember
    obtain ⟨r, hr, hrid⟩ := hvalid.memberRooms m hm
    refine ⟨_, _, alone_join_member lib me hok ⟨r, hr, hrid.trans hroom⟩ hmember, ?_⟩
    exact iff_of_false (fun ⟨_, h⟩ => nomatch h) fun h => h.2 hmember
  · by_cases hroom : ∃ r ∈ t.rooms, r.id = room_id
    · refine ⟨_, _, alone_join lib me hok huser hroom hmember hid, ?_⟩
      exact iff_of_true ⟨_, rfl⟩ ⟨hroom, hmember⟩
    · refine ⟨_, _, alone_join_noRoom lib me hok fun r hr hrid => hroom ⟨r, hr, hrid⟩, ?_⟩
      exact iff_of_false (fun ⟨_, h⟩ => nomatch h) fun h => hroom h.1

theorem leave_iff (me : TaskId) {x : DbOutcome} (hok : x.ok = true) :
    ∃ out d, alone lib me (.leaveRoom room_id user_id) x t = some (out, d) ∧
      ((∃ a, out = .ok a) ↔ t.IsMember room_id user_id) := by
  by_cases hmember : t.IsMember room_id user_id
  · obtain ⟨m, hm⟩ := Option.isSome_iff_exists.mp (Tables.isSome_membership.mpr hmember)
    exact ⟨_, _, alone_leave lib me hok hm, iff_of_true ⟨_, rfl⟩ hmember⟩
  · refine ⟨_, _, alone_leave_outsider lib me hok hmember, ?_⟩
    exact iff_of_false (fun ⟨_, h⟩ => nomatch h) hmember

theorem answered_queries {x : DbOutcome} (hok : x.ok = true) :
    Completes x t (RoomService.listUserRooms db user_id) ∧
    Completes x t (RoomService.listPublicRooms db) ∧
    Completes x t (RoomService.isMember db room_id user_id) ∧
    Completes x t (RoomService.getRoomMembers db env room_id) := by
  refine ⟨⟨(x.roomTies.order (t.userRooms user_id)).map fun r => .ofRow r (t.memberCount r.id), ?_⟩,
    ⟨(x.roomTies.order t.publicRooms).map fun r => .ofRow r (t.memberCount r.id), ?_⟩,
    ⟨(t.membership room_id user_id).isSome, ?_⟩, ⟨_, run_getRoomMembers hok⟩⟩
  · unfold RoomService.listUserRooms
    rw [run_reads (fun _ _ => ⟨rfl, rfl, rfl⟩) hok]
    exact run_roomResponses hok
  · unfold RoomService.listPublicRooms
    rw [run_reads (fun _ _ => ⟨rfl, rfl, rfl⟩) hok]
    exact run_roomResponses hok
  · unfold RoomService.isMember
    rw [run_reads (fun _ _ => ⟨rfl, rfl, rfl⟩) hok]
    rfl

/-- **The views of the memberships agree** in every state that calls of `create_room`, `join_room`
and `leave_room` lead to, for every user and every room. -/
theorem views_agree (h : History lib (.withUsers users) es t) (env : Env)
    (huser : ∃ u ∈ users, u.id = user_id) (room_id : Uuid) :
    ViewsAgree lib env es t user_id room_id := by
  obtain ⟨hvalid, husers, hadmins⟩ := h.invariants
  have hmember : ∀ v member, Returns t (RoomService.isMember db room_id v) member →
      (member = true ↔ t.IsMember room_id v) := fun v member hr => by
    rw [of_returns (fun _ => safe_isMember) hr]
    exact Tables.isSome_membership
  refine ⟨hmember, fun rooms member hr hm => ?_, fun rooms hr => ?_,
    fun rooms members hr hm room hroom hid => ?_, fun members hm => ?_, fun x hok => ?_,
    fun me x hok hid => join_iff hvalid (husers ▸ huser) me hok hid,
    fun me x hok => leave_iff me hok⟩
  · rw [(of_returns (fun _ => safe_listUserRooms) hr).count, count_userRooms hvalid]
    exact if_congr (hmember user_id member hm).symm rfl rfl
  · rw [(of_returns (fun _ => safe_listPublicRooms) hr).count, count_publicRooms]
  · obtain ⟨rows, hperm, rfl⟩ := of_returns (fun _ => safe_getRoomMembers) hm
    rw [List.length_map, hperm.length_eq, length_memberRows hvalid, ← hid]
    rcases hr with hr | hr
    · exact (of_returns (fun _ => safe_listUserRooms) hr).memberCount hroom
    · exact (of_returns (fun _ => safe_listPublicRooms) hr).memberCount hroom
  · obtain ⟨rows, hperm, rfl⟩ := of_returns (fun _ => safe_getRoomMembers) hm
    have hids := hperm.map fun row => row.2.id
    refine ⟨rows, rfl, hids.nodup_iff.mpr (nodup_users hvalid), fun v => ?_, fun row hrow => ?_⟩
    · exact hids.mem_iff.trans (mem_users_iff hvalid)
    · obtain ⟨hmem, -, hid⟩ := user_of_memberRows (hperm.mem_iff.mp hrow)
      exact ⟨hid.symm, hadmins row.1 hmem⟩
  · exact answered_queries hok

end Agreement

/-! ## A creator who leaves and comes back -/

namespace RoomCall.Sample

/-- Calls that all return, each under one outcome. -/
def carryOut (lib : AuthLib) : List (RoomCall × DbOutcome) → List Entry → Tables →
    Option (List Entry × Tables)
  | [], es, t => some (es, t)
  | (call, x) :: calls, es, t =>
    match alone lib 0 call.request x t with
    | some (.ok a, d) => carryOut lib calls (es ++ [⟨t, call, .ok a, d.committed⟩]) d.committed
    | _ => none

theorem history_of_carryOut {lib : AuthLib} {t₀ : Tables} {calls : List (RoomCall × DbOutcome)}
    {es es' : List Entry} {t t' : Tables} (h : History lib t₀ es t)
    (hrun : carryOut lib calls es t = some (es', t')) : History lib t₀ es' t' := by
  induction calls generalizing es t with
  | nil =>
    cases hrun
    exact h
  | cons call calls ih =>
    obtain ⟨call, x⟩ := call
    simp only [carryOut] at hrun
    split at hrun
    · rename_i a d halone
      have hruns : Coro.Runs (Answers 0) Eq (prog lib call.request)
          { committed := t, pending := [] } (.ok a) d :=
        Coro.runs_of_run (fun _ => rfl) (fun _ _ _ _ hx => ⟨x, hx⟩) halone
      exact ih (h.snoc (executed_of_runs hruns) (.inl ⟨a, rfl⟩)) hrun
    · cases hrun

def outcome (id : Uuid) : DbOutcome where
  ok := true
  executed := true
  now := Env.newYear
  uuid := id
  ties := .stable

/-- User 1 makes a private room, user 2 joins it, and user 1 leaves and joins again. -/
def comesBack : List (RoomCall × DbOutcome) :=
  [(.create ⟨"secret", none, true⟩ 1, outcome 10), (.join 10 2, outcome 11),
    (.leave 10 1, outcome 12), (.join 10 1, outcome 13)]

/-- Two members, neither of them an administrator. -/
def ordinary (s : List Entry × Tables) : Bool :=
  s.2.roomMembers.rows.map (fun m => (m.userId, m.role)) = [(2, .member), (1, .member)]

end RoomCall.Sample

open RoomCall.Sample in
/-- Nobody is an administrator any more, and the views agree. -/
theorem views_agree_comesBack : ∃ es t,
    History Security.Sample.plain (.withUsers Tables.sample.users) es t ∧
    t.roomMembers.rows.map (fun m => (m.userId, m.role)) = [(2, .member), (1, .member)] ∧
    ViewsAgree Security.Sample.plain .sample es t 1 10 := by
  have hrun : ((carryOut Security.Sample.plain comesBack [] (.withUsers Tables.sample.users)).any
      ordinary) = true := by
    decide +kernel
  obtain ⟨⟨es, t⟩, hs, htest⟩ := (Option.any_eq_true _ _).mp hrun
  have h := history_of_carryOut (.nil (t := .withUsers Tables.sample.users)) hs
  exact ⟨es, t, h, of_decide_eq_true htest, views_agree h .sample (by decide +kernel) 10⟩

end NexusChat
