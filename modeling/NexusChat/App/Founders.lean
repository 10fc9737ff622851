import NexusChat.App.Integrity
import NexusChat.App.Moves

/-!
# Who founds a room

`create_room` writes a room and its creator's membership in one transaction, and nothing else
writes a membership with the role of an admin. So an admin is the creator of the room, and is its
only admin; and as an admin who leaves comes back as a plain member, a room whose creator has left
has no admin again. The other rule of the services about a row is that of `_handle_message` about
the length of a message. Both hold in every run, with the keys of `Integrity`.
-/

set_option autoImplicit false

namespace NexusChat

/-! ## The rules -/

/-- What `_handle_message` lets through. -/
def MessageRow.Sized (m : MessageRow) : Prop := m.content ≠ "" ∧ m.content.length ≤ 5000

/-- The room is the member's own. -/
def RoomMemberRow.Founds (m : RoomMemberRow) (r : RoomRow) : Prop :=
  r.id = m.roomId ∧ r.createdBy = some m.userId

namespace Tables

/-- The keys hold, every message has a length that is allowed, and an admin has founded the room. -/
structure Intact (t : Tables) : Prop extends t.Keyed where
  contents : ∀ m ∈ t.messages, m.Sized
  admins : ∀ m ∈ t.roomMembers, m.role = .admin → ∃ r ∈ t.rooms, m.Founds r

/-- Some member of the room is an admin. -/
def HasAdmin (t : Tables) (room_id : Uuid) : Prop :=
  ∃ m ∈ t.roomMembers, m.roomId = room_id ∧ m.role = .admin

/-- A room has one admin at most. -/
theorem Intact.admin_unique {t : Tables} (h : t.Intact) {m m' : RoomMemberRow}
    (hm : m ∈ t.roomMembers) (hm' : m' ∈ t.roomMembers) (hadmin : m.role = .admin)
    (hadmin' : m'.role = .admin) (hroom : m.roomId = m'.roomId) : m = m' := by
  obtain ⟨r, hr, hid, hcreated⟩ := h.admins m hm hadmin
  obtain ⟨r', hr', hid', hcreated'⟩ := h.admins m' hm' hadmin'
  have hsame : r = r' := Table.eq_of_key hr hr' (by rw [hid, hid', hroom])
  subst hsame
  exact h.members m hm m' hm' hroom (Option.some.inj (hcreated.symm.trans hcreated'))

end Tables

/-- The statement keeps to the rules: what it inserts is allowed, and an admin is made in the
transaction that has made the room. -/
def DbOp.Lawful (me : TaskId) (d : Database) : DbOp → Prop
  | .insertMessage _ _ content _ _ => content ≠ "" ∧ content.length ≤ 5000
  | .insertMember room_id user_id .admin =>
    ∃ r, .addRoom r ∈ d.flushed me ∧ r.id = room_id ∧ r.createdBy = some user_id
  | _ => True

namespace Database

/-- The rules hold in what is committed and in what is about to be. -/
structure Lawful (d : Database) : Prop where
  sound : d.Sound
  contents : ∀ m ∈ d.committed.messages, m.Sized
  pendingContents : ∀ i m, .addMessage m ∈ d.flushed i → m.Sized
  admins : ∀ m ∈ d.committed.roomMembers, m.role = .admin → ∃ r ∈ d.committed.rooms, m.Founds r
  pendingAdmins : ∀ i m, .addMember m ∈ d.flushed i → m.role = .admin →
    ∃ r, .addRoom r ∈ d.flushed i ∧ m.Founds r

variable {d d' : Database} {me : TaskId}

theorem lawful_init {t : Tables} (h : t.Intact) : Lawful { committed := t, pending := [] } where
  sound := sound_init h.toKeyed
  contents := h.contents
  pendingContents := fun _ _ hm => by cases hm
  admins := h.admins
  pendingAdmins := fun _ _ hm => by cases hm

theorem Lawful.intact (h : d.Lawful) : d.committed.Intact where
  toKeyed := h.sound.keyed.1
  contents := h.contents
  admins := h.admins

/-- A member a transaction sees was committed, or the transaction has added it. -/
theorem Sound.mem_members_view (h : d.Sound) {m : RoomMemberRow}
    (hm : m ∈ (d.view me).roomMembers) :
    m ∈ d.committed.roomMembers ∨ .addMember m ∈ d.flushed me := by
  have hrow : .member m ∈ d.transactions.view me := by
    rw [← h.rowSet_view me]
    exact hm
  rcases Constraints.mem_of_foldl hrow with hold | hnew
  · exact .inl hold
  · obtain ⟨w, hw, hpending⟩ := DbOp.mem_flushed_of_add hnew
    refine .inr (mem_flushed.mpr ?_)
    cases w <;> cases hw
    exact hpending

/-- A transaction sees the rooms that are committed and those it has added. -/
theorem Sound.mem_rooms_view (h : d.Sound) {r : RoomRow}
    (hr : r ∈ d.committed.rooms ∨ .addRoom r ∈ d.flushed me) : r ∈ (d.view me).rooms := by
  have hrow : .room r ∈ d.transactions.view me := by
    rcases hr with hold | hnew
    · exact Constraints.fixed_foldl (h.pending me) hold trivial
    · exact Constraints.mem_foldl_of_add (h.pending me) (List.mem_map_of_mem hnew) trivial
  rw [← h.rowSet_view me] at hrow
  exact hrow

/-- A room that a transaction has added has an id that no committed room has. -/
theorem Sound.new_room (h : d.Sound) {r r' : RoomRow} (hr : .addRoom r ∈ d.flushed me)
    (hr' : r' ∈ d.committed.rooms) : r.id ≠ r'.id := by
  have hadded : .add (.room r) ∈ d.transactions.pending me := List.mem_map_of_mem hr
  have hkept : Row.room r' ∈ schema.fixed := trivial
  exact Constraints.not_clash_of_add (h.pending me) hadded hr' hkept

/-- A statement of a transaction keeps the rules. -/
theorem Lawful.flush (h : d.Lawful) {wr : Write} (hsound : (d.flush me wr).Sound)
    (hmessage : ∀ m, wr = .addMessage m → m.Sized)
    (hadmin : ∀ m, wr = .addMember m → m.role = .admin →
      ∃ r, .addRoom r ∈ d.flushed me ∧ m.Founds r) : (d.flush me wr).Lawful where
  sound := hsound
  contents := h.contents
  pendingContents := by
    intro i m hm
    by_cases hi : i = me
    · rw [hi, flushed_flush_self] at hm
      rcases List.mem_append.mp hm with hm | hm
      · exact h.pendingContents me m hm
      · exact hmessage m (List.mem_singleton.mp hm).symm
    · rw [flushed_flush_other hi] at hm
      exact h.pendingContents i m hm
  admins := h.admins
  pendingAdmins := by
    intro i m hm hrole
    by_cases hi : i = me
    · rw [hi, flushed_flush_self] at hm ⊢
      have hfounded : ∃ r, .addRoom r ∈ d.flushed me ∧ m.Founds r := by
        rcases List.mem_append.mp hm with hm | hm
        · exact h.pendingAdmins me m hm hrole
        · exact hadmin m (List.mem_singleton.mp hm).symm hrole
      obtain ⟨r, hr, hfounds⟩ := hfounded
      exact ⟨r, List.mem_append_left _ hr, hfounds⟩
    · rw [flushed_flush_other hi] at hm ⊢
      exact h.pendingAdmins i m hm hrole

/-- So does the end of a transaction. -/
theorem Lawful.ends (h : d.Lawful) (hsound : d'.Sound) (hself : d'.flushed me = [])
    (hothers : ∀ i, i ≠ me → d'.flushed i = d.flushed i)
    (hcontents : ∀ m ∈ d'.committed.messages, m.Sized)
    (hadmins : ∀ m ∈ d'.committed.roomMembers, m.role = .admin →
      ∃ r ∈ d'.committed.rooms, m.Founds r) : d'.Lawful where
  sound := hsound
  contents := hcontents
  pendingContents := by
    intro i m hm
    by_cases hi : i = me
    · rw [hi, hself] at hm
      cases hm
    · rw [hothers i hi] at hm
      exact h.pendingContents i m hm
  admins := hadmins
  pendingAdmins := by
    intro i m hm hrole
    by_cases hi : i = me
    · rw [hi, hself] at hm
      cases hm
    · rw [hothers i hi] at hm ⊢
      exact h.pendingAdmins i m hm hrole

/-- An operation adds no admin to a room that is there. -/
theorem Lawful.admins_exec (h : d.Lawful) {op : DbOp} {x : DbOutcome} {r : Except Exn op.Resp}
    (hx : op.exec me x d = some (r, d')) {room : RoomRow} (hroom : room ∈ d.committed.rooms) :
    room ∈ d'.committed.rooms ∧ ∀ m ∈ d'.committed.roomMembers, m.roomId = room.id →
      m.role = .admin → m ∈ d.committed.roomMembers := by
  have hsame : d'.committed = d.committed → room ∈ d'.committed.rooms ∧
      ∀ m ∈ d'.committed.roomMembers, m.roomId = room.id → m.role = .admin →
        m ∈ d.committed.roomMembers := by
    intro he
    rw [he]
    exact ⟨hroom, fun m hm _ _ => hm⟩
  rcases DbOp.exec_cases hx with rfl | ⟨wr, -, -, rfl⟩ | ⟨-, -, rfl⟩ | rfl
  · exact hsame rfl
  · exact hsame rfl
  · refine ⟨h.sound.mem_rooms_view (.inl hroom), fun m hm hin hrole => ?_⟩
    rcases h.sound.mem_members_view hm with hold | hnew
    · exact hold
    · -- its transaction has made the room, so the room was not there
      obtain ⟨founded, hfounded, hid, -⟩ := h.pendingAdmins me m hnew hrole
      exact absurd (hid.trans hin) (h.sound.new_room hfounded hroom)
  · exact hsame rfl

/-- **An operation that keeps to the rules keeps them.** -/
theorem Lawful.exec (h : d.Lawful) {op : DbOp} {x : DbOutcome} {r : Except Exn op.Resp}
    (hop : op.Lawful me d) (hx : op.exec me x d = some (r, d')) : d'.Lawful := by
  have hsound : d'.Sound := h.sound.exec hx
  have hothers : ∀ i, i ≠ me → d'.flushed i = d.flushed i := fun i hi => DbOp.flushed_exec hx hi
  rcases DbOp.exec_cases hx with rfl | ⟨wr, hw, -, rfl⟩ | ⟨-, -, rfl⟩ | rfl
  · exact h
  · refine h.flush hsound (fun m hm => ?_) fun m hm hrole => ?_
    · subst hm
      cases op with
      | insertMessage room_id sender_id content message_type key =>
        obtain ⟨k, -, -, rfl, -⟩ := DbOp.messageRow_eq_ok.mp hw
        exact hop
      | _ => exact hw.elim
    · subst hm
      cases op with
      | insertMember room_id user_id role =>
        obtain ⟨rfl, -⟩ := DbOp.checkMember_eq_ok hw
        cases role with
        | admin =>
          obtain ⟨room, hroom, hid, hcreated⟩ := hop
          exact ⟨room, hroom, hid, hcreated⟩
        | member => cases hrole
      | _ => exact hw.elim
  · refine h.ends hsound flushed_commit_self hothers (fun m hm => ?_) fun m hm hrole => ?_
    · rcases Tables.mem_messages_of_foldl hm with hold | hnew
      · exact h.contents m hold
      · exact h.pendingContents me m hnew
    · rcases h.sound.mem_members_view hm with hold | hnew
      · obtain ⟨room, hroom, hfounds⟩ := h.admins m hold hrole
        exact ⟨room, h.sound.mem_rooms_view (.inl hroom), hfounds⟩
      · obtain ⟨room, hroom, hfounds⟩ := h.pendingAdmins me m hnew hrole
        exact ⟨room, h.sound.mem_rooms_view (.inr hroom), hfounds⟩
  · exact h.ends hsound flushed_forget_self hothers h.contents h.admins

end Database

/-! ## Every program keeps to them -/

/-- Rules and all, and a transaction's statements are its own. -/
def founding : Discipline where
  good w := w.db.Lawful
  unborn _ _ := True
  permits _ _ _ _ := True
  rely me _ w w' := w'.db.flushed me = w.db.flushed me
  guarantee me _ w w' := w'.db.Lawful ∧
    ∀ other, other ≠ me → w'.db.flushed other = w.db.flushed other
  idle _ _ _ := True

section Programs

variable {env : Env} {me : TaskId} {a : Activity} {w w' : World}

instance : IsTrans World (founding.rely me a) where
  trans _ _ _ hab hbc := hbc.trans hab

theorem founding_exec {op : Op} {r : Except Exn op.Resp} (h : founding.Exec env me a op w r w')
    (hop : ∀ o, op = .db o → o.Lawful me w.db) : founding.guarantee me a w w' := by
  obtain ⟨hgood, -, x, hx⟩ := h
  rcases Op.exec_db hx with he | ⟨o, r', rfl, ho⟩
  · refine ⟨?_, fun _ _ => by rw [he]⟩
    rw [he]
    exact hgood
  · exact ⟨hgood.exec (hop o rfl) ho, fun other hne => DbOp.flushed_exec ho hne⟩

/-- The operations that keep to the rules whatever their transaction has done before. -/
def Op.Minor : Op → Prop
  | .db (.insertMember _ _ role) => role = .member
  | .db (.insertMessage _ _ content _ _) => content ≠ "" ∧ content.length ≤ 5000
  | _ => True

theorem Op.Minor.lawful {o : DbOp} {d : Database} (h : (Op.db o).Minor) : o.Lawful me d := by
  cases o with
  | insertMember room_id user_id role =>
    obtain rfl : role = .member := h
    trivial
  | insertMessage room_id sender_id content message_type key => exact h
  | _ => trivial

theorem Op.Quiet.minor {op : Op} (h : op.Quiet) : op.Minor := by
  cases op with
  | db o => exact absurd h id
  | _ => trivial

theorem founding_minor {α : Type} {Q : Except Exn α → World → Prop} {p : Prog α}
    (hp : p.All Op.Minor) (hQ : ∀ r w, Q r w) : founding.Keeps env me a Q p w := by
  have hop : ∀ op : Op, op.Minor → ∀ w (r : Except Exn op.Resp) w', True →
      founding.Exec env me a op w r w' → founding.guarantee me a w w' ∧ True := by
    intro op hminor w r w' _ hx
    refine ⟨founding_exec hx fun o he => ?_, trivial⟩
    subst he
    exact hminor.lawful
  exact Coro.Safe.of_all (I := fun _ => True) (fun _ _ _ _ => trivial) hop (fun r w _ => hQ r w) hp
    trivial

/-- `create_room` makes the creator an admin of the room it has just made. -/
theorem founding_createRoom {data : RoomCreate} {user_id : Uuid} :
    founding.Keeps env me a (fun _ _ => True) (RoomService.createRoom dbOp data user_id) w := by
  refine Coro.safe_perform fun w₁ _ r w₂ hx => ⟨founding_exec hx fun o ho => ?_, ?_⟩
  · cases ho
    trivial
  · cases r with
    | error e => trivial
    | ok room =>
      obtain ⟨-, -, x, hx⟩ := hx
      obtain ⟨d, hd, rfl⟩ := Op.exec_dbOp hx
      obtain ⟨hanswer, hafter⟩ := DbOp.exec_eq_some hd
      have hchecked : DbOp.checkRoom (w₁.db.view me) _ = .ok room :=
        (DbOp.answer_eq_ok (by simp) hanswer.symm).2
      obtain ⟨rfl, -⟩ := DbOp.checkRoom_iff hchecked
      have hflushed :
          .addRoom (DbOp.newRoom x.db data.name data.description data.isPrivate user_id) ∈
            d.flushed me := by
        simp only [DbOp.after, ← hanswer] at hafter
        rw [hafter, Database.flushed_flush_self]
        exact List.mem_append_right _ (List.mem_singleton_self _)
      refine Coro.safe_perform fun w₃ hrely r w₄ hx => ⟨founding_exec hx fun o ho => ?_, ?_⟩
      · cases ho
        have hsame : w₃.db.flushed me = d.flushed me := hrely
        exact ⟨_, by rw [hsame]; exact hflushed, rfl, rfl⟩
      · cases r with
        | error e => trivial
        | ok _ =>
          exact founding_minor (Coro.all_bind (all_dbOp trivial) fun _ => trivial)
            fun _ _ => trivial

/-- A session around a body that keeps to the rules. -/
theorem founding_session {α : Type} {body : Prog α}
    (h : founding.Keeps env me a (fun _ _ => True) body w) :
    founding.Keeps env me a (fun _ _ => True) (getDbSession dbOp body) w := by
  have hclose : ∀ {b : α} {w : World}, founding.Keeps env me a (fun _ _ => True)
      (dbOp .rollback >>= fun _ => (pure b : Prog α)) w :=
    founding_minor (Coro.all_bind (all_dbOp trivial) fun _ => trivial) fun _ _ => trivial
  refine Coro.safe_bind (Coro.safe_tryCatch (Coro.safe_bind (h.mono fun r w _ => ?_)))
  have hraise : ∀ {e : Exn} {w : World} {Q : Except Exn α → World → Prop},
      (∀ e w, Q (.error e) w) → founding.Keeps env me a Q
        (dbOp .rollback >>= fun _ => (throw e : Prog α)) w := by
    intro e w Q hQ
    refine Coro.safe_perform fun w₁ _ r w₂ hx => ⟨founding_exec hx fun o ho => ?_, ?_⟩
    · cases ho
      trivial
    · cases r with
      | error e' => exact hQ e' w₂
      | ok _ => exact hQ e w₂
  cases r with
  | error e => exact hraise fun _ _ => trivial
  | ok b =>
    refine Coro.safe_perform fun w₁ _ r w₂ hx => ⟨founding_exec hx fun o ho => ?_, ?_⟩
    · cases ho
      trivial
    · cases r with
      | error e => exact hraise fun _ _ => trivial
      | ok _ => exact hclose

theorem founding_request {r : Request} :
    founding.Keeps env me a (fun _ _ => True) r.prog w := by
  have hdb : ∀ {o : DbOp}, (Op.db o).Minor → (dbOp o).All Op.Minor := fun ho => all_dbOp ho
  cases r with
  | createRoom data user_id =>
    refine founding_session (Coro.safe_bind (founding_createRoom.mono fun r w _ => ?_))
    cases r <;> trivial
  | joinRoom room_id user_id =>
    refine founding_session (founding_minor (Coro.all_bind ?_ fun _ => trivial) fun _ _ => trivial)
    refine Coro.all_bind (Coro.all_bind (hdb trivial) fun room => ?_) fun _ =>
      Coro.all_bind (hdb trivial) fun member => ?_
    · cases room <;> trivial
    · cases member with
      | none => exact hdb rfl
      | some m => trivial
  | leaveRoom room_id user_id =>
    refine founding_session (founding_minor (Coro.all_bind (hdb trivial) fun member => ?_)
      fun _ _ => trivial)
    cases member with
    | none => trivial
    | some m => exact hdb trivial

/-- A message that is stored has been found to have a length that is allowed. -/
theorem founding_handleMessage {user_id : UserId} {username : String} {event_data : Json} :
    (Chat.handleMessage env user_id username event_data).All Op.Minor := by
  have hquiet : ∀ op : Op, op.Quiet → op.Minor := fun _ => Op.Quiet.minor
  rw [Chat.handleMessage_eq]
  refine Coro.all_bind (Coro.all_ofExcept _) fun d => ?_
  unfold Chat.handleRead
  split
  · exact all_sendToUser hquiet
  · rename_i hread
    split
    · exact all_sendToUser hquiet
    · rename_i hlong
      simp only [Bool.or_eq_true, Bool.not_eq_true', decide_eq_true_eq, not_or] at hread
      refine Coro.all_bind (Chat.all_storeMessage ?_) fun _ => all_publish hquiet trivial
      exact ⟨trivial, fun _ _ _ _ => ⟨hread.2, Nat.le_of_not_lt hlong⟩, trivial, trivial, trivial⟩

theorem founding_handleFrame {user_id : UserId} {username : String} {data : Json} :
    (Chat.handleFrame env user_id username data).All Op.Minor := by
  have hquiet : ∀ op : Op, op.Quiet → op.Minor := fun _ => Op.Quiet.minor
  rw [Chat.handleFrame_eq]
  refine Coro.all_bind (Coro.all_ofExcept _) fun event => Coro.all_bind (Coro.all_ofExcept _)
    fun event_data => Coro.all_bind (all_rateLimited hquiet) fun limited => ?_
  split
  · exact all_sendToUser hquiet
  · apply Chat.dispatch_cases
    · intro _
      exact all_handleJoinRoom hquiet (fun _ _ => trivial) trivial (fun _ => trivial)
        (fun _ _ => trivial) (fun _ => trivial) fun _ => trivial
    · intro _
      exact all_handleLeaveRoom hquiet (fun _ _ => trivial) fun _ _ => trivial
    · exact fun _ => founding_handleMessage
    · exact fun _ => all_handleTyping hquiet fun _ _ => trivial
    · exact fun _ => all_handleTyping hquiet fun _ _ => trivial
    · exact fun _ => all_sendToUser hquiet

theorem founding_sound : founding.Sound env Always where
  refl := fun _ _ _ => rfl
  trans := fun _ _ => inferInstance
  idle_stable := fun _ _ _ _ _ _ _ _ _ _ => trivial
  permits_run := fun _ _ _ => trivial
  good_run := fun _ hg => hg.1
  unborn_run := fun _ _ _ => trivial
  rely_run := fun _ _ _ hji _ _ hg => hg.2 _ hji
  env_good := fun hl _ hs hgood => by
    show Database.Lawful _
    rw [(System.stores_env hl hs).1]
    exact hgood
  env_rely := fun hl _ hs _ me a => by
    show Database.flushed _ me = _
    rw [(System.stores_env hl hs).1]
  env_unborn := fun _ _ _ _ _ => trivial
  connect := fun _ _ => founding_minor (all_connect trivial trivial (fun _ => trivial)
    (fun _ _ => trivial) (fun _ => trivial) fun _ => trivial) fun _ _ _ _ => trivial
  request := fun _ _ => founding_request
  forced := fun _ _ => founding_minor (all_forceDisconnect trivial (fun _ => trivial) trivial
    trivial) fun _ _ => trivial
  frame := fun _ _ _ _ _ => founding_minor founding_handleFrame fun _ _ => trivial
  send := fun _ => founding_minor (all_sendToUser fun _ => Op.Quiet.minor) fun _ _ => trivial
  cleanup := fun _ => founding_minor (all_cleanup (fun _ => Op.Quiet.minor) (fun _ => trivial)
    trivial (fun _ => trivial) trivial) fun _ _ => trivial

end Programs

/-! ## Every run -/

theorem lawful_reach {env : Env} {t : Tables} (ht : t.Intact) {s : System}
    (hr : Reach (System.step env) Always (.init t) s) : s.world.db.Lawful :=
  have hinit := Discipline.inv_init (Database.lawful_init ht) fun _ => trivial
  (founding_sound.inv_reach hinit hr).good

/-- **The tables stay intact** in every run of any number of sessions and requests: what is
committed keeps the unique and foreign keys, every message has a length that is allowed, and every
admin has founded the room; and what a transaction in progress sees keeps the keys as well. -/
theorem System.tables_intact {env : Env} {t : Tables} (ht : t.Intact) {s : System}
    (hr : Reach (System.step env) Always (.init t) s) :
    s.world.db.committed.Intact ∧ ∀ i, (s.world.db.view i).Keyed := by
  have h := lawful_reach ht hr
  exact ⟨h.intact, h.sound.keyed.2⟩

theorem intact_sample : Tables.sample.Intact where
  creators := by decide
  memberUsers := by decide
  memberRooms := by decide
  members := by decide
  senders := by decide
  messageRooms := by decide
  usernames := by decide
  emails := by decide
  messageKeys := by decide
  contents := fun m hm => absurd hm (by decide +revert)
  admins := by
    intro m hm _
    rw [show m = ⟨1, 3, 1, .admin, Env.newYear⟩ from List.mem_singleton.mp hm]
    exact ⟨⟨3, "r3", none, false, some 1, Env.newYear⟩, by decide, rfl, rfl⟩

/-- User 1 leaves room 3 while user 2 makes a room. -/
def System.founderLeaves : List Label :=
  [.request (.leaveRoom 3 1), .request (.createRoom ⟨"r5", none, false⟩ 2)] ++ goes 1 1 5 ++
    goes 0 2 ++ goes 1 1 6 ++ goes 0 2 ++ goes 1 3

/-- The founder of room 3 joins it again. -/
def System.founderReturns : List Label := .request (.joinRoom 3 1) :: goes 2 5 7

/-- User 2 is the admin of room 5. -/
theorem System.tables_intact_shared : ∃ s,
    replay (System.step .sample) System.founderLeaves (.init .sample) = some s ∧
    s.world.db.committed.roomMembers.rows = [⟨6, 5, 2, .admin, Env.newYear⟩] ∧
    s.world.db.committed.Intact ∧ ∀ i, (s.world.db.view i).Keyed := by
  have hrun : ((replay (System.step .sample) System.founderLeaves (.init .sample)).any fun s =>
      s.world.db.committed.roomMembers.rows = [⟨6, 5, 2, .admin, Env.newYear⟩]) = true := by
    decide +kernel
  obtain ⟨s, hs, hmembers⟩ := (Option.any_eq_true _ _).mp hrun
  exact ⟨s, hs, of_decide_eq_true hmembers,
    System.tables_intact intact_sample (.of_replay .init hs)⟩

/-- Only the operations of the tasks reach the database. -/
theorem System.db_step {env : Env} {s s' : System} {l : Label} (hs : s.step env l = some s') :
    s'.world.db = s.world.db ∨ ∃ (i : TaskId) (x : DbOutcome) (o : DbOp) (r : Except Exn o.Resp),
      o.exec i x s.world.db = some (r, s'.world.db) := by
  by_cases hl : ∀ i x, l ≠ .run i x
  · exact .inl (System.stores_env hl hs).1
  · push Not at hl
    obtain ⟨i, x, rfl⟩ := hl
    cases System.moves hs with
    | run hi ht htasks =>
      obtain ⟨op, r, -, hexec⟩ := Task.step_exec ht
      rcases Op.exec_db hexec with he | ⟨o, r', -, ho⟩
      · exact .inl he
      · exact .inr ⟨i, x.db, o, r', ho⟩
    | background hl _ => exact absurd hl id

/-- **A room gets no admin but the one it is made with**: in every run, from any state it reaches,
an admin of a room that is there has been its admin all the time, is its creator, and is the only
one. So a room whose creator has left has no admin again. -/
theorem System.no_new_admin {env : Env} {t : Tables} (ht : t.Intact) {s s' : System}
    (hr : Reach (System.step env) Always (.init t) s) (hrun : Reach (System.step env) Always s s')
    {room : RoomRow} (hroom : room ∈ s.world.db.committed.rooms) :
    room ∈ s'.world.db.committed.rooms ∧
      (∀ m ∈ s'.world.db.committed.roomMembers, m.roomId = room.id → m.role = .admin →
        m ∈ s.world.db.committed.roomMembers ∧ room.createdBy = some m.userId) ∧
      ∀ m ∈ s'.world.db.committed.roomMembers, ∀ m' ∈ s'.world.db.committed.roomMembers,
        m.roomId = room.id → m'.roomId = room.id → m.role = .admin → m'.role = .admin → m = m' := by
  have hkept : room ∈ s'.world.db.committed.rooms ∧
      ∀ m ∈ s'.world.db.committed.roomMembers, m.roomId = room.id → m.role = .admin →
        m ∈ s.world.db.committed.roomMembers := by
    induction hrun with
    | init => exact ⟨hroom, fun m hm _ _ => hm⟩
    | tail hbefore _ hs ih =>
      obtain ⟨hroom, hadmins⟩ := ih
      rcases System.db_step hs with he | ⟨i, x, o, r, ho⟩
      · rw [he]
        exact ⟨hroom, hadmins⟩
      · obtain ⟨hroom', hadmins'⟩ := (lawful_reach ht (hr.trans hbefore)).admins_exec ho hroom
        exact ⟨hroom', fun m hm hin hrole => hadmins m (hadmins' m hm hin hrole) hin hrole⟩
  obtain ⟨hroom', hadmins⟩ := hkept
  have hintact := (lawful_reach ht (hr.trans hrun)).intact
  refine ⟨hroom', fun m hm hin hrole => ⟨hadmins m hm hin hrole, ?_⟩,
    fun m hm m' hm' hin hin' hrole hrole' =>
      hintact.admin_unique hm hm' hrole hrole' (hin.trans hin'.symm)⟩
  obtain ⟨founded, hfounded, hid, hcreated⟩ := hintact.admins m hm hrole
  rw [← Table.eq_of_key hfounded hroom' (hid.trans hin)]
  exact hcreated

/-- Back in room 3, user 1 is a plain member. -/
theorem System.no_new_admin_returned : ∃ s s',
    replay (System.step .sample) System.founderLeaves (.init .sample) = some s ∧
    replay (System.step .sample) System.founderReturns s = some s' ∧
    s'.world.db.committed.membership 3 1 = some ⟨7, 3, 1, .member, Env.newYear⟩ ∧
    ∀ m ∈ s'.world.db.committed.roomMembers, m.roomId = 3 → m.role = .admin →
      m ∈ s.world.db.committed.roomMembers := by
  have hrun : ((replay (System.step .sample) System.founderLeaves (.init .sample)).any fun s =>
      decide (⟨3, "r3", none, false, some 1, Env.newYear⟩ ∈ s.world.db.committed.rooms) &&
        (replay (System.step .sample) System.founderReturns s).any fun s' =>
          s'.world.db.committed.membership 3 1 = some ⟨7, 3, 1, .member, Env.newYear⟩) = true := by
    decide +kernel
  obtain ⟨s, hs, hrest⟩ := (Option.any_eq_true _ _).mp hrun
  obtain ⟨hroom, hrest⟩ := Bool.and_eq_true_iff.mp hrest
  obtain ⟨s', hs', hmember⟩ := (Option.any_eq_true _ _).mp hrest
  refine ⟨s, s', hs, hs', of_decide_eq_true hmember, fun m hm hin hrole => ?_⟩
  exact ((System.no_new_admin intact_sample (.of_replay .init hs) (.of_replay .init hs')
    (of_decide_eq_true hroom)).2.1 m hm hin hrole).1

end NexusChat
