import NexusChat.Api.RoomCalls
import NexusChat.Lib.Transactions

/-!
# The keys of the tables

The primary, unique and foreign keys of `app/models` are constraints on the rows of the four
tables, and the database with its transactions in progress is one of `Lib/Transactions`: an
operation of a transaction is a step there. So the keys hold in what is committed and in what each
transaction sees, whatever the transactions do and however they interleave.
-/

set_option autoImplicit false

namespace NexusChat

/-- A row of one of the tables. -/
inductive Row where
  | user (u : User)
  | room (r : RoomRow)
  | member (m : RoomMemberRow)
  | message (m : MessageRow)

namespace Row

/-- The two rows have a unique key in common. -/
def Clash : Row → Row → Prop
  | .user u, .user u' => DbOp.userClash u u' = true
  | .room r, .room r' => r.id = r'.id
  | .member m, .member m' => DbOp.memberClash m m' = true
  | .message m, .message m' => DbOp.messageClash m m' = true
  | _, _ => False

/-- The rows that the foreign keys of a row refer to are there. -/
def Refers (s : Set Row) : Row → Prop
  | .user _ => True
  | .room r => ∀ id, r.createdBy = some id → ∃ u, .user u ∈ s ∧ u.id = id
  | .member m => (∃ u, .user u ∈ s ∧ u.id = m.userId) ∧ ∃ r, .room r ∈ s ∧ r.id = m.roomId
  | .message m => (∀ id, m.senderId = some id → ∃ u, .user u ∈ s ∧ u.id = id) ∧
      ∃ r, .room r ∈ s ∧ r.id = m.roomId

/-- Only memberships are ever deleted. -/
def Kept : Row → Prop
  | .member _ => False
  | _ => True

theorem clash_symm {r r' : Row} (h : r.Clash r') : r'.Clash r := by
  cases r <;> cases r' <;> try exact h
  · simp only [Clash, DbOp.userClash, Bool.or_eq_true, decide_eq_true_eq] at h ⊢
    exact h.imp (Or.imp Eq.symm Eq.symm) Eq.symm
  · exact h.symm
  · simp only [Clash, DbOp.memberClash, Bool.or_eq_true, Bool.and_eq_true,
      decide_eq_true_eq] at h ⊢
    exact h.imp Eq.symm (And.imp Eq.symm Eq.symm)
  · simp only [Clash, DbOp.messageClash, Bool.or_eq_true, Bool.and_eq_true,
      decide_eq_true_eq] at h ⊢
    refine h.imp Eq.symm fun hkey => ⟨?_, hkey.2.symm⟩
    obtain ⟨hsome, he⟩ := hkey
    rw [← he]
    exact hsome

theorem refers_mono {s s' : Set Row} {r : Row} (hs : ∀ a ∈ s, a.Kept → a ∈ s') (h : r.Refers s) :
    r.Refers s' := by
  have huser : ∀ {id : Uuid}, (∃ u, .user u ∈ s ∧ u.id = id) → ∃ u, .user u ∈ s' ∧ u.id = id :=
    fun ⟨u, hu, hid⟩ => ⟨u, hs _ hu trivial, hid⟩
  have hroom : ∀ {id : Uuid}, (∃ r, .room r ∈ s ∧ r.id = id) → ∃ r, .room r ∈ s' ∧ r.id = id :=
    fun ⟨r, hr, hid⟩ => ⟨r, hs _ hr trivial, hid⟩
  cases r with
  | user u => trivial
  | room r => exact fun id hid => huser (h id hid)
  | member m => exact ⟨huser h.1, hroom h.2⟩
  | message m => exact ⟨fun id hid => huser (h.1 id hid), hroom h.2⟩

end Row

/-- The keys, as constraints. -/
def schema : Constraints Row where
  needs s r := r.Refers s
  clash := Row.Clash
  fixed := { r | r.Kept }
  needs_mono := Row.refers_mono
  clash_symm := Row.clash_symm

/-! ## The tables as a set of rows -/

def Tables.rowSet (t : Tables) : Set Row := fun
  | .user u => u ∈ t.users
  | .room r => r ∈ t.rooms
  | .member m => m ∈ t.roomMembers
  | .message m => m ∈ t.messages

def Write.change : Write → Change Row
  | .addUser u => .add (.user u)
  | .addRoom r => .add (.room r)
  | .addMember m => .add (.member m)
  | .addMessage m => .add (.message m)
  | .deleteMember id => .remove { r | ∃ m, r = .member m ∧ m.id = id }

namespace Tables

/-- The unique and foreign keys hold, those of the users and of the messages too. -/
structure Keyed (t : Tables) : Prop extends t.Valid where
  usernames : ∀ u ∈ t.users, ∀ u' ∈ t.users, u.username = u'.username → u = u'
  emails : ∀ u ∈ t.users, ∀ u' ∈ t.users, u.email = u'.email → u = u'
  messageKeys : ∀ m ∈ t.messages, ∀ m' ∈ t.messages, m.idempotencyKey.isSome = true →
    m.idempotencyKey = m'.idempotencyKey → m = m'

variable {t : Tables}

theorem consistent_of_keyed (h : t.Keyed) : schema.Consistent t.rowSet where
  needs := by
    intro r hr
    cases r with
    | user u => trivial
    | room r => exact h.creators r hr
    | member m => exact ⟨h.memberUsers m hr, h.memberRooms m hr⟩
    | message m => exact ⟨h.senders m hr, h.messageRooms m hr⟩
  apart := by
    intro r hr r' hr' hne hclash
    cases r <;> cases r' <;> try exact hclash
    · rename_i u u'
      simp only [schema, Row.Clash, DbOp.userClash, Bool.or_eq_true, decide_eq_true_eq] at hclash
      apply hne
      rcases hclash with (hid | hname) | hemail
      · rw [Table.eq_of_key hr hr' hid]
      · rw [h.usernames u hr u' hr' hname]
      · rw [h.emails u hr u' hr' hemail]
    · exact hne (congrArg Row.room (Table.eq_of_key hr hr' hclash))
    · rename_i m m'
      simp only [schema, Row.Clash, DbOp.memberClash, Bool.or_eq_true, Bool.and_eq_true,
        decide_eq_true_eq] at hclash
      apply hne
      rcases hclash with hid | ⟨hroom, huser⟩
      · rw [Table.eq_of_key hr hr' hid]
      · rw [h.members m hr m' hr' hroom huser]
    · rename_i m m'
      simp only [schema, Row.Clash, DbOp.messageClash, Bool.or_eq_true, Bool.and_eq_true,
        decide_eq_true_eq] at hclash
      apply hne
      rcases hclash with hid | ⟨hsome, hkey⟩
      · rw [Table.eq_of_key hr hr' hid]
      · rw [h.messageKeys m hr m' hr' hsome hkey]

theorem keyed_of_consistent (h : schema.Consistent t.rowSet) : t.Keyed where
  creators := fun r hr => h.needs (.room r) hr
  memberUsers := fun m hm => (h.needs (.member m) hm).1
  memberRooms := fun m hm => (h.needs (.member m) hm).2
  senders := fun m hm => (h.needs (.message m) hm).1
  messageRooms := fun m hm => (h.needs (.message m) hm).2
  members := by
    intro m hm m' hm' hroom huser
    by_contra hne
    refine h.apart (.member m) hm (.member m') hm' (fun he => hne (Row.member.inj he)) ?_
    simp [schema, Row.Clash, DbOp.memberClash, hroom, huser]
  usernames := by
    intro u hu u' hu' hname
    by_contra hne
    refine h.apart (.user u) hu (.user u') hu' (fun he => hne (Row.user.inj he)) ?_
    simp [schema, Row.Clash, DbOp.userClash, hname]
  emails := by
    intro u hu u' hu' hemail
    by_contra hne
    refine h.apart (.user u) hu (.user u') hu' (fun he => hne (Row.user.inj he)) ?_
    simp [schema, Row.Clash, DbOp.userClash, hemail]
  messageKeys := by
    intro m hm m' hm' hsome hkey
    by_contra hne
    refine h.apart (.message m) hm (.message m') hm' (fun he => hne (Row.message.inj he)) ?_
    simp [schema, Row.Clash, DbOp.messageClash, hkey, hkey ▸ hsome]

theorem mem_insert_iff {ρ κ : Type} {key : ρ → κ} [DecidableEq κ] {t : Table ρ key} {r r' : ρ}
    (h : ∀ a ∈ t, key a ≠ key r) : r' ∈ t.insert r ↔ r' = r ∨ r' ∈ t := by
  constructor
  · intro hr
    exact (Table.mem_insert hr).symm
  · rintro (rfl | hr)
    · exact Table.mem_insert_self h
    · exact Table.mem_insert_of_mem hr

/-- A statement whose row has a new key does to the rows what its change says. -/
theorem rowSet_apply {w : Write} (h : schema.Fits t.rowSet w.change) :
    (t.apply w).rowSet = w.change.apply t.rowSet := by
  funext row
  apply propext
  cases w with
  | addUser u =>
    have hnew : ∀ a ∈ t.users, a.id ≠ u.id := fun a ha hid =>
      h.2 (.user a) ha (by simp [schema, Row.Clash, DbOp.userClash, hid])
    have hiff : row ∈ Change.apply t.rowSet (.add (.user u)) ↔ row = .user u ∨ row ∈ t.rowSet :=
      Set.mem_insert_iff
    refine Iff.trans ?_ hiff.symm
    cases row with
    | user u' => exact (mem_insert_iff hnew).trans (or_congr (by simp) Iff.rfl)
    | room _ | member _ | message _ => exact (or_iff_right (by simp)).symm
  | addRoom r =>
    have hnew : ∀ a ∈ t.rooms, a.id ≠ r.id := fun a ha hid => h.2 (.room a) ha hid.symm
    have hiff : row ∈ Change.apply t.rowSet (.add (.room r)) ↔ row = .room r ∨ row ∈ t.rowSet :=
      Set.mem_insert_iff
    refine Iff.trans ?_ hiff.symm
    cases row with
    | room r' => exact (mem_insert_iff hnew).trans (or_congr (by simp) Iff.rfl)
    | user _ | member _ | message _ => exact (or_iff_right (by simp)).symm
  | addMember m =>
    have hnew : ∀ a ∈ t.roomMembers, a.id ≠ m.id := fun a ha hid =>
      h.2 (.member a) ha (by simp [schema, Row.Clash, DbOp.memberClash, hid])
    have hiff : row ∈ Change.apply t.rowSet (.add (.member m)) ↔
        row = .member m ∨ row ∈ t.rowSet := Set.mem_insert_iff
    refine Iff.trans ?_ hiff.symm
    cases row with
    | member m' => exact (mem_insert_iff hnew).trans (or_congr (by simp) Iff.rfl)
    | user _ | room _ | message _ => exact (or_iff_right (by simp)).symm
  | addMessage m =>
    have hnew : ∀ a ∈ t.messages, a.id ≠ m.id := fun a ha hid =>
      h.2 (.message a) ha (by simp [schema, Row.Clash, DbOp.messageClash, hid])
    have hiff : row ∈ Change.apply t.rowSet (.add (.message m)) ↔
        row = .message m ∨ row ∈ t.rowSet := Set.mem_insert_iff
    refine Iff.trans ?_ hiff.symm
    cases row with
    | message m' => exact (mem_insert_iff hnew).trans (or_congr (by simp) Iff.rfl)
    | user _ | room _ | member _ => exact (or_iff_right (by simp)).symm
  | deleteMember id =>
    have hiff : row ∈ Change.apply t.rowSet (Write.deleteMember id).change ↔
        row ∈ t.rowSet ∧ ¬∃ m, row = .member m ∧ m.id = id := Iff.rfl
    refine Iff.trans ?_ hiff.symm
    cases row with
    | member m =>
      refine Table.mem_delete.trans (and_congr Iff.rfl ?_)
      simp
    | user _ | room _ | message _ => exact (and_iff_left (by simp)).symm

theorem rowSet_foldl {ws : List Write} (h : schema.AllFit t.rowSet (ws.map Write.change)) :
    (ws.foldl apply t).rowSet = (ws.map Write.change).foldl Change.apply t.rowSet := by
  induction ws generalizing t with
  | nil => rfl
  | cons w ws ih =>
    obtain ⟨hw, hrest⟩ := h
    rw [← rowSet_apply hw] at hrest
    rw [List.foldl_cons, List.map_cons, List.foldl_cons, ih hrest, rowSet_apply hw]

end Tables

/-! ## The database as transactions -/

namespace DbOp

variable {op : DbOp} {me : TaskId} {x : DbOutcome} {d d' : Database} {t : Tables} {wr : Write}

/-- A statement that passes the checks of its flush fits. -/
theorem fits_of_writes (h : op.Writes x t wr) : schema.Fits t.rowSet wr.change := by
  cases op with
  | insertUser username email hashed_password display_name =>
    cases wr with
    | addUser u =>
      refine ⟨trivial, fun row hrow hclash => ?_⟩
      cases row with
      | user u' =>
        obtain rfl := checkUser_eq_ok h
        have hnone : checkUser t _ = .ok _ := h
        rw [checkUser, if_pos (List.any_eq_true.mpr ⟨u', hrow, hclash⟩)] at hnone
        cases hnone
      | room _ | member _ | message _ => exact hclash
    | _ => exact h.elim
  | insertRoom name description is_private created_by =>
    cases wr with
    | addRoom r =>
      obtain ⟨rfl, ⟨u, hu, hid⟩, hnew⟩ := checkRoom_iff h
      refine ⟨fun id hcreated => ⟨u, hu, ?_⟩, fun row hrow hclash => ?_⟩
      · exact Option.some.inj (hid.trans hcreated)
      · cases row with
        | room r' => exact hnew r' hrow hclash.symm
        | user _ | member _ | message _ => exact hclash
    | _ => exact h.elim
  | insertMember room_id user_id role =>
    cases wr with
    | addMember m =>
      obtain ⟨rfl, huser, hroom, -, -⟩ := checkMember_iff h
      refine ⟨⟨huser, hroom⟩, fun row hrow hclash => ?_⟩
      cases row with
      | member m' =>
        have hno := (checkMember_eq_ok h).2 m' hrow
        rw [show memberClash _ m' = true from hclash] at hno
        cases hno
      | user _ | room _ | message _ => exact hclash
    | _ => exact h.elim
  | insertMessage room_id sender_id content message_type key =>
    cases wr with
    | addMessage m =>
      obtain ⟨k, -, -, rfl, ⟨u, hu, hid⟩, hroom, hnew⟩ := messageRow_eq_ok.mp h
      refine ⟨⟨fun id hsender => ⟨u, hu, ?_⟩, hroom⟩, fun row hrow hclash => ?_⟩
      · exact hid.trans (Option.some.inj hsender)
      · cases row with
        | message m' =>
          have hno := hnew m' hrow
          rw [show messageClash _ m' = true from hclash] at hno
          cases hno
        | user _ | room _ | member _ => exact hclash
    | _ => exact h.elim
  | deleteMember id =>
    cases wr with
    | deleteMember id' =>
      rintro row ⟨m, rfl, -⟩ hkept
      exact hkept
    | _ => exact h.elim
  | _ => cases wr <;> exact h.elim

/-- What a transaction adds is one of its statements. -/
theorem mem_flushed_of_add {r : Row} {other : TaskId}
    (h : .add r ∈ (d.flushed other).map Write.change) :
    ∃ w, w.change = .add r ∧ (other, w) ∈ d.pending := by
  obtain ⟨w, hw, hr⟩ := List.mem_map.mp h
  exact ⟨w, hr, Database.mem_flushed.mp hw⟩

/-- It has waited for the transactions with a row it clashes with. -/
theorem apart_of_not_blocked (h : op.Writes x t wr) (hb : op.blocked x me d = false) {r : Row}
    (hr : wr.change = .add r) {other : TaskId} (hne : other ≠ me) {r' : Row}
    (hr' : .add r' ∈ (d.flushed other).map Write.change) : ¬r.Clash r' := by
  intro hclash
  obtain ⟨w, hw, hpending⟩ := mem_flushed_of_add hr'
  have hothers : w ∈ d.others me := Database.mem_others.mpr ⟨other, hne, hpending⟩
  have hwaits : op.blocked x me d = true → False := fun hblocked => by
    rw [hb] at hblocked
    cases hblocked
  cases op with
  | insertUser username email hashed_password display_name =>
    cases wr with
    | addUser u =>
      obtain rfl := checkUser_eq_ok h
      cases hr
      cases w with
      | addUser u' =>
        cases hw
        exact hwaits (List.any_eq_true.mpr ⟨_, hothers, hclash⟩)
      | addRoom _ | addMember _ | addMessage _ => cases hw; exact hclash
      | deleteMember _ => cases hw
    | _ => exact h.elim
  | insertRoom name description is_private created_by =>
    cases wr with
    | addRoom room =>
      obtain rfl := checkRoom_eq_ok h
      cases hr
      cases w with
      | addRoom room' =>
        cases hw
        exact hwaits (List.any_eq_true.mpr ⟨_, hothers, decide_eq_true hclash.symm⟩)
      | addUser _ | addMember _ | addMessage _ => cases hw; exact hclash
      | deleteMember _ => cases hw
    | _ => exact h.elim
  | insertMember room_id user_id role =>
    cases wr with
    | addMember m =>
      obtain ⟨rfl, -⟩ := checkMember_eq_ok h
      cases hr
      cases w with
      | addMember m' =>
        cases hw
        exact hwaits (List.any_eq_true.mpr ⟨_, hothers, hclash⟩)
      | addUser _ | addRoom _ | addMessage _ => cases hw; exact hclash
      | deleteMember _ => cases hw
    | _ => exact h.elim
  | insertMessage room_id sender_id content message_type key =>
    cases wr with
    | addMessage m =>
      obtain ⟨k, hk, -, rfl, -⟩ := messageRow_eq_ok.mp h
      cases hr
      cases w with
      | addMessage m' =>
        cases hw
        refine hwaits (List.any_eq_true.mpr ⟨_, hothers, ?_⟩)
        simp only [hk]
        exact hclash
      | addUser _ | addRoom _ | addMember _ => cases hw; exact hclash
      | deleteMember _ => cases hw
    | _ => exact h.elim
  | deleteMember id =>
    cases wr with
    | deleteMember id' => cases hr
    | _ => exact h.elim
  | _ => cases wr <;> exact h.elim

end DbOp

namespace Database

def transactions (d : Database) : Transactions TaskId Row where
  committed := d.committed.rowSet
  pending i := (d.flushed i).map Write.change

/-- The keys hold, and every pending statement has passed its checks. -/
def Sound (d : Database) : Prop := d.transactions.Sound schema

variable {d d' : Database} {me : TaskId}

theorem Sound.rowSet_view (h : d.Sound) (i : TaskId) :
    (d.view i).rowSet = d.transactions.view i :=
  Tables.rowSet_foldl (h.pending i)

theorem sound_init {t : Tables} (h : t.Keyed) : Sound { committed := t, pending := [] } where
  committed := Tables.consistent_of_keyed h
  pending := fun _ => trivial
  apart := fun _ _ _ _ _ hr => by cases hr

/-- **What is committed keeps the keys, and so does what each transaction sees.** -/
theorem Sound.keyed (h : d.Sound) : d.committed.Keyed ∧ ∀ i, (d.view i).Keyed := by
  refine ⟨Tables.keyed_of_consistent h.committed, fun i => Tables.keyed_of_consistent ?_⟩
  rw [h.rowSet_view i]
  exact h.view i

/-- **One operation of a transaction** is a step of the transactions. -/
theorem Sound.step_exec (h : d.Sound) {op : DbOp} {x : DbOutcome} {r : Except Exn op.Resp}
    (hx : op.exec me x d = some (r, d')) : d.transactions.Step schema d'.transactions := by
  have hothers : ∀ j, j ≠ me → d'.transactions.pending j = d.transactions.pending j :=
    fun j hj => congrArg (List.map Write.change) (DbOp.flushed_exec hx hj)
  rcases DbOp.exec_cases hx with rfl | ⟨wr, hw, hb, rfl⟩ | ⟨-, -, rfl⟩ | rfl
  · exact .still rfl fun _ => rfl
  · refine .change me wr.change rfl ?_ hothers ?_ ?_
    · show (Database.flushed _ me).map Write.change = _
      rw [flushed_flush_self, List.map_append]
      rfl
    · rw [← h.rowSet_view me]
      exact DbOp.fits_of_writes hw
    · exact fun a ha j hj a' ha' => DbOp.apart_of_not_blocked hw hb ha hj ha'
  · refine .commit me (h.rowSet_view me) ?_ hothers
    show (Database.flushed _ me).map Write.change = []
    rw [flushed_commit_self, List.map_nil]
  · refine .rollback me rfl ?_ hothers
    show (Database.flushed _ me).map Write.change = []
    rw [flushed_forget_self, List.map_nil]

theorem Sound.exec (h : d.Sound) {op : DbOp} {x : DbOutcome} {r : Except Exn op.Resp}
    (hx : op.exec me x d = some (r, d')) : d'.Sound :=
  Transactions.Sound.step h (h.step_exec hx)

end Database

end NexusChat
