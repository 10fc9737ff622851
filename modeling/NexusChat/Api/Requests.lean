import NexusChat.Api.Routes
import NexusChat.Db.Transactions
import NexusChat.Lib.Machine

/-!
# Concurrent requests

Any number of writing requests in flight: a step starts one, or carries out the next statement of
one of them. `uuid4` gives no id twice and none that is in the tables at the start, so an id names
one row for ever: a row that is still pending clashes with nothing, and a row that was read once is
the only one that ever has its id.
-/

set_option autoImplicit false

namespace NexusChat

/-- Every id in the tables. -/
def Tables.ids (t : Tables) : List Uuid :=
  t.users.rows.map User.id ++ t.rooms.rows.map RoomRow.id ++
    t.roomMembers.rows.map RoomMemberRow.id ++ t.messages.rows.map MessageRow.id

/-- The id of the row a statement inserts. -/
def Write.newId : Write → Option Uuid
  | .addUser u => some u.id
  | .addRoom r => some r.id
  | .addMember m => some m.id
  | .addMessage m => some m.id
  | .deleteMember _ => none

structure RequestPool where
  db : Database
  /-- what `uuid4` has given, and what was there before -/
  ids : List Uuid
  calls : List (WriteRequest × Routes.Call Response)

namespace RequestPool

inductive Label where
  | start (r : WriteRequest)
  /-- call `i` goes on with the outcome `x`; `x.uuid` is what `uuid4` would give it now -/
  | run (i : TaskId) (x : DbOutcome)

def init (t : Tables) : RequestPool :=
  { db := { committed := t, pending := [] }, ids := t.ids, calls := [] }

def step (lib : AuthLib) (s : RequestPool) : Label → Option RequestPool
  | .start r => some { s with calls := s.calls ++ [(r, Routes.prog lib r)] }
  | .run i x =>
    if s.ids.contains x.uuid then none
    else (s.calls[i]?).bind fun (r, p) =>
      (p.step (DbOp.exec i) x s.db).map fun (p', d) =>
        { db := d, ids := x.uuid :: s.ids, calls := s.calls.set i (r, p') }

variable {lib : AuthLib} {s s' : RequestPool} {i : TaskId} {x : DbOutcome}

/-- **What a step of a call does**: one statement of its transaction. -/
theorem step_run (h : step lib s (.run i x) = some s') :
    x.uuid ∉ s.ids ∧ ∃ r op k res d, s.calls[i]? = some (r, .await op k) ∧
      op.exec i x s.db = some (res, d) ∧
      s' = { db := d, ids := x.uuid :: s.ids, calls := s.calls.set i (r, k res) } := by
  simp only [step] at h
  split at h
  · cases h
  · rename_i hfresh
    refine ⟨by simpa using hfresh, ?_⟩
    obtain ⟨⟨r, p⟩, hi, h⟩ := Option.bind_eq_some_iff.mp h
    obtain ⟨⟨p', d⟩, hstep, rfl⟩ := Option.map_eq_some_iff.mp h
    obtain ⟨op, k, res, rfl, hx, rfl⟩ := Coro.step_eq_some hstep
    exact ⟨r, op, k, res, d, hi, hx, rfl⟩

/-- A call that is there after another has been started was there before, or is the new one. -/
theorem getElem?_start {r r' : WriteRequest} {p : Routes.Call Response}
    (h : (s.calls ++ [(r, Routes.prog lib r)])[i]? = some (r', p)) :
    s.calls[i]? = some (r', p) ∨
      i = s.calls.length ∧ r' = r ∧ p = Routes.prog lib r := by
  rw [List.getElem?_append] at h
  split at h
  · exact .inl h
  · rename_i hlt
    obtain ⟨hi, he⟩ := List.getElem?_eq_some_iff.mp h
    have hzero : i - s.calls.length = 0 := by simpa using hi
    simp only [hzero, List.getElem_cons_zero, Prod.mk.injEq] at he
    exact .inr ⟨Nat.le_antisymm (Nat.sub_eq_zero_iff_le.mp hzero) (Nat.not_lt.mp hlt), he.1.symm,
      he.2.symm⟩

/-! The calls and their transactions: each call keeps its request, and nothing is flushed for a
call that is yet to come. -/

section Calls

variable {c : WriteRequest × Routes.Call Response} {r r' : WriteRequest} {j : TaskId}
  {p p' : Routes.Call Response} {d : Database} {op : DbOp} {res : Except Exn op.Resp}

theorem idle_start (h : ∀ i, s.calls.length ≤ i → s.db.flushed i = []) :
    ∀ i, (s.calls ++ [c]).length ≤ i → s.db.flushed i = [] := by
  intro i hi
  rw [List.length_append] at hi
  exact h i (Nat.le_trans (Nat.le_add_right _ _) hi)

theorem idle_run (h : ∀ i, s.calls.length ≤ i → s.db.flushed i = [])
    (hi : s.calls[i]? = some (r, p)) (hx : op.exec i x s.db = some (res, d)) :
    ∀ j, (s.calls.set i (r, p')).length ≤ j → d.flushed j = [] := by
  intro j hj
  rw [List.length_set] at hj
  have hji : j ≠ i := fun he =>
    absurd (List.getElem?_eq_some_iff.mp hi).1 (Nat.not_lt.mpr (he ▸ hj))
  rw [DbOp.flushed_exec hx hji]
  exact h j hj

theorem request_start (h : ∃ p, s.calls[i]? = some (r, p)) :
    ∃ p, (s.calls ++ [c])[i]? = some (r, p) := by
  obtain ⟨p, hp⟩ := h
  have hlt := (List.getElem?_eq_some_iff.mp hp).1
  exact ⟨p, by rw [List.getElem?_append_left hlt]; exact hp⟩

theorem request_run (hi : s.calls[i]? = some (r, p)) (h : ∃ q, s.calls[j]? = some (r', q)) :
    ∃ q, (s.calls.set i (r, p'))[j]? = some (r', q) := by
  obtain ⟨q, hq⟩ := h
  by_cases hji : j = i
  · rw [hji] at hq ⊢
    rw [hi] at hq
    cases hq
    exact ⟨p', List.getElem?_set_self (List.getElem?_eq_some_iff.mp hi).1⟩
  · exact ⟨q, (List.getElem?_set_ne (Ne.symm hji)).trans hq⟩

end Calls

end RequestPool

/-! ## Ids -/

namespace DbOp

variable {op : DbOp} {x : DbOutcome} {t : Tables} {wr : Write}

theorem checkUser_eq_ok {u u' : User} (h : checkUser t u = .ok u') : u' = u := by
  unfold checkUser at h
  split at h
  · cases h
  · exact (Except.ok.inj h).symm

theorem checkRoom_eq_ok {r r' : RoomRow} (h : checkRoom t r = .ok r') : r' = r := by
  unfold checkRoom at h
  split at h
  · cases h
  · split at h
    · cases h
    · exact (Except.ok.inj h).symm

theorem checkMember_eq_ok {m m' : RoomMemberRow} (h : checkMember t m = .ok m') :
    m' = m ∧ ∀ other ∈ t.roomMembers, memberClash m other = false := by
  unfold checkMember at h
  split at h
  · cases h
  · split at h
    · cases h
    · split at h
      · cases h
      · rename_i hclash
        refine ⟨(Except.ok.inj h).symm, fun other ho => ?_⟩
        simp only [List.any_eq_true, not_exists, not_and, Bool.not_eq_true] at hclash
        exact hclash other ho

/-- A flushed row has the id the outcome gives. -/
theorem newId_writes {id : Uuid} (h : op.Writes x t wr) (hid : wr.newId = some id) :
    id = x.uuid := by
  cases op with
  | insertUser username email hashed_password display_name =>
    cases wr with
    | addUser u =>
      cases checkUser_eq_ok h
      exact (Option.some.inj hid).symm
    | _ => exact h.elim
  | insertRoom name description is_private created_by =>
    cases wr with
    | addRoom r =>
      cases checkRoom_eq_ok h
      exact (Option.some.inj hid).symm
    | _ => exact h.elim
  | insertMember room_id user_id role =>
    cases wr with
    | addMember m =>
      cases (checkMember_eq_ok h).1
      exact (Option.some.inj hid).symm
    | _ => exact h.elim
  | insertMessage room_id sender_id content message_type key =>
    cases wr with
    | addMessage m =>
      obtain ⟨k, -, -, rfl, -⟩ := messageRow_eq_ok.mp h
      exact (Option.some.inj hid).symm
    | _ => exact h.elim
  | deleteMember id' =>
    cases wr with
    | deleteMember id' => cases hid
    | _ => exact h.elim
  | _ => cases wr <;> exact h.elim

end DbOp

namespace Tables

variable {t : Tables} {id : Uuid}

theorem mem_ids : id ∈ t.ids ↔ (∃ u ∈ t.users, u.id = id) ∨ (∃ r ∈ t.rooms, r.id = id) ∨
    (∃ m ∈ t.roomMembers, m.id = id) ∨ ∃ m ∈ t.messages, m.id = id := by
  simp only [ids, List.mem_append, List.mem_map, Table.mem_def, or_assoc]

theorem mem_ids_apply {wr : Write} (h : id ∈ (t.apply wr).ids) :
    id ∈ t.ids ∨ wr.newId = some id := by
  simp only [mem_ids] at h ⊢
  cases wr with
  | addUser u =>
    rcases h with ⟨u', hu, rfl⟩ | h
    · rcases Table.mem_insert hu with hu | rfl
      · exact .inl (.inl ⟨u', hu, rfl⟩)
      · exact .inr rfl
    · exact .inl (.inr h)
  | addRoom r =>
    rcases h with h | ⟨r', hr, rfl⟩ | h
    · exact .inl (.inl h)
    · rcases Table.mem_insert hr with hr | rfl
      · exact .inl (.inr (.inl ⟨r', hr, rfl⟩))
      · exact .inr rfl
    · exact .inl (.inr (.inr h))
  | addMember m =>
    rcases h with h | h | ⟨m', hm, rfl⟩ | h
    · exact .inl (.inl h)
    · exact .inl (.inr (.inl h))
    · rcases Table.mem_insert hm with hm | rfl
      · exact .inl (.inr (.inr (.inl ⟨m', hm, rfl⟩)))
      · exact .inr rfl
    · exact .inl (.inr (.inr (.inr h)))
  | addMessage m =>
    rcases h with h | h | h | ⟨m', hm, rfl⟩
    · exact .inl (.inl h)
    · exact .inl (.inr (.inl h))
    · exact .inl (.inr (.inr (.inl h)))
    · rcases Table.mem_insert hm with hm | rfl
      · exact .inl (.inr (.inr (.inr ⟨m', hm, rfl⟩)))
      · exact .inr rfl
  | deleteMember id' =>
    rcases h with h | h | ⟨m, hm, rfl⟩ | h
    · exact .inl (.inl h)
    · exact .inl (.inr (.inl h))
    · exact .inl (.inr (.inr (.inl ⟨m, (Table.mem_delete.mp hm).1, rfl⟩)))
    · exact .inl (.inr (.inr (.inr h)))

theorem mem_ids_foldl {ws : List Write} (h : id ∈ (ws.foldl apply t).ids) :
    id ∈ t.ids ∨ ∃ wr ∈ ws, wr.newId = some id := by
  induction ws generalizing t with
  | nil => exact .inl h
  | cons wr ws ih =>
    rcases ih h with h | ⟨wr', hwr, hid⟩
    · rcases mem_ids_apply h with h | h
      · exact .inl h
      · exact .inr ⟨wr, List.mem_cons_self .., h⟩
    · exact .inr ⟨wr', List.mem_cons_of_mem _ hwr, hid⟩

/-- A membership after some statements was there before or is one of theirs. -/
theorem mem_members_of_foldl {ws : List Write} {m : RoomMemberRow}
    (h : m ∈ (ws.foldl apply t).roomMembers) : m ∈ t.roomMembers ∨ .addMember m ∈ ws := by
  induction ws generalizing t with
  | nil => exact .inl h
  | cons wr ws ih =>
    rcases ih h with hm | hm
    · cases wr with
      | addMember m' =>
        rcases Table.mem_insert hm with hm | rfl
        · exact .inl hm
        · exact .inr (List.mem_cons_self ..)
      | deleteMember id => exact .inl (Table.mem_delete.mp hm).1
      | addUser u | addRoom r | addMessage m' => exact .inl hm
    · exact .inr (List.mem_cons_of_mem _ hm)

end Tables

/-- A membership that is not there can be inserted. -/
theorem DbOp.checkMember_new {x : DbOutcome} {t : Tables} {room_id user_id : Uuid}
    (role : RoomRole) (huser : ∃ u ∈ t.users, u.id = user_id)
    (hroom : ∃ r ∈ t.rooms, r.id = room_id) (hmember : ¬t.IsMember room_id user_id)
    (hid : x.uuid ∉ t.ids) : checkMember t (newMember x room_id user_id role) =
      .ok (newMember x room_id user_id role) := by
  obtain ⟨u, hu⟩ := Table.exists_find? huser
  obtain ⟨r, hr⟩ := Table.exists_find? hroom
  have hclash : ¬t.roomMembers.rows.any (memberClash (newMember x room_id user_id role)) = true := by
    rw [List.any_eq_true]
    rintro ⟨m, hm, hc⟩
    simp only [memberClash, newMember, Bool.or_eq_true, Bool.and_eq_true] at hc
    rcases hc with hc | ⟨hr, hu⟩
    · exact hid (Tables.mem_ids.mpr (.inr (.inr (.inl ⟨m, hm, (of_decide_eq_true hc).symm⟩))))
    · exact hmember ⟨m, hm, (of_decide_eq_true hr).symm, (of_decide_eq_true hu).symm⟩
  have hu' : (t.users.find? fun u => u.id = (newMember x room_id user_id role).userId).isNone =
      false := by
    rw [Option.isNone_eq_false_iff]
    exact Option.isSome_iff_exists.mpr ⟨u, hu⟩
  have hr' : (t.rooms.find? fun r => r.id = (newMember x room_id user_id role).roomId).isNone =
      false := by
    rw [Option.isNone_eq_false_iff]
    exact Option.isSome_iff_exists.mpr ⟨r, hr⟩
  rw [checkMember, hu', hr', if_neg (by simp), if_neg (by simp), if_neg hclash]

namespace Database

/-- The ids in use are among `ids`, and a pending row shares its id with no other row. -/
structure FreshIds (d : Database) (ids : List Uuid) : Prop where
  committed : ∀ id ∈ d.committed.ids, id ∈ ids
  known : ∀ e ∈ d.pending, ∀ id, e.2.newId = some id → id ∈ ids
  pending : ∀ e ∈ d.pending, ∀ id, e.2.newId = some id → id ∉ d.committed.ids
  distinct : d.pending.Pairwise fun a b => ∀ id, a.2.newId = some id → b.2.newId ≠ some id

variable {d d' : Database} {ids : List Uuid} {me : TaskId} {op : DbOp} {x : DbOutcome}
  {res : Except Exn op.Resp}

theorem freshIds_init {t : Tables} : FreshIds { committed := t, pending := [] } t.ids where
  committed := fun _ h => h
  known := fun _ h => by cases h
  pending := fun _ h => by cases h
  distinct := .nil

theorem FreshIds.mono (h : d.FreshIds ids) {id : Uuid} : d.FreshIds (id :: ids) where
  committed := fun id' hid => List.mem_cons_of_mem _ (h.committed id' hid)
  known := fun e he id' hid => List.mem_cons_of_mem _ (h.known e he id' hid)
  pending := h.pending
  distinct := h.distinct

theorem FreshIds.flush (h : d.FreshIds ids) {wr : Write} {id : Uuid} (hfresh : id ∉ ids)
    (hwr : ∀ id', wr.newId = some id' → id' = id) : (d.flush me wr).FreshIds (id :: ids) where
  committed := fun id' hid => List.mem_cons_of_mem _ (h.committed id' hid)
  known := by
    intro e he id' hid
    rcases List.mem_append.mp he with he | he
    · exact List.mem_cons_of_mem _ (h.known e he id' hid)
    · cases List.mem_singleton.mp he
      exact hwr id' hid ▸ List.mem_cons_self ..
  pending := by
    intro e he id' hid
    rcases List.mem_append.mp he with he | he
    · exact h.pending e he id' hid
    · cases List.mem_singleton.mp he
      cases hwr id' hid
      exact fun hmem => hfresh (h.committed _ hmem)
  distinct := by
    refine List.pairwise_append.mpr ⟨h.distinct, List.pairwise_singleton _ _, ?_⟩
    intro a ha b hb id' hid hid'
    cases List.mem_singleton.mp hb
    cases hwr id' hid'
    exact hfresh (h.known a ha _ hid)

theorem FreshIds.forget (h : d.FreshIds ids) : (d.forget me).FreshIds ids where
  committed := h.committed
  known := fun e he => h.known e (List.mem_of_mem_filter he)
  pending := fun e he => h.pending e (List.mem_of_mem_filter he)
  distinct := h.distinct.filter _

theorem FreshIds.commit (h : d.FreshIds ids) : (d.commit me).FreshIds ids where
  committed := by
    intro id hid
    rcases Tables.mem_ids_foldl hid with hid | ⟨wr, hwr, hid⟩
    · exact h.committed id hid
    · exact h.known _ (mem_flushed.mp hwr) id hid
  known := fun e he => h.known e (List.mem_of_mem_filter he)
  pending := by
    intro e he id hid hmem
    obtain ⟨hp, hne⟩ := List.mem_filter.mp he
    rcases Tables.mem_ids_foldl hmem with hold | ⟨wr, hwr, hwid⟩
    · exact h.pending e hp id hid hold
    · have hsymm : Std.Symm fun a b : TaskId × Write =>
          ∀ id, a.2.newId = some id → b.2.newId ≠ some id :=
        ⟨fun a b hab id hb ha => hab id ha hb⟩
      have hother : (me, wr) ≠ e := by
        rintro rfl
        simp at hne
      exact h.distinct.forall (mem_flushed.mp hwr) hp hother id hwid hid
  distinct := h.distinct.filter _

theorem FreshIds.exec (h : d.FreshIds ids) (hfresh : x.uuid ∉ ids)
    (hx : op.exec me x d = some (res, d')) : d'.FreshIds (x.uuid :: ids) := by
  rcases DbOp.exec_cases hx with rfl | ⟨wr, hw, -, rfl⟩ | ⟨-, -, rfl⟩ | rfl
  · exact h.mono
  · exact h.flush hfresh fun id hid => DbOp.newId_writes hw hid
  · exact h.commit.mono
  · exact h.forget.mono

/-- The row was in the tables, or pending, at some time: nothing else will ever have its id. -/
structure Known (d : Database) (ids : List Uuid) (m : RoomMemberRow) : Prop where
  id_mem : m.id ∈ ids
  committed : ∀ m' ∈ d.committed.roomMembers, m'.id = m.id → m' = m
  pending : ∀ e ∈ d.pending, e.2.newId = some m.id → e.2 = .addMember m

/-- A row that a transaction sees is known. -/
theorem FreshIds.known_of_view (h : d.FreshIds ids) {m : RoomMemberRow}
    (hm : m ∈ (d.view me).roomMembers) : d.Known ids m := by
  rcases Tables.mem_members_of_foldl hm with hm | hm
  · have hid : m.id ∈ d.committed.ids := Tables.mem_ids.mpr (.inr (.inr (.inl ⟨m, hm, rfl⟩)))
    exact ⟨h.committed _ hid, fun _ hm' he => Table.eq_of_key hm' hm he,
      fun e he heid => absurd hid (h.pending e he _ heid)⟩
  · have hp := mem_flushed.mp hm
    refine ⟨h.known _ hp _ rfl, fun m' hm' he => ?_, fun e he heid => ?_⟩
    · exact absurd (Tables.mem_ids.mpr (.inr (.inr (.inl ⟨m', hm', he⟩))))
        (h.pending _ hp _ rfl)
    · by_contra hne
      have hsymm : Std.Symm fun a b : TaskId × Write =>
          ∀ id, a.2.newId = some id → b.2.newId ≠ some id :=
        ⟨fun a b hab id hb ha => hab id ha hb⟩
      have hother : (me, Write.addMember m) ≠ e := by
        rintro rfl
        exact hne rfl
      exact h.distinct.forall hp he hother _ rfl heid

theorem Known.exec {m : RoomMemberRow} (h : d.Known ids m) (hfresh : x.uuid ∉ ids)
    (hx : op.exec me x d = some (res, d')) : d'.Known (x.uuid :: ids) m := by
  refine ⟨List.mem_cons_of_mem _ h.id_mem, ?_, ?_⟩
  · rcases DbOp.exec_cases hx with rfl | ⟨wr, -, -, rfl⟩ | ⟨-, -, rfl⟩ | rfl
    · exact h.committed
    · exact h.committed
    · intro m' hm' hid
      rcases Tables.mem_members_of_foldl hm' with hold | hnew
      · exact h.committed m' hold hid
      · cases h.pending _ (mem_flushed.mp hnew) (congrArg some hid)
        rfl
    · exact h.committed
  · rcases DbOp.exec_cases hx with rfl | ⟨wr, hw, -, rfl⟩ | ⟨-, -, rfl⟩ | rfl
    · exact h.pending
    · intro e he hid
      rcases List.mem_append.mp he with he | he
      · exact h.pending e he hid
      · cases List.mem_singleton.mp he
        have hnew : m.id = x.uuid := DbOp.newId_writes hw hid
        exact absurd (hnew ▸ h.id_mem) hfresh
    · exact fun e he => h.pending e (List.mem_of_mem_filter he)
    · exact fun e he => h.pending e (List.mem_of_mem_filter he)

end Database

end NexusChat
