import NexusChat.Api.Requests

/-!
# Joining and leaving at the same time

Requests of one user to join and to leave one room, in flight at the same time, the database
answering. Each looks for the membership first and writes later, and nothing holds between: of two
requests that find no membership both insert one, and the second fails on the unique key; of two
that find one both delete it, and both report that they have left.

`Timely` is the condition on a statement: what the request has found is still so. In a run that
meets it the requests could as well have come one after the other (`serialized_of_timely`), those
that write in the order of their commits, the others where they looked.
-/

set_option autoImplicit false

namespace NexusChat

/-! ## One request after the other -/

namespace Routes

def joined : Response := .detail "Successfully joined the room"

def left : Response := .detail "Successfully left the room"

def alreadyMember : Exn := conflictError "Already a member of this room"

variable (lib : AuthLib) {x : DbOutcome} {t : Tables} {room_id user_id : Uuid} (me : TaskId)

/-- The request alone, on tables nobody else is changing. -/
def alone (lib : AuthLib) (me : TaskId) (r : WriteRequest) (x : DbOutcome) (t : Tables) :
    Option (Except Exn Response × Database) :=
  (prog lib r).run (DbOp.exec me) x { committed := t, pending := [] }

theorem view_idle : Database.view { committed := t, pending := [] } me = t := rfl

theorem alone_join_noRoom (hok : x.ok = true) (hroom : ∀ r ∈ t.rooms, r.id ≠ room_id) :
    alone lib me (.joinRoom room_id user_id) x t =
      some (.error (notFoundError "Room"), { committed := t, pending := [] }) := by
  have hnone : t.rooms.find? (fun r => r.id = room_id) = none :=
    Table.find?_eq_none.mpr fun r hr => decide_eq_false (hroom r hr)
  refine run_getDbSession hok ?_
  rw [handle, RoomService.joinRoom, RoomService.getRoom, bind_assoc, bind_assoc, run_db_bind rfl]
  simp only [view_idle, DbOp.answer, DbOp.reply, hok, if_true, hnone]
  rfl

theorem alone_join_member (hok : x.ok = true) (hroom : ∃ r ∈ t.rooms, r.id = room_id)
    (hmember : t.IsMember room_id user_id) : alone lib me (.joinRoom room_id user_id) x t =
      some (.error alreadyMember, { committed := t, pending := [] }) := by
  obtain ⟨m, hm⟩ := Option.isSome_iff_exists.mp (Tables.isSome_membership.mpr hmember)
  obtain ⟨room, hfind⟩ := Table.exists_find? hroom
  refine run_getDbSession hok ?_
  rw [handle, RoomService.joinRoom, RoomService.getRoom, bind_assoc, bind_assoc, run_db_bind rfl]
  simp only [view_idle, DbOp.answer, DbOp.reply, hok, if_true, hfind, pure_bind]
  rw [bind_assoc, run_db_bind rfl]
  simp only [DbOp.answer, DbOp.reply, hok, if_true, DbOp.after, view_idle, hm]
  rfl

theorem alone_join (hok : x.ok = true) (huser : ∃ u ∈ t.users, u.id = user_id)
    (hroom : ∃ r ∈ t.rooms, r.id = room_id) (hmember : ¬t.IsMember room_id user_id)
    (hid : x.uuid ∉ t.ids) : alone lib me (.joinRoom room_id user_id) x t =
      some (.ok joined,
        { committed := t.apply (.addMember (DbOp.newMember x room_id user_id .member)),
          pending := [] }) := by
  have hnone : t.membership room_id user_id = none :=
    Option.not_isSome_iff_eq_none.mp (mt Tables.isSome_membership.mp hmember)
  obtain ⟨room, hfind⟩ := Table.exists_find? hroom
  have hcheck := DbOp.checkMember_new (x := x) .member huser hroom hmember hid
  have hbody : (handle db lib (.joinRoom room_id user_id)).run (DbOp.exec me) x
      { committed := t, pending := [] } = some (.ok joined,
        (Database.mk t []).flush me (.addMember (DbOp.newMember x room_id user_id .member))) := by
    rw [handle, RoomService.joinRoom, RoomService.getRoom, bind_assoc, bind_assoc, run_db_bind rfl]
    simp only [view_idle, DbOp.answer, DbOp.reply, hok, if_true, hfind, pure_bind]
    rw [bind_assoc, run_db_bind rfl]
    simp only [DbOp.answer, DbOp.reply, hok, if_true, DbOp.after, view_idle, hnone]
    rw [run_db_bind rfl]
    simp only [DbOp.answer, DbOp.reply, hok, if_true, DbOp.after, view_idle, hcheck]
    rfl
  refine (run_session hok hbody).trans ?_
  simp [closed, Database.commit, Database.view, Database.forget, Database.flushed, Database.flush]

theorem alone_leave_outsider (hok : x.ok = true) (hmember : ¬t.IsMember room_id user_id) :
    alone lib me (.leaveRoom room_id user_id) x t =
      some (.error (notFoundError "Room membership"), { committed := t, pending := [] }) := by
  have hnone : t.membership room_id user_id = none :=
    Option.not_isSome_iff_eq_none.mp (mt Tables.isSome_membership.mp hmember)
  refine run_getDbSession hok ?_
  rw [handle, RoomService.leaveRoom, bind_assoc, run_db_bind rfl]
  simp only [view_idle, DbOp.answer, DbOp.reply, hok, if_true, hnone]
  rfl

theorem alone_leave (hok : x.ok = true) {m : RoomMemberRow}
    (hm : t.membership room_id user_id = some m) : alone lib me (.leaveRoom room_id user_id) x t =
      some (.ok left, { committed := t.apply (.deleteMember m.id), pending := [] }) := by
  have hbody : (handle db lib (.leaveRoom room_id user_id)).run (DbOp.exec me) x
      { committed := t, pending := [] } =
        some (.ok left, (Database.mk t []).flush me (.deleteMember m.id)) := by
    rw [handle, RoomService.leaveRoom, bind_assoc, run_db_bind rfl]
    simp only [view_idle, DbOp.answer, DbOp.reply, hok, if_true, hm]
    rw [run_db_bind rfl]
    simp only [DbOp.answer, DbOp.reply, hok, if_true, DbOp.after]
    rfl
  refine (run_session hok hbody).trans ?_
  simp [closed, Database.commit, Database.view, Database.forget, Database.flushed, Database.flush]

end Routes

namespace RequestPool

open Routes

/-- What a call has ended with. -/
def outcome : Call Response → Option (Except Exn Response)
  | .ret a => some (.ok a)
  | .raise e => some (.error e)
  | .await _ _ => none

/-- The requests one after the other, each with what it ends with, the database answering. -/
inductive Serial (lib : AuthLib) (t : Tables) :
    List (WriteRequest × Except Exn Response) → Tables → Prop
  | nil : Serial lib t [] t
  | snoc {rs : List (WriteRequest × Except Exn Response)} {r : WriteRequest}
      {out : Except Exn Response} {t₁ t₂ : Tables} {me : TaskId} {x : DbOutcome}
      (h : Serial lib t rs t₁) (hok : x.ok = true)
      (hrun : alone lib me r x t₁ = some (out, { committed := t₂, pending := [] })) :
      Serial lib t (rs ++ [(r, out)]) t₂

/-- Joined, `ConflictError`, left, `NotFoundError`. -/
def Expected (out : Except Exn Response) : Prop :=
  out = .ok joined ∨ out = .error alreadyMember ∨ out = .ok left ∨
    ∃ resource, out = .error (notFoundError resource)

/-- No call has ended in an unexpected way, and once all have ended it is as if the requests had
come in some order. -/
def Serialized (lib : AuthLib) (t : Tables) (s : RequestPool) : Prop :=
  (∀ c ∈ s.calls, ∀ out, outcome c.2 = some out → Expected out) ∧
  ((∀ c ∈ s.calls, (outcome c.2).isSome = true) →
    ∃ order : List (TaskId × WriteRequest × Except Exn Response),
      (order.map Prod.fst).Perm (List.range s.calls.length) ∧
      (∀ e ∈ order, ∃ p, s.calls[e.1]? = some (e.2.1, p) ∧ outcome p = some e.2.2) ∧
      Serial lib t (order.map Prod.snd) s.db.committed)

/-- The requests are the user's, to join or to leave the room, and the database answers. -/
def Answered (room_id user_id : Uuid) (_ : RequestPool) : Label → Prop
  | .start r => r = .joinRoom room_id user_id ∨ r = .leaveRoom room_id user_id
  | .run _ x => x.ok = true

end RequestPool

/-- What the request has found is still so when the statement is carried out. -/
def DbOp.StillSo (d : Database) : DbOp → Prop
  | .insertMember room_id user_id _ => ¬d.committed.IsMember room_id user_id
  | .deleteMember id => ∃ m ∈ d.committed.roomMembers, m.id = id
  | _ => True

namespace RequestPool

open Routes

/-- No statement comes too late. -/
def Timely (room_id user_id : Uuid) (s : RequestPool) (l : Label) : Prop :=
  Answered room_id user_id s l ∧ ∀ i x, l = .run i x → ∀ r op k,
    s.calls[i]? = some (r, .await op k) → op.StillSo s.db

/-! ## Where a request is -/

inductive Stage where
  | joining
  | roomFound
  | absent
  | inserted (m : RoomMemberRow)
  | leaving
  | found (m : RoomMemberRow)
  | deleted (m : RoomMemberRow)
  /-- the outcome is certain -/
  | closing (out : Except Exn Response)
  | done (out : Except Exn Response)

namespace Stage

/-- What is left of the request. -/
def rest (lib : AuthLib) (room_id user_id : Uuid) : Stage → Call Response
  | .joining => prog lib (.joinRoom room_id user_id)
  | .roomFound => getDbSession Routes.db do
    let _ ← (do
      match ← Routes.db (.selectMember room_id user_id) with
      | some _ => throw alreadyMember
      | none => Routes.db (.insertMember room_id user_id .member) : Call RoomMemberRow)
    pure joined
  | .absent => getDbSession Routes.db do
    let _ ← Routes.db (.insertMember room_id user_id .member)
    pure joined
  | .inserted _ => getDbSession Routes.db (pure joined)
  | .leaving => prog lib (.leaveRoom room_id user_id)
  | .found m => getDbSession Routes.db do
    Routes.db (.deleteMember m.id)
    pure left
  | .deleted _ => getDbSession Routes.db (pure left)
  | .closing (.ok a) => do
    Routes.db .rollback
    pure a
  | .closing (.error e) => getDbSession Routes.db (throw e)
  | .done (.ok a) => pure a
  | .done (.error e) => throw e

/-- The request it is a stage of. -/
def Of (room_id user_id : Uuid) (r : WriteRequest) : Stage → Prop
  | .joining | .roomFound | .absent | .inserted _ => r = .joinRoom room_id user_id
  | .leaving | .found _ | .deleted _ => r = .leaveRoom room_id user_id
  | .closing _ | .done _ => True

def decided : Stage → Option (Except Exn Response)
  | .closing out | .done out => some out
  | _ => none

/-- What the request knows, and what its transaction has pending. -/
def Holds (t : Tables) (room_id user_id : Uuid) (d : Database) (ids : List Uuid) (i : TaskId) :
    Stage → Prop
  | .joining | .leaving | .closing _ | .done _ => d.flushed i = []
  | .roomFound | .absent => d.flushed i = [] ∧ ∃ r ∈ t.rooms, r.id = room_id
  | .inserted m => d.flushed i = [.addMember m] ∧ (∃ r ∈ t.rooms, r.id = room_id) ∧
      (∃ x, x.ok = true ∧ m = DbOp.newMember x room_id user_id .member) ∧
      ¬d.committed.IsMember room_id user_id
  | .found m => d.flushed i = [] ∧ d.Known ids m ∧ m.roomId = room_id ∧ m.userId = user_id
  | .deleted m => d.flushed i = [.deleteMember m.id] ∧ m ∈ d.committed.roomMembers ∧
      m.roomId = room_id ∧ m.userId = user_id

variable {t : Tables} {room_id user_id : Uuid} {d d' : Database} {ids : List Uuid} {i j : TaskId}
  {op : DbOp} {x : DbOutcome} {res : Except Exn op.Resp} {st : Stage}

/-- **A stage survives the statements of the others**, those of a transaction that has written as
long as nobody else commits. -/
theorem Holds.other (h : st.Holds t room_id user_id d ids j) (hji : j ≠ i)
    (hfresh : x.uuid ∉ ids) (hx : op.exec i x d = some (res, d'))
    (hsame : d.flushed j ≠ [] → d'.committed = d.committed) :
    st.Holds t room_id user_id d' (x.uuid :: ids) j := by
  have hflushed := DbOp.flushed_exec hx hji
  cases st with
  | joining | leaving | closing out | done out => exact hflushed.trans h
  | roomFound | absent => exact ⟨hflushed.trans h.1, h.2⟩
  | inserted m =>
    obtain ⟨hw, hroom, hm, hnot⟩ := h
    have hcommitted := hsame (by simp [hw])
    exact ⟨hflushed.trans hw, hroom, hm, by rw [hcommitted]; exact hnot⟩
  | found m => exact ⟨hflushed.trans h.1, h.2.1.exec hfresh hx, h.2.2⟩
  | deleted m =>
    obtain ⟨hw, hm, hp⟩ := h
    have hcommitted := hsame (by simp [hw])
    exact ⟨hflushed.trans hw, by rw [hcommitted]; exact hm, hp⟩

end Stage

/-! ## The database -/

/-- One membership at most is committed, and one transaction at most has written. -/
structure Store (t : Tables) (d : Database) (ids : List Uuid) : Prop where
  fresh : d.FreshIds ids
  users : d.committed.users = t.users
  rooms : d.committed.rooms = t.rooms
  unique : ∀ m ∈ d.committed.roomMembers, ∀ m' ∈ d.committed.roomMembers,
    m.roomId = m'.roomId → m.userId = m'.userId → m = m'
  writer : ∀ i j, d.flushed i ≠ [] → d.flushed j ≠ [] → i = j

section Store

variable {t : Tables} {d : Database} {ids : List Uuid} {i : TaskId}

theorem Store.mono (h : Store t d ids) {id : Uuid} :
    Store t d (id :: ids) :=
  { h with fresh := h.fresh.mono }

theorem Store.flush (h : Store t d ids) {wr : Write}
    (hothers : ∀ j, j ≠ i → d.flushed j = []) (hfresh : (d.flush i wr).FreshIds ids) :
    Store t (d.flush i wr) ids where
  fresh := hfresh
  users := h.users
  rooms := h.rooms
  unique := h.unique
  writer := by
    have hself : ∀ j, (d.flush i wr).flushed j ≠ [] → j = i := by
      intro j hj
      by_contra hji
      exact hj ((Database.flushed_flush_other hji).trans (hothers j hji))
    exact fun j k hj hk => (hself j hj).trans (hself k hk).symm

theorem Store.commit (h : Store t d ids)
    (hfresh : (d.commit i).FreshIds ids) (husers : (d.commit i).committed.users = t.users)
    (hrooms : (d.commit i).committed.rooms = t.rooms)
    (hunique : ∀ m ∈ (d.commit i).committed.roomMembers,
      ∀ m' ∈ (d.commit i).committed.roomMembers,
        m.roomId = m'.roomId → m.userId = m'.userId → m = m') :
    Store t (d.commit i) ids where
  fresh := hfresh
  users := husers
  rooms := hrooms
  unique := hunique
  writer := by
    have hold : ∀ j, (d.commit i).flushed j ≠ [] → d.flushed j ≠ [] := by
      intro j hj he
      by_cases hji : j = i
      · subst hji
        exact hj Database.flushed_commit_self
      · exact hj ((Database.flushed_commit_other hji).trans he)
    exact fun j k hj hk => h.writer j k (hold j hj) (hold k hk)

end Store

/-! ## The order -/

/-- The calls in `order` are certain of their outcome, and it is as if they had come in this
order. -/
structure Lined (lib : AuthLib) (t : Tables) (room_id user_id : Uuid) (s : RequestPool)
    (order : List (TaskId × WriteRequest × Except Exn Response)) : Prop where
  store : Store t s.db s.ids
  idle : ∀ i, s.calls.length ≤ i → s.db.flushed i = []
  once : (order.map Prod.fst).Nodup
  requests : ∀ e ∈ order, ∃ p, s.calls[e.1]? = some (e.2.1, p)
  expected : ∀ e ∈ order, Expected e.2.2
  serial : Serial lib t (order.map Prod.snd) s.db.committed
  calls : ∀ i r p, s.calls[i]? = some (r, p) → ∃ st : Stage, p = st.rest lib room_id user_id ∧
    st.Of room_id user_id r ∧ (∀ out, (i, r, out) ∈ order ↔ st.decided = some out) ∧
    st.Holds t room_id user_id s.db s.ids i

section Lined

variable {lib : AuthLib} {t : Tables} {room_id user_id : Uuid} {s s' : RequestPool}
  {order : List (TaskId × WriteRequest × Except Exn Response)} {i : TaskId} {op : DbOp}
  {x : DbOutcome} {res : Except Exn op.Resp} {d : Database} {r : WriteRequest} {st st' : Stage}

theorem lined_init (ht : t.Valid) : Lined lib t room_id user_id (init t) [] where
  store := {
    fresh := Database.freshIds_init
    users := rfl
    rooms := rfl
    unique := ht.members
    writer := fun _ _ h => absurd rfl h }
  idle := fun _ _ => rfl
  once := .nil
  requests := fun _ h => by cases h
  expected := fun _ h => by cases h
  serial := .nil
  calls := fun _ _ _ h => by cases h

theorem Lined.start (h : Lined lib t room_id user_id s order)
    (hr : r = .joinRoom room_id user_id ∨ r = .leaveRoom room_id user_id) :
    Lined lib t room_id user_id { s with calls := s.calls ++ [(r, prog lib r)] } order where
  store := h.store
  idle := idle_start h.idle
  once := h.once
  requests := fun e he => request_start (h.requests e he)
  expected := h.expected
  serial := h.serial
  calls := by
    intro i r' p hi
    rcases getElem?_start hi with hold | ⟨rfl, rfl, rfl⟩
    · exact h.calls i r' p hold
    · have hnew : ∀ out, (s.calls.length, r', out) ∈ order ↔ (none : Option _) = some out := by
        refine fun out => ⟨fun hmem => ?_, fun hn => by cases hn⟩
        obtain ⟨p, hp⟩ := h.requests _ hmem
        exact absurd (List.getElem?_eq_some_iff.mp hp).1 (Nat.lt_irrefl _)
      have hidle := h.idle s.calls.length (Nat.le_refl _)
      rcases hr with rfl | rfl
      · exact ⟨.joining, rfl, rfl, hnew, hidle⟩
      · exact ⟨.leaving, rfl, rfl, hnew, hidle⟩

/-- What a step of one call leaves of the invariant to the others. -/
theorem Lined.others (h : Lined lib t room_id user_id s order)
    (hfresh : x.uuid ∉ s.ids) (hx : op.exec i x s.db = some (res, d))
    (hsame : ∀ j, j ≠ i → s.db.flushed j ≠ [] → d.committed = s.db.committed)
    {order' : List (TaskId × WriteRequest × Except Exn Response)}
    (horder : ∀ j r out, j ≠ i → ((j, r, out) ∈ order' ↔ (j, r, out) ∈ order))
    {p' : Call Response} {j : TaskId} {r' : WriteRequest} {p : Call Response} (hji : j ≠ i)
    (hj : (s.calls.set i (r, p'))[j]? = some (r', p)) :
    ∃ st : Stage, p = st.rest lib room_id user_id ∧ st.Of room_id user_id r' ∧
      (∀ out, (j, r', out) ∈ order' ↔ st.decided = some out) ∧
      st.Holds t room_id user_id d (x.uuid :: s.ids) j := by
  rw [List.getElem?_set_ne (Ne.symm hji)] at hj
  obtain ⟨st, hp, hof, hdecided, hholds⟩ := h.calls j r' p hj
  exact ⟨st, hp, hof, fun out => (horder j r' out hji).trans (hdecided out),
    hholds.other hji hfresh hx (hsame j hji)⟩

/-- A statement that decides nothing. -/
theorem Lined.advance (h : Lined lib t room_id user_id s order) (st' : Stage) {p : Call Response}
    (hi : s.calls[i]? = some (r, p)) (hfresh : x.uuid ∉ s.ids)
    (hx : op.exec i x s.db = some (res, d)) (hstore : Store t d (x.uuid :: s.ids))
    (hsame : d.committed = s.db.committed)
    (hdecided : ∀ out, (i, r, out) ∈ order ↔ st'.decided = some out)
    (hof : st'.Of room_id user_id r)
    (hholds : st'.Holds t room_id user_id d (x.uuid :: s.ids) i) :
    Lined lib t room_id user_id
      { db := d, ids := x.uuid :: s.ids,
        calls := s.calls.set i (r, st'.rest lib room_id user_id) } order where
  store := hstore
  idle := idle_run h.idle hi hx
  once := h.once
  requests := fun e he => request_run hi (h.requests e he)
  expected := h.expected
  serial := hsame ▸ h.serial
  calls := by
    intro j r' p hj
    by_cases hji : j = i
    · subst hji
      rcases getElem?_replace hj with ⟨hne, -⟩ | ⟨-, he⟩
      · exact absurd rfl hne
      · cases he
        exact ⟨st', rfl, hof, hdecided, hholds⟩
    · exact h.others hfresh hx (fun _ _ _ => hsame) (fun _ _ _ _ => Iff.rfl) hji hj

/-- **A statement that decides the outcome of its request** puts the request at the end of the
order. -/
theorem Lined.decide (h : Lined lib t room_id user_id s order) {p : Call Response}
    (hi : s.calls[i]? = some (r, p)) (hfresh : x.uuid ∉ s.ids)
    (hx : op.exec i x s.db = some (res, d)) (hstore : Store t d (x.uuid :: s.ids))
    (hsame : ∀ j, j ≠ i → s.db.flushed j ≠ [] → d.committed = s.db.committed)
    (hnew : ∀ out, (i, r, out) ∉ order) {out : Except Exn Response} (hout : Expected out)
    {me : TaskId} {x' : DbOutcome} (hok : x'.ok = true)
    (halone : alone lib me r x' s.db.committed =
      some (out, { committed := d.committed, pending := [] }))
    (hholds : d.flushed i = []) :
    Lined lib t room_id user_id
      { db := d, ids := x.uuid :: s.ids,
        calls := s.calls.set i (r, (Stage.closing out).rest lib room_id user_id) }
      (order ++ [(i, r, out)]) where
  store := hstore
  idle := idle_run h.idle hi hx
  once := by
    rw [List.map_append]
    refine List.nodup_append.mpr ⟨h.once, List.nodup_singleton _, ?_⟩
    rintro j hj _ hmem rfl
    have hji : j = i := List.mem_singleton.mp hmem
    obtain ⟨⟨k, r', out'⟩, he, rfl⟩ := List.mem_map.mp hj
    obtain ⟨q, hq⟩ := h.requests _ he
    rw [hji] at hq
    have hr : r' = r := (Prod.mk.inj (Option.some.inj (hq.symm.trans hi))).1
    exact hnew out' (hji ▸ hr ▸ he)
  requests := by
    intro e he
    rcases List.mem_append.mp he with he | he
    · exact request_run hi (h.requests e he)
    · cases List.mem_singleton.mp he
      exact ⟨_, List.getElem?_set_self (List.getElem?_eq_some_iff.mp hi).1⟩
  expected := by
    intro e he
    rcases List.mem_append.mp he with he | he
    · exact h.expected e he
    · cases List.mem_singleton.mp he
      exact hout
  serial := by
    rw [List.map_append]
    exact h.serial.snoc hok halone
  calls := by
    intro j r' p hj
    by_cases hji : j = i
    · -- the request that decides: it is in the order now, and once
      subst hji
      rcases getElem?_replace hj with ⟨hne, -⟩ | ⟨-, he⟩
      · exact absurd rfl hne
      · cases he
        refine ⟨.closing out, rfl, trivial, fun out' => ?_, hholds⟩
        rw [List.mem_append, or_iff_right (hnew out'), List.mem_singleton]
        simp [Stage.decided, eq_comm]
    · -- the others are where they were
      refine h.others hfresh hx hsame (fun k r'' out' hk => ?_) hji hj
      rw [List.mem_append, List.mem_singleton, or_iff_left]
      exact fun he => hk (congrArg Prod.fst he)

/-- What a transaction has written. -/
theorem Lined.written (h : Lined lib t room_id user_id s order) (j : TaskId) :
    s.db.flushed j = [] ∨
    (∃ x, s.db.flushed j = [.addMember (DbOp.newMember x room_id user_id .member)] ∧
      ¬s.db.committed.IsMember room_id user_id) ∨
    ∃ m ∈ s.db.committed.roomMembers, m.roomId = room_id ∧ m.userId = user_id ∧
      s.db.flushed j = [.deleteMember m.id] := by
  by_cases hj : j < s.calls.length
  · obtain ⟨st, -, -, -, hholds⟩ := h.calls j _ _ (List.getElem?_eq_getElem hj)
    cases st with
    | inserted m =>
      obtain ⟨hw, -, ⟨x, -, rfl⟩, hnot⟩ := hholds
      exact .inr (.inl ⟨x, hw, hnot⟩)
    | deleted m =>
      obtain ⟨hw, hm, hp⟩ := hholds
      exact .inr (.inr ⟨m, hm, hp.1, hp.2, hw⟩)
    | joining | leaving | closing out | done out => exact .inl hholds
    | roomFound | absent | found m => exact .inl hholds.1
  · exact .inl (h.idle j (Nat.not_lt.mp hj))

/-- An insertion that does not wait is the only one that has written. -/
theorem Lined.inserts (h : Lined lib t room_id user_id s order) {role : RoomRole}
    (hnot : ¬s.db.committed.IsMember room_id user_id)
    (hfree : DbOp.blocked x i s.db (.insertMember room_id user_id role) = false) :
    ∀ j, j ≠ i → s.db.flushed j = [] := by
  intro j hji
  rcases h.written j with he | ⟨y, hw, -⟩ | ⟨m, hm, hr, hu, -⟩
  · exact he
  · have hmem : .addMember (DbOp.newMember y room_id user_id .member) ∈ s.db.others i :=
      Database.mem_others.mpr ⟨j, hji, Database.mem_flushed.mp (by rw [hw]; simp)⟩
    have hwait : DbOp.blocked x i s.db (.insertMember room_id user_id role) = true :=
      List.any_eq_true.mpr ⟨_, hmem, by simp [DbOp.memberClash, DbOp.newMember]⟩
    rw [hwait] at hfree
    cases hfree
  · exact absurd ⟨m, hm, hr, hu⟩ hnot

/-- So is a deletion. -/
theorem Lined.deletes (h : Lined lib t room_id user_id s order) {m : RoomMemberRow}
    (hm : m ∈ s.db.committed.roomMembers) (hr : m.roomId = room_id) (hu : m.userId = user_id)
    (hfree : DbOp.blocked x i s.db (.deleteMember m.id) = false) :
    ∀ j, j ≠ i → s.db.flushed j = [] := by
  intro j hji
  rcases h.written j with he | ⟨y, -, hnot⟩ | ⟨m', hm', hr', hu', hw⟩
  · exact he
  · exact absurd ⟨m, hm, hr, hu⟩ hnot
  · have hsame : m' = m :=
      h.store.unique m' hm' m hm (hr'.trans hr.symm) (hu'.trans hu.symm)
    have hmem : .deleteMember m.id ∈ s.db.others i :=
      Database.mem_others.mpr ⟨j, hji, Database.mem_flushed.mp (by rw [hw, hsame]; simp)⟩
    have hwait : DbOp.blocked x i s.db (.deleteMember m.id) = true :=
      List.contains_iff_mem.mpr hmem
    rw [hwait] at hfree
    cases hfree

/-- The row that was found is the membership. -/
theorem Store.membership_eq (h : Store t d s.ids) {m : RoomMemberRow}
    (hm : m ∈ d.committed.roomMembers) (hr : m.roomId = room_id) (hu : m.userId = user_id) :
    d.committed.membership room_id user_id = some m := by
  obtain ⟨m', hm'⟩ := Option.isSome_iff_exists.mp (Tables.isSome_membership.mpr ⟨m, hm, hr, hu⟩)
  obtain ⟨hmem, hp⟩ := Table.find?_eq_some hm'
  simp only [Bool.and_eq_true, decide_eq_true_eq] at hp
  have hsame : m' = m :=
    h.unique m' hmem m hm (hp.1.trans hr.symm) (hp.2.trans hu.symm)
  rw [hm', hsame]

/-! ### One statement, by the stage its call is at -/

/-- The call is at the stage. -/
structure At (lib : AuthLib) (t : Tables) (room_id user_id : Uuid) (s : RequestPool)
    (order : List (TaskId × WriteRequest × Except Exn Response)) (i : TaskId) (r : WriteRequest)
    (p : Call Response) (st : Stage) : Prop where
  rest : p = st.rest lib room_id user_id
  request : st.Of room_id user_id r
  decided : ∀ out, (i, r, out) ∈ order ↔ st.decided = some out
  holds : st.Holds t room_id user_id s.db s.ids i

/-- A call whose outcome is open is not in the order. -/
theorem At.open {p : Call Response} (hat : At lib t room_id user_id s order i r p st)
    (hn : st.decided = none) (out : Except Exn Response) : (i, r, out) ∉ order := by
  intro hmem
  have hdecided := (hat.decided out).mp hmem
  rw [hn] at hdecided
  cases hdecided

section Statement

variable {k : Except Exn op.Resp → Call Response} {m : RoomMemberRow}
  {out : Except Exn Response} (h : Lined lib t room_id user_id s order)
  (hi : s.calls[i]? = some (r, .await op k)) (hfresh : x.uuid ∉ s.ids)
  (hx : op.exec i x s.db = some (res, d)) (hok : x.ok = true)
include h hi hfresh hx hok

/-- `join_room` looks for the room. -/
theorem Lined.run_joining (hat : At lib t room_id user_id s order i r (.await op k) .joining) :
    ∃ order', Lined lib t room_id user_id
      { db := d, ids := x.uuid :: s.ids, calls := s.calls.set i (r, k res) } order' := by
  obtain ⟨rfl, hk⟩ := Coro.await.inj hat.rest
  obtain ⟨hres, hd⟩ := DbOp.exec_eq_some hx
  have hw : s.db.flushed i = [] := hat.holds
  cases hk
  cases hat.request
  cases hd
  have hanswer : res = .ok (s.db.committed.rooms.find? fun r => r.id = room_id) := by
    rw [hres, Database.view_of_flushed hw]
    simp [DbOp.answer, DbOp.reply, hok]
  cases hfind : s.db.committed.rooms.find? fun r => r.id = room_id with
  | none =>
    rw [hfind] at hanswer
    cases hanswer
    have hroom : ∀ r ∈ s.db.committed.rooms, r.id ≠ room_id := fun r hr =>
      of_decide_eq_false (Table.find?_eq_none.mp hfind r hr)
    exact ⟨_, h.decide hi hfresh hx h.store.mono (fun _ _ _ => rfl) (hat.open rfl)
      (.inr (.inr (.inr ⟨"Room", rfl⟩))) hok (alone_join_noRoom lib i hok hroom) hw⟩
  | some room =>
    rw [hfind] at hanswer
    cases hanswer
    obtain ⟨hmem, hid⟩ := Table.find?_eq_some hfind
    have hroom : ∃ r ∈ t.rooms, r.id = room_id :=
      ⟨room, h.store.rooms ▸ hmem, of_decide_eq_true hid⟩
    exact ⟨_, h.advance .roomFound hi hfresh hx h.store.mono rfl hat.decided rfl ⟨hw, hroom⟩⟩

/-- `join_room` looks for a membership. -/
theorem Lined.run_roomFound (hat : At lib t room_id user_id s order i r (.await op k) .roomFound) :
    ∃ order', Lined lib t room_id user_id
      { db := d, ids := x.uuid :: s.ids, calls := s.calls.set i (r, k res) } order' := by
  obtain ⟨rfl, hk⟩ := Coro.await.inj hat.rest
  obtain ⟨hres, hd⟩ := DbOp.exec_eq_some hx
  obtain ⟨hw, hroom⟩ := hat.holds
  cases hk
  cases hat.request
  cases hd
  have hanswer : res = .ok (s.db.committed.membership room_id user_id) := by
    rw [hres, Database.view_of_flushed hw]
    simp [DbOp.answer, DbOp.reply, hok]
  cases hfind : s.db.committed.membership room_id user_id with
  | none =>
    rw [hfind] at hanswer
    cases hanswer
    exact ⟨_, h.advance .absent hi hfresh hx h.store.mono rfl hat.decided rfl ⟨hw, hroom⟩⟩
  | some m =>
    rw [hfind] at hanswer
    cases hanswer
    have hmember : s.db.committed.IsMember room_id user_id :=
      Tables.isSome_membership.mp (by rw [hfind]; rfl)
    have hroom : ∃ r ∈ s.db.committed.rooms, r.id = room_id := h.store.rooms ▸ hroom
    exact ⟨_, h.decide hi hfresh hx h.store.mono (fun _ _ _ => rfl) (hat.open rfl)
      (.inr (.inl rfl)) hok (alone_join_member lib i hok hroom hmember) hw⟩

/-- `join_room` inserts the membership, if it is still not there. -/
theorem Lined.run_absent (huser : ∃ u ∈ t.users, u.id = user_id) (hso : op.StillSo s.db)
    (hat : At lib t room_id user_id s order i r (.await op k) .absent) :
    ∃ order', Lined lib t room_id user_id
      { db := d, ids := x.uuid :: s.ids, calls := s.calls.set i (r, k res) } order' := by
  obtain ⟨rfl, hk⟩ := Coro.await.inj hat.rest
  obtain ⟨hres, hd⟩ := DbOp.exec_eq_some hx
  obtain ⟨hw, hroom⟩ := hat.holds
  cases hk
  cases hat.request
  have hid : x.uuid ∉ s.db.committed.ids := fun hmem =>
    hfresh (h.store.fresh.committed _ hmem)
  have hanswer : DbOp.answer x (s.db.view i) (.insertMember room_id user_id .member) =
      .ok (DbOp.newMember x room_id user_id .member) := by
    rw [Database.view_of_flushed hw]
    simp only [DbOp.answer, DbOp.reply, hok, if_true]
    exact DbOp.checkMember_new .member (h.store.users ▸ huser) (h.store.rooms ▸ hroom) hso hid
  rw [hanswer] at hres
  cases hres
  have hd : d = s.db.flush i (.addMember (DbOp.newMember x room_id user_id .member)) := by
    simp only [hd, DbOp.after, hanswer]
  cases hd
  have hothers := h.inserts hso (DbOp.not_blocked hx)
  refine ⟨_, h.advance (.inserted (DbOp.newMember x room_id user_id .member)) hi hfresh
    hx (h.store.mono.flush hothers (h.store.fresh.exec hfresh hx)) rfl hat.decided rfl
    ⟨?_, hroom, ⟨x, hok, rfl⟩, hso⟩⟩
  rw [Database.flushed_flush_self, hw]
  rfl

/-- `join_room` commits. -/
theorem Lined.run_inserted (huser : ∃ u ∈ t.users, u.id = user_id)
    (hat : At lib t room_id user_id s order i r (.await op k) (.inserted m)) :
    ∃ order', Lined lib t room_id user_id
      { db := d, ids := x.uuid :: s.ids, calls := s.calls.set i (r, k res) } order' := by
  obtain ⟨rfl, hk⟩ := Coro.await.inj hat.rest
  obtain ⟨hres, hd⟩ := DbOp.exec_eq_some hx
  obtain ⟨hw, hroom, ⟨y, hyok, rfl⟩, hnot⟩ := hat.holds
  cases hk
  cases hat.request
  have hd : d = s.db.commit i := by simp [hd, DbOp.after, hok]
  have hanswer : res = .ok () := by simp [hres, DbOp.answer, DbOp.reply, hok]
  cases hanswer
  cases hd
  have hcommitted : (s.db.commit i).committed =
      s.db.committed.apply (.addMember (DbOp.newMember y room_id user_id .member)) := by
    change (s.db.flushed i).foldl Tables.apply s.db.committed = _
    rw [hw]
    rfl
  have hpending : (i, .addMember (DbOp.newMember y room_id user_id .member)) ∈ s.db.pending :=
    Database.mem_flushed.mp (hw ▸ List.mem_singleton_self _)
  have hid : y.uuid ∉ s.db.committed.ids := h.store.fresh.pending _ hpending _ rfl
  -- what the request would have done alone, when it was inserted
  have halone := alone_join lib i hyok (h.store.users ▸ huser) (h.store.rooms ▸ hroom) hnot hid
  rw [← hcommitted] at halone
  refine ⟨_, h.decide hi hfresh hx (h.store.mono.commit (h.store.fresh.exec hfresh hx) ?_ ?_ ?_)
    (fun j hji hj => absurd (h.store.writer j i hj (by simp [hw])) hji) (hat.open rfl)
    (.inl rfl) hyok halone Database.flushed_commit_self⟩
  · rw [hcommitted]
    exact h.store.users
  · rw [hcommitted]
    exact h.store.rooms
  · -- the new row is the only one of the room and the user
    rw [hcommitted]
    intro m hm m' hm' hr hu
    rcases Table.mem_insert hm with hm | rfl <;> rcases Table.mem_insert hm' with hm' | rfl
    · exact h.store.unique m hm m' hm' hr hu
    · exact absurd ⟨m, hm, hr, hu⟩ hnot
    · exact absurd ⟨m', hm', hr.symm, hu.symm⟩ hnot
    · rfl

/-- `leave_room` looks for the membership. -/
theorem Lined.run_leaving (hat : At lib t room_id user_id s order i r (.await op k) .leaving) :
    ∃ order', Lined lib t room_id user_id
      { db := d, ids := x.uuid :: s.ids, calls := s.calls.set i (r, k res) } order' := by
  obtain ⟨rfl, hk⟩ := Coro.await.inj hat.rest
  obtain ⟨hres, hd⟩ := DbOp.exec_eq_some hx
  have hw : s.db.flushed i = [] := hat.holds
  cases hk
  cases hat.request
  cases hd
  have hanswer : res = .ok (s.db.committed.membership room_id user_id) := by
    rw [hres, Database.view_of_flushed hw]
    simp [DbOp.answer, DbOp.reply, hok]
  cases hfind : s.db.committed.membership room_id user_id with
  | none =>
    rw [hfind] at hanswer
    cases hanswer
    have hmember : ¬s.db.committed.IsMember room_id user_id := by
      intro hm
      have hsome := Tables.isSome_membership.mpr hm
      rw [hfind] at hsome
      cases hsome
    exact ⟨_, h.decide hi hfresh hx h.store.mono (fun _ _ _ => rfl) (hat.open rfl)
      (.inr (.inr (.inr ⟨"Room membership", rfl⟩))) hok
      (alone_leave_outsider lib i hok hmember) hw⟩
  | some m =>
    rw [hfind] at hanswer
    cases hanswer
    obtain ⟨hmem, hp⟩ := Table.find?_eq_some hfind
    simp only [Bool.and_eq_true, decide_eq_true_eq] at hp
    have hseen : m ∈ (s.db.view i).roomMembers := Database.view_of_flushed hw ▸ hmem
    have hknown := (h.store.fresh.known_of_view hseen).exec hfresh hx
    exact ⟨_, h.advance (.found m) hi hfresh hx h.store.mono rfl hat.decided rfl
      ⟨hw, hknown, hp⟩⟩

/-- `leave_room` deletes the row it has found, if it is still there. -/
theorem Lined.run_found (hso : op.StillSo s.db)
    (hat : At lib t room_id user_id s order i r (.await op k) (.found m)) :
    ∃ order', Lined lib t room_id user_id
      { db := d, ids := x.uuid :: s.ids, calls := s.calls.set i (r, k res) } order' := by
  obtain ⟨rfl, hk⟩ := Coro.await.inj hat.rest
  obtain ⟨hres, hd⟩ := DbOp.exec_eq_some hx
  obtain ⟨hw, hknown, hr, hu⟩ := hat.holds
  cases hk
  cases hat.request
  obtain ⟨m', hm', hid⟩ := hso
  have hm : m ∈ s.db.committed.roomMembers := hknown.committed m' hm' hid ▸ hm'
  have hd : d = s.db.flush i (.deleteMember m.id) := by simp [hd, DbOp.after, hok]
  have hanswer : res = .ok () := by simp [hres, DbOp.answer, DbOp.reply, hok]
  cases hanswer
  cases hd
  have hothers := h.deletes hm hr hu (DbOp.not_blocked hx)
  refine ⟨_, h.advance (.deleted m) hi hfresh hx
    (h.store.mono.flush hothers (h.store.fresh.exec hfresh hx)) rfl hat.decided rfl
    ⟨?_, hm, hr, hu⟩⟩
  rw [Database.flushed_flush_self, hw]
  rfl

/-- `leave_room` commits. -/
theorem Lined.run_deleted
    (hat : At lib t room_id user_id s order i r (.await op k) (.deleted m)) :
    ∃ order', Lined lib t room_id user_id
      { db := d, ids := x.uuid :: s.ids, calls := s.calls.set i (r, k res) } order' := by
  obtain ⟨rfl, hk⟩ := Coro.await.inj hat.rest
  obtain ⟨hres, hd⟩ := DbOp.exec_eq_some hx
  obtain ⟨hw, hm, hr, hu⟩ := hat.holds
  cases hk
  cases hat.request
  have hd : d = s.db.commit i := by simp [hd, DbOp.after, hok]
  have hanswer : res = .ok () := by simp [hres, DbOp.answer, DbOp.reply, hok]
  cases hanswer
  cases hd
  have hcommitted : (s.db.commit i).committed =
      s.db.committed.apply (.deleteMember m.id) := by
    change (s.db.flushed i).foldl Tables.apply s.db.committed = _
    rw [hw]
    rfl
  have halone := alone_leave lib i hok (h.store.membership_eq hm hr hu)
  rw [← hcommitted] at halone
  refine ⟨_, h.decide hi hfresh hx (h.store.mono.commit (h.store.fresh.exec hfresh hx) ?_ ?_ ?_)
    (fun j hji hj => absurd (h.store.writer j i hj (by simp [hw])) hji) (hat.open rfl)
    (.inr (.inr (.inl rfl))) hok halone Database.flushed_commit_self⟩
  · rw [hcommitted]
    exact h.store.users
  · rw [hcommitted]
    exact h.store.rooms
  · rw [hcommitted]
    intro m hm m' hm'
    exact h.store.unique m (Table.mem_delete.mp hm).1 m' (Table.mem_delete.mp hm').1

omit hok in
/-- The session is closed: there is nothing to roll back. -/
theorem Lined.run_closing
    (hat : At lib t room_id user_id s order i r (.await op k) (.closing out)) :
    ∃ order', Lined lib t room_id user_id
      { db := d, ids := x.uuid :: s.ids, calls := s.calls.set i (r, k res) } order' := by
  obtain ⟨hres, hd⟩ := DbOp.exec_eq_some hx
  have hw : s.db.flushed i = [] := hat.holds
  have hforget : s.db.forget i = s.db := Database.forget_of_flushed hw
  cases out with
  | ok a =>
    obtain ⟨rfl, hk⟩ := Coro.await.inj hat.rest
    cases hk
    have hd : d = s.db := hd.trans hforget
    cases hres
    cases hd
    exact ⟨_, h.advance (.done (.ok a)) hi hfresh hx h.store.mono rfl hat.decided trivial hw⟩
  | error e =>
    obtain ⟨rfl, hk⟩ := Coro.await.inj hat.rest
    cases hk
    have hd : d = s.db := hd.trans hforget
    cases hres
    cases hd
    exact ⟨_, h.advance (.done (.error e)) hi hfresh hx h.store.mono rfl hat.decided trivial hw⟩

/-- **A statement of a call keeps the calls in line**, if it is answered and does not come too
late. -/
theorem Lined.run (huser : ∃ u ∈ t.users, u.id = user_id) (hso : op.StillSo s.db) :
    ∃ order', Lined lib t room_id user_id
      { db := d, ids := x.uuid :: s.ids, calls := s.calls.set i (r, k res) } order' := by
  obtain ⟨st, hrest, hof, hdecided, hholds⟩ := h.calls i r _ hi
  have hat : At lib t room_id user_id s order i r (.await op k) st := ⟨hrest, hof, hdecided, hholds⟩
  cases st with
  | joining => exact h.run_joining hi hfresh hx hok hat
  | roomFound => exact h.run_roomFound hi hfresh hx hok hat
  | absent => exact h.run_absent hi hfresh hx hok huser hso hat
  | inserted m => exact h.run_inserted hi hfresh hx hok huser hat
  | leaving => exact h.run_leaving hi hfresh hx hok hat
  | found m => exact h.run_found hi hfresh hx hok hso hat
  | deleted m => exact h.run_deleted hi hfresh hx hok hat
  | closing out => exact h.run_closing hi hfresh hx hat
  | done out => cases out <;> cases hrest

end Statement

end Lined

section Runs

variable {lib : AuthLib} {t : Tables} {room_id user_id : Uuid} {s s' : RequestPool}
  {order : List (TaskId × WriteRequest × Except Exn Response)}

theorem Lined.step (huser : ∃ u ∈ t.users, u.id = user_id)
    (h : Lined lib t room_id user_id s order) {l : Label} (hC : Timely room_id user_id s l)
    (hs : RequestPool.step lib s l = some s') :
    ∃ order', Lined lib t room_id user_id s' order' := by
  cases l with
  | start r =>
    cases hs
    exact ⟨order, h.start hC.1⟩
  | run i x =>
    obtain ⟨hfresh, r, op, k, res, d, hi, hx, rfl⟩ := step_run hs
    exact h.run hi hfresh hx hC.1 huser (hC.2 i x rfl r op k hi)

/-- Calls that have ended have ended as the order says. -/
theorem Lined.outcome_mem (h : Lined lib t room_id user_id s order) {i : TaskId}
    {r : WriteRequest} {p : Call Response} (hi : s.calls[i]? = some (r, p))
    {out : Except Exn Response} (hp : outcome p = some out) : (i, r, out) ∈ order := by
  obtain ⟨st, rfl, -, hdecided, -⟩ := h.calls i r p hi
  cases st with
  | done out' =>
    have hout : out' = out := by
      cases out' with
      | ok a => exact Option.some.inj hp
      | error e => exact Option.some.inj hp
    exact (hdecided out).mpr (congrArg some hout)
  | closing out' => cases out' <;> cases hp
  | _ => cases hp

theorem Lined.serialized (h : Lined lib t room_id user_id s order) : Serialized lib t s := by
  refine ⟨fun c hc out hout => ?_, fun hended => ⟨order, ?_, fun e he => ?_, h.serial⟩⟩
  · obtain ⟨i, hi⟩ := List.mem_iff_getElem?.mp hc
    exact h.expected _ (h.outcome_mem hi hout)
  · -- each call is in the order, and once
    refine (List.perm_ext_iff_of_nodup h.once List.nodup_range).mpr fun i => ?_
    rw [List.mem_range]
    constructor
    · intro hmem
      obtain ⟨e, he, rfl⟩ := List.mem_map.mp hmem
      obtain ⟨p, hp⟩ := h.requests e he
      exact (List.getElem?_eq_some_iff.mp hp).1
    · intro hlt
      have hi := List.getElem?_eq_getElem hlt
      obtain ⟨out, hout⟩ := Option.isSome_iff_exists.mp (hended _ (List.getElem_mem hlt))
      exact List.mem_map.mpr ⟨_, h.outcome_mem hi hout, rfl⟩
  · obtain ⟨p, hp⟩ := h.requests e he
    refine ⟨p, hp, ?_⟩
    obtain ⟨out, hout⟩ := Option.isSome_iff_exists.mp (hended _ (List.mem_of_getElem? hp))
    obtain ⟨st, -, -, hdecided, -⟩ := h.calls _ _ p hp
    have hmem := (hdecided out).mp (h.outcome_mem hp hout)
    rw [(hdecided e.2.2).mp he] at hmem
    cases hmem
    exact hout

/-- **Requests to join and to leave come as if one after the other** in every run in which no
statement comes too late. -/
theorem serialized_of_timely (ht : t.Valid) (huser : ∃ u ∈ t.users, u.id = user_id)
    (hr : Reach (RequestPool.step lib) (Timely room_id user_id) (init t) s) :
    Serialized lib t s := by
  have hlined : ∃ order, Lined lib t room_id user_id s order := by
    refine Reach.invariant (I := fun s => ∃ order, Lined lib t room_id user_id s order)
      ⟨[], lined_init ht⟩ ?_ hr
    rintro s l s' ⟨order, h⟩ hC hs
    exact h.step huser hC hs
  obtain ⟨order, h⟩ := hlined
  exact h.serialized

end Runs

/-! ### Races -/

namespace Race

def outcome (id : Uuid) : DbOutcome where
  ok := true
  executed := false
  now := Env.newYear
  uuid := id
  ties := .stable

/-- Two requests, and the calls that go on, in this order. -/
def schedule (r r' : WriteRequest) (calls : List TaskId) : List Label :=
  .start r :: .start r' :: calls.zipIdx.map fun (i, n) => .run i (outcome (10 + n))

def stillSo (d : Database) : DbOp → Bool
  | .insertMember room_id user_id _ => !decide (d.committed.IsMember room_id user_id)
  | .deleteMember id => d.committed.roomMembers.rows.any fun m => m.id = id
  | _ => true

theorem stillSo_iff {d : Database} {op : DbOp} (h : stillSo d op = true) : op.StillSo d := by
  cases op with
  | insertMember room_id user_id role =>
    simp only [stillSo, Bool.not_eq_true', decide_eq_false_iff_not] at h
    exact h
  | deleteMember id =>
    obtain ⟨m, hm, hid⟩ := List.any_eq_true.mp h
    exact ⟨m, hm, of_decide_eq_true hid⟩
  | _ => trivial

def answered (room_id user_id : Uuid) : Label → Bool
  | .start (.joinRoom room user) | .start (.leaveRoom room user) =>
    room = room_id && user = user_id
  | .start _ => false
  | .run _ x => x.ok

theorem answered_iff {room_id user_id : Uuid} {s : RequestPool} {l : Label}
    (h : answered room_id user_id l = true) : Answered room_id user_id s l := by
  cases l with
  | start r =>
    cases r with
    | joinRoom room user =>
      obtain ⟨hr, hu⟩ := Bool.and_eq_true_iff.mp h
      rw [of_decide_eq_true hr, of_decide_eq_true hu]
      exact .inl rfl
    | leaveRoom room user =>
      obtain ⟨hr, hu⟩ := Bool.and_eq_true_iff.mp h
      rw [of_decide_eq_true hr, of_decide_eq_true hu]
      exact .inr rfl
    | register data salt => cases h
    | createRoom data user => cases h
  | run i x => exact h

def timely (room_id user_id : Uuid) (s : RequestPool) : Label → Bool
  | .start r => answered room_id user_id (.start r)
  | .run i x => x.ok && ((s.calls[i]?).bind fun c => c.2.head?).all (stillSo s.db)

theorem timely_iff {room_id user_id : Uuid} (s : RequestPool) (l : Label)
    (h : timely room_id user_id s l = true) : Timely room_id user_id s l := by
  cases l with
  | start r => exact ⟨answered_iff (l := .start r) h, fun _ _ he => by cases he⟩
  | run i x =>
    obtain ⟨hok, hso⟩ := Bool.and_eq_true_iff.mp h
    refine ⟨hok, ?_⟩
    rintro _ _ ⟨rfl, rfl⟩ r op k hi
    rw [hi] at hso
    exact stillSo_iff hso

def leaves : WriteRequest → Bool
  | .leaveRoom room user => room = 3 && user = 1
  | _ => false

theorem leaves_iff {r : WriteRequest} (h : leaves r = true) : r = .leaveRoom 3 1 := by
  cases r with
  | leaveRoom room user =>
    obtain ⟨hr, hu⟩ := Bool.and_eq_true_iff.mp h
    rw [of_decide_eq_true hr, of_decide_eq_true hu]
  | register data salt => cases h
  | createRoom data user => cases h
  | joinRoom room user => cases h

/-- User 1 and room 3 are there, user 1 a member. -/
theorem valid_sample : Tables.sample.Valid where
  creators := by decide
  memberUsers := by decide
  memberRooms := by decide
  members := by decide
  senders := by decide
  messageRooms := by decide

end Race

open RequestPool.Race in
/-- User 2 joins room 3 twice; the second request looks when the first has committed. -/
theorem serialized_of_timely_twice : ∃ s : RequestPool,
    Reach (RequestPool.step Security.Sample.plain) (Timely 3 2) (init .sample) s ∧
    s.calls.map (fun c => RequestPool.outcome c.2) =
      [some (.ok joined), some (.error alreadyMember)] ∧
    Serialized Security.Sample.plain .sample s := by
  have hrun : ((replayIf (RequestPool.step Security.Sample.plain) (timely 3 2)
      (schedule (.joinRoom 3 2) (.joinRoom 3 2) [0, 0, 1, 0, 0, 1, 0, 1])
      (init .sample)).any fun s => s.calls.map (fun c => RequestPool.outcome c.2) =
        [some (.ok joined), some (.error alreadyMember)]) = true := by
    decide +kernel
  obtain ⟨s, hs, hended⟩ := (Option.any_eq_true _ _).mp hrun
  have hr := Reach.of_replayIf timely_iff .init hs
  exact ⟨s, hr, of_decide_eq_true hended, serialized_of_timely valid_sample (by decide) hr⟩

/-- The last request of a serial run. -/
theorem Serial.last {lib : AuthLib} {t t₂ : Tables}
    (rs : List (WriteRequest × Except Exn Response)) {r : WriteRequest}
    {out : Except Exn Response} (h : Serial lib t (rs ++ [(r, out)]) t₂) :
    ∃ t₁ me x, Serial lib t rs t₁ ∧ x.ok = true ∧
      alone lib me r x t₁ = some (out, { committed := t₂, pending := [] }) := by
  generalize hl : rs ++ [(r, out)] = l at h
  cases h with
  | nil => simp at hl
  | snoc h hok hrun =>
    obtain ⟨rfl, he⟩ := List.append_inj' hl rfl
    cases he
    exact ⟨_, _, _, h, hok, hrun⟩

/-- Nobody leaves a room twice in a row. -/
theorem not_serial_left_twice {lib : AuthLib} {t : Tables} :
    ¬Serial lib .sample [(.leaveRoom 3 1, .ok left), (.leaveRoom 3 1, .ok left)] t := by
  intro h
  obtain ⟨t₁, me, x, h, hok, hsecond⟩ := Serial.last [(.leaveRoom 3 1, .ok left)] h
  obtain ⟨t₀, me', x', h, hok', hfirst⟩ := Serial.last [] h
  generalize hl : ([] : List (WriteRequest × Except Exn Response)) = l at h
  cases h with
  | nil =>
    rw [alone_leave _ _ (m := ⟨1, 3, 1, .admin, Env.newYear⟩) hok' (by decide)] at hfirst
    have ht₁ : t₁ = Tables.sample.apply (.deleteMember 1) := by
      simpa using hfirst.symm
    have hgone : ¬t₁.IsMember 3 1 := by
      rw [ht₁]
      decide
    rw [alone_leave_outsider _ _ hok hgone] at hsecond
    simp at hsecond
  | snoc h hok hrun => simp at hl

open RequestPool.Race in
/-- **Two requests that look before either writes**: the second to join raises `IntegrityError`,
and two requests leave with one membership. -/
theorem races_not_serialized : Tables.sample.Valid ∧
    (∃ s : RequestPool,
      Reach (RequestPool.step Security.Sample.plain) (Answered 3 2) (init .sample) s ∧
      ¬Serialized Security.Sample.plain .sample s) ∧
    ∃ s : RequestPool,
      Reach (RequestPool.step Security.Sample.plain) (Answered 3 1) (init .sample) s ∧
      ¬Serialized Security.Sample.plain .sample s := by
  refine ⟨valid_sample, ?_, ?_⟩
  · have hrun : ((replayIf (RequestPool.step Security.Sample.plain) (fun _ => answered 3 2)
        (schedule (.joinRoom 3 2) (.joinRoom 3 2) [0, 0, 1, 1, 0, 0, 1, 0, 1])
        (init .sample)).any fun s => s.calls.map (fun c => RequestPool.outcome c.2) =
          [some (.ok joined), some (.error .integrityError)]) = true := by
      decide +kernel
    obtain ⟨s, hs, hended⟩ := (Option.any_eq_true _ _).mp hrun
    have hr := Reach.of_replayIf (C := Answered 3 2) (fun _ _ h => answered_iff h) .init hs
    refine ⟨s, hr, fun hserialized => ?_⟩
    have hmem : some (.error .integrityError) ∈ s.calls.map fun c => RequestPool.outcome c.2 := by
      rw [of_decide_eq_true hended]
      simp
    obtain ⟨c, hc, hout⟩ := List.mem_map.mp hmem
    rcases hserialized.1 c hc _ hout with he | he | he | ⟨resource, he⟩ <;> cases he
  · have hrun : ((replayIf (RequestPool.step Security.Sample.plain) (fun _ => answered 3 1)
        (schedule (.leaveRoom 3 1) (.leaveRoom 3 1) [0, 1, 0, 0, 1, 1, 0, 1])
        (init .sample)).any fun s => s.calls.length = 2 ∧ ∀ c ∈ s.calls, leaves c.1 = true ∧
          RequestPool.outcome c.2 = some (.ok left)) = true := by
      decide +kernel
    obtain ⟨s, hs, hended⟩ := (Option.any_eq_true _ _).mp hrun
    obtain ⟨hlength, hleft⟩ := of_decide_eq_true hended
    have hr := Reach.of_replayIf (C := Answered 3 1) (fun _ _ h => answered_iff h) .init hs
    refine ⟨s, hr, fun hserialized => ?_⟩
    obtain ⟨order, hperm, hrequests, hserial⟩ := hserialized.2 fun c hc => by
      rw [(hleft c hc).2]
      rfl
    have hboth : order.map Prod.snd = List.replicate 2 (.leaveRoom 3 1, .ok left) := by
      refine List.eq_replicate_iff.mpr ⟨?_, fun e he => ?_⟩
      · have hlen := hperm.length_eq
        rw [List.length_map, List.length_range, hlength] at hlen
        rw [List.length_map, hlen]
      · obtain ⟨⟨i, r, out⟩, hmem, rfl⟩ := List.mem_map.mp he
        obtain ⟨p, hp, hout⟩ := hrequests _ hmem
        obtain ⟨hleave, hp⟩ := hleft _ (List.mem_of_getElem? hp)
        have hsame : out = .ok left := Option.some.inj (hout.symm.trans hp)
        have hleave : r = .leaveRoom 3 1 := leaves_iff hleave
        rw [hleave, hsame]
    rw [hboth] at hserial
    exact not_serial_left_twice hserial

end RequestPool

end NexusChat
