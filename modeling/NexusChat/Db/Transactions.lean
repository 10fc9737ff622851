import NexusChat.Db.Database

/-!
# Transactions in progress

What one operation of one transaction can do to the database, and what no operation does: a
transaction's own statements are its own affair until it commits, committed messages stay, a
membership disappears only by a commit that deletes it, and no two messages, committed or pending,
ever have one id.
-/

set_option autoImplicit false

namespace NexusChat

/-! ## The tables -/

namespace Tables

variable {t : Tables} {ws : List Write} {m : MessageRow}

theorem mem_messages_apply {wr : Write} (h : m ∈ t.messages) : m ∈ (t.apply wr).messages := by
  cases wr with
  | addMessage m' => exact Table.mem_insert_of_mem h
  | addUser u | addRoom r | addMember m' | deleteMember id => exact h

theorem mem_messages_foldl (h : m ∈ t.messages) : m ∈ (ws.foldl apply t).messages := by
  induction ws generalizing t with
  | nil => exact h
  | cons wr ws ih => exact ih (mem_messages_apply h)

/-- A message of the tables after some statements was there before or is one of theirs. -/
theorem mem_messages_of_foldl (h : m ∈ (ws.foldl apply t).messages) :
    m ∈ t.messages ∨ .addMessage m ∈ ws := by
  induction ws generalizing t with
  | nil => exact Or.inl h
  | cons wr ws ih =>
    rcases ih h with hm | hm
    · cases wr with
      | addMessage m' =>
        rcases Table.mem_insert hm with hm | rfl
        · exact Or.inl hm
        · exact Or.inr (List.mem_cons_self ..)
      | addUser u | addRoom r | addMember m' | deleteMember id => exact Or.inl hm
    · exact Or.inr (List.mem_cons_of_mem _ hm)

/-- A membership survives statements that do not delete it. -/
theorem mem_members_foldl {r : RoomMemberRow} (h : r ∈ t.roomMembers)
    (hdel : .deleteMember r.id ∉ ws) : r ∈ (ws.foldl apply t).roomMembers := by
  induction ws generalizing t with
  | nil => exact h
  | cons wr ws ih =>
    rw [List.mem_cons, not_or] at hdel
    refine ih ?_ hdel.2
    cases wr with
    | addMember r' => exact Table.mem_insert_of_mem h
    | deleteMember id =>
      refine Table.mem_delete.mpr ⟨h, ?_⟩
      simpa using fun he : r.id = id => hdel.1 (by rw [he])
    | addUser u | addRoom r' | addMessage m' => exact h

end Tables

namespace Database

variable {d : Database} {me other : TaskId} {wr : Write}

theorem mem_flushed : wr ∈ d.flushed me ↔ (me, wr) ∈ d.pending := by
  simp only [flushed, List.mem_map, List.mem_filter, decide_eq_true_eq, Prod.exists]
  constructor
  · rintro ⟨t, w, ⟨h, rfl⟩, rfl⟩; exact h
  · exact fun h => ⟨me, wr, ⟨h, rfl⟩, rfl⟩

theorem mem_others : wr ∈ d.others me ↔ ∃ t, t ≠ me ∧ (t, wr) ∈ d.pending := by
  simp only [others, List.mem_map, List.mem_filter, decide_eq_true_eq, Prod.exists]
  constructor
  · rintro ⟨t, w, ⟨h, ht⟩, rfl⟩; exact ⟨t, ht, h⟩
  · rintro ⟨t, ht, h⟩; exact ⟨t, wr, ⟨h, ht⟩, rfl⟩

theorem flushed_flush_self : (d.flush me wr).flushed me = d.flushed me ++ [wr] := by
  simp [flush, flushed]

theorem flushed_flush_other (h : other ≠ me) :
    (d.flush me wr).flushed other = d.flushed other := by
  simp [flush, flushed, Ne.symm h]

theorem flushed_forget_self : (d.forget me).flushed me = [] := by
  simp only [flushed, forget, List.filter_filter, List.map_eq_nil_iff, List.filter_eq_nil_iff]
  simp

theorem flushed_forget_other (h : other ≠ me) : (d.forget me).flushed other = d.flushed other := by
  simp only [flushed, forget, List.filter_filter]
  congr 1
  refine List.filter_congr fun e _ => ?_
  by_cases he : e.1 = other
  · simp [he, h]
  · simp [he]

/-- The tables as a transaction sees them that has flushed nothing. -/
theorem view_of_flushed (h : d.flushed me = []) : d.view me = d.committed := by
  rw [view, h]
  rfl

/-- Such a transaction leaves nothing behind. -/
theorem forget_of_flushed (h : d.flushed me = []) : d.forget me = d := by
  have hpending : d.pending.filter (fun e => e.1 ≠ me) = d.pending := by
    refine List.filter_eq_self.mpr fun e he => ?_
    simp only [ne_eq, decide_not, Bool.not_eq_true', decide_eq_false_iff_not]
    rintro rfl
    have hmem := mem_flushed.mpr he
    rw [h] at hmem
    cases hmem
  simp only [forget, hpending]

theorem flushed_commit_self : (d.commit me).flushed me = [] := flushed_forget_self

theorem flushed_commit_other (h : other ≠ me) :
    (d.commit me).flushed other = d.flushed other := flushed_forget_other h

end Database

/-! ## One operation -/

namespace DbOp

variable {op : DbOp} {me : TaskId} {x : DbOutcome} {d d' : Database} {r : Except Exn op.Resp}

/-- The statement an operation flushes, the tables its transaction sees being `t`. -/
def Writes (x : DbOutcome) (t : Tables) : DbOp → Write → Prop
  | .insertUser username email hashed_password display_name, .addUser u =>
    checkUser t (newUser x username email hashed_password display_name) = .ok u
  | .insertRoom name description is_private created_by, .addRoom r =>
    checkRoom t (newRoom x name description is_private created_by) = .ok r
  | .insertMember room_id user_id role, .addMember m =>
    checkMember t (newMember x room_id user_id role) = .ok m
  | .insertMessage room_id sender_id content message_type key, .addMessage m =>
    messageRow x t room_id sender_id content message_type key = .ok m
  | .deleteMember id, .deleteMember id' => id' = id
  | _, _ => False

theorem answer_eq_ok {t : Tables} {op : DbOp} {a : op.Resp} (hop : op ≠ .rollback)
    (h : answer x t op = .ok a) : x.ok = true ∧ reply x t op = .ok a := by
  cases op with
  | rollback => exact absurd rfl hop
  | _ =>
    simp only [answer] at h
    split at h
    · rename_i hok
      exact ⟨hok, h⟩
    · exact absurd h (by simp)

/-- A statement that is answered is answered by the tables. -/
theorem answer_of_ok {t : Tables} {op : DbOp} (hop : op ≠ .rollback) (hok : x.ok = true) :
    op.answer x t = op.reply x t := by
  cases op with
  | rollback => exact absurd rfl hop
  | _ => exact if_pos hok

/-- **What an operation does to the database**: nothing, one statement more, a commit, or the end
of the transaction. -/
theorem exec_cases (h : op.exec me x d = some (r, d')) :
    d' = d ∨
    (∃ wr, op.Writes x (d.view me) wr ∧ op.blocked x me d = false ∧ d' = d.flush me wr) ∨
    (op = .commit ∧ (x.ok || x.executed) = true ∧ d' = d.commit me) ∨
    d' = d.forget me := by
  unfold exec at h
  split at h
  · exact absurd h (by simp)
  · rename_i hb
    simp only [Option.some.injEq, Prod.mk.injEq] at h
    obtain ⟨-, rfl⟩ := h
    have hb : op.blocked x me d = false := by simpa using hb
    cases op with
    | insertUser username email hashed_password display_name =>
      simp only [after]
      split
      · rename_i row hrow
        exact Or.inr (Or.inl ⟨.addUser row, (answer_eq_ok (by simp) hrow).2, hb, rfl⟩)
      · exact Or.inl rfl
    | insertRoom name description is_private created_by =>
      simp only [after]
      split
      · rename_i row hrow
        exact Or.inr (Or.inl ⟨.addRoom row, (answer_eq_ok (by simp) hrow).2, hb, rfl⟩)
      · exact Or.inl rfl
    | insertMember room_id user_id role =>
      simp only [after]
      split
      · rename_i row hrow
        exact Or.inr (Or.inl ⟨.addMember row, (answer_eq_ok (by simp) hrow).2, hb, rfl⟩)
      · exact Or.inl rfl
    | insertMessage room_id sender_id content message_type key =>
      simp only [after]
      split
      · rename_i row hrow
        exact Or.inr (Or.inl ⟨.addMessage row, (answer_eq_ok (by simp) hrow).2, hb, rfl⟩)
      · exact Or.inl rfl
    | deleteMember id =>
      simp only [after]
      split
      · exact Or.inr (Or.inl ⟨.deleteMember id, rfl, hb, rfl⟩)
      · exact Or.inl rfl
    | commit =>
      simp only [after]
      split
      · rename_i hx
        exact Or.inr (Or.inr (Or.inl ⟨trivial, hx, rfl⟩))
      · exact Or.inr (Or.inr (Or.inr rfl))
    | rollback => exact Or.inr (Or.inr (Or.inr rfl))
    | selectUser | selectUserRooms | selectPublicRooms | countMembers | selectRoomMembers |
      selectRoom | selectMember | selectMessageByKey | selectMessages | refresh => exact Or.inl rfl

theorem exec_eq_some (h : op.exec me x d = some (r, d')) :
    r = op.answer x (d.view me) ∧ d' = op.after x me d := by
  unfold exec at h
  split at h
  · exact absurd h (by simp)
  · simp only [Option.some.injEq, Prod.mk.injEq] at h
    exact ⟨h.1.symm, h.2.symm⟩

/-- A statement that has been carried out did not have to wait. -/
theorem not_blocked (h : op.exec me x d = some (r, d')) : op.blocked x me d = false := by
  unfold exec at h
  split at h
  · cases h
  · rename_i hb
    simpa using hb

/-- The message an insertion answers with is flushed. -/
theorem exec_insertMessage_ok {room_id sender_id : Uuid} {content : String}
    {message_type : MessageType} {key : Json} {m : MessageRow}
    (h : exec me (.insertMessage room_id sender_id content message_type key) x d =
      some (.ok m, d')) :
    messageRow x (d.view me) room_id sender_id content message_type key = .ok m ∧
      d' = d.flush me (.addMessage m) := by
  obtain ⟨hr, hd⟩ := exec_eq_some h
  refine ⟨(answer_eq_ok (by simp) hr.symm).2, ?_⟩
  rw [hd, after, ← hr]

/-- A message found by its key is one the transaction sees. -/
theorem exec_selectMessageByKey_ok {key : Json} {m : MessageRow}
    (h : exec me (.selectMessageByKey key) x d = some (.ok (some m), d')) :
    ∃ k, key = .str k ∧ m ∈ (d.view me).messages ∧ m.idempotencyKey = some k ∧ d' = d := by
  obtain ⟨hr, hd⟩ := exec_eq_some h
  have hreply := (answer_eq_ok (by simp) hr.symm).2
  cases key with
  | str k =>
    simp only [reply] at hreply
    split at hreply
    · have hfind := Table.find?_eq_some (Except.ok.inj hreply)
      exact ⟨k, rfl, hfind.1, of_decide_eq_true hfind.2, hd⟩
    · cases hreply
  | null | bool b | num s | arr l | obj l => cases hreply

theorem exec_commit_ok (h : exec me .commit x d = some (.ok (), d')) : d' = d.commit me := by
  obtain ⟨hr, hd⟩ := exec_eq_some h
  have hok := (answer_eq_ok (by simp) hr.symm).1
  rw [hd, after, hok]
  rfl

/-- A transaction's statements are its own. -/
theorem flushed_exec {other : TaskId} (h : op.exec me x d = some (r, d')) (hne : other ≠ me) :
    d'.flushed other = d.flushed other := by
  rcases exec_cases h with rfl | ⟨wr, -, -, rfl⟩ | ⟨-, -, rfl⟩ | rfl
  · rfl
  · exact Database.flushed_flush_other hne
  · exact Database.flushed_commit_other hne
  · exact Database.flushed_forget_other hne

/-- Committed messages stay. -/
theorem mem_messages_exec {m : MessageRow} (h : op.exec me x d = some (r, d'))
    (hm : m ∈ d.committed.messages) : m ∈ d'.committed.messages := by
  rcases exec_cases h with rfl | ⟨wr, -, -, rfl⟩ | ⟨-, -, rfl⟩ | rfl
  · exact hm
  · exact hm
  · exact Tables.mem_messages_foldl hm
  · exact hm

/-- A message is committed by its own transaction. -/
theorem mem_messages_of_exec {m : MessageRow} (h : op.exec me x d = some (r, d'))
    (hm : m ∈ d'.committed.messages) :
    m ∈ d.committed.messages ∨ .addMessage m ∈ d.flushed me := by
  rcases exec_cases h with rfl | ⟨wr, -, -, rfl⟩ | ⟨-, -, rfl⟩ | rfl
  · exact Or.inl hm
  · exact Or.inl hm
  · exact Tables.mem_messages_of_foldl hm
  · exact Or.inl hm

/-- The commit of `me` deletes the membership. -/
def Deletes (d : Database) (me : TaskId) (room_id user_id : Uuid) : Prop :=
  ∃ m ∈ d.committed.roomMembers, (m.roomId = room_id ∧ m.userId = user_id) ∧
    .deleteMember m.id ∈ d.flushed me

/-- **A membership ends by a commit that deletes it.** -/
theorem isMember_exec {room_id user_id : Uuid} (h : op.exec me x d = some (r, d'))
    (hm : d.committed.IsMember room_id user_id)
    (hkeep : op = .commit → (x.ok || x.executed) = true → ¬Deletes d me room_id user_id) :
    d'.committed.IsMember room_id user_id := by
  rcases exec_cases h with rfl | ⟨wr, -, -, rfl⟩ | ⟨hop, hx, rfl⟩ | rfl
  · exact hm
  · exact hm
  · obtain ⟨m, hmem, hp⟩ := hm
    have hdel : .deleteMember m.id ∉ d.flushed me := fun hd => hkeep hop hx ⟨m, hmem, hp, hd⟩
    exact ⟨m, Tables.mem_members_foldl hmem hdel, hp⟩
  · exact hm

end DbOp

/-! ## Ids -/

/-- No two messages, committed or pending, have one id. -/
structure Database.Distinct (d : Database) : Prop where
  committed : ∀ t m, (t, .addMessage m) ∈ d.pending → ∀ m' ∈ d.committed.messages, m'.id ≠ m.id
  pending : d.pending.Pairwise fun a b =>
    ∀ m m', a.2 = .addMessage m → b.2 = .addMessage m' → m.id ≠ m'.id

namespace Database

variable {d : Database} {me : TaskId}

/-- Statements with fresh ids are all carried out. -/
theorem mem_messages_foldl_of_mem {t : Tables} {ws : List Write} {m : MessageRow}
    (hnew : ∀ m, .addMessage m ∈ ws → ∀ m' ∈ t.messages, m'.id ≠ m.id)
    (hpair : ws.Pairwise fun a b => ∀ m m', a = .addMessage m → b = .addMessage m' → m.id ≠ m'.id)
    (hm : .addMessage m ∈ ws) : m ∈ (ws.foldl Tables.apply t).messages := by
  induction ws generalizing t with
  | nil => exact absurd hm (by simp)
  | cons wr ws ih =>
    rw [List.pairwise_cons] at hpair
    rcases List.mem_cons.mp hm with rfl | hm
    · have hself : m ∈ (t.apply (.addMessage m)).messages :=
        Table.mem_insert_self (hnew m (List.mem_cons_self ..))
      show m ∈ (ws.foldl Tables.apply (t.apply (.addMessage m))).messages
      exact Tables.mem_messages_foldl hself
    · refine ih (fun m₁ h₁ m' hm' => ?_) hpair.2 hm
      rcases @Tables.mem_messages_of_foldl t [wr] m' hm' with hm' | hm'
      · exact hnew m₁ (List.mem_cons_of_mem _ h₁) m' hm'
      · obtain rfl := List.mem_singleton.mp hm'
        exact hpair.1 _ h₁ m' m₁ rfl rfl

theorem Distinct.flushed (h : d.Distinct) : (d.flushed me).Pairwise fun a b =>
    ∀ m m', a = .addMessage m → b = .addMessage m' → m.id ≠ m'.id := by
  rw [Database.flushed, List.pairwise_map]
  exact h.pending.filter _

/-- What a transaction has inserted is among the messages it sees. -/
theorem Distinct.mem_view (h : d.Distinct) {m : MessageRow} (hm : .addMessage m ∈ d.flushed me) :
    m ∈ (d.view me).messages :=
  mem_messages_foldl_of_mem (fun m hm => h.committed me m (mem_flushed.mp hm)) h.flushed hm

theorem distinct_init {t : Tables} : Distinct { committed := t, pending := [] } :=
  ⟨fun _ _ h => absurd h (by simp), List.Pairwise.nil⟩

/-- A statement that adds no message, or one with an id nobody has. -/
theorem Distinct.flush (h : d.Distinct) {wr : Write}
    (hwr : ∀ m, wr = .addMessage m → (∀ m' ∈ d.committed.messages, m'.id ≠ m.id) ∧
      ∀ t m', (t, .addMessage m') ∈ d.pending → m'.id ≠ m.id) : (d.flush me wr).Distinct where
  committed := fun t m hm m' hm' => by
    rcases List.mem_append.mp hm with hm | hm
    · exact h.committed t m hm m' hm'
    · cases List.mem_singleton.mp hm
      exact (hwr m rfl).1 m' hm'
  pending := by
    rw [Database.flush, List.pairwise_append]
    refine ⟨h.pending, List.pairwise_singleton _ _, fun a ha b hb m m' hma hmb => ?_⟩
    obtain rfl := List.mem_singleton.mp hb
    obtain ⟨t, w⟩ := a
    subst hma
    exact (hwr m' hmb).2 t m ha

theorem Distinct.forget (h : d.Distinct) : (d.forget me).Distinct where
  committed := fun t m hm => h.committed t m (List.mem_of_mem_filter hm)
  pending := h.pending.filter _

theorem Distinct.commit (h : d.Distinct) : (d.commit me).Distinct where
  committed := fun t m hm m' hm' => by
    obtain ⟨hp, ht⟩ := List.mem_filter.mp hm
    rcases Tables.mem_messages_of_foldl hm' with hm' | hm'
    · exact h.committed t m hp m' hm'
    · have hsymm : Std.Symm fun a b : TaskId × Write =>
          ∀ m m', a.2 = .addMessage m → b.2 = .addMessage m' → m.id ≠ m'.id :=
        ⟨fun a b hab m m' hb ha => (hab m' m ha hb).symm⟩
      have hne : (me, Write.addMessage m') ≠ (t, Write.addMessage m) := fun he => by
        rw [Prod.mk.injEq] at he
        exact absurd he.1.symm (by simpa using ht)
      exact h.pending.forall (mem_flushed.mp hm') hp hne m' m rfl rfl
  pending := h.pending.filter _

theorem Distinct.exec (h : d.Distinct) {op : DbOp} {x : DbOutcome} {r : Except Exn op.Resp}
    {d' : Database} (hx : op.exec me x d = some (r, d')) : d'.Distinct := by
  rcases DbOp.exec_cases hx with rfl | ⟨wr, hw, hb, rfl⟩ | ⟨-, -, rfl⟩ | rfl
  · exact h
  · refine h.flush fun m hm => ?_
    subst hm
    cases op with
    | insertMessage room_id sender_id content message_type key =>
      obtain ⟨k, hk, -, rfl, -, -, hclash⟩ := DbOp.messageRow_eq_ok.mp hw
      have hid : ∀ m' ∈ (d.view me).messages, m'.id ≠ x.uuid := fun m' hm' he => by
        have := hclash m' hm'
        simp [DbOp.messageClash, DbOp.newMessage, he] at this
      refine ⟨fun m' hm' => hid m' (Tables.mem_messages_foldl hm'), fun t m' hm' => ?_⟩
      by_cases ht : t = me
      · subst ht
        exact hid m' (h.mem_view (mem_flushed.mpr hm'))
      · -- the flush would have waited for a transaction with this id
        intro he
        have hwait : DbOp.blocked x me d
            (.insertMessage room_id sender_id content message_type key) = true := by
          simp only [DbOp.blocked, List.any_eq_true]
          refine ⟨_, mem_others.mpr ⟨t, ht, hm'⟩, ?_⟩
          simp only [hk, DbOp.messageClash, he]
          simp
        rw [hwait] at hb
        exact absurd hb (by simp)
    | _ => exact hw.elim
  · exact h.commit
  · exact h.forget

end Database

end NexusChat
