import NexusChat.Api.Idempotency
import NexusChat.Db.Transactions

/-!
# Concurrent retries

`save_message` looks its key up and inserts in two statements, and the caller commits later. Any
number of transactions do so with one key. Two that look it up before either has committed both
insert, and the second runs into the unique constraint.
-/

set_option autoImplicit false

namespace NexusChat

/-- What a caller of `save_message` passes besides the key. -/
structure SaveCall where
  roomId : Uuid
  senderId : Uuid
  content : String
  messageType : MessageType

namespace SaveCall

/-- A transaction that is to return a row. -/
abbrev Call := Coro DbOp.sig Exn MessageRow

def dbCall (op : DbOp) : Coro DbOp.sig Exn op.Resp := Coro.perform (S := DbOp.sig) op

/-- `save_message`, then `commit`, in a session of its own. -/
def prog (key : String) (c : SaveCall) : Call :=
  withSession dbCall do
    let message ← MessageService.saveMessage dbCall c.roomId c.senderId c.content c.messageType
      (.str key)
    dbCall .commit
    pure message

end SaveCall

open SaveCall Chat

/-- The database, and the transactions by their numbers. -/
structure SavePool where
  db : Database
  calls : List Call

namespace SavePool

inductive Label where
  | start (c : SaveCall)
  /-- transaction `i` performs its next statement -/
  | run (i : TaskId) (x : DbOutcome)

def init (t : Tables) : SavePool := { db := { committed := t, pending := [] }, calls := [] }

def step (key : String) (s : SavePool) : Label → Option SavePool
  | .start c => some { s with calls := s.calls ++ [c.prog key] }
  | .run i x =>
    match s.calls[i]? with
    | some p => (p.step (fun (op : DbOp) x d => op.exec i x d) x s.db).map fun (p', d) =>
        { db := d, calls := s.calls.set i p' }
    | none => none

/-- The statement is an `INSERT` of a message. -/
def isInsert : DbOp → Bool
  | .insertMessage _ _ _ _ _ => true
  | _ => false

/-- The statement is the lookup of a key. -/
def isLookup : DbOp → Bool
  | .selectMessageByKey _ => true
  | _ => false

/-- Transaction `i` is between a lookup that has found nothing and its commit. -/
def Busy (s : SavePool) (i : TaskId) : Prop :=
  ∃ p, s.calls[i]? = some p ∧ (p.head?.any isInsert = true ∨ s.db.flushed i ≠ [])

/-- The statement transaction `i` performs next. -/
def next? (s : SavePool) (i : TaskId) : Option DbOp := s.calls[i]?.bind Coro.head?

/-- The database answers, takes the rows, and gives a new row a new id. -/
def Answered (key : String) (s : SavePool) : Label → Prop
  | .start c => Insertable key s.db.committed c.roomId c.senderId c.content
  | .run i x => x.ok = true ∧ ((s.next? i).any isInsert = true →
      ∀ m ∈ s.db.committed.messages, m.id ≠ x.uuid)

/-- Whoever looks the key up and finds nothing is alone at it. -/
def Alone (key : String) (s : SavePool) : Label → Prop
  | .start _ => True
  | .run i _ => (s.next? i).any isLookup = true →
      KeyStored key s.db.committed ∨ ∀ j, ¬s.Busy j

/-- The transactions that have ended have returned the one row of the key, and no other is made to
wait. -/
structure Converged (key : String) (s : SavePool) : Prop where
  ended : ∀ (i : TaskId) p, s.calls[i]? = some p → p.head? = none →
    ∃ m ∈ s.db.committed.messages, p = .ret m ∧ m.idempotencyKey = some key ∧
      ∀ m' ∈ s.db.committed.messages, m'.idempotencyKey = some key → m' = m
  unblocked : ∀ (i : TaskId) p op, s.calls[i]? = some p → p.head? = some op →
    ∀ x, op.blocked x i s.db = false

section Programs

variable {key : String} {c : SaveCall} {m : MessageRow}

/-! ## The statements of a transaction -/

/-- What is left once the row is there. -/
def committing (m : MessageRow) : Call := do
  dbCall .commit
  pure m

/-- What is left once the lookup has found nothing. -/
def inserting (key : String) (c : SaveCall) : Call := do
  let m ← dbCall (.insertMessage c.roomId c.senderId c.content c.messageType (.str key))
  dbCall .refresh
  committing m

/-- A session about to perform `op`. -/
theorem session_await (op : DbOp) (f : op.Resp → Call) :
    withSession dbCall (dbCall op >>= f) = .await op fun r => match r with
      | .ok a => withSession dbCall (f a)
      | .error e => .await .rollback fun
        | .ok _ => .raise e
        | .error e' => .raise e' := by
  refine congrArg (Coro.await (S := DbOp.sig) op) (funext fun r => ?_)
  cases r with
  | ok a => rfl
  | error e =>
    refine congrArg (Coro.await (S := DbOp.sig) .rollback) (funext fun r => ?_)
    cases r <;> rfl

theorem session_pure : withSession dbCall (pure m) = .await .rollback fun r => match r with
    | .ok _ => .ret m
    | .error e => .raise e := by
  refine congrArg (Coro.await (S := DbOp.sig) .rollback) (funext fun r => ?_)
  cases r <;> rfl

theorem prog_eq (hkey : key ≠ "") : c.prog key =
    withSession dbCall (dbCall (.selectMessageByKey (.str key)) >>= fun existing =>
      match existing with
      | some m => committing m
      | none => inserting key c) := by
  have htruthy : (Json.str key).truthy = true := by simpa [Json.truthy] using hkey
  unfold prog MessageService.saveMessage
  rw [if_pos htruthy, bind_assoc]
  refine congrArg (withSession dbCall) (congrArg (dbCall _ >>= ·) (funext fun existing => ?_))
  cases existing with
  | some m => rfl
  | none =>
    simp only [MessageService.saveMessage.insert, inserting, committing, bind_assoc, pure_bind]

end Programs

/-! ## Where a transaction is -/

/-- Where transaction `i` is, and what it has flushed. -/
inductive Stage (key : String) (d : Database) (i : TaskId) : Call → Prop where
  | looking {c : SaveCall} (hf : d.flushed i = [])
      (hc : Insertable key d.committed c.roomId c.senderId c.content) : Stage key d i (c.prog key)
  | inserting {c : SaveCall} (hf : d.flushed i = [])
      (hc : Insertable key d.committed c.roomId c.senderId c.content) :
      Stage key d i (withSession dbCall (inserting key c))
  | refreshing {m : MessageRow} (hf : d.flushed i = [.addMessage m])
      (hk : m.idempotencyKey = some key) (hnew : ∀ m' ∈ d.committed.messages, m'.id ≠ m.id) :
      Stage key d i (withSession dbCall (dbCall .refresh >>= fun _ => committing m))
  | inserted {m : MessageRow} (hf : d.flushed i = [.addMessage m])
      (hk : m.idempotencyKey = some key) (hnew : ∀ m' ∈ d.committed.messages, m'.id ≠ m.id) :
      Stage key d i (withSession dbCall (committing m))
  | found {m : MessageRow} (hf : d.flushed i = []) (hk : m.idempotencyKey = some key)
      (hm : m ∈ d.committed.messages) : Stage key d i (withSession dbCall (committing m))
  | closing {m : MessageRow} (hf : d.flushed i = []) (hk : m.idempotencyKey = some key)
      (hm : m ∈ d.committed.messages) : Stage key d i (withSession dbCall (pure m))
  | ended {m : MessageRow} (hf : d.flushed i = []) (hk : m.idempotencyKey = some key)
      (hm : m ∈ d.committed.messages) : Stage key d i (.ret m)

/-- What holds of the pool as long as whoever looks the key up in vain is alone at it. -/
structure Inv (key : String) (s : SavePool) : Prop where
  unique : ∀ m ∈ s.db.committed.messages, ∀ m' ∈ s.db.committed.messages,
    m.idempotencyKey = some key → m'.idempotencyKey = some key → m = m'
  born : ∀ e ∈ s.db.pending, e.1 < s.calls.length
  alone : ∀ i j, s.Busy i → s.Busy j → i = j
  free : ∀ i, s.Busy i → ¬KeyStored key s.db.committed
  stages : ∀ (i : TaskId) p, s.calls[i]? = some p → Stage key s.db i p

section Runs

variable {key : String} {s s' : SavePool} {d d' : Database} {i j : TaskId} {p p' : Call}
  {x : DbOutcome}

theorem insertable_mono {t t' : Tables} {room sender : Uuid} {content : String}
    (h : Insertable key t room sender content) (hrooms : t'.rooms = t.rooms)
    (husers : t'.users = t.users) : Insertable key t' room sender content where
  key := h.key
  content := h.content
  room := hrooms ▸ h.room
  sender := husers ▸ h.sender

/-- A transaction stays where it is when the others leave its statements alone. -/
theorem Stage.mono (h : Stage key d i p) (hflushed : d'.flushed i = d.flushed i)
    (hrooms : d'.committed.rooms = d.committed.rooms)
    (husers : d'.committed.users = d.committed.users)
    (hmessages : ∀ m ∈ d.committed.messages, m ∈ d'.committed.messages)
    (hsame : d.flushed i ≠ [] → d'.committed = d.committed) : Stage key d' i p := by
  cases h with
  | looking hf hc => exact .looking (hflushed.trans hf) (insertable_mono hc hrooms husers)
  | inserting hf hc => exact .inserting (hflushed.trans hf) (insertable_mono hc hrooms husers)
  | refreshing hf hk hnew =>
    rw [← hsame (by simp [hf])] at hnew
    exact .refreshing (hflushed.trans hf) hk hnew
  | inserted hf hk hnew =>
    rw [← hsame (by simp [hf])] at hnew
    exact .inserted (hflushed.trans hf) hk hnew
  | found hf hk hm => exact .found (hflushed.trans hf) hk (hmessages _ hm)
  | closing hf hk hm => exact .closing (hflushed.trans hf) hk (hmessages _ hm)
  | ended hf hk hm => exact .ended (hflushed.trans hf) hk (hmessages _ hm)

theorem inv_init {t : Tables} (h : ∀ m ∈ t.messages, ∀ m' ∈ t.messages,
    m.idempotencyKey = some key → m'.idempotencyKey = some key → m = m') : Inv key (init t) where
  unique := h
  born := by
    intro e he
    cases he
  alone := by
    rintro i j ⟨p, hp, -⟩
    cases hp
  free := by
    rintro i ⟨p, hp, -⟩
    cases hp
  stages := by
    intro i p hp
    cases hp

/-- Only the transaction that is busy has flushed anything. -/
theorem Inv.flushed_eq_nil (h : Inv key s) (hi : s.Busy i) (hne : j ≠ i) : s.db.flushed j = [] := by
  by_contra hf
  obtain ⟨wr, hwr⟩ := List.exists_mem_of_ne_nil _ hf
  have hlt : j < s.calls.length := h.born _ (Database.mem_flushed.mp hwr)
  exact hne (h.alone j i ⟨_, List.getElem?_eq_getElem hlt, Or.inr hf⟩ hi)

/-! ## One statement -/

theorem busy_of_set (hne : j ≠ i) (hflushed : d'.flushed j = s.db.flushed j)
    (h : Busy { db := d', calls := s.calls.set i p' } j) : s.Busy j := by
  obtain ⟨q, hq, hbusy⟩ := h
  rw [List.getElem?_set_ne (Ne.symm hne)] at hq
  refine ⟨q, hq, ?_⟩
  rw [← hflushed]
  exact hbusy

/-- The pool after a statement of transaction `i`: it has not committed anything, or is the busy
one, and is busy afterwards only where nobody else is and the key is not stored. -/
theorem Inv.update (h : Inv key s) (hi : s.calls[i]? = some p) (hstage : Stage key d' i p')
    (hflushed : ∀ j, j ≠ i → d'.flushed j = s.db.flushed j)
    (hpending : ∀ e ∈ d'.pending, e.1 = i ∨ e ∈ s.db.pending)
    (hrooms : d'.committed.rooms = s.db.committed.rooms)
    (husers : d'.committed.users = s.db.committed.users)
    (hmessages : ∀ m ∈ s.db.committed.messages, m ∈ d'.committed.messages)
    (hcommitted : d'.committed = s.db.committed ∨ s.Busy i)
    (hunique : ∀ m ∈ d'.committed.messages, ∀ m' ∈ d'.committed.messages,
      m.idempotencyKey = some key → m'.idempotencyKey = some key → m = m')
    (hbusy : p'.head?.any isInsert = true ∨ d'.flushed i ≠ [] →
      ¬KeyStored key d'.committed ∧ ∀ j, s.Busy j → j = i) :
    Inv key { db := d', calls := s.calls.set i p' } := by
  have hlt : i < s.calls.length := (List.getElem?_eq_some_iff.mp hi).1
  have hself : ∀ {q}, (s.calls.set i p')[i]? = some q → q = p' := by
    intro q hq
    rw [List.getElem?_set_self hlt] at hq
    exact (Option.some.inj hq).symm
  -- if the transaction is busy afterwards, it is the only one
  have hbusy' : Busy { db := d', calls := s.calls.set i p' } i →
      ¬KeyStored key d'.committed ∧ ∀ j, s.Busy j → j = i := by
    rintro ⟨q, hq, hb⟩
    rw [hself hq] at hb
    exact hbusy hb
  refine ⟨hunique, fun e he => ?_, fun j k hj hk => ?_, fun j hj => ?_, fun j q hq => ?_⟩
  · show e.1 < (s.calls.set i p').length
    rw [List.length_set]
    rcases hpending e he with rfl | he
    · exact hlt
    · exact h.born e he
  · by_cases hji : j = i
    · subst hji
      -- two busy transactions are one: by cases on which of them has taken the step
      by_cases hkj : k = j
      · exact hkj.symm
      · exact ((hbusy' hj).2 k (busy_of_set hkj (hflushed k hkj) hk)).symm
    · have hbefore := busy_of_set hji (hflushed j hji) hj
      by_cases hki : k = i
      · subst hki
        exact (hbusy' hk).2 j hbefore
      · exact h.alone j k hbefore (busy_of_set hki (hflushed k hki) hk)
  · by_cases hji : j = i
    · subst hji
      exact (hbusy' hj).1
    · have hj := busy_of_set hji (hflushed j hji) hj
      rcases hcommitted with hsame | hi
      · show ¬KeyStored key d'.committed
        rw [hsame]
        exact h.free j hj
      · exact absurd (h.alone j i hj hi) hji
  · by_cases hji : j = i
    · subst hji
      rw [hself hq]
      exact hstage
    · have hq : s.calls[j]? = some q := by
        rwa [List.getElem?_set_ne (Ne.symm hji)] at hq
      refine (h.stages j q hq).mono (hflushed j hji) hrooms husers hmessages fun hne => ?_
      rcases hcommitted with hsame | hi
      · exact hsame
      · exact absurd (h.flushed_eq_nil hi hji) hne

theorem step_session {op : DbOp} {f : op.Resp → Call}
    (h : (withSession dbCall (dbCall op >>= f)).step (fun (op : DbOp) x d => op.exec i x d) x d =
      some (p', d')) :
    ∃ r, op.exec i x d = some (r, d') ∧ ∀ a, r = .ok a → p' = withSession dbCall (f a) := by
  rw [session_await] at h
  obtain ⟨⟨r, d₁⟩, hx, heq⟩ := Option.map_eq_some_iff.mp h
  cases heq
  refine ⟨r, hx, fun a ha => ?_⟩
  rw [ha]

/-- A statement that changes nothing. -/
theorem Inv.idle (h : Inv key s) (hi : s.calls[i]? = some p) (hstage : Stage key s.db i p')
    (hbusy : p'.head?.any isInsert = true ∨ s.db.flushed i ≠ [] →
      ¬KeyStored key s.db.committed ∧ ∀ j, s.Busy j → j = i) :
    Inv key { db := s.db, calls := s.calls.set i p' } :=
  h.update hi hstage (fun _ _ => rfl) (fun _ he => Or.inr he) rfl rfl (fun _ hm => hm)
    (Or.inl rfl) h.unique hbusy

/-- The lookup. -/
theorem Inv.step_looking {c : SaveCall} (h : Inv key s) (hkey : key ≠ "")
    (hs : DbOp.storable key = true) (hok : x.ok = true) (hi : s.calls[i]? = some (c.prog key))
    (hf : s.db.flushed i = [])
    (hc : Insertable key s.db.committed c.roomId c.senderId c.content)
    (halone : KeyStored key s.db.committed ∨ ∀ j, ¬s.Busy j)
    (hx : (c.prog key).step (fun (op : DbOp) x d => op.exec i x d) x s.db = some (p', d')) :
    Inv key { db := d', calls := s.calls.set i p' } := by
  rw [prog_eq hkey] at hx
  obtain ⟨r, hexec, hp'⟩ := step_session hx
  obtain ⟨hr, hd⟩ := DbOp.exec_eq_some hexec
  obtain rfl : d' = s.db := hd
  rw [answer_selectMessageByKey hok, if_pos hs, Database.view_of_flushed hf] at hr
  rw [hp' _ hr]
  cases hfind : s.db.committed.messages.find? fun m => m.idempotencyKey = some key with
  | some m =>
    obtain ⟨hm, hk⟩ := Table.find?_eq_some hfind
    refine h.idle hi (.found hf (of_decide_eq_true hk) hm) ?_
    rintro (hins | hne)
    · cases hins
    · exact absurd hf hne
  | none =>
    have hnone : ¬KeyStored key s.db.committed := find?_key_eq_none.mp hfind
    refine h.idle hi (.inserting hf hc) fun _ => ⟨hnone, fun j hj => ?_⟩
    exact absurd hj (halone.resolve_left hnone j)

/-- The insertion: nobody else has one pending, and the key is not stored. -/
theorem Inv.step_inserting {c : SaveCall} (h : Inv key s) (hs : DbOp.storable key = true)
    (hok : x.ok = true) (hfresh : ∀ m ∈ s.db.committed.messages, m.id ≠ x.uuid)
    (hi : s.calls[i]? = some (withSession dbCall (inserting key c))) (hf : s.db.flushed i = [])
    (hc : Insertable key s.db.committed c.roomId c.senderId c.content)
    (hx : (withSession dbCall (inserting key c)).step (fun (op : DbOp) x d => op.exec i x d) x
      s.db = some (p', d')) :
    Inv key { db := d', calls := s.calls.set i p' } := by
  have hbusy : s.Busy i := ⟨_, hi, Or.inl rfl⟩
  have hfree := h.free i hbusy
  obtain ⟨r, hexec, hp'⟩ := step_session hx
  have hrow : DbOp.messageRow x (s.db.view i) c.roomId c.senderId c.content c.messageType
      (.str key) = .ok (DbOp.newMessage x c.roomId c.senderId c.content c.messageType (some key)) := by
    rw [Database.view_of_flushed hf, DbOp.messageRow_eq_ok]
    refine ⟨some key, keyColumn_str_eq_ok.mpr ⟨rfl, hs, hc.key⟩, hc.content, rfl, hc.sender,
      hc.room, fun m hm => ?_⟩
    have hid : x.uuid ≠ m.id := Ne.symm (hfresh m hm)
    have hkey : some key ≠ m.idempotencyKey := fun he => hfree ⟨m, hm, he.symm⟩
    simp [DbOp.messageClash, DbOp.newMessage, hid, hkey]
  have hr : r = .ok (DbOp.newMessage x c.roomId c.senderId c.content c.messageType (some key)) := by
    rw [(DbOp.exec_eq_some hexec).1, DbOp.answer_of_ok (by simp) hok]
    exact hrow
  subst hr
  obtain ⟨-, rfl⟩ := DbOp.exec_insertMessage_ok hexec
  rw [hp' _ rfl]
  refine h.update hi (.refreshing ?_ rfl hfresh) (fun j hj => Database.flushed_flush_other hj)
    (fun e he => ?_) rfl rfl (fun _ hm => hm) (Or.inl rfl) h.unique
    fun _ => ⟨hfree, fun j hj => h.alone j i hj hbusy⟩
  · rw [Database.flushed_flush_self, hf]
    rfl
  · rcases List.mem_append.mp he with he | he
    · exact Or.inr he
    · rw [List.mem_singleton.mp he]
      exact Or.inl rfl

/-- The commit of the new row. -/
theorem Inv.step_inserted {m : MessageRow} (h : Inv key s) (hok : x.ok = true)
    (hi : s.calls[i]? = some (withSession dbCall (committing m)))
    (hf : s.db.flushed i = [.addMessage m]) (hk : m.idempotencyKey = some key)
    (hnew : ∀ m' ∈ s.db.committed.messages, m'.id ≠ m.id)
    (hx : (withSession dbCall (committing m)).step (fun (op : DbOp) x d => op.exec i x d) x
      s.db = some (p', d')) :
    Inv key { db := d', calls := s.calls.set i p' } := by
  have hbusy : s.Busy i := ⟨_, hi, Or.inr (by simp [hf])⟩
  have hfree := h.free i hbusy
  obtain ⟨r, hexec, hp'⟩ := step_session hx
  obtain rfl : r = .ok () := by
    rw [(DbOp.exec_eq_some hexec).1, DbOp.answer_of_ok (by simp) hok]
    rfl
  have hd := DbOp.exec_commit_ok hexec
  have hcommitted : d'.committed = s.db.committed.apply (.addMessage m) := by
    rw [hd]
    show s.db.view i = _
    rw [Database.view, hf]
    rfl
  have hmem : m ∈ d'.committed.messages := by
    rw [hcommitted]
    exact Table.mem_insert_self hnew
  have hold : ∀ m' ∈ d'.committed.messages, m' ∈ s.db.committed.messages ∨ m' = m := by
    intro m' hm'
    rw [hcommitted] at hm'
    exact Table.mem_insert hm'
  have hflushed : d'.flushed i = [] := by
    rw [hd]
    exact Database.flushed_commit_self
  rw [hp' _ rfl]
  refine h.update hi (.closing hflushed hk hmem) (fun j hj => ?_) (fun e he => ?_) ?_ ?_
    (fun m' hm' => ?_) (Or.inr hbusy) (fun m₁ h₁ m₂ h₂ hk₁ hk₂ => ?_) ?_
  · rw [hd]
    exact Database.flushed_commit_other hj
  · rw [hd] at he
    exact Or.inr (List.mem_of_mem_filter he)
  · rw [hcommitted]
    rfl
  · rw [hcommitted]
    rfl
  · rw [hcommitted]
    exact Table.mem_insert_of_mem hm'
  · rcases hold m₁ h₁ with h₁ | rfl
    · exact absurd ⟨m₁, h₁, hk₁⟩ hfree
    · rcases hold m₂ h₂ with h₂ | rfl
      · exact absurd ⟨m₂, h₂, hk₂⟩ hfree
      · rfl
  · rintro (hins | hne)
    · cases hins
    · exact absurd hflushed hne

/-- The end of a transaction that has nothing pending. -/
theorem Inv.update_end (h : Inv key s) (hi : s.calls[i]? = some p) (hf : s.db.flushed i = [])
    (hd : d' = s.db.commit i ∨ d' = s.db.forget i)
    (hstage : d'.flushed i = [] → d'.committed = s.db.committed → Stage key d' i p')
    (hhead : p'.head?.any isInsert = false) :
    Inv key { db := d', calls := s.calls.set i p' } := by
  have hflushed : d'.flushed i = [] := by
    rcases hd with rfl | rfl
    · exact Database.flushed_commit_self
    · exact Database.flushed_forget_self
  have hcommitted : d'.committed = s.db.committed := by
    rcases hd with rfl | rfl
    · exact Database.view_of_flushed hf
    · rfl
  refine h.update hi (hstage hflushed hcommitted) (fun j hj => ?_) (fun e he => ?_) ?_ ?_
    (fun m hm => ?_) (Or.inl hcommitted) ?_ ?_
  · rcases hd with rfl | rfl
    · exact Database.flushed_commit_other hj
    · exact Database.flushed_forget_other hj
  · rcases hd with rfl | rfl
    · exact Or.inr (List.mem_of_mem_filter he)
    · exact Or.inr (List.mem_of_mem_filter he)
  · rw [hcommitted]
  · rw [hcommitted]
  · rw [hcommitted]
    exact hm
  · rw [hcommitted]
    exact h.unique
  · rintro (hins | hne)
    · rw [hhead] at hins
      cases hins
    · exact absurd hflushed hne

/-- **A statement of a transaction** keeps the invariant. -/
theorem Inv.step_run (h : Inv key s) (hkey : key ≠ "") (hs : DbOp.storable key = true)
    (hanswered : Answered key s (.run i x)) (halone : Alone key s (.run i x))
    (hi : s.calls[i]? = some p)
    (hx : p.step (fun (op : DbOp) x d => op.exec i x d) x s.db = some (p', d')) :
    Inv key { db := d', calls := s.calls.set i p' } := by
  obtain ⟨hok, hfresh⟩ := hanswered
  cases h.stages i p hi with
  | @looking c hf hc =>
    have hnext : (s.next? i).any isLookup = true := by
      rw [next?, hi, prog_eq hkey]
      rfl
    exact h.step_looking hkey hs hok hi hf hc (halone hnext) hx
  | inserting hf hc =>
    have hnext : (s.next? i).any isInsert = true := by
      rw [next?, hi]
      rfl
    exact h.step_inserting hs hok (hfresh hnext) hi hf hc hx
  | @refreshing m hf hk hnew =>
    obtain ⟨r, hexec, hp'⟩ := step_session hx
    obtain ⟨hr, hd⟩ := DbOp.exec_eq_some hexec
    obtain rfl : d' = s.db := hd
    rw [DbOp.answer_of_ok (by simp) hok] at hr
    rw [hp' () hr]
    have hbusy : s.Busy i := ⟨_, hi, Or.inr (by simp [hf])⟩
    exact h.idle hi (.inserted hf hk hnew) fun _ =>
      ⟨h.free i hbusy, fun j hj => h.alone j i hj hbusy⟩
  | inserted hf hk hnew => exact h.step_inserted hok hi hf hk hnew hx
  | @found m hf hk hm =>
    obtain ⟨r, hexec, hp'⟩ := step_session hx
    obtain ⟨hr, -⟩ := DbOp.exec_eq_some hexec
    rw [DbOp.answer_of_ok (by simp) hok] at hr
    subst hr
    rw [hp' () rfl]
    refine h.update_end hi hf (Or.inl (DbOp.exec_commit_ok hexec)) (fun hf' hc' => ?_) rfl
    exact .closing hf' hk (hc' ▸ hm)
  | @closing m hf hk hm =>
    rw [session_pure] at hx
    obtain ⟨op, k, r, heq, hexec, rfl⟩ := Coro.step_eq_some hx
    cases heq
    obtain ⟨hr, hd⟩ := DbOp.exec_eq_some hexec
    have hr : r = .ok () := hr
    subst hr
    refine h.update_end hi hf (Or.inr hd) (fun hf' hc' => ?_) rfl
    exact .ended hf' hk (hc' ▸ hm)
  | ended hf hk hm => cases hx

/-- A new transaction. -/
theorem Inv.step_start {c : SaveCall} (h : Inv key s) (hkey : key ≠ "")
    (hc : Insertable key s.db.committed c.roomId c.senderId c.content) :
    Inv key { s with calls := s.calls ++ [c.prog key] } := by
  have hnew : s.db.flushed s.calls.length = [] := by
    by_contra hf
    obtain ⟨wr, hwr⟩ := List.exists_mem_of_ne_nil _ hf
    exact absurd (h.born _ (Database.mem_flushed.mp hwr)) (Nat.lt_irrefl _)
  have hcases : ∀ {i : TaskId} {p}, (s.calls ++ [c.prog key])[i]? = some p →
      s.calls[i]? = some p ∨ (i = s.calls.length ∧ p = c.prog key) := by
    intro i p hp
    rcases Nat.lt_or_ge i s.calls.length with hlt | hge
    · rw [List.getElem?_append_left hlt] at hp
      exact Or.inl hp
    · rw [List.getElem?_append_right hge] at hp
      obtain ⟨hi, hp⟩ := List.getElem?_eq_some_iff.mp hp
      have hi : i - s.calls.length = 0 := Nat.lt_one_iff.mp hi
      refine Or.inr ⟨Nat.le_antisymm (Nat.sub_eq_zero_iff_le.mp hi) hge, ?_⟩
      simpa [hi] using hp.symm
  have hbusy : ∀ {i}, Busy { s with calls := s.calls ++ [c.prog key] } i → s.Busy i := by
    rintro i ⟨p, hp, hb⟩
    rcases hcases hp with hp | ⟨rfl, rfl⟩
    · exact ⟨p, hp, hb⟩
    · rcases hb with hins | hne
      · rw [prog_eq hkey] at hins
        cases hins
      · exact absurd hnew hne
  refine ⟨h.unique, fun e he => ?_, fun i j hi hj => h.alone i j (hbusy hi) (hbusy hj),
    fun i hi => h.free i (hbusy hi), fun i p hp => ?_⟩
  · show e.1 < (s.calls ++ [c.prog key]).length
    rw [List.length_append]
    exact Nat.lt_of_lt_of_le (h.born e he) (Nat.le_add_right _ _)
  · rcases hcases hp with hp | ⟨rfl, rfl⟩
    · exact h.stages i p hp
    · exact .looking hnew hc

theorem inv_step {l : Label} (h : Inv key s) (hkey : key ≠ "") (hs : DbOp.storable key = true)
    (hanswered : Answered key s l) (halone : Alone key s l) (hstep : s.step key l = some s') :
    Inv key s' := by
  cases l with
  | start c =>
    cases hstep
    exact h.step_start hkey hanswered
  | run i x =>
    simp only [SavePool.step] at hstep
    split at hstep
    · rename_i p hi
      obtain ⟨⟨p', d'⟩, hx, rfl⟩ := Option.map_eq_some_iff.mp hstep
      exact h.step_run hkey hs hanswered halone hi hx
    · cases hstep

/-- Nobody waits for another transaction. -/
theorem Inv.not_blocked (h : Inv key s) (hkey : key ≠ "") {op : DbOp} (hi : s.calls[i]? = some p)
    (hop : p.head? = some op) (x : DbOutcome) : op.blocked x i s.db = false := by
  cases h.stages i p hi with
  | looking hf hc =>
    rw [prog_eq hkey] at hop
    cases hop
    rfl
  | inserting hf hc =>
    have hothers : s.db.others i = [] := by
      refine List.eq_nil_iff_forall_not_mem.mpr fun wr hwr => ?_
      obtain ⟨j, hj, hmem⟩ := Database.mem_others.mp hwr
      have hnil := h.flushed_eq_nil ⟨_, hi, Or.inl rfl⟩ hj
      have hwr := Database.mem_flushed.mpr hmem
      rw [hnil] at hwr
      cases hwr
    cases hop
    rw [DbOp.blocked, hothers]
    rfl
  | refreshing _ _ _ => cases hop; rfl
  | inserted _ _ _ => cases hop; rfl
  | found _ _ _ => cases hop; rfl
  | closing _ _ _ => cases hop; rfl
  | ended _ _ _ => cases hop

theorem Inv.converged (h : Inv key s) (hkey : key ≠ "") : Converged key s where
  ended := by
    intro i p hi hhead
    cases h.stages i p hi with
    | looking _ _ =>
      rw [prog_eq hkey] at hhead
      cases hhead
    | inserting _ _ => cases hhead
    | refreshing _ _ _ => cases hhead
    | inserted _ _ _ => cases hhead
    | found _ _ _ => cases hhead
    | closing _ _ _ => cases hhead
    | ended hf hk hm => exact ⟨_, hm, rfl, hk, fun m' hm' hk' => h.unique m' hm' _ hm hk' hk⟩
  unblocked := fun i p op hi hop => h.not_blocked hkey hi hop

/-- **Retries converge** in every run in which whoever looks the key up and finds nothing is
alone at it. -/
theorem retries_converge {t : Tables} (hkey : key ≠ "") (hs : DbOp.storable key = true)
    (hunique : ∀ m ∈ t.messages, ∀ m' ∈ t.messages,
      m.idempotencyKey = some key → m'.idempotencyKey = some key → m = m')
    (hr : Reach (SavePool.step key) (fun s l => Answered key s l ∧ Alone key s l) (.init t) s) :
    Converged key s := by
  have hinv : Inv key s := hr.invariant (inv_init hunique) fun _ _ _ h hc hstep =>
    inv_step h hkey hs hc.1 hc.2 hstep
  exact hinv.converged hkey

end Runs

/-! ## Two retries -/

instance (key : String) (t : Tables) : Decidable (KeyStored key t) :=
  inferInstanceAs (Decidable (∃ m ∈ t.messages.rows, m.idempotencyKey = some key))

instance (key : String) (t : Tables) (room sender : Uuid) (content : String) :
    Decidable (Insertable key t room sender content) :=
  decidable_of_iff (key.length ≤ 100 ∧ DbOp.storable content = true ∧
      (∃ r ∈ t.rooms.rows, r.id = room) ∧ ∃ u ∈ t.users.rows, u.id = sender)
    ⟨fun h => ⟨h.1, h.2.1, h.2.2.1, h.2.2.2⟩, fun h => ⟨h.key, h.content, h.room, h.sender⟩⟩

instance (key : String) (s : SavePool) (l : Label) : Decidable (Answered key s l) :=
  match l with
  | .start c => inferInstanceAs (Decidable (Insertable key _ c.roomId c.senderId c.content))
  | .run i x => inferInstanceAs (Decidable (x.ok = true ∧ ((s.next? i).any isInsert = true →
      ∀ m ∈ s.db.committed.messages.rows, m.id ≠ x.uuid)))

namespace Sample

def retry : SaveCall where
  roomId := 3
  senderId := 1
  content := "hi"
  messageType := .text

def answer (uuid : Uuid) : DbOutcome where
  ok := true
  executed := true
  now := Env.newYear
  uuid := uuid
  ties := .stable

/-- Transaction `i` performs its next `n` statements; a row of its gets the id `uuid`. -/
def goes (i : TaskId) (n : Nat) (uuid : Uuid) : List Label :=
  List.replicate n (.run i (answer uuid))

/-- The second transaction has raised. -/
def raised (s : SavePool) : Bool :=
  match s.calls[1]? with
  | some (Coro.raise _) => true
  | _ => false

/-- No transaction is about to insert, and nothing is pending. -/
def idle (s : SavePool) : Bool :=
  s.db.pending.isEmpty && s.calls.all fun p => !p.head?.any isInsert

theorem not_busy_of_idle {s : SavePool} (h : idle s = true) (j : TaskId) : ¬s.Busy j := by
  rintro ⟨p, hp, hbusy⟩
  obtain ⟨hpending, hcalls⟩ := Bool.and_eq_true_iff.mp h
  rcases hbusy with hins | hne
  · have hcall := List.all_eq_true.mp hcalls p (List.mem_of_getElem? hp)
    rw [hins] at hcall
    cases hcall
  · refine hne ?_
    rw [Database.flushed, List.isEmpty_iff.mp hpending]
    rfl

/-- A step of a run in which a lookup finds the key or nobody else at it. -/
def orderly (key : String) (s : SavePool) (l : Label) : Bool :=
  decide (Answered key s l) &&
    match l with
    | .start _ => true
    | .run i _ =>
      !(s.next? i).any isLookup || decide (KeyStored key s.db.committed) || idle s

theorem of_orderly {key : String} {s : SavePool} {l : Label} (h : orderly key s l = true) :
    Answered key s l ∧ Alone key s l := by
  obtain ⟨hanswered, hrest⟩ := Bool.and_eq_true_iff.mp h
  refine ⟨of_decide_eq_true hanswered, ?_⟩
  cases l with
  | start c => trivial
  | run i x =>
    intro hlookup
    rcases Bool.or_eq_true_iff.mp hrest with hrest | hidle
    · rcases Bool.or_eq_true_iff.mp hrest with hno | hstored
      · rw [hlookup] at hno
        cases hno
      · exact Or.inl (of_decide_eq_true hstored)
    · exact Or.inr (not_busy_of_idle hidle)

end Sample

set_option maxRecDepth 20000 in
/-- One retry after the other: the second returns the row of the first. -/
theorem retries_converge_twice : ∃ s,
    replayIf (SavePool.step "k") (Sample.orderly "k")
      ([.start Sample.retry, .start Sample.retry] ++ Sample.goes 0 5 7 ++ Sample.goes 1 3 8)
      (.init .sample) = some s ∧
    s.calls.all (fun p => p.head?.isNone) = true ∧ Converged "k" s := by
  have hrun : (replayIf (SavePool.step "k") (Sample.orderly "k")
      ([.start Sample.retry, .start Sample.retry] ++ Sample.goes 0 5 7 ++ Sample.goes 1 3 8)
      (.init .sample)).any (fun s => s.calls.all fun p => p.head?.isNone) = true := by
    decide +kernel
  obtain ⟨s, hs, hended⟩ := Option.any_eq_true _ _ |>.mp hrun
  refine ⟨s, hs, hended, retries_converge (t := .sample) (by decide) (by decide) ?_
    (.of_replayIf (fun _ _ => Sample.of_orderly) .init hs)⟩
  intro m hm
  cases hm

set_option maxRecDepth 20000 in
/-- **A retry that looks the key up before the first is committed ends in an error.** -/
theorem not_retries_converge : ¬∀ (key : String) (t : Tables) (s : SavePool), key ≠ "" →
    DbOp.storable key = true →
    (∀ m ∈ t.messages, ∀ m' ∈ t.messages,
      m.idempotencyKey = some key → m'.idempotencyKey = some key → m = m') →
    Reach (SavePool.step key) (Answered key) (.init t) s → Converged key s := by
  intro hall
  have hrun : (replayIf (SavePool.step "k") (fun s l => decide (Answered "k" s l))
      ([.start Sample.retry, .start Sample.retry] ++ Sample.goes 0 1 7 ++ Sample.goes 1 1 8 ++
        Sample.goes 0 4 7 ++ Sample.goes 1 2 8)
      (.init .sample)).any Sample.raised = true := by
    decide +kernel
  obtain ⟨s, hs, hraised⟩ := Option.any_eq_true _ _ |>.mp hrun
  have hconverged := hall "k" .sample s (by decide) (by decide) (fun m hm => by cases hm)
    (.of_replayIf (fun _ _ h => of_decide_eq_true h) .init hs)
  unfold Sample.raised at hraised
  split at hraised
  · rename_i e he
    obtain ⟨m, -, hret, -⟩ := hconverged.ended 1 _ he rfl
    cases hret
  · cases hraised

end SavePool

end NexusChat
