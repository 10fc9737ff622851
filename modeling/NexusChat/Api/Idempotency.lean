import NexusChat.Api.Footprint
import NexusChat.Lib.Stream

/-!
# Retries of a message

Message events handled one after the other, with the database and Redis answering. The database
layer deduplicates by the idempotency key: a retry writes no row. The publishing layer does not
follow it, and every retry is published again (`idempotent_sending_iff`).

`effect` is the specification of one call of `_handle_message` as a function of the tables: the
rows it leaves and what it publishes. `run_handleMessage` shows that the program does that.
-/

set_option autoImplicit false

namespace NexusChat.Chat

variable {env : Env} {srv : ServerId} {me : TaskId}

/-! ## One call -/

/-- The row `save_message` returns, and the tables once it is committed. -/
def saved (x : DbOutcome) (t : Tables) (room sender : Uuid) (content : String) (key : Json) :
    Except Exn (MessageRow × Tables) :=
  if key.truthy then
    match DbOp.answer x t (.selectMessageByKey key) with
    | .error e => .error e
    | .ok (some existing) => .ok (existing, t)
    | .ok none => inserted
  else inserted
where
  inserted : Except Exn (MessageRow × Tables) :=
    (DbOp.answer x t (.insertMessage room sender content .text key)).map
      fun m => (m, t.apply (.addMessage m))

/-- The validation before the database is asked. -/
def MessageData.valid (d : MessageData) : Bool :=
  d.roomId.truthy && d.content ≠ "" && d.content.length ≤ 5000

/-- The row and the tables a valid message leads to. -/
def stored (env : Env) (x : DbOutcome) (t : Tables) (user_id : UserId) (d : MessageData) :
    Except Exn (MessageRow × Tables) := do
  let room ← env.parseUuid d.roomId
  let sender ← env.parseUuid (.str user_id)
  saved x t room sender d.content d.idempotencyKey

/-- With no transaction in progress a flush does not wait, and the tables seen are the committed
ones. -/
theorem exec_insertMessage (me : TaskId) (x : DbOutcome) {d : Database} (room sender : Uuid)
    (content : String) (key : Json) (hd : d.pending = []) :
    DbOp.exec me (.insertMessage room sender content .text key) x d =
      some (DbOp.answer x d.committed (.insertMessage room sender content .text key),
        match DbOp.answer x d.committed (.insertMessage room sender content .text key) with
        | .ok m => { committed := d.committed, pending := [(me, .addMessage m)] }
        | .error _ => d) := by
  have hview : d.view me = d.committed := by simp [Database.view, Database.flushed, hd]
  have hblocked : DbOp.blocked x me d (.insertMessage room sender content .text key) = false := by
    simp [DbOp.blocked, Database.others, hd]
  rw [DbOp.exec, if_neg (by simp [hblocked]), DbOp.after, hview]
  generalize DbOp.answer x d.committed (.insertMessage room sender content .text key) = r
  cases r with
  | error e => rfl
  | ok m => simp only [Database.flush, hd, List.nil_append]

theorem exec_refresh {x : DbOutcome} {d : Database} (hx : x.ok = true) :
    DbOp.exec me .refresh x d = some (.ok (), d) := by
  simp [DbOp.exec, DbOp.blocked, DbOp.answer, DbOp.reply, DbOp.after, hx]

theorem exec_commit {x : DbOutcome} {t : Tables} {wr : Write} (hx : x.ok = true) :
    DbOp.exec me .commit x { committed := t, pending := [(me, wr)] } =
      some (.ok (), { committed := t.apply wr, pending := [] }) := by
  simp [DbOp.exec, DbOp.blocked, DbOp.answer, DbOp.reply, DbOp.after, Database.commit,
    Database.forget, Database.view, Database.flushed, hx]

theorem exec_commit_idle {x : DbOutcome} {d : Database} (hx : x.ok = true) (hd : d.pending = []) :
    DbOp.exec me .commit x d = some (.ok (), d) := by
  obtain ⟨t, ps⟩ := d
  subst hd
  simp [DbOp.exec, DbOp.blocked, DbOp.answer, DbOp.reply, DbOp.after, Database.commit,
    Database.forget, Database.view, Database.flushed, hx]

/-- One database operation that is answered, and the program that goes on. -/
theorem run_dbOp_ok {α : Type} {op : DbOp} {f : op.Resp → Prog α} {x : Choice} {w : World}
    {a : op.Resp} {d : Database} (h : op.exec me x.db w.db = some (.ok a, d)) :
    (dbOp op >>= f).run (Op.exec env srv me) x w =
      (f a).run (Op.exec env srv me) x { w with db := d } := by
  rw [dbOp, await, Coro.run_perform_bind]
  simp [Op.exec, h]

theorem run_dbOp_error {α : Type} {op : DbOp} {f : op.Resp → Prog α} {x : Choice} {w : World}
    {e : Exn} {d : Database} (h : op.exec me x.db w.db = some (.error e, d)) :
    (dbOp op >>= f).run (Op.exec env srv me) x w = some (.error e, { w with db := d }) := by
  rw [dbOp, await, Coro.run_perform_bind]
  simp [Op.exec, h]

theorem run_insert {α : Type} {f : MessageRow → Prog α} {x : Choice} {w : World}
    {room sender : Uuid} {content : String} {key : Json} (hx : x.ok = true)
    (hw : w.db.pending = []) :
    (MessageService.saveMessage.insert dbOp room sender content .text key >>= fun message =>
      dbOp .commit >>= fun _ => f message).run (Op.exec env srv me) x w =
      match saved.inserted x.db w.db.committed room sender content key with
      | .ok (m, t) => (f m).run (Op.exec env srv me) x
          { w with db := { committed := t, pending := [] } }
      | .error e => some (.error e, w) := by
  have hinsert := exec_insertMessage me x.db room sender content key hw
  rw [MessageService.saveMessage.insert, bind_assoc, saved.inserted]
  cases hr : DbOp.answer x.db w.db.committed (.insertMessage room sender content .text key) with
  | error e =>
    rw [hr] at hinsert
    rw [run_dbOp_error hinsert]
    rfl
  | ok m =>
    rw [hr] at hinsert
    rw [run_dbOp_ok hinsert, bind_assoc, run_dbOp_ok (exec_refresh hx), pure_bind,
      run_dbOp_ok (exec_commit hx)]
    rfl

theorem run_saveMessage {α : Type} (env : Env) (srv : ServerId) (me : TaskId)
    (room sender : Uuid) (content : String) (key : Json) (f : MessageRow → Prog α) {x : Choice}
    {w : World} (hx : x.ok = true) (hw : w.db.pending = []) :
    (MessageService.saveMessage dbOp room sender content .text key >>= fun message =>
      dbOp .commit >>= fun _ => f message).run (Op.exec env srv me) x w =
      match saved x.db w.db.committed room sender content key with
      | .ok (m, t) => (f m).run (Op.exec env srv me) x
          { w with db := { committed := t, pending := [] } }
      | .error e => some (.error e, w) := by
  have hview : w.db.view me = w.db.committed := by simp [Database.view, Database.flushed, hw]
  have hselect : DbOp.exec me (.selectMessageByKey key) x.db w.db =
      some (DbOp.answer x.db w.db.committed (.selectMessageByKey key), w.db) := by
    rw [DbOp.exec, if_neg (by simp [DbOp.blocked]), hview]
    rfl
  have hidle : ({ w with db := { committed := w.db.committed, pending := [] } } : World) = w := by
    rw [← hw]
  rw [MessageService.saveMessage, saved]
  split
  · rw [bind_assoc]
    -- the SELECT fails on a key that is no string, or that has a NUL in it
    cases hr : DbOp.answer x.db w.db.committed (.selectMessageByKey key) with
    | error e =>
      rw [hr] at hselect
      rw [run_dbOp_error hselect]
    | ok existing =>
      rw [hr] at hselect
      rw [run_dbOp_ok hselect]
      cases existing with
      | none => exact run_insert hx hw
      | some existing =>
        -- the stored row goes back; there is nothing to commit
        rw [pure_bind, run_dbOp_ok (exec_commit_idle hx hw)]
        simp only [hidle]
  · exact run_insert hx hw

theorem run_withSession {α : Type} {body : Prog α} {x : Choice} {w w' : World}
    {r : Except Exn α} (h : body.run (Op.exec env srv me) x w = some (r, w')) :
    (withSession dbOp body).run (Op.exec env srv me) x w =
      some (r, { w' with db := w'.db.forget me }) := by
  have hroll : ∀ d, DbOp.exec me .rollback x.db d = some (.ok (), d.forget me) := fun d => rfl
  change (Coro.tryCatch body (fun e => dbOp .rollback >>= fun _ => .raise e) >>= fun a =>
    dbOp .rollback >>= fun _ => pure a).run (Op.exec env srv me) x w = _
  rw [Coro.run_bind, Coro.run_tryCatch, h]
  cases r with
  | ok a => exact run_dbOp_ok (hroll _)
  | error e =>
    have he : (dbOp .rollback >>= fun _ => (.raise e : Prog α)).run (Op.exec env srv me) x w' =
        some (.error e, { w' with db := w'.db.forget me }) := run_dbOp_ok (hroll w'.db)
    simp only [Option.bind_some, he]

/-- A session closed with nothing pending has changed nothing. -/
theorem forget_idle {w : World} (hw : w.db.pending = []) :
    ({ w with db := w.db.forget me } : World) = w := by
  obtain ⟨servers, redis, t, ps⟩ := w
  simp only at hw
  subst hw
  rfl

/-- **Storing a message**, with the database answering. -/
theorem run_storeMessage {x : Choice} {w : World} {user_id : UserId} {username : String}
    {d : MessageData} (hx : x.ok = true) (hw : w.db.pending = []) :
    (storeMessage env user_id username d.roomId d.content d.idempotencyKey).run
        (Op.exec env srv me) x w =
      match stored env x.db w.db.committed user_id d with
      | .ok (m, t) => some (.ok (chatPayload env user_id username d m),
          { w with db := { committed := t, pending := [] } })
      | .error e => some (.error e, w) := by
  unfold storeMessage stored
  cases env.parseUuid d.roomId with
  | error e => exact (run_withSession rfl).trans (by rw [forget_idle hw]; rfl)
  | ok room =>
    cases env.parseUuid (.str user_id) with
    | error e => exact (run_withSession rfl).trans (by rw [forget_idle hw]; rfl)
    | ok sender =>
      have hbody := run_saveMessage env srv me room sender d.content d.idempotencyKey
        (fun m => (pure (chatPayload env user_id username d m) : Prog _)) hx hw
      change _ = match saved x.db w.db.committed room sender d.content d.idempotencyKey with
        | .ok (m, t) => _
        | .error e => _
      cases hs : saved x.db w.db.committed room sender d.content d.idempotencyKey with
      | error e =>
        rw [hs] at hbody
        exact (run_withSession hbody).trans (by rw [forget_idle hw])
      | ok r =>
        rw [hs] at hbody
        exact run_withSession hbody

theorem run_publish {x : Choice} {w : World} {channel : Channel} {message : Json}
    (hx : x.ok = true) :
    (RedisBroker.publish channel message).run (Op.exec env srv me) x w =
      some (.ok (), w.publish x.received channel message) := by
  change (Coro.tryCatch (await (.publish channel message)) _).run _ _ _ = _
  rw [Coro.run_tryCatch, await, Coro.run_perform]
  simp [Op.exec, hx]

theorem run_sendToUser (env : Env) (srv : ServerId) (me : TaskId) (x : Choice) (w : World)
    (user_id : UserId) (m : WSOutboundMessage) :
    ∃ w', (sendToUser user_id m).run (Op.exec env srv me) x w = some (.ok (), w') ∧
      w'.db = w.db ∧ w'.redis = w.redis := by
  refine ⟨w.setManager srv ((w.servers srv).manager.sendToUser env.maxSendQueueSize user_id
    { message := m, source := none }), ?_, rfl, rfl⟩
  rw [sendToUser, managerOp, await, Coro.run_perform]
  rfl

/-- What handling a message event does to the tables, and what it publishes. -/
def effect (env : Env) (x : DbOutcome) (t : Tables) (user_id : UserId) (username : String)
    (event_data : Json) : Tables × List (Channel × Json) :=
  match readMessage env event_data with
  | .error _ => (t, [])
  | .ok d =>
    if d.valid then
      match stored env x t user_id d with
      | .ok (m, t') => (t', [(roomChannel env d.roomId,
          envelope "chat" (chatPayload env user_id username d m))])
      | .error _ => (t, [])
    else (t, [])

/-- **One call of `_handle_message`**, with the database and Redis answering and no transaction in
progress: it leaves the tables of `effect` and publishes what `effect` says. -/
theorem run_handleMessage (env : Env) (srv : ServerId) (me : TaskId) (user_id : UserId)
    (username : String) (event_data : Json) {x : Choice} {w : World} (hx : x.ok = true)
    (hw : w.db.pending = []) :
    ∃ r w', (handleMessage env user_id username event_data).run (Op.exec env srv me) x w =
        some (r, w') ∧
      w'.db = { committed := (effect env x.db w.db.committed user_id username event_data).1,
                pending := [] } ∧
      w'.redis.published = w.redis.published ++
        (effect env x.db w.db.committed user_id username event_data).2 := by
  have hidle : w.db = { committed := w.db.committed, pending := [] } := by rw [← hw]
  rw [handleMessage_eq, effect]
  cases hread : readMessage env event_data with
  | error e => exact ⟨.error e, w, rfl, hidle, (List.append_nil _).symm⟩
  | ok d =>
    change ∃ r w', Coro.run _ _ (handleRead env user_id username d) _ = _ ∧ _
    simp only [handleRead]
    by_cases hreq : (!d.roomId.truthy || decide (d.content = "")) = true
    · have hinvalid : d.valid = false := by
        simp only [Bool.or_eq_true, Bool.not_eq_true', decide_eq_true_eq] at hreq
        rcases hreq with h | h <;> simp [MessageData.valid, h]
      -- an invalid message is answered with an error, and nothing is stored or published
      obtain ⟨w', hrun, hdb, hredis⟩ := run_sendToUser env srv me x w user_id
        (.errorMessage "room_id and content are required")
      rw [if_pos hreq, hinvalid]
      exact ⟨_, w', hrun, hdb.trans hidle, by rw [hredis]; exact (List.append_nil _).symm⟩
    · rw [if_neg hreq]
      by_cases hlong : 5000 < d.content.length
      · have hinvalid : d.valid = false := by simp [MessageData.valid, Nat.not_le.mpr hlong]
        obtain ⟨w', hrun, hdb, hredis⟩ := run_sendToUser env srv me x w user_id
          (.errorMessage "Message too long (max 5000 chars)")
        rw [if_pos hlong, hinvalid]
        exact ⟨_, w', hrun, hdb.trans hidle, by rw [hredis]; exact (List.append_nil _).symm⟩
      · have hvalid : d.valid = true := by
          simp only [Bool.or_eq_true, Bool.not_eq_true', decide_eq_true_eq, not_or,
            Bool.not_eq_false] at hreq
          simp [MessageData.valid, hreq.1, hreq.2, Nat.not_lt.mp hlong]
        rw [if_neg hlong, hvalid, if_pos rfl, Coro.run_bind, run_storeMessage hx hw]
        cases stored env x.db w.db.committed user_id d with
        | error e => exact ⟨_, w, rfl, hidle, (List.append_nil _).symm⟩
        | ok r => exact ⟨_, _, run_publish hx, rfl, rfl⟩

/-! ## A sequence of events -/

/-- A message event, and the time at which it is handled. -/
structure Arrival where
  userId : UserId
  username : String
  data : Json
  now : Time

/-- The event carries the idempotency key `k`. -/
def Arrival.hasKey (k : String) (a : Arrival) : Bool :=
  match a.data.get "idempotency_key" .null with
  | .ok (.str s) => s = k
  | _ => false

/-- The room, the sender and the content of an event that passes the validation. -/
def Arrival.sending (env : Env) (a : Arrival) : Option (Uuid × Uuid × String) :=
  match readMessage env a.data with
  | .error _ => none
  | .ok d =>
    if d.valid then
      match env.parseUuid d.roomId, env.parseUuid (.str a.userId) with
      | .ok room, .ok sender => some (room, sender, d.content)
      | _, _ => none
    else none

/-- Everything is answered; a row stored into `t` gets the id `fresh t`. -/
def answered (fresh : Tables → Uuid) (a : Arrival) (t : Tables) : Choice where
  ok := true
  executed := true
  order := []
  now := a.now
  uuid := fresh t
  ties := .stable
  received := fun _ _ => true

/-- The world after one event. -/
def handle (env : Env) (srv : ServerId) (me : TaskId) (fresh : Tables → Uuid) (w : World)
    (a : Arrival) : World :=
  match (handleMessage env a.userId a.username a.data).run (Op.exec env srv me)
      (answered fresh a w.db.committed) w with
  | some (_, w') => w'
  | none => w

def handleAll (env : Env) (srv : ServerId) (me : TaskId) (fresh : Tables → Uuid) (w : World)
    (as : List Arrival) : World := as.foldl (handle env srv me fresh) w

/-- What is published while handling the events with the key `k`. -/
def publishedFor (env : Env) (srv : ServerId) (me : TaskId) (fresh : Tables → Uuid) (k : String) :
    World → List Arrival → List (Channel × Json)
  | _, [] => []
  | w, a :: as =>
    (if a.hasKey k then
      (handle env srv me fresh w a).redis.published.drop w.redis.published.length
    else []) ++ publishedFor env srv me fresh k (handle env srv me fresh w a) as

/-- An event as a step on the tables. -/
def react (env : Env) (fresh : Tables → Uuid) (t : Tables) (a : Arrival) :
    Tables × List (Channel × Json) :=
  effect env (answered fresh a t).db t a.userId a.username a.data

variable {fresh : Tables → Uuid} {k : String}

theorem handle_spec (env : Env) (srv : ServerId) (me : TaskId) (fresh : Tables → Uuid)
    (a : Arrival) {w : World} (hw : w.db.pending = []) :
    (handle env srv me fresh w a).db =
        { committed := (react env fresh w.db.committed a).1, pending := [] } ∧
      (handle env srv me fresh w a).redis.published =
        w.redis.published ++ (react env fresh w.db.committed a).2 := by
  obtain ⟨r, w', hrun, hdb, hpub⟩ := run_handleMessage env srv me a.userId a.username a.data
    (rfl : (answered fresh a w.db.committed).ok = true) hw
  simp only [handle, hrun]
  exact ⟨hdb, hpub⟩

/-- **The published stream is what the tables' steps emit.** -/
theorem published_handleAll {w : World} {as : List Arrival} (hw : w.db.pending = []) :
    (handleAll env srv me fresh w as).redis.published =
      w.redis.published ++ Stream.emit (react env fresh) w.db.committed as := by
  induction as generalizing w with
  | nil => exact (List.append_nil _).symm
  | cons a as ih =>
    obtain ⟨hdb, hpub⟩ := handle_spec env srv me fresh a hw
    have hih := ih (w := handle env srv me fresh w a) (by rw [hdb])
    rw [hdb, hpub, List.append_assoc] at hih
    exact hih

theorem publishedFor_eq {w : World} {as : List Arrival} (hw : w.db.pending = []) :
    publishedFor env srv me fresh k w as =
      Stream.emitOf (react env fresh) (Arrival.hasKey k) w.db.committed as := by
  induction as generalizing w with
  | nil => rfl
  | cons a as ih =>
    obtain ⟨hdb, hpub⟩ := handle_spec env srv me fresh a hw
    have hih := ih (w := handle env srv me fresh w a) (by rw [hdb])
    rw [publishedFor, Stream.emitOf, hih, hdb, hpub, List.drop_left]

/-! ## Which events are accepted -/

/-- A row with the key is stored. -/
def KeyStored (k : String) (t : Tables) : Prop := ∃ m ∈ t.messages, m.idempotencyKey = some k

/-- The tables take a new message. -/
structure Insertable (k : String) (t : Tables) (room sender : Uuid) (content : String) :
    Prop where
  key : k.length ≤ 100
  content : DbOp.storable content = true
  room : ∃ r ∈ t.rooms, r.id = room
  sender : ∃ u ∈ t.users, u.id = sender

/-- A message with the key `k` is accepted: it passes the validation, and its key is stored
already or a row with it can be. -/
def Acceptable (k : String) (t : Tables) : Option (Uuid × Uuid × String) → Prop
  | none => False
  | some (room, sender, content) => DbOp.storable k = true ∧
      (KeyStored k t ∨ Insertable k t room sender content)

/-- What an event does, by what it sends. -/
theorem effect_of_sending {x : DbOutcome} {t : Tables} {a : Arrival} :
    effect env x t a.userId a.username a.data =
      match a.sending env, readMessage env a.data with
      | some (room, sender, content), .ok d =>
        match saved x t room sender content d.idempotencyKey with
        | .ok (m, t') => (t', [(roomChannel env d.roomId,
            envelope "chat" (chatPayload env a.userId a.username d m))])
        | .error _ => (t, [])
      | _, _ => (t, []) := by
  unfold effect Arrival.sending
  cases readMessage env a.data with
  | error e => rfl
  | ok d =>
    simp only
    by_cases hv : d.valid = true
    · simp only [hv, if_true, stored]
      cases env.parseUuid d.roomId with
      | error e => rfl
      | ok room =>
        cases env.parseUuid (.str a.userId) with
        | error e => rfl
        | ok sender => rfl
    · simp only [hv, if_false, Bool.false_eq_true]

/-- What the insertion of `save_message` gives, if anything. -/
theorem inserted_eq_ok {x : DbOutcome} {t t' : Tables} {room sender : Uuid} {content : String}
    {key : Json} {m : MessageRow} (hx : x.ok = true) :
    saved.inserted x t room sender content key = .ok (m, t') ↔
      DbOp.messageRow x t room sender content .text key = .ok m ∧ t' = t.apply (.addMessage m) := by
  have hanswer : DbOp.answer x t (.insertMessage room sender content .text key) =
      DbOp.messageRow x t room sender content .text key := by simp [DbOp.answer, hx, DbOp.reply]
  rw [saved.inserted, hanswer]
  cases DbOp.messageRow x t room sender content .text key with
  | error e => simp [Except.map]
  | ok m' =>
    simp only [Except.map, Except.ok.injEq, Prod.mk.injEq]
    constructor
    · rintro ⟨rfl, rfl⟩; exact ⟨rfl, rfl⟩
    · rintro ⟨rfl, rfl⟩; exact ⟨rfl, rfl⟩

/-- A saved row is a stored one, or a new one that the tables are extended by. -/
theorem saved_cases {x : DbOutcome} {t t' : Tables} {room sender : Uuid} {content : String}
    {key : Json} {m : MessageRow} (hx : x.ok = true)
    (h : saved x t room sender content key = .ok (m, t')) :
    t' = t ∨ (t' = t.apply (.addMessage m) ∧ DbOp.keyColumn key = .ok m.idempotencyKey) := by
  have hinsert : saved.inserted x t room sender content key = .ok (m, t') →
      t' = t.apply (.addMessage m) ∧ DbOp.keyColumn key = .ok m.idempotencyKey := fun h => by
    obtain ⟨hrow, ht⟩ := (inserted_eq_ok hx).mp h
    obtain ⟨k, hk, -, rfl, -⟩ := DbOp.messageRow_eq_ok.mp hrow
    exact ⟨ht, hk⟩
  unfold saved at h
  split at h
  · split at h
    · exact absurd h (by simp)
    · cases h; exact Or.inl rfl
    · exact Or.inr (hinsert h)
  · exact Or.inr (hinsert h)

/-- The steps on the tables: nothing, or one new message with the key of the event. -/
theorem react_cases (env : Env) (fresh : Tables → Uuid) (t : Tables) (a : Arrival) :
    (react env fresh t a).1 = t ∨
    ∃ d m, readMessage env a.data = .ok d ∧ DbOp.keyColumn d.idempotencyKey = .ok m.idempotencyKey ∧
      (react env fresh t a).1 = t.apply (.addMessage m) := by
  rw [react, effect_of_sending]
  split
  · rename_i room sender content d hsend hread
    split
    · rename_i m t' hs
      rcases saved_cases rfl hs with rfl | ⟨rfl, hk⟩
      · exact Or.inl rfl
      · exact Or.inr ⟨d, m, hread, hk, rfl⟩
    · exact Or.inl rfl
  · exact Or.inl rfl

/-- The key of an event, as the handler reads it. -/
theorem get_idempotencyKey {data : Json} {d : MessageData} (hd : readMessage env data = .ok d) :
    data.get "idempotency_key" .null = .ok d.idempotencyKey := by
  unfold readMessage at hd
  cases hroom : data.get "room_id" (.str "") with
  | error e => rw [hroom] at hd; cases hd
  | ok room_id =>
    cases hcontent : (data.get "content" (.str "")).bind (strip env) with
    | error e => rw [hroom, hcontent] at hd; cases hd
    | ok content =>
      cases hkey : data.get "idempotency_key" .null with
      | error e => rw [hroom, hcontent, hkey] at hd; cases hd
      | ok key =>
        rw [hroom, hcontent, hkey] at hd
        cases hd
        rfl

theorem hasKey_iff {a : Arrival} {d : MessageData} (hd : readMessage env a.data = .ok d) :
    a.hasKey k = true ↔ d.idempotencyKey = .str k := by
  rw [Arrival.hasKey, get_idempotencyKey hd]
  cases d.idempotencyKey <;> simp

/-! ## The key -/

theorem keyColumn_str_eq_ok {o : Option String} : DbOp.keyColumn (.str k) = .ok o ↔
    o = some k ∧ DbOp.storable k = true ∧ k.length ≤ 100 := by
  have hdef : DbOp.keyColumn (.str k) =
      if DbOp.storable k && k.length ≤ 100 then .ok (some k) else .error .dbError := rfl
  rw [hdef]
  by_cases hk : (DbOp.storable k && decide (k.length ≤ 100)) = true
  · rw [if_pos hk]
    simp only [Bool.and_eq_true, decide_eq_true_eq] at hk
    exact ⟨fun h => ⟨(Except.ok.inj h).symm, hk⟩, fun h => by rw [h.1]⟩
  · rw [if_neg hk]
    simp only [Bool.and_eq_true, decide_eq_true_eq] at hk
    exact ⟨fun h => absurd h (by simp), fun h => absurd h.2 hk⟩

theorem eq_str_of_keyColumn {key : Json} (h : DbOp.keyColumn key = .ok (some k)) :
    key = .str k := by
  cases key with
  | str s => rw [Option.some.inj (keyColumn_str_eq_ok.mp h).1]
  | null => cases h
  | bool b => cases h
  | num s => cases h
  | arr l => cases h
  | obj l => cases h

/-- The question `save_message` asks first. -/
theorem answer_selectMessageByKey {x : DbOutcome} {t : Tables} (hx : x.ok = true) :
    DbOp.answer x t (.selectMessageByKey (.str k)) =
      if DbOp.storable k then .ok (t.messages.find? fun m => m.idempotencyKey = some k)
      else .error .dbError := by
  simp [DbOp.answer, hx, DbOp.reply]

theorem find?_key_eq_none {t : Tables} :
    (t.messages.find? fun m => m.idempotencyKey = some k) = none ↔ ¬KeyStored k t := by
  simp only [Table.find?_eq_none, decide_eq_false_iff_not, KeyStored, not_exists, not_and]

section Keyed

variable {x : DbOutcome} {t t' : Tables} {room sender : Uuid} {content : String} {m : MessageRow}

/-- A stored key: its row is returned, nothing is written. -/
theorem saved_of_keyStored (room sender : Uuid) (content : String) (hx : x.ok = true)
    (hk : k ≠ "") (hs : DbOp.storable k = true) (h : KeyStored k t) :
    ∃ m, saved x t room sender content (.str k) = .ok (m, t) := by
  obtain ⟨m, hm⟩ : ∃ m, (t.messages.find? fun m => m.idempotencyKey = some k) = some m :=
    Option.ne_none_iff_exists'.mp fun hnone => find?_key_eq_none.mp hnone h
  refine ⟨m, ?_⟩
  rw [saved, if_pos (by simpa [Json.truthy] using hk), answer_selectMessageByKey hx, if_pos hs, hm]

/-- A new key: the row is inserted. -/
theorem saved_of_not_keyStored (hx : x.ok = true) (hk : k ≠ "") (hs : DbOp.storable k = true)
    (h : ¬KeyStored k t) : saved x t room sender content (.str k) =
      saved.inserted x t room sender content (.str k) := by
  rw [saved, if_pos (by simpa [Json.truthy] using hk), answer_selectMessageByKey hx, if_pos hs,
    find?_key_eq_none.mpr h]

theorem saved_of_not_storable (hx : x.ok = true) (hk : k ≠ "") (hs : DbOp.storable k = false) :
    saved x t room sender content (.str k) = .error .dbError := by
  rw [saved, if_pos (by simpa [Json.truthy] using hk), answer_selectMessageByKey hx,
    if_neg (by simp [hs])]

/-- An insertion with the key that succeeds. -/
theorem insertable_of_inserted (hx : x.ok = true)
    (h : saved.inserted x t room sender content (.str k) = .ok (m, t')) :
    Insertable k t room sender content ∧ t' = t.apply (.addMessage m) ∧
      m.idempotencyKey = some k ∧ ∀ m' ∈ t.messages, m'.id ≠ m.id := by
  obtain ⟨hrow, ht⟩ := (inserted_eq_ok hx).mp h
  obtain ⟨k', hkey, hcontent, rfl, hsender, hroom, hclash⟩ := DbOp.messageRow_eq_ok.mp hrow
  obtain ⟨rfl, -, hlen⟩ := keyColumn_str_eq_ok.mp hkey
  refine ⟨⟨hlen, hcontent, hroom, hsender⟩, ht, rfl, fun m' hm' hid => ?_⟩
  have := hclash m' hm'
  simp [DbOp.messageClash, hid] at this

theorem inserted_of_insertable (hx : x.ok = true) (hs : DbOp.storable k = true)
    (hfresh : ∀ m ∈ t.messages, m.id ≠ x.uuid) (hnew : ¬KeyStored k t)
    (h : Insertable k t room sender content) :
    ∃ m, saved.inserted x t room sender content (.str k) = .ok (m, t.apply (.addMessage m)) := by
  refine ⟨DbOp.newMessage x room sender content .text (some k), (inserted_eq_ok hx).mpr ⟨?_, rfl⟩⟩
  refine DbOp.messageRow_eq_ok.mpr
    ⟨some k, keyColumn_str_eq_ok.mpr ⟨rfl, hs, h.key⟩, h.content, rfl, h.sender, h.room, ?_⟩
  intro m hm
  have hid := hfresh m hm
  have hkey : m.idempotencyKey ≠ some k := fun he => hnew ⟨m, hm, he⟩
  simp [DbOp.messageClash, DbOp.newMessage, Ne.symm hid, Ne.symm hkey]

/-- **An acceptable message is saved**, and no other is. -/
theorem saved_iff_acceptable (hx : x.ok = true) (hk : k ≠ "")
    (hfresh : ∀ m ∈ t.messages, m.id ≠ x.uuid) :
    (∃ r, saved x t room sender content (.str k) = .ok r) ↔
      Acceptable k t (some (room, sender, content)) := by
  cases hs : DbOp.storable k with
  | false =>
    rw [saved_of_not_storable hx hk hs]
    simp [Acceptable, hs]
  | true =>
    by_cases hst : KeyStored k t
    · obtain ⟨m, hm⟩ := saved_of_keyStored room sender content hx hk hs hst
      exact ⟨fun _ => ⟨hs, Or.inl hst⟩, fun _ => ⟨_, hm⟩⟩
    · rw [saved_of_not_keyStored hx hk hs hst]
      constructor
      · rintro ⟨⟨m, t'⟩, hr⟩
        exact ⟨hs, Or.inr (insertable_of_inserted hx hr).1⟩
      · rintro ⟨-, h | h⟩
        · exact absurd h hst
        · obtain ⟨m, hm⟩ := inserted_of_insertable hx hs hfresh hst h
          exact ⟨_, hm⟩

/-- Once a message with the key is saved, the key is stored. -/
theorem keyStored_of_saved (hx : x.ok = true) (hk : k ≠ "")
    (h : saved x t room sender content (.str k) = .ok (m, t')) : KeyStored k t' := by
  cases hs : DbOp.storable k with
  | false => rw [saved_of_not_storable hx hk hs] at h; cases h
  | true =>
    by_cases hst : KeyStored k t
    · obtain ⟨m', hm'⟩ := saved_of_keyStored room sender content hx hk hs hst
      rw [hm'] at h
      cases h
      exact hst
    · rw [saved_of_not_keyStored hx hk hs hst] at h
      obtain ⟨-, rfl, hkey, hids⟩ := insertable_of_inserted hx h
      exact ⟨m, Table.mem_insert_self hids, hkey⟩

end Keyed

/-! ## The events with the key, as a kind of event -/

section Kind

variable {q : Option (Uuid × Uuid × String)}

/-- The events with the key send `q`. -/
def Sends (env : Env) (k : String) (q : Option (Uuid × Uuid × String)) (a : Arrival) : Prop :=
  a.hasKey k = true → a.sending env = q

/-- An event with the key, as a step on the tables. -/
theorem react_of_hasKey {t : Tables} {a : Arrival} (ha : a.hasKey k = true) :
    react env fresh t a =
      match a.sending env, readMessage env a.data with
      | some (room, sender, content), .ok d =>
        match saved (answered fresh a t).db t room sender content (.str k) with
        | .ok (m, t') => (t', [(roomChannel env d.roomId,
            envelope "chat" (chatPayload env a.userId a.username d m))])
        | .error _ => (t, [])
      | _, _ => (t, []) := by
  rw [react, effect_of_sending]
  cases a.sending env with
  | none => rfl
  | some r =>
    cases hd : readMessage env a.data with
    | error e => rfl
    | ok d => simp only [(hasKey_iff hd).mp ha]

theorem KeyStored.react {t : Tables} {a : Arrival} (h : KeyStored k t) :
    KeyStored k (react env fresh t a).1 := by
  obtain ⟨m, hm, hk⟩ := h
  rcases react_cases env fresh t a with he | ⟨d, m', -, -, he⟩
  · exact ⟨m, by rw [he]; exact hm, hk⟩
  · exact ⟨m, by rw [he]; exact Table.mem_insert_of_mem hm, hk⟩

theorem users_react {t : Tables} {a : Arrival} : (react env fresh t a).1.users = t.users := by
  rcases react_cases env fresh t a with he | ⟨d, m, -, -, he⟩
  · rw [he]
  · rw [he]; rfl

theorem rooms_react {t : Tables} {a : Arrival} : (react env fresh t a).1.rooms = t.rooms := by
  rcases react_cases env fresh t a with he | ⟨d, m, -, -, he⟩
  · rw [he]
  · rw [he]; rfl

theorem insertable_react {t : Tables} {a : Arrival} {room sender : Uuid} {content : String} :
    Insertable k (react env fresh t a).1 room sender content ↔
      Insertable k t room sender content := by
  constructor
  · exact fun h => ⟨h.key, h.content, rooms_react ▸ h.room, users_react ▸ h.sender⟩
  · exact fun h => ⟨h.key, h.content, rooms_react.symm ▸ h.room, users_react.symm ▸ h.sender⟩

theorem Acceptable.react {t : Tables} {a : Arrival} (h : Acceptable k t q) :
    Acceptable k (react env fresh t a).1 q := by
  cases q with
  | none => exact h
  | some r => exact ⟨h.1, h.2.imp KeyStored.react insertable_react.mpr⟩

/-- An event with another key stores no row with this one. -/
theorem KeyStored.of_react {t : Tables} {a : Arrival} (ha : ¬a.hasKey k = true)
    (h : KeyStored k (Chat.react env fresh t a).1) : KeyStored k t := by
  obtain ⟨m, hm, hk⟩ := h
  rcases react_cases env fresh t a with he | ⟨d, m', hd, hkey, he⟩
  · rw [he] at hm; exact ⟨m, hm, hk⟩
  · rw [he] at hm
    rcases Table.mem_insert hm with hm | rfl
    · exact ⟨m, hm, hk⟩
    · rw [hk] at hkey
      exact absurd ((hasKey_iff hd).mpr (eq_str_of_keyColumn hkey)) ha

variable (env q) (hk : k ≠ "") (hfresh : ∀ t : Tables, ∀ m ∈ t.messages, m.id ≠ fresh t)
include hk hfresh

/-- Events with a key that are not acceptable are rejected. -/
theorem rejected_of_not_acceptable :
    Stream.Rejected (react env fresh) (Arrival.hasKey k) (Sends env k q)
      (fun t => ¬Acceptable k t q) := by
  have hsilent : ∀ t a, Sends env k q a → ¬Acceptable k t q → a.hasKey k = true →
      react env fresh t a = (t, []) := by
    intro t a hsends hrej ha
    rw [react_of_hasKey ha, hsends ha]
    cases readMessage env a.data with
    | error e => cases q <;> rfl
    | ok d =>
      cases q with
      | none => rfl
      | some r =>
        obtain ⟨room, sender, content⟩ := r
        simp only
        cases hs : saved (answered fresh a t).db t room sender content (.str k) with
        | error e => rfl
        | ok r => exact absurd ((saved_iff_acceptable rfl hk (hfresh t)).mp ⟨r, hs⟩) hrej
  refine ⟨fun t a hsends hrej hacc => ?_, hsilent⟩
  by_cases ha : a.hasKey k = true
  · rw [hsilent t a hsends hrej ha] at hacc
    exact hrej hacc
  · cases q with
    | none => exact hacc
    | some r => exact hrej ⟨hacc.1, hacc.2.imp (KeyStored.of_react ha) insertable_react.mp⟩

/-- Events with a key that are acceptable are accepted, and settled by the first. -/
theorem accepted_of_acceptable :
    Stream.Accepted (react env fresh) (Arrival.hasKey k) (Sends env k q)
      (fun t => Acceptable k t q) (KeyStored k) := by
  -- what a request with the key does, whether the key is stored already or not
  have hsaved : ∀ t a, Sends env k q a → Acceptable k t q → a.hasKey k = true →
      ∃ d m t', readMessage env a.data = .ok d ∧ (KeyStored k t → t' = t) ∧ KeyStored k t' ∧
        react env fresh t a = (t', [(roomChannel env d.roomId,
          envelope "chat" (chatPayload env a.userId a.username d m))]) := by
    intro t a hsends hacc ha
    rw [react_of_hasKey ha, hsends ha]
    cases q with
    | none => exact hacc.elim
    | some r =>
      obtain ⟨room, sender, content⟩ := r
      have hd : ∃ d, readMessage env a.data = .ok d := by
        have := hsends ha
        unfold Arrival.sending at this
        split at this
        · exact absurd this (by simp)
        · exact ⟨_, by assumption⟩
      obtain ⟨d, hd⟩ := hd
      obtain ⟨⟨m, t'⟩, hr⟩ := (saved_iff_acceptable (x := (answered fresh a t).db) rfl hk
        (hfresh t)).mpr hacc
      refine ⟨d, m, t', hd, fun hst => ?_, keyStored_of_saved rfl hk hr, by rw [hd]; simp only [hr]⟩
      obtain ⟨m', hm'⟩ := saved_of_keyStored room sender content
        (rfl : (answered fresh a t).db.ok = true) hk hacc.1 hst
      rw [hm'] at hr
      cases hr
      rfl
  refine ⟨fun t a _ h => h.react, fun t a _ _ h => h.react, fun t a hs h ha => ?_,
    fun t a hs h ha => ?_, fun t a hs h hst ha => ?_⟩
  · obtain ⟨d, m, t', -, -, hst, he⟩ := hsaved t a hs h ha
    rw [he]; exact hst
  · obtain ⟨d, m, t', -, -, -, he⟩ := hsaved t a hs h ha
    rw [he]; rfl
  · obtain ⟨d, m, t', -, hsame, -, he⟩ := hsaved t a hs h ha
    rw [he]; exact hsame hst

end Kind

/-- **Sending with a key is idempotent exactly when nothing is sent twice**: handling a sequence
of events in which those with the key `k` send one message publishes at most one payload for `k`,
and what it would publish without the repeats, if and only if there are no repeats or the message
is not acceptable. -/
theorem idempotent_sending_iff {w : World} {as : List Arrival}
    {q : Option (Uuid × Uuid × String)} (hw : w.db.pending = [])
    (hfresh : ∀ t : Tables, ∀ m ∈ t.messages, m.id ≠ fresh t) (hk : k ≠ "")
    (hrep : ∀ a ∈ as, a.hasKey k = true → a.sending env = q) :
    ((publishedFor env srv me fresh k w as).length ≤ 1 ∧
      (handleAll env srv me fresh w as).redis.published =
        (handleAll env srv me fresh w
          (Stream.dropRepeats (Arrival.hasKey k) as)).redis.published) ↔
      (as.countP (Arrival.hasKey k) ≤ 1 ∨ ¬Acceptable k w.db.committed q) := by
  have hrej := rejected_of_not_acceptable env q hk hfresh
  have hacc := accepted_of_acceptable env q hk hfresh
  rw [publishedFor_eq hw, published_handleAll hw, published_handleAll hw]
  constructor
  · rintro ⟨hone, -⟩
    by_contra hn
    push Not at hn
    rw [hacc.length_emitOf hrep hn.2] at hone
    omega
  · intro h
    by_cases ha : Acceptable k w.db.committed q
    · have hcount := h.resolve_right (not_not_intro ha)
      rw [hacc.length_emitOf hrep ha, Stream.dropRepeats_of_countP_le hcount]
      exact ⟨hcount, rfl⟩
    · rw [hrej.emitOf_eq_nil hrep ha, hrej.emit_dropRepeats hrep ha]
      exact ⟨Nat.zero_le 1, rfl⟩

/-! ## A retry -/

/-- An id no message has. -/
def nextId (t : Tables) : Uuid := (t.messages.rows.map MessageRow.id).sum + 1

theorem ne_nextId (t : Tables) (m : MessageRow) (hm : m ∈ t.messages) : m.id ≠ nextId t := by
  have hle : m.id ≤ (t.messages.rows.map MessageRow.id).sum :=
    List.le_sum_of_mem (List.mem_map_of_mem hm)
  exact Nat.ne_of_lt (Nat.lt_succ_of_le hle)

/-- User 1 sends "hi" to room 3. -/
def hi (fields : List (String × Json)) : Arrival where
  userId := "00000000-0000-0000-0000-000000000001"
  username := "u1"
  data := .obj ([("room_id", .str "00000000-0000-0000-0000-000000000003"),
    ("content", .str "hi")] ++ fields)
  now := Env.newYear

/-- Once with a key and once without. -/
theorem idempotent_sending_once :
    (publishedFor .sample 0 0 nextId "k" (.init .sample)
        [hi [("idempotency_key", .str "k")], hi []]).length ≤ 1 ∧
      (handleAll .sample 0 0 nextId (.init .sample)
          [hi [("idempotency_key", .str "k")], hi []]).redis.published =
        (handleAll .sample 0 0 nextId (.init .sample) (Stream.dropRepeats (Arrival.hasKey "k")
          [hi [("idempotency_key", .str "k")], hi []])).redis.published :=
  (idempotent_sending_iff (q := some (3, 1, "hi")) rfl ne_nextId (by decide)
    (by decide +kernel)).mpr (Or.inl (by decide +kernel))

/-- **A retry is published again.** -/
theorem not_idempotent_sending : ¬ ∀ (env : Env) (srv : ServerId) (me : TaskId)
    (fresh : Tables → Uuid) (k : String) (w : World) (as : List Arrival)
    (q : Option (Uuid × Uuid × String)), w.db.pending = [] →
      (∀ t : Tables, ∀ m ∈ t.messages, m.id ≠ fresh t) → k ≠ "" →
      (∀ a ∈ as, a.hasKey k = true → a.sending env = q) →
      (publishedFor env srv me fresh k w as).length ≤ 1 ∧
        (handleAll env srv me fresh w as).redis.published =
          (handleAll env srv me fresh w
            (Stream.dropRepeats (Arrival.hasKey k) as)).redis.published := by
  intro hall
  have htwice := (hall .sample 0 0 nextId "k" (.init .sample)
    [hi [("idempotency_key", .str "k")], hi [("idempotency_key", .str "k")]] (some (3, 1, "hi"))
    rfl ne_nextId (by decide) (by decide +kernel)).1
  exact absurd htwice (by decide +kernel)

end NexusChat.Chat
