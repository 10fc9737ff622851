import NexusChat.App.Discipline

/-!
# What is broadcast is what is stored

The payload of a chat message has its id and its timestamp from the row that `save_message`
returns, and its room, sender and content from the request. The two agree unless the row is
another request's, found by the idempotency key: keys are unique over all users and rooms.
`published_backed` is over every run in which a key that is looked up belongs to the message
being sent.
-/

set_option autoImplicit false

namespace NexusChat

namespace Chat

/-- A chat payload with the id, the room, the sender and the content of a stored message. -/
def Backed (env : Env) (t : Tables) (channel : Channel) (payload : WSOutboundMessage) : Prop :=
  ∃ m ∈ t.messages, ∃ room sender username,
    channel = "room:" ++ room ∧
    payload = .chatMessage (env.uuidStr m.id) (.str room) sender username m.content "text"
      (env.isoformat m.createdAt) ∧
    env.uuid room = some m.roomId ∧
    ∃ user, env.uuid sender = some user ∧ m.senderId = some user

theorem Backed.mono {env : Env} {t t' : Tables} {channel : Channel} {payload : WSOutboundMessage}
    (hm : ∀ m ∈ t.messages, m ∈ t'.messages) (h : Backed env t channel payload) :
    Backed env t' channel payload := by
  obtain ⟨m, hmem, hp⟩ := h
  exact ⟨m, hm m hmem, hp⟩

/-- The row is the message that `user_id` sends. -/
structure MessageData.IsRow (env : Env) (user_id : UserId) (d : MessageData) (m : MessageRow) :
    Prop where
  room : env.parseUuid d.roomId = .ok m.roomId
  sender : ∃ user, env.parseUuid (.str user_id) = .ok user ∧ m.senderId = some user
  content : m.content = d.content

theorem MessageData.IsRow.backed {env : Env} {user_id : UserId} {username : String}
    {d : MessageData} {m : MessageRow} {t : Tables} (h : d.IsRow env user_id m)
    (hm : m ∈ t.messages) :
    Backed env t (roomChannel env d.roomId) (chatPayload env user_id username d m) := by
  obtain ⟨room, hroom, hr⟩ := parseUuid_eq_ok h.room
  obtain ⟨user, huser, hs⟩ := h.sender
  obtain ⟨sender, hsender, hu⟩ := parseUuid_eq_ok huser
  cases hsender
  refine ⟨m, hm, room, user_id, username, ?_, ?_, hr, user, hu, hs⟩
  · rw [roomChannel, hroom]; rfl
  · rw [chatPayload, hroom, h.content]

/-- Every row with the key is the message that the session is sending. -/
def KeyIsOwn (env : Env) (a : Activity) (k : String) (t : Tables) : Prop :=
  ∀ data event_data d, a.frame = some data → FrameIs data "message" event_data →
    readMessage env event_data = .ok d →
    ∀ m ∈ t.messages, m.idempotencyKey = some k → d.IsRow env a.userId m

end Chat

namespace System

/-- The condition on a step: a key that is looked up belongs to the message being sent. -/
def KeysOwn (env : Env) (s : System) : Label → Prop
  | .run i _ => ∀ t k, s.tasks[i]? = some t →
      t.head? = some (.db (.selectMessageByKey (.str k))) →
      Chat.KeyIsOwn env t.activity k (s.world.db.view i)
  | _ => True

end System

/-! ## The discipline -/

open Chat

/-- Every chat payload that has been published is backed. -/
def AllBacked (env : Env) (w : World) : Prop :=
  w.db.Distinct ∧ ∀ channel payload, (channel, envelope "chat" payload) ∈ w.redis.published →
    Backed env w.db.committed channel payload

/-- Committed messages stay and a transaction's statements are its own. -/
def backing (env : Env) : Discipline where
  good := AllBacked env
  unborn _ _ := True
  permits me a op w := ∀ k, op = .db (.selectMessageByKey (.str k)) →
    KeyIsOwn env a k (w.db.view me)
  rely me _ w w' := (∀ m ∈ w.db.committed.messages, m ∈ w'.db.committed.messages) ∧
    w'.db.flushed me = w.db.flushed me
  guarantee me _ w w' := AllBacked env w' ∧
    (∀ m ∈ w.db.committed.messages, m ∈ w'.db.committed.messages) ∧
    ∀ other, other ≠ me → w'.db.flushed other = w.db.flushed other
  idle _ _ _ := True

variable {env : Env} {me : TaskId} {a : Activity} {w w' : World}

instance : IsTrans World ((backing env).rely me a) where
  trans _ _ _ hab hbc := ⟨fun m hm => hbc.1 m (hab.1 m hm), hbc.2.trans hab.2⟩

/-- An operation is within the guarantee unless it publishes a payload that is not backed. -/
theorem backing_exec {op : Op} {r : Except Exn op.Resp} (h : (backing env).Exec env me a op w r w')
    (hpub : ∀ channel payload, op = .publish channel (envelope "chat" payload) →
      Backed env w.db.committed channel payload) : (backing env).guarantee me a w w' := by
  obtain ⟨⟨hdistinct, hbacked⟩, -, x, hx⟩ := h
  have hmono : ∀ m ∈ w.db.committed.messages, m ∈ w'.db.committed.messages := by
    intro m hm
    rcases Op.exec_db hx with he | ⟨o, r', -, ho⟩
    · rw [he]; exact hm
    · exact DbOp.mem_messages_exec ho hm
  refine ⟨⟨?_, fun channel payload hp => ?_⟩, hmono, fun other hne => ?_⟩
  · rcases Op.exec_db hx with he | ⟨o, r', -, ho⟩
    · rw [he]; exact hdistinct
    · exact hdistinct.exec ho
  · rcases Op.exec_published hx with he | ⟨channel', message, hop, rfl⟩
    · rw [he] at hp
      exact (hbacked channel payload hp).mono hmono
    · rcases List.mem_append.mp hp with hp | hp
      · exact hbacked channel payload hp
      · cases List.mem_singleton.mp hp
        exact hpub channel payload hop
  · rcases Op.exec_db hx with he | ⟨o, r', -, ho⟩
    · rw [he]
    · exact DbOp.flushed_exec ho hne

/-- The operations that publish no chat payload. -/
def NoChat (op : Op) : Prop := ∀ channel payload, op ≠ .publish channel (envelope "chat" payload)

theorem noChat_of_quiet {op : Op} (h : op.Quiet) : NoChat op := by
  rintro channel payload rfl
  exact h

theorem noChat_publish {channel : Channel} {kind : String} {payload : WSOutboundMessage}
    (h : kind ≠ "chat") : NoChat (.publish channel (envelope kind payload)) := by
  intro channel' payload' he
  exact h (envelope_inj.mp (Op.publish.inj he).2).1

theorem backing_noChat {α : Type} {Q : Except Exn α → World → Prop} {p : Prog α}
    (hp : p.All NoChat) (hQ : ∀ r w, Q r w) : (backing env).Keeps env me a Q p w :=
  Coro.Safe.of_all (I := fun _ => True) (fun _ _ _ _ => trivial)
    (fun _ hop _ _ _ _ hx =>
      ⟨backing_exec hx fun channel payload he => absurd he (hop channel payload), trivial⟩)
    (fun r w _ => hQ r w) hp trivial

/-! ## Storing a message -/

section Store

variable {user_id : UserId} {username : String} {d : MessageData} {room sender : Uuid}

/-- The row is the message, and is committed or about to be. -/
def SavedRow (env : Env) (me : TaskId) (user_id : UserId) (d : MessageData) (m : MessageRow)
    (w : World) : Prop :=
  d.IsRow env user_id m ∧
    (m ∈ w.db.committed.messages ∨ .addMessage m ∈ w.db.flushed me)

theorem stable_savedRow {m : MessageRow} :
    Coro.Stable ((backing env).rely me a) (SavedRow env me user_id d m) := by
  intro w w' hr h
  refine ⟨h.1, h.2.imp (hr.1 m) fun hf => ?_⟩
  rw [hr.2]
  exact hf

theorem backing_dbOp {o : DbOp} {r : Except Exn o.Resp}
    (h : (backing env).Exec env me a (.db o) w r w') : (backing env).guarantee me a w w' :=
  backing_exec h fun _ _ he => by cases he

/-- The row that `save_message` inserts. -/
theorem backing_insert (hroom : env.parseUuid d.roomId = .ok room)
    (hsender : env.parseUuid (.str user_id) = .ok sender) :
    (backing env).Keeps env me a (fun r w => ∀ m, r = .ok m → SavedRow env me user_id d m w)
      (MessageService.saveMessage.insert dbOp room sender d.content .text d.idempotencyKey) w := by
  refine Coro.safe_perform fun w₁ _ r w₂ hx => ⟨backing_dbOp hx, ?_⟩
  cases r with
  | error e => exact fun m hm => by cases hm
  | ok m =>
    obtain ⟨-, -, x, hx⟩ := hx
    obtain ⟨db, hdb, rfl⟩ := Op.exec_dbOp hx
    obtain ⟨hrow, rfl⟩ := DbOp.exec_insertMessage_ok hdb
    obtain ⟨k, -, -, rfl, -⟩ := DbOp.messageRow_eq_ok.mp hrow
    have hsaved : SavedRow env me user_id d (DbOp.newMessage x.db room sender d.content .text k)
        { w₁ with db := w₁.db.flush me (.addMessage (DbOp.newMessage x.db room sender d.content
          .text k)) } := by
      refine ⟨⟨hroom, ⟨sender, hsender, rfl⟩, rfl⟩, Or.inr ?_⟩
      rw [Database.flushed_flush_self]
      exact List.mem_append_right _ (List.mem_singleton_self _)
    -- `refresh` changes nothing
    refine Coro.safe_perform fun w₃ hr r w₄ hx => ⟨backing_dbOp hx, ?_⟩
    obtain ⟨-, -, y, hx⟩ := hx
    obtain ⟨db, hdb, rfl⟩ := Op.exec_dbOp hx
    obtain rfl : db = w₃.db := (DbOp.exec_eq_some hdb).2
    cases r with
    | error e => exact fun m hm => by cases hm
    | ok _ =>
      intro m hm
      cases hm
      exact stable_savedRow _ _ hr hsaved

/-- The row that `save_message` finds or inserts. -/
theorem backing_saveMessage (hroom : env.parseUuid d.roomId = .ok room)
    (hsender : env.parseUuid (.str user_id) = .ok sender) (huser : a.userId = user_id)
    {data event_data : Json} (hframe : a.frame = some data)
    (hf : FrameIs data "message" event_data) (hd : readMessage env event_data = .ok d) :
    (backing env).Keeps env me a (fun r w => ∀ m, r = .ok m → SavedRow env me user_id d m w)
      (MessageService.saveMessage dbOp room sender d.content .text d.idempotencyKey) w := by
  unfold MessageService.saveMessage
  split
  · refine Coro.safe_perform fun w₁ _ r w₂ hx => ⟨backing_dbOp hx, ?_⟩
    cases r with
    | error e => exact fun m hm => by cases hm
    | ok existing =>
      cases existing with
      | none => exact backing_insert hroom hsender
      | some m =>
        obtain ⟨-, hpermit, x, hx⟩ := hx
        obtain ⟨db, hdb, rfl⟩ := Op.exec_dbOp hx
        obtain ⟨k, hkey, hview, hmk, rfl⟩ := DbOp.exec_selectMessageByKey_ok hdb
        have hrow := hpermit k (by rw [hkey]) data event_data d hframe hf hd m hview hmk
        rw [huser] at hrow
        intro m' hm'
        cases hm'
        exact ⟨hrow, Tables.mem_messages_of_foldl hview⟩
  · exact backing_insert hroom hsender

/-- Once the session has committed, the payload is backed. -/
theorem backing_storeIn (hroom : env.parseUuid d.roomId = .ok room)
    (hsender : env.parseUuid (.str user_id) = .ok sender) (huser : a.userId = user_id)
    {data event_data : Json} (hframe : a.frame = some data)
    (hf : FrameIs data "message" event_data) (hd : readMessage env event_data = .ok d) :
    (backing env).Keeps env me a (fun r w => ∀ payload, r = .ok payload →
        Backed env w.db.committed (roomChannel env d.roomId) payload)
      (storeIn env user_id username d room sender) w := by
  refine Coro.safe_bind ((backing_saveMessage hroom hsender huser hframe hf hd).mono ?_)
  intro r w hr
  cases r with
  | error e => exact fun payload hp => by cases hp
  | ok m =>
    have hsaved := hr m rfl
    refine Coro.safe_perform fun w₁ hrely r w₂ hx => ⟨backing_dbOp hx, ?_⟩
    obtain ⟨⟨hdistinct, -⟩, -, x, hx⟩ := hx
    obtain ⟨db, hdb, rfl⟩ := Op.exec_dbOp hx
    cases r with
    | error e => exact fun payload hp => by cases hp
    | ok _ =>
      obtain rfl := DbOp.exec_commit_ok hdb
      obtain ⟨hrow, hm⟩ := stable_savedRow _ _ hrely hsaved
      intro payload hp
      cases hp
      refine hrow.backed ?_
      rcases hm with hm | hm
      · exact Tables.mem_messages_foldl hm
      · exact hdistinct.mem_view hm

theorem stable_backed {channel : Channel} {payload : WSOutboundMessage} :
    Coro.Stable ((backing env).rely me a)
      fun w => Backed env w.db.committed channel payload :=
  fun _ _ hr h => h.mono hr.1

/-- The rollbacks that end a session keep what it has committed. -/
theorem backing_withSession {body : Prog WSOutboundMessage} {channel : Channel}
    (hbody : (backing env).Keeps env me a (fun r w => ∀ payload, r = .ok payload →
      Backed env w.db.committed channel payload) body w) :
    (backing env).Keeps env me a (fun r w => ∀ payload, r = .ok payload →
      Backed env w.db.committed channel payload) (withSession dbOp body) w := by
  refine Coro.safe_bind (Coro.safe_tryCatch (hbody.mono ?_))
  intro r w hr
  cases r with
  | error e =>
    refine Coro.safe_perform fun w₁ _ r w₂ hx => ⟨backing_dbOp hx, ?_⟩
    cases r <;> exact fun payload hp => by cases hp
  | ok payload =>
    refine Coro.safe_perform fun w₁ hrely r w₂ hx => ⟨backing_dbOp hx, ?_⟩
    cases r with
    | error e => exact fun payload hp => by cases hp
    | ok _ =>
      intro payload' hp
      cases hp
      exact (stable_backed _ _ hrely (hr payload rfl)).mono (backing_dbOp hx).2.1

/-- **Handling a message publishes what is stored.** -/
theorem backing_handleMessage (huser : a.userId = user_id) {data event_data : Json}
    (hframe : a.frame = some data) (hf : FrameIs data "message" event_data) :
    (backing env).Keeps env me a (fun _ _ => True)
      (handleMessage env user_id username event_data) w := by
  rw [handleMessage_eq]
  cases hd : readMessage env event_data with
  | error e => trivial
  | ok d =>
    have hsend : ∀ m w, (backing env).Keeps env me a (fun _ _ => True) (sendToUser user_id m) w :=
      fun m w => backing_noChat (all_sendToUser fun _ => noChat_of_quiet) fun _ _ => trivial
    show (backing env).Keeps env me a (fun _ _ => True) (handleRead env user_id username d) w
    unfold handleRead
    split
    · exact hsend _ _
    · split
      · exact hsend _ _
      · have hstore : (backing env).Keeps env me a (fun r w => ∀ payload, r = .ok payload →
            Backed env w.db.committed (roomChannel env d.roomId) payload)
            (storeMessage env user_id username d.roomId d.content d.idempotencyKey) w := by
          rw [storeMessage_eq]
          refine backing_withSession ?_
          cases hroom : env.parseUuid d.roomId with
          | error e => exact fun payload hp => by cases hp
          | ok room =>
            cases hsender : env.parseUuid (.str user_id) with
            | error e => exact fun payload hp => by cases hp
            | ok sender => exact backing_storeIn hroom hsender huser hframe hf hd
        refine Coro.safe_bind (hstore.mono fun r w hr => ?_)
        cases r with
        | error e => trivial
        | ok payload =>
          refine Coro.Safe.of_all stable_backed ?_ (fun _ _ _ => trivial)
            (all_publish (φ := fun op => NoChat op ∨
              op = .publish (roomChannel env d.roomId) (envelope "chat" payload))
              (fun op hop => Or.inl (noChat_of_quiet hop)) (Or.inr rfl)) (hr payload rfl)
          intro op hop w r w' hb hx
          have hg : (backing env).guarantee me a w w' := by
            refine backing_exec hx fun channel payload' he => ?_
            rcases hop with hop | rfl
            · exact absurd he (hop channel payload')
            · obtain ⟨rfl, henv⟩ := Op.publish.inj he
              rw [← (envelope_inj.mp henv).2]
              exact hb
          exact ⟨hg, hb.mono hg.2.1⟩

end Store

/-! ## Every program keeps to it -/

theorem backing_handleFrame {user_id : UserId} {username : String} {data : Json}
    (huser : a.userId = user_id) (hframe : a.frame = some data) :
    (backing env).Keeps env me a (fun _ _ => True)
      (handleFrame env user_id username data) w := by
  have hquiet : ∀ op : Op, op.Quiet → NoChat op := fun _ => noChat_of_quiet
  refine Discipline.keeps_handleFrame (I := fun _ => True) (fun _ _ _ _ => trivial)
    (fun op hop w r w' _ hx =>
      ⟨backing_exec hx fun channel payload he => absurd he (noChat_of_quiet hop channel payload),
        trivial⟩)
    (fun _ _ _ => trivial) ?_ ?_ ?_ ?_ ?_ trivial
  · intro event_data w _ _
    refine backing_noChat (all_handleJoinRoom hquiet ?_ ?_ ?_ ?_ ?_ ?_) fun _ _ => trivial
    · exact fun _ _ _ _ he => by cases he
    · exact fun _ _ he => by cases he
    · exact fun _ _ _ he => by cases he
    · exact fun _ _ _ _ he => by cases he
    · exact fun _ _ _ he => by cases he
    · exact fun _ => noChat_publish (by decide)
  · intro event_data w _ _
    refine backing_noChat (all_handleLeaveRoom hquiet ?_ ?_) fun _ _ => trivial
    · exact fun _ _ _ _ he => by cases he
    · exact fun _ _ => noChat_publish (by decide)
  · intro event_data w hf _
    exact backing_handleMessage huser hframe hf
  · intro event_data w _ _
    exact backing_noChat (all_handleTyping hquiet fun _ _ => noChat_publish (by decide))
      fun _ _ => trivial
  · intro event_data w _ _
    exact backing_noChat (all_handleTyping hquiet fun _ _ => noChat_publish (by decide))
      fun _ _ => trivial

theorem backing_sound : (backing env).Sound env (System.KeysOwn env) where
  refl := fun _ _ _ => ⟨fun _ hm => hm, rfl⟩
  trans := fun _ _ => inferInstance
  idle_stable := fun _ _ _ _ _ _ _ _ _ _ => trivial
  permits_run := fun {s i x t op} hC hi hop k he => hC t k hi (he ▸ hop)
  good_run := fun _ hg => hg.1
  unborn_run := fun _ _ _ => trivial
  rely_run := fun _ _ _ hji _ _ hg => ⟨hg.2.1, hg.2.2 _ hji⟩
  env_good := fun hl _ hs hgood => by
    obtain ⟨hdb, hredis⟩ := System.stores_env hl hs
    show AllBacked env _
    rw [AllBacked, hdb, hredis]
    exact hgood
  env_rely := fun hl _ hs _ me a => by
    obtain ⟨hdb, -⟩ := System.stores_env hl hs
    show (∀ m ∈ _, m ∈ _) ∧ _
    rw [hdb]
    exact ⟨fun _ hm => hm, rfl⟩
  env_unborn := fun _ _ _ _ _ => trivial
  connect := fun _ _ => backing_noChat
    (all_connect (fun _ _ he => by cases he) (fun _ _ he => by cases he)
      (fun _ _ _ he => by cases he) (fun _ _ _ _ he => by cases he) (fun _ _ _ he => by cases he)
      (fun _ _ _ he => by cases he)) fun _ _ _ _ => trivial
  request := fun _ _ => backing_noChat (all_request fun _ _ _ he => by cases he)
    fun _ _ => trivial
  forced := fun _ _ => backing_noChat
    (all_forceDisconnect (fun _ _ he => by cases he) (fun _ _ _ he => by cases he)
      (fun _ _ he => by cases he) (fun _ _ he => by cases he)) fun _ _ => trivial
  frame := fun _ _ _ _ _ => backing_handleFrame rfl rfl
  send := fun _ => backing_noChat (all_sendToUser fun _ => noChat_of_quiet) fun _ _ => trivial
  cleanup := fun _ => backing_noChat
    (all_cleanup (fun _ => noChat_of_quiet) (fun _ => noChat_publish (by decide))
      (fun _ _ he => by cases he) (fun _ _ _ he => by cases he) (fun _ _ he => by cases he))
    fun _ _ => trivial

/-- **What is broadcast is what is stored**, in every run in which a key that is looked up belongs
to the message being sent. -/
theorem published_backed {t : Tables} {s : System}
    (hr : Reach (System.step env) (System.KeysOwn env) (.init t) s) {channel : Channel}
    {payload : WSOutboundMessage}
    (hp : (channel, envelope "chat" payload) ∈ s.world.redis.published) :
    Backed env s.world.db.committed channel payload := by
  have hinit : (backing env).Inv env (.init t) :=
    Discipline.inv_init ⟨Database.distinct_init, fun _ _ h => absurd h (by simp [World.init,
      Redis.init])⟩ fun _ => trivial
  exact (backing_sound.inv_reach hinit hr).good.2 channel payload hp

/-! ## A key used twice -/

/-- User 1 sends a message with the key `"k"` to room 3; its row gets the id `uuid`. -/
def sends (content : String) (uuid : Uuid) : List Label :=
  .receive 0 (System.about "message" [("content", .str content), ("idempotency_key", .str "k")]) ::
    System.goes 0 7 uuid

/-- What is published for it. -/
def sent (content : String) (uuid : Uuid) : Channel × WSOutboundMessage :=
  ("room:00000000-0000-0000-0000-000000000003",
    .chatMessage (Env.sample.uuidStr uuid) (.str "00000000-0000-0000-0000-000000000003")
      "00000000-0000-0000-0000-000000000001" "u1" content "text" "2024-01-01T00:00:00+00:00")

/-- The payload is in the log. -/
def logged (p : Channel × WSOutboundMessage) (s : System) : Bool :=
  s.world.redis.published.any fun e => e.1 = p.1 && e.2.same (envelope "chat" p.2)

theorem mem_of_logged {p : Channel × WSOutboundMessage} {s : System} (h : logged p s = true) :
    (p.1, envelope "chat" p.2) ∈ s.world.redis.published := by
  obtain ⟨e, he, hp⟩ := List.any_eq_true.mp h
  simp only [Bool.and_eq_true, decide_eq_true_eq] at hp
  rw [← hp.1, ← Json.eq_of_same hp.2]
  exact he

/-- No key is looked up while a message is stored. -/
def keysOwnTest (s : System) : Label → Bool
  | .run i _ => (s.world.db.view i).messages.rows.isEmpty || (s.tasks[i]?.all fun t =>
      match t.head? with
      | some (.db (.selectMessageByKey _)) => false
      | _ => true)
  | _ => true

theorem keysOwn_of_test {s : System} {l : Label} (h : keysOwnTest s l = true) :
    System.KeysOwn env s l := by
  cases l with
  | run i x =>
    intro t k hi hop data event_data d _ _ _ m hm _
    simp only [keysOwnTest, Bool.or_eq_true] at h
    rcases h with h | h
    · rw [Table.mem_def, List.isEmpty_iff.mp h] at hm
      exact absurd hm (by simp)
    · simp [hi, hop] at h
  | _ => trivial

set_option maxRecDepth 20000 in
/-- One message is published with its row. -/
theorem published_backed_once : ∃ s, replay (System.step .sample)
    (System.enters 0 0 ++ sends "hi" 1) (.init .sample) = some s ∧
      Backed .sample s.world.db.committed (sent "hi" 1).1 (sent "hi" 1).2 := by
  have hrun : ((replayIf (System.step .sample) keysOwnTest
      (System.enters 0 0 ++ sends "hi" 1) (.init .sample)).any (logged (sent "hi" 1))) = true := by
    decide +kernel
  obtain ⟨s, hs, hlog⟩ := Option.any_eq_true _ _ |>.mp hrun
  exact ⟨s, replay_of_replayIf hs, published_backed
    (.of_replayIf (fun _ _ => keysOwn_of_test) .init hs) (mem_of_logged hlog)⟩

set_option maxRecDepth 20000 in
/-- **The second message with a key is broadcast with its own content and the first one's id.** -/
theorem not_published_backed : ¬ ∀ (env : Env) (t : Tables) (s : System),
    Reach (System.step env) Always (.init t) s → ∀ channel payload,
      (channel, envelope "chat" payload) ∈ s.world.redis.published →
        Backed env s.world.db.committed channel payload := by
  intro hall
  have hrun : ((replay (System.step .sample) (System.enters 0 0 ++ sends "hi" 1 ++
      System.goes 0 0 ++ .receive 0 (System.about "message" [("content", .str "bye"),
        ("idempotency_key", .str "k")]) :: System.goes 0 5) (.init .sample)).any fun s =>
      logged (sent "bye" 1) s &&
        s.world.db.committed.messages.rows.all fun m => m.content = "hi") = true := by
    decide +kernel
  obtain ⟨s, hs, hv⟩ := Option.any_eq_true _ _ |>.mp hrun
  simp only [Bool.and_eq_true, List.all_eq_true, decide_eq_true_eq] at hv
  obtain ⟨m, hm, room, sender, username, -, hpayload, -⟩ :=
    hall .sample .sample s (.of_replay .init hs) _ _ (mem_of_logged hv.1)
  have hcontent : m.content = "bye" := by
    simp only [sent, WSOutboundMessage.chatMessage, WSOutboundMessage.mk.injEq, List.cons.injEq,
      Prod.mk.injEq, Json.str.injEq, true_and] at hpayload
    exact hpayload.2.2.2.2.1.symm
  rw [hv.2 m hm] at hcontent
  exact absurd hcontent (by decide)

end NexusChat
