import NexusChat.App.LiveOrder
import NexusChat.App.Moves
import NexusChat.App.Ownership
import NexusChat.Lib.Promise

/-!
# Who speaks on a room's channel

Every message on the channel of a room names the user it is about: the sender of a chat message, who
has come or gone, who types. The handlers take that name from the session, never from the frame, so
whatever reaches a socket through a channel is about a user who has a session and was published by
that session (`System.delivered_said`). The callback leaves the typist out, so nobody is told that
he types himself (`System.never_echoed`).
-/

set_option autoImplicit false

namespace NexusChat

open ConnectionManager WebSocketConnection

/-- What a session of the user may say on the channel of a room, and under which type. -/
inductive Said (env : Env) (u : UserId) (username : String) :
    Channel → String → WSOutboundMessage → Prop where
  | chat {room_id : Json} {id content created_at : String} :
      Said env u username (Chat.roomChannel env room_id) "chat"
        (.chatMessage id room_id u username content "text" created_at)
  | presence {room_id : Json} {status : String} (h : status = "online" ∨ status = "offline") :
      Said env u username (Chat.roomChannel env room_id) "presence"
        (.presenceUpdate room_id u username status)
  | typing {room_id : Json} {is_typing : Bool} :
      Said env u username (Chat.roomChannel env room_id) "typing"
        (.typingIndicator room_id u username is_typing)

/-- The operation publishes nothing but what a session of the user may say. -/
def Op.Says (env : Env) (u : UserId) (username : String) : Op → Prop
  | .publish channel message => ∃ kind m, message = envelope kind m ∧
      Said env u username channel kind m
  | _ => True

/-- The operation publishes nothing. -/
def Op.Silent : Op → Prop
  | .publish _ _ => False
  | _ => True

/-! ## The programs -/

section Programs

variable {env : Env} {u : UserId} {username : String} {event_data data : Json}

theorem Op.Quiet.silent {op : Op} (h : op.Quiet) : op.Silent := by
  cases op with
  | publish channel message => exact absurd h id
  | _ => trivial

theorem Op.Silent.says {op : Op} (h : op.Silent) : op.Says env u username := by
  cases op with
  | publish channel message => exact absurd h id
  | _ => trivial

/-- A session returns the payload for what it has stored: sender and room are those of the frame
and of the session, whichever row the database has given. -/
theorem gives_storeMessage {d : Chat.MessageData} :
    (Chat.storeMessage env u username d.roomId d.content d.idempotencyKey).Gives (S := Op.sig)
      fun m => ∃ id created_at, m = .chatMessage id d.roomId u username d.content "text"
        created_at := by
  rw [Chat.storeMessage_eq]
  refine Coro.gives_bind (S := Op.sig) (Coro.gives_tryCatch (S := Op.sig) ?_ fun e => ?_)
    fun m hm => Coro.gives_after (S := Op.sig) fun _ => hm
  · exact Coro.gives_after (S := Op.sig) fun room => Coro.gives_after (S := Op.sig) fun sender =>
      Coro.gives_after (S := Op.sig) fun m => Coro.gives_after (S := Op.sig) fun _ => ⟨_, _, rfl⟩
  · exact Coro.gives_after (S := Op.sig) fun _ => trivial

theorem says_handleMessage :
    (Chat.handleMessage env u username event_data).All (Op.Says env u username) := by
  have hquiet : ∀ op : Op, op.Quiet → op.Says env u username := fun _ h => h.silent.says
  rw [Chat.handleMessage_eq]
  refine Coro.all_bind (Coro.all_ofExcept _) fun d => ?_
  unfold Chat.handleRead
  split
  · exact all_sendToUser hquiet
  · split
    · exact all_sendToUser hquiet
    · have hstore : (Chat.storeMessage env u username d.roomId d.content d.idempotencyKey).All
          (Op.Says env u username) :=
        Chat.all_storeMessage ⟨trivial, fun _ _ _ _ => trivial, trivial, trivial, trivial⟩
      refine Coro.all_bind_of_gives (S := Op.sig) hstore gives_storeMessage ?_
      rintro m ⟨id, created_at, rfl⟩
      exact all_publish hquiet ⟨_, _, rfl, .chat⟩

theorem says_handleFrame :
    (Chat.handleFrame env u username data).All (Op.Says env u username) := by
  have hquiet : ∀ op : Op, op.Quiet → op.Says env u username := fun _ h => h.silent.says
  rw [Chat.handleFrame_eq]
  refine Coro.all_bind (Coro.all_ofExcept _) fun event => Coro.all_bind (Coro.all_ofExcept _)
    fun event_data => Coro.all_bind (all_rateLimited hquiet) fun limited => ?_
  split
  · exact all_sendToUser hquiet
  · apply Chat.dispatch_cases (P := fun p => p.All (Op.Says env u username))
    · intro _
      exact all_handleJoinRoom hquiet (fun _ _ => trivial) trivial (fun _ => trivial)
        (fun _ _ => trivial) (fun _ => trivial) fun _ => ⟨_, _, rfl, .presence (.inl rfl)⟩
    · intro _
      exact all_handleLeaveRoom hquiet (fun _ _ => trivial) fun _ _ =>
        ⟨_, _, rfl, .presence (.inr rfl)⟩
    · exact fun _ => says_handleMessage
    · exact fun _ => all_handleTyping hquiet fun _ _ => ⟨_, _, rfl, .typing⟩
    · exact fun _ => all_handleTyping hquiet fun _ _ => ⟨_, _, rfl, .typing⟩
    · exact fun _ => all_sendToUser hquiet

theorem says_cleanup {conn : ConnId} :
    (Chat.cleanup env u username conn).All (Op.Says env u username) :=
  all_cleanup (fun _ h => h.silent.says) (fun _ => ⟨_, _, rfl, .presence (.inr rfl)⟩) trivial
    (fun _ => trivial) trivial

end Programs

/-! ## The tasks -/

/-- The programs of a session speak for its user alone, and the other tasks do not speak. -/
def Task.Speaks (env : Env) : Task → Prop
  | .session ses => ses.phase.Programs fun {_} p => p.All (Op.Says env ses.userId ses.username)
  | .request _ p | .forced _ _ p => p.All Op.Silent

section Tasks

variable {env : Env} {me : TaskId} {x : Choice} {w w' : World} {t t' : Task}

theorem Phase.speaks_settle {u : UserId} {username : String} {isOpen : ConnId → Bool}
    {phase : Phase} (h : phase.Programs fun {_} p => p.All (Op.Says env u username)) :
    (phase.settle env u username isOpen).Programs
      fun {_} p => p.All (Op.Says env u username) := by
  cases phase with
  | receiving conn => trivial
  | ended => trivial
  | connecting p =>
    cases p with
    | ret conn => exact all_sendToUser fun _ hop => hop.silent.says
    | raise e => trivial
    | await op k => exact h
  | handling conn frame p =>
    cases p with
    | ret a =>
      simp only [Phase.settle]
      split
      · trivial
      · exact says_cleanup
    | raise e => exact says_cleanup
    | await op k => exact h
  | cleanup conn p =>
    cases p with
    | ret a => trivial
    | raise e => trivial
    | await op k => exact h

/-- The identity of a task: whose session it is. -/
def Task.identity : Task → Option (UserId × String)
  | .session ses => some (ses.userId, ses.username)
  | .request _ _ | .forced _ _ _ => none

/-- An operation of a task that speaks for its user: what it publishes is his, and the rest of the
task speaks for him as well. -/
theorem Task.speaks_step (h : t.Speaks env) (hs : t.step env me x w = some (t', w')) :
    t'.Speaks env ∧ t'.identity = t.identity ∧
      ∃ (op : Op) (r : Except Exn op.Resp), op.exec env t.activity.server me x w = some (r, w') ∧
        (op.Silent ∨ ∃ u username, t.identity = some (u, username) ∧ op.Says env u username) := by
  cases t with
  | request r p =>
    obtain ⟨⟨p', w₁⟩, hp, heq⟩ := Option.map_eq_some_iff.mp hs
    cases heq
    obtain ⟨op, k, a, rfl, hx, rfl⟩ := Coro.step_eq_some hp
    exact ⟨h.2 a, rfl, op, a, hx, .inl h.1⟩
  | forced srv conn p =>
    obtain ⟨⟨p', w₁⟩, hp, heq⟩ := Option.map_eq_some_iff.mp hs
    cases heq
    obtain ⟨op, k, a, rfl, hx, rfl⟩ := Coro.step_eq_some hp
    exact ⟨h.2 a, rfl, op, a, hx, .inl h.1⟩
  | session ses =>
    obtain ⟨srv, u, username, phase⟩ := ses
    obtain ⟨⟨phase', w₁⟩, hphase, heq⟩ := Option.map_eq_some_iff.mp hs
    cases heq
    have hnext : phase'.Programs (fun {_} p => p.All (Op.Says env u username)) ∧
        ∃ (op : Op) (r : Except Exn op.Resp), op.exec env srv me x w = some (r, w') ∧
          op.Says env u username := by
      cases phase with
      | receiving conn => cases hphase
      | ended => cases hphase
      | connecting p =>
        obtain ⟨⟨p', w₁⟩, hp, heq⟩ := Option.map_eq_some_iff.mp hphase
        cases heq
        obtain ⟨op, k, a, rfl, hx, rfl⟩ := Coro.step_eq_some hp
        exact ⟨h.2 a, op, a, hx, h.1⟩
      | handling conn frame p =>
        obtain ⟨⟨p', w₁⟩, hp, heq⟩ := Option.map_eq_some_iff.mp hphase
        cases heq
        obtain ⟨op, k, a, rfl, hx, rfl⟩ := Coro.step_eq_some hp
        exact ⟨h.2 a, op, a, hx, h.1⟩
      | cleanup conn p =>
        obtain ⟨⟨p', w₁⟩, hp, heq⟩ := Option.map_eq_some_iff.mp hphase
        cases heq
        obtain ⟨op, k, a, rfl, hx, rfl⟩ := Coro.step_eq_some hp
        exact ⟨h.2 a, op, a, hx, h.1⟩
    obtain ⟨hprograms, op, r, hx, hsays⟩ := hnext
    exact ⟨Phase.speaks_settle hprograms, rfl, op, r, hx, .inr ⟨u, username, rfl, hsays⟩⟩

theorem Session.speaks_receive {ses ses' : Session} {conn : ConnId} {frame : Frame}
    (hs : ses.receive env conn w frame = (ses', w')) :
    (Task.session ses').Speaks env ∧
      (Task.session ses').identity = (Task.session ses).identity := by
  cases frame with
  | json data =>
    cases hs
    have hphase : (Phase.handling conn (some data) (Chat.handleFrame env ses.userId ses.username
        data)).Programs fun {_} p => p.All (Op.Says env ses.userId ses.username) := says_handleFrame
    exact ⟨Phase.speaks_settle hphase, rfl⟩
  | notJson =>
    cases hs
    exact ⟨all_sendToUser fun _ hop => hop.silent.says, rfl⟩
  | binary =>
    cases hs
    exact ⟨says_cleanup, rfl⟩
  | disconnect =>
    cases hs
    exact ⟨says_cleanup, rfl⟩

end Tasks

/-! ## The log -/

/-- Every task speaks for its user alone, and so has whoever has published anything. -/
structure System.Attributed (env : Env) (s : System) : Prop where
  tasks : ∀ (i : TaskId) t, s.tasks[i]? = some t → t.Speaks env
  log : ∀ e ∈ s.world.redis.published, ∃ (i : TaskId) (t : Task) (u : UserId) (username : String)
    (kind : String) (m : WSOutboundMessage), s.tasks[i]? = some t ∧
      t.identity = some (u, username) ∧ e.2 = envelope kind m ∧ Said env u username e.1 kind m

section Runs

variable {env : Env} {s s' : System} {l : Label}

/-- A task keeps its place, and its user. -/
theorem System.identity_step (hspeaks : ∀ (i : TaskId) t, s.tasks[i]? = some t → t.Speaks env)
    (hs : s.step env l = some s') {i : TaskId} {t : Task} (hi : s.tasks[i]? = some t) :
    ∃ t', s'.tasks[i]? = some t' ∧ t'.identity = t.identity := by
  have hlt : i < s.tasks.length := (List.getElem?_eq_some_iff.mp hi).1
  have hspawn : ∀ {u : Task}, (s.tasks ++ [u])[i]? = some t := by
    intro u
    rw [List.getElem?_append_left hlt]
    exact hi
  have hset : ∀ {j : TaskId} {t₀ t' : Task}, s.tasks[j]? = some t₀ → t'.identity = t₀.identity →
      ∃ u, (s.tasks.set j t')[i]? = some u ∧ u.identity = t.identity := by
    intro j t₀ t' hj hid
    by_cases hij : i = j
    · subst hij
      rw [hi] at hj
      cases hj
      exact ⟨t', List.getElem?_set_self hlt, hid⟩
    · exact ⟨t, (List.getElem?_set_ne (Ne.symm hij)).trans hi, rfl⟩
  cases System.moves hs with
  | run hj ht htasks =>
    rw [htasks]
    exact hset hj (Task.speaks_step (hspeaks _ _ hj) ht).2.1
  | receive hj hphase hses htasks =>
    rw [htasks]
    exact hset hj (Session.speaks_receive hses).2
  | connect _ htasks | request _ htasks | force htasks =>
    rw [htasks]
    exact ⟨t, hspawn, rfl⟩
  | background _ htasks =>
    rw [htasks]
    exact ⟨t, hi, rfl⟩

theorem System.speaks_step (h : ∀ (i : TaskId) t, s.tasks[i]? = some t → t.Speaks env)
    (hs : s.step env l = some s') (i : TaskId) (t : Task) (hi : s'.tasks[i]? = some t) :
    t.Speaks env := by
  cases System.moves hs with
  | run hj ht htasks =>
    rw [htasks] at hi
    rcases getElem?_replace hi with ⟨-, hi⟩ | ⟨rfl, rfl⟩
    · exact h i t hi
    · exact (Task.speaks_step (h _ _ hj) ht).1
  | receive hj hphase hses htasks =>
    rw [htasks] at hi
    rcases getElem?_replace hi with ⟨-, hi⟩ | ⟨rfl, rfl⟩
    · exact h i t hi
    · exact (Session.speaks_receive hses).1
  | connect _ htasks =>
    rw [htasks] at hi
    rcases getElem?_spawn hi with hi | ⟨-, rfl⟩
    · exact h i t hi
    · exact all_connect trivial trivial (fun _ => trivial) (fun _ _ => trivial) (fun _ => trivial)
        fun _ => trivial
  | request _ htasks =>
    rw [htasks] at hi
    rcases getElem?_spawn hi with hi | ⟨-, rfl⟩
    · exact h i t hi
    · exact all_request fun _ => trivial
  | force htasks =>
    rw [htasks] at hi
    rcases getElem?_spawn hi with hi | ⟨-, rfl⟩
    · exact h i t hi
    · exact all_forceDisconnect trivial (fun _ => trivial) trivial trivial
  | background _ htasks =>
    rw [htasks] at hi
    exact h i t hi

theorem System.attributed_step (h : s.Attributed env) (hs : s.step env l = some s') :
    s'.Attributed env := by
  refine ⟨System.speaks_step h.tasks hs, fun e he => ?_⟩
  have hold : e ∈ s.world.redis.published → ∃ (i : TaskId) (t : Task) (u : UserId)
      (username : String) (kind : String) (m : WSOutboundMessage), s'.tasks[i]? = some t ∧
        t.identity = some (u, username) ∧ e.2 = envelope kind m ∧
          Said env u username e.1 kind m := by
    intro he
    obtain ⟨i, t, u, username, kind, m, hi, hid, hsaid⟩ := h.log e he
    obtain ⟨t', hi', hid'⟩ := System.identity_step h.tasks hs hi
    exact ⟨i, t', u, username, kind, m, hi', hid'.trans hid, hsaid⟩
  by_cases hl : ∃ i x, l = .run i x
  · obtain ⟨i, x, rfl⟩ := hl
    cases System.moves hs with
    | background hl _ => exact absurd hl id
    | run hi ht htasks =>
      obtain ⟨-, hid', op, r, hx, hsays⟩ := Task.speaks_step (h.tasks i _ hi) ht
      rcases Op.exec_published hx with hsame | ⟨channel, message, rfl, hworld⟩
      · rw [hsame] at he
        exact hold he
      · rw [hworld] at he
        rcases List.mem_append.mp he with he | he
        · exact hold he
        · -- the new entry is the session's own
          rw [List.mem_singleton.mp he]
          rcases hsays with hsilent | ⟨u, username, hid, kind, m, heq, hsaid⟩
          · exact absurd hsilent id
          · refine ⟨i, _, u, username, kind, m, ?_, hid'.trans hid, heq, hsaid⟩
            rw [htasks]
            exact List.getElem?_set_self (List.getElem?_eq_some_iff.mp hi).1
  · rw [(System.stores_env (fun i x he => hl ⟨i, x, he⟩) hs).2] at he
    exact hold he

/-- **In every run** what has been published was published by the session of the user it names. -/
theorem System.attributed_reach {C : System → Label → Prop} {ts : Tables}
    (hr : Reach (System.step env) C (.init ts) s) : s.Attributed env := by
  have hinit : (System.init ts).Attributed env :=
    ⟨fun i t hi => (by cases hi), fun e he => (by cases he)⟩
  exact hr.invariant hinit fun _ _ _ h _ hs => System.attributed_step h hs

end Runs

/-! ## On the sockets -/

/-- What the callback makes of a message of a session, and whom it leaves out. -/
theorem handler_said {env : Env} {u : UserId} {username kind : String} {channel : Channel}
    {m : WSOutboundMessage} (h : Said env u username channel kind m) :
    Chat.roomMessageHandler (envelope kind m) =
      .ok (some (m, if kind = "typing" then some u else none)) := by
  cases h with
  | chat => rfl
  | presence _ => rfl
  | typing => rfl

/-- A typing indicator names who types. -/
theorem Said.of_typing {env : Env} {u v : UserId} {username name kind : String} {channel : Channel}
    {m : WSOutboundMessage} {room_id : Json} {is_typing : Bool}
    (h : Said env v username channel kind m) (hm : m = .typingIndicator room_id u name is_typing) :
    kind = "typing" ∧ v = u := by
  have hevent : m.event = "typing" := congrArg WSOutboundMessage.event hm
  cases h with
  | chat => exact absurd hevent (by simp [WSOutboundMessage.chatMessage])
  | presence _ => exact absurd hevent (by simp [WSOutboundMessage.presenceUpdate])
  | typing =>
    simp only [WSOutboundMessage.typingIndicator, WSOutboundMessage.mk.injEq, List.cons.injEq,
      Prod.mk.injEq, Json.str.injEq, true_and] at hm
    exact ⟨rfl, hm.2.1⟩

/-- An entry of a channel's log was published on it. -/
theorem mem_published {r : Redis} {channel : Channel} {n : Nat} {message : Json}
    (h : (r.log channel)[n]? = some message) : (channel, message) ∈ r.published := by
  obtain ⟨e, he, heq⟩ := List.mem_map.mp (List.mem_of_getElem? h)
  obtain ⟨hmem, hchannel⟩ := List.mem_filter.mp he
  rw [← of_decide_eq_true hchannel, ← heq]
  exact hmem

/-- What has come over a channel was said there by the user of a task. -/
theorem said_of_passed {env : Env} {ts : Tables} {s : System}
    (hr : Reach (System.step env) Always (.init ts) s) {srv : ServerId} {c : ConnId} {d : Delivery}
    (hd : d ∈ ((s.world.servers srv).manager.heap c).passed) {channel : Channel} {n : Nat}
    (hsource : d.source = some (channel, n)) :
    ∃ (i : TaskId) (t : Task) (u : UserId) (username kind : String), s.tasks[i]? = some t ∧
      t.identity = some (u, username) ∧
        (s.world.redis.log channel)[n]? = some (envelope kind d.message) ∧
          Said env u username channel kind d.message := by
  obtain ⟨message, exclude_user, hlog, hhandler⟩ :=
    (inOrder_reach hr srv).fromLog c d hd channel n hsource
  obtain ⟨i, t, u, username, kind, m, hi, hid, rfl, hsaid⟩ :=
    (System.attributed_reach hr).log _ (mem_published hlog)
  rw [handler_said hsaid] at hhandler
  obtain ⟨rfl, -⟩ := Prod.mk.inj (Option.some.inj (Except.ok.inj hhandler))
  exact ⟨i, t, u, username, kind, hi, hid, hlog, hsaid⟩

/-- A payload of a channel is not one the callback keeps from the user. -/
def Delivery.Meant (log : Channel → List Json) (u : UserId) (d : Delivery) : Prop :=
  ∀ channel n message m exclude_user, d.source = some (channel, n) →
    (log channel)[n]? = some message →
      Chat.roomMessageHandler message = .ok (some (m, exclude_user)) → exclude_user ≠ some u

/-- The queue of a connection has been passed by what is meant for its user alone. -/
def World.Meant (w : World) : Prop :=
  ∀ srv c, ∀ d ∈ ((w.servers srv).manager.heap c).passed,
    d.Meant w.redis.log ((w.servers srv).manager.heap c).userId

section Meant

variable {env : Env} {w w' : World} {srv : ServerId} {m : ConnectionManager Delivery} {c : ConnId}

/-- A connection keeps its user, or is new and has been sent nothing. -/
theorem owner_or_new {maxsize : Nat} {me : TaskId} {o : ManagerOp Delivery} :
    ((o.after maxsize me m).heap c).userId = (m.heap c).userId ∨
      ((o.after maxsize me m).heap c).passed = [] := by
  have hregister : ∀ {n : ConnectionManager Delivery} {u : UserId} {name : String},
      ((n.register u name).heap c).userId = (n.heap c).userId ∨
        ((n.register u name).heap c).passed = [] := by
    intro n u name
    rw [heap_register]
    split
    · exact .inr rfl
    · exact .inl rfl
  cases o with
  | connectLocked u name =>
    simp only [ManagerOp.after]
    split
    · exact .inl rfl
    · exact hregister
  | replace old u name =>
    have hforce : ((m.forceCleanup old).heap c).userId = (m.heap c).userId :=
      congrArg Prod.snd identity_forceCleanup
    rw [← hforce]
    exact hregister
  | accept | clientState | sendText | rooms | unlock => exact .inl rfl
  | close c₀ =>
    refine .inl ?_
    rw [ManagerOp.after, heap_closeSocket]
    split
    · rename_i heq
      rw [heq]
    · rfl
  | forceCleanup c₀ => exact .inl (congrArg Prod.snd identity_forceCleanup)
  | disconnectLocked u => exact .inl (congrArg Prod.snd identity_unregister)
  | joinRoom u r => exact .inl (congrArg Prod.snd identity_joinRoom)
  | leaveRoom u r => exact .inl (congrArg Prod.snd identity_leaveRoom)
  | sendToUser u p => exact .inl (congrArg Prod.snd identity_sendToUser)

/-- A broadcast queues its payload for the users it does not leave out. -/
theorem owner_broadcastToRoom {maxsize : Nat} {room_id : RoomId} {payload : Delivery}
    {exclude_user : Option UserId} (h : m.Owned) :
    (m.broadcastToRoom maxsize room_id payload exclude_user).heap c = m.heap c ∨
      exclude_user ≠ some (m.heap c).userId := by
  rw [broadcastToRoom, heap_deliverAll h ((m.getRoomUserIds room_id).nodup.filter _)]
  split
  · rename_i hto
    obtain ⟨u, hu, hget⟩ := List.any_eq_true.mp (Bool.and_eq_true_iff.mp hto).1
    rw [(h u c (of_decide_eq_true hget)).1]
    exact .inr (of_decide_eq_true (List.mem_filter.mp hu).2).symm
  · exact .inl rfl

/-- Nothing of a channel is queued. -/
theorem meant_setManager (h : w.Meant)
    (hm : ∀ c, ((m.heap c).userId = ((w.servers srv).manager.heap c).userId ∨
      (m.heap c).passed = []) ∧ Loses ((w.servers srv).manager.heap c).passed (m.heap c).passed) :
    (w.setManager srv m).Meant := by
  intro other c d hd
  rw [World.manager_setManager] at hd ⊢
  split at hd
  · rename_i ho
    rw [if_pos ho]
    obtain ⟨howner, hloses⟩ := hm c
    rcases howner with howner | hnew
    · rcases hloses.mem hd with hold | hnone
      · rw [howner]
        exact h srv c d hold
      · intro channel n message m' exclude_user hsource
        rw [hnone] at hsource
        cases hsource
    · rw [hnew] at hd
      cases hd
  · rename_i ho
    rw [if_neg ho]
    exact h other c d hd

theorem meant_publish {received : ServerId → PubSubId → Bool} {channel : Channel} {message : Json}
    (horder : w.InOrder) (h : w.Meant) : (w.publish received channel message).Meant := by
  intro other c d hd channel' n message' m' exclude_user hsource hlog hhandler
  have hd : d ∈ ((w.servers other).manager.heap c).passed := hd
  obtain ⟨old, -, hold, -⟩ := (horder other).fromLog c d hd channel' n hsource
  -- what has been delivered stays where it is in the log
  have hsame : ((w.publish received channel message).redis.log channel')[n]? = some old :=
    World.getElem?_publish hold
  rw [hlog] at hsame
  cases hsame
  exact h other c d hd channel' n message' m' exclude_user hsource hold hhandler

theorem meant_exec {me : TaskId} {op : Op} {x : Choice} {r : Except Exn op.Resp}
    (hop : op.Issued) (horder : w.InOrder) (h : w.Meant)
    (hx : op.exec env srv me x w = some (r, w')) : w'.Meant := by
  cases op with
  | manager o =>
    obtain ⟨-, rfl⟩ := Op.world_manager hx
    exact meant_setManager h fun c => ⟨owner_or_new, loses_after hop⟩
  | broker o =>
    cases hx
    intro other c d hd
    rw [World.manager_setBroker] at hd ⊢
    exact h other c d hd
  | db o =>
    obtain ⟨d, -, rfl⟩ := Op.exec_dbOp hx
    exact h
  | redis o =>
    cases hx
    split
    · intro other c d hd
      have hlog : (w.redis.after o).log = w.redis.log := by
        funext channel
        simp only [Redis.log, Redis.published_after]
      show d.Meant (w.redis.after o).log _
      rw [hlog]
      exact h other c d hd
    · exact h
  | publish channel message =>
    cases hx
    split
    · exact meant_publish horder h
    · exact h
  | sleep => cases hx; exact h
  | time => cases hx; exact h

theorem meant_setBroker {b : RedisBroker} (h : w.Meant) : (w.setBroker srv b).Meant := by
  intro other c d hd
  rw [World.manager_setBroker] at hd ⊢
  exact h other c d hd

/-- The listener hands a message to the callback, which leaves out whom it names. -/
theorem meant_listen {e : RedisBroker.ListenerEvent} (horder : w.InOrder) (h : w.Meant)
    (hs : w.listen env srv e = some w') : w'.Meant := by
  obtain ⟨⟨b, yielded⟩, hstep, rfl⟩ := Option.map_eq_some_iff.mp hs
  obtain ⟨-, hwaiting⟩ := RedisBroker.listenerStep_waiting (horder srv).tuned hstep
  cases yielded with
  | none => exact meant_setBroker h
  | some yielded =>
    obtain ⟨channel, n, data⟩ := yielded
    have hlog : (w.redis.log channel)[n]? = some data :=
      (horder srv).inbox channel n data (hwaiting.1 ▸ List.mem_cons_self ..)
    show ((w.setBroker srv b).dispatchMessage env srv channel n data).Meant
    unfold World.dispatchMessage
    split
    · rename_i room_id outbound exclude_user _ hhandler
      have howned : ((w.setBroker srv b).servers srv).manager.Owned := by
        rw [World.manager_setBroker]
        exact (horder srv).owned
      have hbefore : (w.setBroker srv b).Meant := meant_setBroker h
      intro other c d hd
      rw [World.manager_setManager] at hd ⊢
      split at hd
      · rename_i ho
        have howner : ((((w.setBroker srv b).servers srv).manager.broadcastToRoom
            env.maxSendQueueSize room_id { message := outbound, source := some (channel, n) }
              exclude_user).heap c).userId =
                (((w.setBroker srv b).servers srv).manager.heap c).userId :=
          congrArg Prod.snd identity_broadcastToRoom
        rw [if_pos ho, howner]
        rcases passed_broadcastToRoom howned c with he | he
        · rw [he] at hd
          exact hbefore srv c d hd
        · rw [he, passed_enqueue] at hd
          rcases List.mem_append.mp hd with hd | hd
          · exact hbefore srv c d hd
          · rw [List.mem_singleton.mp hd]
            intro channel' n' message m' exclude hsource hmessage hhandler'
            cases hsource
            rw [show (w.redis.log channel)[n]? = some message from hmessage] at hlog
            cases hlog
            rw [hhandler] at hhandler'
            cases hhandler'
            rcases owner_broadcastToRoom (c := c) howned with hsame | hout
            · -- the queue has grown, so the connection was not left out
              rw [he] at hsame
              exact absurd (congrArg WebSocketConnection.sendQueue hsame) (by simp)
            · exact hout
      · rename_i ho
        rw [if_neg ho]
        exact hbefore other c d hd
    · exact meant_setBroker h

theorem meant_env {s s' : System} {l : Label} (hl : ∀ i x, l ≠ .run i x)
    (hs : s.step env l = some s') (horder : s.world.InOrder) (h : s.world.Meant) :
    s'.world.Meant := by
  rcases System.env_cases hl hs with he | ⟨srv, m, he, hm⟩ | ⟨srv, e, -, he⟩
  · rw [he]
    exact h
  · rw [he]
    exact meant_setManager h fun c => ⟨.inl ((sameSessions_event hm).owner c), loses_event hm⟩
  · exact meant_listen horder h he

end Meant

theorem meant_reach {env : Env} {ts : Tables} {s : System}
    (hr : Reach (System.step env) Always (.init ts) s) : s.world.Meant := by
  have hinit : (World.init ts).Meant := fun srv c d hd => by cases hd
  have hsound : (worldly (fun w => w.InOrder ∧ w.Meant) fun _ _ => True).Sound env Always :=
    worldly_sound (fun hop _ h hx => ⟨inOrder_exec hop h.1 hx, meant_exec hop h.1 h.2 hx⟩)
      (fun _ _ _ => trivial) (fun hl _ hs h => ⟨inOrder_env hl hs h.1, meant_env hl hs h.1 h.2⟩)
  exact (hsound.inv_reach (Discipline.inv_init ⟨inOrder_init, hinit⟩ fun _ => trivial) hr).good.2

/-- **Nobody is told that he types**: a typing indicator that passes the send queue of a connection
and came over a channel names another user than the connection's own, whatever the sessions of the
two have done since it was published. -/
theorem System.never_echoed {env : Env} {ts : Tables} {s : System}
    (hr : Reach (System.step env) Always (.init ts) s) {srv : ServerId} {c : ConnId} {d : Delivery}
    (hd : d ∈ ((s.world.servers srv).manager.heap c).passed) {channel : Channel} {n : Nat}
    (hsource : d.source = some (channel, n)) {room_id : Json} {u : UserId} {username : String}
    {is_typing : Bool} (htyping : d.message = .typingIndicator room_id u username is_typing) :
    u ≠ ((s.world.servers srv).manager.heap c).userId := by
  rintro rfl
  obtain ⟨i, t, v, name, kind, -, -, hlog, hsaid⟩ := said_of_passed hr hd hsource
  have hout := meant_reach hr srv c d hd channel n _ _ _ hsource hlog (handler_said hsaid)
  obtain ⟨rfl, huser⟩ := hsaid.of_typing htyping
  rw [if_pos rfl, huser] at hout
  exact hout rfl

/-- User 1 is in room 3, and user 2 types there. -/
def System.typistAndListener : List Label :=
  enters 0 0 ++ handles 0 (about "join_room" []) 15 ++
    .connect 0 "00000000-0000-0000-0000-000000000002" "u2" :: goes 1 3 ++
    handles 1 (about "typing_start" []) 3 ++ .listener 0 .begin :: hears 0 2

/-- User 1 is told that user 2 types, who is somebody else. -/
theorem System.never_echoed_others : ∃ s d room_id username is_typing,
    replay (System.step .sample) System.typistAndListener (.init .sample) = some s ∧
      d ∈ ((s.world.servers 0).manager.heap 0).passed ∧
      d.message = .typingIndicator room_id "00000000-0000-0000-0000-000000000002" username
        is_typing ∧
      "00000000-0000-0000-0000-000000000002" ≠ ((s.world.servers 0).manager.heap 0).userId := by
  have hrun : ((replay (System.step .sample) System.typistAndListener (.init .sample)).any fun s =>
      ((s.world.servers 0).manager.heap 0).passed.any fun d =>
        decide (d.source = some (System.roomThree, 1)) && decide (d.message.event = "typing") &&
          Json.sameFields d.message.data (WSOutboundMessage.typingIndicator
            (.str "00000000-0000-0000-0000-000000000003") "00000000-0000-0000-0000-000000000002"
              "u2" true).data) = true := by
    decide +kernel
  obtain ⟨s, hs, hany⟩ := (Option.any_eq_true _ _).mp hrun
  obtain ⟨d, hd, htest⟩ := List.any_eq_true.mp hany
  obtain ⟨htest, hdata⟩ := (Bool.and_eq_true _ _).mp htest
  obtain ⟨hsource, hevent⟩ := (Bool.and_eq_true _ _).mp htest
  have hmessage : d.message = .typingIndicator (.str "00000000-0000-0000-0000-000000000003")
      "00000000-0000-0000-0000-000000000002" "u2" true := by
    obtain ⟨⟨event, data⟩, source⟩ := d
    exact congr (congrArg _ (of_decide_eq_true hevent)) (Json.eq_of_sameFields hdata)
  exact ⟨s, d, _, _, _, hs, hd, hmessage,
    System.never_echoed (.of_replay .init hs) hd (of_decide_eq_true hsource) hmessage⟩

end NexusChat
