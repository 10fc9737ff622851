import NexusChat.App.AtRest
import NexusChat.Api.Backing

/-!
# What is stored is sent

A message is committed before it is published, and the publish may be refused three times. Between
the commit and the publish the message is a duty of the task that has stored it: the task publishes
it, or has it put on the dead letter queue, before it does anything else. So every message that has
been stored is on its room's channel, has been set aside on the dead letter queue, or is still a
duty of a task that goes on (`System.stored_sent`).
-/

set_option autoImplicit false

namespace NexusChat

open Chat

/-- The payload by which a stored message is sent, and the channel it is sent on. -/
def MessageRow.SentAs (env : Env) (m : MessageRow) (channel : Channel) (message : Json) : Prop :=
  ∃ room sender username user, channel = "room:" ++ room ∧ env.uuid room = some m.roomId ∧
    env.uuid sender = some user ∧ m.senderId = some user ∧
    message = envelope "chat" (.chatMessage (env.uuidStr m.id) (.str room) sender username
      m.content "text" (env.isoformat m.createdAt))

theorem Chat.MessageData.IsRow.sentAs {env : Env} {u : UserId} {username : String}
    {d : MessageData} {m : MessageRow} (h : d.IsRow env u m) :
    m.SentAs env (roomChannel env d.roomId) (envelope "chat" (chatPayload env u username d m)) := by
  obtain ⟨room, hroom, hr⟩ := parseUuid_eq_ok h.room
  obtain ⟨user, huser, hs⟩ := h.sender
  obtain ⟨sender, hsender, hu⟩ := parseUuid_eq_ok huser
  cases hsender
  refine ⟨room, u, username, user, ?_, hr, hu, hs, ?_⟩
  · rw [roomChannel, hroom]
    rfl
  · rw [chatPayload, hroom, h.content]

/-- The payload names the message. -/
def MessageRow.NamedBy (env : Env) (m : MessageRow) (message : Json) : Prop :=
  ∃ room_id sender_id sender_username content message_type created_at,
    message = envelope "chat" (.chatMessage (env.uuidStr m.id) room_id sender_id sender_username
      content message_type created_at)

theorem MessageRow.SentAs.named {env : Env} {m : MessageRow} {channel : Channel} {message : Json}
    (h : m.SentAs env channel message) : m.NamedBy env message := by
  obtain ⟨room, sender, username, user, -, -, -, -, he⟩ := h
  exact ⟨.str room, sender, username, m.content, "text", env.isoformat m.createdAt, he⟩

/-! ## The duty of a task -/

/-- What a task has stored and not sent yet, or is to send again. -/
inductive Duty where
  | nothing
  /-- a message that its transaction has flushed -/
  | flushed (m : MessageRow)
  /-- a message that is committed -/
  | owed (m : MessageRow)
  /-- a message that was there before, with the key of the one to be stored -/
  | found (m : MessageRow)

/-- What the operations are answered: a stored message is the one that was to be stored, and one
found by its key has the key. -/
def Op.Replied : (op : Op) → Except Exn op.Resp → Prop
  | .db (.insertMessage room_id sender_id content _ _), r =>
    ∀ m : MessageRow, r = .ok m →
      m.roomId = room_id ∧ m.senderId = some sender_id ∧ m.content = content
  | .db (.selectMessageByKey key), r =>
    ∀ m : MessageRow, r = .ok (some m) → ∃ k, key = .str k ∧ m.idempotencyKey = some k
  | .db .rollback, r => ∃ a, r = .ok a
  | .time, r => ∃ a, r = .ok a
  | .sleep, r => ∃ a, r = .ok a
  | _, _ => True

/-- The operations that neither store a message nor publish one. -/
def Op.Keeping : Op → Prop
  | .db (.insertMessage _ _ _ _ _) => False
  | .publish _ message => ∀ payload, message ≠ envelope "chat" payload
  | _ => True

/-- How an operation, answered `r`, changes the duty of its task. -/
inductive Duty.Moves (env : Env) : Duty → (op : Op) → Except Exn op.Resp → Duty → Prop where
  | keeping {op : Op} {r : Except Exn op.Resp} :
      op.Keeping → Duty.Moves env .nothing op r .nothing
  | stores {room_id sender_id : Uuid} {content : String} {message_type : MessageType} {key : Json}
      {m : MessageRow} : Duty.Moves env .nothing
        (.db (.insertMessage room_id sender_id content message_type key)) (.ok m) (.flushed m)
  | refused {room_id sender_id : Uuid} {content : String} {message_type : MessageType} {key : Json}
      {e : Exn} : Duty.Moves env .nothing
        (.db (.insertMessage room_id sender_id content message_type key)) (.error e) .nothing
  | refresh {m : MessageRow} {r : Except Exn Unit} :
      Duty.Moves env (.flushed m) (.db .refresh) r (.flushed m)
  | commits {m : MessageRow} : Duty.Moves env (.flushed m) (.db .commit) (.ok ()) (.owed m)
  | fails {m : MessageRow} {e : Exn} :
      Duty.Moves env (.flushed m) (.db .commit) (.error e) .nothing
  | rollsBack {m : MessageRow} {r : Except Exn Unit} :
      Duty.Moves env (.flushed m) (.db .rollback) r .nothing
  /-- the session is closed after the commit -/
  | closes {m : MessageRow} {r : Except Exn Unit} :
      Duty.Moves env (.owed m) (.db .rollback) r (.owed m)
  | sends {m : MessageRow} {channel : Channel} {message : Json} : m.SentAs env channel message →
      Duty.Moves env (.owed m) (.publish channel message) (.ok ()) .nothing
  | missed {m : MessageRow} {channel : Channel} {message : Json} {e : Exn} :
      m.SentAs env channel message →
        Duty.Moves env (.owed m) (.publish channel message) (.error e) (.owed m)
  | sleeps {m : MessageRow} {r : Except Exn Unit} : Duty.Moves env (.owed m) .sleep r (.owed m)
  | time {m : MessageRow} {r : Except Exn Time} : Duty.Moves env (.owed m) .time r (.owed m)
  | setsAside {m : MessageRow} {entry : DeadLetter} {r : Except Exn Unit} :
      m.SentAs env entry.originalChannel entry.message →
        Duty.Moves env (.owed m) (.redis (.lpush entry)) r .nothing
  | finds {k : String} {m : MessageRow} : m.idempotencyKey = some k →
      Duty.Moves env .nothing (.db (.selectMessageByKey (.str k))) (.ok (some m)) (.found m)
  /-- what is found is not owed to anybody -/
  | lets {m : MessageRow} {op : Op} {r : Except Exn op.Resp} {h : Duty} : op.Keeping →
      h = .found m ∨ h = .nothing → Duty.Moves env (.found m) op r h
  | resends {m : MessageRow} {channel : Channel} {message : Json} {r : Except Exn Unit} {h : Duty} :
      m.NamedBy env message → h = .found m ∨ h = .nothing →
        Duty.Moves env (.found m) (.publish channel message) r h

/-- What the tasks owe, as a protocol. -/
abbrev sending (env : Env) : Protocol := ⟨Duty, .nothing, Op.Replied, Duty.Moves env⟩

section Programs

variable {env : Env} {α β : Type} {u : UserId} {username : String} {m : MessageRow}

theorem Op.Quiet.keeping {op : Op} (hop : op.Quiet) : op.Keeping := by
  cases op with
  | db o => exact absurd hop id
  | publish channel message => exact absurd hop id
  | _ => trivial

theorem keeping_publish {channel : Channel} {kind : String} {payload : WSOutboundMessage}
    (h : kind ≠ "chat") : Op.Keeping (.publish channel (envelope kind payload)) :=
  fun _ he => h (envelope_inj.mp he).1

theorem keeps_of_all {p : Prog α} (hp : p.All Op.Keeping) : (sending env).Keeps .nothing p :=
  Coro.follows_of_all (S := Op.sig) (fun _ hop _ => .keeping hop) hp fun _ => rfl

theorem keeps_bind {p : Prog α} {f : α → Prog β} (hp : p.All Op.Keeping)
    (hf : ∀ a, (sending env).Keeps .nothing (f a)) : (sending env).Keeps .nothing (p >>= f) :=
  Coro.follows_bind_of_all (S := Op.sig) (fun _ hop _ => .keeping hop) hp hf fun _ => rfl

/-! ### Publishing -/

/-- From here a message is sent or set aside, and stays in hand until then. -/
structure Duty.Sends (env : Env) (channel : Channel) (message : Json) (h : Duty) : Prop where
  sends : Duty.Moves env h (.publish channel message) (.ok ()) .nothing
  missed : ∀ e, Duty.Moves env h (.publish channel message) (.error e) h
  sleeps : ∀ r, Duty.Moves env h .sleep r h
  time : ∀ r, Duty.Moves env h .time r h
  setsAside : ∀ (entry : DeadLetter) r, entry.originalChannel = channel → entry.message = message →
    Duty.Moves env h (.redis (.lpush entry)) r .nothing

theorem sends_owed {channel : Channel} {message : Json} (hm : m.SentAs env channel message) :
    Duty.Sends env channel message (.owed m) where
  sends := .sends hm
  missed _ := .missed hm
  sleeps _ := .sleeps
  time _ := .time
  setsAside entry r hchannel hmessage := .setsAside (by rw [hchannel, hmessage]; exact hm)

theorem sends_found {channel : Channel} {message : Json} (hm : m.NamedBy env message) :
    Duty.Sends env channel message (.found m) where
  sends := .resends hm (.inr rfl)
  missed _ := .resends hm (.inl rfl)
  sleeps _ := .lets trivial (.inl rfl)
  time _ := .lets trivial (.inl rfl)
  setsAside _ _ _ _ := .lets trivial (.inr rfl)

/-- After the last attempt the message is set aside. -/
theorem keeps_publishDeadLetter {channel : Channel} {message : Json} {error : Exn} {h : Duty}
    (hh : h.Sends env channel message) :
    (sending env).Keeps h (RedisBroker.publishDeadLetter channel message error) := by
  refine Coro.follows_perform (S := Op.sig) fun r hr => ⟨h, hh.time r, ?_⟩
  obtain ⟨now, rfl⟩ := hr
  refine Coro.follows_tryCatch (S := Op.sig) (Coro.follows_perform (S := Op.sig) fun r _ =>
    ⟨.nothing, hh.setsAside _ r rfl rfl, ?_⟩)
  cases r with
  | error e => rfl
  | ok _ =>
    refine Coro.follows_last (S := Op.sig) fun r _ => ⟨.nothing, .keeping trivial, ?_⟩
    cases r with
    | ok _ => rfl
    | error e => rfl

/-- **The attempts** to publish, as many as are left. -/
theorem keeps_publishAttempts {channel : Channel} {message : Json} {h : Duty}
    (hh : h.Sends env channel message) (left : Nat) :
    (sending env).Keeps h (RedisBroker.publishAttempts channel message (left + 1)) := by
  induction left with
  | zero =>
    refine Coro.follows_tryCatch (S := Op.sig) (Coro.follows_last (S := Op.sig) fun r _ => ?_)
    cases r with
    | ok _ => exact ⟨.nothing, hh.sends, rfl⟩
    | error e => exact ⟨h, hh.missed e, keeps_publishDeadLetter hh⟩
  | succ left ih =>
    refine Coro.follows_tryCatch (S := Op.sig) (Coro.follows_last (S := Op.sig) fun r _ => ?_)
    cases r with
    | ok _ => exact ⟨.nothing, hh.sends, rfl⟩
    | error e =>
      refine ⟨h, hh.missed e, Coro.follows_perform (S := Op.sig) fun r hr =>
        ⟨h, hh.sleeps r, ?_⟩⟩
      obtain ⟨_, rfl⟩ := hr
      exact ih

/-! ### Storing -/

/-- How `save_message` ends: the row is flushed, or there has been one with the key before. -/
def Duty.Saved (env : Env) (u : UserId) (d : MessageData) : Except Exn MessageRow → Duty → Prop
  | .ok m, h => h = .found m ∨ h = .flushed m ∧ d.IsRow env u m
  | .error _, h => h = .nothing ∨ ∃ m, h = .flushed m

/-- How the body of the session ends: the row is committed and the payload is built. -/
def Duty.Committed (env : Env) (u : UserId) (username : String) (d : MessageData) :
    Except Exn WSOutboundMessage → Duty → Prop
  | .ok payload, h => ∃ m, payload = chatPayload env u username d m ∧
      (h = .found m ∨ h = .owed m ∧ d.IsRow env u m)
  | .error _, h => h = .nothing ∨ ∃ m, h = .flushed m

/-- How the session ends: nothing is left of a body that has raised. -/
def Duty.Closed (env : Env) (u : UserId) (username : String) (d : MessageData) :
    Except Exn WSOutboundMessage → Duty → Prop
  | .ok payload, h => Duty.Committed env u username d (.ok payload) h
  | .error _, h => h = .nothing

theorem follows_saveMessage {d : MessageData} {room sender : Uuid}
    (hroom : env.parseUuid d.roomId = .ok room) (hsender : env.parseUuid (.str u) = .ok sender) :
    (MessageService.saveMessage dbOp room sender d.content .text d.idempotencyKey :
      Prog MessageRow).Follows (S := Op.sig) Op.Replied (Duty.Moves env) (Duty.Saved env u d)
        .nothing := by
  have hins : (MessageService.saveMessage.insert dbOp room sender d.content .text
      d.idempotencyKey : Prog MessageRow).Follows (S := Op.sig) Op.Replied (Duty.Moves env)
        (Duty.Saved env u d) .nothing := by
    refine Coro.follows_perform (S := Op.sig) fun r hr => ?_
    cases r with
    | error e => exact ⟨.nothing, .refused, .inl rfl⟩
    | ok m =>
      obtain ⟨hin, hof, hcontent⟩ := hr m rfl
      refine ⟨.flushed m, .stores, Coro.follows_perform (S := Op.sig) fun r _ =>
        ⟨.flushed m, .refresh, ?_⟩⟩
      cases r with
      | error e => exact .inr ⟨m, rfl⟩
      | ok _ => exact .inr ⟨rfl, hin ▸ hroom, ⟨sender, hsender, hof⟩, hcontent⟩
  unfold MessageService.saveMessage
  split
  · refine Coro.follows_perform (S := Op.sig) fun r hr => ?_
    cases r with
    | error e => exact ⟨.nothing, .keeping trivial, .inl rfl⟩
    | ok existing =>
      cases existing with
      | none => exact ⟨.nothing, .keeping trivial, hins⟩
      | some m =>
        obtain ⟨k, hkey, hm⟩ := hr m rfl
        rw [hkey]
        exact ⟨.found m, .finds hm, .inl rfl⟩
  · exact hins

theorem follows_storeIn {d : MessageData} {room sender : Uuid}
    (hroom : env.parseUuid d.roomId = .ok room) (hsender : env.parseUuid (.str u) = .ok sender) :
    (storeIn env u username d room sender).Follows (S := Op.sig) Op.Replied (Duty.Moves env)
      (Duty.Committed env u username d) .nothing := by
  refine Coro.follows_bind (S := Op.sig)
    (Coro.Follows.mono (fun r h hh => ?_) (follows_saveMessage hroom hsender))
  cases r with
  | error e => exact hh
  | ok m =>
    rcases hh with rfl | ⟨rfl, hrow⟩
    · refine Coro.follows_perform (S := Op.sig) fun r _ => ?_
      cases r with
      | error e => exact ⟨.nothing, .lets trivial (.inr rfl), .inl rfl⟩
      | ok _ => exact ⟨.found m, .lets trivial (.inl rfl), m, rfl, .inl rfl⟩
    · refine Coro.follows_perform (S := Op.sig) fun r _ => ?_
      cases r with
      | error e => exact ⟨.nothing, .fails, .inl rfl⟩
      | ok _ => exact ⟨.owed m, .commits, m, rfl, .inr ⟨rfl, hrow⟩⟩

/-- **The session** stores the message and commits it, or leaves nothing behind. -/
theorem follows_storeMessage {d : MessageData} :
    (storeMessage env u username d.roomId d.content d.idempotencyKey).Follows (S := Op.sig)
      Op.Replied (Duty.Moves env) (Duty.Closed env u username d) .nothing := by
  have hbody : (Coro.ofExcept (env.parseUuid d.roomId) >>= fun room =>
      Coro.ofExcept (env.parseUuid (.str u)) >>= fun sender =>
        storeIn env u username d room sender : Prog WSOutboundMessage).Follows (S := Op.sig)
      Op.Replied (Duty.Moves env) (Duty.Committed env u username d) .nothing := by
    cases hroom : env.parseUuid d.roomId with
    | error e => exact .inl rfl
    | ok room =>
      cases hsender : env.parseUuid (.str u) with
      | error e => exact .inl rfl
      | ok sender => exact follows_storeIn hroom hsender
  rw [storeMessage_eq]
  refine Coro.follows_bind (S := Op.sig) (Coro.follows_tryCatch (S := Op.sig)
    (Coro.Follows.mono (fun r h hh => ?_) hbody))
  cases r with
  | error e =>
    rcases hh with rfl | ⟨m, rfl⟩
    · refine Coro.follows_perform (S := Op.sig) fun r _ => ⟨.nothing, .keeping trivial, ?_⟩
      cases r with
      | error e => rfl
      | ok _ => rfl
    · refine Coro.follows_perform (S := Op.sig) fun r _ => ⟨.nothing, .rollsBack, ?_⟩
      cases r with
      | error e => rfl
      | ok _ => rfl
  | ok payload =>
    obtain ⟨m, he, rfl | ⟨rfl, hrow⟩⟩ := hh
    · refine Coro.follows_perform (S := Op.sig) fun r hr =>
        ⟨.found m, .lets trivial (.inl rfl), ?_⟩
      obtain ⟨_, rfl⟩ := hr
      exact ⟨m, he, .inl rfl⟩
    · refine Coro.follows_perform (S := Op.sig) fun r hr => ⟨.owed m, .closes, ?_⟩
      obtain ⟨_, rfl⟩ := hr
      exact ⟨m, he, .inr ⟨rfl, hrow⟩⟩

theorem keeps_handleMessage {event_data : Json} :
    (sending env).Keeps .nothing (handleMessage env u username event_data) := by
  have hquiet : ∀ op : Op, op.Quiet → op.Keeping := fun _ => Op.Quiet.keeping
  rw [handleMessage_eq]
  refine keeps_bind (Coro.all_ofExcept _) fun d => ?_
  unfold handleRead
  split
  · exact keeps_of_all (all_sendToUser hquiet)
  · split
    · exact keeps_of_all (all_sendToUser hquiet)
    · refine Coro.follows_bind (S := Op.sig) (Coro.Follows.mono (fun r h hh => ?_)
        follows_storeMessage)
      cases r with
      | error e => exact hh
      | ok payload =>
        obtain ⟨m, rfl, rfl | ⟨rfl, hrow⟩⟩ := hh
        · exact keeps_publishAttempts (sends_found ⟨_, _, _, _, _, _, rfl⟩) 2
        · exact keeps_publishAttempts (sends_owed hrow.sentAs) 2

theorem keeps_handleFrame {data : Json} :
    (sending env).Keeps .nothing (handleFrame env u username data) := by
  have hquiet : ∀ op : Op, op.Quiet → op.Keeping := fun _ => Op.Quiet.keeping
  rw [handleFrame_eq]
  refine keeps_bind (Coro.all_ofExcept _) fun event => keeps_bind (Coro.all_ofExcept _)
    fun event_data => keeps_bind (all_rateLimited hquiet) fun limited => ?_
  split
  · exact keeps_of_all (all_sendToUser hquiet)
  · apply dispatch_cases (P := fun p => (sending env).Keeps .nothing p)
    · intro _
      exact keeps_of_all (all_handleJoinRoom hquiet (fun _ _ => trivial) trivial (fun _ => trivial)
        (fun _ _ => trivial) (fun _ => trivial) fun _ => keeping_publish (by decide))
    · intro _
      exact keeps_of_all (all_handleLeaveRoom hquiet (fun _ _ => trivial)
        fun _ _ => keeping_publish (by decide))
    · exact fun _ => keeps_handleMessage
    · exact fun _ => keeps_of_all (all_handleTyping hquiet fun _ _ => keeping_publish (by decide))
    · exact fun _ => keeps_of_all (all_handleTyping hquiet fun _ _ => keeping_publish (by decide))
    · exact fun _ => keeps_of_all (all_sendToUser hquiet)

theorem sending_starts : (sending env).Starts env where
  connect _ _ := keeps_of_all (all_connect trivial trivial (fun _ => trivial)
    (fun _ _ => trivial) (fun _ => trivial) fun _ => trivial)
  frame _ _ _ := keeps_handleFrame
  send _ _ := keeps_of_all (all_sendToUser fun _ => Op.Quiet.keeping)
  cleanup _ _ _ := keeps_of_all (all_cleanup (fun _ => Op.Quiet.keeping)
    (fun _ => keeping_publish (by decide)) trivial (fun _ => trivial) trivial)
  request _ := keeps_of_all (all_request_ops fun op hop => by
    cases op with
    | insertMessage room_id sender_id content message_type key => exact hop
    | _ => trivial)
  force _ _ := keeps_of_all (all_forceDisconnect trivial (fun _ => trivial) trivial trivial)

end Programs

/-! ## What an operation does to what is stored -/

/-- Since `r₀` the message has been published on the channel of its room. -/
def MessageRow.SentSince (env : Env) (m : MessageRow) (r₀ r : Redis) : Prop :=
  ∃ n channel message, r₀.published.length ≤ n ∧ r.published[n]? = some (channel, message) ∧
    m.SentAs env channel message

/-- The message is on the dead letter queue. -/
def MessageRow.SetAside (env : Env) (m : MessageRow) (r : Redis) : Prop :=
  ∃ entry ∈ r.deadLetters, m.SentAs env entry.originalChannel entry.message

section Operations

variable {env : Env} {srv : ServerId} {me : TaskId} {x : Choice} {w w' : World} {op : Op}
  {r : Except Exn op.Resp} {h h' : Duty} {m : MessageRow}

theorem replied_exec (hx : op.exec env srv me x w = some (r, w')) : op.Replied r := by
  cases op with
  | db o =>
    obtain ⟨d, ho, -⟩ := Op.exec_dbOp hx
    cases o with
    | insertMessage room_id sender_id content message_type key =>
      rintro m rfl
      obtain ⟨hrow, -⟩ := DbOp.exec_insertMessage_ok ho
      obtain ⟨k, -, -, rfl, -, -, -⟩ := DbOp.messageRow_eq_ok.mp hrow
      exact ⟨rfl, rfl, rfl⟩
    | selectMessageByKey key =>
      rintro m rfl
      obtain ⟨k, hkey, -, hm, -⟩ := DbOp.exec_selectMessageByKey_ok ho
      exact ⟨k, hkey, hm⟩
    | rollback => exact ⟨(), (DbOp.exec_eq_some ho).1⟩
    | _ => trivial
  | sleep => cases hx; exact ⟨(), rfl⟩
  | time => cases hx; exact ⟨x.now, rfl⟩
  | _ => trivial

/-- Whoever stores no message has none flushed afterwards that was not before. -/
theorem keeping_flushed (hop : op.Keeping) (hx : op.exec env srv me x w = some (r, w'))
    (hmem : .addMessage m ∈ w'.db.flushed me) : .addMessage m ∈ w.db.flushed me := by
  rcases Op.exec_db hx with he | ⟨o, r', rfl, ho⟩
  · rw [← he]
    exact hmem
  · rcases DbOp.exec_cases ho with he | ⟨wr, hw, -, he⟩ | ⟨-, -, he⟩ | he
    · rw [← he]
      exact hmem
    · rw [he, Database.flushed_flush_self] at hmem
      rcases List.mem_append.mp hmem with hmem | hmem
      · exact hmem
      · obtain rfl := List.mem_singleton.mp hmem
        cases o with
        | insertMessage room_id sender_id content message_type key => exact absurd hop id
        | _ => exact absurd hw (by simp [DbOp.Writes])
    · rw [he, Database.flushed_commit_self] at hmem
      cases hmem
    · rw [he, Database.flushed_forget_self] at hmem
      cases hmem

/-- A message that a transaction has flushed is the duty of its task. -/
theorem Duty.Moves.flushed (hm : Duty.Moves env h op r h')
    (hx : op.exec env srv me x w = some (r, w'))
    (hold : ∀ m, .addMessage m ∈ w.db.flushed me → h = .flushed m) :
    ∀ m, .addMessage m ∈ w'.db.flushed me → h' = .flushed m := by
  intro m hmem
  have hnone : h ≠ .flushed m → .addMessage m ∉ w.db.flushed me := fun hne hm => hne (hold m hm)
  cases hm with
  | keeping hop => exact absurd (keeping_flushed hop hx hmem) (hnone (by simp))
  | lets hop _ => exact absurd (keeping_flushed hop hx hmem) (hnone (by simp))
  | finds _ =>
    refine absurd (keeping_flushed ?_ hx hmem) (hnone (by simp))
    trivial
  | stores =>
    obtain ⟨d, ho, rfl⟩ := Op.exec_dbOp hx
    obtain ⟨-, rfl⟩ := DbOp.exec_insertMessage_ok ho
    rw [Database.flushed_flush_self] at hmem
    rcases List.mem_append.mp hmem with hmem | hmem
    · exact absurd hmem (hnone (by simp))
    · cases List.mem_singleton.mp hmem
      rfl
  | refused =>
    obtain ⟨d, ho, rfl⟩ := Op.exec_dbOp hx
    have hd : d = w.db := by
      refine DbOp.after_refused (.inl ?_) ho
      trivial
    rw [hd] at hmem
    exact absurd hmem (hnone (by simp))
  | refresh =>
    refine hold m (keeping_flushed ?_ hx hmem)
    trivial
  | commits | fails | rollsBack | closes =>
    obtain ⟨d, ho, rfl⟩ := Op.exec_dbOp hx
    have hd : d.flushed me = [] := by
      refine DbOp.flushed_ends ?_ ho
      trivial
    rw [hd] at hmem
    cases hmem
  | sends | missed | sleeps | time | setsAside | resends =>
    rcases Op.exec_db hx with he | ⟨o, r', hop, -⟩
    · rw [he] at hmem
      exact absurd hmem (hnone (by simp))
    · cases hop

/-- A message that is committed now was before, or is owed from now on. -/
theorem Duty.Moves.stored (hm : Duty.Moves env h op r h')
    (hx : op.exec env srv me x w = some (r, w'))
    (hcommit : op = .db .commit → x.ok = false → x.executed = false)
    (hold : ∀ m, .addMessage m ∈ w.db.flushed me → h = .flushed m)
    (hmem : m ∈ w'.db.committed.messages) : m ∈ w.db.committed.messages ∨ h' = .owed m := by
  rcases Op.exec_db hx with he | ⟨o, r', rfl, ho⟩
  · exact .inl (he ▸ hmem)
  · rcases DbOp.mem_messages_of_exec ho hmem with hmem | hflushed
    · exact .inl hmem
    · obtain rfl := hold m hflushed
      cases hm with
      | commits => exact .inr rfl
      | refresh =>
        rw [(DbOp.exec_eq_some ho).2] at hmem
        exact .inl hmem
      | rollsBack =>
        rw [(DbOp.exec_eq_some ho).2] at hmem
        exact .inl hmem
      | fails =>
        -- a commit that fails has not been carried out
        obtain ⟨d, ho', rfl⟩ := Op.exec_dbOp hx
        obtain ⟨hr, rfl⟩ := DbOp.exec_eq_some ho'
        have hok : x.ok = false := by
          cases hok : x.ok with
          | false => rfl
          | true =>
            have hanswer : DbOp.answer x.db (w.db.view me) .commit = .ok () :=
              if_pos (show x.db.ok = true from hok)
            rw [hanswer] at hr
            cases hr
        have hforget : DbOp.after x.db me w.db .commit = w.db.forget me := by
          have hnot : (x.db.ok || x.db.executed) = false := by
            simp only [Choice.db, hok, hcommit rfl hok, Bool.or_false]
          simp only [DbOp.after, hnot, Bool.false_eq_true, if_false]
        rw [hforget] at hmem
        exact .inl hmem

/-- What is owed stays owed until it is sent or set aside. -/
theorem Duty.Moves.owed (hm : Duty.Moves env (.owed m) op r h')
    (hx : op.exec env srv me x w = some (r, w'))
    (hletter : ∀ entry, op = .redis (.lpush entry) → x.ok = true) :
    h' = .owed m ∨ m.SentSince env w.redis w'.redis ∨ m.SetAside env w'.redis := by
  cases hm with
  | closes | missed | sleeps | time => exact .inl rfl
  | sends hsent =>
    rename_i channel message
    simp only [Op.exec, Option.some.injEq, Prod.mk.injEq] at hx
    obtain ⟨hr, rfl⟩ := hx
    cases hok : x.ok with
    | false =>
      rw [hok] at hr
      cases hr
    | true =>
      refine .inr (.inl ⟨w.redis.published.length, channel, message, le_rfl, ?_, hsent⟩)
      simp [World.publish]
  | setsAside hsent =>
    simp only [Op.exec, Option.some.injEq, Prod.mk.injEq] at hx
    obtain ⟨-, rfl⟩ := hx
    refine .inr (.inr ⟨_, ?_, hsent⟩)
    simp [hletter _ rfl, Redis.after]

/-- What is published stays, and in its place. -/
theorem published_exec (hx : op.exec env srv me x w = some (r, w')) :
    w.redis.published <+: w'.redis.published := by
  rcases Op.exec_published hx with he | ⟨channel, message, -, rfl⟩
  · rw [he]
  · exact List.prefix_append _ _

theorem MessageRow.SentSince.mono {r₀ r r' : Redis} (hm : m.SentSince env r₀ r)
    (hr : r.published <+: r'.published) : m.SentSince env r₀ r' := by
  obtain ⟨n, channel, message, hn, hget, hsent⟩ := hm
  refine ⟨n, channel, message, hn, ?_, hsent⟩
  obtain ⟨_, hext⟩ := hr
  rw [← hext, List.getElem?_append_left (List.getElem?_eq_some_iff.mp hget).1]
  exact hget

theorem MessageRow.SentSince.of_prefix {r₀ r r' : Redis} (hm : m.SentSince env r r')
    (hr : r₀.published <+: r.published) : m.SentSince env r₀ r' := by
  obtain ⟨n, channel, message, hn, hget, hsent⟩ := hm
  exact ⟨n, channel, message, hr.length_le.trans hn, hget, hsent⟩

end Operations

/-! ## Runs -/

/-- A commit that is not answered has not been carried out, and Redis accepts the dead letters. -/
def System.Reliable (s : System) : Label → Prop
  | .run i x => ∀ t, s.tasks[i]? = some t →
      (t.head? = some (.db .commit) → x.ok = false → x.executed = false) ∧
      ∀ entry, t.head? = some (.redis (.lpush entry)) → x.ok = true
  | _ => True

/-- In some state of the run from `s₀` to `s` the message was on the dead letter queue. -/
def System.HasSetAside (env : Env) (m : MessageRow) (s₀ s : System) : Prop :=
  ∃ s₁, Reach (System.step env) System.Reliable s₀ s₁ ∧
    Reach (System.step env) System.Reliable s₁ s ∧ m.SetAside env s₁.world.redis

/-- The tasks have in hand what their transactions have flushed, and a message that is stored was
stored in `s₀`, has been sent or set aside since, or is the duty of a task. -/
structure Dutiful (env : Env) (s₀ : System) (place : TaskId → Duty) (s : System) : Prop
    extends (sending env).Placed place s where
  flushed : ∀ i m, .addMessage m ∈ s.world.db.flushed i → place i = .flushed m
  grown : s₀.world.redis.published <+: s.world.redis.published
  stored : ∀ m ∈ s.world.db.committed.messages, m ∈ s₀.world.db.committed.messages ∨
    m.SentSince env s₀.world.redis s.world.redis ∨ System.HasSetAside env m s₀ s ∨
      ∃ i, place i = .owed m

section Runs

variable {env : Env} {ts : Tables} {s₀ s₁ s s' : System} {place : TaskId → Duty} {l : Label}

theorem dutiful_init : Dutiful env (.init ts) (fun _ => .nothing) (.init ts) :=
  ⟨Protocol.placed_init, fun _ _ hm => (by cases hm), List.prefix_refl _, fun _ hm => .inl hm⟩

/-- From any state on. -/
theorem Dutiful.since (h : Dutiful env s₀ place s) : Dutiful env s place s :=
  ⟨h.toPlaced, h.flushed, List.prefix_refl _, fun _ hm => .inl hm⟩

theorem dutiful_env (h : Dutiful env s₀ place s) (hl : ∀ i x, l ≠ .run i x)
    (hc : s.Reliable l) (hs : s.step env l = some s') : Dutiful env s₀ place s' := by
  obtain ⟨hdb, hredis⟩ := System.stores_env hl hs
  refine ⟨h.toPlaced.background sending_starts hl hs, ?_, ?_, ?_⟩
  · rw [hdb]
    exact h.flushed
  · rw [hredis]
    exact h.grown
  · rw [hdb, hredis]
    intro m hm
    rcases h.stored m hm with hm | hm | ⟨s₁, h₁, hrun, hm⟩ | hm
    · exact .inl hm
    · exact .inr (.inl hm)
    · exact .inr (.inr (.inl ⟨s₁, h₁, hrun.tail hc hs, hm⟩))
    · exact .inr (.inr (.inr hm))

/-- **One operation of a task.** -/
theorem dutiful_run (hr : Reach (System.step env) System.Reliable s₀ s)
    (h : Dutiful env s₀ place s) {i : TaskId} {x : Choice} (hc : s.Reliable (.run i x))
    (hs : s.step env (.run i x) = some s') :
    ∃ h', Dutiful env s₀ (Function.update place i h') s' := by
  obtain ⟨t, t', op, r, h', hi, -, -, hhead, hx, hmove, hplaced⟩ :=
    h.toPlaced.run sending_starts hs fun _ _ _ _ _ hx => replied_exec hx
  have hgrown := published_exec hx
  refine ⟨h', hplaced, fun j m hm => ?_, h.grown.trans hgrown, fun m hm => ?_⟩
  · by_cases hji : j = i
    · subst hji
      rw [Function.update_self]
      exact hmove.flushed hx (h.flushed j) m hm
    · rw [Function.update_of_ne hji]
      refine h.flushed j m ?_
      rcases Op.exec_db hx with he | ⟨o, r', -, ho⟩
      · rw [← he]
        exact hm
      · rw [← DbOp.flushed_exec ho hji]
        exact hm
  · have hcommit : op = .db .commit → x.ok = false → x.executed = false :=
      fun he => (hc t hi).1 (he ▸ hhead)
    rcases hmove.stored hx hcommit (h.flushed i) hm with hm | rfl
    · rcases h.stored m hm with hm | hm | ⟨s₁, h₁, hrun, hm⟩ | ⟨j, hj⟩
      · exact .inl hm
      · exact .inr (.inl (hm.mono hgrown))
      · exact .inr (.inr (.inl ⟨s₁, h₁, hrun.tail hc hs, hm⟩))
      · by_cases hji : j = i
        · subst hji
          rw [hj] at hmove
          have hletter : ∀ entry, op = .redis (.lpush entry) → x.ok = true :=
            fun entry he => (hc t hi).2 entry (he ▸ hhead)
          rcases hmove.owed hx hletter with rfl | hm | hm
          · exact .inr (.inr (.inr ⟨j, Function.update_self ..⟩))
          · exact .inr (.inl (hm.of_prefix h.grown))
          · exact .inr (.inr (.inl ⟨s', hr.tail hc hs, .init, hm⟩))
        · refine .inr (.inr (.inr ⟨j, ?_⟩))
          rw [Function.update_of_ne hji]
          exact hj
    · exact .inr (.inr (.inr ⟨i, Function.update_self ..⟩))

theorem dutiful_from (h₀ : Dutiful env s₀ place s₀)
    (hrun : Reach (System.step env) System.Reliable s₀ s) :
    ∃ place, Dutiful env s₀ place s := by
  induction hrun with
  | init => exact ⟨place, h₀⟩
  | tail hbefore hc hs ih =>
    rename_i s₁ s₂ l
    obtain ⟨place, h⟩ := ih
    by_cases hl : ∃ i x, l = .run i x
    · obtain ⟨i, x, rfl⟩ := hl
      obtain ⟨h', hdutiful⟩ := dutiful_run hbefore h hc hs
      exact ⟨_, hdutiful⟩
    · exact ⟨place, dutiful_env h (fun i x he => hl ⟨i, x, he⟩) hc hs⟩

/-- In a run, from any state of it on. -/
theorem dutiful_reach (hr : Reach (System.step env) System.Reliable (.init ts) s₀)
    (hrun : Reach (System.step env) System.Reliable s₀ s) :
    ∃ place, Dutiful env s₀ place s := by
  obtain ⟨place, h⟩ := dutiful_from dutiful_init hr
  exact dutiful_from h.since hrun

end Runs

/-- The task goes on, and whatever it is answered, it sends the message or sets it aside before its
program ends. -/
def Task.Owes (env : Env) (m : MessageRow) (t : Task) : Prop :=
  t.head?.isSome ∧ (sending env).TaskAt (.owed m) t

/-- A message that has been stored since has been sent or set aside, or a task owes it. -/
theorem Dutiful.accounts {env : Env} {place : TaskId → Duty} {s₀ s : System}
    (h : Dutiful env s₀ place s) {m : MessageRow} (hm : m ∈ s.world.db.committed.messages)
    (hnew : m ∉ s₀.world.db.committed.messages) :
    m.SentSince env s₀.world.redis s.world.redis ∨ System.HasSetAside env m s₀ s ∨
      ∃ (i : TaskId) (t : Task), s.tasks[i]? = some t ∧ t.Owes env m := by
  rcases h.stored m hm with hm | hm | hm | ⟨i, hi⟩
  · exact absurd hm hnew
  · exact .inl hm
  · exact .inr (.inl hm)
  · obtain ⟨t, ht, hat⟩ := h.born (i := i) (by rw [hi]; intro he; cases he)
    rw [hi] at hat
    refine .inr (.inr ⟨i, t, ht, ?_, hat⟩)
    cases hhead : t.head? with
    | none => cases hat.at_start hhead
    | some op => rfl

/-- **What is stored is sent**: in every run in which a commit that is not answered is not carried
out and dead letters are accepted, every message stored since some state of the run has, since that
state, been published on the channel of its room, with its own id, room, sender, content and time,
or been put on the dead letter queue, or is yet to be by a task that goes on. -/
theorem System.stored_sent {env : Env} {ts : Tables} {s₀ s : System}
    (hr : Reach (System.step env) System.Reliable (.init ts) s₀)
    (hrun : Reach (System.step env) System.Reliable s₀ s) {m : MessageRow}
    (hm : m ∈ s.world.db.committed.messages) (hnew : m ∉ s₀.world.db.committed.messages) :
    m.SentSince env s₀.world.redis s.world.redis ∨ System.HasSetAside env m s₀ s ∨
      ∃ (i : TaskId) (t : Task), s.tasks[i]? = some t ∧ t.Owes env m := by
  obtain ⟨place, h⟩ := dutiful_reach hr hrun
  exact h.accounts hm hnew

/-- `System.Reliable`, as a test. -/
def System.isReliable (s : System) : Label → Bool
  | .run i x => x.ok ||
    match s.tasks[i]?.bind Task.head? with
    | some (.db .commit) => !x.executed
    | some (.redis (.lpush _)) => false
    | _ => true
  | _ => true

theorem System.reliable_of_test {s : System} {l : Label} (h : s.isReliable l = true) :
    s.Reliable l := by
  cases l with
  | run i x =>
    intro t hi
    simp only [System.isReliable, hi, Option.bind_some, Bool.or_eq_true] at h
    constructor
    · intro hhead hok
      simpa [hhead, hok] using h
    · intro entry hhead
      simpa [hhead] using h
  | _ => trivial

/-- Redis refuses what task 0 asks for. -/
def System.refuses : Label := .run 0 { System.smooth 1 with ok := false, executed := false }

/-- A message is stored, and Redis refuses to publish it. -/
def System.refusedThrice : List Label :=
  System.enters 0 0 ++ System.handles 0 (System.about "message" [("content", .str "hi")]) 5 1 ++
    [System.refuses] ++ System.goes 0 1 1 ++ [System.refuses] ++ System.goes 0 1 1 ++
      [System.refuses] ++ System.goes 0 3 1

/-- The message is stored and nothing is published, and it is accounted for all the same. -/
theorem System.stored_sent_refused : ∃ s m, Reach (System.step .sample) System.Reliable
    (.init .sample) s ∧ m ∈ s.world.db.committed.messages ∧ s.world.redis.published = [] ∧
      (m.SentSince .sample (System.init .sample).world.redis s.world.redis ∨
        System.HasSetAside .sample m (.init .sample) s ∨
        ∃ (i : TaskId) (t : Task), s.tasks[i]? = some t ∧ t.Owes .sample m) := by
  have hrun : ((replayIf (System.step .sample) System.isReliable System.refusedThrice
      (.init .sample)).any fun s => s.world.redis.published.isEmpty &&
        !s.world.db.committed.messages.rows.isEmpty) = true := by
    decide +kernel
  obtain ⟨s, hs, hw⟩ := (Option.any_eq_true _ _).mp hrun
  obtain ⟨hpublished, hstored⟩ := Bool.and_eq_true_iff.mp hw
  cases hrows : s.world.db.committed.messages.rows with
  | nil => simp [hrows] at hstored
  | cons m rest =>
    have hm : m ∈ s.world.db.committed.messages := by
      rw [Table.mem_def, hrows]
      exact List.mem_cons_self ..
    have hnew : m ∉ (System.init .sample).world.db.committed.messages := by
      intro h
      rw [Table.mem_def, show (System.init .sample).world.db.committed.messages.rows = [] from rfl]
        at h
      cases h
    have hr : Reach (System.step .sample) System.Reliable (.init .sample) s :=
      .of_replayIf (fun _ _ => System.reliable_of_test) .init hs
    exact ⟨s, m, hr, hm, List.isEmpty_iff.mp hpublished, System.stored_sent .init hr hm hnew⟩

end NexusChat
