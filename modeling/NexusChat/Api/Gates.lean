import NexusChat.Lib.Gate
import NexusChat.App.Membership

/-!
# What a frame leads to, and past which checks

Two operations decide whether the handling of a frame goes on to a room: the rate limit, which every
frame has to pass, and the membership check, which `_handle_join_room` alone makes. What comes after
the first is what the frame asks for, for whichever room it names (`gates_handleFrame`).
-/

set_option autoImplicit false

namespace NexusChat

/-- The rate limit of a frame, and the membership check. -/
def Op.Gate : Op → Prop
  | .redis (.checkWsRateLimit _) | .db (.selectMember _ _) => True
  | _ => False

/-- The operation reaches the room: it puts somebody into it, publishes on its channel, or inserts a
message of the room. -/
def Op.Concerns (env : Env) (room : RoomId) : Op → Prop
  | .manager (.joinRoom _ room_id) => room_id = room
  | .publish channel _ => channel = Chat.roomChannel env (.str room)
  | .db (.insertMessage room_id _ _ _ _) => env.uuid room = some room_id
  | _ => False

def Op.Joins (op : Op) : Prop := ∃ u room, op = .manager (.joinRoom u room)

/-- The publish that says the user goes offline in the room. -/
def Op.SaysOffline (env : Env) (u : UserId) (room : RoomId) (op : Op) : Prop :=
  ∃ room_id username, room_id.format env.repr = room ∧ op = .publish (Chat.roomChannel env room_id)
    (envelope "presence" (.presenceUpdate room_id u username "offline"))

namespace Chat

/-- `_handle_message` goes on to store the message. -/
def MessageData.Accepted (d : MessageData) : Prop :=
  d.roomId.truthy = true ∧ d.content ≠ "" ∧ d.content.length ≤ 5000

/-- The frame asks to write to the room, and is well formed. -/
inductive Writes (env : Env) (u : UserId) (data : Json) (room : RoomId) : Prop where
  | message {event_data : Json} {d : MessageData} {r v : Uuid}
      (hframe : FrameIs data "message" event_data) (hread : readMessage env event_data = .ok d)
      (haccepted : d.Accepted) (hroom : env.parseUuid d.roomId = .ok r)
      (hspelled : env.uuid room = some r) (hsender : env.uuid u = some v)
  | typing {event_data room_id : Json}
      (hframe : FrameIs data "typing_start" event_data ∨ FrameIs data "typing_stop" event_data)
      (hroom : event_data.get "room_id" (.str "") = .ok room_id) (htruthy : room_id.truthy = true)
      (hname : room_id.format env.repr = room)

/-- The frame asks to leave the room. -/
def Leaves (env : Env) (data : Json) (room : RoomId) : Prop :=
  ∃ event_data room_id, FrameIs data "leave_room" event_data ∧
    event_data.get "room_id" (.str "") = .ok room_id ∧ room_id.truthy = true ∧
      room_id.format env.repr = room

end Chat

/-- What the operation does for the room is what the frame asks for. -/
def Op.Asked (env : Env) (u : UserId) (data : Json) (room : RoomId) (op : Op) : Prop :=
  ¬op.Joins ∧ (Chat.Writes env u data room ∨ (Chat.Leaves env data room ∧ op.SaysOffline env u room))

/-- What comes after a gate. Past the rate limit it is what the frame asks for, and past the
membership check it is about a room that the user has been found to be a member of. -/
def Op.Gates (env : Env) (u : UserId) (data : Json) {α : Type} :
    (op : Op) → (Except Exn op.Resp → Prog α) → Prop
  | .redis (.checkWsRateLimit _), k => ∀ r op room, (k r).Leads Op.Gate (· = op) →
      op.Concerns env room → r = .ok () ∧ op.Asked env u data room
  | .db (.selectMember room_id user_id), k => ∀ r op room, (k r).Leads Op.Gate (· = op) →
      op.Concerns env room → (∃ m, r = .ok (some m)) ∧ env.uuid room = some room_id ∧
        env.uuid u = some user_id
  | _, _ => True

section Programs

variable {env : Env} {u : UserId} {username : String} {event_data : Json} {room : RoomId} {op : Op}
  {Ψ : RoomId → Op → Prop}

/-! ## Programs without a gate -/

/-- The operation is no gate, and does nothing for a room but what `Ψ` allows. -/
def Op.Within (env : Env) (Ψ : RoomId → Op → Prop) (op : Op) : Prop :=
  ¬op.Gate ∧ ∀ room, op.Concerns env room → Ψ room op

theorem gates_of_within {data : Json} {p : Prog Unit} (h : p.All (Op.Within env Ψ)) :
    p.Nodes (Op.Gates env u data) := by
  refine Coro.nodes_of_all (fun op k hop => ?_) h
  cases op with
  | redis o => cases o <;> first | exact trivial | exact absurd trivial hop.1
  | db o => cases o <;> first | exact trivial | exact absurd trivial hop.1
  | _ => trivial

/-- What such a program leads to. -/
theorem leads_within {p : Prog Unit} (h : p.Leads Op.Gate (· = op))
    (hp : p.All (Op.Within env Ψ)) (hroom : op.Concerns env room) : Ψ room op := by
  obtain ⟨op', rfl, hop⟩ := h.of_all hp
  exact hop.2 room hroom

theorem within_aside (hgate : ¬op.Gate) (hroom : ∀ room, ¬op.Concerns env room) :
    (await op).All (Op.Within env Ψ) :=
  Coro.all_perform (S := Op.sig) ⟨hgate, fun room h => absurd h (hroom room)⟩

theorem within_sendToUser {m : WSOutboundMessage} :
    (Chat.sendToUser u m).All (Op.Within env Ψ) := within_aside id fun _ => id

theorem within_publish {channel : Channel} {message : Json}
    (h : ∀ room, channel = Chat.roomChannel env (.str room) → Ψ room (.publish channel message)) :
    (RedisBroker.publish channel message).All (Op.Within env Ψ) :=
  all_publish_ops ⟨id, h⟩ ⟨id, fun _ => False.elim⟩ ⟨id, fun _ => False.elim⟩
    (fun _ => ⟨id, fun _ => False.elim⟩) ⟨id, fun _ => False.elim⟩

/-- The room of a channel is the room id as it is rendered. -/
theorem format_of_roomChannel {room_id : Json}
    (h : Chat.roomChannel env room_id = Chat.roomChannel env (.str room)) :
    room_id.format env.repr = room := (String.append_right_inj "room:").mp h

theorem within_handleLeaveRoom
    (h : ∀ room_id room, event_data.get "room_id" (.str "") = .ok room_id →
      room_id.truthy = true → room_id.format env.repr = room →
        Ψ room (.publish (Chat.roomChannel env room_id)
          (envelope "presence" (.presenceUpdate room_id u username "offline")))) :
    (Chat.handleLeaveRoom env u username event_data).All (Op.Within env Ψ) := by
  unfold Chat.handleLeaveRoom
  cases hroom : event_data.get "room_id" (.str "") with
  | error e => trivial
  | ok room_id =>
    change Coro.All (S := Op.sig) _ (if room_id.truthy = true then _ else _)
    split
    · rename_i htruthy
      refine Coro.all_bind (within_aside id fun _ => id) fun _ =>
        Coro.all_bind (within_aside id fun _ => id) fun _ => within_publish fun room hchannel => ?_
      exact h room_id room hroom htruthy (format_of_roomChannel hchannel)
    · trivial

theorem within_handleTyping {is_typing : Bool}
    (h : ∀ room_id room message, event_data.get "room_id" (.str "") = .ok room_id →
      room_id.truthy = true → room_id.format env.repr = room →
        Ψ room (.publish (Chat.roomChannel env room_id) message)) :
    (Chat.handleTyping env u username event_data is_typing).All (Op.Within env Ψ) := by
  unfold Chat.handleTyping
  cases hroom : event_data.get "room_id" (.str "") with
  | error e => trivial
  | ok room_id =>
    change Coro.All (S := Op.sig) _ (if room_id.truthy = true then _ else _)
    split
    · rename_i htruthy
      have hpublish : ∀ message, (RedisBroker.publish (Chat.roomChannel env room_id) message).All
          (Op.Within env Ψ) := fun message => within_publish fun room hchannel =>
        h room_id room message hroom htruthy (format_of_roomChannel hchannel)
      split
      · exact Coro.all_bind (within_aside id fun _ => id) fun _ => hpublish _
      · exact Coro.all_bind (within_aside id fun _ => id) fun _ => hpublish _
    · trivial

theorem within_handleMessage
    (h : ∀ d room r v op, Chat.readMessage env event_data = .ok d → d.Accepted →
      env.parseUuid d.roomId = .ok r → env.uuid room = some r → env.uuid u = some v →
        ¬op.Joins → Ψ room op) :
    (Chat.handleMessage env u username event_data).All (Op.Within env Ψ) := by
  rw [Chat.handleMessage_eq]
  cases hd : Chat.readMessage env event_data with
  | error e => trivial
  | ok d =>
    show (Chat.handleRead env u username d).All (Op.Within env Ψ)
    unfold Chat.handleRead
    split
    · exact within_sendToUser
    · rename_i hempty
      split
      · exact within_sendToUser
      · rename_i hlength
        have haccepted : d.Accepted := by
          simp only [Bool.or_eq_true, Bool.not_eq_true', decide_eq_true_eq, not_or,
            Bool.not_eq_false] at hempty
          exact ⟨hempty.1, hempty.2, not_lt.mp hlength⟩
        have hfails : ∀ (e : Exn) (f : WSOutboundMessage → Prog Unit),
            (withSession dbOp (Coro.ofExcept (.error e) : Prog WSOutboundMessage) >>= f).All
              (Op.Within env Ψ) := by
          intro e f
          exact ⟨⟨id, fun _ => False.elim⟩, fun r => by cases r <;> trivial⟩
        change ((Chat.storeMessage env u username d.roomId d.content d.idempotencyKey) >>=
          fun m => _).All _
        rw [Chat.storeMessage_eq]
        cases hroom : env.parseUuid d.roomId with
        | error e => exact hfails e _
        | ok r =>
          cases hsender : env.parseUuid (.str u) with
          | error e => exact hfails e _
          | ok v =>
            obtain ⟨_, heq, huser⟩ := Chat.parseUuid_eq_ok hsender
            cases heq
            have hwrites : ∀ room op, env.uuid room = some r → ¬op.Joins → Ψ room op :=
              fun room op hspelled => h d room r v op hd haccepted hroom hspelled huser
            have hstoring : Chat.Storing (Op.Within env Ψ) env u d := by
              refine ⟨⟨id, fun _ => False.elim⟩, fun r' v' hroom' _ => ⟨id, fun room hspelled => ?_⟩,
                ⟨id, fun _ => False.elim⟩, ⟨id, fun _ => False.elim⟩, ⟨id, fun _ => False.elim⟩⟩
              cases hroom.symm.trans hroom'
              exact hwrites room _ hspelled fun ⟨_, _, hop⟩ => by cases hop
            refine Coro.all_bind (all_withSession (Chat.all_storeIn hstoring hroom hsender)
              ⟨id, fun _ => False.elim⟩) fun m => within_publish fun room hchannel => ?_
            obtain ⟨name, hname, hspelled⟩ := Chat.parseUuid_eq_ok hroom
            rw [hname] at hchannel
            cases format_of_roomChannel hchannel
            exact hwrites name _ hspelled fun ⟨_, _, hop⟩ => by cases hop

theorem within_enterRoom (h : ∀ op, op.Concerns env room → Ψ room op) :
    (Chat.enterRoom env u username room).All (Op.Within env Ψ) := by
  have hsubscribe : (RedisBroker.subscribe brokerOp (Chat.roomChannel env (.str room)) room).All
      (Op.Within env Ψ) := by
    refine Coro.all_bind (within_aside id fun _ => id) fun p => ?_
    cases p with
    | none => trivial
    | some p => exact within_aside id fun _ => id
  have hjoin : (managerOp (.joinRoom u room)).All (Op.Within env Ψ) := by
    refine Coro.all_perform (S := Op.sig) ⟨id, fun room' hroom => ?_⟩
    cases hroom
    exact h _ rfl
  have hnames : ∀ uids, (PresenceService.withUsernames uids).All (Op.Within env Ψ) := by
    intro uids
    induction uids with
    | nil => trivial
    | cons uid uids ih =>
      exact Coro.all_bind (within_aside id fun _ => id) fun _ => Coro.all_bind ih fun _ => trivial
  have honline : (PresenceService.setOnline env (.str room) u username).All (Op.Within env Ψ) :=
    Coro.all_bind (within_aside id fun _ => id) fun _ =>
      Coro.all_bind (within_aside id fun _ => id) fun _ => within_aside id fun _ => id
  have husers : (PresenceService.getOnlineUsers env (.str room)).All (Op.Within env Ψ) :=
    Coro.all_bind (within_aside id fun _ => id) fun _ =>
      Coro.all_bind (within_aside id fun _ => id) fun _ =>
        Coro.all_bind (within_aside id fun _ => id) fun _ => hnames _
  refine Coro.all_bind hsubscribe fun _ => Coro.all_bind hjoin fun _ => Coro.all_bind honline
    fun _ => Coro.all_bind (within_publish fun room' hchannel => ?_) fun _ =>
      Coro.all_bind husers fun _ => within_sendToUser
  cases format_of_roomChannel hchannel
  exact h _ rfl

/-! ## The gates -/

theorem gates_selectMember {data : Json} {r v : Uuid}
    {k : Except Exn (Option RoomMemberRow) → Prog Unit}
    (h : ∀ found, (k found).All (Op.Within env fun room _ => (∃ m, found = .ok (some m)) ∧
      env.uuid room = some r ∧ env.uuid u = some v)) :
    (Coro.await (Op.db (.selectMember r v)) k : Prog Unit).Nodes (Op.Gates env u data) ∧
      ∀ op room, (Coro.await (Op.db (.selectMember r v)) k : Prog Unit).Leads Op.Gate (· = op) →
        ¬op.Concerns env room := by
  refine ⟨⟨fun found op room hleads hroom => ?_, fun found => gates_of_within (h found)⟩, ?_⟩
  · exact leads_within hleads (h found) hroom
  · rintro op room (rfl | ⟨hgate, -⟩)
    · exact id
    · exact absurd trivial hgate

/-- **A join asks first**: nothing comes before the membership check, and what comes after it is
about the room that was checked. -/
theorem gates_handleJoinRoom {data : Json} :
    (Chat.handleJoinRoom env u username event_data).Nodes (Op.Gates env u data) ∧
      ∀ op room, (Chat.handleJoinRoom env u username event_data).Leads Op.Gate (· = op) →
        ¬op.Concerns env room := by
  have hwithin : ∀ {p : Prog Unit}, p.All (Op.Within env fun _ _ => False) →
      p.Nodes (Op.Gates env u data) ∧
        ∀ op room, p.Leads Op.Gate (· = op) → ¬op.Concerns env room :=
    fun hp => ⟨gates_of_within hp, fun _ _ hleads hroom => leads_within hleads hp hroom⟩
  -- an id that is no UUID raises, and closing the session is about no room
  have hfails : ∀ (e : Exn) (f : Bool → Prog Unit),
      (withSession dbOp (Coro.ofExcept (.error e) : Prog Bool) >>= f).All
        (Op.Within env fun _ _ => False) := by
    intro e f
    exact ⟨⟨id, fun _ => id⟩, fun r => by cases r <;> trivial⟩
  unfold Chat.handleJoinRoom
  cases hroom : event_data.get "room_id" (.str "") with
  | error e => exact ⟨trivial, fun _ _ h => absurd h id⟩
  | ok room_id =>
    change Coro.Nodes (S := Op.sig) _ (if room_id.truthy = true then _ else _) ∧
      ∀ op room, Coro.Leads (S := Op.sig) _ _ (if room_id.truthy = true then _ else _) → _
    split
    · unfold Chat.verifyMembership
      cases hr : env.parseUuid room_id with
      | error e => exact hwithin (hfails e _)
      | ok r =>
        cases hv : env.parseUuid (.str u) with
        | error e => exact hwithin (hfails e _)
        | ok v =>
          obtain ⟨name, rfl, hspelled⟩ := Chat.parseUuid_eq_ok hr
          obtain ⟨_, heq, huser⟩ := Chat.parseUuid_eq_ok hv
          cases heq
          -- the check is the gate: what comes after it, by its answer
          refine gates_selectMember fun found => ?_
          cases found with
          | error e => exact ⟨⟨id, fun _ => False.elim⟩, fun r => by cases r <;> trivial⟩
          | ok member =>
            cases member with
            | none =>
              refine ⟨⟨id, fun _ => False.elim⟩, fun sent => ?_⟩
              cases sent with
              | error e => exact ⟨⟨id, fun _ => False.elim⟩, fun r => by cases r <;> trivial⟩
              | ok _ => exact ⟨⟨id, fun _ => False.elim⟩, fun r => by cases r <;> trivial⟩
            | some m =>
              refine ⟨⟨id, fun _ => False.elim⟩, fun closed => ?_⟩
              cases closed with
              | error e => trivial
              | ok _ => exact within_enterRoom fun _ _ => ⟨⟨m, rfl⟩, hspelled, huser⟩
    · exact hwithin within_sendToUser

/-- Past the rate limit, a frame leads to what it asks for, until the membership check. -/
theorem gates_dispatch {data event : Json} (hevent : data.get "event" (.str "") = .ok event)
    (hdata : data.get "data" (.obj []) = .ok event_data) :
    (Chat.dispatch env u username event event_data).Nodes (Op.Gates env u data) ∧
      ∀ op room, (Chat.dispatch env u username event event_data).Leads Op.Gate (· = op) →
        op.Concerns env room → op.Asked env u data room := by
  have hframe : ∀ {name}, Chat.isEvent event name = true → Chat.FrameIs data name event_data :=
    fun he => ⟨event, hevent, he, hdata⟩
  have hwithin : ∀ {p : Prog Unit}, p.All (Op.Within env fun room op => op.Asked env u data room) →
      p.Nodes (Op.Gates env u data) ∧ ∀ op room, p.Leads Op.Gate (· = op) →
        op.Concerns env room → op.Asked env u data room :=
    fun hp => ⟨gates_of_within hp, fun _ _ hleads hroom => leads_within hleads hp hroom⟩
  have htyping : ∀ is_typing, Chat.FrameIs data "typing_start" event_data ∨
      Chat.FrameIs data "typing_stop" event_data →
        (Chat.handleTyping env u username event_data is_typing).All
          (Op.Within env fun room op => op.Asked env u data room) := by
    intro is_typing hframe
    refine within_handleTyping fun room_id room message hroom htruthy hname => ⟨?_, .inl ?_⟩
    · rintro ⟨_, _, hop⟩
      cases hop
    · exact .typing hframe hroom htruthy hname
  apply Chat.dispatch_cases (P := fun p => p.Nodes (Op.Gates env u data) ∧
    ∀ op room, p.Leads Op.Gate (· = op) → op.Concerns env room → op.Asked env u data room)
  · intro _
    exact gates_handleJoinRoom.imp_right fun hasks op room hleads hroom =>
      absurd hroom (hasks op room hleads)
  · intro he
    refine hwithin (within_handleLeaveRoom fun room_id room hroom htruthy hname => ⟨?_, .inr ?_⟩)
    · rintro ⟨_, _, hop⟩
      cases hop
    · exact ⟨⟨event_data, room_id, hframe he, hroom, htruthy, hname⟩, room_id, username, hname, rfl⟩
  · intro he
    refine hwithin (within_handleMessage fun d room r v op hread haccepted hroom hspelled hsender
      hop => ⟨hop, .inl ?_⟩)
    exact .message (hframe he) hread haccepted hroom hspelled hsender
  · exact fun he => hwithin (htyping true (.inl (hframe he)))
  · exact fun he => hwithin (htyping false (.inr (hframe he)))
  · exact fun _ => hwithin within_sendToUser

/-- **A frame passes the rate limit first**, and its gates are as `Op.Gates` says. -/
theorem gates_handleFrame {data : Json} :
    (Chat.handleFrame env u username data).Nodes (Op.Gates env u data) ∧
      ∀ op room, (Chat.handleFrame env u username data).Leads Op.Gate (· = op) →
        ¬op.Concerns env room := by
  rw [Chat.handleFrame_eq]
  cases hevent : data.get "event" (.str "") with
  | error e => exact ⟨trivial, fun _ _ h => absurd h id⟩
  | ok event =>
    cases hdata : data.get "data" (.obj []) with
    | error e => exact ⟨trivial, fun _ _ h => absurd h id⟩
    | ok event_data =>
      have hsend : ∀ m, (Chat.sendToUser u m).All (Op.Within env fun _ _ => False) :=
        fun _ => within_sendToUser
      refine ⟨⟨fun limited op room hleads hroom => ?_, fun limited => ?_⟩, ?_⟩
      · cases limited with
        | error e => exact absurd (leads_within hleads (hsend _) hroom) id
        | ok _ => exact ⟨rfl, (gates_dispatch hevent hdata).2 op room hleads hroom⟩
      · cases limited with
        | error e => exact gates_of_within (hsend _)
        | ok _ => exact (gates_dispatch hevent hdata).1
      · rintro op room (rfl | ⟨hgate, -⟩)
        · exact id
        · exact absurd trivial hgate

end Programs

/-! ## Sessions on their way to a room -/

/-- The gates of a program that handles a frame. -/
def GatesOf (env : Env) (o : Option UserId) (part : Part) {α : Type} (p : Prog α) : Prop :=
  ∀ u data, o = some u → part = .frame data → p.Nodes (Op.Gates env u data)

theorem inherited_gates {env : Env} : Inherited env (GatesOf env) where
  connect _ _ _ _ _ hpart := by cases hpart
  send _ _ _ _ _ hpart := by cases hpart
  frame u username data u' data' ho hpart := by
    cases ho
    cases hpart
    exact gates_handleFrame.1
  cleanup _ _ _ _ _ _ hpart := by cases hpart
  request _ _ _ ho := by cases ho
  force _ _ _ _ ho := by cases ho
  next h r u data ho hpart := (h u data ho hpart).2 r

/-- The session handles a frame, and comes to the operation without passing a gate. -/
def Phase.Leads (op : Op) : Phase → Prop
  | .handling _ (some _) p => p.Leads Op.Gate (· = op)
  | _ => False

section Leads

variable {env : Env} {u : UserId} {username : String} {phase phase' : Phase} {op : Op}
  {room : RoomId} {srv : ServerId} {me : TaskId} {x : Choice} {w w' : World}

theorem Phase.leads_settle {isOpen : ConnId → Bool}
    (h : (phase.settle env u username isOpen).Leads op) : phase.Leads op := by
  cases phase with
  | receiving conn => exact h
  | ended => exact h
  | connecting p =>
    cases p with
    | ret conn => exact h
    | raise e => exact h
    | await op' k => exact h
  | handling conn frame p =>
    cases p with
    | ret a =>
      simp only [Phase.settle] at h
      split at h
      · exact absurd h id
      · exact absurd h id
    | raise e => exact absurd h id
    | await op' k => exact h
  | cleanup conn p =>
    cases p with
    | ret a => exact h
    | raise e => exact h
    | await op' k => exact h

/-- What an operation of the session has passed, if it comes to `op` now and did not before. -/
inductive Phase.Passes (env : Env) (u : UserId) (srv : ServerId) (me : TaskId) (x : Choice)
    (w w' : World) (op : Op) (room : RoomId) (phase : Phase) : Prop where
  /-- the membership check, with a member -/
  | check {r v : Uuid} {m : RoomMemberRow} (hr : env.uuid room = some r) (hv : env.uuid u = some v)
      (hx : (Op.db (.selectMember r v)).exec env srv me x w = some (.ok (some m), w')) :
      phase.Passes env u srv me x w w' op room
  /-- the rate limit, with a frame that asks for `op` -/
  | limit {user_id : UserId} {data : Json} (hframe : phase.frame = some data)
      (hhead : phase.head? = some (.redis (.checkWsRateLimit user_id))) (hok : x.ok = true)
      (hasked : op.Asked env u data room) : phase.Passes env u srv me x w w' op room

/-- **A session comes to an operation about a room past a gate.** -/
theorem Phase.leads_step (hgates : phase.Each (GatesOf env (some u)))
    (hs : phase.step env srv me x w = some (phase', w')) (hleads : phase'.Leads op)
    (hroom : op.Concerns env room) :
    phase.Leads op ∨ phase.Passes env u srv me x w w' op room := by
  cases phase with
  | receiving conn => cases hs
  | ended => cases hs
  | connecting p =>
    obtain ⟨⟨p', w₁⟩, -, heq⟩ := Option.map_eq_some_iff.mp hs
    cases heq
    exact absurd hleads id
  | cleanup conn p =>
    obtain ⟨⟨p', w₁⟩, -, heq⟩ := Option.map_eq_some_iff.mp hs
    cases heq
    exact absurd hleads id
  | handling conn frame p =>
    obtain ⟨⟨p', w₁⟩, hp, heq⟩ := Option.map_eq_some_iff.mp hs
    cases heq
    cases frame with
    | none => exact absurd hleads id
    | some data =>
      rcases Coro.Leads.before hp hleads with hbefore | ⟨gate, k, r, rfl, hgate, hx, rfl⟩
      · exact .inl hbefore
      · have hnode : Op.Gates env u data gate k := (hgates u data rfl rfl).1
        cases gate with
        | redis o =>
          cases o with
          | checkWsRateLimit user_id =>
            obtain ⟨rfl, hasked⟩ := hnode r op room hleads hroom
            have hok : x.ok = true := by
              by_contra hfails
              have hanswer := congrArg Prod.fst (Option.some.inj hx)
              dsimp only at hanswer
              rw [if_neg hfails] at hanswer
              cases hanswer
            exact .inr (.limit rfl rfl hok hasked)
          | _ => exact absurd hgate id
        | db o =>
          cases o with
          | selectMember r' v =>
            obtain ⟨⟨m, rfl⟩, hr, hv⟩ := hnode r op room hleads hroom
            exact .inr (.check hr hv hx)
          | _ => exact absurd hgate id
        | _ => exact absurd hgate id

theorem Session.not_leads_receive {ses ses' : Session} {conn : ConnId} {frame : Frame}
    (hses : ses.receive env conn w frame = (ses', w')) (hroom : op.Concerns env room) :
    ¬ses'.phase.Leads op := by
  intro hleads
  cases frame with
  | json data =>
    cases hses
    have hframe := Phase.leads_settle hleads
    exact gates_handleFrame.2 _ _ hframe hroom
  | notJson =>
    cases hses
    exact hleads
  | binary =>
    cases hses
    exact hleads
  | disconnect =>
    cases hses
    exact hleads

theorem System.leads_step {s s' : System} {l : Label} {i : TaskId} {ses' : Session}
    (hgates : s.Each (GatesOf env)) (hs : s.step env l = some s')
    (hi : s'.tasks[i]? = some (.session ses')) (hleads : ses'.phase.Leads op)
    (hroom : op.Concerns env room) :
    ∃ ses, s.tasks[i]? = some (.session ses) ∧ ses.userId = ses'.userId ∧
      ses.server = ses'.server ∧ (ses.phase.Leads op ∨ ∃ x, l = .run i x ∧
        ses.phase.Passes env ses.userId ses.server i x s.world s'.world op room) := by
  have hold : s.tasks[i]? = some (.session ses') → ∃ ses, s.tasks[i]? = some (.session ses) ∧
      ses.userId = ses'.userId ∧ ses.server = ses'.server ∧ (ses.phase.Leads op ∨ ∃ x,
        l = .run i x ∧ ses.phase.Passes env ses.userId ses.server i x s.world s'.world op room) :=
    fun hi => ⟨ses', hi, rfl, rfl, .inl hleads⟩
  have hmoves := System.moves hs
  cases hmoves with
  | run hj ht htasks =>
    rw [htasks] at hi
    rcases getElem?_replace hi with ⟨-, hi⟩ | ⟨rfl, rfl⟩
    · exact hold hi
    · obtain ⟨ses, rfl, -⟩ := Task.session_step ht
      obtain ⟨⟨phase', w'⟩, hphase, heq⟩ := Option.map_eq_some_iff.mp ht
      obtain ⟨hses, rfl⟩ := Prod.mk.inj heq
      cases hses
      refine ⟨ses, hj, rfl, rfl, ?_⟩
      exact (Phase.leads_step (hgates i _ hj) hphase (Phase.leads_settle hleads) hroom).imp_right
        fun hpasses => ⟨_, rfl, hpasses⟩
  | receive hj hphase hses htasks =>
    rw [htasks] at hi
    rcases getElem?_replace hi with ⟨-, hi⟩ | ⟨rfl, heq⟩
    · exact hold hi
    · cases heq
      exact absurd hleads (Session.not_leads_receive hses hroom)
  | connect hworld htasks =>
    rw [htasks] at hi
    rcases getElem?_spawn hi with hi | ⟨-, heq⟩
    · exact hold hi
    · cases heq
      exact absurd hleads id
  | request hworld htasks =>
    rw [htasks] at hi
    rcases getElem?_spawn hi with hi | ⟨-, heq⟩
    · exact hold hi
    · cases heq
  | force htasks =>
    rw [htasks] at hi
    rcases getElem?_spawn hi with hi | ⟨-, heq⟩
    · exact hold hi
    · cases heq
  | background hl htasks =>
    rw [htasks] at hi
    exact hold hi

/-- **Past the membership check there is a member**, at the moment of the check. -/
theorem System.Posting.member {s s' : System} {i : TaskId} {ses : Session} {r v : Uuid}
    {m : RoomMemberRow} (h : s.Posting) (hi : s.tasks[i]? = some (.session ses))
    (hr : env.uuid room = some r) (hv : env.uuid ses.userId = some v)
    (hx : (Op.db (.selectMember r v)).exec env ses.server i x s.world =
      some (.ok (some m), s'.world)) :
    s'.world.db.committed.HasMember env room ses.userId := by
  have hmember := h.found hi hx
  obtain ⟨d, hd, heq⟩ := Op.exec_dbOp hx
  obtain rfl : d = s.world.db := (DbOp.exec_eq_some hd).2
  rw [heq]
  exact ⟨r, v, hr, hv, hmember⟩

end Leads

end NexusChat
