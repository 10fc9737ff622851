import NexusChat.Api.Gates
import NexusChat.Api.Subscriptions
import NexusChat.Messaging.FanOut
import NexusChat.App.LiveOrder

/-!
# Who is handed the messages of a room

A room callback hands a message to whoever the connection manager lists in the room, and the
manager lists whoever passed the membership check of `_handle_join_room`. Leaving over HTTP deletes
the membership and tells the manager nothing. So whoever is handed a message is a member in every
run in which a membership is deleted only while its user is neither listed in the room, on any
instance and in any spelling, nor past the check on the way to it.
-/

set_option autoImplicit false

namespace NexusChat

open ConnectionManager WebSocketConnection

/-! ## Lists and callbacks -/

/-- Only `join_room` lists a user. -/
theorem listed_before {m : ConnectionManager Delivery} {maxsize : Nat} {me : TaskId}
    {o : ManagerOp Delivery} {u : UserId} {room : RoomId}
    (h : u ∈ (o.after maxsize me m).getRoomUserIds room) :
    u ∈ m.getRoomUserIds room ∨ o = .joinRoom u room := by
  cases o with
  | accept | clientState | sendText | rooms | unlock | close => exact .inl h
  | connectLocked v name =>
    refine .inl ?_
    simp only [ManagerOp.after] at h
    split at h
    · exact h
    · exact h
  | forceCleanup c => exact .inl (mem_getRoomUserIds_forceCleanup.mp h).1
  | replace old v name =>
    have hforced : u ∈ (m.forceCleanup old).getRoomUserIds room := h
    exact .inl (mem_getRoomUserIds_forceCleanup.mp hforced).1
  | disconnectLocked v =>
    have hleft : u ∈ (m.unregister v).getRoomUserIds room := h
    exact .inl (mem_getRoomUserIds_unregister.mp hleft).1
  | joinRoom v r =>
    have hjoined : u ∈ (m.joinRoom v r).getRoomUserIds room := h
    rcases mem_getRoomUserIds_joinRoom.mp hjoined with hold | ⟨rfl, rfl, -⟩
    · exact .inl hold
    · exact .inr rfl
  | leaveRoom v r =>
    have hleft : u ∈ (m.leaveRoom v r).2.getRoomUserIds room := h
    exact .inl (mem_getRoomUserIds_leaveRoom.mp hleft).1
  | sendToUser v p =>
    have hsent : u ∈ (m.sendToUser maxsize v p).getRoomUserIds room := h
    rw [getRoomUserIds, roomConnections_sendToUser] at hsent
    exact .inl hsent

namespace RedisBroker

variable {b b' : RedisBroker}

theorem callbacks_startListening : b.startListening.callbacks = b.callbacks := by
  unfold startListening
  split <;> rfl

theorem callbacks_resubscribeNext {size i : Nat} :
    (b.resubscribeNext size i).callbacks = b.callbacks := by
  unfold resubscribeNext
  split
  · exact callbacks_startListening
  · split
    · rfl
    · exact callbacks_startListening

/-- The listener sets no callback. -/
theorem callbacks_listenerStep {e : ListenerEvent} {m : Option (Channel × Nat × Json)}
    (hs : b.listenerStep e = some (b', m)) : b'.callbacks = b.callbacks := by
  unfold listenerStep at hs
  split at hs
  · cases hs
    exact callbacks_startListening
  · split at hs
    · cases hs
    · cases hs
      rfl
  · split at hs
    · cases hs
      exact callbacks_startListening
    · cases hs
  · cases hs
    rfl
  · cases hs
    split
    · exact callbacks_resubscribeNext
    · exact callbacks_startListening
  · split at hs
    · cases hs
    · cases hs
      split
      · exact callbacks_resubscribeNext
      · exact callbacks_startListening
  · cases hs

/-- Only `subscribe` sets a callback. -/
theorem callbacks_before {o : BrokerOp} {ok : Bool} {channel : Channel} {room : RoomId}
    (h : (o.after ok b).callbacks.get? channel = some room) :
    b.callbacks.get? channel = some room ∨ o = .setCallback channel room := by
  cases o with
  | startListener => exact .inl h
  | openPubsub =>
    simp only [BrokerOp.after] at h
    split at h
    · exact .inl h
    · exact .inl h
  | setCallback ch r =>
    simp only [BrokerOp.after] at h
    split at h
    · rw [Dict.get?_set] at h
      split at h
      · rename_i hch
        cases h
        rw [hch]
        exact .inr rfl
      · exact .inl h
    · exact .inl h
  | popCallback ch =>
    simp only [BrokerOp.after] at h
    split at h
    · rw [Dict.get?_pop] at h
      split at h
      · cases h
      · exact .inl h
    · exact .inl h
  | subscribe p ch =>
    simp only [BrokerOp.after] at h
    split at h
    · exact .inl h
    · exact .inl h
  | unsubscribe p ch =>
    simp only [BrokerOp.after] at h
    split at h
    · exact .inl h
    · exact .inl h

end RedisBroker

/-- A listener sets no callback. -/
theorem callbacks_listen {env : Env} {w w' : World} {srv other : ServerId}
    {e : RedisBroker.ListenerEvent} (h : w.listen env srv e = some w') :
    (w'.servers other).broker.callbacks = (w.servers other).broker.callbacks := by
  obtain ⟨⟨b, message⟩, hb, rfl⟩ := Option.map_eq_some_iff.mp h
  have hbroker : ((w.setBroker srv b).servers other).broker.callbacks =
      (w.servers other).broker.callbacks := by
    rw [World.broker_setBroker]
    split
    · rename_i hsrv
      subst hsrv
      exact RedisBroker.callbacks_listenerStep hb
    · rfl
  cases message with
  | none => exact hbroker
  | some message =>
    obtain ⟨channel, n, message⟩ := message
    show (((w.setBroker srv b).dispatchMessage env srv channel n message).servers
      other).broker.callbacks = _
    rw [broker_dispatchMessage]
    exact hbroker

/-! ## What the programs do about rooms -/

/-- A frame puts its own user into a room, a callback is that of its channel, and a payload for a
user alone comes from no channel. What a session inserts into a room, it inserts for a frame that
spells the room. -/
def Op.Orderly (env : Env) (o : Option UserId) (part : Part) : Op → Prop
  | .manager (.joinRoom u _) => o = some u ∧ ∃ data, part = .frame data
  | .db (.insertMessage room_id _ _ _ _) =>
    o ≠ none → (∃ data, part = .frame data) ∧ ∃ room, env.uuid room = some room_id
  | .manager (.sendToUser _ p) => p.source = none
  | .broker (.setCallback channel room_id) => channel = Chat.roomChannel env (.str room_id)
  | _ => True

section Orderly

variable {env : Env} {o : Option UserId} {u : UserId} {part : Part}

theorem Op.Quiet.orderly {op : Op} (h : op.Quiet) : op.Orderly env o part := by
  cases op with
  | manager o => cases o <;> first | exact trivial | exact h | exact absurd h id
  | broker o => exact absurd h id
  | db o => exact absurd h id
  | _ => trivial

theorem orderly_handleFrame {username : String} {data : Json} :
    (Chat.handleFrame env u username data).All (Op.Orderly env (some u) (.frame data)) := by
  have hquiet : ∀ op : Op, op.Quiet → op.Orderly env (some u) (.frame data) :=
    fun _ => Op.Quiet.orderly
  rw [Chat.handleFrame_eq]
  refine Coro.all_bind (Coro.all_ofExcept _) fun event => Coro.all_bind (Coro.all_ofExcept _)
    fun event_data => Coro.all_bind (all_rateLimited hquiet) fun limited => ?_
  split
  · exact all_sendToUser hquiet
  · apply Chat.dispatch_cases (P := fun p => p.All (Op.Orderly env (some u) (.frame data)))
    · intro _
      exact all_handleJoinRoom hquiet (fun _ _ => trivial) trivial (fun _ => rfl)
        (fun _ _ => trivial) (fun _ => ⟨rfl, data, rfl⟩) fun _ => trivial
    · intro _
      exact all_handleLeaveRoom hquiet (fun _ _ => trivial) fun _ _ => trivial
    · intro _
      refine all_handleMessage hquiet (fun d _ => ⟨trivial, fun r _ hr _ _ => ⟨⟨data, rfl⟩, ?_⟩,
        trivial, trivial, trivial⟩) fun _ _ _ => trivial
      obtain ⟨room, -, hspelled⟩ := Chat.parseUuid_eq_ok hr
      exact ⟨room, hspelled⟩
    · exact fun _ => all_handleTyping hquiet fun _ _ => trivial
    · exact fun _ => all_handleTyping hquiet fun _ _ => trivial
    · exact fun _ => all_sendToUser hquiet

theorem inherited_orderly :
    Inherited env fun o part {_} p => p.All (Op.Orderly env o part) where
  connect _ _ := all_connect trivial trivial (fun _ => trivial) (fun _ _ => trivial)
    (fun _ => trivial) fun _ => trivial
  send _ _ := all_sendToUser fun _ => Op.Quiet.orderly
  frame _ _ _ := orderly_handleFrame
  cleanup _ _ _ := all_cleanup (fun _ => Op.Quiet.orderly) (fun _ => trivial) trivial
    (fun _ => trivial) trivial
  request _ := all_request fun o => by
    cases o with
    | insertMessage => exact fun hnone => absurd rfl hnone
    | _ => trivial
  force _ _ := all_forceDisconnect trivial (fun _ => trivial) trivial trivial
  next h r := h.2 r

/-- Who is about to do what only a frame does is handling one. -/
theorem Phase.leads_of_frame {phase : Phase} {op : Op}
    (h : phase.Each fun part {_} p => p.All (Op.Orderly env (some u) part))
    (hhead : phase.head? = some op)
    (hframe : ∀ part, op.Orderly env (some u) part → ∃ data, part = .frame data) :
    phase.Leads op ∧ ∃ part, op.Orderly env (some u) part := by
  have hnone : ∀ {part : Part} {α : Type} {p : Prog α}, p.All (Op.Orderly env (some u) part) →
      p.head? = some op → (∀ data, part ≠ .frame data) → False := by
    intro part α p hp hop hpart
    obtain ⟨data, heq⟩ := hframe part (hp.head hop)
    exact hpart data heq
  cases phase with
  | receiving conn => cases hhead
  | ended => cases hhead
  | connecting p => exact (hnone h hhead fun _ heq => by cases heq).elim
  | cleanup conn p => exact (hnone h hhead fun _ heq => by cases heq).elim
  | handling conn frame p =>
    cases frame with
    | none => exact (hnone h hhead fun _ heq => by cases heq).elim
    | some data => exact ⟨Coro.leads_head hhead rfl, _, Coro.All.head h hhead⟩

/-- Who is about to join a room joins with its own user. -/
theorem Phase.leads_of_joins {phase : Phase} {v : UserId} {room : RoomId}
    (h : phase.Each fun part {_} p => p.All (Op.Orderly env (some u) part))
    (hhead : phase.head? = some (.manager (.joinRoom v room))) :
    v = u ∧ phase.Leads (.manager (.joinRoom v room)) := by
  obtain ⟨hleads, part, huser, -⟩ := Phase.leads_of_frame h hhead fun _ hop => hop.2
  cases huser
  exact ⟨rfl, hleads⟩

end Orderly

/-! ## The invariant -/

namespace System

/-- The condition on a step: who loses a membership of a room is not listed in it, and has no
session past the membership check on the way to it. -/
def RemovesOutsiders (env : Env) (s : System) (l : Label) : Prop :=
  ∀ r v, s.Removes l r v → ∀ room u, env.uuid room = some r → env.uuid u = some v →
    (∀ srv, u ∉ (s.world.servers srv).manager.getRoomUserIds room) ∧
      ∀ (i : TaskId) (ses : Session), s.tasks[i]? = some (.session ses) → ses.userId = u →
        ¬ses.phase.Leads (.manager (.joinRoom u room))

/-- Who is listed in a room, or past the check on the way to it, is a member. -/
structure Confined (env : Env) (s : System) : Prop where
  listed : ∀ srv room, ∀ u ∈ (s.world.servers srv).manager.getRoomUserIds room,
    s.world.db.committed.HasMember env room u
  cleared : ∀ (i : TaskId) (ses : Session) room, s.tasks[i]? = some (.session ses) →
    ses.phase.Leads (.manager (.joinRoom ses.userId room)) →
      s.world.db.committed.HasMember env room ses.userId
  callbacks : ∀ srv channel room, (s.world.servers srv).broker.callbacks.get? channel = some room →
    channel = Chat.roomChannel env (.str room)

section Steps

variable {env : Env} {s s' : System} {l : Label}

/-- Nobody is listed by a step but by a session that was past the check. -/
theorem listed_step (horderly : s.Each fun o part {_} p => p.All (Op.Orderly env o part))
    (hs : s.step env l = some s') {srv : ServerId} {u : UserId} {room : RoomId}
    (h : u ∈ (s'.world.servers srv).manager.getRoomUserIds room) :
    u ∈ (s.world.servers srv).manager.getRoomUserIds room ∨ ∃ (i : TaskId) (ses : Session),
      s.tasks[i]? = some (.session ses) ∧ ses.userId = u ∧
        ses.phase.Leads (.manager (.joinRoom u room)) := by
  by_cases hl : ∃ i x, l = .run i x
  · obtain ⟨i, x, rfl⟩ := hl
    have hmoves := System.moves hs
    cases hmoves with
    | background hl _ => exact absurd hl id
    | @run _ _ t t' hi ht _ =>
      obtain ⟨op, a, hhead, hx⟩ := Task.step_exec ht
      rcases managers_exec hx srv with ⟨maxsize, me, o, rfl, -, he⟩ | he
      · rw [he] at h
        rcases listed_before h with hold | rfl
        · exact .inl hold
        · -- the task joins the room
          have heach := horderly i _ hi
          obtain ⟨part, α, p, hall, hp⟩ := Task.Each.head heach hhead
          obtain ⟨howner, -⟩ := Coro.All.head hall hp
          cases t with
          | request _ _ => cases howner
          | forced _ _ _ => cases howner
          | session ses =>
            obtain ⟨huser, hleads⟩ := Phase.leads_of_joins heach hhead
            exact .inr ⟨i, ses, hi, huser.symm, hleads⟩
      · rw [he] at h
        exact .inl h
  · have hsame := sameSessions_env (fun i x he => hl ⟨i, x, he⟩) hs srv
    rw [getRoomUserIds, hsame.index] at h
    exact .inl h

theorem callbacks_step (horderly : s.Each fun o part {_} p => p.All (Op.Orderly env o part))
    (hs : s.step env l = some s') {srv : ServerId} {channel : Channel} {room : RoomId}
    (h : (s'.world.servers srv).broker.callbacks.get? channel = some room) :
    (s.world.servers srv).broker.callbacks.get? channel = some room ∨
      channel = Chat.roomChannel env (.str room) := by
  by_cases hl : ∃ i x, l = .run i x
  · obtain ⟨i, x, rfl⟩ := hl
    have hmoves := System.moves hs
    cases hmoves with
    | background hl _ => exact absurd hl id
    | run hi ht _ =>
      obtain ⟨op, a, hhead, hx⟩ := Task.step_exec ht
      rcases brokers_exec hx srv with ⟨o, rfl, -, he⟩ | hkeeps
      · rw [he] at h
        obtain ⟨part, α, p, hall, hp⟩ := Task.Each.head (horderly i _ hi) hhead
        have hop := Coro.All.head hall hp
        rcases RedisBroker.callbacks_before h with hold | rfl
        · exact .inl hold
        · exact .inr hop
      · rw [hkeeps.callbacks] at h
        exact .inl h
  · refine .inl ?_
    rcases System.env_cases (fun i x he => hl ⟨i, x, he⟩) hs with he | ⟨other, m, he, -⟩ |
      ⟨other, e, -, hlisten⟩
    · rw [he] at h
      exact h
    · rw [he, World.broker_setManager] at h
      exact h
    · rw [callbacks_listen hlisten] at h
      exact h

theorem confined_step (hgates : s.Each (GatesOf env))
    (horderly : s.Each fun o part {_} p => p.All (Op.Orderly env o part)) (hposting : s.Posting)
    (h : s.Confined env) (hC : s.RemovesOutsiders env l) (hs : s.step env l = some s') :
    s'.Confined env := by
  -- who is listed, or past the check, before the step is a member after it
  have hlisted : ∀ srv room, ∀ u ∈ (s.world.servers srv).manager.getRoomUserIds room,
      s'.world.db.committed.HasMember env room u := by
    intro srv room u hu
    refine System.hasMember_step hs (h.listed srv room u hu) fun r v hr hv hremoves => ?_
    exact (hC r v hremoves room u hr hv).1 srv hu
  have hcleared : ∀ (i : TaskId) (ses : Session) room, s.tasks[i]? = some (.session ses) →
      ses.phase.Leads (.manager (.joinRoom ses.userId room)) →
        s'.world.db.committed.HasMember env room ses.userId := by
    intro i ses room hi hleads
    refine System.hasMember_step hs (h.cleared i ses room hi hleads) fun r v hr hv hremoves => ?_
    exact (hC r v hremoves room ses.userId hr hv).2 i ses hi rfl hleads
  refine ⟨fun srv room u hu => ?_, fun i ses' room hi hleads => ?_, fun srv ch room hch => ?_⟩
  · rcases listed_step horderly hs hu with hold | ⟨i, ses, hi, rfl, hleads⟩
    · exact hlisted srv room u hold
    · exact hcleared i ses room hi hleads
  · obtain ⟨ses, hi, huser, -, hleads | ⟨x, rfl, hpasses⟩⟩ :=
      System.leads_step hgates hs hi hleads rfl
    · rw [← huser] at hleads ⊢
      exact hcleared i ses room hi hleads
    · rw [← huser]
      cases hpasses with
      | check hr hv hx => exact hposting.member hi hr hv hx
      | limit _ _ _ hasked => exact absurd ⟨_, _, rfl⟩ hasked.1
  · rcases callbacks_step horderly hs hch with hold | hnew
    · exact h.callbacks srv ch room hold
    · exact hnew

theorem confined_reach {t : Tables}
    (hr : Reach (System.step env) (RemovesOutsiders env) (.init t) s) : s.Confined env := by
  induction hr with
  | init =>
    refine ⟨fun _ _ _ hu => ?_, fun _ _ _ hi => ?_, fun _ _ _ hch => ?_⟩
    · cases hu
    · cases hi
    · cases hch
  | tail hr hC hs ih =>
    exact confined_step (each_reach inherited_gates hr) (each_reach inherited_orderly hr)
      (posting_reach hr) ih hC hs

/-! ## The messages -/

/-- The step queues a delivery on a connection: it has passed the queue after the step, and had not
before. -/
def HandsOver (s s' : System) (srv : ServerId) (c : ConnId) (d : Delivery) : Prop :=
  d ∈ ((s'.world.servers srv).manager.heap c).passed ∧
    d ∉ ((s.world.servers srv).manager.heap c).passed

/-- A broadcast queues its payload on connections of users in the list. -/
theorem passed_listed {m : ConnectionManager Delivery} {maxsize : Nat} {room : RoomId}
    {payload d : Delivery} {exclude_user : Option UserId} {c : ConnId} (h : m.Owned)
    (hnew : d ∈ ((m.broadcastToRoom maxsize room payload exclude_user).heap c).passed)
    (hold : d ∉ (m.heap c).passed) :
    d = payload ∧ (m.heap c).userId ∈ m.getRoomUserIds room := by
  have hfan : FanOut maxsize m room payload exclude_user
      (m.broadcastToRoom maxsize room payload exclude_user) :=
    fanOut_broadcastOver h (m.getRoomUserIds room).nodup fun _ => Iff.rfl
  -- only a recipient with space in its queue gets anything
  by_cases hto : m.Recipient room exclude_user c ∧ full maxsize (m.heap c).sendQueue = false
  · obtain ⟨hrecipient, hspace⟩ := hto
    rw [hfan.delivered c hrecipient hspace, passed_enqueue] at hnew
    obtain ⟨u, hu, -, hget⟩ := hrecipient
    rcases List.mem_append.mp hnew with hnew | hnew
    · exact absurd hnew hold
    · rw [(h u c hget).1]
      exact ⟨List.mem_singleton.mp hnew, hu⟩
  · rw [hfan.others c hto] at hnew
    exact absurd hnew hold

/-- A listener hands over by the callback of the channel. -/
theorem listen_listed {w w' : World} {srv other : ServerId} {e : RedisBroker.ListenerEvent}
    {c : ConnId} {d : Delivery} {channel : Channel} {n : Nat} (howned : w.Owned)
    (hlisten : w.listen env other e = some w')
    (hnew : d ∈ ((w'.servers srv).manager.heap c).passed)
    (hold : d ∉ ((w.servers srv).manager.heap c).passed) (hsource : d.source = some (channel, n)) :
    ∃ room, (w.servers srv).broker.callbacks.get? channel = some room ∧
      ((w.servers srv).manager.heap c).userId ∈ (w.servers srv).manager.getRoomUserIds room := by
  rcases World.manager_listen hlisten srv with he |
    ⟨rfl, b, channel', k, message, room, outbound, exclude_user, hb, hcallback, he⟩
  · rw [he] at hnew
    exact absurd hnew hold
  · rw [he] at hnew
    rw [RedisBroker.callbacks_listenerStep hb] at hcallback
    obtain ⟨rfl, hlisted⟩ := passed_listed (howned srv) hnew hold
    cases hsource
    exact ⟨room, hcallback, hlisted⟩

/-- **Messages of a channel are handed over by its callback**, to users it finds in the list. -/
theorem HandsOver.listed {srv : ServerId} {c : ConnId} {d : Delivery} {channel : Channel} {n : Nat}
    (horderly : s.Each fun o part {_} p => p.All (Op.Orderly env o part)) (howned : s.world.Owned)
    (hs : s.step env l = some s') (h : s.HandsOver s' srv c d)
    (hsource : d.source = some (channel, n)) :
    ∃ room, (s.world.servers srv).broker.callbacks.get? channel = some room ∧
      ((s.world.servers srv).manager.heap c).userId ∈
        (s.world.servers srv).manager.getRoomUserIds room := by
  obtain ⟨hnew, hold⟩ := h
  have hloses : ¬Loses ((s.world.servers srv).manager.heap c).passed
      ((s'.world.servers srv).manager.heap c).passed := by
    intro hl
    rcases hl.mem hnew with hmem | hnone
    · exact hold hmem
    · rw [hnone] at hsource
      cases hsource
  by_cases hl : ∃ i x, l = .run i x
  · obtain ⟨i, x, rfl⟩ := hl
    have hmoves := System.moves hs
    cases hmoves with
    | background hl _ => exact absurd hl id
    | run hi ht _ =>
      obtain ⟨op, a, hhead, hx⟩ := Task.step_exec ht
      rcases managers_exec hx srv with ⟨maxsize, me, o, rfl, -, he⟩ | he
      · obtain ⟨part, α, p, hall, hp⟩ := Task.Each.head (horderly i _ hi) hhead
        have hissued : (Op.manager o).Issued := by
          have hop := Coro.All.head hall hp
          cases o with
          | sendToUser u p => exact hop
          | _ => trivial
        refine absurd ?_ hloses
        rw [he]
        exact loses_after hissued
      · rw [he] at hnew
        exact absurd hnew hold
  · rcases System.env_cases (fun i x he => hl ⟨i, x, he⟩) hs with he | ⟨other, m, he, hevent⟩ |
      ⟨other, e, -, hlisten⟩
    · rw [he] at hnew
      exact absurd hnew hold
    · rw [he, World.manager_setManager] at hnew
      split at hnew
      · rename_i hsrv
        subst hsrv
        refine absurd ?_ hloses
        rw [he, World.manager_setManager, if_pos rfl]
        exact loses_event hevent
      · exact absurd hnew hold
    · exact listen_listed howned hlisten hnew hold hsource

end Steps

/-- **Live confidentiality**: whoever is handed a message of a room is a member of it at that
moment, in every run in which nobody loses a membership while listed in the room or past the check
on the way to it. -/
theorem live_confidentiality {env : Env} {t : Tables} {s s' : System} {l : Label}
    (hr : Reach (System.step env) (RemovesOutsiders env) (.init t) s)
    (hs : s.step env l = some s') {srv : ServerId} {c : ConnId} {d : Delivery} {channel : Channel}
    {n : Nat} (h : s.HandsOver s' srv c d) (hsource : d.source = some (channel, n)) :
    ∃ room, channel = Chat.roomChannel env (.str room) ∧ s.world.db.committed.HasMember env room
      ((s.world.servers srv).manager.heap c).userId := by
  obtain ⟨room, hcallback, hlisted⟩ := h.listed (each_reach inherited_orderly hr)
    (System.owning_reach hr).owned hs hsource
  have hconfined := confined_reach hr
  exact ⟨room, hconfined.callbacks srv channel room hcallback,
    hconfined.listed srv room _ hlisted⟩

/-! ### A message after a leave -/

namespace Sample

/-- User 1 joins room 3, and may then leave it over HTTP; user 2 posts a message, and the listener
hands out what was published before. -/
def posted (leaves : List Label) (poster : TaskId) : List Label :=
  enters 0 0 ++ handles 0 (about "join_room" []) 15 ++ leaves ++
    (.connect 0 second "u2" :: goes poster 3) ++
    handles poster (about "message" [("content", .str "hi")]) 6 1 ++ .listener 0 .begin :: hears 0 1

/-- User 1 leaves room 3 over HTTP. -/
def leavesOverHttp : List Label := .request (.leaveRoom 3 1) :: goes 1 4

/-- The transaction of the task deletes no membership. -/
def deletesNobody (s : System) : Label → Bool
  | .run i _ => (s.world.db.flushed i).all fun
    | .deleteMember _ => false
    | _ => true
  | _ => true

/-- The first connection is handed the chat message at place `n` of the channel of room 3. -/
def handed (n : Nat) (s s' : System) : Bool :=
  ((s'.world.servers 0).manager.heap 0).passed.any (fun d =>
    d.source = some (roomThree, n) && d.message.event = "message") &&
    n ∉ positions roomThree ((s.world.servers 0).manager.heap 0).passed

theorem removesOutsiders_of_test {env : Env} (s : System) (l : Label)
    (h : deletesNobody s l = true) : s.RemovesOutsiders env l := by
  rintro r v ⟨i, x, t, rfl, -, -, -, m, -, -, hdelete⟩
  have hall := List.all_eq_true.mp h _ hdelete
  cases hall

theorem handsOver_of_handed {n : Nat} {s s' : System} (h : handed n s s' = true) :
    ∃ d, s.HandsOver s' 0 0 d ∧ d.source = some (roomThree, n) ∧ d.message.event = "message" := by
  obtain ⟨hnew, hold⟩ := (Bool.and_eq_true _ _).mp h
  obtain ⟨d, hd, hp⟩ := List.any_eq_true.mp hnew
  obtain ⟨hsource, hevent⟩ := (Bool.and_eq_true _ _).mp hp
  refine ⟨d, ⟨hd, fun hmem => ?_⟩, of_decide_eq_true hsource, of_decide_eq_true hevent⟩
  exact of_decide_eq_true hold (mem_positions.mpr ⟨d, hmem, of_decide_eq_true hsource⟩)

end Sample

set_option maxRecDepth 20000 in
open System.Sample in
/-- User 1, a member, is handed the message of user 2. -/
theorem live_confidentiality_member : ∃ s s' d, Reach (System.step .sample)
    (RemovesOutsiders .sample) (.init shared) s ∧
      s.step .sample (.listener 0 (.receive roomThree)) = some s' ∧ s.HandsOver s' 0 0 d ∧
        ∃ room, roomThree = Chat.roomChannel .sample (.str room) ∧
          s.world.db.committed.HasMember .sample room
            ((s.world.servers 0).manager.heap 0).userId := by
  have hrun : ((replayIf (System.step .sample) deletesNobody (posted [] 1)
      (.init shared)).any fun s => (s.step .sample (.listener 0 (.receive roomThree))).any
        fun s' => handed 1 s s') = true := by
    decide +kernel
  obtain ⟨s, hs, htest⟩ := (Option.any_eq_true _ _).mp hrun
  obtain ⟨s', hs', hhanded⟩ := (Option.any_eq_true _ _).mp htest
  obtain ⟨d, hd, hsource, -⟩ := handsOver_of_handed hhanded
  have hr : Reach (System.step .sample) (RemovesOutsiders .sample) (.init shared) s :=
    .of_replayIf removesOutsiders_of_test .init hs
  exact ⟨s, s', d, hr, hs', hd, live_confidentiality hr hs' hd hsource⟩

set_option maxRecDepth 20000 in
open System.Sample in
/-- **User 1 has left room 3 over HTTP, and is handed the next message.** -/
theorem not_live_confidentiality : ¬∀ (env : Env) (t : Tables) (s s' : System) (l : Label)
    (srv : ServerId) (c : ConnId) (d : Delivery) (channel : Channel) (n : Nat),
    Reach (System.step env) Always (.init t) s → s.step env l = some s' → s.HandsOver s' srv c d →
      d.source = some (channel, n) → d.message.event = "message" →
        ∃ room, channel = Chat.roomChannel env (.str room) ∧ s.world.db.committed.HasMember env room
          ((s.world.servers srv).manager.heap c).userId := by
  intro hall
  have hrun : ((replay (System.step .sample) (posted leavesOverHttp 2)
      (.init shared)).any fun s => (s.step .sample (.listener 0 (.receive roomThree))).any
        fun s' => handed 1 s s' && (((s.world.servers 0).manager.heap 0).userId =
          "00000000-0000-0000-0000-000000000001" &&
            (s.world.db.committed.membership 3 1).isNone)) = true := by
    decide +kernel
  obtain ⟨s, hs, htest⟩ := (Option.any_eq_true _ _).mp hrun
  obtain ⟨s', hs', htest⟩ := (Option.any_eq_true _ _).mp htest
  obtain ⟨hhanded, htest⟩ := (Bool.and_eq_true _ _).mp htest
  obtain ⟨huser, hnone⟩ := (Bool.and_eq_true _ _).mp htest
  obtain ⟨d, hd, hsource, hevent⟩ := handsOver_of_handed hhanded
  obtain ⟨room, hchannel, r, v, hr, hv, hmember⟩ :=
    hall _ _ s s' _ 0 0 d _ 1 (.of_replay .init hs) hs' hd hsource hevent
  have hroom : "00000000-0000-0000-0000-000000000003" = room :=
    (String.append_right_inj "room:").mp hchannel
  rw [of_decide_eq_true huser] at hv
  rw [← hroom] at hr
  obtain rfl : 3 = r := Option.some.inj ((by decide : Env.sample.uuid
    "00000000-0000-0000-0000-000000000003" = some 3).symm.trans hr)
  obtain rfl : 1 = v := Option.some.inj ((by decide : Env.sample.uuid
    "00000000-0000-0000-0000-000000000001" = some 1).symm.trans hv)
  rw [Tables.isSome_membership.symm] at hmember
  rw [Option.isNone_iff_eq_none.mp hnone] at hmember
  cases hmember

end System

end NexusChat
