import NexusChat.App.Frame
import NexusChat.Api.Footprint
import NexusChat.Messaging.SingleSession

/-!
# The end of a session

The `finally` of a session walks over its rooms: for each it takes the user off the presence set
and publishes that the user is offline, and after the loop it unregisters the connection. The
publish is inside a `try`, `set_offline` is not: if it raises, the session ends there, and nobody
unregisters the connection any more.

`serve` is the endpoint up to its `finally`. A session runs among everything else that goes on
(`Meanwhile`): other users connect, join, leave and disconnect, there are broadcasts, and the
connection itself may be forced out by one that it was too slow for. What is excluded is a second
session of the user.
-/

set_option autoImplicit false

namespace NexusChat

open ConnectionManager

/-! ## What goes on in the meantime -/

/-- The manager's operations of a task are no other session's of the user. -/
def Op.Foreign (u : UserId) (m : ConnectionManager Delivery) : Op → Prop
  | .manager o => m.Foreign u o
  | _ => True

/-- One step of somebody else, next to the session of `u` on the instance `srv`. -/
inductive Meanwhile (env : Env) (srv : ServerId) (u : UserId) :
    World → World → Prop where
  | op {other : ServerId} {me : TaskId} {op : Op} {x : Choice} {w w' : World}
      {r : Except Exn op.Resp} (hop : other = srv → op.Foreign u (w.servers srv).manager)
      (hx : op.exec env other me x w = some (r, w')) : Meanwhile env srv u w w'
  | event {other : ServerId} {m : ConnectionManager Delivery} {w : World}
      (h : ManagerEvent (w.servers other).manager m) :
      Meanwhile env srv u w (w.setManager other m)
  | listen {other : ServerId} {e : RedisBroker.ListenerEvent} {w w' : World}
      (h : w.listen env other e = some w') : Meanwhile env srv u w w'

section Meanwhile

variable {env : Env} {srv : ServerId} {u : UserId} {conn : ConnId} {w w' : World}

theorem sameSessions_event {m m' : ConnectionManager Delivery} (h : ManagerEvent m m') :
    SameSessions m m' := by
  cases h with
  | force => exact ⟨rfl, rfl, rfl, fun _ => rfl, fun _ => rfl⟩
  | clientGone => exact sameSessions_modify fun _ => ⟨rfl, rfl⟩
  | sendTake h => exact sameSessions_sendTake h
  | sendDone h => exact sameSessions_sendDone h

theorem sameSessions_listen {other : ServerId} {e : RedisBroker.ListenerEvent}
    (h : w.listen env other e = some w') :
    SameSessions (w.servers srv).manager (w'.servers srv).manager := by
  rcases World.manager_listen h srv with he | ⟨rfl, _, _, _, _, _, _, _, -, -, he⟩
  · rw [he]
    exact .refl _
  · rw [he]
    exact sameSessions_broadcastToRoom

/-- What others do to the manager of the instance: an operation of a task that is foreign, or
nothing that touches a session. -/
theorem Meanwhile.manager (h : Meanwhile env srv u w w') :
    (∃ maxsize me o, (w.servers srv).manager.Foreign u o ∧
      (w'.servers srv).manager = ManagerOp.after maxsize me o (w.servers srv).manager) ∨
    SameSessions (w.servers srv).manager (w'.servers srv).manager := by
  cases h with
  | @op other me op x _ _ r hop hx =>
    rcases Op.exec_manager hx with he | ⟨o, r', rfl, ho, he⟩
    · rw [he]
      exact Or.inr (.refl _)
    · by_cases hsrv : srv = other
      · subst hsrv
        exact Or.inl ⟨_, _, o, hop rfl, (ManagerOp.exec_eq_some ho).2.2⟩
      · rw [he srv hsrv]
        exact Or.inr (.refl _)
  | @event other m _ h =>
    rw [World.manager_setManager]
    split
    · rename_i hsrv
      subst hsrv
      exact Or.inr (sameSessions_event h)
    · exact Or.inr (.refl _)
  | listen h => exact Or.inr (sameSessions_listen h)

theorem Meanwhile.single (h : Meanwhile env srv u w w')
    (hs : (w.servers srv).manager.Single u conn) : (w'.servers srv).manager.Single u conn := by
  rcases h.manager with ⟨maxsize, me, o, ho, he⟩ | he
  · rw [he]
    exact single_after hs ho
  · exact hs.same he

theorem Meanwhile.gone (h : Meanwhile env srv u w w') (hg : (w.servers srv).manager.Gone u) :
    (w'.servers srv).manager.Gone u := by
  rcases h.manager with ⟨maxsize, me, o, ho, he⟩ | he
  · rw [he]
    exact gone_after hg ho
  · exact hg.same he

end Meanwhile

/-! ## The `finally` of the endpoint -/

/-- A `set_offline` that raises. -/
def raisesOffline : (op : Op) → Except Exn op.Resp → Bool
  | .redis (.zrem _ _), .error _ => true
  | _, _ => false

/-- The user has a connection on the instance. -/
def World.registered (w : World) (srv : ServerId) (u : UserId) : Bool :=
  ((w.servers srv).manager.connections.get? u).isSome

/-- One operation of the session; the flag becomes true when a `set_offline` raises while the
user's connection is registered. -/
def CleanupExec (env : Env) (srv : ServerId) (me : TaskId) (u : UserId) (op : Op)
    (s : World × Bool) (r : Except Exn op.Resp) (s' : World × Bool) : Prop :=
  (∃ x, op.exec env srv me x s.1 = some (r, s'.1)) ∧
    s'.2 = (s.2 || (raisesOffline op r && s.1.registered srv u))

/-- What goes on between two operations of the session. -/
def InBetween (env : Env) (srv : ServerId) (u : UserId) (s s' : World × Bool) : Prop :=
  Relation.ReflTransGen (Meanwhile env srv u) s.1 s'.1 ∧ s'.2 = s.2

section Cleanup

variable {env : Env} {srv : ServerId} {me : TaskId} {u : UserId} {username : String}
  {conn : ConnId} {s s' : World × Bool}

/-- The session is there or gone, and no `set_offline` has raised. -/
def Unharmed (srv : ServerId) (u : UserId) (conn : ConnId) (s : World × Bool) : Prop :=
  (s.1.servers srv).manager.Single u conn ∧ s.2 = false

/-- The session is over. -/
def Over (srv : ServerId) (u : UserId) (s : World × Bool) : Prop :=
  (s.1.servers srv).manager.Gone u ∧ s.2 = false

/-- The user is gone unless a `set_offline` has raised. -/
def Outcome (srv : ServerId) (u : UserId) (s : World × Bool) : Prop :=
  (s.1.servers srv).manager.Gone u ↔ s.2 = false

theorem Over.outcome (h : Over srv u s) : Outcome srv u s :=
  ⟨fun _ => h.2, fun _ => h.1⟩

theorem stable_unharmed : Coro.Stable (InBetween env srv u) (Unharmed srv u conn) := by
  rintro s s' ⟨hr, hflag⟩ ⟨hs, hf⟩
  have hstable : Coro.Stable (Meanwhile env srv u)
      fun w => (w.servers srv).manager.Single u conn := fun _ _ h => h.single
  exact ⟨hstable.reflTransGen _ _ hr hs, hflag.trans hf⟩

theorem stable_over : Coro.Stable (InBetween env srv u) (Over srv u) := by
  rintro s s' ⟨hr, hflag⟩ ⟨hs, hf⟩
  have hstable : Coro.Stable (Meanwhile env srv u)
      fun w => (w.servers srv).manager.Gone u := fun _ _ h => h.gone
  exact ⟨hstable.reflTransGen _ _ hr hs, hflag.trans hf⟩

/-- The operations of the session that can neither raise the flag nor change the manager. -/
def Harmless : Op → Prop
  | .manager (.rooms _) => True
  | .manager _ | .redis (.zrem _ _) => False
  | _ => True

theorem harmless_exec {op : Op} {r : Except Exn op.Resp} (hop : Harmless op)
    (h : CleanupExec env srv me u op s r s') :
    (s'.1.servers srv).manager = (s.1.servers srv).manager ∧ s'.2 = s.2 := by
  obtain ⟨⟨x, hx⟩, hflag⟩ := h
  constructor
  · rcases Op.exec_manager hx with he | ⟨o, r', rfl, ho, -⟩
    · exact he srv
    · cases o with
      | rooms c => exact (ManagerOp.exec_eq_some ho).2.2
      | _ => exact absurd hop id
  · have hraise : raisesOffline op r = false := by
      cases op with
      | redis o =>
        cases o with
        | zrem key member => exact absurd hop id
        | _ => rfl
      | _ => rfl
    rw [hflag, hraise, Bool.false_and, Bool.or_false]

/-- One operation on the manager; the flag stays as it is. -/
theorem manager_exec {o : ManagerOp Delivery} {r : Except Exn o.Resp}
    (h : CleanupExec env srv me u (.manager o) s r s') :
    (∃ maxsize, (s'.1.servers srv).manager = o.after maxsize me (s.1.servers srv).manager) ∧
      s'.2 = s.2 := by
  obtain ⟨⟨x, hx⟩, hflag⟩ := h
  have hraise : raisesOffline (.manager o) r = false := rfl
  rw [hraise, Bool.false_and, Bool.or_false] at hflag
  refine ⟨⟨env.maxSendQueueSize, ?_⟩, hflag⟩
  obtain ⟨⟨r', m⟩, ho, heq⟩ := Option.map_eq_some_iff.mp hx
  obtain ⟨-, -, rfl⟩ := ManagerOp.exec_eq_some ho
  have hs' : s'.1 = s.1.setManager srv (o.after env.maxSendQueueSize me (s.1.servers srv).manager) :=
    (Prod.mk.inj heq).2.symm
  rw [hs', World.manager_setManager, if_pos rfl]

/-- A program of the session. -/
abbrev Ends {α : Type} (env : Env) (srv : ServerId) (me : TaskId) (u : UserId)
    (Q : Except Exn α → World × Bool → Prop) (p : Prog α) (s : World × Bool) : Prop :=
  p.Safe (CleanupExec env srv me u) (InBetween env srv u) (fun _ _ => True) Q s

theorem ends_leaveAll {rooms : List RoomId} (h : Unharmed srv u conn s) :
    Ends env srv me u
      (fun r s => match r with
        | .ok _ => Unharmed srv u conn s
        | .error _ => Outcome srv u s)
      (Chat.leaveAll env u username rooms) s := by
  induction rooms generalizing s with
  | nil => exact h
  | cons room_id rooms ih =>
    -- `set_offline`: if it raises, the flag says whether the user was registered
    refine Coro.safe_perform fun s₁ hr r s₂ hx => ⟨trivial, ?_⟩
    obtain ⟨hsingle, hfalse⟩ := stable_unharmed _ _ hr h
    obtain ⟨⟨x, hx⟩, hflag⟩ := hx
    have hmanager : (s₂.1.servers srv).manager = (s₁.1.servers srv).manager := by
      rcases Op.exec_manager hx with he | ⟨o, r', hop, -⟩
      · exact he srv
      · cases hop
    have hsingle : (s₂.1.servers srv).manager.Single u conn := hmanager ▸ hsingle
    cases r with
    | error e =>
      have hlost : s₂.2 = s₁.1.registered srv u := by
        rw [hflag, hfalse]
        rfl
      show Outcome srv u s₂
      rw [Outcome, hlost, hsingle.gone_iff, hmanager]
      rfl
    | ok _ =>
      have hs₂ : Unharmed srv u conn s₂ := ⟨hsingle, by rw [hflag, hfalse]; rfl⟩
      -- the publish, whatever becomes of it
      refine Coro.safe_bind (Coro.safe_tryCatch ?_)
      refine Coro.Safe.of_all (φ := Harmless) stable_unharmed ?_ ?_
        (all_publish_ops trivial trivial trivial (fun _ => trivial) trivial) hs₂
      · intro op hop s r s' hs hx
        obtain ⟨hm, hf⟩ := harmless_exec hop hx
        exact ⟨trivial, hm ▸ hs.1, hf.trans hs.2⟩
      · intro r s hs
        cases r with
        | ok _ => exact ih hs
        | error e => exact ih hs

theorem ends_disconnect (h : Unharmed srv u conn s) :
    Ends env srv me u (fun _ s => Over srv u s)
      (ConnectionManager.disconnect managerOp u) s := by
  refine Coro.safe_perform fun s₁ hr r s₂ hx => ⟨trivial, ?_⟩
  obtain ⟨hsingle, hfalse⟩ := stable_unharmed _ _ hr h
  obtain ⟨⟨maxsize, hm⟩, hflag⟩ := manager_exec hx
  have hover : Over srv u s₂ := by
    refine ⟨?_, hflag.trans hfalse⟩
    rw [hm]
    exact hsingle.gone_unregister
  -- the rest only closes the socket and leaves the lock
  have hrest : ∀ p : Prog Unit, p.All (fun op : Op => op = .manager .unlock ∨
      ∃ c, op = .manager (.close c)) → Ends env srv me u (fun _ s => Over srv u s) p s₂ := by
    intro p hp
    refine Coro.Safe.of_all stable_over ?_ (fun _ _ h => h) hp hover
    intro op hop s r s' hs hx
    refine ⟨trivial, ?_⟩
    rcases hop with rfl | ⟨c, rfl⟩
    all_goals
      obtain ⟨⟨maxsize, hm⟩, hf⟩ := manager_exec hx
      refine ⟨?_, hf.trans hs.2⟩
      rw [hm]
      exact hs.1
  cases r with
  | error e => exact hover
  | ok c =>
    cases c with
    | none => exact hover
    | some c =>
      exact hrest _ (Coro.all_bind (Coro.all_tryCatch (all_managerOp (Or.inr ⟨c, rfl⟩))
        fun _ => trivial) fun _ => all_managerOp (Or.inl rfl))

/-- **When a session has ended its user is gone, unless a `set_offline` has raised** while the
user's connection was registered. -/
theorem ends_cleanup (h : Unharmed srv u conn s) :
    Ends env srv me u (fun _ s => Outcome srv u s) (Chat.cleanup env u username conn) s := by
  refine Coro.safe_perform fun s₁ hr r s₂ hx => ⟨trivial, ?_⟩
  have hs₁ := stable_unharmed _ _ hr h
  have hop : Harmless (.manager (.rooms conn)) := trivial
  obtain ⟨hm, hf⟩ := harmless_exec hop hx
  have hs₂ : Unharmed srv u conn s₂ := ⟨hm ▸ hs₁.1, hf.trans hs₁.2⟩
  cases r with
  | error e =>
    -- the list of the rooms cannot fail
    obtain ⟨⟨x, hx⟩, -⟩ := hx
    obtain ⟨⟨r', m⟩, ho, heq⟩ := Option.map_eq_some_iff.mp hx
    obtain ⟨-, rfl, -⟩ := ManagerOp.exec_eq_some ho
    cases heq
  | ok rooms =>
    refine Coro.safe_bind ((ends_leaveAll hs₂).mono fun r s hs => ?_)
    cases r with
    | error e => exact hs
    | ok _ => exact (ends_disconnect hs).mono fun _ _ => Over.outcome

end Cleanup

/-! ## The endpoint up to its `finally` -/

namespace Chat

variable (env : Env) (user_id : UserId) (username : String)

/-- One iteration of the main loop; `none` is a text that is not JSON. -/
def handleText : Option Json → Prog Unit
  | some data => handleFrame env user_id username data
  | none => sendToUser user_id (.errorMessage "Invalid JSON format")

/-- The main loop, for the texts that arrive before `receive_text` raises. -/
def receiveLoop : List (Option Json) → Prog Unit
  | [] => .raise .webSocketDisconnect
  | text :: texts => do
    handleText env user_id username text
    receiveLoop texts

/-- `websocket_chat` from `connect` to the `finally`, of a user whose token has been accepted. -/
def serve (texts : List (Option Json)) : Prog ConnId := do
  let conn ← ConnectionManager.connect managerOp user_id username
  tryCatchThe Exn
    (do
      sendToUser user_id (.systemMessage "system"
        ("Welcome, " ++ username ++ "! You are connected."))
      receiveLoop env user_id username texts)
    fun _ => pure ()
  pure conn

end Chat

/-- One operation of a session. -/
def SessionExec (env : Env) (srv : ServerId) (me : TaskId) (op : Op) (w : World)
    (r : Except Exn op.Resp) (w' : World) : Prop := ∃ x, op.exec env srv me x w = some (r, w')

/-- The operations on the user's rooms and queue, and those that concern no manager. -/
def Op.Own (u : UserId) : Op → Prop
  | .manager o => ConnectionManager.Own u o
  | _ => True

section Serve

variable {env : Env} {srv : ServerId} {me : TaskId} {u : UserId} {username : String}
  {conn : ConnId} {w w' : World}

theorem own_of_quiet {op : Op} (h : op.Quiet) : op.Own u := by
  cases op with
  | manager o => cases o <;> first | exact trivial | exact absurd h id
  | _ => trivial

theorem own_handleFrame {data : Json} : (Chat.handleFrame env u username data).All (Op.Own u) := by
  have hq : ∀ op : Op, op.Quiet → op.Own u := fun _ => own_of_quiet
  rw [Chat.handleFrame_eq]
  refine Coro.all_bind (Coro.all_ofExcept _) fun event =>
    Coro.all_bind (Coro.all_ofExcept _) fun event_data =>
      Coro.all_bind (all_rateLimited hq) fun limited => ?_
  split
  · exact all_sendToUser hq
  · apply Chat.dispatch_cases (P := fun p => p.All (Op.Own u))
    · intro _
      exact all_handleJoinRoom hq (fun _ _ => trivial) trivial (fun _ => trivial)
        (fun _ _ => trivial) (fun _ => rfl) fun _ => trivial
    · intro _
      exact all_handleLeaveRoom hq (fun _ _ => rfl) fun _ _ => trivial
    · intro _
      exact all_handleMessage hq (fun _ _ => ⟨trivial, fun _ _ _ _ => trivial, trivial, trivial,
        trivial⟩) fun _ _ _ => trivial
    · intro _
      exact all_handleTyping hq fun _ _ => trivial
    · intro _
      exact all_handleTyping hq fun _ _ => trivial
    · exact fun _ => all_sendToUser hq

theorem own_receiveLoop {texts : List (Option Json)} :
    (Chat.receiveLoop env u username texts).All (Op.Own u) := by
  induction texts with
  | nil => trivial
  | cons text texts ih =>
    cases text with
    | none => exact Coro.all_bind (all_sendToUser fun _ => own_of_quiet) fun _ => ih
    | some data => exact Coro.all_bind own_handleFrame fun _ => ih

theorem single_exec {op : Op} {r : Except Exn op.Resp}
    (h : (w.servers srv).manager.Single u conn) (hop : op.Own u)
    (hx : SessionExec env srv me op w r w') : (w'.servers srv).manager.Single u conn := by
  obtain ⟨x, hx⟩ := hx
  rcases Op.exec_manager hx with he | ⟨o, r', rfl, ho, -⟩
  · rw [he]
    exact h
  · rw [(ManagerOp.exec_eq_some ho).2.2]
    exact single_own h hop

theorem Meanwhile.owned (h : Meanwhile env srv u w w') (ho : (w.servers srv).manager.Owned) :
    (w'.servers srv).manager.Owned := by
  rcases h.manager with ⟨maxsize, me, o, -, he⟩ | he
  · rw [he]
    exact owned_after ho
  · exact ho.same he

/-- **The session of a user that had none** is there or gone when it comes to its `finally`. -/
theorem single_serve {texts : List (Option Json)} (howned : (w.servers srv).manager.Owned)
    (hgone : (w.servers srv).manager.Gone u) :
    (Chat.serve env u username texts).Safe (SessionExec env srv me)
      (Relation.ReflTransGen (Meanwhile env srv u)) (fun _ _ => True)
      (fun r w => ∀ conn, r = .ok conn → (w.servers srv).manager.Single u conn) w := by
  have hvacant : Coro.Stable (Relation.ReflTransGen (Meanwhile env srv u)) fun w =>
      (w.servers srv).manager.Owned ∧ (w.servers srv).manager.Gone u :=
    Coro.Stable.reflTransGen fun _ _ h hw => ⟨h.owned hw.1, h.gone hw.2⟩
  have hsingle : ∀ conn, Coro.Stable (Relation.ReflTransGen (Meanwhile env srv u)) fun w =>
      (w.servers srv).manager.Single u conn :=
    fun conn => Coro.Stable.reflTransGen fun _ _ h => h.single
  refine Coro.safe_bind (Coro.safe_perform fun w₁ hr r w₂ hx => ⟨trivial, ?_⟩)
  have hw₁ := hvacant _ _ hr ⟨howned, hgone⟩
  have hw₂ : (w₂.servers srv).manager = (w₁.servers srv).manager := by
    obtain ⟨x, hx⟩ := hx
    rcases Op.exec_manager hx with he | ⟨o, r', hop, ho, -⟩
    · exact he srv
    · cases hop
      exact (ManagerOp.exec_eq_some ho).2.2
  cases r with
  | error e => exact fun conn hc => by cases hc
  | ok _ =>
    -- under the lock: nobody is registered, so the connection is, at once
    refine Coro.safe_perform fun w₃ hr r w₄ hx => ⟨trivial, ?_⟩
    have hw₂ : (w₂.servers srv).manager.Owned ∧ (w₂.servers srv).manager.Gone u := by
      rw [hw₂]
      exact hw₁
    obtain ⟨howned, hgone⟩ := hvacant _ _ hr hw₂
    obtain ⟨x, hx⟩ := hx
    obtain ⟨⟨r', m⟩, ho, heq⟩ := Option.map_eq_some_iff.mp hx
    cases heq
    obtain ⟨-, hr, hm⟩ := ManagerOp.exec_eq_some ho
    simp only [ManagerOp.answer, ManagerOp.after, hgone.1] at hr hm
    subst hr
    subst hm
    have hsession : ((w₃.setManager srv ((w₃.servers srv).manager.register u username)).servers
        srv).manager.Single u (w₃.servers srv).manager.nextConn := by
      rw [World.manager_setManager, if_pos rfl]
      exact Or.inl (hgone.attached_register howned)
    refine Coro.safe_bind (Coro.safe_tryCatch ?_)
    refine Coro.Safe.of_all (φ := Op.Own u) (hsingle _) (fun op hop w r w' hw hx =>
      ⟨trivial, single_exec hw hop hx⟩) ?_
      (Coro.all_bind (all_sendToUser fun _ => own_of_quiet) fun _ => own_receiveLoop) hsession
    intro r w hw
    cases r with
    | ok _ =>
      intro conn hc
      cases hc
      exact hw
    | error e =>
      intro conn hc
      cases hc
      exact hw

/-- **Cleaning up after a session is complete exactly when no `set_offline` raises** while the
user's connection is registered: for a user who had no session on the instance, whatever frames
the session is sent, and whatever goes on next to it but another session of the user. -/
theorem session_cleanup_iff {texts : List (Option Json)} {lost : Bool} {w₁ w₂ : World}
    {r : Except Exn Unit} (howned : (w.servers srv).manager.Owned)
    (hgone : (w.servers srv).manager.Gone u)
    (hserve : (Chat.serve env u username texts).Runs (SessionExec env srv me)
      (Relation.ReflTransGen (Meanwhile env srv u)) w (.ok conn) w₁)
    (hcleanup : (Chat.cleanup env u username conn).Runs (CleanupExec env srv me u)
      (InBetween env srv u) (w₁, false) r (w₂, lost)) :
    (w₂.servers srv).manager.Gone u ↔ lost = false := by
  have hsingle : (w₁.servers srv).manager.Single u conn :=
    (single_serve howned hgone).of_runs hserve conn rfl
  exact (ends_cleanup ⟨hsingle, rfl⟩).of_runs hcleanup

end Serve

/-! ## A `set_offline` that raises -/

/-- What `CleanupExec` allows, as a function of the outcome. -/
def cleanupExec (env : Env) (srv : ServerId) (me : TaskId) (u : UserId) (op : Op) (x : Choice)
    (s : World × Bool) : Option (Except Exn op.Resp × World × Bool) :=
  (op.exec env srv me x s.1).map fun (r, w) =>
    (r, w, s.2 || (raisesOffline op r && s.1.registered srv u))

namespace Sample

def user : UserId := "00000000-0000-0000-0000-000000000001"

/-- A frame that asks to join room 3. -/
def joinFrame : Json :=
  .obj [("event", .str "join_room"), ("data", .obj
    [("room_id", .str "00000000-0000-0000-0000-000000000003")])]

/-- User 1 joins room 3 on instance 0 and goes; the operations of the `finally` come out as `x`. -/
def joinsAndGoes (x : Choice) : Option (ConnId × World × Except Exn Unit × World × Bool) :=
  ((Chat.serve .sample user "u1" [some joinFrame]).run (Op.exec .sample 0 0) (System.smooth 0)
    (World.init .sample)).bind fun (r, w₁) =>
      match r with
      | .ok conn =>
        ((Chat.cleanup .sample user "u1" conn).run (cleanupExec .sample 0 0 user) x
          (w₁, false)).map fun (r, w₂, lost) => (conn, w₁, r, w₂, lost)
      | .error _ => none

/-- The session was in room 3, and Redis answers or not. -/
def leaving (ok : Bool) : Choice :=
  { System.smooth 0 with
    ok, executed := ok, order := ["00000000-0000-0000-0000-000000000003"] }

theorem runs_of_joinsAndGoes {x : Choice} {conn : ConnId} {w₁ w₂ : World} {r : Except Exn Unit}
    {lost : Bool} (h : joinsAndGoes x = some (conn, w₁, r, w₂, lost)) :
    (Chat.serve .sample user "u1" [some joinFrame]).Runs (SessionExec .sample 0 0)
        (Relation.ReflTransGen (Meanwhile .sample 0 user)) (World.init .sample) (.ok conn) w₁ ∧
      (Chat.cleanup .sample user "u1" conn).Runs (CleanupExec .sample 0 0 user)
        (InBetween .sample 0 user) (w₁, false) r (w₂, lost) := by
  obtain ⟨⟨r₁, w⟩, hserve, hrest⟩ := Option.bind_eq_some_iff.mp h
  cases r₁ with
  | error e => cases hrest
  | ok conn' =>
    obtain ⟨⟨r', w', lost'⟩, hcleanup, heq⟩ := Option.map_eq_some_iff.mp hrest
    cases heq
    refine ⟨Coro.runs_of_run (fun _ => .refl) (fun op s r s' hx => ⟨_, hx⟩) hserve,
      Coro.runs_of_run (fun _ => ⟨.refl, rfl⟩) (fun op s r s' hx => ?_) hcleanup⟩
    obtain ⟨⟨r'', w''⟩, hop, heq⟩ := Option.map_eq_some_iff.mp hx
    cases heq
    exact ⟨⟨_, hop⟩, rfl⟩

theorem owned_init : ((World.init .sample).servers 0).manager.Owned := by
  intro u c hc
  cases hc

theorem gone_init : ((World.init .sample).servers 0).manager.Gone user :=
  ⟨rfl, fun r hr => by cases hr⟩

end Sample

set_option maxRecDepth 20000 in
/-- The session leaves its room and is gone. -/
theorem session_cleanup_iff_answered : ∃ conn w₁ r w₂,
    Sample.joinsAndGoes (Sample.leaving true) = some (conn, w₁, r, w₂, false) ∧
      (w₂.servers 0).manager.Gone Sample.user := by
  have hrun : ((Sample.joinsAndGoes (Sample.leaving true)).any fun e => !e.2.2.2.2) = true := by
    decide +kernel
  obtain ⟨⟨conn, w₁, r, w₂, lost⟩, hs, hv⟩ := Option.any_eq_true _ _ |>.mp hrun
  obtain rfl : lost = false := by simpa using hv
  obtain ⟨hserve, hcleanup⟩ := Sample.runs_of_joinsAndGoes hs
  exact ⟨conn, w₁, r, w₂, hs,
    (session_cleanup_iff Sample.owned_init Sample.gone_init hserve hcleanup).mpr rfl⟩

set_option maxRecDepth 20000 in
/-- **With Redis down, the user stays registered**, and in the room. -/
theorem not_session_cleanup : ¬∀ (env : Env) (srv : ServerId) (me : TaskId) (u : UserId)
    (username : String) (texts : List (Option Json)) (conn : ConnId) (w w₁ w₂ : World)
    (r : Except Exn Unit) (lost : Bool), (w.servers srv).manager.Owned →
      (w.servers srv).manager.Gone u →
      (Chat.serve env u username texts).Runs (SessionExec env srv me)
        (Relation.ReflTransGen (Meanwhile env srv u)) w (.ok conn) w₁ →
      (Chat.cleanup env u username conn).Runs (CleanupExec env srv me u)
        (InBetween env srv u) (w₁, false) r (w₂, lost) →
      (w₂.servers srv).manager.Gone u := by
  intro hall
  have hrun : ((Sample.joinsAndGoes (Sample.leaving false)).any fun e =>
      e.2.2.2.1.registered 0 Sample.user) = true := by
    decide +kernel
  obtain ⟨⟨conn, w₁, r, w₂, lost⟩, hs, hv⟩ := Option.any_eq_true _ _ |>.mp hrun
  obtain ⟨hserve, hcleanup⟩ := Sample.runs_of_joinsAndGoes hs
  have hgone := hall _ _ _ _ _ _ _ _ _ _ _ _ Sample.owned_init Sample.gone_init hserve hcleanup
  have hv : (((w₂.servers 0).manager.connections.get? Sample.user).isSome) = true := hv
  rw [hgone.1] at hv
  cases hv

end NexusChat
