import NexusChat.App.Cleanup
import NexusChat.App.Moves

/-!
# Whose a connection is

In every run, the registered connection of a user is the user's own, and so is the connection of
each of the user's sessions: `connect` returns a connection object it has just made, and nothing
ever changes whose an object is (`System.owning_reach`).
-/

set_option autoImplicit false

namespace NexusChat

open ConnectionManager

namespace World

/-- The connection object is the user's, and has been allocated. -/
def Owns (w : World) (srv : ServerId) (u : UserId) (conn : ConnId) : Prop :=
  ((w.servers srv).manager.heap conn).userId = u ∧ conn < (w.servers srv).manager.nextConn

/-- The registered connections are their users' own. -/
def Owned (w : World) : Prop := ∀ srv, (w.servers srv).manager.Owned

/-- Whoever has a connection object keeps it. -/
def KeepsOwners (w w' : World) : Prop := ∀ srv u conn, w.Owns srv u conn → w'.Owns srv u conn

theorem KeepsOwners.refl (w : World) : w.KeepsOwners w := fun _ _ _ h => h

theorem KeepsOwners.trans {w₁ w₂ w₃ : World} (h : w₁.KeepsOwners w₂) (h' : w₂.KeepsOwners w₃) :
    w₁.KeepsOwners w₃ := fun srv u conn ho => h' srv u conn (h srv u conn ho)

end World

section Steps

variable {env : Env} {srv : ServerId} {me : TaskId} {x : Choice} {w w' : World} {op : Op}
  {r : Except Exn op.Resp}

theorem owner_after {m : ConnectionManager Delivery} {maxsize : Nat} {o : ManagerOp Delivery}
    {c : ConnId} (hc : c < m.nextConn) :
    ((o.after maxsize me m).heap c).userId = (m.heap c).userId := by
  have hregister : ∀ {n : ConnectionManager Delivery} {u : UserId} {name : String},
      c < n.nextConn → ((n.register u name).heap c).userId = (n.heap c).userId := by
    intro n u name hlt
    rw [heap_register, if_neg (Nat.ne_of_lt hlt)]
  cases o with
  | accept | clientState | sendText | rooms | unlock => rfl
  | connectLocked u name =>
    simp only [ManagerOp.after]
    split
    · rfl
    · exact hregister hc
  | close c₀ =>
    rw [ManagerOp.after, heap_closeSocket]
    split
    · rename_i heq
      rw [heq]
    · rfl
  | forceCleanup c₀ => exact congrArg Prod.snd identity_forceCleanup
  | replace old u name =>
    have hforce : ((m.forceCleanup old).heap c).userId = (m.heap c).userId :=
      congrArg Prod.snd identity_forceCleanup
    exact (hregister (n := m.forceCleanup old) hc).trans hforce
  | disconnectLocked u => exact congrArg Prod.snd identity_unregister
  | joinRoom u r => exact congrArg Prod.snd identity_joinRoom
  | leaveRoom u r => exact congrArg Prod.snd identity_leaveRoom
  | sendToUser u p => exact congrArg Prod.snd identity_sendToUser

/-- Instance by instance: an operation of the manager, or nothing that touches a session. -/
theorem keepsOwners_of (h : ∀ srv,
    (∃ maxsize me o, (w'.servers srv).manager =
      ManagerOp.after maxsize me o (w.servers srv).manager) ∨
    SameSessions (w.servers srv).manager (w'.servers srv).manager) :
    w.KeepsOwners w' ∧ (w.Owned → w'.Owned) := by
  refine ⟨fun srv u conn ⟨hu, hlt⟩ => ?_, fun ho srv => ?_⟩
  · rcases h srv with ⟨maxsize, me, o, he⟩ | hs
    · rw [World.Owns, he]
      exact ⟨(owner_after hlt).trans hu, Nat.lt_of_lt_of_le hlt nextConn_after⟩
    · exact ⟨(hs.owner conn).trans hu, Nat.lt_of_lt_of_le hlt (Nat.le_of_eq hs.next.symm)⟩
  · rcases h srv with ⟨maxsize, me, o, he⟩ | hs
    · rw [he]
      exact owned_after (ho srv)
    · exact (ho srv).same hs

theorem managers_exec (h : op.exec env srv me x w = some (r, w')) (other : ServerId) :
    (∃ maxsize me o, op = .manager o ∧ other = srv ∧ (w'.servers other).manager =
      ManagerOp.after maxsize me o (w.servers other).manager) ∨
    (w'.servers other).manager = (w.servers other).manager := by
  rcases Op.exec_manager h with he | ⟨o, r', rfl, ho, he⟩
  · exact .inr (he other)
  · by_cases hsrv : other = srv
    · subst hsrv
      exact .inl ⟨_, _, o, rfl, rfl, (ManagerOp.exec_eq_some ho).2.2⟩
    · exact .inr (he other hsrv)

theorem keepsOwners_exec (h : op.exec env srv me x w = some (r, w')) :
    w.KeepsOwners w' ∧ (w.Owned → w'.Owned) := by
  refine keepsOwners_of fun other => ?_
  rcases managers_exec h other with ⟨maxsize, me, o, -, -, he⟩ | he
  · exact .inl ⟨maxsize, me, o, he⟩
  · rw [he]
    exact .inr (.refl _)

/-- A step that is no operation of a task touches no session. -/
theorem sameSessions_env {s s' : System} {l : Label} (hl : ∀ i x, l ≠ .run i x)
    (hs : s.step env l = some s') (other : ServerId) :
    SameSessions (s.world.servers other).manager (s'.world.servers other).manager := by
  rcases System.env_cases hl hs with he | ⟨srv, m, he, hevent⟩ | ⟨srv, e, -, hlisten⟩
  · rw [he]
    exact .refl _
  · rw [he, World.manager_setManager]
    split
    · rename_i hsrv
      subst hsrv
      exact sameSessions_event hevent
    · exact .refl _
  · exact sameSessions_listen hlisten

end Steps

/-! ## The sessions -/

/-- What is known of a session, by its phase: its connection is its user's, and `connect` is going
to return one that is. -/
def Phase.Owns (env : Env) (me : TaskId) (srv : ServerId) (u : UserId) (w : World) : Phase → Prop
  | .connecting p => p.Safe (SessionExec env srv me) World.KeepsOwners (fun _ _ => True)
      (fun r w => ∀ conn, r = .ok conn → w.Owns srv u conn) w
  | .receiving conn | .handling conn _ _ | .cleanup conn _ => w.Owns srv u conn
  | .ended => True

section Sessions

variable {env : Env} {me : TaskId} {srv : ServerId} {u : UserId} {username : String} {w w' : World}
  {phase : Phase}

/-- An operation of the manager, and its answer. -/
theorem exec_managerOp {x : Choice} {o : ManagerOp Delivery} {r : Except Exn o.Resp}
    (h : (Op.manager o).exec env srv me x w = some (r, w')) :
    r = o.answer x.socket (w.servers srv).manager ∧
      (w'.servers srv).manager = o.after env.maxSendQueueSize me (w.servers srv).manager := by
  obtain ⟨hr, rfl⟩ := Op.world_manager h
  refine ⟨hr, ?_⟩
  rw [World.manager_setManager, if_pos rfl]

theorem owns_register {m : ConnectionManager Delivery} {l : Option TaskId}
    (h : (w.servers srv).manager = { m.register u username with lock := l }) :
    w.Owns srv u m.nextConn := by
  rw [World.Owns, h]
  show ((m.register u username).heap m.nextConn).userId = u ∧ _
  rw [heap_register, if_pos rfl]
  exact ⟨rfl, Nat.lt_succ_self _⟩

/-- **`connect` returns a connection of the user.** -/
theorem owns_connect :
    (Phase.connecting (ConnectionManager.connect managerOp u username)).Owns env me srv u w := by
  refine Coro.safe_perform fun w₁ _ r w₂ _ => ⟨trivial, ?_⟩
  cases r with
  | error e => exact fun conn hc => by cases hc
  | ok _ =>
    refine Coro.safe_perform fun w₃ _ r w₄ hexec => ⟨trivial, ?_⟩
    cases r with
    | error e => exact fun conn hc => by cases hc
    | ok found =>
      obtain ⟨x, hx⟩ := hexec
      obtain ⟨hr, hm⟩ := exec_managerOp hx
      cases hget : (w₃.servers srv).manager.connections.get? u with
      | none =>
        -- nobody is registered: the connection is made at once
        simp only [ManagerOp.answer, hget] at hr
        simp only [ManagerOp.after, hget] at hm
        cases hr
        intro conn hconn
        cases hconn
        exact owns_register (m := (w₃.servers srv).manager) hm
      | some old =>
        simp only [ManagerOp.answer, hget] at hr
        cases hr
        refine Coro.safe_bind (Coro.Safe.of_all (I := fun _ => True) (φ := fun _ => True)
          (fun _ _ _ _ => trivial) (fun _ _ _ _ _ _ _ => ⟨trivial, trivial⟩) (fun r w _ => ?_)
          (all_notifyAndClose' trivial (fun _ => trivial) trivial) trivial)
        cases r with
        | error e => exact fun conn hc => by cases hc
        | ok _ =>
          refine Coro.safe_last fun w₅ _ r w₆ hexec => ⟨trivial, fun conn hconn => ?_⟩
          obtain ⟨x, hx⟩ := hexec
          obtain ⟨hr, hm⟩ := exec_managerOp hx
          subst hr
          cases hconn
          exact owns_register (m := (w₅.servers srv).manager.forceCleanup old) hm

/-- Others keep the owners. -/
theorem Phase.Owns.keeps (h : phase.Owns env me srv u w) (hw : w.KeepsOwners w') :
    phase.Owns env me srv u w' := by
  have htrans : IsTrans World World.KeepsOwners := ⟨fun _ _ _ => World.KeepsOwners.trans⟩
  cases phase with
  | connecting p =>
    exact Coro.Safe.rely (fun r w w' hk hc conn heq => hk _ _ _ (hc conn heq)) hw h
  | receiving conn => exact hw _ _ _ h
  | handling conn frame p => exact hw _ _ _ h
  | cleanup conn p => exact hw _ _ _ h
  | ended => trivial

theorem Phase.owns_settle {isOpen : ConnId → Bool} (h : phase.Owns env me srv u w) :
    (phase.settle env u username isOpen).Owns env me srv u w := by
  cases phase with
  | connecting p =>
    cases p with
    | ret conn => exact h conn rfl
    | raise e => trivial
    | await op k => exact h
  | receiving conn => exact h
  | handling conn frame p =>
    cases p with
    | ret a =>
      simp only [Phase.settle]
      split <;> exact h
    | raise e => exact h
    | await op k => exact h
  | cleanup conn p =>
    cases p with
    | ret a => trivial
    | raise e => trivial
    | await op k => exact h
  | ended => trivial

/-- A session's own operation. -/
theorem Phase.owns_step {x : Choice} {phase' : Phase} (h : phase.Owns env me srv u w)
    (hs : phase.step env srv me x w = some (phase', w')) : phase'.Owns env me srv u w' := by
  cases phase with
  | receiving conn => cases hs
  | ended => cases hs
  | connecting p =>
    obtain ⟨⟨p', w₁⟩, hp, heq⟩ := Option.map_eq_some_iff.mp hs
    cases heq
    obtain ⟨op, k, r, rfl, hx, rfl⟩ := Coro.step_eq_some hp
    exact (h w (.refl w) r w' ⟨x, hx⟩).2
  | handling conn frame p =>
    obtain ⟨⟨p', w₁⟩, hp, heq⟩ := Option.map_eq_some_iff.mp hs
    cases heq
    obtain ⟨op, k, r, rfl, hx, rfl⟩ := Coro.step_eq_some hp
    exact (keepsOwners_exec hx).1 _ _ _ h
  | cleanup conn p =>
    obtain ⟨⟨p', w₁⟩, hp, heq⟩ := Option.map_eq_some_iff.mp hs
    cases heq
    obtain ⟨op, k, r, rfl, hx, rfl⟩ := Coro.step_eq_some hp
    exact (keepsOwners_exec hx).1 _ _ _ h

theorem Session.owns_receive {ses ses' : Session} {conn : ConnId} {frame : Frame}
    (h : w'.Owns ses.server ses.userId conn)
    (hses : ses.receive env conn w frame = (ses', w')) :
    ses'.phase.Owns env me ses'.server ses'.userId w' := by
  cases frame with
  | json data =>
    cases hses
    have hphase : (Phase.handling conn (some data) (Chat.handleFrame env ses.userId ses.username
        data)).Owns env me ses.server ses.userId w := h
    exact Phase.owns_settle hphase
  | notJson =>
    cases hses
    exact h
  | binary =>
    cases hses
    exact h
  | disconnect =>
    cases hses
    exact h

/-- The registered connections are their users' own, and so are those of the sessions. -/
structure System.Owning (env : Env) (s : System) : Prop where
  owned : s.world.Owned
  sessions : ∀ (i : TaskId) (ses : Session), s.tasks[i]? = some (.session ses) →
    ses.phase.Owns env i ses.server ses.userId s.world

theorem System.owning_step {s s' : System} {l : Label} (h : s.Owning env)
    (hs : s.step env l = some s') : s'.Owning env := by
  have hkeeps : s.world.KeepsOwners s'.world ∧ (s.world.Owned → s'.world.Owned) := by
    by_cases hl : ∃ i x, l = .run i x
    · obtain ⟨i, x, rfl⟩ := hl
      have hmoves := System.moves hs
      cases hmoves with
      | run hi ht htasks =>
        obtain ⟨op, r, -, hexec⟩ := Task.step_exec ht
        exact keepsOwners_exec hexec
      | background hl _ => exact absurd hl id
    · exact keepsOwners_of fun srv => .inr (sameSessions_env (fun i x he => hl ⟨i, x, he⟩) hs srv)
  refine ⟨hkeeps.2 h.owned, fun i ses hi => ?_⟩
  have hold : s.tasks[i]? = some (.session ses) →
      ses.phase.Owns env i ses.server ses.userId s'.world := fun hi =>
    (h.sessions i ses hi).keeps hkeeps.1
  have hmoves := System.moves hs
  cases hmoves with
  | run hj ht htasks =>
    rw [htasks] at hi
    rcases getElem?_replace hi with ⟨-, hi⟩ | ⟨rfl, rfl⟩
    · exact hold hi
    · obtain ⟨ses₀, rfl, -⟩ := Task.session_step ht
      obtain ⟨⟨phase', w'⟩, hphase, heq⟩ := Option.map_eq_some_iff.mp ht
      obtain ⟨hses, hworld⟩ := Prod.mk.inj heq
      cases hses
      rw [← hworld]
      exact Phase.owns_settle (Phase.owns_step (h.sessions i ses₀ hj) hphase)
  | receive hj hphase hses htasks =>
    rw [htasks] at hi
    rcases getElem?_replace hi with ⟨-, hi⟩ | ⟨rfl, heq⟩
    · exact hold hi
    · cases heq
      have howns := h.sessions i _ hj
      rw [hphase] at howns
      exact Session.owns_receive (hkeeps.1 _ _ _ howns) hses
  | connect hworld htasks =>
    rw [htasks] at hi
    rcases getElem?_spawn hi with hi | ⟨-, heq⟩
    · exact hold hi
    · cases heq
      exact owns_connect
  | request hworld htasks =>
    rw [htasks] at hi
    rcases getElem?_spawn hi with hi | ⟨-, heq⟩
    · exact hold hi
    · cases heq
  | force htasks =>
    rw [htasks] at hi
    rcases getElem?_spawn hi with hi | ⟨-, heq⟩
    · exact hold hi
    · cases heq
  | background hl htasks =>
    rw [htasks] at hi
    exact hold hi

theorem System.owning_reach {C : System → Label → Prop} {t : Tables} {s : System}
    (hr : Reach (System.step env) C (.init t) s) : s.Owning env := by
  have hinit : (System.init t).Owning env :=
    ⟨fun _ _ _ hc => (by cases hc), fun i ses hi => (by cases hi)⟩
  exact hr.invariant hinit fun _ _ _ h _ hs => System.owning_step h hs

/-- **The connection of a session is its user's**, in every run. -/
theorem System.Owning.session {s : System} (h : s.Owning env) {i : TaskId} {ses : Session}
    {conn : ConnId} (hi : s.tasks[i]? = some (.session ses)) (hconn : ses.phase.conn = some conn) :
    s.world.Owns ses.server ses.userId conn := by
  have howns := h.sessions i ses hi
  cases hphase : ses.phase with
  | connecting p => rw [hphase] at hconn; cases hconn
  | ended => rw [hphase] at hconn; cases hconn
  | _ =>
    rw [hphase] at hconn howns
    cases hconn
    exact howns

end Sessions

end NexusChat
