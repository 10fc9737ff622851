import NexusChat.Api.GhostPresence

/-!
# Who is registered on an instance

`connect` registers the user of a session, and the `finally` of the session unregisters them,
whichever connection is registered by then. So whoever is registered has a session on the instance
that is still going to unregister them (`System.attended_reach`), as long as Redis answers: if
`set_offline` raises in the `finally`, `disconnect` is not called.
-/

set_option autoImplicit false

namespace NexusChat

open ConnectionManager

/-! ## The registrations of an operation -/

/-- The operation registers the user. -/
def ConnectionManager.Registers (m : ConnectionManager Delivery) (u : UserId)
    (o : ManagerOp Delivery) : Prop :=
  (∃ name, o = .connectLocked u name ∧ m.connections.get? u = none) ∨
    ∃ old name, o = .replace old u name

section Registrations

variable {m : ConnectionManager Delivery} {maxsize : Nat} {me : TaskId} {o : ManagerOp Delivery}
  {u : UserId}

/-- Only `connect` registers a user. -/
theorem registered_before (h : (o.after maxsize me m).connections.get? u ≠ none) :
    m.connections.get? u ≠ none ∨ m.Registers u o := by
  obtain ⟨c, hc⟩ := Option.ne_none_iff_exists'.mp h
  rcases registered_after hc with hold | ⟨-, hregisters⟩
  · rw [hold]
    exact .inl (Option.some_ne_none c)
  · exact .inr hregisters

theorem get?_disconnectLocked :
    ((ManagerOp.disconnectLocked u).after maxsize me m).connections.get? u = none := by
  show (m.unregister u).connections.get? u = none
  rw [get?_unregister, if_pos rfl]

end Registrations

/-! ## Where the programs register and unregister -/

/-- The operations that register nobody. -/
def Op.EnrolsNobody : Op → Prop
  | .manager (.connectLocked _ _) | .manager (.replace _ _ _) => False
  | _ => True

/-- Whoever is registered is the user of the session, and with that `connect` is over. -/
def Op.Enrols (u : UserId) : (op : Op) → (Except Exn op.Resp → Prog ConnId) → Prop
  | .manager (.connectLocked v _), k => v = u ∧ ∀ c, k (.ok (.inr c)) = .ret c
  | .manager (.replace _ v _), k => v = u ∧ ∀ c, k (.ok c) = .ret c
  | _, _ => True

/-- Redis has answered, and a set has been listed. -/
def Op.Served : (op : Op) → Except Exn op.Resp → Prop
  | .redis _, r => ∃ a, r = .ok a
  | .manager (.rooms _), r => ∃ a, r = .ok a
  | _, _ => True

/-- The program is going to unregister the user, if Redis answers. -/
def Unregisters (u : UserId) {α : Type} (p : Prog α) : Prop :=
  p.Surely (S := Op.sig) Op.Served fun op : Op => op = .manager (.disconnectLocked u)

/-- What a session does about registrations, by its phase. -/
def Phase.Enrols (u : UserId) : Phase → Prop
  | .connecting p => p.Nodes (S := Op.sig) (Op.Enrols u)
  | .handling _ _ p | .cleanup _ p => p.All Op.EnrolsNobody
  | .receiving _ | .ended => True

/-- The session is registered, as far as it knows, and has yet to unregister its user. -/
def Phase.Attends (u : UserId) : Phase → Prop
  | .receiving _ | .handling _ _ _ => True
  | .cleanup _ p => Unregisters u p
  | .connecting _ | .ended => False

def Task.Enrols : Task → Prop
  | .session ses => ses.phase.Enrols ses.userId
  | .request _ p | .forced _ _ p => p.All Op.EnrolsNobody

section Programs

variable {env : Env} {srv : ServerId} {me : TaskId} {x : Choice} {w w' : World} {u : UserId}
  {username : String} {conn : ConnId} {phase phase' : Phase} {isOpen : ConnId → Bool}

theorem enrols_connect :
    (Phase.connecting (ConnectionManager.connect managerOp u username)).Enrols u := by
  have hnobody : ∀ (op : Op) (k : Except Exn op.Resp → Prog ConnId), op.EnrolsNobody →
      op.Enrols u k := by
    intro op k h
    cases op with
    | manager o => cases o <;> first | exact trivial | exact absurd h id
    | _ => trivial
  refine ⟨trivial, fun r => ?_⟩
  cases r with
  | error e => trivial
  | ok _ =>
    refine ⟨⟨rfl, fun c => rfl⟩, fun r => ?_⟩
    cases r with
    | error e => trivial
    | ok found =>
      cases found with
      | inr c => trivial
      | inl old =>
        have hnotify : (ConnectionManager.notifyAndClose managerOp old
            "New connection opened").All Op.EnrolsNobody :=
          all_notifyAndClose' trivial (fun _ => trivial) trivial
        show Coro.Nodes (S := Op.sig) (Op.Enrols u) (ConnectionManager.notifyAndClose managerOp old
          "New connection opened" >>= fun _ => managerOp (.replace old u username))
        refine Coro.nodes_bind hnobody hnotify fun _ => ⟨⟨rfl, fun c => rfl⟩, fun r => ?_⟩
        cases r <;> trivial

theorem Op.Quiet.enrolsNobody {op : Op} (h : op.Quiet) : op.EnrolsNobody := by
  cases op with
  | manager o => cases o <;> first | exact trivial | exact absurd h id
  | _ => trivial

theorem Op.Own.enrolsNobody {op : Op} (h : op.Own u) : op.EnrolsNobody := by
  cases op with
  | manager o => cases o <;> first | exact trivial | exact absurd h id
  | _ => trivial

theorem enrolsNobody_cleanup : (Chat.cleanup env u username conn).All Op.EnrolsNobody :=
  all_cleanup (fun _ => Op.Quiet.enrolsNobody) (fun _ => trivial) trivial (fun _ => trivial) trivial

theorem enrolsNobody_sendToUser {m : WSOutboundMessage} :
    (Chat.sendToUser u m).All Op.EnrolsNobody :=
  all_sendToUser fun _ => Op.Quiet.enrolsNobody

theorem enrolsNobody_handleFrame {data : Json} :
    (Chat.handleFrame env u username data).All Op.EnrolsNobody :=
  own_handleFrame.imp fun _ => Op.Own.enrolsNobody

/-- The loop of the `finally` comes to its end. -/
theorem served_leaveAll {rooms : List RoomId} :
    Coro.Ends (S := Op.sig) Op.Served (Chat.leaveAll env u username rooms) := by
  induction rooms with
  | nil => trivial
  | cons room_id rooms ih =>
    refine Coro.ends_bind (S := Op.sig) (Coro.ends_perform fun _ hr => hr) fun _ => ?_
    exact Coro.ends_bind (S := Op.sig) (Coro.ends_tryCatch fun _ => trivial) fun _ => ih

/-- **The `finally` unregisters the user**, if Redis answers. -/
theorem unregisters_cleanup : Unregisters u (Chat.cleanup env u username conn) := by
  refine Coro.surely_after (S := Op.sig) (Coro.ends_perform fun _ hr => hr) fun rooms => ?_
  exact Coro.surely_after (S := Op.sig) served_leaveAll fun _ =>
    Coro.surely_bind (S := Op.sig) (Coro.surely_perform rfl)

theorem Phase.enrols_settle (h : phase.Enrols u) :
    (phase.settle env u username isOpen).Enrols u := by
  cases phase with
  | connecting p =>
    cases p with
    | ret conn => exact enrolsNobody_sendToUser
    | raise e => trivial
    | await op k => exact h
  | receiving conn => trivial
  | handling conn frame p =>
    cases p with
    | ret a =>
      simp only [Phase.settle]
      split
      · trivial
      · exact enrolsNobody_cleanup
    | raise e => exact enrolsNobody_cleanup
    | await op k => exact h
  | cleanup conn p =>
    cases p with
    | ret a => trivial
    | raise e => trivial
    | await op k => exact h
  | ended => trivial

theorem Phase.enrols_step (h : phase.Enrols u)
    (hs : phase.step env srv me x w = some (phase', w')) : phase'.Enrols u := by
  cases phase with
  | receiving conn => cases hs
  | ended => cases hs
  | connecting p =>
    obtain ⟨⟨p', w₁⟩, hp, heq⟩ := Option.map_eq_some_iff.mp hs
    cases heq
    exact Coro.Nodes.step h hp
  | handling conn frame p =>
    obtain ⟨⟨p', w₁⟩, hp, heq⟩ := Option.map_eq_some_iff.mp hs
    cases heq
    exact Coro.All.step h hp
  | cleanup conn p =>
    obtain ⟨⟨p', w₁⟩, hp, heq⟩ := Option.map_eq_some_iff.mp hs
    cases heq
    exact Coro.All.step h hp

theorem Phase.attends_settle (h : phase.Attends u) :
    (phase.settle env u username isOpen).Attends u := by
  cases phase with
  | connecting p => exact absurd h id
  | receiving conn => trivial
  | handling conn frame p =>
    cases p with
    | ret a =>
      simp only [Phase.settle]
      split
      · trivial
      · exact unregisters_cleanup
    | raise e => exact unregisters_cleanup
    | await op k => trivial
  | cleanup conn p =>
    cases p with
    | ret a => exact absurd h id
    | raise e => exact absurd h id
    | await op k => exact h
  | ended => exact absurd h id

theorem Phase.attends_step (h : phase.Attends u)
    (hs : phase.step env srv me x w = some (phase', w'))
    (hop : ∀ op r, phase.head? = some op → op.exec env srv me x w = some (r, w') →
      op ≠ .manager (.disconnectLocked u) ∧ op.Served r) : phase'.Attends u := by
  cases phase with
  | connecting p => exact absurd h id
  | receiving conn => cases hs
  | ended => cases hs
  | handling conn frame p =>
    obtain ⟨⟨p', w₁⟩, hp, heq⟩ := Option.map_eq_some_iff.mp hs
    cases heq
    trivial
  | cleanup conn p =>
    obtain ⟨⟨p', w₁⟩, hp, heq⟩ := Option.map_eq_some_iff.mp hs
    cases heq
    exact Coro.Surely.step h hp hop

theorem head_ne_of_registers {m : ConnectionManager Delivery} {o : ManagerOp Delivery}
    (ho : m.Registers u o) {p : Prog Unit} (hp : p.All Op.EnrolsNobody) :
    p.head? ≠ some (.manager o) := by
  intro hop
  cases p with
  | ret a => cases hop
  | raise e => cases hop
  | await op k =>
    cases hop
    rcases ho with ⟨name, rfl, -⟩ | ⟨old, name, rfl⟩
    · exact hp.1
    · exact hp.1

/-- The session that registers its user is welcomed next. -/
theorem Phase.attends_registered {o : ManagerOp Delivery} (h : phase.Enrols u) {v : UserId}
    (hs : phase.step env srv me x w = some (phase', w'))
    (hhead : phase.head? = some (.manager o))
    (ho : (w.servers srv).manager.Registers v o) :
    v = u ∧ (phase'.settle env u username isOpen).Attends u := by
  cases phase with
  | receiving conn => cases hs
  | ended => cases hs
  | handling conn frame p => exact absurd hhead (head_ne_of_registers ho h)
  | cleanup conn p => exact absurd hhead (head_ne_of_registers ho h)
  | connecting p =>
    obtain ⟨⟨p', w₁⟩, hp, heq⟩ := Option.map_eq_some_iff.mp hs
    cases heq
    obtain ⟨op, k, r, rfl, hx, rfl⟩ := Coro.step_eq_some hp
    cases hhead
    obtain ⟨hr, -⟩ := exec_managerOp hx
    rcases ho with ⟨name, rfl, hnone⟩ | ⟨old, name, rfl⟩
    · obtain ⟨⟨rfl, hret⟩, -⟩ := h
      simp only [ManagerOp.answer, hnone] at hr
      rw [hr, hret]
      exact ⟨rfl, trivial⟩
    · obtain ⟨⟨rfl, hret⟩, -⟩ := h
      rw [hr]
      refine ⟨rfl, ?_⟩
      show (Phase.settle env v username isOpen (.connecting (k (.ok _)))).Attends v
      rw [hret]
      trivial

theorem Task.enrols_step {t t' : Task} (h : t.Enrols)
    (hs : t.step env me x w = some (t', w')) : t'.Enrols := by
  cases t with
  | request r p =>
    obtain ⟨⟨p', w₁⟩, hp, heq⟩ := Option.map_eq_some_iff.mp hs
    cases heq
    exact Coro.All.step h hp
  | forced srv conn p =>
    obtain ⟨⟨p', w₁⟩, hp, heq⟩ := Option.map_eq_some_iff.mp hs
    cases heq
    exact Coro.All.step h hp
  | session ses =>
    obtain ⟨⟨phase', w₁⟩, hphase, heq⟩ := Option.map_eq_some_iff.mp hs
    cases heq
    exact Phase.enrols_settle (Phase.enrols_step h hphase)

/-- A session that comes back from `receive_text` handles a frame, or comes to its `finally`. -/
theorem Session.attends_receive {ses ses' : Session} {frame : Frame}
    (hses : ses.receive env conn w frame = (ses', w')) :
    ses'.server = ses.server ∧ ses'.userId = ses.userId ∧
      ses'.phase.Enrols ses.userId ∧ ses'.phase.Attends ses.userId := by
  cases frame with
  | json data =>
    cases hses
    have hframe : (Phase.handling conn (some data) (Chat.handleFrame env ses.userId ses.username
        data)).Enrols ses.userId := enrolsNobody_handleFrame
    have hattends : (Phase.handling conn (some data) (Chat.handleFrame env ses.userId ses.username
        data)).Attends ses.userId := trivial
    exact ⟨rfl, rfl, Phase.enrols_settle hframe, Phase.attends_settle hattends⟩
  | notJson =>
    cases hses
    exact ⟨rfl, rfl, enrolsNobody_sendToUser, trivial⟩
  | binary =>
    cases hses
    exact ⟨rfl, rfl, enrolsNobody_cleanup, unregisters_cleanup⟩
  | disconnect =>
    cases hses
    exact ⟨rfl, rfl, enrolsNobody_cleanup, unregisters_cleanup⟩

end Programs

/-! ## The sessions of the registered users -/

namespace System

/-- A session of the user on the instance has yet to unregister them. -/
def Attends (s : System) (srv : ServerId) (u : UserId) : Prop :=
  ∃ (i : TaskId) (ses : Session), s.tasks[i]? = some (.session ses) ∧ ses.server = srv ∧
    ses.userId = u ∧ ses.phase.Attends u

def Attended (s : System) : Prop :=
  ∀ srv u, (s.world.servers srv).manager.connections.get? u ≠ none → s.Attends srv u

section Runs

variable {env : Env} {s s' : System} {l : Label} {srv : ServerId} {u : UserId}

theorem enrols_step (h : ∀ (i : TaskId) (t : Task), s.tasks[i]? = some t → t.Enrols)
    (hs : s.step env l = some s') (i : TaskId) (t : Task) (hi : s'.tasks[i]? = some t) :
    t.Enrols := by
  have hmoves := System.moves hs
  cases hmoves with
  | run hj ht htasks =>
    rw [htasks] at hi
    rcases getElem?_replace hi with ⟨-, hi⟩ | ⟨-, rfl⟩
    · exact h i t hi
    · exact Task.enrols_step (h _ _ hj) ht
  | receive hj hphase hses htasks =>
    rw [htasks] at hi
    rcases getElem?_replace hi with ⟨-, hi⟩ | ⟨-, rfl⟩
    · exact h i t hi
    · obtain ⟨-, huser, henrols, -⟩ := Session.attends_receive hses
      show Phase.Enrols _ _
      rw [huser]
      exact henrols
  | connect _ htasks =>
    rw [htasks] at hi
    rcases getElem?_spawn hi with hi | ⟨-, rfl⟩
    · exact h i t hi
    · exact enrols_connect
  | request _ htasks =>
    rw [htasks] at hi
    rcases getElem?_spawn hi with hi | ⟨-, rfl⟩
    · exact h i t hi
    · exact all_request fun _ => trivial
  | force htasks =>
    rw [htasks] at hi
    rcases getElem?_spawn hi with hi | ⟨-, rfl⟩
    · exact h i t hi
    · exact all_forceDisconnect trivial (fun _ => trivial) trivial trivial
  | background _ htasks =>
    rw [htasks] at hi
    exact h i t hi

/-- An operation: whoever is registered after it has a session. -/
theorem attends_run {i : TaskId} {x : Choice} {t t' : Task}
    (henrols : ∀ (i : TaskId) (t : Task), s.tasks[i]? = some t → t.Enrols) (h : s.Attended)
    (hC : s.RedisAnswers (.run i x)) (hi : s.tasks[i]? = some t)
    (ht : t.step env i x s.world = some (t', s'.world)) (htasks : s'.tasks = s.tasks.set i t')
    (hreg : (s'.world.servers srv).manager.connections.get? u ≠ none) : s'.Attends srv u := by
  obtain ⟨op, r, hhead, hexec⟩ := Task.step_exec ht
  have hself : s'.tasks[i]? = some t' := by
    rw [htasks]
    exact List.getElem?_set_self (List.getElem?_eq_some_iff.mp hi).1
  -- the user was registered before, or is being registered by this task
  have hbefore : (s.world.servers srv).manager.connections.get? u ≠ none ∨
      ∃ o, op = .manager o ∧ srv = t.activity.server ∧
        (s.world.servers srv).manager.Registers u o := by
    rcases managers_exec hexec srv with ⟨maxsize, me, o, rfl, hsrv, he⟩ | he
    · rw [he] at hreg
      exact (registered_before hreg).imp_right fun ho => ⟨o, rfl, hsrv, ho⟩
    · rw [he] at hreg
      exact .inl hreg
  rcases hbefore with hbefore | ⟨o, rfl, rfl, ho⟩
  · obtain ⟨j, ses, hj, rfl, rfl, hattends⟩ := h srv u hbefore
    by_cases hji : j = i
    · subst hji
      rw [hi] at hj
      cases hj
      obtain ⟨⟨phase', w₁⟩, hphase, heq⟩ := Option.map_eq_some_iff.mp ht
      cases heq
      refine ⟨j, _, hself, rfl, rfl, Phase.attends_settle (Phase.attends_step hattends hphase ?_)⟩
      intro op' r' hop hx
      refine ⟨?_, ?_⟩
      · rintro rfl
        rw [(exec_managerOp hx).2] at hreg
        exact hreg get?_disconnectLocked
      · cases op' with
        | redis o => exact Op.redis_answered (hC _ _ hi hop trivial) hx
        | manager o =>
          cases o with
          | rooms c => exact ⟨_, (exec_managerOp hx).1⟩
          | _ => trivial
        | _ => trivial
    · refine ⟨j, ses, ?_, rfl, rfl, hattends⟩
      rw [htasks, List.getElem?_set_ne (Ne.symm hji)]
      exact hj
  · have hold := henrols i t hi
    cases t with
    | request r p => exact absurd hhead (head_ne_of_registers ho hold)
    | forced srv conn p => exact absurd hhead (head_ne_of_registers ho hold)
    | session ses =>
      obtain ⟨⟨phase', w₁⟩, hphase, heq⟩ := Option.map_eq_some_iff.mp ht
      cases heq
      obtain ⟨huser, hattends⟩ := Phase.attends_registered hold hphase hhead ho
      exact ⟨i, _, hself, rfl, huser.symm, huser ▸ hattends⟩

/-- The other steps register nobody, and end no session. -/
theorem attends_other (hl : ∀ i x, l ≠ .run i x) (hs : s.step env l = some s')
    (h : s.Attends srv u) : s'.Attends srv u := by
  obtain ⟨j, ses, hj, hsrv, huser, hattends⟩ := h
  have hspawn : ∀ {t₁}, s'.tasks = s.tasks ++ [t₁] → s'.Attends srv u := by
    intro t₁ htasks
    refine ⟨j, ses, ?_, hsrv, huser, hattends⟩
    rw [htasks, List.getElem?_append_left (List.getElem?_eq_some_iff.mp hj).1]
    exact hj
  have hmoves := System.moves hs
  cases hmoves with
  | run _ _ _ => exact absurd rfl (hl _ _)
  | connect _ htasks => exact hspawn htasks
  | request _ htasks => exact hspawn htasks
  | force htasks => exact hspawn htasks
  | background _ htasks =>
    refine ⟨j, ses, ?_, hsrv, huser, hattends⟩
    rw [htasks]
    exact hj
  | @receive i frame ses₀ ses' conn hi hphase hses htasks =>
    by_cases hji : j = i
    · subst hji
      rw [hi] at hj
      cases hj
      obtain ⟨hsrv', huser', -, hattends'⟩ := Session.attends_receive hses
      refine ⟨j, ses', ?_, hsrv'.trans hsrv, huser'.trans huser, huser ▸ hattends'⟩
      rw [htasks]
      exact List.getElem?_set_self (List.getElem?_eq_some_iff.mp hi).1
    · refine ⟨j, ses, ?_, hsrv, huser, hattends⟩
      rw [htasks, List.getElem?_set_ne (Ne.symm hji)]
      exact hj

theorem attended_step (henrols : ∀ (i : TaskId) (t : Task), s.tasks[i]? = some t → t.Enrols)
    (h : s.Attended) (hC : s.RedisAnswers l) (hs : s.step env l = some s') : s'.Attended := by
  intro srv u hreg
  by_cases hl : ∃ i x, l = .run i x
  · obtain ⟨i, x, rfl⟩ := hl
    have hmoves := System.moves hs
    cases hmoves with
    | background hl _ => exact absurd hl id
    | run hi ht htasks => exact attends_run henrols h hC hi ht htasks hreg
  · have hl' : ∀ i x, l ≠ .run i x := fun i x he => hl ⟨i, x, he⟩
    rw [(sameSessions_env hl' hs srv).connections] at hreg
    exact attends_other hl' hs (h srv u hreg)

/-- **Whoever is registered has a session that is going to unregister them**, in the runs in which
Redis answers. -/
theorem attended_reach {t : Tables} (hr : Reach (System.step env) RedisAnswers (.init t) s) :
    s.Attended := by
  have hboth : (∀ (i : TaskId) (t : Task), s.tasks[i]? = some t → t.Enrols) ∧ s.Attended := by
    refine hr.invariant (I := fun s => (∀ (i : TaskId) (t : Task), s.tasks[i]? = some t →
      t.Enrols) ∧ s.Attended) ?_ fun _ _ _ h hC hs => ⟨enrols_step h.1 hs,
        attended_step h.1 h.2 hC hs⟩
    exact ⟨fun i t hi => (by cases hi), fun srv u hreg => absurd rfl hreg⟩
  exact hboth.2

/-- When all sessions of an instance have ended, nobody is registered there. -/
theorem unregistered_of_ended {t : Tables}
    (hr : Reach (System.step env) RedisAnswers (.init t) s)
    (hended : ∀ (i : TaskId) (ses : Session), s.tasks[i]? = some (.session ses) →
      ses.server = srv → ses.phase = .ended) (u : UserId) :
    (s.world.servers srv).manager.connections.get? u = none := by
  by_contra hreg
  obtain ⟨i, ses, hi, hsrv, -, hattends⟩ := attended_reach hr srv u hreg
  rw [hended i ses hi hsrv] at hattends
  exact hattends

end Runs

end System

end NexusChat
