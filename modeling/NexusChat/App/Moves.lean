import NexusChat.App.Discipline

/-!
# The steps, by what becomes of the tasks

A step of the system lets one task go on, adds one, or leaves the tasks alone. `Moves` says which,
and what follows from it: a session goes forwards, from before its `finally` to its end, and a
property of programs that one operation keeps is kept by the programs of all tasks.
-/

set_option autoImplicit false

namespace NexusChat

/-! ## Phases and owners -/

namespace Phase

/-- How far a session has come: before its `finally`, in it, or after it. -/
def stage : Phase → Nat
  | .connecting _ | .receiving _ | .handling _ _ _ => 0
  | .cleanup _ _ => 1
  | .ended => 2

/-- The session has not come to its `finally`. -/
def Live (phase : Phase) : Prop := phase.stage = 0

/-- The program of the phase has the property. -/
def Programs (P : {α : Type} → Prog α → Prop) : Phase → Prop
  | .connecting p => P p
  | .handling _ _ p | .cleanup _ p => P p
  | .receiving _ | .ended => True

/-- The phase has a program, with the property. -/
def Does (Q : {α : Type} → Prog α → Prop) : Phase → Prop
  | .connecting p => Q p
  | .handling _ _ p | .cleanup _ p => Q p
  | .receiving _ | .ended => False

end Phase

namespace Task

/-- The user whose session the task is. -/
def owner : Task → Option UserId
  | .session s => some s.userId
  | .request _ _ | .forced _ _ _ => none

/-- The program of the task has the property, which may depend on the owner. -/
def Programs (P : Option UserId → {α : Type} → Prog α → Prop) : Task → Prop
  | .session s => s.phase.Programs (P (some s.userId))
  | .request _ p | .forced _ _ p => P none p

end Task

/-- The properties of programs that hold of every program the application starts. -/
structure Started (env : Env) (P : Option UserId → {α : Type} → Prog α → Prop) : Prop where
  connect : ∀ u username, P (some u) (ConnectionManager.connect managerOp u username)
  frame : ∀ u username data, P (some u) (Chat.handleFrame env u username data)
  send : ∀ u m, P (some u) (Chat.sendToUser u m)
  cleanup : ∀ u username conn, P (some u) (Chat.cleanup env u username conn)
  request : ∀ r : Request, P none r.prog
  force : ∀ conn reason, P none (ConnectionManager.forceDisconnect managerOp conn reason)

section Tasks

variable {env : Env} {u : UserId} {username : String} {isOpen : ConnId → Bool} {phase : Phase}
  {P Q : Option UserId → {α : Type} → Prog α → Prop}

theorem Phase.stage_le_settle : phase.stage ≤ (phase.settle env u username isOpen).stage := by
  cases phase with
  | connecting p => exact Nat.zero_le _
  | receiving conn => exact Nat.zero_le _
  | handling conn frame p => exact Nat.zero_le _
  | cleanup conn p => cases p <;> simp [Phase.settle, Phase.stage]
  | ended => exact le_rfl

theorem Phase.programs_settle (hstart : Started env P) (h : phase.Programs (P (some u))) :
    (phase.settle env u username isOpen).Programs (P (some u)) := by
  cases phase with
  | connecting p =>
    cases p with
    | ret conn => exact hstart.send _ _
    | raise e => trivial
    | await op k => exact h
  | receiving conn => trivial
  | handling conn frame p =>
    cases p with
    | ret a =>
      simp only [Phase.settle]
      split
      · trivial
      · exact hstart.cleanup _ _ _
    | raise e => exact hstart.cleanup _ _ _
    | await op k => exact h
  | cleanup conn p =>
    cases p with
    | ret a => trivial
    | raise e => trivial
    | await op k => exact h
  | ended => trivial

theorem Phase.programs_mono (hPQ : ∀ {α : Type} (p : Prog α), P (some u) p → Q (some u) p)
    (h : phase.Programs (P (some u))) : phase.Programs (Q (some u)) := by
  cases phase with
  | connecting p => exact hPQ p h
  | handling conn frame p => exact hPQ p h
  | cleanup conn p => exact hPQ p h
  | receiving conn => trivial
  | ended => trivial

theorem Task.programs_mono {t : Task}
    (hPQ : ∀ o {α : Type} (p : Prog α), P o p → Q o p) (h : t.Programs P) : t.Programs Q := by
  cases t with
  | session s => exact Phase.programs_mono (hPQ _) h
  | request r p => exact hPQ _ p h
  | forced srv conn p => exact hPQ _ p h

section Does

variable {srv : ServerId} {me : TaskId} {x : Choice} {w w' : World} {phase' : Phase}
  {R Q : {α : Type} → Prog α → Prop}

/-- The program of a phase goes on. -/
theorem Phase.does_step (hR : phase.Programs R)
    (hs : phase.step env srv me x w = some (phase', w'))
    (hstep : ∀ {α : Type} (p p' : Prog α), R p → p.step (Op.exec env srv me) x w = some (p', w') →
      Q p') : phase'.Does Q := by
  cases phase with
  | receiving conn => cases hs
  | ended => cases hs
  | connecting p =>
    obtain ⟨⟨p', w₁⟩, hp, heq⟩ := Option.map_eq_some_iff.mp hs
    cases heq
    exact hstep p p' hR hp
  | handling conn frame p =>
    obtain ⟨⟨p', w₁⟩, hp, heq⟩ := Option.map_eq_some_iff.mp hs
    cases heq
    exact hstep p p' hR hp
  | cleanup conn p =>
    obtain ⟨⟨p', w₁⟩, hp, heq⟩ := Option.map_eq_some_iff.mp hs
    cases heq
    exact hstep p p' hR hp

/-- What is false of a program that has ended is true of none that `settle` replaces. -/
theorem Phase.does_settle (hret : ∀ {α : Type} (a : α), ¬Q (.ret a : Prog α))
    (hraise : ∀ {α : Type} (e : Exn), ¬Q (.raise e : Prog α)) (h : phase.Does Q) :
    (phase.settle env u username isOpen).Does Q := by
  cases phase with
  | receiving conn => exact absurd h id
  | ended => exact absurd h id
  | connecting p =>
    cases p with
    | ret conn => exact absurd h (hret conn)
    | raise e => exact absurd h (hraise e)
    | await op k => exact h
  | handling conn frame p =>
    cases p with
    | ret a => exact absurd h (hret a)
    | raise e => exact absurd h (hraise e)
    | await op k => exact h
  | cleanup conn p =>
    cases p with
    | ret a => exact absurd h (hret a)
    | raise e => exact absurd h (hraise e)
    | await op k => exact h

end Does

/-- The operation a task is waiting for is its program's. -/
theorem Task.exists_program {t : Task} {op : Op} (h : t.Programs P) (hhead : t.head? = some op) :
    ∃ (α : Type) (p : Prog α), P t.owner p ∧ p.head? = some op := by
  cases t with
  | request r p => exact ⟨_, p, h, hhead⟩
  | forced srv conn p => exact ⟨_, p, h, hhead⟩
  | session ses =>
    obtain ⟨srv, u, name, phase⟩ := ses
    cases phase with
    | connecting p => exact ⟨_, p, h, hhead⟩
    | handling conn frame p => exact ⟨_, p, h, hhead⟩
    | cleanup conn p => exact ⟨_, p, h, hhead⟩
    | receiving conn => cases hhead
    | ended => cases hhead

/-- **A task goes on by one operation of its program.** -/
theorem Task.programs_step (hstart : Started env P) {t t' : Task} {me : TaskId} {x : Choice}
    {w w' : World} (hs : t.step env me x w = some (t', w'))
    (hP : t.Programs P) : ∃ op r, t.head? = some op ∧
      op.exec env t.activity.server me x w = some (r, w') ∧
      ((∀ {α : Type} (p p' : Prog α), P t.owner p → p.head? = t.head? →
        p.step (Op.exec env t.activity.server me) x w = some (p', w') → P t.owner p') →
          t'.Programs P) := by
  cases t with
  | request r p =>
    obtain ⟨⟨p', w₁⟩, hp, heq⟩ := Option.map_eq_some_iff.mp hs
    cases heq
    obtain ⟨op, k, a, rfl, hx, rfl⟩ := Coro.step_eq_some hp
    exact ⟨op, a, rfl, hx, fun hstep => hstep _ _ hP rfl hp⟩
  | forced srv conn p =>
    obtain ⟨⟨p', w₁⟩, hp, heq⟩ := Option.map_eq_some_iff.mp hs
    cases heq
    obtain ⟨op, k, a, rfl, hx, rfl⟩ := Coro.step_eq_some hp
    exact ⟨op, a, rfl, hx, fun hstep => hstep _ _ hP rfl hp⟩
  | session ses =>
    obtain ⟨srv, u, name, phase⟩ := ses
    obtain ⟨⟨phase', w₁⟩, hphase, heq⟩ := Option.map_eq_some_iff.mp hs
    cases heq
    -- a phase that waits for a frame, or that has ended, has no program to run
    have hnext : ∃ op r, phase.head? = some op ∧ op.exec env srv me x w = some (r, w') ∧
        ((∀ {α : Type} (p p' : Prog α), P (some u) p → p.head? = phase.head? →
          p.step (Op.exec env srv me) x w = some (p', w') → P (some u) p') →
            phase'.Programs (P (some u))) := by
      cases phase with
      | receiving conn => cases hphase
      | ended => cases hphase
      | connecting p =>
        obtain ⟨⟨p', w₁⟩, hp, heq⟩ := Option.map_eq_some_iff.mp hphase
        cases heq
        obtain ⟨op, k, a, rfl, hx, rfl⟩ := Coro.step_eq_some hp
        exact ⟨op, a, rfl, hx, fun hstep => hstep _ _ hP rfl hp⟩
      | handling conn frame p =>
        obtain ⟨⟨p', w₁⟩, hp, heq⟩ := Option.map_eq_some_iff.mp hphase
        cases heq
        obtain ⟨op, k, a, rfl, hx, rfl⟩ := Coro.step_eq_some hp
        exact ⟨op, a, rfl, hx, fun hstep => hstep _ _ hP rfl hp⟩
      | cleanup conn p =>
        obtain ⟨⟨p', w₁⟩, hp, heq⟩ := Option.map_eq_some_iff.mp hphase
        cases heq
        obtain ⟨op, k, a, rfl, hx, rfl⟩ := Coro.step_eq_some hp
        exact ⟨op, a, rfl, hx, fun hstep => hstep _ _ hP rfl hp⟩
    obtain ⟨op, r, hhead, hexec, hprog⟩ := hnext
    exact ⟨op, r, hhead, hexec, fun hstep => Phase.programs_settle hstart (hprog hstep)⟩

/-- A task goes on by an operation. -/
theorem Task.step_exec {t t' : Task} {me : TaskId} {x : Choice} {w w' : World}
    (hs : t.step env me x w = some (t', w')) :
    ∃ op r, t.head? = some op ∧ op.exec env t.activity.server me x w = some (r, w') := by
  have htrivial : t.Programs fun _ {_} _ => True := by
    cases t with
    | session ses =>
      obtain ⟨srv, u, name, phase⟩ := ses
      cases phase <;> trivial
    | _ => trivial
  obtain ⟨op, r, hhead, hexec, -⟩ := Task.programs_step
    (P := fun _ {_} _ => True) ⟨fun _ _ => trivial, fun _ _ _ => trivial, fun _ _ => trivial,
      fun _ _ _ => trivial, fun _ => trivial, fun _ _ => trivial⟩ hs htrivial
  exact ⟨op, r, hhead, hexec⟩

/-- A session goes on as the same user's, and forwards. -/
theorem Task.session_step {t : Task} {me : TaskId} {x : Choice} {w w' : World} {ses' : Session}
    (hs : t.step env me x w = some (.session ses', w')) :
    ∃ ses, t = .session ses ∧ ses.userId = ses'.userId ∧
      ses.phase.stage ≤ ses'.phase.stage := by
  cases t with
  | request r p =>
    obtain ⟨⟨p', w₁⟩, -, heq⟩ := Option.map_eq_some_iff.mp hs
    cases heq
  | forced srv conn p =>
    obtain ⟨⟨p', w₁⟩, -, heq⟩ := Option.map_eq_some_iff.mp hs
    cases heq
  | session ses =>
    obtain ⟨⟨phase', w₁⟩, hphase, heq⟩ := Option.map_eq_some_iff.mp hs
    cases heq
    refine ⟨ses, rfl, rfl, le_trans ?_ Phase.stage_le_settle⟩
    cases hses : ses.phase with
    | cleanup conn p =>
      rw [hses] at hphase
      obtain ⟨⟨p', w₁⟩, -, heq⟩ := Option.map_eq_some_iff.mp hphase
      cases heq
      exact le_rfl
    | ended =>
      rw [hses] at hphase
      cases hphase
    | _ => exact Nat.zero_le _

/-- A task stays on its instance. -/
theorem Task.server_step {t t' : Task} {me : TaskId} {x : Choice} {w w' : World}
    (hs : t.step env me x w = some (t', w')) : t'.activity.server = t.activity.server := by
  cases t with
  | request r p =>
    obtain ⟨⟨p', w₁⟩, -, heq⟩ := Option.map_eq_some_iff.mp hs
    cases heq
    rfl
  | forced srv conn p =>
    obtain ⟨⟨p', w₁⟩, -, heq⟩ := Option.map_eq_some_iff.mp hs
    cases heq
    rfl
  | session ses =>
    obtain ⟨⟨phase', w₁⟩, -, heq⟩ := Option.map_eq_some_iff.mp hs
    cases heq
    rfl

theorem Session.userId_receive {ses ses' : Session} {conn : ConnId} {w w' : World} {frame : Frame}
    (h : ses.receive env conn w frame = (ses', w')) : ses'.userId = ses.userId := by
  cases frame <;> cases h <;> rfl

theorem Session.programs_receive (hstart : Started env P) {ses ses' : Session} {conn : ConnId}
    {w w' : World} {frame : Frame} (h : ses.receive env conn w frame = (ses', w')) :
    (Task.session ses').Programs P := by
  cases frame with
  | json data =>
    cases h
    have hphase : (Phase.handling conn (some data) (Chat.handleFrame env ses.userId ses.username
        data)).Programs (P (some ses.userId)) := hstart.frame _ _ _
    exact Phase.programs_settle hstart hphase
  | notJson =>
    cases h
    exact hstart.send _ _
  | binary =>
    cases h
    exact hstart.cleanup _ _ _
  | disconnect =>
    cases h
    exact hstart.cleanup _ _ _

end Tasks

/-! ## The steps, by what becomes of the tasks -/

/-- The steps of the listeners and of the send tasks. -/
def Label.Background : Label → Prop
  | .listener _ _ | .sendTake _ _ | .sendDone _ _ _ _ => True
  | _ => False

namespace System

/-- What a step of the system does to its tasks. -/
inductive Moves (env : Env) (s s' : System) : Label → Prop where
  | run {i : TaskId} {x : Choice} {t t' : Task} (hi : s.tasks[i]? = some t)
      (ht : t.step env i x s.world = some (t', s'.world)) (htasks : s'.tasks = s.tasks.set i t') :
      Moves env s s' (.run i x)
  | receive {i : TaskId} {frame : Frame} {ses ses' : Session} {conn : ConnId}
      (hi : s.tasks[i]? = some (.session ses)) (hphase : ses.phase = .receiving conn)
      (hses : ses.receive env conn s.world frame = (ses', s'.world))
      (htasks : s'.tasks = s.tasks.set i (.session ses')) : Moves env s s' (.receive i frame)
  | connect {srv : ServerId} {u : UserId} {username : String} (hworld : s'.world = s.world)
      (htasks : s'.tasks = s.tasks ++ [.session (newSession srv u username)]) :
      Moves env s s' (.connect srv u username)
  | request {r : Request} (hworld : s'.world = s.world)
      (htasks : s'.tasks = s.tasks ++ [.request r r.prog]) : Moves env s s' (.request r)
  | force {srv : ServerId} {conn : ConnId}
      (htasks : s'.tasks = s.tasks ++ [.forced srv conn (ConnectionManager.forceDisconnect
        managerOp conn "Send queue overflow (slow client)")]) : Moves env s s' (.force srv)
  | background {l : Label} (hl : l.Background) (htasks : s'.tasks = s.tasks) : Moves env s s' l

theorem moves {env : Env} {s s' : System} {l : Label} (hs : s.step env l = some s') :
    s.Moves env s' l := by
  cases l with
  | connect srv u name =>
    cases hs
    exact .connect rfl rfl
  | request r =>
    cases hs
    exact .request rfl rfl
  | force srv =>
    simp only [step] at hs
    split at hs
    · cases hs
    · cases hs
      exact .force rfl
  | receive i frame =>
    simp only [step] at hs
    split at hs
    · rename_i ses hi
      split at hs
      · rename_i conn hphase
        cases hs
        exact .receive hi hphase rfl rfl
      · cases hs
    · cases hs
  | run i x =>
    simp only [step] at hs
    split at hs
    · rename_i t hi
      obtain ⟨⟨t', w⟩, ht, rfl⟩ := Option.map_eq_some_iff.mp hs
      exact .run hi ht rfl
    · cases hs
  | listener srv e =>
    obtain ⟨w, -, rfl⟩ := Option.map_eq_some_iff.mp hs
    exact .background trivial rfl
  | sendTake srv conn =>
    obtain ⟨m, -, rfl⟩ := Option.map_eq_some_iff.mp hs
    exact .background trivial rfl
  | sendDone srv conn ok wrote =>
    obtain ⟨m, -, rfl⟩ := Option.map_eq_some_iff.mp hs
    exact .background trivial rfl

theorem Moves.length_le {env : Env} {s s' : System} {l : Label} (h : s.Moves env s' l) :
    s.tasks.length ≤ s'.tasks.length := by
  cases h with
  | run _ _ htasks | receive _ _ _ htasks => rw [htasks, List.length_set]
  | connect _ htasks | request _ htasks | force htasks => rw [htasks]; simp
  | background _ htasks => rw [htasks]

/-- A session after a step is new, or it was the same user's before and no further on. -/
theorem Moves.session_before {env : Env} {s s' : System} {l : Label} (h : s.Moves env s' l)
    {i : TaskId} {ses' : Session} (hi : s'.tasks[i]? = some (.session ses')) :
    s.tasks.length ≤ i ∨ ∃ ses, s.tasks[i]? = some (.session ses) ∧
      ses.userId = ses'.userId ∧ ses.phase.stage ≤ ses'.phase.stage := by
  have hsame : s.tasks[i]? = some (.session ses') → s.tasks.length ≤ i ∨
      ∃ ses, s.tasks[i]? = some (.session ses) ∧ ses.userId = ses'.userId ∧
        ses.phase.stage ≤ ses'.phase.stage := fun hi => .inr ⟨ses', hi, rfl, le_rfl⟩
  cases h with
  | run hj ht htasks =>
    rw [htasks] at hi
    rcases getElem?_replace hi with ⟨-, hi⟩ | ⟨rfl, rfl⟩
    · exact hsame hi
    · obtain ⟨ses, rfl, huser, hstage⟩ := Task.session_step ht
      exact .inr ⟨ses, hj, huser, hstage⟩
  | receive hj hphase hses htasks =>
    rw [htasks] at hi
    rcases getElem?_replace hi with ⟨-, hi⟩ | ⟨rfl, heq⟩
    · exact hsame hi
    · cases heq
      refine .inr ⟨_, hj, (Session.userId_receive hses).symm, ?_⟩
      rw [hphase]
      exact Nat.zero_le _
  | connect hworld htasks =>
    rw [htasks] at hi
    rcases getElem?_spawn hi with hi | ⟨rfl, -⟩
    · exact hsame hi
    · exact .inl le_rfl
  | request hworld htasks =>
    rw [htasks] at hi
    rcases getElem?_spawn hi with hi | ⟨rfl, -⟩
    · exact hsame hi
    · exact .inl le_rfl
  | force htasks =>
    rw [htasks] at hi
    rcases getElem?_spawn hi with hi | ⟨rfl, -⟩
    · exact hsame hi
    · exact .inl le_rfl
  | background hl htasks =>
    rw [htasks] at hi
    exact hsame hi

/-- A session that is new has just connected. -/
theorem Moves.session_new {env : Env} {s s' : System} {l : Label} (h : s.Moves env s' l)
    {i : TaskId} {ses : Session} (hi : s'.tasks[i]? = some (.session ses))
    (hnew : s.tasks.length ≤ i) :
    i = s.tasks.length ∧ ∃ srv username, l = .connect srv ses.userId username := by
  -- only `connect` appends a session
  have hold : ¬s.tasks[i]? = some (.session ses) := fun hi =>
    absurd (List.getElem?_eq_some_iff.mp hi).1 (Nat.not_lt.mpr hnew)
  cases h with
  | run hj _ htasks =>
    rw [htasks] at hi
    rcases getElem?_replace hi with ⟨-, hi⟩ | ⟨rfl, -⟩
    · exact absurd hi hold
    · exact absurd (List.getElem?_eq_some_iff.mp hj).1 (Nat.not_lt.mpr hnew)
  | receive hj _ _ htasks =>
    rw [htasks] at hi
    rcases getElem?_replace hi with ⟨-, hi⟩ | ⟨rfl, -⟩
    · exact absurd hi hold
    · exact absurd (List.getElem?_eq_some_iff.mp hj).1 (Nat.not_lt.mpr hnew)
  | connect _ htasks =>
    rw [htasks] at hi
    rcases getElem?_spawn hi with hi | ⟨rfl, heq⟩
    · exact absurd hi hold
    · cases heq
      exact ⟨rfl, _, _, rfl⟩
  | request _ htasks =>
    rw [htasks] at hi
    rcases getElem?_spawn hi with hi | ⟨-, heq⟩
    · exact absurd hi hold
    · cases heq
  | force htasks =>
    rw [htasks] at hi
    rcases getElem?_spawn hi with hi | ⟨-, heq⟩
    · exact absurd hi hold
    · cases heq
  | background _ htasks =>
    rw [htasks] at hi
    exact absurd hi hold

/-- **The programs of an instance's tasks keep a property** that the programs the application
starts have, if the program that performs the operation of the step keeps it. -/
theorem Moves.programs_at {env : Env} {P : Option UserId → {α : Type} → Prog α → Prop}
    {srv : ServerId} (hstart : Started env P) {s s' : System} {l : Label} (h : s.Moves env s' l)
    (hall : ∀ (i : TaskId) t, s.tasks[i]? = some t → t.activity.server = srv → t.Programs P)
    (hstep : ∀ i x t, l = .run i x → s.tasks[i]? = some t → t.activity.server = srv →
      ∀ {α : Type} (p p' : Prog α), P t.owner p → p.head? = t.head? →
        p.step (Op.exec env t.activity.server i) x s.world = some (p', s'.world) → P t.owner p')
    {i : TaskId} {t : Task} (hi : s'.tasks[i]? = some t) (hsrv : t.activity.server = srv) :
    t.Programs P := by
  cases h with
  | run hj ht htasks =>
    rw [htasks] at hi
    rcases getElem?_replace hi with ⟨-, hi⟩ | ⟨-, rfl⟩
    · exact hall i t hi hsrv
    · rw [Task.server_step ht] at hsrv
      obtain ⟨op, r, -, -, hprog⟩ := Task.programs_step hstart ht (hall _ _ hj hsrv)
      exact hprog (hstep _ _ _ rfl hj hsrv)
  | receive hj hphase hses htasks =>
    rw [htasks] at hi
    rcases getElem?_replace hi with ⟨-, hi⟩ | ⟨-, rfl⟩
    · exact hall i t hi hsrv
    · exact Session.programs_receive hstart hses
  | connect hworld htasks =>
    rw [htasks] at hi
    rcases getElem?_spawn hi with hi | ⟨-, rfl⟩
    · exact hall i t hi hsrv
    · exact hstart.connect _ _
  | request hworld htasks =>
    rw [htasks] at hi
    rcases getElem?_spawn hi with hi | ⟨-, rfl⟩
    · exact hall i t hi hsrv
    · exact hstart.request _
  | force htasks =>
    rw [htasks] at hi
    rcases getElem?_spawn hi with hi | ⟨-, rfl⟩
    · exact hall i t hi hsrv
    · exact hstart.force _ _
  | background hl htasks =>
    rw [htasks] at hi
    exact hall i t hi hsrv

/-- The programs of all tasks keep it. -/
theorem Moves.programs {env : Env} {P : Option UserId → {α : Type} → Prog α → Prop}
    (hstart : Started env P) {s s' : System} {l : Label} (h : s.Moves env s' l)
    (hall : ∀ (i : TaskId) t, s.tasks[i]? = some t → t.Programs P)
    (hstep : ∀ i x t, l = .run i x → s.tasks[i]? = some t → ∀ {α : Type} (p p' : Prog α),
      P t.owner p → p.step (Op.exec env t.activity.server i) x s.world = some (p', s'.world) →
        P t.owner p') {i : TaskId} {t : Task} (hi : s'.tasks[i]? = some t) : t.Programs P :=
  h.programs_at hstart (fun i t hi _ => hall i t hi)
    (fun i x t hl hi _ _ p p' hp _ => hstep i x t hl hi p p' hp) hi rfl

end System

end NexusChat
