import NexusChat.App.Moves
import NexusChat.Lib.Promise

/-!
# The programs of the tasks, by what they are for

What every operation of a program is like, whatever it is answered, depends on which program of the
application it is the rest of. A property of programs that goes from a program to its rest, and that
each program of the application has, holds of the programs of all tasks in every run
(`System.each_reach`).
-/

set_option autoImplicit false

namespace NexusChat

/-- What a program is the rest of. -/
inductive Part where
  | connect
  /-- the welcome, or the answer to a frame that is not JSON -/
  | send
  | frame (data : Json)
  | cleanup
  | request
  | force

/-- The program of the phase has the property of its part. -/
def Phase.Each (P : Part → {α : Type} → Prog α → Prop) : Phase → Prop
  | .connecting p => P .connect p
  | .handling _ none p => P .send p
  | .handling _ (some data) p => P (.frame data) p
  | .cleanup _ p => P .cleanup p
  | .receiving _ | .ended => True

/-- The program of the task has the property of its part, which may depend on the owner. -/
def Task.Each (P : Option UserId → Part → {α : Type} → Prog α → Prop) : Task → Prop
  | .session s => s.phase.Each (P (some s.userId))
  | .request _ p => P none .request p
  | .forced _ _ p => P none .force p

/-- A property of programs that each part begins with, and that goes from a program to its rest. -/
structure Inherited (env : Env) (P : Option UserId → Part → {α : Type} → Prog α → Prop) :
    Prop where
  connect : ∀ u username, P (some u) .connect (ConnectionManager.connect managerOp u username)
  send : ∀ u m, P (some u) .send (Chat.sendToUser u m)
  frame : ∀ u username data, P (some u) (.frame data) (Chat.handleFrame env u username data)
  cleanup : ∀ u username conn, P (some u) .cleanup (Chat.cleanup env u username conn)
  request : ∀ r : Request, P none .request r.prog
  force : ∀ conn reason, P none .force (ConnectionManager.forceDisconnect managerOp conn reason)
  next : ∀ {o part α op} {k : Except Exn op.Resp → Prog α}, P o part (.await op k) → ∀ r,
    P o part (k r)

section Steps

variable {env : Env} {P : Option UserId → Part → {α : Type} → Prog α → Prop} {u : UserId}
  {username : String} {phase phase' : Phase} {srv : ServerId} {me : TaskId} {x : Choice}
  {w w' : World}

theorem Inherited.step (hP : Inherited env P) {o : Option UserId} (part : Part) {α : Type}
    {p p' : Prog α} (h : P o part p) (hs : p.step (Op.exec env srv me) x w = some (p', w')) :
    P o part p' := by
  obtain ⟨op, k, r, rfl, -, rfl⟩ := Coro.step_eq_some hs
  exact hP.next h r

theorem Phase.each_settle {isOpen : ConnId → Bool} (hP : Inherited env P)
    (h : phase.Each (P (some u))) :
    (phase.settle env u username isOpen).Each (P (some u)) := by
  cases phase with
  | receiving conn => trivial
  | ended => trivial
  | connecting p =>
    cases p with
    | ret conn => exact hP.send _ _
    | raise e => trivial
    | await op k => exact h
  | handling conn frame p =>
    cases p with
    | ret a =>
      simp only [Phase.settle]
      split
      · trivial
      · exact hP.cleanup _ _ _
    | raise e => exact hP.cleanup _ _ _
    | await op k => exact h
  | cleanup conn p =>
    cases p with
    | ret a => trivial
    | raise e => trivial
    | await op k => exact h

theorem Phase.each_step (hP : Inherited env P) (h : phase.Each (P (some u)))
    (hs : phase.step env srv me x w = some (phase', w')) : phase'.Each (P (some u)) := by
  cases phase with
  | receiving conn => cases hs
  | ended => cases hs
  | connecting p =>
    obtain ⟨⟨p', w₁⟩, hp, heq⟩ := Option.map_eq_some_iff.mp hs
    cases heq
    exact hP.step .connect h hp
  | handling conn frame p =>
    obtain ⟨⟨p', w₁⟩, hp, heq⟩ := Option.map_eq_some_iff.mp hs
    cases heq
    cases frame with
    | none => exact hP.step .send h hp
    | some data => exact hP.step (.frame data) h hp
  | cleanup conn p =>
    obtain ⟨⟨p', w₁⟩, hp, heq⟩ := Option.map_eq_some_iff.mp hs
    cases heq
    exact hP.step .cleanup h hp

theorem Task.each_step (hP : Inherited env P) {t t' : Task} (h : t.Each P)
    (hs : t.step env me x w = some (t', w')) : t'.Each P := by
  cases t with
  | request r p =>
    obtain ⟨⟨p', w₁⟩, hp, heq⟩ := Option.map_eq_some_iff.mp hs
    cases heq
    exact hP.step .request h hp
  | forced srv conn p =>
    obtain ⟨⟨p', w₁⟩, hp, heq⟩ := Option.map_eq_some_iff.mp hs
    cases heq
    exact hP.step .force h hp
  | session ses =>
    obtain ⟨⟨phase', w₁⟩, hphase, heq⟩ := Option.map_eq_some_iff.mp hs
    cases heq
    exact Phase.each_settle hP (Phase.each_step hP h hphase)

theorem Session.each_receive (hP : Inherited env P) {ses ses' : Session} {conn : ConnId}
    {frame : Frame} (hs : ses.receive env conn w frame = (ses', w')) :
    ses'.phase.Each (P (some ses'.userId)) := by
  cases frame with
  | json data =>
    cases hs
    have hframe : (Phase.handling conn (some data) (Chat.handleFrame env ses.userId ses.username
        data)).Each (P (some ses.userId)) := hP.frame _ _ _
    exact Phase.each_settle hP hframe
  | notJson =>
    cases hs
    exact hP.send _ _
  | binary =>
    cases hs
    exact hP.cleanup _ _ _
  | disconnect =>
    cases hs
    exact hP.cleanup _ _ _

end Steps

/-- The operation a task is waiting for is that of a program with the property. -/
theorem Task.Each.head {P : Option UserId → Part → {α : Type} → Prog α → Prop} {t : Task} {op : Op}
    (h : t.Each P) (hhead : t.head? = some op) :
    ∃ (part : Part) (α : Type) (p : Prog α), P t.owner part p ∧ p.head? = some op := by
  cases t with
  | request r p => exact ⟨_, _, p, h, hhead⟩
  | forced srv conn p => exact ⟨_, _, p, h, hhead⟩
  | session ses =>
    obtain ⟨srv, u, name, phase⟩ := ses
    cases phase with
    | connecting p => exact ⟨_, _, p, h, hhead⟩
    | handling conn frame p =>
      cases frame with
      | none => exact ⟨_, _, p, h, hhead⟩
      | some data => exact ⟨_, _, p, h, hhead⟩
    | cleanup conn p => exact ⟨_, _, p, h, hhead⟩
    | receiving conn => cases hhead
    | ended => cases hhead

/-- The programs of all tasks have the property. -/
def System.Each (P : Option UserId → Part → {α : Type} → Prog α → Prop) (s : System) : Prop :=
  ∀ (i : TaskId) (t : Task), s.tasks[i]? = some t → t.Each P

theorem System.each_step {env : Env} {P : Option UserId → Part → {α : Type} → Prog α → Prop}
    (hP : Inherited env P) {s s' : System} {l : Label} (h : s.Each P)
    (hs : s.step env l = some s') : s'.Each P := by
  intro i t hi
  have hmoves := System.moves hs
  cases hmoves with
  | run hj ht htasks =>
    rw [htasks] at hi
    rcases getElem?_replace hi with ⟨-, hi⟩ | ⟨-, rfl⟩
    · exact h i t hi
    · exact Task.each_step hP (h _ _ hj) ht
  | receive hj hphase hses htasks =>
    rw [htasks] at hi
    rcases getElem?_replace hi with ⟨-, hi⟩ | ⟨-, rfl⟩
    · exact h i t hi
    · exact Session.each_receive hP hses
  | connect hworld htasks =>
    rw [htasks] at hi
    rcases getElem?_spawn hi with hi | ⟨-, rfl⟩
    · exact h i t hi
    · exact hP.connect _ _
  | request hworld htasks =>
    rw [htasks] at hi
    rcases getElem?_spawn hi with hi | ⟨-, rfl⟩
    · exact h i t hi
    · exact hP.request _
  | force htasks =>
    rw [htasks] at hi
    rcases getElem?_spawn hi with hi | ⟨-, rfl⟩
    · exact h i t hi
    · exact hP.force _ _
  | background hl htasks =>
    rw [htasks] at hi
    exact h i t hi

/-- **In every run**, the programs of all tasks have the property. -/
theorem System.each_reach {env : Env} {P : Option UserId → Part → {α : Type} → Prog α → Prop}
    (hP : Inherited env P) {C : System → Label → Prop} {t : Tables} {s : System}
    (hr : Reach (System.step env) C (.init t) s) : s.Each P :=
  hr.invariant (I := System.Each P) (fun _ _ hi => by cases hi)
    fun _ _ _ h _ hs => System.each_step hP h hs

end NexusChat
