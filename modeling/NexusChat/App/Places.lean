import NexusChat.App.Moves
import NexusChat.Lib.Protocol

/-!
# Where the tasks are in a protocol

A protocol of the tasks says in which place a task is, and how each operation it performs moves it.
If every program the application starts keeps to the protocol, then in every run every task is in
some place, from which the rest of its program goes on by the moves (`Placed`): a step that is no
operation of a task moves nobody (`Placed.background`), and an operation moves the task that performs it
(`Placed.run`).
-/

set_option autoImplicit false

namespace NexusChat

/-- The places, the one in which every program begins and ends, what the operations are answered,
and the moves. -/
structure Protocol where
  Place : Type
  start : Place
  Answers : (op : Op) → Except Exn op.Resp → Prop
  Moves : Place → (op : Op) → Except Exn op.Resp → Place → Prop

namespace Protocol

variable {P : Protocol} {env : Env} {h : P.Place}

/-- The program goes on from the place by the moves, and ends where it began. -/
abbrev Keeps (P : Protocol) (h : P.Place) {α : Type} (p : Prog α) : Prop :=
  p.Follows (S := Op.sig) P.Answers P.Moves (fun _ h => h = P.start) h

/-- Every program of the application keeps to the protocol. -/
abbrev Starts (P : Protocol) (env : Env) : Prop := Started env fun _ {_} p => P.Keeps P.start p

def PhaseAt (P : Protocol) (h : P.Place) : Phase → Prop
  | .connecting p => P.Keeps h p
  | .handling _ _ p => P.Keeps h p
  | .cleanup _ p => P.Keeps h p
  | .receiving _ | .ended => h = P.start

def TaskAt (P : Protocol) (h : P.Place) : Task → Prop
  | .session s => P.PhaseAt h s.phase
  | .request _ p => P.Keeps h p
  | .forced _ _ p => P.Keeps h p

/-! ## One task -/

section Tasks

variable {srv : ServerId} {me : TaskId} {x : Choice} {w w' : World} {u : UserId}
  {username : String} {isOpen : ConnId → Bool} {phase phase' : Phase} {t t' : Task} {op : Op}

theorem PhaseAt.settle (hstart : P.Starts env) (hphase : P.PhaseAt h phase) :
    P.PhaseAt h (phase.settle env u username isOpen) := by
  cases phase with
  | receiving conn => exact hphase
  | ended => exact hphase
  | connecting p =>
    cases p with
    | ret conn =>
      rw [show h = P.start from hphase]
      exact hstart.send u _
    | raise e => exact hphase
    | await op k => exact hphase
  | handling conn frame p =>
    cases p with
    | ret a =>
      simp only [Phase.settle]
      rw [show h = P.start from hphase]
      split
      · rfl
      · exact hstart.cleanup _ _ _
    | raise e =>
      rw [show h = P.start from hphase]
      exact hstart.cleanup _ _ _
    | await op k => exact hphase
  | cleanup conn p =>
    cases p with
    | ret a => exact hphase
    | raise e => exact hphase
    | await op k => exact hphase

theorem PhaseAt.step (hphase : P.PhaseAt h phase)
    (hs : phase.step env srv me x w = some (phase', w'))
    (hok : ∀ op r, phase.head? = some op → op.exec env srv me x w = some (r, w') →
      P.Answers op r) :
    ∃ op r h', phase.head? = some op ∧ op.exec env srv me x w = some (r, w') ∧
      P.Moves h op r h' ∧ P.PhaseAt h' phase' := by
  cases phase with
  | receiving conn => cases hs
  | ended => cases hs
  | connecting p =>
    obtain ⟨⟨p', w₁⟩, hp, heq⟩ := Option.map_eq_some_iff.mp hs
    cases heq
    exact Coro.Follows.step hphase hp hok
  | handling conn frame p =>
    obtain ⟨⟨p', w₁⟩, hp, heq⟩ := Option.map_eq_some_iff.mp hs
    cases heq
    exact Coro.Follows.step hphase hp hok
  | cleanup conn p =>
    obtain ⟨⟨p', w₁⟩, hp, heq⟩ := Option.map_eq_some_iff.mp hs
    cases heq
    exact Coro.Follows.step hphase hp hok

/-- One operation of a task is a move. -/
theorem TaskAt.step (hstart : P.Starts env) (ht : P.TaskAt h t)
    (hs : t.step env me x w = some (t', w'))
    (hok : ∀ op r, t.head? = some op → op.exec env t.activity.server me x w = some (r, w') →
      P.Answers op r) :
    ∃ op r h', t.head? = some op ∧ op.exec env t.activity.server me x w = some (r, w') ∧
      P.Moves h op r h' ∧ P.TaskAt h' t' := by
  cases t with
  | request r p =>
    obtain ⟨⟨p', w₁⟩, hp, heq⟩ := Option.map_eq_some_iff.mp hs
    cases heq
    exact Coro.Follows.step ht hp hok
  | forced srv conn p =>
    obtain ⟨⟨p', w₁⟩, hp, heq⟩ := Option.map_eq_some_iff.mp hs
    cases heq
    exact Coro.Follows.step ht hp hok
  | session ses =>
    obtain ⟨⟨phase', w₁⟩, hphase, heq⟩ := Option.map_eq_some_iff.mp hs
    cases heq
    obtain ⟨op, r, h', hhead, hx, hmove, hat⟩ := PhaseAt.step ht hphase hok
    exact ⟨op, r, h', hhead, hx, hmove, hat.settle hstart⟩

/-- A task whose program has just begun is in the first place. -/
theorem taskAt_of_programs (ht : t.Programs fun _ {_} p => P.Keeps P.start p) :
    P.TaskAt P.start t := by
  cases t with
  | request r p => exact ht
  | forced srv conn p => exact ht
  | session ses =>
    obtain ⟨srv, u, name, phase⟩ := ses
    cases phase with
    | connecting p => exact ht
    | handling conn frame p => exact ht
    | cleanup conn p => exact ht
    | receiving conn => rfl
    | ended => rfl

/-- A task that is anywhere else has an operation to perform. -/
theorem TaskAt.at_start (ht : P.TaskAt h t) (hhead : t.head? = none) : h = P.start := by
  have hprogram : ∀ {α : Type} {p : Prog α}, P.Keeps h p → p.head? = none → h = P.start := by
    intro α p hp hhead
    cases p with
    | ret a => exact hp
    | raise e => exact hp
    | await op k => cases hhead
  cases t with
  | request r p => exact hprogram ht hhead
  | forced srv conn p => exact hprogram ht hhead
  | session ses =>
    obtain ⟨srv, u, name, phase⟩ := ses
    cases phase with
    | connecting p => exact hprogram ht hhead
    | handling conn frame p => exact hprogram ht hhead
    | cleanup conn p => exact hprogram ht hhead
    | receiving conn => exact ht
    | ended => exact ht

/-- What a task does next is a move, whatever it is answered. -/
theorem TaskAt.moves (ht : P.TaskAt h t) (hhead : t.head? = some op)
    {r : Except Exn op.Resp} (hr : P.Answers op r) : ∃ h', P.Moves h op r h' := by
  have hprogram : ∀ {α : Type} {p : Prog α}, P.Keeps h p → p.head? = some op →
      ∃ h', P.Moves h op r h' := by
    intro α p hp hhead
    cases p with
    | ret a => cases hhead
    | raise e => cases hhead
    | await op' k =>
      cases hhead
      obtain ⟨h', hmove, -⟩ := hp r hr
      exact ⟨h', hmove⟩
  cases t with
  | request r p => exact hprogram ht hhead
  | forced srv conn p => exact hprogram ht hhead
  | session ses =>
    obtain ⟨srv, u, name, phase⟩ := ses
    cases phase with
    | connecting p => exact hprogram ht hhead
    | handling conn frame p => exact hprogram ht hhead
    | cleanup conn p => exact hprogram ht hhead
    | receiving conn => cases hhead
    | ended => cases hhead

end Tasks

/-! ## All tasks -/

/-- Every task is where `place` says, and those that are not there yet are in the first place. -/
structure Placed (P : Protocol) (place : TaskId → P.Place) (s : System) : Prop where
  tasks : ∀ (i : TaskId) t, s.tasks[i]? = some t → P.TaskAt (place i) t
  unborn : ∀ i, s.tasks.length ≤ i → place i = P.start

variable {place : TaskId → P.Place} {s s' : System} {l : Label} {i : TaskId}

theorem placed_init {ts : Tables} : P.Placed (fun _ => P.start) (.init ts) :=
  ⟨fun _ _ hi => (by cases hi), fun _ _ => rfl⟩

/-- A task that is not in the first place is there. -/
theorem Placed.born (hplaced : P.Placed place s) (hi : place i ≠ P.start) :
    ∃ t, s.tasks[i]? = some t ∧ P.TaskAt (place i) t := by
  have hlt : i < s.tasks.length := by
    by_contra hge
    exact hi (hplaced.unborn i (Nat.not_lt.mp hge))
  exact ⟨_, List.getElem?_eq_getElem hlt, hplaced.tasks i _ (List.getElem?_eq_getElem hlt)⟩

/-- The steps that are no operation of a task move nobody. -/
theorem Placed.background (hstart : P.Starts env) (hplaced : P.Placed place s)
    (hl : ∀ i x, l ≠ .run i x) (hs : s.step env l = some s') : P.Placed place s' := by
  have hmoves := System.moves hs
  refine ⟨fun i t' hi => ?_, fun i hi => hplaced.unborn i (hmoves.length_le.trans hi)⟩
  have hnew : i = s.tasks.length → t'.Programs (fun _ {_} p => P.Keeps P.start p) →
      P.TaskAt (place i) t' := by
    rintro rfl hprograms
    rw [hplaced.unborn _ le_rfl]
    exact taskAt_of_programs hprograms
  cases hmoves with
  | run _ _ _ => exact absurd rfl (hl _ _)
  | receive hj hphase hses htasks =>
    rw [htasks] at hi
    rcases getElem?_replace hi with ⟨-, hi⟩ | ⟨rfl, rfl⟩
    · exact hplaced.tasks i t' hi
    · have hplace := hplaced.tasks _ _ hj
      simp only [TaskAt, hphase, PhaseAt] at hplace
      rw [hplace]
      exact taskAt_of_programs (Session.programs_receive hstart hses)
  | connect hworld htasks =>
    rw [htasks] at hi
    rcases getElem?_spawn hi with hi | ⟨hlen, rfl⟩
    · exact hplaced.tasks i t' hi
    · exact hnew hlen (hstart.connect _ _)
  | request hworld htasks =>
    rw [htasks] at hi
    rcases getElem?_spawn hi with hi | ⟨hlen, rfl⟩
    · exact hplaced.tasks i t' hi
    · exact hnew hlen (hstart.request _)
  | force htasks =>
    rw [htasks] at hi
    rcases getElem?_spawn hi with hi | ⟨hlen, rfl⟩
    · exact hplaced.tasks i t' hi
    · exact hnew hlen (hstart.force _ _)
  | background hl htasks =>
    rw [htasks] at hi
    exact hplaced.tasks i t' hi

/-- **One operation of a task** moves it, and nobody else. -/
theorem Placed.run {x : Choice} (hstart : P.Starts env) (hplaced : P.Placed place s)
    (hs : s.step env (.run i x) = some s')
    (hok : ∀ t op r, s.tasks[i]? = some t → t.head? = some op →
      op.exec env t.activity.server i x s.world = some (r, s'.world) → P.Answers op r) :
    ∃ t t' op r h', s.tasks[i]? = some t ∧ t.step env i x s.world = some (t', s'.world) ∧
      s'.tasks = s.tasks.set i t' ∧ t.head? = some op ∧
      op.exec env t.activity.server i x s.world = some (r, s'.world) ∧
      P.Moves (place i) op r h' ∧ P.Placed (Function.update place i h') s' := by
  cases System.moves hs with
  | background hl _ => exact absurd hl id
  | run hi ht htasks =>
    rename_i t t'
    obtain ⟨op, r, h', hhead, hx, hmove, hat⟩ :=
      (hplaced.tasks i t hi).step hstart ht fun op r => hok t op r hi
    refine ⟨t, t', op, r, h', hi, ht, htasks, hhead, hx, hmove, fun j u hj => ?_, fun j hj => ?_⟩
    · rw [htasks] at hj
      rcases getElem?_replace hj with ⟨hji, hj⟩ | ⟨rfl, rfl⟩
      · rw [Function.update_of_ne hji]
        exact hplaced.tasks j u hj
      · rw [Function.update_self]
        exact hat
    · have hlt : i < s.tasks.length := (List.getElem?_eq_some_iff.mp hi).1
      rw [htasks, List.length_set] at hj
      rw [Function.update_of_ne (Nat.ne_of_gt (Nat.lt_of_lt_of_le hlt hj))]
      exact hplaced.unborn j hj

end Protocol

end NexusChat
