import NexusChat.Api.Footprint
import NexusChat.App.Frame

/-!
# Invariants of the whole system

An invariant of the system has to survive any interleaving of its tasks, and most of them are
about one task at one point of its program: between its membership check and its join, say, a
handler knows something that nobody else may undo. This file is the induction over runs that
all of them share, in the rely/guarantee form of `Coro.Safe`.

A `Discipline` names what holds of the world, what each task may rely on and what it guarantees,
depending on its `Activity`: whose session it is, on which instance, and which frame it handles.
`Discipline.Sound` lists what is to be proved, one obligation for each kind of program and each
kind of step, and `Discipline.Sound.inv_reach` is what they give.
-/

set_option autoImplicit false

namespace NexusChat

/-! ## What a task is doing -/

/-- What the operations of a task are due to. A request and a forced disconnect are nobody's
session. -/
structure Activity where
  server : ServerId
  userId : UserId
  conn : Option ConnId
  frame : Option Json

namespace Phase

def conn : Phase → Option ConnId
  | .receiving c | .handling c _ _ | .cleanup c _ => some c
  | .connecting _ | .ended => none

def frame : Phase → Option Json
  | .handling _ f _ => f
  | _ => none

/-- The operation a session is waiting for. -/
def head? : Phase → Option Op
  | .connecting p => p.head?
  | .handling _ _ p | .cleanup _ p => p.head?
  | .receiving _ | .ended => none

end Phase

namespace Task

def activity : Task → Activity
  | .session s => ⟨s.server, s.userId, s.phase.conn, s.phase.frame⟩
  | .request _ _ => ⟨0, "", none, none⟩
  | .forced srv conn _ => ⟨srv, "", some conn, none⟩

def head? : Task → Option Op
  | .session s => s.phase.head?
  | .request _ p | .forced _ _ p => p.head?

end Task

/-! ## The obligations -/

structure Discipline where
  /-- what holds of the world throughout -/
  good : World → Prop
  /-- what holds of a task that does not exist yet -/
  unborn : TaskId → World → Prop
  /-- the operations that the condition on the steps lets through -/
  permits : TaskId → Activity → Op → World → Prop
  rely : TaskId → Activity → World → World → Prop
  guarantee : TaskId → Activity → World → World → Prop
  /-- what holds of a session that waits for its next frame -/
  idle : TaskId → Activity → World → Prop

namespace Discipline

variable (D : Discipline) (env : Env)

/-- One operation of a task, in a good world and let through. -/
def Exec (me : TaskId) (a : Activity) (op : Op) (w : World) (r : Except Exn op.Resp)
    (w' : World) : Prop :=
  D.good w ∧ D.permits me a op w ∧ ∃ x, op.exec env a.server me x w = some (r, w')

/-- A program of a task that keeps to the discipline and ends in `Q`. -/
abbrev Keeps {α : Type} (me : TaskId) (a : Activity) (Q : Except Exn α → World → Prop)
    (p : Prog α) (w : World) : Prop :=
  p.Safe (D.Exec env me a) (D.rely me a) (D.guarantee me a) Q w

def Ends {α : Type} (_ : Except Exn α) (_ : World) : Prop := True

/-- What is known of a session, by its phase. -/
def PhaseHolds (me : TaskId) (srv : ServerId) (user_id : UserId) (w : World) : Phase → Prop
  | .connecting p => D.Keeps env me ⟨srv, user_id, none, none⟩
      (fun r w => ∀ conn, r = .ok conn → D.idle me ⟨srv, user_id, some conn, none⟩ w) p w
  | .receiving conn => D.idle me ⟨srv, user_id, some conn, none⟩ w
  | .handling conn frame p => D.Keeps env me ⟨srv, user_id, some conn, frame⟩
      (fun _ w => D.idle me ⟨srv, user_id, some conn, none⟩ w) p w
  | .cleanup conn p => D.Keeps env me ⟨srv, user_id, some conn, none⟩ Ends p w
  | .ended => True

def Holds (me : TaskId) (w : World) : Task → Prop
  | .session s => D.PhaseHolds env me s.server s.userId w s.phase
  | .request _ p => D.Keeps env me ⟨0, "", none, none⟩ Ends p w
  | .forced srv conn p => D.Keeps env me ⟨srv, "", some conn, none⟩ Ends p w

/-- The invariant of a system. -/
structure Inv (s : System) : Prop where
  good : D.good s.world
  tasks : ∀ i t, s.tasks[i]? = some t → D.Holds env i s.world t
  unborn : ∀ i, s.tasks.length ≤ i → D.unborn i s.world

/-- What makes a discipline an invariant of the runs whose steps meet `C`. -/
structure Sound (C : System → Label → Prop) : Prop where
  refl : ∀ me a w, D.rely me a w w
  trans : ∀ me a, IsTrans World (D.rely me a)
  idle_stable : ∀ me srv user_id conn c frame, Coro.Stable (D.rely me ⟨srv, user_id, c, frame⟩)
    (D.idle me ⟨srv, user_id, some conn, none⟩)
  permits_run : ∀ {s : System} {i : TaskId} {x : Choice} {t : Task} {op : Op},
    C s (.run i x) → s.tasks[i]? = some t → t.head? = some op → D.permits i t.activity op s.world
  good_run : ∀ {me : TaskId} {a : Activity} {w w' : World},
    D.good w → D.guarantee me a w w' → D.good w'
  unborn_run : ∀ {me other : TaskId} {a : Activity} {w w' : World},
    D.guarantee me a w w' → other ≠ me → D.unborn other w → D.unborn other w'
  /-- an operation of task `i` is within what task `j` relies on -/
  rely_run : ∀ {s : System} {i j : TaskId} {x : Choice} {t u : Task} {op : Op}
    {r : Except Exn op.Resp} {w' : World}, C s (.run i x) → s.tasks[i]? = some t →
    s.tasks[j]? = some u → j ≠ i → t.head? = some op →
    op.exec env t.activity.server i x s.world = some (r, w') →
    D.guarantee i t.activity s.world w' → D.rely j u.activity s.world w'
  /-- the steps that are not an operation of a task -/
  env_good : ∀ {s s' : System} {l : Label}, (∀ i x, l ≠ .run i x) → C s l →
    s.step env l = some s' → D.good s.world → D.good s'.world
  env_rely : ∀ {s s' : System} {l : Label}, (∀ i x, l ≠ .run i x) → C s l →
    s.step env l = some s' → D.good s.world → ∀ me a, D.rely me a s.world s'.world
  env_unborn : ∀ {s s' : System} {l : Label}, (∀ i x, l ≠ .run i x) → C s l →
    s.step env l = some s' → ∀ me, D.unborn me s.world → D.unborn me s'.world
  connect : ∀ {me : TaskId} {srv : ServerId} {user_id : UserId} {username : String} {w : World},
    D.good w → D.unborn me w → D.Keeps env me ⟨srv, user_id, none, none⟩
      (fun r w => ∀ conn, r = .ok conn → D.idle me ⟨srv, user_id, some conn, none⟩ w)
      (ConnectionManager.connect managerOp user_id username) w
  request : ∀ {me : TaskId} {r : Request} {w : World}, D.good w → D.unborn me w →
    D.Keeps env me ⟨0, "", none, none⟩ Ends r.prog w
  forced : ∀ {me : TaskId} {srv : ServerId} {conn : ConnId} {reason : String} {w : World},
    D.good w → D.unborn me w → D.Keeps env me ⟨srv, "", some conn, none⟩ Ends
      (ConnectionManager.forceDisconnect managerOp conn reason) w
  frame : ∀ {s : System} {i : TaskId} {ses : Session} {conn : ConnId} {data : Json},
    C s (.receive i (.json data)) → s.tasks[i]? = some (.session ses) →
    ses.phase = .receiving conn → D.good s.world →
    D.idle i ⟨ses.server, ses.userId, some conn, none⟩ s.world →
    D.Keeps env i ⟨ses.server, ses.userId, some conn, some data⟩
      (fun _ w => D.idle i ⟨ses.server, ses.userId, some conn, none⟩ w)
      (Chat.handleFrame env ses.userId ses.username data) s.world
  send : ∀ {me : TaskId} {srv : ServerId} {user_id : UserId} {conn : ConnId}
    {m : WSOutboundMessage} {w : World}, D.idle me ⟨srv, user_id, some conn, none⟩ w →
    D.Keeps env me ⟨srv, user_id, some conn, none⟩
      (fun _ w => D.idle me ⟨srv, user_id, some conn, none⟩ w) (Chat.sendToUser user_id m) w
  cleanup : ∀ {me : TaskId} {srv : ServerId} {user_id : UserId} {username : String}
    {conn : ConnId} {w : World}, D.idle me ⟨srv, user_id, some conn, none⟩ w →
    D.Keeps env me ⟨srv, user_id, some conn, none⟩ Ends
      (Chat.cleanup env user_id username conn) w

end Discipline

/-! ## A frame, branch by branch -/

section Frame

variable {D : Discipline} {env : Env} {me : TaskId} {a : Activity}
  {Q : Except Exn Unit → World → Prop} {I : World → Prop} {user_id : UserId} {username : String}
  {data : Json} {w : World} (hstable : Coro.Stable (D.rely me a) I)
  (hquiet : ∀ op : Op, op.Quiet → ∀ w r w', I w → D.Exec env me a op w r w' →
    D.guarantee me a w w' ∧ I w')
  (hQ : ∀ r w, I w → Q r w)
include hstable hquiet hQ

theorem Discipline.keeps_sendToUser {m : WSOutboundMessage} (hw : I w) :
    D.Keeps env me a Q (Chat.sendToUser user_id m) w :=
  Coro.Safe.of_all hstable hquiet hQ (all_sendToUser fun _ hop => hop) hw

/-- **A frame is handled within the discipline** if each of its branches is. -/
theorem Discipline.keeps_handleFrame
    (hjoin : ∀ event_data w, Chat.FrameIs data "join_room" event_data → I w →
      D.Keeps env me a Q (Chat.handleJoinRoom env user_id username event_data) w)
    (hleave : ∀ event_data w, Chat.FrameIs data "leave_room" event_data → I w →
      D.Keeps env me a Q (Chat.handleLeaveRoom env user_id username event_data) w)
    (hmessage : ∀ event_data w, Chat.FrameIs data "message" event_data → I w →
      D.Keeps env me a Q (Chat.handleMessage env user_id username event_data) w)
    (hstart : ∀ event_data w, Chat.FrameIs data "typing_start" event_data → I w →
      D.Keeps env me a Q (Chat.handleTyping env user_id username event_data true) w)
    (hstop : ∀ event_data w, Chat.FrameIs data "typing_stop" event_data → I w →
      D.Keeps env me a Q (Chat.handleTyping env user_id username event_data false) w)
    (hw : I w) : D.Keeps env me a Q (Chat.handleFrame env user_id username data) w := by
  rw [Chat.handleFrame_eq]
  cases hevent : data.get "event" (.str "") with
  | error e => exact hQ _ _ hw
  | ok event =>
    cases hdata : data.get "data" (.obj []) with
    | error e => exact hQ _ _ hw
    | ok event_data =>
      change D.Keeps env me a Q (Chat.handleEvent env user_id username event event_data) w
      refine Coro.safe_bind (Coro.Safe.of_all hstable hquiet ?_
        (all_rateLimited fun _ hop => hop) hw)
      intro r w hw
      cases r with
      | error e => exact hQ _ _ hw
      | ok limited =>
        show D.Keeps env me a Q (if limited = true then _ else _) w
        split
        · exact Discipline.keeps_sendToUser hstable hquiet hQ hw
        · exact Chat.dispatch_cases (P := fun p => D.Keeps env me a Q p w)
            (fun he => hjoin event_data w ⟨event, hevent, he, hdata⟩ hw)
            (fun he => hleave event_data w ⟨event, hevent, he, hdata⟩ hw)
            (fun he => hmessage event_data w ⟨event, hevent, he, hdata⟩ hw)
            (fun he => hstart event_data w ⟨event, hevent, he, hdata⟩ hw)
            (fun he => hstop event_data w ⟨event, hevent, he, hdata⟩ hw)
            (fun m => Discipline.keeps_sendToUser hstable hquiet hQ hw)

end Frame

/-! ## The induction -/

theorem getElem?_spawn {ts : List Task} {i : Nat} {t u : Task}
    (hi : (ts ++ [t])[i]? = some u) : ts[i]? = some u ∨ (i = ts.length ∧ u = t) := by
  rw [List.getElem?_append] at hi
  split at hi
  · exact Or.inl hi
  · rename_i hlt
    obtain ⟨hlen, hu⟩ := List.getElem?_eq_some_iff.mp hi
    have hlen' : i - ts.length < 1 := hlen
    refine Or.inr ⟨by omega, ?_⟩
    rw [← hu]
    simp

theorem Discipline.inv_init {D : Discipline} {env : Env} {t : Tables} (hgood : D.good (.init t))
    (hunborn : ∀ i, D.unborn i (.init t)) : D.Inv env (.init t) where
  good := hgood
  tasks := fun i t hi => by simp [System.init] at hi
  unborn := fun i _ => hunborn i

namespace Discipline.Sound

variable {D : Discipline} {env : Env} {C : System → Label → Prop} (h : D.Sound env C)
include h

/-- What is known of a task survives what it relies on. -/
theorem holds_rely {me : TaskId} {t : Task} {w w' : World} (hr : D.rely me t.activity w w')
    (ht : D.Holds env me w t) : D.Holds env me w' t := by
  have := h.trans me
  cases t with
  | request r p => exact Coro.Safe.rely (fun _ _ _ _ _ => trivial) hr ht
  | forced srv conn p => exact Coro.Safe.rely (fun _ _ _ _ _ => trivial) hr ht
  | session s =>
    obtain ⟨srv, u, name, phase⟩ := s
    cases phase with
    | connecting p =>
      refine Coro.Safe.rely (fun r w w' hr hq conn hc => ?_) hr ht
      exact h.idle_stable me srv u conn none none w w' hr (hq conn hc)
    | receiving conn => exact h.idle_stable me srv u conn (some conn) none _ _ hr ht
    | handling conn frame p =>
      exact Coro.Safe.rely (fun _ => h.idle_stable me srv u conn (some conn) frame) hr ht
    | cleanup conn p => exact Coro.Safe.rely (fun _ _ _ _ _ => trivial) hr ht
    | ended => trivial

/-- The next phase holds where the last program has ended. -/
theorem holds_settle {me : TaskId} {srv : ServerId} {user_id : UserId} {username : String}
    {isOpen : ConnId → Bool} {w : World} (phase : Phase)
    (hp : D.PhaseHolds env me srv user_id w phase) :
    D.PhaseHolds env me srv user_id w (phase.settle env user_id username isOpen) := by
  cases phase with
  | connecting p =>
    cases p with
    | ret conn => exact h.send (hp conn rfl)
    | raise e => trivial
    | await op k => exact hp
  | receiving conn => exact hp
  | handling conn frame p =>
    cases p with
    | ret a =>
      simp only [Phase.settle]
      split
      · exact hp
      · exact h.cleanup hp
    | raise e => exact h.cleanup hp
    | await op k => exact hp
  | cleanup conn p =>
    cases p with
    | ret a => trivial
    | raise e => trivial
    | await op k => exact hp
  | ended => trivial

/-- One operation of a program, and what it leaves behind. -/
theorem keeps_step {α : Type} {me : TaskId} {a : Activity} {Q : Except Exn α → World → Prop}
    {p p' : Prog α} {x : Choice} {w w' : World} (hgood : D.good w)
    (hperm : ∀ op, p.head? = some op → D.permits me a op w) (hp : D.Keeps env me a Q p w)
    (hs : p.step (Op.exec env a.server me) x w = some (p', w')) :
    D.guarantee me a w w' ∧ D.Keeps env me a Q p' w' ∧
      ∃ op r, p.head? = some op ∧ op.exec env a.server me x w = some (r, w') := by
  obtain ⟨op, k, r, rfl, hx, rfl⟩ := Coro.step_eq_some hs
  obtain ⟨hg, hk⟩ := hp w (h.refl me a w) r w' ⟨hgood, hperm op rfl, x, hx⟩
  exact ⟨hg, hk, op, r, rfl, hx⟩

/-- One operation of a task. -/
theorem holds_step {s : System} {i : TaskId} {x : Choice} {t t' : Task} {w' : World}
    (hgood : D.good s.world) (hC : C s (.run i x)) (hi : s.tasks[i]? = some t)
    (ht : D.Holds env i s.world t) (hs : t.step env i x s.world = some (t', w')) :
    D.guarantee i t.activity s.world w' ∧ D.Holds env i w' t' ∧
      ∃ op r, t.head? = some op ∧ op.exec env t.activity.server i x s.world = some (r, w') := by
  have hperm : ∀ op, t.head? = some op → D.permits i t.activity op s.world :=
    fun op hop => h.permits_run hC hi hop
  cases t with
  | request r p =>
    obtain ⟨⟨p', w₁⟩, hq, heq⟩ := Option.map_eq_some_iff.mp hs
    cases heq
    exact h.keeps_step hgood hperm ht hq
  | forced srv conn p =>
    obtain ⟨⟨p', w₁⟩, hq, heq⟩ := Option.map_eq_some_iff.mp hs
    cases heq
    exact h.keeps_step hgood hperm ht hq
  | session ses =>
    obtain ⟨srv, u, name, phase⟩ := ses
    obtain ⟨⟨phase', w₁⟩, hq, heq⟩ := Option.map_eq_some_iff.mp hs
    cases heq
    cases phase with
    | receiving conn => simp [Phase.step] at hq
    | ended => simp [Phase.step] at hq
    | connecting p =>
      obtain ⟨⟨p', w₁⟩, hp, heq⟩ := Option.map_eq_some_iff.mp hq
      cases heq
      obtain ⟨hg, hk, hop⟩ := h.keeps_step hgood hperm ht hp
      exact ⟨hg, h.holds_settle (.connecting p') hk, hop⟩
    | handling conn frame p =>
      obtain ⟨⟨p', w₁⟩, hp, heq⟩ := Option.map_eq_some_iff.mp hq
      cases heq
      obtain ⟨hg, hk, hop⟩ := h.keeps_step hgood hperm ht hp
      exact ⟨hg, h.holds_settle (.handling conn frame p') hk, hop⟩
    | cleanup conn p =>
      obtain ⟨⟨p', w₁⟩, hp, heq⟩ := Option.map_eq_some_iff.mp hq
      cases heq
      obtain ⟨hg, hk, hop⟩ := h.keeps_step hgood hperm ht hp
      exact ⟨hg, h.holds_settle (.cleanup conn p') hk, hop⟩

theorem holds_receive {s : System} {i : TaskId} {ses : Session} {conn : ConnId} {frame : Frame}
    (hC : C s (.receive i frame)) (hi : s.tasks[i]? = some (.session ses))
    (hphase : ses.phase = .receiving conn) (hgood : D.good s.world)
    (hidle : D.idle i ⟨ses.server, ses.userId, some conn, none⟩ s.world)
    (hrely : D.rely i ⟨ses.server, ses.userId, some conn, none⟩ s.world
      (ses.receive env conn s.world frame).2) :
    D.Holds env i (ses.receive env conn s.world frame).2
      (.session (ses.receive env conn s.world frame).1) := by
  cases frame with
  | json data =>
    have hk := h.frame hC hi hphase hgood hidle
    exact h.holds_settle (.handling conn (some data) _) hk
  | notJson => exact h.send hidle
  | binary => exact h.cleanup hidle
  | disconnect => exact h.cleanup (h.idle_stable i _ _ conn _ none _ _ hrely hidle)

/-- A step that is not an operation of a task and leaves the tasks as they are, but for new ones
and the one that is `i`. -/
theorem inv_env {s s' : System} {l : Label} (hinv : D.Inv env s) (hl : ∀ i x, l ≠ .run i x)
    (hC : C s l) (hs : s.step env l = some s') (hlen : s.tasks.length ≤ s'.tasks.length)
    (htasks : ∀ i t, s'.tasks[i]? = some t → s.tasks[i]? = some t ∨ D.Holds env i s'.world t) :
    D.Inv env s' where
  good := h.env_good hl hC hs hinv.good
  tasks := fun i t hi => by
    rcases htasks i t hi with hold | hnew
    · exact h.holds_rely (h.env_rely hl hC hs hinv.good _ _) (hinv.tasks i t hold)
    · exact hnew
  unborn := fun i hi => h.env_unborn hl hC hs i (hinv.unborn i (hlen.trans hi))

theorem inv_step {s s' : System} {l : Label} (hinv : D.Inv env s) (hC : C s l)
    (hs : s.step env l = some s') : D.Inv env s' := by
  have hsame : ∀ i t, s.tasks[i]? = some t → s.tasks[i]? = some t ∨ D.Holds env i s'.world t :=
    fun i t => Or.inl
  have hborn : D.unborn s.tasks.length s.world := hinv.unborn _ (Nat.le_refl _)
  cases l with
  | connect srv u name =>
    have hs₀ := hs
    simp only [System.step, Option.some.injEq] at hs
    subst hs
    refine h.inv_env hinv (by simp) hC hs₀ (by simp) fun i t hi => ?_
    -- the tasks that were there, and the new session
    rcases getElem?_spawn hi with hi | ⟨rfl, rfl⟩
    · exact Or.inl hi
    · exact Or.inr (h.connect hinv.good hborn)
  | request r =>
    have hs₀ := hs
    simp only [System.step, Option.some.injEq] at hs
    subst hs
    refine h.inv_env hinv (by simp) hC hs₀ (by simp) fun i t hi => ?_
    rcases getElem?_spawn hi with hi | ⟨rfl, rfl⟩
    · exact Or.inl hi
    · exact Or.inr (h.request hinv.good hborn)
  | force srv =>
    have hs₀ := hs
    have hgood := h.env_good (by simp) hC hs hinv.good
    have hborn' := h.env_unborn (by simp) hC hs _ hborn
    simp only [System.step] at hs
    split at hs
    · exact absurd hs (by simp)
    · simp only [Option.some.injEq] at hs
      subst hs
      refine h.inv_env hinv (by simp) hC hs₀ (by simp) fun i t hi => ?_
      rcases getElem?_spawn hi with hi | ⟨rfl, rfl⟩
      · exact Or.inl hi
      · exact Or.inr (h.forced hgood hborn')
  | receive i frame =>
    have hs₀ := hs
    have hrely := h.env_rely (by simp) hC hs hinv.good i
    simp only [System.step] at hs
    split at hs
    · rename_i ses hi
      split at hs
      · rename_i conn hphase
        simp only [Option.some.injEq] at hs
        subst hs
        have hses := hinv.tasks i _ hi
        simp only [Discipline.Holds, hphase] at hses
        refine h.inv_env hinv (by simp) hC hs₀ (by simp) fun j t hj => ?_
        -- the session that receives the frame, and the others
        by_cases hji : j = i
        · subst hji
          rw [List.getElem?_set_self (List.getElem?_eq_some_iff.mp hi).1] at hj
          cases hj
          exact Or.inr (h.holds_receive hC hi hphase hinv.good hses (hrely _))
        · rw [List.getElem?_set_ne (Ne.symm hji)] at hj
          exact Or.inl hj
      · exact absurd hs (by simp)
    · exact absurd hs (by simp)
  | run i x =>
    simp only [System.step] at hs
    split at hs
    · rename_i t hi
      obtain ⟨⟨t', w'⟩, hq, rfl⟩ := Option.map_eq_some_iff.mp hs
      obtain ⟨hg, hk, op, r, hhead, hexec⟩ :=
        h.holds_step hinv.good hC hi (hinv.tasks i t hi) hq
      -- the task that runs guarantees what the others rely on
      refine ⟨h.good_run hinv.good hg, fun j u hj => ?_, fun j hj => ?_⟩
      · by_cases hji : j = i
        · subst hji
          rw [List.getElem?_set_self (List.getElem?_eq_some_iff.mp hi).1] at hj
          cases hj
          exact hk
        · rw [List.getElem?_set_ne (Ne.symm hji)] at hj
          exact h.holds_rely (h.rely_run hC hi hj hji hhead hexec hg) (hinv.tasks j u hj)
      · simp only [List.length_set] at hj
        have hji : j ≠ i := fun he =>
          absurd (List.getElem?_eq_some_iff.mp hi).1 (Nat.not_lt.mpr (he ▸ hj))
        exact h.unborn_run hg hji (hinv.unborn j hj)
    · exact absurd hs (by simp)
  | listener srv e =>
    have hs₀ := hs
    obtain ⟨w, -, rfl⟩ := Option.map_eq_some_iff.mp hs
    exact h.inv_env hinv (by simp) hC hs₀ (Nat.le_refl _) hsame
  | sendTake srv conn =>
    have hs₀ := hs
    obtain ⟨m, -, rfl⟩ := Option.map_eq_some_iff.mp hs
    exact h.inv_env hinv (by simp) hC hs₀ (Nat.le_refl _) hsame
  | sendDone srv conn ok wrote =>
    have hs₀ := hs
    obtain ⟨m, -, rfl⟩ := Option.map_eq_some_iff.mp hs
    exact h.inv_env hinv (by simp) hC hs₀ (Nat.le_refl _) hsame

/-- **The discipline holds in every run** whose steps meet the condition. -/
theorem inv_reach {s₀ s : System} (h₀ : D.Inv env s₀)
    (hr : Reach (System.step env) C s₀ s) : D.Inv env s :=
  hr.invariant h₀ fun _ _ _ hinv hC hs => h.inv_step hinv hC hs

/-- A task's step is within what it guarantees. -/
theorem guarantee_run {s s' : System} {i : TaskId} {x : Choice} {t : Task} (hinv : D.Inv env s)
    (hC : C s (.run i x)) (hi : s.tasks[i]? = some t) (hs : s.step env (.run i x) = some s') :
    D.guarantee i t.activity s.world s'.world := by
  simp only [System.step, hi] at hs
  obtain ⟨⟨t', w'⟩, hq, rfl⟩ := Option.map_eq_some_iff.mp hs
  exact (h.holds_step hinv.good hC hi (hinv.tasks i t hi) hq).1

end Discipline.Sound

/-! ## Invariants of the world alone -/

/-- What tasks perform: the broker has been connected before, and a payload for a user alone comes
from no channel. -/
def Op.Issued : Op → Prop
  | .manager (.sendToUser _ p) => p.source = none
  | .broker .openPubsub | .broker .startListener => False
  | _ => True

theorem Op.Quiet.issued {op : Op} (h : op.Quiet) : op.Issued := by
  cases op with
  | manager o => cases o <;> first | exact h | trivial
  | broker o => exact absurd h id
  | db _ | redis _ | publish _ _ | sleep | time => trivial

/-- `I` holds throughout, where `P` is let through. -/
def worldly (I : World → Prop) (P : Op → World → Prop) : Discipline where
  good := I
  unborn _ _ := True
  permits _ _ op w := P op w
  rely _ _ _ _ := True
  guarantee _ _ _ w' := I w'
  idle _ _ _ := True

section Worldly

variable {I : World → Prop} {P : Op → World → Prop} {env : Env} {C : System → Label → Prop}
  (hrun : ∀ {srv : ServerId} {me : TaskId} {op : Op} {x : Choice} {w w' : World}
    {r : Except Exn op.Resp}, op.Issued → P op w → I w → op.exec env srv me x w = some (r, w') →
    I w')
include hrun

theorem worldly_issued {α : Type} {me : TaskId} {a : Activity} {Q : Except Exn α → World → Prop}
    {p : Prog α} {w : World} (hp : p.All Op.Issued) (hQ : ∀ r w, Q r w) :
    (worldly I P).Keeps env me a Q p w :=
  Coro.Safe.of_all (I := fun _ => True) (fun _ _ _ _ => trivial)
    (fun _ hop _ _ _ _ hx => ⟨hrun hop hx.2.1 hx.1 hx.2.2.choose_spec, trivial⟩)
    (fun r w _ => hQ r w) hp trivial

theorem worldly_handleFrame {me : TaskId} {a : Activity} {user_id : UserId} {username : String}
    {data : Json} {w : World} : (worldly I P).Keeps env me a (fun _ _ => True)
      (Chat.handleFrame env user_id username data) w := by
  have hq : ∀ op : Op, op.Quiet → op.Issued := fun _ => Op.Quiet.issued
  refine Discipline.keeps_handleFrame (I := fun _ => True) (fun _ _ _ _ => trivial)
    (fun op hop w r w' _ hx => ⟨hrun hop.issued hx.2.1 hx.1 hx.2.2.choose_spec, trivial⟩)
    (fun _ _ _ => trivial) ?_ ?_ ?_ ?_ ?_ trivial
  · intro event_data w _ _
    exact worldly_issued hrun (all_handleJoinRoom hq (fun _ _ => trivial) trivial
      (fun _ => trivial) (fun _ _ => trivial) (fun _ => trivial) fun _ => trivial)
      fun _ _ => trivial
  · intro event_data w _ _
    exact worldly_issued hrun (all_handleLeaveRoom hq (fun _ _ => trivial) fun _ _ => trivial)
      fun _ _ => trivial
  · intro event_data w _ _
    refine worldly_issued hrun (all_handleMessage hq (fun d _ => ?_) fun _ _ _ => trivial)
      fun _ _ => trivial
    exact ⟨trivial, fun _ _ _ _ => trivial, trivial, trivial, trivial⟩
  · intro event_data w _ _
    exact worldly_issued hrun (all_handleTyping hq fun _ _ => trivial) fun _ _ => trivial
  · intro event_data w _ _
    exact worldly_issued hrun (all_handleTyping hq fun _ _ => trivial) fun _ _ => trivial

/-- **An invariant of the world** is one that survives every operation that is issued and every
step that is no operation of a task. -/
theorem worldly_sound
    (hpermits : ∀ {s : System} {i : TaskId} {x : Choice} {t : Task} {op : Op}, C s (.run i x) →
      s.tasks[i]? = some t → t.head? = some op → P op s.world)
    (henv : ∀ {s s' : System} {l : Label}, (∀ i x, l ≠ .run i x) → C s l →
      s.step env l = some s' → I s.world → I s'.world) : (worldly I P).Sound env C where
  refl := fun _ _ _ => trivial
  trans := fun _ _ => ⟨fun _ _ _ _ _ => trivial⟩
  idle_stable := fun _ _ _ _ _ _ _ _ _ _ => trivial
  permits_run := fun hC hi hop => hpermits hC hi hop
  good_run := fun _ hg => hg
  unborn_run := fun _ _ _ => trivial
  rely_run := fun _ _ _ _ _ _ _ => trivial
  env_good := fun hl hC hs hgood => henv hl hC hs hgood
  env_rely := fun _ _ _ _ _ _ => trivial
  env_unborn := fun _ _ _ _ _ => trivial
  connect := fun _ _ => worldly_issued hrun (all_connect trivial trivial (fun _ => trivial)
    (fun _ _ => trivial) (fun _ => trivial) fun _ => trivial) fun _ _ _ _ => trivial
  request := fun _ _ => worldly_issued hrun (all_request fun _ => trivial) fun _ _ => trivial
  forced := fun _ _ => worldly_issued hrun (all_forceDisconnect trivial (fun _ => trivial) trivial
    trivial) fun _ _ => trivial
  frame := fun _ _ _ _ _ => worldly_handleFrame hrun
  send := fun _ => worldly_issued hrun (all_sendToUser fun _ => Op.Quiet.issued)
    fun _ _ => trivial
  cleanup := fun _ => worldly_issued hrun (all_cleanup (fun _ => Op.Quiet.issued)
    (fun _ => trivial) trivial (fun _ => trivial) trivial) fun _ _ => trivial

end Worldly

end NexusChat
