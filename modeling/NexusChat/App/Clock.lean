import NexusChat.Services.PresenceEntries
import NexusChat.App.Moves

/-!
# The system and its clock

`time.time()` reads one clock on every instance, and time passes between any two steps. Next to
the system stand two histories: what each session has done to its user's presence, and when the
server has handled a frame of which session.

A task changes its own user's entries in the presence sets and removes old entries: the cutoff it
has computed is never younger than the timeout when it is used. `Clocked.timely` says so of every
task in every run.
-/

set_option autoImplicit false

namespace NexusChat

structure Clocked where
  system : System
  now : Time
  /-- when a session has last set its user online under a key, as long as it has not set the user
  offline there -/
  online : Dict (TaskId × String) Time
  /-- the frames that sessions have received, newest first -/
  heard : List (TaskId × Time)

inductive ClockedLabel where
  | step (l : Label)
  | wait (time : Time)

namespace Clocked

def init (t : Tables) (now : Time) : Clocked :=
  { system := .init t, now, online := ∅, heard := [] }

/-- Whoever asks for the time is told it. -/
def atTime (now : Time) : Label → Label
  | .run i x => .run i { x with now }
  | l => l

/-- The presence history after an operation. A command that is not executed is not recorded. -/
def recordOp (online : Dict (TaskId × String) Time) (i : TaskId) (executed : Bool) :
    Op → Dict (TaskId × String) Time
  | .redis (.zadd key _ score) => if executed then online.set (i, key) score else online
  | .redis (.zrem key _) => online.pop (i, key)
  | _ => online

def record (c : Clocked) : Label → Dict (TaskId × String) Time
  | .run i x =>
    match (c.system.tasks[i]?).bind Task.head? with
    | some op => recordOp c.online i (x.ok || x.executed) op
    | none => c.online
  | _ => c.online

def hear (c : Clocked) : Label → List (TaskId × Time)
  | .receive i _ => (i, c.now) :: c.heard
  | _ => c.heard

def step (env : Env) (c : Clocked) : ClockedLabel → Option Clocked
  | .wait time => some { c with now := c.now + time }
  | .step l => (c.system.step env (atTime c.now l)).map fun s =>
      { c with system := s, online := c.record l, heard := c.hear l }

end Clocked

/-! ## Programs on time -/

/-- What an operation of a task may do to the presence sets at a time: change the entries of the
user whose session it is, and remove old ones. -/
def Op.Proper (env : Env) (owner : Option UserId) (now : Time) : Op → Prop
  | .redis (.zadd _ member _) => owner = some member
  | .redis (.zrem _ member) => owner = some member
  | .redis (.zremrangebyscore _ max) => max + env.presenceTimeout ≤ now
  | _ => True

/-- The time, and the operation that was performed last. -/
structure Moment where
  now : Time
  last : Option Op

/-- An operation is performed at a moment, on whatever instance and world. -/
def Performs (env : Env) (op : Op) (m : Moment) (r : Except Exn op.Resp) (m' : Moment) : Prop :=
  m' = ⟨m.now, some op⟩ ∧
    ∃ srv me x w w', x.now = m.now ∧ op.exec env srv me x w = some (r, w')

/-- Whatever time passes before each of its operations, they are proper when they are performed. -/
def TimelyAt (env : Env) (owner : Option UserId) {α : Type} (p : Prog α) (m : Moment) : Prop :=
  p.Safe (Performs env) (fun m m' => m.now ≤ m'.now)
    (fun m m' => ∀ op, m'.last = some op → op.Proper env owner m.now) (fun _ _ => True) m

def Timely (env : Env) (owner : Option UserId) {α : Type} (p : Prog α) (now : Time) : Prop :=
  TimelyAt env owner p ⟨now, none⟩

section Programs

variable {env : Env} {o : Option UserId} {α β : Type} {p : Prog α} {now : Time} {m : Moment}

instance : IsTrans Moment fun m m' => m.now ≤ m'.now := ⟨fun _ _ _ => Nat.le_trans⟩

theorem TimelyAt.later {m m' : Moment} (h : TimelyAt env o p m) (hle : m.now ≤ m'.now) :
    TimelyAt env o p m' :=
  Coro.Safe.rely (fun _ _ _ _ _ => trivial) hle h

/-- What was performed last is forgotten. -/
theorem TimelyAt.timely (h : TimelyAt env o p m) : Timely env o p m.now :=
  TimelyAt.later h (le_refl m.now)

/-- Time has passed. -/
theorem Timely.later {now' : Time} (h : Timely env o p now) (hle : now ≤ now') :
    Timely env o p now' := TimelyAt.later h hle

theorem Timely.at (h : Timely env o p m.now) : TimelyAt env o p m :=
  TimelyAt.later h (le_refl m.now)

theorem timely_bind {f : α → Prog β} (hp : Timely env o p now)
    (hf : ∀ a T, now ≤ T → Timely env o (f a) T) : Timely env o (p >>= f) now := by
  induction p generalizing now with
  | ret a => exact hf a now le_rfl
  | raise e => trivial
  | await op k ih =>
    intro m hm r m' hx
    obtain ⟨hproper, hk⟩ := hp m hm r m' hx
    refine ⟨hproper, ?_⟩
    obtain ⟨rfl, -⟩ := hx
    exact Timely.at (ih r (TimelyAt.timely hk) fun a T hT => hf a T (Nat.le_trans hm hT))

theorem timely_perform {op : Op} {f : op.Resp → Prog α} (hop : ∀ T, now ≤ T → op.Proper env o T)
    (hf : ∀ a T, now ≤ T → Timely env o (f a) T) : Timely env o (await op >>= f) now := by
  unfold Timely TimelyAt
  refine Coro.safe_perform fun m hm r m' hx => ?_
  obtain ⟨rfl, -⟩ := hx
  refine ⟨fun op' h => ?_, ?_⟩
  · cases h
    exact hop m.now hm
  · cases r with
    | ok a => exact Timely.at (hf a m.now hm)
    | error e => trivial

/-- Whoever asks for the time is told it. -/
theorem timely_time {f : Time → Prog α} (hf : ∀ T, now ≤ T → Timely env o (f T) T) :
    Timely env o (await .time >>= f) now := by
  unfold Timely TimelyAt
  refine Coro.safe_perform fun m hm r m' hx => ?_
  obtain ⟨rfl, srv, me, x, w, w', hnow, hx⟩ := hx
  cases hx
  refine ⟨fun op' h => ?_, ?_⟩
  · cases h
    trivial
  · show TimelyAt env o (f x.now) _
    rw [hnow]
    exact Timely.at (hf m.now hm)

theorem timely_of_all (h : p.All fun op : Op => ∀ T, op.Proper env o T) : Timely env o p now := by
  refine Coro.Safe.of_all (I := fun _ => True) (fun _ _ _ _ => trivial) ?_ (fun _ _ _ => trivial)
    h trivial
  intro op hop m r m' _ hx
  obtain ⟨rfl, -⟩ := hx
  refine ⟨fun op' h => ?_, trivial⟩
  cases h
  exact hop m.now

theorem timely_tryCatch {g : Exn → Prog α} (hp : Timely env o p now)
    (hg : ∀ e T, now ≤ T → Timely env o (g e) T) : Timely env o (tryCatchThe Exn p g) now := by
  induction p generalizing now with
  | ret a => trivial
  | raise e => exact hg e now le_rfl
  | await op k ih =>
    intro m hm r m' hx
    obtain ⟨hproper, hk⟩ := hp m hm r m' hx
    refine ⟨hproper, ?_⟩
    obtain ⟨rfl, -⟩ := hx
    exact Timely.at (ih r (TimelyAt.timely hk) fun e T hT => hg e T (Nat.le_trans hm hT))

theorem Timely.proper {srv : ServerId} {me : TaskId} {x : Choice} {w w' : World} {op : Op}
    {r : Except Exn op.Resp} (h : Timely env o p now) (hhead : p.head? = some op)
    (hx : x.now = now) (hexec : op.exec env srv me x w = some (r, w')) : op.Proper env o now := by
  cases p with
  | ret a => cases hhead
  | raise e => cases hhead
  | await op' k =>
    cases hhead
    exact (h ⟨now, none⟩ (le_refl now) r ⟨now, some op⟩ ⟨rfl, srv, me, x, w, w', hx, hexec⟩).1 op rfl

/-- One operation at a time. -/
theorem Timely.step {srv : ServerId} {me : TaskId} {x : Choice} {w w' : World} {p' : Prog α}
    (h : Timely env o p now) (hx : x.now = now)
    (hs : p.step (Op.exec env srv me) x w = some (p', w')) : Timely env o p' now := by
  obtain ⟨op, k, r, rfl, hexec, rfl⟩ := Coro.step_eq_some hs
  obtain ⟨-, hk⟩ := h ⟨now, none⟩ (le_refl now) r ⟨now, some op⟩ ⟨rfl, srv, me, x, w, w', hx, hexec⟩
  exact TimelyAt.timely hk

end Programs

/-! ## The programs of the application -/

section Application

variable {env : Env} {o : Option UserId} {u : UserId} {username : String} {now : Time}

theorem proper_of_plain {op : Op} (h : op.Plain) : ∀ T, op.Proper env o T := by
  intro T
  cases op with
  | redis o => cases o <;> first | trivial | exact absurd trivial h
  | _ => trivial

theorem timely_setOnline {room_id : Json} :
    Timely env (some u) (PresenceService.setOnline env room_id u username) now := by
  refine timely_time fun T _ => timely_perform (fun _ _ => rfl) fun _ _ _ => ?_
  exact timely_of_all (Coro.all_perform (S := Op.sig) fun _ => trivial)

theorem timely_setOffline {room_id : Json} :
    Timely env (some u) (PresenceService.setOffline env room_id u) now :=
  timely_of_all (Coro.all_perform (S := Op.sig) fun _ => rfl)

/-- The cutoff gets older until it is used. -/
theorem timely_getOnlineUsers {room_id : Json} :
    Timely env o (PresenceService.getOnlineUsers env room_id) now := by
  refine timely_time fun T _ => timely_perform (fun T' hT' => ?_) fun _ _ _ => ?_
  · show ((T : Int) - env.presenceTimeout) + env.presenceTimeout ≤ T'
    have : (T : Int) ≤ T' := Int.ofNat_le.mpr hT'
    simpa using this
  · exact timely_perform (fun _ _ => trivial) fun uids _ _ =>
      timely_of_all (plain_withUsernames fun _ => proper_of_plain)

theorem timely_publish {channel : Channel} {message : Json} :
    Timely env o (RedisBroker.publish channel message) now :=
  timely_of_all (plain_publish (fun _ => proper_of_plain) fun _ => trivial)

theorem timely_sendToUser {user_id : UserId} {m : WSOutboundMessage} :
    Timely env o (Chat.sendToUser user_id m) now :=
  timely_of_all (plain_sendToUser fun _ => proper_of_plain)

theorem timely_enterRoom {room_id : RoomId} :
    Timely env (some u) (Chat.enterRoom env u username room_id) now := by
  refine timely_bind ?_ fun _ _ _ => timely_perform (fun _ _ => trivial) fun _ _ _ => ?_
  · refine timely_perform (fun _ _ => trivial) fun p _ _ => ?_
    cases p with
    | none => trivial
    | some p => exact timely_of_all (all_brokerOp fun _ => trivial)
  · refine timely_bind timely_setOnline fun _ _ _ => timely_bind timely_publish fun _ _ _ => ?_
    exact timely_bind timely_getOnlineUsers fun _ _ _ => timely_sendToUser

theorem timely_ofExcept {α β : Type} {x : Except Exn α} {f : α → Prog β}
    (hf : ∀ a, Timely env o (f a) now) : Timely env o (Coro.ofExcept x >>= f) now := by
  cases x with
  | ok a => exact hf a
  | error e => trivial

theorem timely_handleJoinRoom {event_data : Json} :
    Timely env (some u) (Chat.handleJoinRoom env u username event_data) now := by
  refine timely_ofExcept fun room_id => ?_
  split
  · refine timely_bind (timely_of_all (plain_verifyMembership (fun _ => proper_of_plain)
      (fun _ _ _ => trivial) fun _ => trivial)) fun is_member _ _ => ?_
    split
    · exact timely_enterRoom
    · trivial
  · exact timely_sendToUser

theorem timely_handleLeaveRoom {event_data : Json} :
    Timely env (some u) (Chat.handleLeaveRoom env u username event_data) now := by
  refine timely_ofExcept fun room_id => ?_
  split
  · refine timely_perform (fun _ _ => trivial) fun _ _ _ => ?_
    exact timely_bind timely_setOffline fun _ _ _ => timely_publish
  · trivial

theorem timely_handleFrame {data : Json} :
    Timely env (some u) (Chat.handleFrame env u username data) now := by
  have hplain : ∀ op : Op, op.Plain → ∀ T, op.Proper env (some u) T := fun _ => proper_of_plain
  rw [Chat.handleFrame_eq]
  refine timely_ofExcept fun event => timely_ofExcept fun event_data =>
    timely_bind (timely_of_all (plain_rateLimited hplain)) fun limited _ _ => ?_
  split
  · exact timely_sendToUser
  · apply Chat.dispatch_cases (P := fun p => Timely env (some u) p _)
    · exact fun _ => timely_handleJoinRoom
    · exact fun _ => timely_handleLeaveRoom
    · exact fun _ => timely_of_all (plain_handleMessage hplain (fun _ _ => ⟨fun _ => trivial,
        fun _ _ _ _ _ => trivial, fun _ => trivial, fun _ => trivial, fun _ => trivial⟩)
        fun _ _ _ _ => trivial)
    · exact fun _ => timely_of_all (plain_handleTyping hplain fun _ _ _ => trivial)
    · exact fun _ => timely_of_all (plain_handleTyping hplain fun _ _ _ => trivial)
    · exact fun _ => timely_sendToUser

theorem timely_leaveAll {rooms : List RoomId} :
    Timely env (some u) (Chat.leaveAll env u username rooms) now := by
  induction rooms generalizing now with
  | nil => trivial
  | cons room_id rooms ih =>
    refine timely_bind timely_setOffline fun _ _ _ => ?_
    exact timely_bind (timely_tryCatch timely_publish fun _ _ _ => trivial) fun _ _ _ => ih

theorem timely_cleanup {conn : ConnId} :
    Timely env (some u) (Chat.cleanup env u username conn) now := by
  refine timely_perform (fun _ _ => trivial) fun _ _ _ => ?_
  refine timely_bind timely_leaveAll fun _ _ _ => ?_
  exact timely_of_all (all_disconnect (fun _ => trivial) (fun _ _ => trivial) fun _ => trivial)

theorem timely_connect : Timely env o (ConnectionManager.connect managerOp u username) now :=
  timely_of_all (all_connect (fun _ => trivial) (fun _ => trivial) (fun _ _ => trivial)
    (fun _ _ _ => trivial) (fun _ _ => trivial) fun _ _ => trivial)

theorem timely_request {r : Request} : Timely env o r.prog now :=
  timely_of_all (all_request fun _ _ => trivial)

theorem timely_forceDisconnect {conn : ConnId} {reason : String} :
    Timely env o (ConnectionManager.forceDisconnect managerOp conn reason) now :=
  timely_of_all (all_forceDisconnect (fun _ => trivial) (fun _ _ => trivial) (fun _ => trivial)
    fun _ => trivial)

end Application

/-- Every program the application starts is on time. -/
theorem started_timely {env : Env} {now : Time} :
    Started env fun o {_} p => Timely env o p now where
  connect _ _ := timely_connect
  frame _ _ _ := timely_handleFrame
  send _ _ := timely_sendToUser
  cleanup _ _ _ := timely_cleanup
  request _ := timely_request
  force _ _ := timely_forceDisconnect

namespace Clocked

variable {env : Env} {t : Tables} {now : Time} {c c' : Clocked}
  {C : Clocked → ClockedLabel → Prop}

theorem step_eq_some {l : Label} (hs : c.step env (.step l) = some c') :
    c.system.step env (atTime c.now l) = some c'.system ∧ c'.now = c.now ∧
      c'.online = c.record l ∧ c'.heard = c.hear l := by
  obtain ⟨s, hsys, rfl⟩ := Option.map_eq_some_iff.mp hs
  exact ⟨hsys, rfl, rfl, rfl⟩

/-- The program of every task is on time. -/
def OnTime (env : Env) (c : Clocked) : Prop :=
  ∀ (i : TaskId) t, c.system.tasks[i]? = some t → t.Programs fun o {_} p => Timely env o p c.now

theorem onTime_step {l : ClockedLabel} (h : c.OnTime env) (hs : c.step env l = some c') :
    c'.OnTime env := by
  cases l with
  | wait time =>
    cases hs
    exact fun i t hi => Task.programs_mono (fun _ _ _ hp => Timely.later hp (Nat.le_add_right _ _))
      (h i t hi)
  | step l =>
    obtain ⟨hsys, hnow, -, -⟩ := step_eq_some hs
    intro i t hi
    rw [hnow]
    refine (System.moves hsys).programs started_timely h ?_ hi
    intro i x t hl _ α p p' hp hs
    have hx : x.now = c.now := by
      cases l <;> cases hl
      rfl
    exact Timely.step hp hx hs

/-- **The tasks of every run are on time**: what each does to the presence sets is proper when it
does it. -/
theorem onTime_reach (hr : Reach (step env) C (.init t now) c) : c.OnTime env :=
  hr.invariant (fun i t hi => by cases hi) fun _ _ _ h _ hs => onTime_step h hs

end Clocked

end NexusChat
