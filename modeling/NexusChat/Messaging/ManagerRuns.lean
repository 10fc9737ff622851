import NexusChat.Messaging.IndexAgreement

/-!
# Runs of the connection manager

Any number of calls of `connect`, `disconnect`, `join_room` and `leave_room`, by any users, next
to broadcasts, the forced disconnects they schedule, send tasks and clients going away. Every
call is a coroutine and every operation of every call is a step of its own, so a run is an
arbitrary interleaving; a scheduled `_force_disconnect` starts at any later time.

The cleanup inside `connect` needs no condition, because `connect` holds the lock: between its
look-up and its cleanup the user's registration can only disappear. That is a rely/guarantee
argument (`LockRely`, `LockGuarantee`), carried through `connect` and `disconnect` by the rules
of `Coro.Safe`.
-/

set_option autoImplicit false

namespace NexusChat

open ConnectionManager

variable {π : Type}

/-- The calls of the manager's methods that await something. -/
inductive ManagerCall where
  | connect (user_id : UserId) (username : String)
  | disconnect (user_id : UserId)
  | joinRoom (user_id : UserId) (room_id : RoomId)
  | leaveRoom (user_id : UserId) (room_id : Json)

/-- A program over the manager's operations. -/
abbrev ManagerProg (π α : Type) := Coro (ManagerOp.sig π) Exn α

def awaitOp : Lift π (ManagerProg π) := fun op => Coro.perform (S := ManagerOp.sig π) op

def ManagerCall.prog : ManagerCall → ManagerProg π Unit
  | .connect u name => do
    let _ ← ConnectionManager.connect awaitOp u name
    pure ()
  | .disconnect u => ConnectionManager.disconnect awaitOp u
  | .joinRoom u r => awaitOp (.joinRoom u r)
  | .leaveRoom u r => awaitOp (.leaveRoom u r)

/-- The manager and the calls made so far; a task is a position in the list. -/
structure ManagerPool (π : Type) where
  manager : ConnectionManager π
  tasks : List (ManagerProg π Unit)

inductive PoolLabel (π : Type) where
  | call (c : ManagerCall)
  /-- the oldest scheduled `_force_disconnect` starts -/
  | start
  /-- task `i` performs its next operation -/
  | run (i : TaskId) (x : SocketOutcome)
  | broadcast (room_id : RoomId) (payload : π) (exclude_user : Option UserId)
  | sendToUser (user_id : UserId) (payload : π)
  | sendTake (c : ConnId)
  | sendDone (c : ConnId) (ok wrote : Bool)
  | clientGone (c : ConnId)

namespace ManagerPool

def init : ManagerPool π := { manager := .init, tasks := [] }

def step (maxsize : Nat) (s : ManagerPool π) : PoolLabel π → Option (ManagerPool π)
  | .call c => some { s with tasks := s.tasks ++ [c.prog] }
  | .start =>
    match s.manager.forced with
    | [] => none
    | c :: rest => some
        { manager := { s.manager with forced := rest }
          tasks := s.tasks ++ [forceDisconnect awaitOp c "Send queue overflow (slow client)"] }
  | .run i x =>
    match s.tasks[i]? with
    | none => none
    | some p => (p.step (ManagerOp.exec maxsize i) x s.manager).map
        fun (p', m) => { manager := m, tasks := s.tasks.set i p' }
  | .broadcast r p ex => some { s with manager := s.manager.broadcastToRoom maxsize r p ex }
  | .sendToUser u p => some { s with manager := s.manager.sendToUser maxsize u p }
  | .sendTake c => (s.manager.sendTake c).map fun m => { s with manager := m }
  | .sendDone c ok wrote => (s.manager.sendDone c ok wrote).map fun m => { s with manager := m }
  | .clientGone c => some { s with manager := s.manager.clientGone c }

/-- No call is suspended midway and no forced disconnect is outstanding. -/
def Quiescent (s : ManagerPool π) : Prop :=
  s.manager.forced = [] ∧ ∀ p ∈ s.tasks, p.head? = none

/-- The condition on a step: if it is the cleanup of a scheduled `_force_disconnect`, the
connection its user has by then is in no room that the forced connection is not in. -/
def LateCleanupHarmless (s : ManagerPool π) : PoolLabel π → Prop
  | .run i _ => ∀ p c, s.tasks[i]? = some p → p.head? = some (.forceCleanup c) →
      CleanupHarmless s.manager c
  | _ => True

end ManagerPool

/-! ## The lock -/

/-- What the holder of the lock can rely on: it keeps the lock, and in the meantime nobody is
registered; connections can only disappear, and nobody changes whose a connection is. -/
structure LockRely (me : TaskId) (m m' : ConnectionManager π) : Prop where
  next : m.nextConn ≤ m'.nextConn
  user : ∀ c < m.nextConn, (m'.heap c).userId = (m.heap c).userId
  held : m.lock = some me → m'.lock = some me ∧
    ∀ u, m'.connections.get? u = m.connections.get? u ∨ m'.connections.get? u = none

/-- What an operation of task `me` guarantees the others. -/
structure LockGuarantee (me : TaskId) (m m' : ConnectionManager π) : Prop where
  coherent : Coherent m'
  next : m.nextConn ≤ m'.nextConn
  user : ∀ c < m.nextConn, (m'.heap c).userId = (m.heap c).userId
  held : ∀ t, t ≠ me → m.lock = some t → m'.lock = some t ∧
    ∀ u, m'.connections.get? u = m.connections.get? u ∨ m'.connections.get? u = none

instance (me : TaskId) : IsTrans (ConnectionManager π) (LockRely me) where
  trans a b c hab hbc :=
    { next := hab.next.trans hbc.next
      user := fun k hk => (hbc.user k (hk.trans_le hab.next)).trans (hab.user k hk)
      held := fun h => by
        obtain ⟨hb, hu⟩ := hab.held h
        obtain ⟨hc, hv⟩ := hbc.held hb
        refine ⟨hc, fun u => ?_⟩
        rcases hv u with hq | hq
        · rw [hq]; exact hu u
        · exact Or.inr hq }

theorem LockRely.refl {me : TaskId} (m : ConnectionManager π) : LockRely me m m :=
  ⟨Nat.le_refl _, fun _ _ => rfl, fun h => ⟨h, fun _ => Or.inl rfl⟩⟩

theorem LockGuarantee.rely {me t : TaskId} {m m' : ConnectionManager π}
    (h : LockGuarantee me m m') (ht : t ≠ me) : LockRely t m m' :=
  ⟨h.next, h.user, h.held t ht⟩

/-- A step that leaves the lock, the registrations and the owners alone. -/
theorem LockGuarantee.of_frame {me : TaskId} {m m' : ConnectionManager π} (hc : Coherent m')
    (hconn : m'.connections = m.connections) (hlock : m'.lock = m.lock)
    (hnext : m'.nextConn = m.nextConn)
    (huser : ∀ c, (m'.heap c).userId = (m.heap c).userId) : LockGuarantee me m m' where
  coherent := hc
  next := hnext ▸ Nat.le_refl _
  user := fun c _ => huser c
  held := fun t _ h => ⟨hlock.trans h, fun u => Or.inl (by rw [hconn])⟩

/-- One execution of one operation of task `me` in a coherent state, late cleanups being
harmless. -/
def PoolExec (maxsize : Nat) (me : TaskId) (op : ManagerOp π) (m : ConnectionManager π)
    (r : Except Exn op.Resp) (m' : ConnectionManager π) : Prop :=
  Coherent m ∧ (∀ c, op = .forceCleanup c → CleanupHarmless m c) ∧
    ∃ x, op.exec maxsize me x m = some (r, m')

theorem coherent_lock {m : ConnectionManager π} {l : Option TaskId} (h : Coherent m) :
    Coherent { m with lock := l } :=
  h.congr rfl (fun _ _ => Iff.rfl) (fun _ => ⟨rfl, rfl⟩) rfl

/-- **Every operation but two keeps the indexes and the lock discipline**; the two are the ones
only the holder of the lock performs. -/
theorem exec_guarantee {maxsize : Nat} {me : TaskId} {op : ManagerOp π}
    {m m' : ConnectionManager π} {r : Except Exn op.Resp} (h : PoolExec maxsize me op m r m')
    (hrep : ∀ old u name, op ≠ .replace old u name) (hun : op ≠ .unlock) :
    LockGuarantee me m m' := by
  obtain ⟨hc, hlate, x, hx⟩ := h
  obtain ⟨hl, -, rfl⟩ := ManagerOp.exec_eq_some hx
  cases op with
  | accept | clientState | sendText | rooms => exact .of_frame hc rfl rfl rfl fun _ => rfl
  | replace old u name => exact absurd rfl (hrep old u name)
  | unlock => exact absurd rfl hun
  | connectLocked u name =>
    -- the lock is free, so nobody holds it who could rely on anything
    have hfree : m.lock = none := hl rfl
    simp only [ManagerOp.after]
    cases hg : m.connections.get? u with
    | some c =>
      exact
        { coherent := coherent_lock hc
          next := Nat.le_refl _
          user := fun _ _ => rfl
          held := fun t _ ht => by simp [hfree] at ht }
    | none =>
      exact
        { coherent := coherent_register hc hg
          next := Nat.le_succ _
          user := fun c hlt => by rw [heap_register, if_neg (Nat.ne_of_lt hlt)]
          held := fun t _ ht => by simp [hfree] at ht }
  | close c =>
    refine .of_frame (coherent_closeSocket hc) rfl rfl rfl fun c' => ?_
    rw [ManagerOp.after, heap_closeSocket]
    split
    · rename_i hq; subst hq; rfl
    · rfl
  | forceCleanup c =>
    exact
      { coherent := coherent_forceCleanup hc (hlate c rfl)
        next := Nat.le_refl _
        user := fun _ _ => congrArg Prod.snd identity_forceCleanup
        -- the holder is told: a registration may be gone
        held := fun t _ ht => ⟨ht, fun u => by
          simp only [ManagerOp.after, get?_forceCleanup]
          split
          · exact Or.inr rfl
          · exact Or.inl rfl⟩ }
  | disconnectLocked u =>
    have hfree : m.lock = none := hl rfl
    exact
      { coherent := coherent_lock (coherent_unregister hc)
        next := Nat.le_of_eq nextConn_unregister.symm
        user := fun _ _ => congrArg Prod.snd identity_unregister
        held := fun t _ ht => by simp [hfree] at ht }
  | joinRoom u r =>
    exact .of_frame (coherent_joinRoom hc) connections_joinRoom lock_joinRoom nextConn_joinRoom
      fun c => congrArg Prod.snd identity_joinRoom
  | leaveRoom u r =>
    exact .of_frame (coherent_leaveRoom hc) connections_leaveRoom flags_leaveRoom.2.1
      flags_leaveRoom.1 fun c => congrArg Prod.snd identity_leaveRoom
  | sendToUser u p =>
    exact .of_frame (coherent_sendToUser hc) connections_sendToUser flags_sendToUser.2.1
      flags_sendToUser.1 fun c => congrArg Prod.snd identity_sendToUser

/-! ## Every call is safe -/

/-- A program of task `me` that respects the lock and keeps the indexes, from state `m` on. -/
abbrev TaskSafe (maxsize : Nat) (me : TaskId) {α : Type} (p : ManagerProg π α)
    (m : ConnectionManager π) : Prop :=
  p.Safe (PoolExec maxsize me) (LockRely me) (LockGuarantee me) (fun _ _ => True) m

/-- The operations anyone may perform at any time. -/
def Unguarded (op : ManagerOp π) : Prop := (∀ old u name, op ≠ .replace old u name) ∧ op ≠ .unlock

theorem taskSafe_of_unguarded {maxsize : Nat} {me : TaskId} {α : Type} {p : ManagerProg π α}
    (hp : p.All Unguarded) (m : ConnectionManager π) : TaskSafe maxsize me p m :=
  Coro.Safe.of_all (I := fun _ => True) (fun _ _ _ _ => trivial)
    (fun _ hop _ _ _ _ hx => ⟨exec_guarantee hx hop.1 hop.2, trivial⟩)
    (fun _ _ _ => trivial) hp trivial

theorem all_notifyAndClose {φ : ManagerOp π → Prop} {c : ConnId} {reason : String}
    (hs : φ (.clientState c)) (ht : ∀ msg, φ (.sendText c msg)) (hc : φ (.close c)) :
    (notifyAndClose awaitOp c reason : ManagerProg π Unit).All φ := by
  refine Coro.all_tryCatch (Coro.all_bind (Coro.all_perform hs) fun state => ?_)
    fun _ => Coro.all_pure _
  split
  · exact Coro.all_bind (Coro.all_perform (ht _)) fun _ => Coro.all_perform hc
  · exact Coro.all_pure _

theorem taskSafe_forceDisconnect {maxsize : Nat} {me : TaskId} {c : ConnId} {reason : String}
    (m : ConnectionManager π) : TaskSafe maxsize me (forceDisconnect awaitOp c reason) m := by
  refine taskSafe_of_unguarded (Coro.all_bind (all_notifyAndClose ?_ ?_ ?_) fun _ =>
    Coro.all_perform ?_) m <;> simp [Unguarded]

/-- What `connect` knows between its look-up and its cleanup: it holds the lock, and the user's
registration is still the old connection or has disappeared. -/
structure Replacing (me : TaskId) (u : UserId) (old : ConnId) (m : ConnectionManager π) :
    Prop where
  lock : m.lock = some me
  conn : m.connections.get? u = some old ∨ m.connections.get? u = none
  user : (m.heap old).userId = u
  lt : old < m.nextConn

theorem Replacing.rely {me : TaskId} {u : UserId} {old : ConnId} :
    Coro.Stable (LockRely me) (@Replacing π me u old) := by
  intro m m' hr h
  obtain ⟨hl, hu⟩ := hr.held h.lock
  refine ⟨hl, ?_, (hr.user old h.lt).trans h.user, h.lt.trans_le hr.next⟩
  rcases hu u with hq | hq
  · exact hq ▸ h.conn
  · exact Or.inr hq

/-- **The cleanup inside `connect` is harmless**, because of the lock. -/
theorem replace_guarantee {maxsize : Nat} {me : TaskId} {u : UserId} {name : String}
    {old : ConnId} {m m' : ConnectionManager π} {r : Except Exn ConnId}
    (h : PoolExec maxsize me (.replace old u name) m r m') (hr : Replacing me u old m) :
    LockGuarantee me m m' := by
  obtain ⟨hc, -, x, hx⟩ := h
  obtain ⟨-, -, rfl⟩ := ManagerOp.exec_eq_some hx
  have hharm : CleanupHarmless m old := by
    intro c' hc' room hroom
    rw [hr.user] at hc'
    rcases hr.conn with hq | hq
    · obtain rfl : old = c' := Option.some.inj (hq.symm.trans hc')
      exact hroom
    · rw [hq] at hc'; exact absurd hc' (by simp)
  have hgone : (m.forceCleanup old).connections.get? u = none := by
    rw [get?_forceCleanup, if_pos hr.user.symm]
  exact
    { coherent := coherent_lock (coherent_register (coherent_forceCleanup hc hharm) hgone)
      next := Nat.le_succ _
      user := fun c hlt => by
        have hne : c ≠ (m.forceCleanup old).nextConn := Nat.ne_of_lt hlt
        rw [ManagerOp.after, heap_register, if_neg hne]
        exact congrArg Prod.snd identity_forceCleanup
      held := fun t ht hl => absurd (Option.some.inj (hl.symm.trans hr.lock)) ht }

theorem unlock_guarantee {maxsize : Nat} {me : TaskId} {m m' : ConnectionManager π}
    {r : Except Exn Unit} (h : PoolExec maxsize me .unlock m r m') (hl : m.lock = some me) :
    LockGuarantee me m m' := by
  obtain ⟨hc, -, x, hx⟩ := h
  obtain ⟨-, -, rfl⟩ := ManagerOp.exec_eq_some hx
  exact
    { coherent := coherent_lock hc
      next := Nat.le_refl _
      user := fun _ _ => rfl
      held := fun t ht hq => absurd (Option.some.inj (hq.symm.trans hl)) ht }

/-- What the notification of the connection `old` awaits. -/
def Notifies (old : ConnId) : ManagerOp π → Prop
  | .clientState c | .sendText c _ | .close c => c = old
  | _ => False

theorem notify_step {maxsize : Nat} {me : TaskId} {u : UserId} {old : ConnId} {op : ManagerOp π}
    (hop : Notifies old op) {m m' : ConnectionManager π} {r : Except Exn op.Resp}
    (hi : Replacing me u old m) (h : PoolExec maxsize me op m r m') :
    LockGuarantee me m m' ∧ Replacing me u old m' := by
  refine ⟨exec_guarantee h ?_ ?_, ?_⟩
  · rintro _ _ _ rfl; exact hop
  · rintro rfl; exact hop
  · obtain ⟨-, -, x, hx⟩ := h
    obtain ⟨-, -, rfl⟩ := ManagerOp.exec_eq_some hx
    cases op with
    | clientState | sendText => exact hi
    | close c =>
      refine ⟨hi.lock, hi.conn, ?_, hi.lt⟩
      rw [ManagerOp.after, heap_closeSocket]
      split
      · rename_i hq; subst hq; exact hi.user
      · exact hi.user
    | _ => exact absurd hop id

theorem taskSafe_connect {maxsize : Nat} {me : TaskId} {u : UserId} {name : String}
    (m : ConnectionManager π) :
    TaskSafe maxsize me (ConnectionManager.connect awaitOp u name) m := by
  refine Coro.safe_perform fun m₁ _ r m₂ hx => ⟨exec_guarantee hx (by simp) (by simp), ?_⟩
  rcases r with _ | _
  · trivial
  refine Coro.safe_perform fun m₃ _ r m₄ hx => ⟨exec_guarantee hx (by simp) (by simp), ?_⟩
  obtain ⟨hc, -, x, hx⟩ := hx
  obtain ⟨-, rfl, rfl⟩ := ManagerOp.exec_eq_some hx
  simp only [ManagerOp.answer, ManagerOp.after]
  cases hg : m₃.connections.get? u with
  | none => trivial
  | some old =>
    have hrep : Replacing me u old { m₃ with lock := some me } :=
      ⟨rfl, Or.inl hg, (hc.owned u old hg).1, (hc.owned u old hg).2⟩
    -- the notification keeps `Replacing`; the cleanup then spends it
    refine Coro.safe_bind (Coro.Safe.of_all (I := Replacing me u old) (φ := Notifies old)
      Replacing.rely (fun op hop _ _ _ hi hx => notify_step hop hi hx) ?_
      (all_notifyAndClose (by trivial) (fun _ => by trivial) (by trivial)) hrep)
    rintro (_ | _) m₅ hi
    · trivial
    · exact Coro.safe_last fun m₆ hr r m₇ hx =>
        ⟨replace_guarantee hx (Replacing.rely _ _ hr hi), trivial⟩

theorem taskSafe_disconnect {maxsize : Nat} {me : TaskId} {u : UserId}
    (m : ConnectionManager π) : TaskSafe maxsize me (ConnectionManager.disconnect awaitOp u) m := by
  refine Coro.safe_perform fun m₁ _ r m₂ hx => ⟨exec_guarantee hx (by simp) (by simp), ?_⟩
  obtain ⟨-, -, x, hx⟩ := hx
  obtain ⟨-, rfl, rfl⟩ := ManagerOp.exec_eq_some hx
  simp only [ManagerOp.answer, ManagerOp.after]
  cases hg : m₁.toClose u with
  | none => trivial
  | some c =>
    -- the close keeps the lock; leaving the `async with` gives it back
    refine Coro.safe_bind (Coro.Safe.of_all (I := fun m => m.lock = some me)
      (φ := fun op => op = ManagerOp.close c) (fun m m' hr hl => (hr.held hl).1) ?_ ?_
      (Coro.all_tryCatch (Coro.all_perform rfl) fun _ => Coro.all_pure _) rfl)
    · rintro _ rfl m r m' hl hx
      refine ⟨exec_guarantee hx (by simp) (by simp), ?_⟩
      obtain ⟨-, -, x, hx⟩ := hx
      obtain ⟨-, -, rfl⟩ := ManagerOp.exec_eq_some hx
      exact hl
    · rintro (_ | _) m₅ hl
      · trivial
      · exact Coro.safe_last fun m₆ (hr : LockRely me _ _) r m₇ hx =>
          ⟨unlock_guarantee hx (hr.held hl).1, trivial⟩

/-- **Every call of the manager is safe from every state.** -/
theorem taskSafe_call {maxsize : Nat} {me : TaskId} (c : ManagerCall) (m : ConnectionManager π) :
    TaskSafe maxsize me c.prog m := by
  cases c with
  | connect u name =>
    refine Coro.safe_bind ((taskSafe_connect m).mono fun r m _ => ?_)
    cases r <;> trivial
  | disconnect u => exact taskSafe_disconnect m
  | joinRoom u r => exact taskSafe_of_unguarded (Coro.all_perform (by simp [Unguarded])) m
  | leaveRoom u r => exact taskSafe_of_unguarded (Coro.all_perform (by simp [Unguarded])) m

/-! ## Every run -/

namespace ManagerPool

/-- The invariant of the pool: the indexes agree and every call goes on respecting the lock. -/
structure Inv (maxsize : Nat) (s : ManagerPool π) : Prop where
  coherent : Coherent s.manager
  tasks : ∀ i p, s.tasks[i]? = some p → TaskSafe maxsize i p s.manager

variable {maxsize : Nat} {s s' : ManagerPool π}

theorem getElem?_concat {α : Type} {l : List α} {a b : α} {i : Nat}
    (h : (l ++ [a])[i]? = some b) : l[i]? = some b ∨ b = a := by
  rw [List.getElem?_append] at h
  split at h
  · exact Or.inl h
  · exact Or.inr (List.mem_singleton.mp (List.mem_of_getElem? h))

/-- A step of the environment: nobody's registration, owner or lock is touched. -/
theorem Inv.env {m' : ConnectionManager π} {ts : List (ManagerProg π Unit)} (h : s.Inv maxsize)
    (hc : Coherent m') (hconn : m'.connections = s.manager.connections)
    (hlock : m'.lock = s.manager.lock) (hnext : m'.nextConn = s.manager.nextConn)
    (huser : ∀ c, (m'.heap c).userId = (s.manager.heap c).userId)
    (hts : ∀ i p, ts[i]? = some p → s.tasks[i]? = some p ∨ TaskSafe maxsize i p m') :
    Inv maxsize { manager := m', tasks := ts } where
  coherent := hc
  tasks := fun i p hp => by
    rcases hts i p hp with hold | hnew
    · have hg : LockGuarantee (i + 1) s.manager m' := .of_frame hc hconn hlock hnext huser
      exact Coro.Safe.rely (fun _ _ _ _ _ => trivial) (hg.rely (Nat.ne_of_lt (Nat.lt_succ_self i)))
        (h.tasks i p hold)
    · exact hnew

theorem inv_step {l : PoolLabel π} (h : s.Inv maxsize) (hl : LateCleanupHarmless s l)
    (hs : step maxsize s l = some s') : s'.Inv maxsize := by
  have hold : ∀ i p, s.tasks[i]? = some p →
      s.tasks[i]? = some p ∨ TaskSafe maxsize i p s'.manager := fun i p => Or.inl
  cases l with
  | call c =>
    simp only [step, Option.some.injEq] at hs
    subst hs
    refine h.env h.coherent rfl rfl rfl (fun _ => rfl) fun i p hp => ?_
    -- the tasks that were there, and the call
    rcases getElem?_concat hp with hp | rfl
    · exact Or.inl hp
    · exact Or.inr (taskSafe_call c _)
  | start =>
    simp only [step] at hs
    split at hs
    · exact absurd hs (by simp)
    · rename_i c rest hf
      simp only [Option.some.injEq] at hs
      subst hs
      refine h.env (h.coherent.congr rfl (fun _ _ => Iff.rfl) (fun _ => ⟨rfl, rfl⟩) rfl)
        rfl rfl rfl (fun _ => rfl) fun i p hp => ?_
      rcases getElem?_concat hp with hp | rfl
      · exact Or.inl hp
      · exact Or.inr (taskSafe_forceDisconnect _)
  | run i x =>
    simp only [step] at hs
    split at hs
    · exact absurd hs (by simp)
    · rename_i p hp
      obtain ⟨⟨p', m'⟩, hq, rfl⟩ := Option.map_eq_some_iff.mp hs
      obtain ⟨op, k, r, rfl, hx, rfl⟩ := Coro.step_eq_some hq
      -- the condition is what an operation of the pool assumes of a cleanup
      have hexec : PoolExec maxsize i op s.manager r m' :=
        ⟨h.coherent, fun c hc => hl _ c hp (congrArg some hc), x, hx⟩
      obtain ⟨hg, hsafe⟩ := h.tasks i _ hp _ (LockRely.refl _) _ _ hexec
      refine ⟨hg.coherent, fun j q hj => ?_⟩
      -- the task itself is safe from here, the others rely on its guarantee
      by_cases hji : j = i
      · subst hji
        rw [List.getElem?_set_self (List.getElem?_eq_some_iff.mp hp).1] at hj
        cases hj
        exact hsafe
      · rw [List.getElem?_set_ne (Ne.symm hji)] at hj
        exact Coro.Safe.rely (fun _ _ _ _ _ => trivial) (hg.rely hji) (h.tasks j q hj)
  | broadcast r p ex =>
    simp only [step, Option.some.injEq] at hs
    subst hs
    exact h.env (coherent_broadcastToRoom h.coherent) connections_broadcastToRoom
      flags_broadcastToRoom.2.1 flags_broadcastToRoom.1
      (fun c => congrArg Prod.snd identity_broadcastToRoom) hold
  | sendToUser u p =>
    simp only [step, Option.some.injEq] at hs
    subst hs
    exact h.env (coherent_sendToUser h.coherent) connections_sendToUser flags_sendToUser.2.1
      flags_sendToUser.1 (fun c => congrArg Prod.snd identity_sendToUser) hold
  | sendTake c =>
    obtain ⟨m', hm, rfl⟩ := Option.map_eq_some_iff.mp hs
    obtain ⟨f, rfl, hf⟩ := sendTake_eq hm
    exact h.env (coherent_modify h.coherent fun k => ⟨(hf k).1, congrArg Prod.snd (hf k).2⟩) rfl rfl
      rfl (fun c' => owner_modify fun k => congrArg Prod.snd (hf k).2) hold
  | sendDone c ok wrote =>
    obtain ⟨m', hm, rfl⟩ := Option.map_eq_some_iff.mp hs
    obtain ⟨f, rfl, hf⟩ := sendDone_eq hm
    exact h.env (coherent_modify h.coherent fun k => ⟨(hf k).1, congrArg Prod.snd (hf k).2⟩) rfl rfl
      rfl (fun c' => owner_modify fun k => congrArg Prod.snd (hf k).2) hold
  | clientGone c =>
    simp only [step, Option.some.injEq] at hs
    subst hs
    exact h.env (coherent_modify h.coherent fun k => ⟨rfl, rfl⟩) rfl rfl rfl
      (fun c' => owner_modify fun k => rfl) hold

theorem inv_init : (init : ManagerPool π).Inv maxsize where
  coherent := coherent_init
  tasks := fun i p hp => by simp [init] at hp

/-- **Index agreement.** In every run all of whose late cleanups are harmless, the two indexes
agree in every state, suspended calls or not. -/
theorem index_agreement (h : Reach (step maxsize) LateCleanupHarmless init s) :
    IndexAgrees s.manager :=
  (h.invariant inv_init fun _ _ _ hi hl hs => inv_step hi hl hs).coherent.agrees

/-- `LateCleanupHarmless` as a test. -/
def lateCleanupTest (s : ManagerPool π) : PoolLabel π → Bool
  | .run i _ =>
    match s.tasks[i]? with
    | some (.await (.forceCleanup c) _) =>
      match s.manager.connections.get? (s.manager.heap c).userId with
      | some c' => (s.manager.heap c').rooms.elems.all (· ∈ (s.manager.heap c).rooms)
      | none => true
    | _ => true
  | _ => true

theorem lateCleanupHarmless_of_test (s : ManagerPool π) (l : PoolLabel π)
    (h : s.lateCleanupTest l = true) : s.LateCleanupHarmless l := by
  cases l with
  | run i x =>
    intro p c hp hc c' hc' r hr
    cases p with
    | ret | raise => simp [Coro.head?] at hc
    | await op k =>
      obtain rfl : op = .forceCleanup c := Option.some.inj hc
      simp only [lateCleanupTest, hp, hc', List.all_eq_true, decide_eq_true_eq] at h
      exact h r hr
  | _ => trivial

/-! ## A late cleanup

The run: a user joins a room, never drains the queue of 100, and is scheduled for a forced
disconnect. Before that task runs the user disconnects and connects again; what the second
connection joins decides whether the cleanup, when it comes, is harmless. -/

def attempt : SocketOutcome := { ok := true, order := [] }

/-- The first connection and its join. -/
def opening : List (PoolLabel Unit) :=
  [.call (.connect "u" "U"), .run 0 attempt, .run 0 attempt,
    .call (.joinRoom "u" "r1"), .run 1 attempt]

/-- One broadcast more than the queue holds. -/
def flood : List (PoolLabel Unit) := List.replicate 101 (.broadcast "r1" () none)

/-- The forced disconnect becomes task 2 and does nothing yet; the connection is closed and
replaced, and the second one joins `room_id`. -/
def reopening (room_id : RoomId) : List (PoolLabel Unit) :=
  [.start, .call (.disconnect "u"), .run 3 attempt, .run 3 attempt, .run 3 attempt,
    .call (.connect "u" "U"), .run 4 attempt, .run 4 attempt,
    .call (.joinRoom "u" room_id), .run 5 attempt]

/-- The forced disconnect runs to its end. -/
def cleanup : List (PoolLabel Unit) := [.run 2 attempt, .run 2 attempt, .run 2 attempt]

def lateCleanup (room_id : RoomId) : List (PoolLabel Unit) :=
  opening ++ flood ++ reopening room_id ++ cleanup

/-- Nothing is suspended, and the index of `room_id` holds `"u"`, who has no connection. -/
def stale (room_id : RoomId) (s : ManagerPool Unit) : Bool :=
  s.manager.forced.isEmpty && s.tasks.all (fun p => p.head?.isNone) &&
    decide ("u" ∈ s.manager.getRoomUserIds room_id) &&
    (s.manager.connections.get? "u").isNone

set_option maxRecDepth 20000 in
/-- Joined to a new room, the user stays in the index of that room without a connection. -/
theorem not_index_agreement : ¬ ∀ s : ManagerPool Unit,
    Reach (step 100) Always init s → s.Quiescent → IndexAgrees s.manager := by
  intro hall
  have hrun : ((replay (step 100) (lateCleanup "r2") init).any (stale "r2")) = true := by
    decide +kernel
  obtain ⟨s, hs, hv⟩ := Option.any_eq_true _ _ |>.mp hrun
  simp only [stale, Bool.and_eq_true, List.all_eq_true, decide_eq_true_eq] at hv
  obtain ⟨⟨⟨hforced, htasks⟩, hin⟩, hout⟩ := hv
  have hq : s.Quiescent := ⟨List.isEmpty_iff.mp hforced, fun p hp =>
    Option.isNone_iff_eq_none.mp (htasks p hp)⟩
  obtain ⟨c, hc, -⟩ := (hall s (.of_replay .init hs) hq "u" "r2").mp hin
  simp [hc] at hout

set_option maxRecDepth 20000 in
/-- Joined to the room of the first connection, the cleanup is harmless and the indexes agree. -/
theorem index_agreement_lateCleanup : ∃ s : ManagerPool Unit,
    replay (step 100) (lateCleanup "r1") init = some s ∧ IndexAgrees s.manager := by
  have hrun : (replayIf (step 100) lateCleanupTest (lateCleanup "r1") init).isSome = true := by
    decide +kernel
  obtain ⟨s, hs⟩ := Option.isSome_iff_exists.mp hrun
  exact ⟨s, replay_of_replayIf hs,
    index_agreement (.of_replayIf lateCleanupHarmless_of_test .init hs)⟩

end ManagerPool

end NexusChat
