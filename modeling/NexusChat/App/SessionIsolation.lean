import NexusChat.App.Ownership
import NexusChat.App.Parts
import NexusChat.Messaging.NewestConnection

/-!
# The newest session of a user, next to older ones

`connect` closes the socket of the connection it replaces, and the handler of that connection comes
to its end some time later, with the user's id in hand: whatever it joins, leaves or disconnects,
it does to the connection that is registered by then. So the newest session is left alone in every
run in which a handler does these things only while the registered connection is its own
(`System.session_isolation`).
-/

set_option autoImplicit false

namespace NexusChat

open ConnectionManager

/-! ## The condition -/

/-- Nothing that `a` does to its user's registered connection reaches another one than its own. -/
def Activity.Minds (a : Activity) (w : World) (o : ManagerOp Delivery) : Prop :=
  ∀ c n, a.conn = some c →
    (w.servers a.server).manager.connections.get?
      ((w.servers a.server).manager.heap c).userId = some n → n ≠ c →
      ¬(w.servers a.server).manager.Reaches ((w.servers a.server).manager.heap c).userId n o

/-- The connection is that of `a`, or `a` is a session of its user that is still connecting. -/
def Activity.ActsFor (a : Activity) (srv : ServerId) (u : UserId) (n : ConnId) : Prop :=
  a.server = srv ∧ (a.conn = some n ∨ (a.conn = none ∧ a.userId = u))

namespace World

/-- The connection object has been allocated, and nobody is registered with it. -/
def Unregistered (w : World) (srv : ServerId) (c : ConnId) : Prop :=
  c < (w.servers srv).manager.nextConn ∧
    ∀ u, (w.servers srv).manager.connections.get? u ≠ some c

/-- Owners stay, and who is not registered any more is not registered again. -/
def Keeps (w w' : World) : Prop :=
  w.KeepsOwners w' ∧ ∀ srv c, w.Unregistered srv c → w'.Unregistered srv c

theorem Keeps.refl (w : World) : w.Keeps w := ⟨.refl w, fun _ _ h => h⟩

theorem Keeps.trans {w₁ w₂ w₃ : World} (h : w₁.Keeps w₂) (h' : w₂.Keeps w₃) : w₁.Keeps w₃ :=
  ⟨h.1.trans h'.1, fun srv c hc => h'.2 srv c (h.2 srv c hc)⟩

end World

/-- A task minds its own connection, and leaves those it does not act for alone. -/
def isolation : Discipline where
  good w := w.Owned
  unborn _ _ := True
  permits _ a op w := ∀ o, op = .manager o → a.Minds w o
  rely _ _ w w' := w.Keeps w'
  guarantee _ a w w' := (w.Keeps w' ∧ w'.Owned) ∧ ∀ srv u n, ¬a.ActsFor srv u n →
    (w.servers srv).manager.connections.get? u = some n →
      (w.servers srv).manager.Untouched (w'.servers srv).manager u n
  idle _ a w := ∀ c, a.conn = some c → w.Owns a.server a.userId c

section Operations

variable {env : Env} {me : TaskId} {a : Activity} {w w' : World} {op : Op}
  {r : Except Exn op.Resp}

instance : IsTrans World (isolation.rely me a) where
  trans _ _ _ := World.Keeps.trans

theorem keeps_of (h : ∀ srv,
    (∃ maxsize me o, (w'.servers srv).manager =
      ManagerOp.after maxsize me o (w.servers srv).manager) ∨
    SameSessions (w.servers srv).manager (w'.servers srv).manager) : w.Keeps w' := by
  refine ⟨(keepsOwners_of h).1, fun srv c ⟨hc, hnone⟩ => ?_⟩
  rcases h srv with ⟨maxsize, me, o, he⟩ | hs
  · rw [World.Unregistered, he]
    refine ⟨Nat.lt_of_lt_of_le hc nextConn_after, fun u hget => ?_⟩
    rcases registered_after hget with hold | ⟨hnew, -⟩
    · exact hnone u hold
    · exact absurd hc (Nat.not_lt.mpr (Nat.le_of_eq hnew.symm))
  · rw [World.Unregistered, hs.next, hs.connections]
    exact ⟨hc, hnone⟩

theorem keeps_exec {srv : ServerId} {x : Choice}
    (hx : op.exec env srv me x w = some (r, w')) : w.Keeps w' := by
  refine keeps_of fun other => ?_
  rcases managers_exec hx other with ⟨maxsize, me, o, -, -, he⟩ | he
  · exact .inl ⟨maxsize, me, o, he⟩
  · rw [he]
    exact .inr (.refl _)

/-- **An operation is within the guarantee** if it spares the connections `a` does not act for. -/
theorem isolation_exec (hx : isolation.Exec env me a op w r w')
    (hspares : ∀ o u n, op = .manager o → ¬a.ActsFor a.server u n →
      (w.servers a.server).manager.connections.get? u = some n →
        (w.servers a.server).manager.Spares u n o) : isolation.guarantee me a w w' := by
  obtain ⟨howned, -, x, hexec⟩ := hx
  refine ⟨⟨keeps_exec hexec, (keepsOwners_exec hexec).2 howned⟩, fun srv u n hacts hget => ?_⟩
  rcases managers_exec hexec srv with ⟨maxsize, me, o, rfl, rfl, he⟩ | he
  · rw [he]
    exact untouched_after (howned _) hget (hspares o u n rfl hacts hget)
  · rw [he]
    exact .refl hget

/-- An operation that alters no connection. -/
theorem isolation_aside (hx : isolation.Exec env me a op w r w')
    (hop : ∀ o, op = .manager o → ¬Alters o) : isolation.guarantee me a w w' :=
  isolation_exec hx fun o _ _ ho _ _ => spares_of_not_alters (hop o ho)

theorem not_alters_of_quiet (h : op.Quiet) : ∀ o, op = .manager o → ¬Alters o := by
  rintro o rfl halters
  cases o <;> first | exact h | exact halters

end Operations

section Programs

variable {env : Env} {me : TaskId} {a : Activity} {w w' : World} {srv : ServerId} {u : UserId}
  {username : String} {conn : ConnId}

/-- A program that alters no connection. -/
theorem isolation_of_all {α : Type} {Q : Except Exn α → World → Prop} {I : World → Prop}
    {p : Prog α} (hI : Coro.Stable World.Keeps I) (hQ : ∀ r w, I w → Q r w)
    (hp : p.All fun op : Op => ∀ o, op = .manager o → ¬Alters o) (hw : I w) :
    isolation.Keeps env me a Q p w := by
  refine Coro.Safe.of_all hI (fun op hop w r w' hw hx => ?_) hQ hp hw
  have hg := isolation_aside hx hop
  exact ⟨hg, hI w w' hg.1.1 hw⟩

theorem stable_owns : Coro.Stable World.Keeps fun w => w.Owns srv u conn :=
  fun _ _ hk h => hk.1 _ _ _ h

/-! ### `connect` -/

/-- **`connect` touches its own user's connections**, and returns one of them. -/
theorem isolation_connect : isolation.Keeps env me ⟨srv, u, none, none⟩
    (fun r w => ∀ conn, r = .ok conn → isolation.idle me ⟨srv, u, some conn, none⟩ w)
    (ConnectionManager.connect managerOp u username) w := by
  have hidle : ∀ {w : World} {conn : ConnId}, w.Owns srv u conn →
      isolation.idle me ⟨srv, u, some conn, none⟩ w := by
    intro w conn howns c hc
    cases hc
    exact howns
  -- whom `connect` does not act for is another user
  have hother : ∀ {v : UserId} {n : ConnId},
      ¬Activity.ActsFor ⟨srv, u, none, none⟩ srv v n → u ≠ v :=
    fun hacts hv => hacts ⟨rfl, .inr ⟨rfl, hv⟩⟩
  refine Coro.safe_perform fun w₁ _ r w₂ hx => ⟨isolation_aside hx fun o ho => ?_, ?_⟩
  · cases ho
    exact id
  cases r with
  | error e => exact fun conn hc => by cases hc
  | ok _ =>
    refine Coro.safe_perform fun w₃ _ r w₄ hx => ⟨isolation_aside hx fun o ho => ?_, ?_⟩
    · cases ho
      exact id
    cases r with
    | error e => exact fun conn hc => by cases hc
    | ok found =>
      obtain ⟨howned, -, x, hexec⟩ := hx
      obtain ⟨hr, hm⟩ := exec_managerOp hexec
      cases hget : (w₃.servers srv).manager.connections.get? u with
      | none =>
        -- nobody is registered: the connection is made at once
        simp only [ManagerOp.answer, hget] at hr
        simp only [ManagerOp.after, hget] at hm
        cases hr
        intro conn hconn
        cases hconn
        exact hidle (owns_register (m := (w₃.servers srv).manager) hm)
      | some old =>
        simp only [ManagerOp.answer, hget] at hr
        cases hr
        have hold : w₄.Owns srv u old := (keeps_exec hexec).1 _ _ _ (howned srv u old hget)
        refine Coro.safe_bind (Coro.Safe.of_all stable_owns ?_ ?_
          (all_notifyAndClose' (φ := fun op => ∀ o, op = .manager o → Alters o → o = .close old)
            ?_ ?_ ?_) hold)
        · intro op hop w r w' howns hx
          have hg : isolation.guarantee me ⟨srv, u, none, none⟩ w w' := by
            refine isolation_exec hx fun o v n ho hacts hget => ?_
            by_cases halters : Alters o
            · cases hop o ho halters
              intro heq
              have hv : ((w.servers srv).manager.heap n).userId = v := (hx.1 srv v n hget).1
              rw [← heq] at hv
              exact hother hacts (howns.1.symm.trans hv)
            · exact spares_of_not_alters halters
          exact ⟨hg, stable_owns _ _ hg.1.1 howns⟩
        · intro r w howns
          cases r with
          | error e => exact fun conn hc => by cases hc
          | ok _ =>
            refine Coro.safe_last fun w₅ hr r w₆ hx => ⟨?_, fun conn hconn => ?_⟩
            · refine isolation_exec hx fun o v n ho hacts hget => ?_
              cases ho
              refine ⟨hother hacts, fun hv => ?_⟩
              exact hother hacts ((stable_owns _ _ hr howns).1.symm.trans hv)
            · obtain ⟨-, -, x, hexec⟩ := hx
              obtain ⟨hr, hm⟩ := exec_managerOp hexec
              subst hr
              cases hconn
              exact hidle (owns_register (m := (w₅.servers srv).manager.forceCleanup old) hm)
        · intro o ho halters
          cases ho
          exact absurd halters id
        · intro m o ho halters
          cases ho
          exact absurd halters id
        · intro o ho _
          cases ho
          rfl

/-! ### A session -/

/-- An operation that reaches for the registered connection of the user leaves the others alone. -/
theorem spares_of_minds {o : ManagerOp Delivery} {v : UserId} {n : ConnId}
    (hminds : a.Minds w o) (hconn : a.conn = some conn) (howns : w.Owns a.server u conn)
    (hacts : ¬a.ActsFor a.server v n)
    (hget : (w.servers a.server).manager.connections.get? v = some n) (hv : u = v) :
    ¬(w.servers a.server).manager.Reaches v n o := by
  have hother : n ≠ conn := by
    rintro rfl
    exact hacts ⟨rfl, .inl hconn⟩
  have hreaches := hminds conn n hconn
  rw [howns.1, hv] at hreaches
  exact hreaches hget hother

/-- A session's own operations on its rooms and its queue. -/
theorem isolation_own {op : Op} {r : Except Exn op.Resp} (hop : op.Own u)
    (hconn : a.conn = some conn) (howns : w.Owns a.server u conn)
    (hx : isolation.Exec env me a op w r w') : isolation.guarantee me a w w' := by
  refine isolation_exec hx fun o v n ho hacts hget => ?_
  subst ho
  have hminds : a.Minds w o := hx.2.1 o rfl
  cases o with
  | joinRoom u' room =>
    obtain rfl : u' = u := hop
    exact spares_of_minds hminds hconn howns hacts hget
  | leaveRoom u' room_id =>
    obtain rfl : u' = u := hop
    exact spares_of_minds hminds hconn howns hacts hget
  | sendToUser u' p => trivial
  | rooms c => trivial
  | _ => exact absurd hop id

theorem isolation_handleFrame {data : Json} (hw : w.Owns srv u conn) :
    isolation.Keeps env me ⟨srv, u, some conn, some data⟩
      (fun _ w => isolation.idle me ⟨srv, u, some conn, none⟩ w)
      (Chat.handleFrame env u username data) w := by
  refine Coro.Safe.of_all stable_owns (fun op hop w r w' howns hx => ?_) (fun r w howns => ?_)
    own_handleFrame hw
  · have hg := isolation_own hop rfl howns hx
    exact ⟨hg, stable_owns _ _ hg.1.1 howns⟩
  · intro c hc
    cases hc
    exact howns

theorem isolation_cleanup (hw : w.Owns srv u conn) :
    isolation.Keeps env me ⟨srv, u, some conn, none⟩ Discipline.Ends
      (Chat.cleanup env u username conn) w := by
  have hquiet : ∀ op : Op, op.Quiet → ∀ o, op = .manager o → ¬Alters o :=
    fun _ => not_alters_of_quiet
  refine Coro.safe_bind (isolation_of_all stable_owns (fun r w howns => ?_)
    (all_managerOp (hquiet _ trivial)) hw)
  cases r with
  | error e => trivial
  | ok rooms =>
    refine Coro.safe_bind (isolation_of_all stable_owns (fun r w howns => ?_)
      (all_leaveAll hquiet fun _ _ o ho => by cases ho) howns)
    cases r with
    | error e => trivial
    | ok _ =>
      refine Coro.safe_perform fun w₁ hr r w₂ hx => ⟨?_, ?_⟩
      · refine isolation_exec hx fun o v n ho hacts hget => ?_
        cases ho
        intro hv
        exact spares_of_minds (hx.2.1 _ rfl) rfl (stable_owns _ _ hr howns) hacts hget hv trivial
      · obtain ⟨howned, -, x, hexec⟩ := hx
        obtain ⟨hanswer, hm⟩ := exec_managerOp hexec
        subst hanswer
        cases hclose : (w₁.servers srv).manager.toClose u with
        | none =>
          simp only [ManagerOp.answer, hclose]
          trivial
        | some c =>
          simp only [ManagerOp.answer, hclose]
          -- the connection it goes on to close has just been unregistered
          have hget := (Option.filter_eq_some_iff.mp hclose).1
          have hgone : w₂.Unregistered srv c := by
            rw [World.Unregistered, hm]
            refine ⟨Nat.lt_of_lt_of_le (howned srv u c hget).2 nextConn_after, fun v hv => ?_⟩
            have hunregistered : ((w₁.servers srv).manager.unregister u).connections.get? v =
                some c := hv
            rw [get?_unregister] at hunregistered
            split at hunregistered
            · cases hunregistered
            · rename_i hne
              have howner := (howned srv v c hunregistered).1
              exact hne (howner.symm.trans (howned srv u c hget).1)
          have hstable : Coro.Stable World.Keeps fun w => w.Unregistered srv c :=
            fun _ _ hk h => hk.2 _ _ h
          have hcloses : (tryCatchThe Exn (managerOp (.close c)) fun _ => pure () : Prog Unit).All
              fun op : Op => op = .manager (.close c) :=
            Coro.all_tryCatch (all_managerOp rfl) fun _ => trivial
          refine Coro.safe_bind (Coro.Safe.of_all hstable (fun op hop w r w' hun hx => ?_) ?_
            hcloses hgone)
          · have hg : isolation.guarantee me ⟨srv, u, some conn, none⟩ w w' := by
              refine isolation_exec hx fun o v n ho hacts hget => ?_
              cases hop.symm.trans ho
              intro heq
              exact hun.2 v (heq ▸ hget)
            exact ⟨hg, hstable _ _ hg.1.1 hun⟩
          · intro r w hun
            cases r with
            | error e => trivial
            | ok _ =>
              refine isolation_of_all hstable (fun _ _ _ => trivial) (all_managerOp ?_) hun
              intro o ho
              cases ho
              exact id

/-! ### A forced disconnect -/

theorem isolation_forceDisconnect {reason : String} :
    isolation.Keeps env me ⟨srv, "", some conn, none⟩ Discipline.Ends
      (ConnectionManager.forceDisconnect managerOp conn reason) w := by
  have htrue : Coro.Stable World.Keeps fun _ => True := fun _ _ _ _ => trivial
  refine Coro.Safe.of_all htrue (fun op hop w r w' _ hx => ⟨?_, trivial⟩) (fun _ _ _ => trivial)
    (all_forceDisconnect (φ := fun op => ∀ o, op = .manager o → Alters o →
      o = .close conn ∨ o = .forceCleanup conn) ?_ ?_ ?_ ?_) trivial
  · refine isolation_exec hx fun o v n ho hacts hget => ?_
    by_cases halters : Alters o
    · have hminds : Activity.Minds ⟨srv, "", some conn, none⟩ w o := hx.2.1 o ho
      have hne : conn ≠ n := by
        rintro rfl
        exact hacts ⟨rfl, .inl rfl⟩
      rcases hop o ho halters with rfl | rfl
      · exact hne
      · intro hv
        refine hminds conn n rfl ?_ hne.symm trivial
        show (w.servers srv).manager.connections.get? _ = some n
        rw [hv]
        exact hget
    · exact spares_of_not_alters halters
  · intro o ho halters
    cases ho
    exact absurd halters id
  · intro m o ho halters
    cases ho
    exact absurd halters id
  · intro o ho _
    cases ho
    exact .inl rfl
  · intro o ho _
    cases ho
    exact .inr rfl

end Programs

/-! ## The system -/

/-- The close of a socket is sent by operations of tasks only. -/
theorem socket_env {env : Env} {s s' : System} {l : Label} (hl : ∀ i x, l ≠ .run i x)
    (hs : s.step env l = some s') (srv : ServerId) (c : ConnId) :
    ((s'.world.servers srv).manager.heap c).websocket.applicationState =
      ((s.world.servers srv).manager.heap c).websocket.applicationState := by
  rcases System.env_cases hl hs with he | ⟨other, m, he, hevent⟩ | ⟨other, e, -, hlisten⟩
  · rw [he]
  · rw [he, World.manager_setManager]
    split
    · rename_i hsrv
      subst hsrv
      cases hevent with
      | force => rfl
      | @clientGone conn =>
        rw [clientGone, heap_modify]
        split
        · rename_i hc
          rw [hc]
        · rfl
      | @sendTake conn m hm =>
        obtain ⟨f, rfl, hf⟩ := sendTake_eq hm
        rw [heap_modify]
        split
        · rename_i hc
          rw [hc]
          exact congrArg (fun e => e.1.applicationState) (hf _).2
        · rfl
      | @sendDone conn ok wrote m hm =>
        obtain ⟨f, rfl, hf⟩ := sendDone_eq hm
        rw [heap_modify]
        split
        · rename_i hc
          rw [hc]
          exact congrArg (fun e => e.1.applicationState) (hf _).2
        · rfl
    · rfl
  · rcases World.manager_listen hlisten srv with he | ⟨rfl, _, _, _, _, _, _, _, -, -, he⟩
    · rw [he]
    · rw [he]
      exact congrArg (fun e => e.1.applicationState) identity_broadcastToRoom

/-- A request has nothing to do with the managers. -/
theorem inherited_requests {env : Env} : Inherited env fun _ part {_} p =>
    part = .request → p.All fun op : Op => ∃ o, op = .db o where
  connect _ _ hpart := by cases hpart
  send _ _ hpart := by cases hpart
  frame _ _ _ hpart := by cases hpart
  cleanup _ _ _ hpart := by cases hpart
  request _ _ := all_request fun o => ⟨o, rfl⟩
  force _ _ hpart := by cases hpart
  next h r hpart := (h hpart).2 r

namespace System

/-- The condition on a step: it reaches for a registered connection only if that is its own. -/
def MindsItself (s : System) : Label → Prop
  | .run i _ => ∀ t o, s.tasks[i]? = some t → t.head? = some (.manager o) →
      t.activity.Minds s.world o
  | _ => True

/-- The step is one by which the connection's own session, its own forced disconnect, or a session
of the user that is connecting changes registrations, rooms or sockets. -/
def OwnChange (s : System) (srv : ServerId) (u : UserId) (n : ConnId) (l : Label) : Prop :=
  ∃ (i : TaskId) (x : Choice) (t : Task) (o : ManagerOp Delivery), l = .run i x ∧
    s.tasks[i]? = some t ∧ t.head? = some (.manager o) ∧ Alters o ∧ t.activity.server = srv ∧
      (t.activity.conn = some n ∨ (t.activity.conn = none ∧ t.owner = some u))

section Runs

variable {env : Env} {s s' : System} {l : Label} {srv : ServerId} {u : UserId} {n : ConnId}

theorem stable_idle {me : TaskId} {a : Activity} :
    Coro.Stable World.Keeps (isolation.idle me a) :=
  fun _ _ hk hidle c hc => hk.1 _ _ _ (hidle c hc)

theorem isolation_sound : isolation.Sound env MindsItself where
  refl := fun _ _ w => .refl w
  trans := fun _ _ => inferInstance
  idle_stable := fun _ _ _ _ _ _ => stable_idle
  permits_run := fun hC hi hop o ho => hC _ o hi (ho ▸ hop)
  good_run := fun _ hg => hg.1.2
  unborn_run := fun _ _ _ => trivial
  rely_run := fun _ _ _ _ _ _ hg => hg.1.1
  env_good := fun hl _ hs hgood =>
    (keepsOwners_of fun srv => .inr (sameSessions_env hl hs srv)).2 hgood
  env_rely := fun hl _ hs _ _ _ => keeps_of fun srv => .inr (sameSessions_env hl hs srv)
  env_unborn := fun _ _ _ _ _ => trivial
  connect := fun _ _ => isolation_connect
  request := fun _ _ => isolation_of_all (I := fun _ => True) (fun _ _ _ _ => trivial)
    (fun _ _ _ => trivial) (all_request fun o o' ho => by cases ho) trivial
  forced := fun _ _ => isolation_forceDisconnect
  frame := fun _ _ _ _ hidle => isolation_handleFrame (hidle _ rfl)
  send := fun hidle => isolation_of_all stable_idle (fun _ _ h => h)
    (all_sendToUser fun _ => not_alters_of_quiet) hidle
  cleanup := fun hidle => isolation_cleanup (hidle _ rfl)

theorem isolation_init {t : Tables} : isolation.Inv env (.init t) :=
  Discipline.inv_init (fun _ _ _ hc => by cases hc) fun _ => trivial

/-- **A step leaves the registered connection alone**, unless the connection's own session, or a
newer one, is at work. -/
theorem untouched_step (hrequests : s.Each fun _ part {_} p =>
      part = .request → p.All fun op : Op => ∃ o, op = .db o)
    (hinv : isolation.Inv env s) (hC : s.MindsItself l) (hs : s.step env l = some s')
    (hget : (s.world.servers srv).manager.connections.get? u = some n)
    (hown : ¬s.OwnChange srv u n l) :
    (s.world.servers srv).manager.Untouched (s'.world.servers srv).manager u n := by
  by_cases hl : ∃ i x, l = .run i x
  · obtain ⟨i, x, rfl⟩ := hl
    have hmoves := System.moves hs
    cases hmoves with
    | background hl _ => exact absurd hl id
    | @run _ _ t t' hi ht _ =>
      obtain ⟨op, a, hhead, hx⟩ := Task.step_exec ht
      rcases managers_exec hx srv with ⟨maxsize, me, o, rfl, hsrv, he⟩ | he
      · by_cases halters : Alters o
        · have hother : ¬(t.activity.conn = some n ∨ (t.activity.conn = none ∧
              t.owner = some u)) := fun hacts =>
            hown ⟨i, x, t, o, rfl, hi, hhead, halters, hsrv.symm, hacts⟩
          refine (isolation_sound.guarantee_run hinv hC hi hs).2 srv u n (fun hacts => ?_) hget
          obtain ⟨-, hconn | ⟨hconn, hu⟩⟩ := hacts
          · exact hother (.inl hconn)
          · cases t with
            | session ses => exact hother (.inr ⟨hconn, congrArg some hu⟩)
            | forced srv' c p => cases hconn
            | request r p =>
              obtain ⟨o', ho⟩ := (hrequests i _ hi rfl).head hhead
              cases ho
        · rw [he]
          exact untouched_after (hinv.good srv) hget (spares_of_not_alters halters)
      · rw [he]
        exact .refl hget
  · have hrun : ∀ i x, l ≠ .run i x := fun i x heq => hl ⟨i, x, heq⟩
    exact (sameSessions_env hrun hs srv).untouched hget (socket_env hrun hs srv n)

/-- **Session isolation**: the newest connection of a user, once registered, stays registered and
open, with the rooms and the entries that it has, until its own session or a newer one changes
that, in every run in which nobody reaches for another registered connection than their own. -/
theorem session_isolation {t : Tables}
    (hr : Reach (System.step env) MindsItself (.init t) s)
    (hnewest : (s.world.servers srv).manager.Newest u n)
    (hrun : Reach (System.step env) (fun s l => s.MindsItself l ∧ ¬s.OwnChange srv u n l) s s') :
    (s'.world.servers srv).manager.Newest u n ∧
      (s.world.servers srv).manager.Untouched (s'.world.servers srv).manager u n := by
  have hrequests := each_reach inherited_requests hr
  have hinv := isolation_sound.inv_reach isolation_init hr
  suffices h : (s'.Each fun _ part {_} p => part = .request → p.All fun op : Op =>
      ∃ o, op = .db o) ∧ isolation.Inv env s' ∧
      (s.world.servers srv).manager.Untouched (s'.world.servers srv).manager u n from
    ⟨hnewest.untouched h.2.2, h.2.2⟩
  induction hrun with
  | init => exact ⟨hrequests, hinv, .refl hnewest.registered⟩
  | tail _ hC hs ih =>
    obtain ⟨hrequests, hinv, huntouched⟩ := ih
    refine ⟨each_step inherited_requests hrequests hs, isolation_sound.inv_step hinv hC.1 hs, ?_⟩
    exact huntouched.trans
      (untouched_step hrequests hinv hC.1 hs huntouched.registered hC.2)

end Runs

/-! ### An older session that ends -/

namespace Sample

/-- User 1 reaches instance 0 twice, and the client of the first socket is gone. -/
def twice : List Label :=
  enters 0 0 ++ .connect 0 "00000000-0000-0000-0000-000000000001" "u1" :: goes 1 7

/-- The first session comes to its `finally`, and lists the rooms of its connection. -/
def ends : List Label := .receive 0 .disconnect :: goes 0 1

/-- The task is not about to change a registration, a room or a socket. -/
def idles (s : System) : Label → Bool
  | .run i _ => s.tasks[i]?.all fun t => match t.head? with
    | some (.manager o) => match o with
      | .close _ | .forceCleanup _ | .replace _ _ _ | .disconnectLocked _ | .joinRoom _ _
      | .leaveRoom _ _ => false
      | _ => true
    | _ => true
  | _ => true

/-- It is not, or is still connecting. -/
def minds (s : System) : Label → Bool
  | .run i x => s.tasks[i]?.all (fun t => t.activity.conn.isNone) || idles s (.run i x)
  | _ => true

theorem not_alters_of_idles {s : System} {i : TaskId} {x : Choice} {t : Task}
    {o : ManagerOp Delivery} (h : idles s (.run i x) = true) (hi : s.tasks[i]? = some t)
    (hhead : t.head? = some (.manager o)) : ¬Alters o := by
  simp only [idles, hi, Option.all_some, hhead] at h
  cases o <;> first | exact id | cases h

theorem mindsItself_of_test (s : System) (l : Label) (h : minds s l = true) : s.MindsItself l := by
  cases l with
  | run i x =>
    intro t o hi hhead c n hconn _ _ hreaches
    rcases (Bool.or_eq_true _ _).mp h with hnone | hidles
    · simp only [hi, Option.all_some, hconn, Option.isNone_some] at hnone
      cases hnone
    · refine not_alters_of_idles hidles hi hhead ?_
      cases o <;> first | exact trivial | exact hreaches
  | _ => trivial

theorem not_ownChange_of_test (s : System) (l : Label) (h : (minds s l && idles s l) = true) :
    s.MindsItself l ∧ ¬s.OwnChange 0 "00000000-0000-0000-0000-000000000001" 1 l := by
  obtain ⟨hminds, hidles⟩ := (Bool.and_eq_true _ _).mp h
  refine ⟨mindsItself_of_test s l hminds, ?_⟩
  rintro ⟨i, x, t, o, rfl, hi, hhead, halters, -, -⟩
  exact not_alters_of_idles hidles hi hhead halters

/-- The second connection is registered, and there is no third. -/
def registersSecond (s : System) : Bool :=
  decide ((s.world.servers 0).manager.connections.get? "00000000-0000-0000-0000-000000000001" =
    some 1) && decide ((s.world.servers 0).manager.nextConn = 2)

/-- The task is a session of user 1 with the first connection of instance 0. -/
def ofFirst : Task → Bool
  | .session ses => decide (ses.server = 0 ∧
      ses.userId = "00000000-0000-0000-0000-000000000001" ∧ ses.phase.conn = some 0)
  | _ => false

theorem newest_of_registersSecond {s : System} (h : registersSecond s = true) :
    (s.world.servers 0).manager.Newest "00000000-0000-0000-0000-000000000001" 1 := by
  obtain ⟨hget, hnext⟩ := (Bool.and_eq_true _ _).mp h
  refine ⟨of_decide_eq_true hget, fun c hc _ => ?_⟩
  rw [of_decide_eq_true hnext] at hc
  exact Nat.le_of_lt_succ hc

end Sample

set_option maxRecDepth 20000 in
open System.Sample in
/-- The second session is left alone until the first one disconnects. -/
theorem session_isolation_ends : ∃ s s', Reach (System.step .sample) MindsItself
    (.init .sample) s ∧ (s.world.servers 0).manager.Newest
      "00000000-0000-0000-0000-000000000001" 1 ∧
    Reach (System.step .sample) (fun s l => s.MindsItself l ∧
      ¬s.OwnChange 0 "00000000-0000-0000-0000-000000000001" 1 l) s s' ∧
    (s.world.servers 0).manager.Untouched (s'.world.servers 0).manager
      "00000000-0000-0000-0000-000000000001" 1 := by
  have hrun : ((replayIf (System.step .sample) minds twice (.init .sample)).any fun s =>
      (replayIf (System.step .sample) (fun s l => minds s l && idles s l) ends s).any fun _ =>
        registersSecond s) = true := by
    decide +kernel
  obtain ⟨s, hs, htest⟩ := (Option.any_eq_true _ _).mp hrun
  obtain ⟨s', hs', hsecond⟩ := (Option.any_eq_true _ _).mp htest
  have hr : Reach (System.step .sample) MindsItself (.init .sample) s :=
    .of_replayIf mindsItself_of_test .init hs
  have hnewest := newest_of_registersSecond hsecond
  have hends : Reach (System.step .sample) (fun s l => s.MindsItself l ∧
      ¬s.OwnChange 0 "00000000-0000-0000-0000-000000000001" 1 l) s s' :=
    .of_replayIf not_ownChange_of_test .init hs'
  exact ⟨s, s', hr, hnewest, hends, (session_isolation hr hnewest hends).2⟩

set_option maxRecDepth 20000 in
open System.Sample in
/-- **The `disconnect` of the older session unregisters the newest connection.** -/
theorem not_session_isolation : ¬∀ (env : Env) (t : Tables) (s s' : System) (i : TaskId)
    (x : Choice) (ses : Session) (c n : ConnId), Reach (System.step env) Always (.init t) s →
      s.step env (.run i x) = some s' → s.tasks[i]? = some (.session ses) →
        ses.phase.conn = some c → c < n →
          (s.world.servers ses.server).manager.Newest ses.userId n →
            (s.world.servers ses.server).manager.Untouched (s'.world.servers ses.server).manager
              ses.userId n := by
  intro hall
  have hrun : ((replay (System.step .sample) (twice ++ ends) (.init .sample)).any fun s =>
      (s.step .sample (.run 0 (smooth 0))).any fun s' => registersSecond s &&
        ((s'.world.servers 0).manager.connections.get?
          "00000000-0000-0000-0000-000000000001").isNone && s.tasks[0]?.any ofFirst) = true := by
    decide +kernel
  obtain ⟨s, hs, htest⟩ := (Option.any_eq_true _ _).mp hrun
  obtain ⟨s', hs', htest⟩ := (Option.any_eq_true _ _).mp htest
  obtain ⟨htest, hsession⟩ := (Bool.and_eq_true _ _).mp htest
  obtain ⟨hsecond, hnone⟩ := (Bool.and_eq_true _ _).mp htest
  obtain ⟨task, hi, htask⟩ := (Option.any_eq_true _ _).mp hsession
  cases task with
  | request r p => cases htask
  | forced srv c p => cases htask
  | session ses =>
    obtain ⟨hsrv, huser, hconn⟩ := of_decide_eq_true htask
    have huntouched := hall .sample .sample s s' 0 (smooth 0) ses 0 1 (.of_replay .init hs) hs' hi
      hconn (by decide) (by rw [hsrv, huser]; exact newest_of_registersSecond hsecond)
    have hget := huntouched.registered
    rw [hsrv, huser, Option.isNone_iff_eq_none.mp hnone] at hget
    cases hget

end System

end NexusChat
