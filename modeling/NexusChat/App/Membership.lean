import NexusChat.App.Parts

/-!
# Memberships over a run

A membership lasts until a transaction that deletes it commits (`System.isMember_step`), whatever
else the tasks do. A session writes messages and nothing else, so what it finds when it looks for a
membership is committed (`System.found_committed`).
-/

set_option autoImplicit false

namespace NexusChat

/-- The user is a member of the room, the two as they are spelled. -/
def Tables.HasMember (env : Env) (t : Tables) (room : RoomId) (u : UserId) : Prop :=
  ∃ r v, env.uuid room = some r ∧ env.uuid u = some v ∧ t.IsMember r v

/-- The step commits a transaction that deletes the membership. -/
def System.Removes (s : System) (l : Label) (r v : Uuid) : Prop :=
  ∃ (i : TaskId) (x : Choice) (t : Task), l = .run i x ∧ s.tasks[i]? = some t ∧
    t.head? = some (.db .commit) ∧ (x.ok || x.executed) = true ∧ DbOp.Deletes s.world.db i r v

/-- **A membership lasts** through every step that does not remove it. -/
theorem System.isMember_step {env : Env} {s s' : System} {l : Label} {r v : Uuid}
    (hs : s.step env l = some s') (h : s.world.db.committed.IsMember r v)
    (hkeep : ¬s.Removes l r v) : s'.world.db.committed.IsMember r v := by
  by_cases hl : ∃ i x, l = .run i x
  · obtain ⟨i, x, rfl⟩ := hl
    have hmoves := System.moves hs
    cases hmoves with
    | background hl _ => exact absurd hl id
    | run hi ht _ =>
      obtain ⟨op, a, hhead, hx⟩ := Task.step_exec ht
      rcases Op.exec_db hx with he | ⟨o, a', rfl, ho⟩
      · rw [he]
        exact h
      · refine DbOp.isMember_exec ho h fun hop hexecuted hdeletes => hkeep ?_
        subst hop
        exact ⟨i, x, _, rfl, hi, hhead, hexecuted, hdeletes⟩
  · obtain ⟨hdb, -⟩ := System.stores_env (fun i x he => hl ⟨i, x, he⟩) hs
    rw [hdb]
    exact h

theorem System.hasMember_step {env : Env} {s s' : System} {l : Label} {room : RoomId} {u : UserId}
    (hs : s.step env l = some s') (h : s.world.db.committed.HasMember env room u)
    (hkeep : ∀ r v, env.uuid room = some r → env.uuid u = some v → ¬s.Removes l r v) :
    s'.world.db.committed.HasMember env room u := by
  obtain ⟨r, v, hr, hv, hmember⟩ := h
  exact ⟨r, v, hr, hv, System.isMember_step hs hmember (hkeep r v hr hv)⟩

/-! ## What a session writes -/

/-- The operations that write messages, if anything. -/
def Op.Posts : Op → Prop
  | .db (.insertUser _ _ _ _) | .db (.insertRoom _ _ _ _) | .db (.insertMember _ _ _)
  | .db (.deleteMember _) => False
  | _ => True

theorem Op.Quiet.posts {op : Op} (h : op.Quiet) : op.Posts := by
  cases op with
  | db o => exact absurd h id
  | _ => trivial

theorem posts_handleFrame {env : Env} {u : UserId} {username : String} {data : Json} :
    (Chat.handleFrame env u username data).All Op.Posts := by
  have hquiet : ∀ op : Op, op.Quiet → op.Posts := fun _ => Op.Quiet.posts
  rw [Chat.handleFrame_eq]
  refine Coro.all_bind (Coro.all_ofExcept _) fun event => Coro.all_bind (Coro.all_ofExcept _)
    fun event_data => Coro.all_bind (all_rateLimited hquiet) fun limited => ?_
  split
  · exact all_sendToUser hquiet
  · apply Chat.dispatch_cases (P := fun p => p.All Op.Posts)
    · intro _
      exact all_handleJoinRoom hquiet (fun _ _ => trivial) trivial (fun _ => trivial)
        (fun _ _ => trivial) (fun _ => trivial) fun _ => trivial
    · intro _
      exact all_handleLeaveRoom hquiet (fun _ _ => trivial) fun _ _ => trivial
    · intro _
      exact all_handleMessage hquiet (fun _ _ => ⟨trivial, fun _ _ _ _ => trivial, trivial,
        trivial, trivial⟩) fun _ _ _ => trivial
    · exact fun _ => all_handleTyping hquiet fun _ _ => trivial
    · exact fun _ => all_handleTyping hquiet fun _ _ => trivial
    · exact fun _ => all_sendToUser hquiet

/-- The programs of a session write messages, if anything. -/
theorem inherited_posts {env : Env} :
    Inherited env fun o _ {_} p => o ≠ none → p.All Op.Posts where
  connect _ _ _ := all_connect trivial trivial (fun _ => trivial) (fun _ _ => trivial)
    (fun _ => trivial) fun _ => trivial
  send _ _ _ := all_sendToUser fun _ => Op.Quiet.posts
  frame _ _ _ _ := posts_handleFrame
  cleanup _ _ _ _ := all_cleanup (fun _ => Op.Quiet.posts) (fun _ => trivial) trivial
    (fun _ => trivial) trivial
  request _ h := absurd rfl h
  force _ _ h := absurd rfl h
  next h r ho := (h ho).2 r

/-- What the task has flushed are messages. -/
def Database.OnlyMessages (d : Database) (me : TaskId) : Prop :=
  ∀ wr ∈ d.flushed me, ∃ m, wr = .addMessage m

theorem Database.OnlyMessages.members {d : Database} {me : TaskId} (h : d.OnlyMessages me) :
    (d.view me).roomMembers = d.committed.roomMembers := by
  have hfold : ∀ (ws : List Write) (t : Tables), (∀ wr ∈ ws, ∃ m, wr = .addMessage m) →
      (ws.foldl Tables.apply t).roomMembers = t.roomMembers := by
    intro ws
    induction ws with
    | nil => exact fun _ _ => rfl
    | cons wr ws ih =>
      intro t hws
      obtain ⟨m, rfl⟩ := hws wr (List.mem_cons_self ..)
      exact ih _ fun wr hwr => hws wr (List.mem_cons_of_mem _ hwr)
  exact hfold _ _ h

/-- A membership that is found is one the transaction sees. -/
theorem DbOp.exec_selectMember_ok {me : TaskId} {x : DbOutcome} {d d' : Database} {r v : Uuid}
    {m : RoomMemberRow} (h : DbOp.exec me (.selectMember r v) x d = some (.ok (some m), d')) :
    (d.view me).IsMember r v := by
  obtain ⟨hr, -⟩ := DbOp.exec_eq_some h
  have hreply := (DbOp.answer_eq_ok (by simp) hr.symm).2
  have hfound : (d.view me).membership r v = some m := Except.ok.inj hreply
  refine Tables.isSome_membership.mp ?_
  rw [hfound]
  rfl

namespace System

/-- The sessions have flushed messages only, and who does not exist yet has flushed nothing. -/
structure Posting (s : System) : Prop where
  sessions : ∀ (i : TaskId) (ses : Session), s.tasks[i]? = some (.session ses) →
    s.world.db.OnlyMessages i
  unborn : ∀ i, s.tasks.length ≤ i → s.world.db.flushed i = []

variable {env : Env} {s s' : System} {l : Label}

theorem posting_step (hposts : s.Each fun o _ {_} p => o ≠ none → p.All Op.Posts)
    (h : s.Posting) (hs : s.step env l = some s') : s'.Posting := by
  have hmoves := System.moves hs
  by_cases hl : ∃ i x, l = .run i x
  · obtain ⟨i, x, rfl⟩ := hl
    cases hmoves with
    | background hl _ => exact absurd hl id
    | @run _ _ t t' hi ht htasks =>
      obtain ⟨op, a, hhead, hx⟩ := Task.step_exec ht
      -- the step is an operation of one task, and flushes for no other
      have hother : ∀ j, j ≠ i → s'.world.db.flushed j = s.world.db.flushed j := by
        intro j hji
        rcases Op.exec_db hx with he | ⟨o, a', -, ho⟩
        · rw [he]
        · exact DbOp.flushed_exec ho hji
      have hsame : ∀ (j : TaskId) ses, s.tasks[j]? = some (.session ses) → j ≠ i →
          s'.world.db.OnlyMessages j := by
        intro j ses hj hji
        rw [Database.OnlyMessages, hother j hji]
        exact h.sessions j ses hj
      refine ⟨fun j ses hj => ?_, fun j hj => ?_⟩
      · rw [htasks] at hj
        rcases getElem?_replace hj with ⟨hji, hj⟩ | ⟨rfl, rfl⟩
        · exact hsame j ses hj hji
        · -- the session's own operation
          obtain ⟨ses₀, rfl, -⟩ := Task.session_step ht
          obtain ⟨part, α, p, hall, hp⟩ := Task.Each.head (hposts j _ hi) hhead
          have hop : op.Posts := (hall (Option.some_ne_none _)).head hp
          rcases Op.exec_db hx with he | ⟨o, a', rfl, ho⟩
          · rw [he]
            exact h.sessions j ses₀ hi
          · rcases DbOp.exec_cases ho with he | ⟨wr, hwr, -, he⟩ | ⟨-, -, he⟩ | he
            · rw [he]
              exact h.sessions j ses₀ hi
            · rw [he, Database.OnlyMessages, Database.flushed_flush_self]
              intro wr' hwr'
              rcases List.mem_append.mp hwr' with hwr' | hwr'
              · exact h.sessions j ses₀ hi wr' hwr'
              · obtain rfl := List.mem_singleton.mp hwr'
                cases wr' with
                | addMessage m => exact ⟨m, rfl⟩
                | _ => cases o <;> first | exact absurd hop id | exact absurd hwr id
            · rw [he, Database.OnlyMessages, Database.flushed_commit_self]
              exact fun _ hwr => by cases hwr
            · rw [he, Database.OnlyMessages, Database.flushed_forget_self]
              exact fun _ hwr => by cases hwr
      · rw [htasks, List.length_set] at hj
        rw [hother j fun he => ?_]
        · exact h.unborn j hj
        · exact absurd (List.getElem?_eq_some_iff.mp hi).1 (Nat.not_lt.mpr (he ▸ hj))
  · obtain ⟨hdb, -⟩ := System.stores_env (fun i x he => hl ⟨i, x, he⟩) hs
    refine ⟨fun j ses hj => ?_, fun j hj => ?_⟩
    · rw [hdb]
      -- a session that is new has flushed nothing
      rcases hmoves.session_before hj with hnew | ⟨ses₀, hj, -⟩
      · rw [Database.OnlyMessages, h.unborn j hnew]
        exact fun _ hwr => by cases hwr
      · exact h.sessions j ses₀ hj
    · rw [hdb]
      exact h.unborn j (hmoves.length_le.trans hj)

theorem posting_reach {C : System → Label → Prop} {t : Tables}
    (hr : Reach (System.step env) C (.init t) s) : s.Posting := by
  induction hr with
  | init => exact ⟨fun _ _ hi => (by cases hi), fun _ _ => rfl⟩
  | tail hr _ hs ih => exact posting_step (each_reach inherited_posts hr) ih hs

/-- **A membership that a session finds is committed.** -/
theorem Posting.found {i : TaskId} {ses : Session} {x : Choice} {r v : Uuid} {m : RoomMemberRow}
    {w' : World} (h : s.Posting) (hi : s.tasks[i]? = some (.session ses))
    (hx : (Op.db (.selectMember r v)).exec env ses.server i x s.world =
      some (.ok (some m), w')) : s.world.db.committed.IsMember r v := by
  obtain ⟨d, hd, -⟩ := Op.exec_dbOp hx
  obtain ⟨row, hrow, hp⟩ := DbOp.exec_selectMember_ok hd
  rw [(h.sessions i ses hi).members] at hrow
  exact ⟨row, hrow, hp⟩

end System

end NexusChat
