import NexusChat.Api.Confidentiality

/-!
# Who writes to a room

`_handle_join_room` asks whether the user is a member; the other events are handled without asking.
What a session writes to a room it writes for a frame that has passed the rate limit
(`System.leads_step`), so whoever writes is a member if frames pass it only for members of the rooms
they write to, and if nobody loses a membership with a write to the room under way.

A session may say that its user goes offline in a room that it has joined, member or not. That it
has joined is a matter of the past, and `Visits` remembers it.
-/

set_option autoImplicit false

namespace NexusChat

open ConnectionManager

/-! ## The rooms a session has joined -/

/-- A system, and which rooms its sessions have joined. -/
structure Visits where
  system : System
  joined : List (TaskId × RoomId)

namespace Visits

def init (t : Tables) : Visits := { system := .init t, joined := [] }

/-- A session joins a room by a `join_room` that lists its user. -/
def record (s s' : System) : Label → List (TaskId × RoomId)
  | .run i _ =>
    match s.tasks[i]? with
    | some (.session ses) =>
      match ses.phase.head? with
      | some (.manager (.joinRoom user_id room)) =>
        if user_id ∈ (s'.world.servers ses.server).manager.getRoomUserIds room then [(i, room)]
        else []
      | _ => []
    | _ => []
  | _ => []

def step (env : Env) (v : Visits) (l : Label) : Option Visits :=
  (v.system.step env l).map fun s => { system := s, joined := record v.system s l ++ v.joined }

theorem step_eq_some {env : Env} {v v' : Visits} {l : Label} (hs : v.step env l = some v') :
    v.system.step env l = some v'.system ∧ ∀ e ∈ v.joined, e ∈ v'.joined := by
  obtain ⟨s, hstep, rfl⟩ := Option.map_eq_some_iff.mp hs
  exact ⟨hstep, fun e he => List.mem_append_right _ he⟩

/-- A run of the visits is a run of the system. -/
theorem reach_system {env : Env} {C : Visits → Label → Prop} {t : Tables} {v : Visits}
    (hr : Reach (Visits.step env) C (.init t) v) :
    Reach (System.step env) Always (.init t) v.system := by
  induction hr with
  | init => exact .init
  | tail _ _ hs ih => exact .tail ih trivial (step_eq_some hs).1

/-! ## The condition -/

/-- The user is a member of every room that the frame writes to, and is a member of the room that
the frame leaves or has joined it. -/
def Entitled (env : Env) (v : Visits) (i : TaskId) (user_id : UserId) (data : Json) : Prop :=
  ∀ room, (Chat.Writes env user_id data room →
      v.system.world.db.committed.HasMember env room user_id) ∧
    (Chat.Leaves env data room →
      v.system.world.db.committed.HasMember env room user_id ∨ (i, room) ∈ v.joined)

/-- The session is not on the way to an operation on the room, but for saying that its user goes
offline in it, and has inserted no message into the room that it may still commit. -/
structure Quits (env : Env) (v : Visits) (i : TaskId) (ses : Session) (r : Uuid) : Prop where
  leads : ∀ op room, env.uuid room = some r → ses.phase.Leads op → op.Concerns env room →
    op.SaysOffline env ses.userId room ∧ (i, room) ∈ v.joined
  flushed : ∀ m, .addMessage m ∈ v.system.world.db.flushed i → m.roomId ≠ r

/-- The condition on a step: a frame passes the rate limit only if its user is entitled to it, and
who loses a membership has no session with a write to the room under way. -/
structure Authorized (env : Env) (v : Visits) (l : Label) : Prop where
  accepts : ∀ (i : TaskId) (x : Choice) (ses : Session) (data : Json) (user_id : UserId),
    l = .run i x → v.system.tasks[i]? = some (.session ses) → ses.phase.frame = some data →
      ses.phase.head? = some (.redis (.checkWsRateLimit user_id)) → x.ok = true →
        v.Entitled env i ses.userId data
  removes : ∀ r u, v.system.Removes l r u → ∀ (i : TaskId) (ses : Session),
    v.system.tasks[i]? = some (.session ses) → env.uuid ses.userId = some u →
      v.Quits env i ses r

/-! ## The invariant -/

/-- What a session is about to do to a room, and what it has inserted into one, is for a member. -/
structure Rightful (env : Env) (v : Visits) : Prop where
  leads : ∀ (i : TaskId) (ses : Session) op room, v.system.tasks[i]? = some (.session ses) →
    ses.phase.Leads op → op.Concerns env room →
      v.system.world.db.committed.HasMember env room ses.userId ∨
        (op.SaysOffline env ses.userId room ∧ (i, room) ∈ v.joined)
  flushed : ∀ (i : TaskId) (ses : Session) m, v.system.tasks[i]? = some (.session ses) →
    .addMessage m ∈ v.system.world.db.flushed i → ∃ u, env.uuid ses.userId = some u ∧
      v.system.world.db.committed.IsMember m.roomId u

section Steps

variable {env : Env} {v v' : Visits} {l : Label} {i : TaskId} {ses : Session} {op : Op}
  {room : RoomId}

theorem rightful_init {t : Tables} : (init t).Rightful env :=
  ⟨fun _ _ _ _ hi => (by cases hi), fun _ _ _ hi => (by cases hi)⟩

/-- What a session is about to do stays rightful, as long as it is about to do it. -/
theorem Rightful.leads_lasts (h : v.Rightful env) (hC : v.Authorized env l)
    (hs : v.step env l = some v') (hi : v.system.tasks[i]? = some (.session ses))
    (hleads : ses.phase.Leads op) (hroom : op.Concerns env room) :
    v'.system.world.db.committed.HasMember env room ses.userId ∨
      (op.SaysOffline env ses.userId room ∧ (i, room) ∈ v'.joined) := by
  obtain ⟨hsystem, hjoined⟩ := step_eq_some hs
  rcases h.leads i ses op room hi hleads hroom with hmember | ⟨hoffline, hin⟩
  · by_cases hquits : op.SaysOffline env ses.userId room ∧ (i, room) ∈ v.joined
    · exact .inr ⟨hquits.1, hjoined _ hquits.2⟩
    · refine .inl (System.hasMember_step hsystem hmember fun r u hr hu hremoves => ?_)
      exact hquits ((hC.removes r u hremoves i ses hi hu).leads op room hr hleads hroom)
  · exact .inr ⟨hoffline, hjoined _ hin⟩

/-- What it has inserted stays rightful. -/
theorem Rightful.flushed_lasts {m : MessageRow} (h : v.Rightful env) (hC : v.Authorized env l)
    (hs : v.step env l = some v') (hi : v.system.tasks[i]? = some (.session ses))
    (hm : .addMessage m ∈ v.system.world.db.flushed i) : ∃ u, env.uuid ses.userId = some u ∧
      v'.system.world.db.committed.IsMember m.roomId u := by
  obtain ⟨u, hu, hmember⟩ := h.flushed i ses m hi hm
  refine ⟨u, hu, System.isMember_step (step_eq_some hs).1 hmember fun hremoves => ?_⟩
  exact (hC.removes m.roomId u hremoves i ses hi hu).flushed m hm rfl

theorem rightful_leads (hgates : v.system.Each (GatesOf env)) (hposting : v.system.Posting)
    (h : v.Rightful env) (hC : v.Authorized env l) (hs : v.step env l = some v')
    (hi : v'.system.tasks[i]? = some (.session ses)) (hleads : ses.phase.Leads op)
    (hroom : op.Concerns env room) :
    v'.system.world.db.committed.HasMember env room ses.userId ∨
      (op.SaysOffline env ses.userId room ∧ (i, room) ∈ v'.joined) := by
  obtain ⟨hsystem, hjoined⟩ := step_eq_some hs
  obtain ⟨before, hbefore, huser, -, hold | ⟨x, rfl, hpasses⟩⟩ :=
    System.leads_step hgates hsystem hi hleads hroom
  · rw [← huser]
    exact h.leads_lasts hC hs hbefore hold hroom
  · rw [← huser]
    cases hpasses with
    | check hr hu hx => exact .inl (hposting.member hbefore hr hu hx)
    | limit hframe hhead hok hasked =>
      obtain ⟨hwrites, hleaves⟩ := hC.accepts i x before _ _ rfl hbefore hframe hhead hok room
      -- the rate limit removes nobody
      have hlasts : v.system.world.db.committed.HasMember env room before.userId →
          v'.system.world.db.committed.HasMember env room before.userId := by
        intro hmember
        refine System.hasMember_step hsystem hmember fun r u _ _ hremoves => ?_
        obtain ⟨j, y, task, hl, hj, hcommit, -⟩ := hremoves
        cases hl
        cases hbefore.symm.trans hj
        cases hhead.symm.trans hcommit
      obtain ⟨-, hasked | ⟨hasked, hoffline⟩⟩ := hasked
      · exact .inl (hlasts (hwrites hasked))
      · rcases hleaves hasked with hmember | hin
        · exact .inl (hlasts hmember)
        · exact .inr ⟨hoffline, hjoined _ hin⟩

/-- A message that a session inserts is one it was about to insert. -/
theorem Rightful.inserts {room_id sender_id : Uuid} {content : String}
    {message_type : MessageType} {key : Json} (h : v.Rightful env)
    (horderly : v.system.Each fun o part {_} p => p.All (Op.Orderly env o part))
    (hi : v.system.tasks[i]? = some (.session ses)) (hhead : ses.phase.head? =
      some (.db (.insertMessage room_id sender_id content message_type key))) :
    ∃ u, env.uuid ses.userId = some u ∧ v.system.world.db.committed.IsMember room_id u := by
  have heach := horderly i _ hi
  obtain ⟨hleads, part, hop⟩ := Phase.leads_of_frame heach hhead
    fun _ hop => (hop (Option.some_ne_none _)).1
  obtain ⟨-, room, hroom⟩ := hop (Option.some_ne_none _)
  rcases h.leads i ses _ room hi hleads hroom with hmember | ⟨hoffline, -⟩
  · obtain ⟨r, u, hr, hu, hmember⟩ := hmember
    cases hroom.symm.trans hr
    exact ⟨u, hu, hmember⟩
  · obtain ⟨_, _, _, hop⟩ := hoffline
    cases hop

theorem rightful_flushed {m : MessageRow}
    (horderly : v.system.Each fun o part {_} p => p.All (Op.Orderly env o part))
    (hposting : v.system.Posting) (h : v.Rightful env) (hC : v.Authorized env l)
    (hs : v.step env l = some v') (hi : v'.system.tasks[i]? = some (.session ses))
    (hm : .addMessage m ∈ v'.system.world.db.flushed i) : ∃ u, env.uuid ses.userId = some u ∧
      v'.system.world.db.committed.IsMember m.roomId u := by
  obtain ⟨hsystem, -⟩ := step_eq_some hs
  have hmoves := System.moves hsystem
  obtain ⟨before, hbefore, huser⟩ : ∃ before, v.system.tasks[i]? = some (.session before) ∧
      before.userId = ses.userId := by
    rcases hmoves.session_before hi with hnew | ⟨before, hbefore, huser, -⟩
    · -- a new session has inserted nothing
      exfalso
      by_cases hl : ∃ j x, l = .run j x
      · obtain ⟨j, x, rfl⟩ := hl
        cases hmoves with
        | background hl _ => exact hl
        | run hj _ htasks =>
          rw [htasks] at hi
          have hlt := (List.getElem?_eq_some_iff.mp hi).1
          rw [List.length_set] at hlt
          exact absurd hlt (Nat.not_lt.mpr hnew)
      · obtain ⟨hdb, -⟩ := System.stores_env (fun j x he => hl ⟨j, x, he⟩) hsystem
        rw [hdb, hposting.unborn i hnew] at hm
        cases hm
    · exact ⟨before, hbefore, huser⟩
  rw [← huser]
  by_cases hl : ∃ j x, l = .run j x
  · obtain ⟨j, x, rfl⟩ := hl
    cases hmoves with
    | background hl _ => exact absurd hl id
    | run hj ht _ =>
      obtain ⟨op, a, hhead, hx⟩ := Task.step_exec ht
      -- only an operation on the database can flush a message
      rcases Op.exec_db hx with he | ⟨o, a', rfl, ho⟩
      · rw [he] at hm
        exact h.flushed_lasts hC hs hbefore hm
      · -- and only one of this transaction flushes one of its own
        by_cases hji : i = j
        · subst hji
          cases hbefore.symm.trans hj
          rcases DbOp.exec_cases ho with he | ⟨wr, hwr, -, he⟩ | ⟨-, -, he⟩ | he
          · rw [he] at hm
            exact h.flushed_lasts hC hs hbefore hm
          · rw [he, Database.flushed_flush_self] at hm
            rcases List.mem_append.mp hm with hm | hm
            · exact h.flushed_lasts hC hs hbefore hm
            · -- the message is inserted by this step, which commits nothing
              obtain rfl := List.mem_singleton.mp hm
              rw [he]
              cases o with
              | insertMessage room_id sender_id content message_type key =>
                have hrow := DbOp.messageRow_eq_ok.mp hwr
                obtain ⟨k, -, -, rfl, -⟩ := hrow
                exact h.inserts horderly hbefore hhead
              | _ => exact absurd hwr id
          · rw [he, Database.flushed_commit_self] at hm
            cases hm
          · rw [he, Database.flushed_forget_self] at hm
            cases hm
        · rw [DbOp.flushed_exec ho hji] at hm
          exact h.flushed_lasts hC hs hbefore hm
  · obtain ⟨hdb, -⟩ := System.stores_env (fun j x he => hl ⟨j, x, he⟩) hsystem
    rw [hdb] at hm
    exact h.flushed_lasts hC hs hbefore hm

theorem rightful_reach {t : Tables}
    (hr : Reach (Visits.step env) (Authorized env) (.init t) v) : v.Rightful env := by
  induction hr with
  | init => exact rightful_init
  | tail hr hC hs ih =>
    have hsystem := reach_system hr
    have hposting := System.posting_reach hsystem
    constructor
    · intro i ses op room hi hleads hroom
      exact rightful_leads (System.each_reach inherited_gates hsystem) hposting ih hC hs hi hleads
        hroom
    · intro i ses m hi hm
      exact rightful_flushed (System.each_reach inherited_orderly hsystem) hposting ih hC hs hi hm

end Steps

/-- **Whoever writes to a room is a member**: the messages that a session commits, and what it
publishes for a frame, but for the news that its user goes offline in a room that it has joined. -/
theorem writers_are_members {env : Env} {t : Tables} {v v' : Visits} {i : TaskId} {x : Choice}
    {ses : Session} (hr : Reach (Visits.step env) (Authorized env) (.init t) v)
    (hs : v.step env (.run i x) = some v') (hi : v.system.tasks[i]? = some (.session ses)) :
    (∀ m ∈ v'.system.world.db.committed.messages, m ∉ v.system.world.db.committed.messages →
      ∃ u, env.uuid ses.userId = some u ∧ v.system.world.db.committed.IsMember m.roomId u) ∧
    ∀ data room message, ses.phase.frame = some data →
      v'.system.world.redis.published = v.system.world.redis.published ++
        [(Chat.roomChannel env (.str room), message)] →
      v.system.world.db.committed.HasMember env room ses.userId ∨ ((i, room) ∈ v.joined ∧
        ∃ room_id username, room_id.format env.repr = room ∧ message = envelope "presence"
          (.presenceUpdate room_id ses.userId username "offline")) := by
  have hrightful := rightful_reach hr
  have hmoves := System.moves (step_eq_some hs).1
  cases hmoves with
  | background hl _ => exact absurd hl id
  | run hj ht _ =>
    cases hi.symm.trans hj
    obtain ⟨op, a, hhead, hx⟩ := Task.step_exec ht
    constructor
    · intro m hm hnew
      rcases Op.exec_db hx with he | ⟨o, a', rfl, ho⟩
      · rw [he] at hm
        exact absurd hm hnew
      · rcases DbOp.mem_messages_of_exec ho hm with hold | hflushed
        · exact absurd hold hnew
        · exact hrightful.flushed i ses m hi hflushed
    · intro data room message hframe hpublished
      rcases Op.exec_published hx with he | ⟨channel, message', rfl, he⟩
      · rw [he] at hpublished
        exact absurd (List.self_eq_append_right.mp hpublished) (List.cons_ne_nil _ _)
      · rw [he] at hpublished
        have hlast := List.singleton_inj.mp (List.append_cancel_left hpublished)
        cases hlast
        have hleads : ses.phase.Leads (.publish (Chat.roomChannel env (.str room)) message) := by
          obtain ⟨srv, u, name, phase⟩ := ses
          cases phase with
          | handling conn frame p =>
            cases hframe
            exact Coro.leads_head hhead rfl
          | _ => cases hframe
        rcases hrightful.leads i ses _ room hi hleads rfl with hmember | ⟨hoffline, hin⟩
        · exact .inl hmember
        · obtain ⟨room_id, username, hname, hop⟩ := hoffline
          obtain ⟨-, rfl⟩ := Op.publish.inj hop
          exact .inr ⟨hin, room_id, username, hname, rfl⟩

/-! ### A message to a room -/

/-- What a frame with a message to room 3 says. -/
def hello : Json :=
  .obj [("event", .str "message"), ("data", .obj
    [("room_id", .str "00000000-0000-0000-0000-000000000003"), ("content", .str "hi")])]

def user : UserId := "00000000-0000-0000-0000-000000000001"

/-- User 1 enters, and its message to room 3 is about to be committed. -/
def writes : List Label := System.enters 0 0 ++ System.handles 0 (.json hello) 3 1

/-- User 2 enters, who is not a member of room 3, and its message is about to be committed. -/
def intrudes : List Label := .connect 0 System.Sample.second "u2" :: System.goes 0 3 ++
  System.handles 0 (.json hello) 3 1

/-- Frames are messages of user 1 to room 3, of which it is a member, and nobody loses a
membership. -/
def authorized (v : Visits) : Label → Bool
  | .run i x => System.Sample.deletesNobody v.system (.run i x) && v.system.tasks[i]?.all fun
    | .session ses => ses.phase.frame.all fun data => data.same hello && ses.userId = user &&
        (v.system.world.db.committed.membership 3 1).isSome
    | _ => true
  | _ => true

theorem entitled_hello {v : Visits} {i : TaskId}
    (h : v.system.world.db.committed.IsMember 3 1) : v.Entitled .sample i user hello := by
  have hevent : ∀ {name event_data}, Chat.FrameIs hello name event_data →
      "message" = name ∧ event_data = .obj [("room_id",
        .str "00000000-0000-0000-0000-000000000003"), ("content", .str "hi")] := by
    rintro name event_data ⟨event, he, hname, hdata⟩
    cases he
    cases hdata
    exact ⟨of_decide_eq_true hname, rfl⟩
  intro room
  constructor
  · intro hwrites
    cases hwrites with
    | message hframe hread _ hroom hspelled _ =>
      obtain ⟨-, rfl⟩ := hevent hframe
      cases hread
      cases hroom
      exact ⟨3, 1, hspelled, rfl, h⟩
    | typing hframe _ _ _ =>
      rcases hframe with hframe | hframe
      · exact absurd (hevent hframe).1 (by decide)
      · exact absurd (hevent hframe).1 (by decide)
  · rintro ⟨event_data, room_id, hframe, -⟩
    exact absurd (hevent hframe).1 (by decide)

theorem authorized_of_test (v : Visits) (l : Label) (h : authorized v l = true) :
    v.Authorized .sample l := by
  constructor
  · rintro i x ses data user_id rfl hi hframe - -
    obtain ⟨-, htest⟩ := (Bool.and_eq_true _ _).mp h
    simp only [hi, hframe, Option.all_some, Bool.and_eq_true, decide_eq_true_eq] at htest
    obtain ⟨⟨hsame, huser⟩, hmember⟩ := htest
    rw [Json.eq_of_same hsame, huser]
    exact entitled_hello (Tables.isSome_membership.mp hmember)
  · rintro r u ⟨i, x, t, rfl, -, -, -, m, -, -, hdelete⟩
    obtain ⟨hnobody, -⟩ := (Bool.and_eq_true _ _).mp h
    have hall := List.all_eq_true.mp hnobody _ hdelete
    cases hall

/-- The message has been committed by the step, and was not before. -/
def commits (v v' : Visits) : Bool :=
  v'.system.world.db.committed.messages.rows.any fun m =>
    m.roomId = 3 && v.system.world.db.committed.messages.rows.all fun m' => m'.id ≠ m.id

theorem exists_of_commits {v v' : Visits} (h : commits v v' = true) :
    ∃ m ∈ v'.system.world.db.committed.messages,
      m ∉ v.system.world.db.committed.messages ∧ m.roomId = 3 := by
  obtain ⟨m, hm, htest⟩ := List.any_eq_true.mp h
  obtain ⟨hroom, hnew⟩ := (Bool.and_eq_true _ _).mp htest
  refine ⟨m, hm, fun hold => ?_, of_decide_eq_true hroom⟩
  exact of_decide_eq_true (List.all_eq_true.mp hnew m hold) rfl

/-- Session 0 is of the user. -/
def ofUser (u : UserId) (v : Visits) : Bool :=
  v.system.tasks[0]?.any fun
    | .session ses => ses.userId = u
    | _ => false

theorem session_of_test {u : UserId} {v : Visits} (h : ofUser u v = true) :
    ∃ ses, v.system.tasks[0]? = some (.session ses) ∧ ses.userId = u := by
  obtain ⟨t, ht, htest⟩ := (Option.any_eq_true _ _).mp h
  cases t with
  | session ses => exact ⟨ses, ht, of_decide_eq_true htest⟩
  | _ => cases htest

set_option maxRecDepth 20000 in
/-- User 1, a member, commits its message to room 3. -/
theorem writers_are_members_message : ∃ v v' ses, Reach (Visits.step .sample)
    (Authorized .sample) (.init .sample) v ∧
      v.step .sample (.run 0 (System.smooth 1)) = some v' ∧
        v.system.tasks[0]? = some (.session ses) ∧
          ∃ m ∈ v'.system.world.db.committed.messages,
            m ∉ v.system.world.db.committed.messages ∧ ∃ u, Env.sample.uuid ses.userId = some u ∧
              v.system.world.db.committed.IsMember m.roomId u := by
  have hrun : ((replayIf (Visits.step .sample) authorized writes (.init .sample)).any fun v =>
      (v.step .sample (.run 0 (System.smooth 1))).any fun v' =>
        ofUser user v && commits v v') = true := by
    decide +kernel
  obtain ⟨v, hv, htest⟩ := (Option.any_eq_true _ _).mp hrun
  obtain ⟨v', hs, htest⟩ := (Option.any_eq_true _ _).mp htest
  obtain ⟨huser, hcommits⟩ := (Bool.and_eq_true _ _).mp htest
  obtain ⟨ses, hi, -⟩ := session_of_test huser
  obtain ⟨m, hm, hnew, -⟩ := exists_of_commits hcommits
  have hr : Reach (Visits.step .sample) (Authorized .sample) (.init .sample) v :=
    .of_replayIf authorized_of_test .init hv
  exact ⟨v, v', ses, hr, hs, hi, m, hm, hnew, (writers_are_members hr hs hi).1 m hm hnew⟩

set_option maxRecDepth 20000 in
/-- **User 2 is not a member of room 3, and its message to the room is committed.** -/
theorem not_writers_are_members : ¬∀ (env : Env) (t : Tables) (v v' : Visits) (i : TaskId)
    (x : Choice) (ses : Session), Reach (Visits.step env) Always (.init t) v →
      v.step env (.run i x) = some v' → v.system.tasks[i]? = some (.session ses) →
        ∀ m ∈ v'.system.world.db.committed.messages, m ∉ v.system.world.db.committed.messages →
          ∃ u, env.uuid ses.userId = some u ∧
            v.system.world.db.committed.IsMember m.roomId u := by
  intro hall
  have hrun : ((replay (Visits.step .sample) intrudes (.init .sample)).any fun v =>
      (v.step .sample (.run 0 (System.smooth 1))).any fun v' =>
        ofUser System.Sample.second v && (commits v v' &&
          (v.system.world.db.committed.membership 3 2).isNone)) = true := by
    decide +kernel
  obtain ⟨v, hv, htest⟩ := (Option.any_eq_true _ _).mp hrun
  obtain ⟨v', hs, htest⟩ := (Option.any_eq_true _ _).mp htest
  obtain ⟨huser, htest⟩ := (Bool.and_eq_true _ _).mp htest
  obtain ⟨hcommits, hnone⟩ := (Bool.and_eq_true _ _).mp htest
  obtain ⟨ses, hi, hsecond⟩ := session_of_test huser
  obtain ⟨m, hm, hnew, hroom⟩ := exists_of_commits hcommits
  obtain ⟨u, hu, hmember⟩ :=
    hall .sample .sample v v' 0 _ ses (.of_replay .init hv) hs hi m hm hnew
  rw [hsecond] at hu
  obtain rfl : 2 = u := Option.some.inj ((by decide : Env.sample.uuid
    "00000000-0000-0000-0000-000000000002" = some 2).symm.trans hu)
  rw [hroom, Tables.isSome_membership.symm, Option.isNone_iff_eq_none.mp hnone] at hmember
  cases hmember

end Visits

end NexusChat
