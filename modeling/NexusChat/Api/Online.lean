import NexusChat.App.Clock

/-!
# Who looks online (`set_online`, `set_offline`, and the two queries)

A user's presence in a room is one entry, and every session of the user writes it: `set_online`
when it joins, `set_offline` when it leaves or ends. So another session's `set_offline` takes away
the presence of one that is still in the room. And nothing but a join writes the entry: frames,
pings and pongs leave it as it is, so a session that stays looks offline when the timeout after its
join is over, however active it is.
-/

set_option autoImplicit false

namespace NexusChat

/-- What becomes of a session's own record of a key when it performs an operation. -/
def Op.rerecord (key : String) (executed : Bool) (record : Option Time) : Op → Option Time
  | .redis (.zadd k _ s) => if executed = true ∧ key = k then some s else record
  | .redis (.zrem k _) => if key = k then none else record
  | _ => record

/-- Only three commands on the key matter to a session's record and its user's entry there. -/
theorem Op.presence_cases (op : Op) (key u : String) (executed : Bool) :
    (∀ record score, op.rerecord key executed record = record ∧
      op.rescore key u executed score = score) ∨
    (∃ m s, op = .redis (.zadd key m s) ∧ executed = true) ∨
    (∃ m, op = .redis (.zrem key m)) ∨
    ∃ max, op = .redis (.zremrangebyscore key max) ∧ executed = true := by
  cases op with
  | redis o =>
    cases o with
    | zadd k m s =>
      by_cases hk : key = k ∧ executed = true
      · obtain ⟨rfl, rfl⟩ := hk
        exact .inr (.inl ⟨m, s, rfl, rfl⟩)
      · refine .inl fun record score => ?_
        cases executed <;> simp_all [rerecord, rescore, RedisOp.rescore]
    | zrem k m =>
      by_cases hk : key = k
      · subst hk
        exact .inr (.inr (.inl ⟨m, rfl⟩))
      · refine .inl fun record score => ?_
        cases executed <;> simp [rerecord, rescore, RedisOp.rescore, hk]
    | zremrangebyscore k max =>
      by_cases hk : key = k ∧ executed = true
      · obtain ⟨rfl, rfl⟩ := hk
        exact .inr (.inr (.inr ⟨max, rfl, rfl⟩))
      · refine .inl fun record score => ?_
        cases executed <;> simp_all [rerecord, rescore, RedisOp.rescore]
    | _ => exact .inl fun _ _ => ⟨rfl, by cases executed <;> rfl⟩
  | _ => exact .inl fun _ _ => ⟨rfl, rfl⟩

/-- Only three commands matter to an entry. -/
theorem Op.rescore_cases (op : Op) (key u : String) (executed : Bool) :
    (∀ score, op.rescore key u executed score = score) ∨
    (∃ s, op = .redis (.zadd key u s) ∧ executed = true) ∨
    op = .redis (.zrem key u) ∨
    ∃ max, op = .redis (.zremrangebyscore key max) ∧ executed = true := by
  rcases op.presence_cases key u executed with hsame | ⟨m, s, rfl, rfl⟩ | ⟨m, rfl⟩ | hold
  · exact .inl fun score => (hsame none score).2
  · by_cases hm : u = m
    · subst hm
      exact .inr (.inl ⟨s, rfl, rfl⟩)
    · exact .inl fun score => by simp [rescore, RedisOp.rescore, hm]
  · by_cases hm : u = m
    · subst hm
      exact .inr (.inr (.inl rfl))
    · exact .inl fun score => by simp [rescore, RedisOp.rescore, hm]
  · exact .inr (.inr (.inr hold))

namespace Clocked

variable {env : Env} {c c' : Clocked}

def score (c : Clocked) (key : String) (u : UserId) : Option Time :=
  c.system.world.redis.score key u

theorem get?_recordOp {online : Dict (TaskId × String) Time} {i j : TaskId} {executed : Bool}
    {op : Op} {key : String} : (recordOp online i executed op).get? (j, key) =
      if j = i then op.rerecord key executed (online.get? (j, key)) else online.get? (j, key) := by
  cases op with
  | redis o =>
    cases o with
    | zadd k m s =>
      cases executed <;> by_cases hj : j = i <;> by_cases hk : key = k <;>
        simp [recordOp, Op.rerecord, Dict.get?_set, hj, hk]
    | zrem k m =>
      by_cases hj : j = i <;> by_cases hk : key = k <;>
        simp [recordOp, Op.rerecord, Dict.get?_pop, hj, hk]
    | _ => simp [recordOp, Op.rerecord]
  | _ => simp [recordOp, Op.rerecord]

/-- An operation of a task, and what it does to the records and the entries. -/
theorem run_step {i : TaskId} {x : Choice} (htimely : c.OnTime env)
    (hs : c.step env (.step (.run i x)) = some c') :
    ∃ t t' op w', c.system.tasks[i]? = some t ∧ t.head? = some op ∧
      op.Proper env t.owner c.now ∧
      t.step env i { x with now := c.now } c.system.world = some (t', w') ∧
      c'.system.tasks = c.system.tasks.set i t' ∧
      c'.online = recordOp c.online i (x.ok || x.executed) op ∧
      ∀ key u, c'.score key u = op.rescore key u (x.ok || x.executed) (c.score key u) := by
  obtain ⟨hsys, -, honline, -⟩ := step_eq_some hs
  have hmoves := System.moves hsys
  cases hmoves with
  | background hl htasks => exact absurd hl id
  | run hi ht htasks =>
    obtain ⟨op, r, hhead, hexec, -⟩ := Task.programs_step started_timely ht (htimely i _ hi)
    obtain ⟨α, p, hp, hop⟩ := Task.exists_program (htimely i _ hi) hhead
    refine ⟨_, _, op, _, hi, hhead, hp.proper hop rfl hexec, ht, htasks, ?_, fun key u => ?_⟩
    · rw [honline, record, hi]
      simp only [Option.bind_some, hhead]
    · exact Op.exec_score (x := { x with now := c.now }) hexec

/-- Nothing but an operation of a task changes a record or an entry. -/
theorem other_step {l : Label} (hl : ∀ i x, l ≠ .run i x)
    (hs : c.step env (.step l) = some c') :
    c'.online = c.online ∧ ∀ key u, c'.score key u = c.score key u := by
  obtain ⟨hsys, -, honline, -⟩ := step_eq_some hs
  cases l with
  | run i x => exact absurd rfl (hl i x)
  | _ =>
    refine ⟨honline, fun key u => ?_⟩
    exact congrArg (fun r : Redis => r.score key u)
      (System.stores_env (fun _ _ => Label.noConfusion) hsys).2

/-! ## What the record of a session says about the entry of its user -/

/-- `E` relates the record of a session to the entry of its user, at a time. It has to survive the
operations of the session, and what `C` lets others do. -/
structure Sustains (env : Env) (C : Clocked → ClockedLabel → Prop) (s₀ : Clocked)
    (E : Time → Option Time → Option Time → Prop) : Prop where
  unrecorded : ∀ now score, E now none score
  later : ∀ {now now' : Time} {record score : Option Time}, now ≤ now' → E now record score →
    E now' record score
  own : ∀ {u : UserId} {op : Op} {key : String} {executed : Bool} {now : Time}
    {record score : Option Time}, op.Proper env (some u) now → E now record score →
    E now (op.rerecord key executed record) (op.rescore key u executed score)
  others : ∀ {c : Clocked} {i j : TaskId} {x : Choice} {t : Task} {op : Op} {ses : Session}
    {key : String}, Reach (step env) C s₀ c → C c (.step (.run i x)) →
    c.system.tasks[i]? = some t → t.head? = some op → op.Proper env t.owner c.now → j ≠ i →
    c.system.tasks[j]? = some (.session ses) → ses.phase.Live →
    E c.now (c.online.get? (j, key)) (c.score key ses.userId) →
    E c.now (c.online.get? (j, key))
      (op.rescore key ses.userId (x.ok || x.executed) (c.score key ses.userId))

/-- The relation holds of every session that has not come to its `finally`; a task that does not
exist yet has no record. -/
structure Records (E : Time → Option Time → Option Time → Prop) (c : Clocked) : Prop where
  unborn : ∀ i key, c.system.tasks.length ≤ i → c.online.get? (i, key) = none
  holds : ∀ (i : TaskId) ses key, c.system.tasks[i]? = some (.session ses) → ses.phase.Live →
    E c.now (c.online.get? (i, key)) (c.score key ses.userId)

variable {C : Clocked → ClockedLabel → Prop} {s₀ : Clocked}
  {E : Time → Option Time → Option Time → Prop}

theorem Sustains.records_step (h : Sustains env C s₀ E) {l : ClockedLabel}
    (hr : Reach (step env) C s₀ c) (htimely : c.OnTime env) (hrec : Records E c)
    (hC : C c l) (hs : c.step env l = some c') : Records E c' := by
  cases l with
  | wait time =>
    cases hs
    exact ⟨hrec.unborn, fun i ses key hi hlive =>
      h.later (Nat.le_add_right _ _) (hrec.holds i ses key hi hlive)⟩
  | step l =>
    obtain ⟨hsys, hnow, -, -⟩ := step_eq_some hs
    have hmoves := System.moves hsys
    by_cases hl : ∃ i x, l = .run i x
    · obtain ⟨i, x, rfl⟩ := hl
      obtain ⟨t, t', op, w', hi, hhead, hproper, ht, htasks, honline, hscore⟩ :=
        run_step htimely hs
      have hborn : ∀ j, c.system.tasks.length ≤ j → j ≠ i := by
        rintro j hj rfl
        exact absurd (List.getElem?_eq_some_iff.mp hi).1 (Nat.not_lt.mpr hj)
      refine ⟨fun j key hj => ?_, fun j ses' key hj hlive => ?_⟩
      · rw [htasks, List.length_set] at hj
        rw [honline, get?_recordOp, if_neg (hborn j hj)]
        exact hrec.unborn j key hj
      · rw [hnow, honline, get?_recordOp, hscore]
        rw [htasks] at hj
        rcases getElem?_replace hj with ⟨hji, hj⟩ | ⟨rfl, rfl⟩
        · rw [if_neg hji]
          exact h.others hr hC hi hhead hproper hji hj hlive (hrec.holds j ses' key hj hlive)
        · rw [if_pos rfl]
          obtain ⟨ses, rfl, huser, hstage⟩ := Task.session_step ht
          rw [← huser]
          exact h.own hproper (hrec.holds j ses key hi (Nat.le_zero.mp (hlive ▸ hstage)))
    · obtain ⟨honline, hscore⟩ := other_step (fun i x he => hl ⟨i, x, he⟩) hs
      refine ⟨fun j key hj => ?_, fun j ses' key hj hlive => ?_⟩
      · rw [honline]
        exact hrec.unborn j key (le_trans hmoves.length_le hj)
      · rw [hnow, honline, hscore]
        rcases hmoves.session_before hj with hnew | ⟨ses, hj, huser, hstage⟩
        · rw [hrec.unborn j key hnew]
          exact h.unrecorded _ _
        · rw [← huser]
          exact hrec.holds j ses key hj (Nat.le_zero.mp (hlive ▸ hstage))

/-- **What is sustained holds in every run.** -/
theorem Sustains.records {t : Tables} {now : Time} (h : Sustains env C (.init t now) E)
    (hr : Reach (step env) C (.init t now) c) : Records E c := by
  induction hr with
  | init => exact ⟨fun _ _ _ => rfl, fun i ses key hi => by cases hi⟩
  | tail hr hC hs ih => exact h.records_step hr (onTime_reach hr) ih hC hs

/-! ## Other sessions of the same user -/

/-- A session that has joined less than the timeout ago finds its user's entry, no older than its
join. -/
def Kept (timeout now : Time) (record score : Option Time) : Prop :=
  ∀ t, record = some t → now < t + timeout → ∃ s, score = some s ∧ t ≤ s

/-- No step takes the entry of a user away, or makes it older, while another session of the user
that has not come to its `finally` has joined less than the timeout ago. -/
def Spares (env : Env) (c : Clocked) : ClockedLabel → Prop
  | .step (.run i _) => ∀ task, c.system.tasks[i]? = some task → ∀ j ses key t, j ≠ i →
      c.system.tasks[j]? = some (.session ses) → ses.phase.Live →
      c.online.get? (j, key) = some t → c.now < t + env.presenceTimeout →
      task.head? ≠ some (.redis (.zrem key ses.userId)) ∧
        ∀ s, task.head? = some (.redis (.zadd key ses.userId s)) → t ≤ s
  | _ => True

/-- An entry that is younger than the timeout is not removed with the old ones. -/
theorem rescore_young {key u : String} {max : Int} {now timeout s : Nat}
    (hmax : max + timeout ≤ now) (hnow : now < s + timeout) :
    (Op.redis (.zremrangebyscore key max)).rescore key u true (some s) = some s := by
  have hyoung : ¬(s : Int) ≤ max := by omega
  simp [Op.rescore, RedisOp.rescore, hyoung]

theorem sustains_kept {t : Tables} {now : Time} :
    Sustains env (Spares env) (.init t now) (Kept env.presenceTimeout) where
  unrecorded := fun now score t ht => by cases ht
  later := fun hle h t ht hnow => h t ht (lt_of_le_of_lt hle hnow)
  own := by
    intro u op key executed now record score hproper h
    rcases op.presence_cases key u executed with hsame | ⟨m, s, rfl, rfl⟩ | ⟨m, rfl⟩ |
      ⟨max, rfl, rfl⟩
    · rw [(hsame record score).1, (hsame record score).2]
      exact h
    · -- the session sets its user online
      cases hproper
      intro t ht hnow
      have hs : s = t := by simpa [Op.rerecord] using ht
      exact ⟨s, by simp [Op.rescore, RedisOp.rescore], hs.ge⟩
    · intro t ht
      simp [Op.rerecord] at ht
    · intro t ht hnow
      obtain ⟨s, rfl, hle⟩ := h t ht hnow
      exact ⟨s, rescore_young hproper (lt_of_lt_of_le hnow (Nat.add_le_add_right hle _)), hle⟩
  others := by
    intro c i j x task op ses key _ hC hi hhead hproper hji hj hlive h t ht hnow
    obtain ⟨s, hscore, hle⟩ := h t ht hnow
    obtain ⟨hzrem, hzadd⟩ := hC task hi j ses key t hji hj hlive ht hnow
    rw [hscore]
    rcases op.rescore_cases key ses.userId (x.ok || x.executed) with hsame | ⟨s', rfl, hx⟩ | rfl |
      ⟨max, rfl, hx⟩
    · rw [hsame]
      exact ⟨s, rfl, hle⟩
    · exact ⟨s', by simp [Op.rescore, RedisOp.rescore, hx], hzadd s' hhead⟩
    · exact absurd hhead hzrem
    · rw [hx]
      exact ⟨s, rescore_young hproper (lt_of_lt_of_le hnow (Nat.add_le_add_right hle _)), hle⟩

/-- **A user is listed as long as a session is in the room**, in the runs where no other session of
the user takes the entry away or makes it older. -/
theorem presence_survives {t : Tables} {start : Time} {i : TaskId} {ses : Session} {r : RoomId}
    {joined : Time} (hr : Reach (step env) (Spares env) (.init t start) c)
    (hi : c.system.tasks[i]? = some (.session ses)) (hlive : ses.phase.Live)
    (hjoined : c.online.get? (i, PresenceService.key env (.str r)) = some joined)
    (hnow : c.now < joined + env.presenceTimeout) :
    PresenceService.Lists env c.system.world c.now (.str r) ses.userId := by
  obtain ⟨s, hscore, hle⟩ := (sustains_kept.records hr).holds i ses _ hi hlive joined hjoined hnow
  rw [PresenceService.lists_iff]
  exact ⟨s, hscore, lt_of_lt_of_le hnow (Nat.add_le_add_right hle _)⟩

/-! ### A reconnect -/

namespace Sample

def room : RoomId := "00000000-0000-0000-0000-000000000003"

def user : UserId := "00000000-0000-0000-0000-000000000001"

def key : String := PresenceService.key .sample (.str room)

/-- User 1 enters instance 0 and joins room 3. -/
def joins : List ClockedLabel :=
  (System.enters 0 0 ++ System.handles 0 (System.about "join_room" []) 15).map .step

/-- The user opens a second socket there, which replaces the first, and joins the room again. -/
def rejoins : List ClockedLabel :=
  joins ++ (.connect 0 user "u1" :: System.goes 1 7 ++
    System.handles 1 (System.about "join_room" []) 15).map .step

/-- The first session finds its socket closed, and takes its user off the room. -/
def forgets : List ClockedLabel :=
  [.step (.receive 0 .disconnect), .step (.run 0 { System.smooth 0 with order := [room] }),
    .step (.run 0 (System.smooth 0))]

/-- Session `i` is the user's, has not come to its `finally`, and has joined the room at a time. -/
def inRoom (i : TaskId) (joined : Time) (c : Clocked) : Bool :=
  (match c.system.tasks[i]? with
    | some (.session ses) => ses.userId = user && ses.phase.stage = 0
    | _ => false) && c.online.get? (i, key) = some joined

theorem session_of_inRoom {c : Clocked} {i : TaskId} {joined : Time}
    (h : inRoom i joined c = true) : ∃ ses, c.system.tasks[i]? = some (.session ses) ∧
      ses.userId = user ∧ ses.phase.Live ∧ c.online.get? (i, key) = some joined := by
  obtain ⟨hses, honline⟩ := (Bool.and_eq_true _ _).mp h
  split at hses
  · rename_i ses hi
    obtain ⟨huser, hstage⟩ := (Bool.and_eq_true _ _).mp hses
    have hlive : ses.phase.stage = 0 := of_decide_eq_true hstage
    exact ⟨ses, hi, of_decide_eq_true huser, hlive, of_decide_eq_true honline⟩
  · cases hses

/-- No entry is removed, and none made older. -/
def spares (c : Clocked) : ClockedLabel → Bool
  | .step (.run i _) =>
    match (c.system.tasks[i]?).bind Task.head? with
    | some (.redis (.zrem _ _)) => false
    | some (.redis (.zadd _ _ s)) => c.online.entries.all fun e => e.2 ≤ s
    | _ => true
  | _ => true

theorem spares_iff (c : Clocked) (l : ClockedLabel) (h : spares c l = true) :
    Spares .sample c l := by
  cases l with
  | wait time => trivial
  | step l =>
    cases l with
    | run i x =>
      intro task hi j ses key t _ _ _ ht _
      simp only [spares, hi, Option.bind_some] at h
      refine ⟨fun hhead => ?_, fun s hhead => ?_⟩
      · rw [hhead] at h
        cases h
      · rw [hhead] at h
        exact of_decide_eq_true (List.all_eq_true.mp h _ (Dict.mem_entries.mpr ht))
    | _ => trivial

end Sample

set_option maxRecDepth 20000 in
open Clocked.Sample in
/-- The second session's presence, as long as the first goes on. -/
theorem presence_survives_rejoined : ∃ c,
    Reach (step .sample) (Spares .sample) (.init .sample Env.newYear) c ∧
      PresenceService.Lists .sample c.system.world c.now (.str room) user := by
  have hrun : ((replayIf (step .sample) spares rejoins (.init .sample Env.newYear)).any fun c =>
      inRoom 1 Env.newYear c && c.now = Env.newYear) = true := by
    decide +kernel
  obtain ⟨c, hs, hc⟩ := (Option.any_eq_true _ _).mp hrun
  obtain ⟨hroom, hnow⟩ := (Bool.and_eq_true _ _).mp hc
  obtain ⟨ses, hi, huser, hlive, hjoined⟩ := session_of_inRoom hroom
  have hr := Reach.of_replayIf spares_iff .init hs
  have hlists := presence_survives hr hi hlive hjoined (by rw [of_decide_eq_true hnow]; decide)
  exact ⟨c, hr, huser ▸ hlists⟩

set_option maxRecDepth 20000 in
open Clocked.Sample in
/-- **The first session's cleanup takes the user off the room** the second session is in. -/
theorem not_presence_survives : ¬∀ (env : Env) (t : Tables) (start : Time) (c : Clocked)
    (i : TaskId) (ses : Session) (r : RoomId) (joined : Time),
    Reach (step env) Always (.init t start) c → c.system.tasks[i]? = some (.session ses) →
    ses.phase.Live → c.online.get? (i, PresenceService.key env (.str r)) = some joined →
    c.now < joined + env.presenceTimeout →
    PresenceService.Lists env c.system.world c.now (.str r) ses.userId := by
  intro hall
  have hrun : ((replay (step .sample) (rejoins ++ forgets) (.init .sample Env.newYear)).any
      fun c => inRoom 1 Env.newYear c && (c.now = Env.newYear && c.score key user = none)) =
        true := by
    decide +kernel
  obtain ⟨c, hs, hc⟩ := (Option.any_eq_true _ _).mp hrun
  obtain ⟨hroom, hc⟩ := (Bool.and_eq_true _ _).mp hc
  obtain ⟨hnow, hscore⟩ := (Bool.and_eq_true _ _).mp hc
  obtain ⟨ses, hi, huser, hlive, hjoined⟩ := session_of_inRoom hroom
  have hlists := hall _ _ _ c 1 ses room _ (.of_replay .init hs) hi hlive hjoined
    (by rw [of_decide_eq_true hnow]; decide)
  rw [PresenceService.lists_iff, huser] at hlists
  obtain ⟨s, hs, -⟩ := hlists
  have hgone : c.system.world.redis.score key user = none := of_decide_eq_true hscore
  rw [show PresenceService.key .sample (.str room) = key from rfl, hgone] at hs
  cases hs

/-! ## One session per user -/

/-- A user connects when all their sessions have ended. -/
def OneSession (c : Clocked) : ClockedLabel → Prop
  | .step (.connect _ u _) => ∀ (i : TaskId) (ses : Session),
      c.system.tasks[i]? = some (.session ses) → ses.userId = u → ses.phase = .ended
  | _ => True

/-- A user has one session at most that has not ended. -/
def Single (c : Clocked) : Prop :=
  ∀ (i j : TaskId) (ses ses' : Session), c.system.tasks[i]? = some (.session ses) →
    c.system.tasks[j]? = some (.session ses') → ses.userId = ses'.userId →
    ses.phase.stage < 2 → ses'.phase.stage < 2 → i = j

theorem single_step {l : Label} (h : c.Single) (hC : OneSession c (.step l))
    (hs : c.step env (.step l) = some c') : c'.Single := by
  have hsys := (step_eq_some hs).1
  have hmoves := System.moves hsys
  -- the sessions of a user who connects have ended
  have hended : ∀ {i j : TaskId} {ses ses' : Session}, c'.system.tasks[i]? = some (.session ses) →
      c.system.tasks.length ≤ i → c.system.tasks[j]? = some (.session ses') →
      ses'.userId = ses.userId → ¬ses'.phase.stage < 2 := by
    intro i j ses ses' hi hnew hj huser
    obtain ⟨-, srv, name, hl⟩ := hmoves.session_new hi hnew
    have hl : l = .connect srv ses.userId name := by
      cases l <;> first | exact hl | cases hl
    subst hl
    have hphase : ses'.phase = .ended := hC j ses' hj huser
    rw [hphase]
    exact Nat.lt_irrefl 2
  intro i j ses ses' hi hj huser hstage hstage'
  rcases hmoves.session_before hi with hnew | ⟨ses₀, hi₀, huser₀, hle₀⟩
  · rcases hmoves.session_before hj with hnew' | ⟨ses₁, hj₁, huser₁, hle₁⟩
    · rw [(hmoves.session_new hi hnew).1, (hmoves.session_new hj hnew').1]
    · exact absurd (lt_of_le_of_lt hle₁ hstage') (hended hi hnew hj₁ (huser₁.trans huser.symm))
  · rcases hmoves.session_before hj with hnew' | ⟨ses₁, hj₁, huser₁, hle₁⟩
    · exact absurd (lt_of_le_of_lt hle₀ hstage) (hended hj hnew' hi₀ (huser₀.trans huser))
    · exact h i j ses₀ ses₁ hi₀ hj₁ (huser₀.trans (huser.trans huser₁.symm))
        (lt_of_le_of_lt hle₀ hstage) (lt_of_le_of_lt hle₁ hstage')

theorem single_reach {t : Tables} {start : Time}
    (hr : Reach (step env) OneSession (.init t start) c) : c.Single := by
  refine hr.invariant (fun i _ _ _ hi => by cases hi) fun c l c' h hC hs => ?_
  cases l with
  | wait time =>
    cases hs
    exact h
  | step l => exact single_step h hC hs

/-- The entry is as old as the join, and is removed when the timeout after it is over. -/
def Exact (timeout now : Time) (record score : Option Time) : Prop :=
  ∀ t, record = some t → score = some t ∨ (score = none ∧ t + timeout ≤ now)

/-- What the removal of old entries leaves of an entry. -/
theorem exact_zremrangebyscore {key u : String} {max : Int} {now timeout t : Nat}
    (hmax : max + timeout ≤ now) {score : Option Time}
    (h : score = some t ∨ (score = none ∧ t + timeout ≤ now)) :
    (Op.redis (.zremrangebyscore key max)).rescore key u true score = some t ∨
      ((Op.redis (.zremrangebyscore key max)).rescore key u true score = none ∧
        t + timeout ≤ now) := by
  rcases h with rfl | ⟨rfl, hold⟩
  · by_cases hle : (t : Int) ≤ max
    · exact .inr ⟨by simp [Op.rescore, RedisOp.rescore, hle], by omega⟩
    · exact .inl (by simp [Op.rescore, RedisOp.rescore, hle])
  · exact .inr ⟨by simp [Op.rescore, RedisOp.rescore], hold⟩

theorem sustains_exact {t : Tables} {start : Time} :
    Sustains env OneSession (.init t start) (Exact env.presenceTimeout) where
  unrecorded := fun now score t ht => by cases ht
  later := by
    intro now now' record score hle h t ht
    rcases h t ht with hscore | ⟨hscore, hold⟩
    · exact .inl hscore
    · exact .inr ⟨hscore, le_trans hold hle⟩
  own := by
    intro u op key executed now record score hproper h
    rcases op.presence_cases key u executed with hsame | ⟨m, s, rfl, rfl⟩ | ⟨m, rfl⟩ |
      ⟨max, rfl, rfl⟩
    · rw [(hsame record score).1, (hsame record score).2]
      exact h
    · -- the session sets its user online
      cases hproper
      intro t ht
      have hs : s = t := by simpa [Op.rerecord] using ht
      exact .inl (by simp [Op.rescore, RedisOp.rescore, hs])
    · intro t ht
      simp [Op.rerecord] at ht
    · intro t ht
      exact exact_zremrangebyscore hproper (h t ht)
  others := by
    intro c i j x task op ses key hr _ hi hhead hproper hji hj hlive h t ht
    -- the task is not a session of the same user
    have hother : task.owner ≠ some ses.userId := by
      intro howner
      cases task with
      | request _ _ => cases howner
      | forced _ _ _ => cases howner
      | session ses' =>
        have huser : ses'.userId = ses.userId := Option.some.inj howner
        have hstage : ses'.phase.stage < 2 := by
          have hhead : ses'.phase.head? = some op := hhead
          cases hphase : ses'.phase with
          | ended =>
            rw [hphase] at hhead
            cases hhead
          | _ => simp [Phase.stage]
        have hlt : ses.phase.stage < 2 := by
          rw [show ses.phase.stage = 0 from hlive]
          exact Nat.zero_lt_two
        exact hji (single_reach hr j i ses ses' hj hi huser.symm hlt hstage)
    rcases op.rescore_cases key ses.userId (x.ok || x.executed) with hsame | ⟨s, rfl, -⟩ | rfl |
      ⟨max, rfl, hx⟩
    · rw [hsame]
      exact h t ht
    · exact absurd hproper hother
    · exact absurd hproper hother
    · rw [hx]
      exact exact_zremrangebyscore hproper (h t ht)

/-- **A user with one session looks online exactly until the timeout after the session's last join
is over**, whatever frames the session sends and whatever the others do. -/
theorem looks_online_iff {t : Tables} {start : Time} {i : TaskId} {ses : Session} {r : RoomId}
    {joined : Time} (hr : Reach (step env) OneSession (.init t start) c)
    (hi : c.system.tasks[i]? = some (.session ses)) (hlive : ses.phase.Live)
    (hjoined : c.online.get? (i, PresenceService.key env (.str r)) = some joined) :
    (PresenceService.Lists env c.system.world c.now (.str r) ses.userId ∧
      PresenceService.SeesOnline env c.system.world c.now (.str r) ses.userId) ↔
    c.now < joined + env.presenceTimeout := by
  have hentry := (sustains_exact.records hr).holds i ses _ hi hlive joined hjoined
  rw [PresenceService.lists_iff, PresenceService.seesOnline_iff, and_self]
  constructor
  · rintro ⟨s, hs, hnow⟩
    rcases hentry with hscore | ⟨hscore, -⟩
    · have hs' : c.score (PresenceService.key env (.str r)) ses.userId = some s := hs
      rw [hscore] at hs'
      cases hs'
      exact hnow
    · have hs' : c.score (PresenceService.key env (.str r)) ses.userId = some s := hs
      rw [hscore] at hs'
      cases hs'
  · intro hnow
    rcases hentry with hscore | ⟨-, hold⟩
    · exact ⟨joined, hscore, hnow⟩
    · exact absurd hnow (Nat.not_lt.mpr hold)

/-- In every stretch of half the timeout since the join, the server has handled a frame. -/
def HeardOften (env : Env) (c : Clocked) (i : TaskId) (joined : Time) : Prop :=
  ∀ a, joined ≤ a → a + env.presenceTimeout / 2 ≤ c.now →
    ∃ h, (i, h) ∈ c.heard ∧ a ≤ h ∧ h ≤ a + env.presenceTimeout / 2

namespace Sample

/-- The answer to the server's ping. -/
def pong : Frame := .json (.obj [("event", .str "pong"), ("data", .obj [])])

/-- After 25 seconds, the session answers a ping. -/
def answers : List ClockedLabel := .wait 25000000 :: (System.handles 0 pong 2).map .step

/-- A user connects for the first time. -/
def connectsOnce (c : Clocked) : ClockedLabel → Bool
  | .step (.connect _ _ _) => c.system.tasks.isEmpty
  | _ => true

theorem connectsOnce_iff (c : Clocked) (l : ClockedLabel) (h : connectsOnce c l = true) :
    OneSession c l := by
  cases l with
  | wait time => trivial
  | step l =>
    cases l with
    | connect srv u name =>
      intro i ses hi
      have hempty : c.system.tasks = [] := List.isEmpty_iff.mp h
      rw [hempty] at hi
      cases hi
    | _ => trivial

/-- Two answers, 25 seconds apart, are enough for a minute. -/
theorem heard_answers {start a : Nat} (hle : start ≤ a) (hend : a + 30000000 ≤ start + 60000000) :
    ∃ h, ((0 : TaskId), h) ∈ [((0 : TaskId), start + 50000000), (0, start + 25000000), (0, start)] ∧
      a ≤ h ∧ h ≤ a + 30000000 := by
  by_cases hearly : a ≤ start + 25000000
  · exact ⟨start + 25000000, by simp, hearly, by omega⟩
  · exact ⟨start + 50000000, by simp, by omega, by omega⟩

end Sample

set_option maxRecDepth 20000 in
open Clocked.Sample in
/-- 25 seconds after the join, the user looks online. -/
theorem looks_online_soon : ∃ c,
    Reach (step .sample) OneSession (.init .sample Env.newYear) c ∧
      PresenceService.Lists .sample c.system.world c.now (.str room) user ∧
      PresenceService.SeesOnline .sample c.system.world c.now (.str room) user := by
  have hrun : ((replayIf (step .sample) connectsOnce (joins ++ answers)
      (.init .sample Env.newYear)).any fun c =>
        inRoom 0 Env.newYear c && c.now = Env.newYear + 25000000) = true := by
    decide +kernel
  obtain ⟨c, hs, hc⟩ := (Option.any_eq_true _ _).mp hrun
  obtain ⟨hroom, hnow⟩ := (Bool.and_eq_true _ _).mp hc
  obtain ⟨ses, hi, huser, hlive, hjoined⟩ := session_of_inRoom hroom
  have hr := Reach.of_replayIf connectsOnce_iff .init hs
  have honline := (looks_online_iff hr hi hlive hjoined).mpr
    (by rw [of_decide_eq_true hnow]; decide)
  exact ⟨c, hr, huser ▸ honline⟩

set_option maxRecDepth 20000 in
open Clocked.Sample in
/-- **A session that answers every ping looks offline after a minute.** -/
theorem not_looks_online : ¬∀ (env : Env) (t : Tables) (start : Time) (c : Clocked)
    (i : TaskId) (ses : Session) (r : RoomId) (joined : Time),
    Reach (step env) OneSession (.init t start) c → c.system.tasks[i]? = some (.session ses) →
    ses.phase.Live → c.online.get? (i, PresenceService.key env (.str r)) = some joined →
    HeardOften env c i joined →
    PresenceService.Lists env c.system.world c.now (.str r) ses.userId ∧
      PresenceService.SeesOnline env c.system.world c.now (.str r) ses.userId := by
  intro hall
  have hrun : ((replayIf (step .sample) connectsOnce
      (joins ++ answers ++ answers ++ [.wait 10000000]) (.init .sample Env.newYear)).any fun c =>
        inRoom 0 Env.newYear c && (c.now = Env.newYear + 60000000 &&
          (c.score key user = some Env.newYear &&
            c.heard = [(0, Env.newYear + 50000000), (0, Env.newYear + 25000000),
              (0, Env.newYear)]))) = true := by
    decide +kernel
  obtain ⟨c, hs, hc⟩ := (Option.any_eq_true _ _).mp hrun
  obtain ⟨hroom, hc⟩ := (Bool.and_eq_true _ _).mp hc
  obtain ⟨hnow, hc⟩ := (Bool.and_eq_true _ _).mp hc
  obtain ⟨hscore, hheard⟩ := (Bool.and_eq_true _ _).mp hc
  have hnow : c.now = Env.newYear + 60000000 := of_decide_eq_true hnow
  have hheard : c.heard = _ := of_decide_eq_true hheard
  obtain ⟨ses, hi, huser, hlive, hjoined⟩ := session_of_inRoom hroom
  have hoften : HeardOften .sample c 0 Env.newYear := by
    intro a hle hend
    rw [hnow] at hend
    rw [hheard]
    exact heard_answers hle hend
  obtain ⟨hlists, -⟩ := hall _ _ _ c 0 ses room _ (.of_replayIf connectsOnce_iff .init hs) hi hlive
    hjoined hoften
  rw [PresenceService.lists_iff, huser] at hlists
  obtain ⟨s, hs, hfresh⟩ := hlists
  have hentry : c.system.world.redis.score key user = some Env.newYear := of_decide_eq_true hscore
  rw [show PresenceService.key .sample (.str room) = key from rfl, hentry] at hs
  cases hs
  rw [hnow] at hfresh
  exact absurd hfresh (by decide)

end Clocked

end NexusChat
