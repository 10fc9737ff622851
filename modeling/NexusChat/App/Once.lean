import NexusChat.App.Sending
import NexusChat.App.Authorship
import NexusChat.Client.Opening

/-!
# Nothing is sent twice

A publish that is not answered is tried again, and a message that comes again with its key is sent
again. Where neither happens to a message, it is sent once: the only task that may send it is the
one that has stored it, and that task's duty ends with the publish. So no two entries of the log
are this message's, in any run (`System.sent_once`).
-/

set_option autoImplicit false

namespace NexusChat

/-- A publish of this message that is not answered has not been carried out, and once it is stored
nobody looks for its key. -/
def System.Sparing (env : Env) (m : MessageRow) (s : System) : Label → Prop
  | .run i x => ∀ t, s.tasks[i]? = some t →
      (∀ channel message, t.head? = some (.publish channel message) → m.NamedBy env message →
        x.ok = false → x.executed = false) ∧
      ∀ k, t.head? = some (.db (.selectMessageByKey (.str k))) → m.idempotencyKey = some k →
        m ∉ s.world.db.committed.messages
  | _ => True

/-! ## What an operation does to the log -/

section Operations

variable {env : Env} {srv : ServerId} {me : TaskId} {x : Choice} {w w' : World} {op : Op}
  {r : Except Exn op.Resp} {h h' : Duty} {m : MessageRow}

theorem MessageRow.NamedBy.id_eq {m' : MessageRow} {message : Json}
    (huuid : ∀ u, env.uuid (env.uuidStr u) = some u) (hm : m.NamedBy env message)
    (hm' : m'.NamedBy env message) : m'.id = m.id := by
  obtain ⟨_, _, _, _, _, _, rfl⟩ := hm
  obtain ⟨_, _, _, _, _, _, he⟩ := hm'
  have hdata := congrArg WSOutboundMessage.data (envelope_inj.mp he).2
  simp only [WSOutboundMessage.chatMessage, List.cons.injEq, Prod.mk.injEq, Json.str.injEq] at hdata
  have hid := congrArg env.uuid hdata.1.2
  rw [huuid, huuid] at hid
  exact (Option.some.inj hid).symm

/-- Two stored messages that one payload names are one message. -/
theorem MessageRow.NamedBy.eq {m' : MessageRow} {message : Json} {t : Tables}
    (huuid : ∀ u, env.uuid (env.uuidStr u) = some u) (hm : m.NamedBy env message)
    (hm' : m'.NamedBy env message) (hmem : m ∈ t.messages) (hmem' : m' ∈ t.messages) : m' = m :=
  t.messages.eq_of_key hmem' hmem (hm.id_eq huuid hm')

/-- The message of a payload that is published is owed, and is not any more when the publish is
answered, or it has been found by its key. -/
theorem Duty.Moves.published (hm : Duty.Moves env h op r h')
    (hx : op.exec env srv me x w = some (r, w')) :
    w'.redis.published = w.redis.published ∨
    ∃ e : Channel × Json, op = .publish e.1 e.2 ∧ (x.ok = false → x.executed = true) ∧
      w'.redis.published = w.redis.published ++ [e] ∧ ∀ m : MessageRow, m.NamedBy env e.2 →
        ∃ m' : MessageRow, m'.NamedBy env e.2 ∧
          (h = .owed m' ∧ (x.ok = true → h' = .nothing) ∨ h = .found m') := by
  cases op with
  | publish channel message =>
    simp only [Op.exec, Option.some.injEq, Prod.mk.injEq] at hx
    obtain ⟨hr, rfl⟩ := hx
    split
    · rename_i hdone
      refine .inr ⟨(channel, message), rfl, fun hok => ?_, rfl, fun m hnamed => ?_⟩
      · simpa [hok] using hdone
      · cases hm with
        | keeping hop =>
          obtain ⟨_, _, _, _, _, _, he⟩ := hnamed
          exact absurd he (hop _)
        | lets hop _ =>
          obtain ⟨_, _, _, _, _, _, he⟩ := hnamed
          exact absurd he (hop _)
        | sends hsent => exact ⟨_, hsent.named, .inl ⟨rfl, fun _ => rfl⟩⟩
        | missed hsent =>
          refine ⟨_, hsent.named, .inl ⟨rfl, fun hok => ?_⟩⟩
          rw [hok] at hr
          cases hr
        | resends hsent _ => exact ⟨_, hsent, .inr rfl⟩
    · exact .inl rfl
  | _ =>
    rcases Op.exec_published hx with he | ⟨_, _, he, -⟩
    · exact .inl he
    · cases he

/-- What a task is to send has been flushed by its transaction. -/
theorem Duty.Moves.flushed_of (hm : Duty.Moves env h op r (.flushed m))
    (hx : op.exec env srv me x w = some (r, w'))
    (hold : ∀ m, h = .flushed m → .addMessage m ∈ w.db.flushed me) :
    .addMessage m ∈ w'.db.flushed me := by
  cases hm with
  | stores =>
    obtain ⟨d, ho, rfl⟩ := Op.exec_dbOp hx
    obtain ⟨-, rfl⟩ := DbOp.exec_insertMessage_ok ho
    rw [Database.flushed_flush_self]
    exact List.mem_append_right _ (List.mem_singleton_self _)
  | refresh =>
    obtain ⟨d, ho, rfl⟩ := Op.exec_dbOp hx
    rw [(DbOp.exec_eq_some ho).2]
    exact hold m rfl
  | lets _ hh =>
    rcases hh with hh | hh <;> cases hh
  | resends _ hh =>
    rcases hh with hh | hh <;> cases hh

theorem mem_messages_world (hx : op.exec env srv me x w = some (r, w'))
    (hm : m ∈ w.db.committed.messages) : m ∈ w'.db.committed.messages := by
  rcases Op.exec_db hx with he | ⟨o, r', -, ho⟩
  · rwa [he]
  · exact DbOp.mem_messages_exec ho hm

/-- What a task owes or has found is committed. -/
theorem Duty.Moves.committed (hm : Duty.Moves env h op r h')
    (hx : op.exec env srv me x w = some (r, w')) (hdistinct : w.db.Distinct)
    (hflushed : ∀ m, .addMessage m ∈ w.db.flushed me ↔ h = .flushed m)
    (hold : ∀ m, h = .owed m ∨ h = .found m → m ∈ w.db.committed.messages)
    (hmem : h' = .owed m ∨ h' = .found m) : m ∈ w'.db.committed.messages := by
  cases hm with
  | commits =>
    obtain ⟨d, ho, rfl⟩ := Op.exec_dbOp hx
    rw [DbOp.exec_commit_ok ho]
    rcases hmem with hmem | hmem <;> cases hmem
    exact hdistinct.mem_view ((hflushed _).mpr rfl)
  | finds =>
    obtain ⟨d, ho, rfl⟩ := Op.exec_dbOp hx
    obtain ⟨-, -, hview, -, rfl⟩ := DbOp.exec_selectMessageByKey_ok ho
    rcases hmem with hmem | hmem <;> cases hmem
    rcases Tables.mem_messages_of_foldl hview with hview | hview
    · exact hview
    · cases (hflushed _).mp hview
  | closes | missed | sleeps | time => exact mem_messages_world hx (hold m hmem)
  | lets _ hh | resends _ hh =>
    rcases hh with rfl | rfl
    · exact mem_messages_world hx (hold m hmem)
    · rcases hmem with hmem | hmem <;> cases hmem
  | keeping _ | stores | refused | refresh | fails | rollsBack | sends _ | setsAside _ =>
    rcases hmem with hmem | hmem <;> cases hmem

/-- A task owes from its commit on. -/
theorem Duty.Moves.of_owed (hm : Duty.Moves env h op r (.owed m)) :
    h = .owed m ∨ h = .flushed m ∧ op = .db .commit := by
  cases hm with
  | commits => exact .inr ⟨rfl, rfl⟩
  | closes | missed _ | sleeps | time => exact .inl rfl
  | lets _ hh | resends _ hh =>
    rcases hh with hh | hh <;> cases hh

/-- What has been found has been looked for. -/
theorem Duty.Moves.of_found (hm : Duty.Moves env h op r (.found m)) :
    h = .found m ∨
      ∃ k, op = .db (.selectMessageByKey (.str k)) ∧ m.idempotencyKey = some k := by
  cases hm with
  | finds hkey => exact .inr ⟨_, rfl, hkey⟩
  | lets _ hh | resends _ hh =>
    rcases hh with hh | hh
    · cases hh
      exact .inl rfl
    · cases hh

end Operations

/-! ## Runs -/

/-- Of any two entries of the log at most one is the message's. -/
def MessageRow.Once (env : Env) (m : MessageRow) (published : List (Channel × Json)) : Prop :=
  published.Pairwise fun e e' => m.NamedBy env e.2 → ¬m.NamedBy env e'.2

theorem MessageRow.once_of_none {env : Env} {m : MessageRow} {published : List (Channel × Json)}
    (h : ∀ e ∈ published, ¬m.NamedBy env e.2) : m.Once env published :=
  List.pairwise_of_forall_mem_list fun e he _ _ hnamed => absurd hnamed (h e he)

theorem MessageRow.Once.append {env : Env} {m : MessageRow} {published : List (Channel × Json)}
    {e : Channel × Json} (h : m.Once env published)
    (he : m.NamedBy env e.2 → ∀ e' ∈ published, ¬m.NamedBy env e'.2) :
    m.Once env (published ++ [e]) := by
  refine List.pairwise_append.mpr ⟨h, List.pairwise_singleton _ _, fun a ha b hb hnamed hb' => ?_⟩
  obtain rfl := List.mem_singleton.mp hb
  exact he hb' a ha hnamed

/-- What a transaction has flushed is in its task's hand, and what a task owes or has found is
committed. -/
structure Tracked (env : Env) (place : TaskId → Duty) (s : System) : Prop
    extends (sending env).Placed place s where
  distinct : s.world.db.Distinct
  flushed : ∀ i m, .addMessage m ∈ s.world.db.flushed i ↔ place i = .flushed m
  committed : ∀ i m, place i = .owed m ∨ place i = .found m → m ∈ s.world.db.committed.messages

/-- While the message is owed nothing of it is in the log, only one task owes it, and nobody has
found it by its key. -/
structure Unrepeated (env : Env) (m : MessageRow) (place : TaskId → Duty) (s : System) : Prop
    extends Tracked env place s where
  backed : ∀ e ∈ s.world.redis.published, m.NamedBy env e.2 →
    ∃ m' ∈ s.world.db.committed.messages, m'.id = m.id
  unsent : ∀ i, place i = .owed m → ∀ e ∈ s.world.redis.published, ¬m.NamedBy env e.2
  alone : ∀ i j, place i = .owed m → place j = .owed m → i = j
  unfound : ∀ i, place i ≠ .found m
  once : m ∈ s.world.db.committed.messages → m.Once env s.world.redis.published

section Runs

variable {env : Env} {ts : Tables} {s s' : System} {place : TaskId → Duty} {l : Label}
  {m : MessageRow}

theorem unrepeated_init : Unrepeated env m (fun _ => .nothing) (.init ts) where
  toPlaced := Protocol.placed_init
  distinct := Database.distinct_init
  flushed _ _ := ⟨fun h => (by cases h), fun h => (by cases h)⟩
  committed _ _ h := by rcases h with h | h <;> cases h
  backed _ he := by cases he
  unsent _ h := by cases h
  alone _ _ h := by cases h
  unfound _ h := by cases h
  once _ := List.Pairwise.nil

theorem unrepeated_env (h : Unrepeated env m place s) (hl : ∀ i x, l ≠ .run i x)
    (hs : s.step env l = some s') : Unrepeated env m place s' := by
  obtain ⟨hdb, hredis⟩ := System.stores_env hl hs
  refine ⟨⟨h.toPlaced.background sending_starts hl hs, ?_, ?_, ?_⟩, ?_, ?_, h.alone, h.unfound, ?_⟩
  · exact hdb ▸ h.distinct
  · exact hdb ▸ h.flushed
  · exact hdb ▸ h.committed
  · exact hdb ▸ hredis ▸ h.backed
  · exact hredis ▸ h.unsent
  · exact hdb ▸ hredis ▸ h.once

/-- A message that a transaction has flushed is not committed, nor sent. -/
theorem Unrepeated.fresh (h : Unrepeated env m place s) {i : TaskId} (hi : place i = .flushed m) :
    m ∉ s.world.db.committed.messages ∧
      ∀ e ∈ s.world.redis.published, ¬m.NamedBy env e.2 := by
  have hnew := h.distinct.committed i m (Database.mem_flushed.mp ((h.flushed i m).mpr hi))
  refine ⟨fun hm => hnew m hm rfl, fun e he hnamed => ?_⟩
  obtain ⟨m', hm', hid⟩ := h.backed e he hnamed
  exact hnew m' hm' hid

section Operation

variable {srv : ServerId} {i : TaskId} {x : Choice} {op : Op} {r : Except Exn op.Resp} {h' : Duty}

theorem Tracked.run (h : Tracked env place s)
    (hplaced : (sending env).Placed (Function.update place i h') s')
    (hx : op.exec env srv i x s.world = some (r, s'.world))
    (hmove : Duty.Moves env (place i) op r h') :
    Tracked env (Function.update place i h') s' := by
  refine ⟨hplaced, ?_, fun j m => ?_, fun j m hj => ?_⟩
  · rcases Op.exec_db hx with he | ⟨o, r', -, ho⟩
    · exact he ▸ h.distinct
    · exact h.distinct.exec ho
  · by_cases hji : j = i
    · subst hji
      rw [Function.update_self]
      refine ⟨hmove.flushed hx (fun m hm => (h.flushed j m).mp hm) m, ?_⟩
      rintro rfl
      exact hmove.flushed_of hx fun m hm => (h.flushed j m).mpr hm
    · rw [Function.update_of_ne hji, ← h.flushed]
      rcases Op.exec_db hx with he | ⟨o, r', -, ho⟩
      · rw [he]
      · rw [DbOp.flushed_exec ho hji]
  · by_cases hji : j = i
    · subst hji
      rw [Function.update_self] at hj
      exact hmove.committed hx h.distinct (h.flushed j) (h.committed j) hj
    · rw [Function.update_of_ne hji] at hj
      exact mem_messages_world hx (h.committed j m hj)

/-- What is sent for a message is sent for one that is committed, and the message itself is sent by
a task that owes it, which settles the duty. -/
theorem Unrepeated.sends (huuid : ∀ u, env.uuid (env.uuidStr u) = some u)
    (h : Unrepeated env m place s) (hx : op.exec env srv i x s.world = some (r, s'.world))
    (hmove : Duty.Moves env (place i) op r h')
    (hanswered : ∀ channel message, op = .publish channel message → m.NamedBy env message →
      x.ok = false → x.executed = false) :
    s'.world.redis.published = s.world.redis.published ∨ ∃ e : Channel × Json,
      s'.world.redis.published = s.world.redis.published ++ [e] ∧
      (m.NamedBy env e.2 → ∃ m' ∈ s.world.db.committed.messages, m'.id = m.id) ∧
      (m ∈ s.world.db.committed.messages → m.NamedBy env e.2 →
        place i = .owed m ∧ h' = .nothing) := by
  rcases hmove.published hx with he | ⟨e, hop, hdone, he, hnames⟩
  · exact .inl he
  · refine .inr ⟨e, he, fun hnamed => ?_, fun hm hnamed => ?_⟩
    · obtain ⟨m', hnamed', hi⟩ := hnames m hnamed
      exact ⟨m', h.committed i m' (hi.imp_left And.left), hnamed.id_eq huuid hnamed'⟩
    · obtain ⟨m', hnamed', hi⟩ := hnames m hnamed
      obtain rfl := hnamed.eq huuid hnamed' hm (h.committed i m' (hi.imp_left And.left))
      obtain ⟨howed, hsettled⟩ := hi.resolve_right (h.unfound i)
      refine ⟨howed, hsettled ?_⟩
      cases hok : x.ok with
      | true => rfl
      | false =>
        have hnot := hanswered e.1 e.2 hop hnamed hok
        rw [hdone hok] at hnot
        cases hnot

/-- Who owes the message now did so before, or has flushed it and commits. -/
theorem Unrepeated.owing (hmove : Duty.Moves env (place i) op r h') {j : TaskId}
    (hj : Function.update place i h' j = .owed m) :
    place j = .owed m ∨ j = i ∧ place i = .flushed m ∧ op = .db .commit := by
  by_cases hji : j = i
  · subst hji
    rw [Function.update_self] at hj
    subst hj
    rcases hmove.of_owed with hold | hnew
    · exact .inl hold
    · exact .inr ⟨rfl, hnew⟩
  · rw [Function.update_of_ne hji] at hj
    exact .inl hj

end Operation

/-- **One operation of a task.** -/
theorem unrepeated_run (huuid : ∀ u, env.uuid (env.uuidStr u) = some u)
    (h : Unrepeated env m place s) {i : TaskId} {x : Choice} (hc : s.Sparing env m (.run i x))
    (hs : s.step env (.run i x) = some s') :
    ∃ h', Unrepeated env m (Function.update place i h') s' := by
  obtain ⟨t, t', op, r, h', hi, -, -, hhead, hx, hmove, hplaced⟩ :=
    h.toPlaced.run sending_starts hs fun _ _ _ _ _ hx => replied_exec hx
  obtain ⟨hanswered, hsought⟩ := hc t hi
  have hmono : ∀ {m' : MessageRow}, m' ∈ s.world.db.committed.messages →
      m' ∈ s'.world.db.committed.messages := fun hm => mem_messages_world hx hm
  have hsends := h.sends huuid hx hmove fun channel message he =>
    hanswered channel message (he ▸ hhead)
  have hquiet : ∀ {o : DbOp}, op = .db o →
      s'.world.redis.published = s.world.redis.published := by
    rintro o rfl
    obtain ⟨d, -, he⟩ := Op.exec_dbOp hx
    rw [he]
  refine ⟨h', h.toTracked.run hplaced hx hmove, fun e he hnamed => ?_, fun j hj e he hnamed => ?_,
    fun j k hj hk => ?_, fun j hj => ?_, fun hm => ?_⟩
  · have hold : e ∈ s.world.redis.published →
        ∃ m' ∈ s'.world.db.committed.messages, m'.id = m.id := fun he =>
      (h.backed e he hnamed).imp fun _ hm => ⟨hmono hm.1, hm.2⟩
    rcases hsends with hp | ⟨e', hp, hbacked, -⟩
    · exact hold (hp ▸ he)
    · rw [hp] at he
      rcases List.mem_append.mp he with he | he
      · exact hold he
      · obtain rfl := List.mem_singleton.mp he
        exact (hbacked hnamed).imp fun _ hm => ⟨hmono hm.1, hm.2⟩
  · rcases Unrepeated.owing hmove hj with hold | ⟨-, hflushed, hop⟩
    · rcases hsends with hp | ⟨e', hp, -, hsent⟩
      · exact h.unsent j hold e (hp ▸ he) hnamed
      · rw [hp] at he
        rcases List.mem_append.mp he with he | he
        · exact h.unsent j hold e he hnamed
        · -- whoever sends the message owes it no more
          obtain rfl := List.mem_singleton.mp he
          obtain ⟨howed, hdone⟩ := hsent (h.committed j m (.inl hold)) hnamed
          obtain rfl := h.alone i j howed hold
          rw [Function.update_self, hdone] at hj
          cases hj
    · exact (h.fresh hflushed).2 e (hquiet hop ▸ he) hnamed
  · rcases Unrepeated.owing hmove hj with hj | ⟨rfl, hflushed, -⟩
    · rcases Unrepeated.owing hmove hk with hk | ⟨-, hflushed, -⟩
      · exact h.alone j k hj hk
      · exact absurd (h.committed j m (.inl hj)) (h.fresh hflushed).1
    · rcases Unrepeated.owing hmove hk with hk | ⟨rfl, -, -⟩
      · exact absurd (h.committed k m (.inl hk)) (h.fresh hflushed).1
      · rfl
  · by_cases hji : j = i
    · subst hji
      rw [Function.update_self] at hj
      have hm := hmove.committed hx h.distinct (h.flushed j) (h.committed j) (.inr hj)
      subst hj
      rcases hmove.of_found with hold | ⟨k, rfl, hkey⟩
      · exact h.unfound j hold
      · obtain ⟨d, ho, he⟩ := Op.exec_dbOp hx
        rw [he, (DbOp.exec_eq_some ho).2] at hm
        exact hsought k hhead hkey hm
    · rw [Function.update_of_ne hji] at hj
      exact h.unfound j hj
  · by_cases hold : m ∈ s.world.db.committed.messages
    · rcases hsends with hp | ⟨e, hp, -, hsent⟩
      · rw [hp]
        exact h.once hold
      · rw [hp]
        exact (h.once hold).append fun hnamed => h.unsent i (hsent hold hnamed).1
    · -- the message has just been committed
      rcases Op.exec_db hx with he | ⟨o, r', hop, ho⟩
      · exact absurd (he ▸ hm) hold
      · have hflushed := (DbOp.mem_messages_of_exec ho hm).resolve_left hold
        rw [hquiet hop]
        exact MessageRow.once_of_none (h.fresh ((h.flushed i m).mp hflushed)).2

theorem unrepeated_reach (huuid : ∀ u, env.uuid (env.uuidStr u) = some u)
    (hr : Reach (System.step env) (System.Sparing env m) (.init ts) s) :
    ∃ place, Unrepeated env m place s := by
  induction hr with
  | init => exact ⟨_, unrepeated_init⟩
  | tail hbefore hc hs ih =>
    rename_i s₁ s₂ l
    obtain ⟨place, h⟩ := ih
    by_cases hl : ∃ i x, l = .run i x
    · obtain ⟨i, x, rfl⟩ := hl
      obtain ⟨h', hnext⟩ := unrepeated_run huuid h hc hs
      exact ⟨_, hnext⟩
    · exact ⟨place, unrepeated_env h (fun i x he => hl ⟨i, x, he⟩) hs⟩

end Runs

/-- **Nothing is sent twice**: in every run in which no publish of a message is carried out without
being answered and nobody looks for the key of the message once it is stored, at most one entry of
the log is the message's, on whatever channel. -/
theorem System.sent_once {env : Env} (huuid : ∀ u, env.uuid (env.uuidStr u) = some u) {ts : Tables}
    {m : MessageRow} {s : System}
    (hr : Reach (System.step env) (System.Sparing env m) (.init ts) s)
    (hm : m ∈ s.world.db.committed.messages) :
    s.world.redis.published.Pairwise fun e e' => m.NamedBy env e.2 → ¬m.NamedBy env e'.2 := by
  obtain ⟨place, h⟩ := unrepeated_reach huuid hr
  exact h.once hm

/-- `System.Sparing`, as a test that is on the safe side: nobody looks for any key. -/
def System.isSparing (s : System) : Label → Bool
  | .run i x =>
    match s.tasks[i]?.bind Task.head? with
    | some (.publish _ _) => x.ok || !x.executed
    | some (.db (.selectMessageByKey _)) => false
    | _ => true
  | _ => true

theorem System.sparing_of_test {env : Env} {m : MessageRow} {s : System} {l : Label}
    (h : s.isSparing l = true) : s.Sparing env m l := by
  cases l with
  | run i x =>
    intro t hi
    simp only [System.isSparing, hi, Option.bind_some] at h
    constructor
    · intro channel message hhead _ hok
      simpa [hhead, hok] using h
    · intro k hhead
      simp [hhead] at h
  | _ => trivial

/-- Two messages are stored. The first is published at the second attempt. -/
def System.sentAgain : List Label :=
  System.enters 0 0 ++ System.handles 0 (System.about "message" [("content", .str "hi")]) 5 1 ++
    [System.refuses] ++ System.goes 0 2 1 ++
      System.handles 0 (System.about "message" [("content", .str "ho")]) 6 2

theorem System.sent_once_again : ∃ s m, Reach (System.step Opening.Sample.env)
      (System.Sparing Opening.Sample.env m) (.init .sample) s ∧
    m ∈ s.world.db.committed.messages ∧ s.world.redis.published.length = 2 ∧
    s.world.redis.published.Pairwise fun e e' =>
      m.NamedBy Opening.Sample.env e.2 → ¬m.NamedBy Opening.Sample.env e'.2 := by
  have hrun : ((replayIf (System.step Opening.Sample.env) System.isSparing System.sentAgain
      (.init .sample)).any fun s => decide (s.world.redis.published.length = 2) &&
        !s.world.db.committed.messages.rows.isEmpty) = true := by
    decide +kernel
  obtain ⟨s, hs, hw⟩ := (Option.any_eq_true _ _).mp hrun
  obtain ⟨hpublished, hstored⟩ := Bool.and_eq_true_iff.mp hw
  cases hrows : s.world.db.committed.messages.rows with
  | nil => simp [hrows] at hstored
  | cons m rest =>
    have hm : m ∈ s.world.db.committed.messages := by
      rw [Table.mem_def, hrows]
      exact List.mem_cons_self ..
    have hr : Reach (System.step Opening.Sample.env) (System.Sparing Opening.Sample.env m)
        (.init .sample) s := .of_replayIf (fun _ _ => System.sparing_of_test) .init hs
    exact ⟨s, m, hr, hm, of_decide_eq_true hpublished,
      System.sent_once Opening.Sample.uuid_uuidStr hr hm⟩

/-! ## On the sockets -/

/-- The payload has come over a channel and names the message. -/
def Delivery.Names (env : Env) (m : MessageRow) (d : Delivery) : Prop :=
  d.source.isSome ∧ m.NamedBy env (envelope "chat" d.message)

section Sockets

variable {env : Env} {ts : Tables} {s : System} {srv : ServerId} {c : ConnId} {d : Delivery}
  {m : MessageRow}

/-- What names a message was published as a chat message. -/
theorem log_of_names (hr : Reach (System.step env) Always (.init ts) s)
    (hd : d ∈ ((s.world.servers srv).manager.heap c).passed) (hm : d.Names env m) :
    ∃ channel n, d.source = some (channel, n) ∧
      (s.world.redis.log channel)[n]? = some (envelope "chat" d.message) := by
  obtain ⟨hsome, _, _, _, _, _, _, hpayload⟩ := hm
  obtain ⟨⟨channel, n⟩, hsource⟩ := Option.isSome_iff_exists.mp hsome
  obtain ⟨-, -, u, username, kind, -, -, hlog, hsaid⟩ := said_of_passed hr hd hsource
  have hevent : d.message.event = "message" :=
    congrArg WSOutboundMessage.event (envelope_inj.mp hpayload).2
  have hkind : kind = "chat" := by
    generalize d.message = payload at hsaid hevent
    cases hsaid with
    | chat => rfl
    | presence _ => exact absurd hevent (by simp [WSOutboundMessage.presenceUpdate])
    | typing => exact absurd hevent (by simp [WSOutboundMessage.typingIndicator])
  exact ⟨channel, n, hsource, hkind ▸ hlog⟩

/-- At most one position of at most one channel is the message's. -/
theorem MessageRow.Once.position_eq {r : Redis} (h : m.Once env r.published)
    {channel channel' : Channel} {n n' : Nat} {message message' : Json}
    (hlog : (r.log channel)[n]? = some message) (hlog' : (r.log channel')[n']? = some message')
    (hm : m.NamedBy env message) (hm' : m.NamedBy env message') :
    channel = channel' ∧ n = n' := by
  have hsymm : Std.Symm fun e e' : Channel × Json => m.NamedBy env e.2 → ¬m.NamedBy env e'.2 :=
    ⟨fun e e' hne he' he => hne he he'⟩
  by_cases hchannel : channel = channel'
  · subst hchannel
    refine ⟨rfl, ?_⟩
    have hpair : (r.log channel).Pairwise fun e e' => m.NamedBy env e → ¬m.NamedBy env e' :=
      List.pairwise_map.mpr (h.sublist List.filter_sublist)
    obtain ⟨hn, rfl⟩ := List.getElem?_eq_some_iff.mp hlog
    obtain ⟨hn', rfl⟩ := List.getElem?_eq_some_iff.mp hlog'
    rcases Nat.lt_trichotomy n n' with hlt | heq | hlt
    · exact absurd hm' (List.pairwise_iff_getElem.mp hpair n n' hn hn' hlt hm)
    · exact heq
    · exact absurd hm (List.pairwise_iff_getElem.mp hpair n' n hn' hn hlt hm')
  · have hne : (channel, message) ≠ (channel', message') :=
      fun he => hchannel (congrArg Prod.fst he)
    exact absurd hm' (h.forall (mem_published hlog) (mem_published hlog') hne hm)

/-- **Nothing is delivered twice**: in such a run no connection, on whatever instance, is handed two
payloads of one message through the channels. -/
theorem System.delivered_once (huuid : ∀ u, env.uuid (env.uuidStr u) = some u)
    (hr : Reach (System.step env) (System.Sparing env m) (.init ts) s)
    (hm : m ∈ s.world.db.committed.messages) (srv : ServerId) (c : ConnId) :
    ((s.world.servers srv).manager.heap c).passed.Pairwise fun d d' =>
      d.Names env m → ¬d'.Names env m := by
  obtain ⟨place, h⟩ := unrepeated_reach huuid hr
  have halways : Reach (System.step env) Always (.init ts) s := hr.mono fun _ _ _ => trivial
  have horder := inOrder_reach halways srv
  refine List.pairwise_iff_getElem.mpr fun i j hi hj hij hnames hnames' => ?_
  obtain ⟨channel, n, hsource, hlog⟩ := log_of_names halways (List.getElem_mem hi) hnames
  obtain ⟨channel', n', hsource', hlog'⟩ := log_of_names halways (List.getElem_mem hj) hnames'
  obtain ⟨rfl, rfl⟩ := (h.once hm).position_eq hlog hlog' hnames.2 hnames'.2
  -- the positions on the channel increase
  have hpositions : (positions channel ((s.world.servers srv).manager.heap c).passed).Pairwise
      (· < ·) := (horder.order c channel).sublist (List.sublist_append_left ..)
  have hlt := List.pairwise_iff_getElem.mp (List.pairwise_filterMap.mp hpositions) i j hi hj hij n
    (Delivery.position_eq_some.mpr hsource) n (Delivery.position_eq_some.mpr hsource')
  exact Nat.lt_irrefl n hlt

end Sockets

set_option maxRecDepth 20000 in
/-- User 1 is on two instances, and both connections are handed his message, each once. -/
theorem System.delivered_once_shared : ∃ s m, Reach (System.step Opening.Sample.env)
      (System.Sparing Opening.Sample.env m) (.init .sample) s ∧
    m ∈ s.world.db.committed.messages ∧ s.writes 0 0 System.roomThree = [0, 1, 2] ∧
    s.writes 1 0 System.roomThree = [1, 2] ∧
    ((s.world.servers 1).manager.heap 0).passed.Pairwise fun d d' =>
      d.Names Opening.Sample.env m → ¬d'.Names Opening.Sample.env m := by
  have hrun : ((replayIf (System.step Opening.Sample.env) System.isSparing System.twoInstances
      (.init .sample)).any fun s => decide (s.writes 0 0 System.roomThree = [0, 1, 2]) &&
        decide (s.writes 1 0 System.roomThree = [1, 2]) &&
        !s.world.db.committed.messages.rows.isEmpty) = true := by
    decide +kernel
  obtain ⟨s, hs, hw⟩ := (Option.any_eq_true _ _).mp hrun
  obtain ⟨hw, hstored⟩ := Bool.and_eq_true_iff.mp hw
  simp only [Bool.and_eq_true, decide_eq_true_eq] at hw
  cases hrows : s.world.db.committed.messages.rows with
  | nil => simp [hrows] at hstored
  | cons m rest =>
    have hm : m ∈ s.world.db.committed.messages := by
      rw [Table.mem_def, hrows]
      exact List.mem_cons_self ..
    have hr : Reach (System.step Opening.Sample.env) (System.Sparing Opening.Sample.env m)
        (.init .sample) s := .of_replayIf (fun _ _ => System.sparing_of_test) .init hs
    exact ⟨s, m, hr, hm, hw.1, hw.2,
      System.delivered_once Opening.Sample.uuid_uuidStr hr hm 1 0⟩

end NexusChat
