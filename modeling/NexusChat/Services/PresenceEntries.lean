import NexusChat.Services.PresenceService
import NexusChat.Lib.SortedSet

/-!
# The entries of the presence sets

A user is in a room's presence set with the time they were last seen as score, or is not in it.
`RedisOp.rescore` is what one command does to one entry; and the two queries, called alone, ask
the same of it: whether it is there and younger than the timeout.
-/

set_option autoImplicit false

namespace NexusChat

/-- The score of a member of a sorted set. -/
def Redis.score (r : Redis) (key member : String) : Option Time := (r.sortedSet key).get? member

namespace RedisOp

variable (key member : String)

/-- What a command does to the score of one member of one set. -/
def rescore (score : Option Time) : RedisOp → Option Time
  | .zadd k m s => if key = k ∧ member = m then some s else score
  | .zrem k m => if key = k ∧ member = m then none else score
  | .zremrangebyscore k max =>
    if key = k then score.filter fun s => !decide ((s : Int) ≤ max) else score
  | _ => score

end RedisOp

/-- What an operation does to it. -/
def Op.rescore (key member : String) (executed : Bool) (score : Option Time) : Op → Option Time
  | .redis o => if executed then o.rescore key member score else score
  | _ => score

section Scores

variable {r : Redis} {key k member : String} {members : Dict String Time}

theorem Redis.sortedSet_setSortedSet : (r.setSortedSet k members).sortedSet key =
    if key = k then members else r.sortedSet key := by
  rw [sortedSet, setSortedSet, Dict.get?_set]
  split <;> rfl

/-- **One command changes the entries as `rescore` says.** -/
theorem Redis.score_after (op : RedisOp) :
    (r.after op).score key member = op.rescore key member (r.score key member) := by
  cases op with
  | zadd k m s =>
    simp only [score, after, sortedSet_setSortedSet, RedisOp.rescore]
    by_cases hk : key = k
    · subst hk
      simp only [if_true, Dict.get?_set, true_and]
    · simp only [hk, if_false, false_and]
  | zrem k m =>
    simp only [score, after, sortedSet_setSortedSet, RedisOp.rescore]
    by_cases hk : key = k
    · subst hk
      simp only [if_true, Dict.get?_pop, true_and]
    · simp only [hk, if_false, false_and]
  | zremrangebyscore k max =>
    simp only [score, after, sortedSet_setSortedSet, RedisOp.rescore]
    by_cases hk : key = k
    · subst hk
      simp only [if_true, Dict.get?_popWhere]
    · simp only [hk, if_false]
  | _ => rfl

/-- **An operation changes an entry only by a command that Redis executes.** -/
theorem Op.exec_score {env : Env} {srv : ServerId} {me : TaskId} {x : Choice} {w w' : World}
    {op : Op} {a : Except Exn op.Resp} (h : op.exec env srv me x w = some (a, w')) :
    w'.redis.score key member =
      op.rescore key member (x.ok || x.executed) (w.redis.score key member) := by
  cases op with
  | redis o =>
    cases h
    simp only [rescore]
    split
    · exact Redis.score_after o
    · rfl
  | publish channel message =>
    cases h
    split <;> rfl
  | manager o =>
    obtain ⟨⟨r', m⟩, -, heq⟩ := Option.map_eq_some_iff.mp h
    cases heq
    rfl
  | db o =>
    obtain ⟨⟨r', d⟩, -, heq⟩ := Option.map_eq_some_iff.mp h
    cases heq
    rfl
  | broker o =>
    cases h
    rfl
  | sleep => cases h; rfl
  | time => cases h; rfl

end Scores

/-! ## The queries -/

namespace Redis

/-- The entry of a member is there and younger than the timeout. -/
def Fresh (r : Redis) (timeout : Time) (key member : String) (now : Time) : Prop :=
  ∃ s, r.score key member = some s ∧ now < s + timeout

end Redis

namespace PresenceService

/-- What `get_online_users` lists for a user. -/
def listing (r : Redis) (uid : UserId) : Json :=
  .obj [("user_id", .str uid),
    ("username", .str (((r.usernames.get? uid).filter (· ≠ "")).getD "Unknown"))]

section Queries

variable {env : Env} {srv : ServerId} {me : TaskId} {x : Choice} {w : World} {room_id : Json}
  {u : UserId}

theorem run_redisOp (hx : x.ok = true) {α : Type} {op : RedisOp} (f : op.Resp → Prog α) :
    (redisOp op >>= f).run (Op.exec env srv me) x w =
      (f (w.redis.answer op)).run (Op.exec env srv me) x
        { w with redis := w.redis.after op } := by
  refine (Coro.run_perform_bind (S := Op.sig) ..).trans ?_
  simp [Op.exec, hx]

theorem run_withUsernames (hx : x.ok = true) {uids : List UserId} :
    (withUsernames uids).run (Op.exec env srv me) x w =
      some (.ok (uids.map (listing w.redis)), w) := by
  induction uids with
  | nil => rfl
  | cons uid uids ih =>
    rw [withUsernames, run_redisOp hx]
    refine (Coro.run_bind ..).trans ?_
    show Option.bind ((withUsernames uids).run (Op.exec env srv me) x w) _ = _
    rw [ih]
    rfl

/-- The old entries are removed, and the others listed. -/
theorem run_getOnlineUsers (hx : x.ok = true) {cutoff : Int} {r : Redis}
    (hcutoff : cutoff = (x.now : Int) - env.presenceTimeout)
    (hr : r = w.redis.after (.zremrangebyscore (key env room_id) cutoff)) :
    (getOnlineUsers env room_id).run (Op.exec env srv me) x w =
      some (.ok ((r.answer (.zrangebyscore (key env room_id) cutoff)).map (listing r)),
        { w with redis := r }) := by
  subst hcutoff
  subst hr
  refine (Coro.run_perform_bind (S := Op.sig) ..).trans ?_
  refine (run_redisOp hx _).trans ((run_redisOp hx _).trans ?_)
  exact run_withUsernames hx

theorem mem_byScore {members : Dict String Time} {e : String × Time} :
    e ∈ Redis.byScore members ↔ members.get? e.1 = some e.2 := by
  rw [Redis.byScore, (List.perm_insertionSort _ _).mem_iff]
  exact Dict.mem_entries

theorem mem_zrangebyscore {r : Redis} {key : String} {min : Int} :
    u ∈ r.answer (.zrangebyscore key min) ↔ ∃ s, r.score key u = some s ∧ min ≤ (s : Int) := by
  show u ∈ ((Redis.byScore (r.sortedSet key)).filter fun e => min ≤ e.2).map Prod.fst ↔ _
  simp only [List.mem_map, List.mem_filter, mem_byScore, decide_eq_true_eq]
  constructor
  · rintro ⟨⟨u', s⟩, ⟨hs, hmin⟩, rfl⟩
    exact ⟨s, hs, hmin⟩
  · rintro ⟨s, hs, hmin⟩
    exact ⟨(u, s), ⟨hs, hmin⟩, rfl⟩

/-- A range names nobody twice. -/
theorem nodup_zrangebyscore {r : Redis} {key : String} {min : Int} :
    (r.answer (.zrangebyscore key min)).Nodup := by
  have hkeys : ((Redis.byScore (r.sortedSet key)).map Prod.fst).Nodup :=
    ((List.perm_insertionSort _ _).map Prod.fst).nodup_iff.mpr (r.sortedSet key).keys_nodup
  exact hkeys.sublist (List.filter_sublist.map Prod.fst)

end Queries

/-- Everything is answered at once, at a time. -/
def answered (now : Time) : Choice where
  ok := true
  executed := true
  order := []
  now
  uuid := 0
  ties := .stable
  received := fun _ _ => true

/-- `get_online_users(room_id)`, called in the world `w`, lists the user. -/
def Lists (env : Env) (w : World) (now : Time) (room_id : Json) (u : UserId) : Prop :=
  ∃ users w', (getOnlineUsers env room_id).run (Op.exec env 0 0) (answered now) w =
      some (.ok users, w') ∧
    ∃ username, .obj [("user_id", .str u), ("username", .str username)] ∈ users

/-- `is_online(room_id, user_id)`, called in the world `w`, is true. -/
def SeesOnline (env : Env) (w : World) (now : Time) (room_id : Json) (u : UserId) : Prop :=
  ∃ w', (isOnline env room_id u).run (Op.exec env 0 0) (answered now) w = some (.ok true, w')

section Cutoff

variable {score now timeout : Nat}

theorem not_le_cutoff : ¬(score : Int) ≤ (now : Int) - timeout ↔ now < score + timeout := by
  omega

theorem cutoff_le (h : now < score + timeout) : (now : Int) - timeout ≤ (score : Int) := by
  omega

theorem age_lt : (now : Int) - score < (timeout : Int) ↔ now < score + timeout := by
  omega

end Cutoff

section Queries

variable {env : Env} {w : World} {now : Time} {room_id : Json} {u : UserId}

/-- **Whom `get_online_users` lists.** -/
theorem lists_iff : Lists env w now room_id u ↔
    w.redis.Fresh env.presenceTimeout (key env room_id) u now := by
  have hrun := @run_getOnlineUsers env 0 0 (answered now) w room_id rfl _ _ rfl rfl
  have hfresh : u ∈ (w.redis.after (.zremrangebyscore (key env room_id)
      ((now : Int) - env.presenceTimeout))).answer (.zrangebyscore (key env room_id)
        ((now : Int) - env.presenceTimeout)) ↔
      w.redis.Fresh env.presenceTimeout (key env room_id) u now := by
    rw [mem_zrangebyscore, Redis.score_after]
    simp only [RedisOp.rescore, if_true, Option.filter_eq_some_iff]
    constructor
    · rintro ⟨s, ⟨hs, hmax⟩, -⟩
      rw [Bool.not_eq_true', decide_eq_false_iff_not] at hmax
      exact ⟨s, hs, not_le_cutoff.mp hmax⟩
    · rintro ⟨s, hs, hnow⟩
      refine ⟨s, ⟨hs, ?_⟩, cutoff_le hnow⟩
      rw [Bool.not_eq_true', decide_eq_false_iff_not]
      exact not_le_cutoff.mpr hnow
  rw [← hfresh]
  constructor
  · rintro ⟨users, w', hrun', name, hmem⟩
    rw [hrun] at hrun'
    cases hrun'
    obtain ⟨uid, huid, heq⟩ := List.mem_map.mp hmem
    cases heq
    exact huid
  · intro hmem
    exact ⟨_, _, hrun, _, List.mem_map.mpr ⟨u, hmem, rfl⟩⟩

/-- **Of whom `is_online` is true.** -/
theorem seesOnline_iff : SeesOnline env w now room_id u ↔
    w.redis.Fresh env.presenceTimeout (key env room_id) u now := by
  have hrun : (isOnline env room_id u).run (Op.exec env 0 0) (answered now) w =
      some (.ok (match w.redis.score (key env room_id) u with
        | none => false
        | some s => decide ((now : Int) - s < env.presenceTimeout)), w) := by
    refine (run_redisOp rfl _).trans ?_
    cases hscore : w.redis.score (key env room_id) u with
    | none =>
      have hget : (w.redis.sortedSet (key env room_id)).get? u = none := hscore
      simp only [Redis.answer, hget]
      rfl
    | some s =>
      have hget : (w.redis.sortedSet (key env room_id)).get? u = some s := hscore
      simp only [Redis.answer, hget]
      rfl
  rw [SeesOnline, hrun]
  cases hscore : w.redis.score (key env room_id) u with
  | none => simp [Redis.Fresh, hscore]
  | some s =>
    simp [Redis.Fresh, hscore, age_lt]

end Queries

end PresenceService

end NexusChat
