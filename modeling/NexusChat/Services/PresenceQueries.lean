import NexusChat.Services.PresenceEntries
import NexusChat.Lib.Expiry
import NexusChat.Lib.Machine

/-!
# What the presence queries answer

Any sequence of calls of the presence service, each carried out on its own. A user was last seen in
a room by the last `set_online` or `heartbeat`, unless they were taken off since (`lastSeen`); the
entry in the presence set is that time, or is gone because a query has found it too old. So both
queries say who was last seen less than the timeout ago, and nobody can tell that the queries
delete anything.
-/

set_option autoImplicit false

namespace NexusChat

namespace PresenceService

/-- `remove_user_from_all_rooms`; `keys` are what `scan_iter(match="presence:*")` yields. -/
def removeUserFromAllRooms (user_id : UserId) : List String → Prog Unit
  | [] => pure ()
  | key :: keys => do
    redisOp (.zrem key user_id)
    removeUserFromAllRooms user_id keys

/-- The key matches `presence:*`. -/
def Matches (key : String) : Prop := "presence:".toList <+: key.toList

/-- A scan yields keys that match, in any order and some perhaps twice, and every key that has a
member. -/
structure Scanned (r : Redis) (keys : List String) : Prop where
  matching : ∀ k ∈ keys, Matches k
  complete : ∀ k m, Matches k → (r.score k m).isSome = true → k ∈ keys

/-- A call of the service. -/
inductive Call where
  | setOnline (room_id : RoomId) (user_id : UserId) (username : String)
  | heartbeat (room_id : RoomId) (user_id : UserId)
  | setOffline (room_id : RoomId) (user_id : UserId)
  | removeUserFromAllRooms (user_id : UserId) (keys : List String)
  | getOnlineUsers (room_id : RoomId)
  | isOnline (room_id : RoomId) (user_id : UserId)

namespace Call

/-- A program on its own, with everything answered at a time. -/
def alone {α : Type} (env : Env) (now : Time) (w : World) (p : Prog α) : Option World :=
  (p.run (Op.exec env 0 0) (answered now) w).map Prod.snd

def exec (env : Env) (now : Time) (w : World) : Call → Option World
  | .setOnline room_id user_id username =>
    alone env now w (PresenceService.setOnline env (.str room_id) user_id username)
  | .heartbeat room_id user_id =>
    alone env now w (PresenceService.heartbeat env (.str room_id) user_id)
  | .setOffline room_id user_id =>
    alone env now w (PresenceService.setOffline env (.str room_id) user_id)
  | .removeUserFromAllRooms user_id keys =>
    alone env now w (PresenceService.removeUserFromAllRooms user_id keys)
  | .getOnlineUsers room_id =>
    alone env now w (PresenceService.getOnlineUsers env (.str room_id))
  | .isOnline room_id user_id =>
    alone env now w (PresenceService.isOnline env (.str room_id) user_id)

/-- Whether the call says something of a user in a room, and what: that they are there, or not. -/
def touches (room_id : RoomId) (u : UserId) : Call → Option Bool
  | .setOnline r v _ | .heartbeat r v => if r = room_id ∧ v = u then some true else none
  | .setOffline r v => if r = room_id ∧ v = u then some false else none
  | .removeUserFromAllRooms v _ => if v = u then some false else none
  | .getOnlineUsers _ | .isOnline _ _ => none

end Call

/-- When a user was last seen in a room, after a call. -/
def Call.seen (room_id : RoomId) (u : UserId) (now : Time) (c : Call) (seen : Option Time) :
    Option Time :=
  match c.touches room_id u with
  | some true => some now
  | some false => none
  | none => seen

/-- When the last call that touched a user in a room saw them, the calls being newest first. -/
def lastSeen (room_id : RoomId) (u : UserId) : List (Call × Time) → Option Time
  | [] => none
  | (c, t) :: calls => c.seen room_id u t (lastSeen room_id u calls)

/-- The world, and every call so far with its time, newest first. -/
structure History where
  world : World
  now : Time
  calls : List (Call × Time)

namespace History

def init (t : Tables) : History := { world := .init t, now := 0, calls := [] }

/-- The next call, at its time. -/
def step (env : Env) (s : History) (e : Call × Time) : Option History :=
  (e.1.exec env e.2 s.world).map fun w => { world := w, now := e.2, calls := e :: s.calls }

/-- The times are positive and do not decrease, and a scan yields what there is. -/
structure Ordered (s : History) (e : Call × Time) : Prop where
  positive : 0 < e.2
  ordered : s.now ≤ e.2
  scanned : ∀ u keys, e.1 = .removeUserFromAllRooms u keys → Scanned s.world.redis keys

end History

/-! ## One call -/

section Entries

variable {env : Env} {now : Time} {w w' : World} {room_id : RoomId} {u : UserId} {keys : List String}

/-- The keys of two rooms are different. -/
theorem key_inj {r r' : RoomId} (h : key env (.str r) = key env (.str r')) : r = r' := by
  have hlist := congrArg String.toList h
  simp only [key, Json.format, String.toList_append] at hlist
  exact String.toList_injective (List.append_cancel_left hlist)

theorem matches_key : Matches (key env (.str room_id)) := by
  rw [Matches, key, String.toList_append]
  exact List.prefix_append _ _

theorem run_removeUserFromAllRooms :
    (removeUserFromAllRooms u keys).run (Op.exec env 0 0) (answered now) w =
      some (.ok (), { w with
        redis := keys.foldl (fun r k => r.after (.zrem k u)) w.redis }) := by
  induction keys generalizing w with
  | nil => rfl
  | cons k keys ih => exact (run_redisOp rfl _).trans ih

theorem score_removeUserFromAllRooms {r : Redis} {k m : String} :
    (keys.foldl (fun r k => r.after (.zrem k u)) r).score k m =
      if k ∈ keys ∧ m = u then none else r.score k m := by
  induction keys generalizing r with
  | nil => simp
  | cons k' keys ih =>
    rw [List.foldl_cons, ih, Redis.score_after, RedisOp.rescore]
    simp only [List.mem_cons]
    by_cases hm : m = u
    · by_cases hk : k = k'
      · simp [hk, hm]
      · simp [hk, hm]
    · simp [hm]

theorem exec_isOnline {r : RoomId} {v : UserId} (h : (Call.isOnline r v).exec env now w = some w') :
    w' = w := by
  obtain ⟨⟨a, w₁⟩, hrun, rfl⟩ := Option.map_eq_some_iff.mp h
  rw [isOnline, run_redisOp rfl] at hrun
  split at hrun
  · cases hrun
    rfl
  · cases hrun
    rfl

/-- **What a call does to the entry of a user in a room**: the entry stays what was last seen, or
is forgotten when that is too old. -/
theorem forgets_exec {c : Call} {seen : Option Time} (h : c.exec env now w = some w')
    (hscan : ∀ v keys, c = .removeUserFromAllRooms v keys → Scanned w.redis keys)
    (hseen : Expiry.Forgets env.presenceTimeout now seen
      (w.redis.score (key env (.str room_id)) u)) :
    Expiry.Forgets env.presenceTimeout now (c.seen room_id u now seen)
      (w'.redis.score (key env (.str room_id)) u) := by
  have hkey : ∀ r, (key env (.str room_id) = key env (.str r)) ↔ r = room_id :=
    fun r => ⟨fun h => (key_inj h).symm, fun h => h ▸ rfl⟩
  cases c with
  | setOnline r v name =>
    cases h
    change Expiry.Forgets _ _ _ (((w.redis.after (.zadd _ _ _)).after (.hset _ _)).score _ _)
    rw [Redis.score_after, Redis.score_after]
    simp only [RedisOp.rescore, Call.seen, Call.touches, hkey, eq_comm (a := u) (b := v)]
    -- one entry is written, the others stay
    by_cases htouched : r = room_id ∧ v = u
    · simp only [if_pos htouched]
      exact .refl
    · simp only [if_neg htouched]
      exact hseen
  | heartbeat r v =>
    cases h
    change Expiry.Forgets _ _ _ ((w.redis.after (.zadd _ _ _)).score _ _)
    rw [Redis.score_after]
    simp only [RedisOp.rescore, Call.seen, Call.touches, hkey, eq_comm (a := u) (b := v)]
    by_cases htouched : r = room_id ∧ v = u
    · simp only [if_pos htouched]
      exact .refl
    · simp only [if_neg htouched]
      exact hseen
  | setOffline r v =>
    cases h
    change Expiry.Forgets _ _ _ ((w.redis.after (.zrem _ _)).score _ _)
    rw [Redis.score_after]
    simp only [RedisOp.rescore, Call.seen, Call.touches, hkey, eq_comm (a := u) (b := v)]
    by_cases htouched : r = room_id ∧ v = u
    · simp only [if_pos htouched]
      exact .refl
    · simp only [if_neg htouched]
      exact hseen
  | removeUserFromAllRooms v keys =>
    rw [Call.exec, Call.alone, run_removeUserFromAllRooms] at h
    cases h
    simp only [Call.seen, Call.touches, score_removeUserFromAllRooms, eq_comm (a := u) (b := v)]
    by_cases hv : v = u
    · -- the scan has yielded the key, or the user has no entry there
      subst hv
      have hnone : (if key env (.str room_id) ∈ keys ∧ v = v then none
          else w.redis.score (key env (.str room_id)) v) = none := by
        rw [ite_eq_left_iff]
        intro hout
        by_contra hsome
        exact hout ⟨(hscan v keys rfl).complete _ v matches_key
          (Option.isSome_iff_ne_none.mpr hsome), rfl⟩
      rw [hnone, if_pos rfl]
      exact .refl
    · simp only [hv, and_false, if_false]
      exact hseen
  | getOnlineUsers r =>
    rw [Call.exec, Call.alone, run_getOnlineUsers rfl rfl rfl] at h
    cases h
    change Expiry.Forgets _ _ _ ((w.redis.after (.zremrangebyscore _ _)).score _ _)
    rw [Redis.score_after]
    simp only [RedisOp.rescore, Call.seen, Call.touches, hkey]
    split
    · -- what the query removes has expired
      refine hseen.filter fun t ht => ?_
      rw [Bool.not_eq_false', decide_eq_true_eq] at ht
      exact Nat.not_lt.mp fun hfresh => not_le_cutoff.mpr hfresh ht
    · exact hseen
  | isOnline r v =>
    rw [exec_isOnline h]
    exact hseen

end Entries

/-! ## Every call -/

section Runs

variable {env : Env} {t : Tables} {s : History} {now : Time} {room_id : RoomId} {u : UserId}

/-- **The entries are what was last seen, up to what is too old**, after any calls. -/
theorem forgets_reach (hr : Reach (History.step env) History.Ordered (.init t) s)
    (room_id : RoomId) (u : UserId) :
    Expiry.Forgets env.presenceTimeout s.now (lastSeen room_id u s.calls)
      (s.world.redis.score (key env (.str room_id)) u) := by
  refine hr.invariant (I := fun s => Expiry.Forgets env.presenceTimeout s.now
    (lastSeen room_id u s.calls) (s.world.redis.score (key env (.str room_id)) u)) .refl ?_
  intro s e s' h ho hs
  obtain ⟨w, hw, rfl⟩ := Option.map_eq_some_iff.mp hs
  exact forgets_exec hw ho.scanned (h.later ho.ordered)

/-- The users that `get_online_users` lists. -/
def listed (users : List Json) : List (Option Json) := users.map fun
  | .obj fields => Json.lookup "user_id" fields
  | _ => none

/-- Nobody is listed twice. -/
theorem nodup_getOnlineUsers {w : World} {room : Json} : ∃ users w',
    (getOnlineUsers env room).run (Op.exec env 0 0) (answered now) w = some (.ok users, w') ∧
      (listed users).Nodup := by
  refine ⟨_, _, run_getOnlineUsers rfl rfl rfl, ?_⟩
  rw [listed, List.map_map]
  exact nodup_zrangebyscore.map fun a b hab => by
    have hab : some (Json.str a) = some (Json.str b) := hab
    cases hab
    rfl

/-- **The presence queries answer what they mean**, after any calls: `get_online_users` lists a
user once, if `is_online` is true of them, and both are so if the last call that touched the user
in the room saw them less than the timeout ago. -/
theorem queries_agree (hr : Reach (History.step env) History.Ordered (.init t) s)
    (hnow : s.now ≤ now) (room_id : RoomId) :
    (∃ users w', (getOnlineUsers env (.str room_id)).run (Op.exec env 0 0) (answered now) s.world =
        some (.ok users, w') ∧ (listed users).Nodup) ∧
      ∀ u, (Lists env s.world now (.str room_id) u ↔ SeesOnline env s.world now (.str room_id) u) ∧
        (Lists env s.world now (.str room_id) u ↔ ∃ t, lastSeen room_id u s.calls = some t ∧
          (now : Int) - t < env.presenceTimeout) := by
  refine ⟨nodup_getOnlineUsers, fun u => ⟨lists_iff.trans seesOnline_iff.symm, ?_⟩⟩
  have hforgets := (forgets_reach hr room_id u).later hnow
  rw [lists_iff]
  refine Iff.trans hforgets.fresh_iff ?_
  exact exists_congr fun t => and_congr_right fun _ => age_lt.symm

end Runs

namespace Sample

/-- User 1 is seen twice, and a query comes exactly a minute after that. -/
def minute : List (Call × Time) :=
  [(.setOnline "3" "1" "u1", Env.newYear), (.heartbeat "3" "1", Env.newYear + 1),
    (.getOnlineUsers "3", Env.newYear + 1 + 60000000)]

def scans : Call → Bool
  | .removeUserFromAllRooms _ _ => true
  | _ => false

def orderly (s : History) (e : Call × Time) : Bool :=
  decide (0 < e.2 ∧ s.now ≤ e.2) && !scans e.1

theorem ordered_of_orderly {s : History} {e : Call × Time} (h : orderly s e = true) :
    History.Ordered s e := by
  obtain ⟨htime, hscans⟩ := (Bool.and_eq_true _ _).mp h
  obtain ⟨hpos, hnow⟩ := of_decide_eq_true htime
  refine ⟨hpos, hnow, fun u keys he => ?_⟩
  rw [he] at hscans
  cases hscans

end Sample

set_option maxRecDepth 20000 in
/-- Exactly a minute after user 1 was last seen, both queries say that they are not online. -/
theorem queries_agree_minute : ∃ s,
    Reach (History.step .sample) History.Ordered (.init .sample) s ∧
    lastSeen "3" "1" s.calls = some (Env.newYear + 1) ∧
    (∃ users w', (getOnlineUsers .sample (.str "3")).run (Op.exec .sample 0 0) (answered s.now)
        s.world = some (.ok users, w') ∧ (listed users).Nodup) ∧
      ∀ u, (Lists .sample s.world s.now (.str "3") u ↔ SeesOnline .sample s.world s.now (.str "3") u) ∧
        (Lists .sample s.world s.now (.str "3") u ↔ ∃ t, lastSeen "3" u s.calls = some t ∧
          (s.now : Int) - t < Env.sample.presenceTimeout) := by
  have hrun : ((replayIf (History.step .sample) Sample.orderly Sample.minute
      (.init .sample)).any fun s => lastSeen "3" "1" s.calls = some (Env.newYear + 1)) = true := by
    decide +kernel
  obtain ⟨s, hs, hseen⟩ := (Option.any_eq_true _ _).mp hrun
  have hr := Reach.of_replayIf (fun _ _ => Sample.ordered_of_orderly) .init hs
  exact ⟨s, hr, of_decide_eq_true hseen, queries_agree hr (Nat.le_refl _) "3"⟩

end PresenceService

end NexusChat
