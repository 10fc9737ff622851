import NexusChat.App.Places
import NexusChat.Core.RateLimiter

/-!
# How much a user can store

Every frame asks the rate limiter first, and one frame stores one message at most. So an allowance
that the limiter has given is spent once: whatever the sessions of a user do, on however many
instances, the messages stored for him are no more than the calls the limiter has allowed him, which
are no more than the limit in any window (`Metered.stored_le`).

`Metered` is the system with the limiter's keys in Redis: where a session is answered, the answer is
the limiter's.
-/

set_option autoImplicit false

namespace NexusChat

open Chat

/-! ## Allowances -/

/-- The operation inserts no message of this sender. -/
def Op.Spares (v : Uuid) : Op → Prop
  | .db (.insertMessage _ sender_id _ _ _) => sender_id ≠ v
  | _ => True

/-- How an operation changes whether a task holds an allowance: the limiter gives one to a user's
session, and only with one is a message of the user inserted. -/
inductive Allowance.Moves (env : Env) (v : Uuid) : Bool → (op : Op) → Except Exn op.Resp →
    Bool → Prop where
  | gets {u : UserId} : env.uuid u = some v →
      Allowance.Moves env v false (.redis (.checkWsRateLimit u)) (.ok ()) true
  | spends {room_id : Uuid} {content : String} {message_type : MessageType} {key : Json}
      {r : Except Exn MessageRow} : Allowance.Moves env v true
        (.db (.insertMessage room_id v content message_type key)) r false
  | keeps {h : Bool} {op : Op} {r : Except Exn op.Resp} : op.Spares v →
      Allowance.Moves env v h op r h
  | drops {op : Op} {r : Except Exn op.Resp} : op.Spares v →
      Allowance.Moves env v true op r false

/-- The allowances of one user, as a protocol of the tasks. -/
abbrev spending (env : Env) (v : Uuid) : Protocol :=
  ⟨Bool, false, fun _ _ => True, Allowance.Moves env v⟩

section Programs

variable {env : Env} {v : Uuid} {u : UserId} {username : String} {α β : Type}

theorem Op.Quiet.spares {op : Op} (hop : op.Quiet) : op.Spares v := by
  cases op with
  | db o => exact absurd hop id
  | _ => trivial

theorem spares_of_all {p : Prog α} (hp : p.All (Op.Spares v)) :
    (spending env v).Keeps false p :=
  Coro.follows_of_all (S := Op.sig) (fun _ hop _ => .keeps hop) hp fun _ => rfl

theorem spares_bind {p : Prog α} {f : α → Prog β} (hp : p.All (Op.Spares v))
    (hf : ∀ a, (spending env v).Keeps false (f a)) : (spending env v).Keeps false (p >>= f) :=
  Coro.follows_bind_of_all (S := Op.sig) (fun _ hop _ => .keeps hop) hp hf fun _ => rfl

/-- An operation that does not insert leaves the allowance where it is, or ends it. -/
theorem Allowance.ends {h : Bool} {op : Op} {r : Except Exn op.Resp} (hop : op.Spares v) :
    Allowance.Moves env v h op r false := by
  cases h with
  | false => exact .keeps hop
  | true => exact .drops hop

/-- With an allowance a session may store one message of its user. -/
theorem spends_storeIn {d : MessageData} {room : Uuid} :
    (storeIn env u username d room v).Follows (S := Op.sig) (fun _ _ => True)
      (Allowance.Moves env v) (fun _ _ => True) true := by
  have hins : (MessageService.saveMessage.insert dbOp room v d.content .text
      d.idempotencyKey : Prog MessageRow).Follows (S := Op.sig) (fun _ _ => True)
        (Allowance.Moves env v) (fun _ _ => True) true := by
    refine Coro.follows_perform (S := Op.sig) fun r _ => ⟨false, .spends, ?_⟩
    cases r with
    | error e => trivial
    | ok m =>
      refine Coro.follows_perform (S := Op.sig) fun r _ => ⟨false, .keeps trivial, ?_⟩
      cases r with
      | error e => trivial
      | ok _ => trivial
  have hsave : (MessageService.saveMessage dbOp room v d.content .text d.idempotencyKey :
      Prog MessageRow).Follows (S := Op.sig) (fun _ _ => True) (Allowance.Moves env v)
        (fun _ _ => True) true := by
    unfold MessageService.saveMessage
    split
    · refine Coro.follows_perform (S := Op.sig) fun r _ => ⟨true, .keeps trivial, ?_⟩
      cases r with
      | error e => trivial
      | ok existing =>
        cases existing with
        | none => exact hins
        | some m => trivial
    · exact hins
  refine Coro.follows_bind (S := Op.sig) (Coro.Follows.mono (fun r h _ => ?_) hsave)
  cases r with
  | error e => trivial
  | ok m =>
    refine Coro.follows_perform (S := Op.sig) fun r _ => ⟨h, .keeps trivial, ?_⟩
    cases r with
    | error e => trivial
    | ok _ => trivial

theorem spends_storeMessage {d : MessageData}
    (hsender : ∀ sender, env.parseUuid (.str u) = .ok sender → sender = v) :
    (storeMessage env u username d.roomId d.content d.idempotencyKey).Follows (S := Op.sig)
      (fun _ _ => True) (Allowance.Moves env v) (fun _ h => h = false) true := by
  have hbody : (Coro.ofExcept (env.parseUuid d.roomId) >>= fun room =>
      Coro.ofExcept (env.parseUuid (.str u)) >>= fun sender =>
        storeIn env u username d room sender : Prog WSOutboundMessage).Follows (S := Op.sig)
      (fun _ _ => True) (Allowance.Moves env v) (fun _ _ => True) true := by
    cases hroom : env.parseUuid d.roomId with
    | error e => trivial
    | ok room =>
      cases hparse : env.parseUuid (.str u) with
      | error e => trivial
      | ok sender =>
        obtain rfl := hsender sender hparse
        exact spends_storeIn
  rw [storeMessage_eq]
  refine Coro.follows_bind (S := Op.sig) (Coro.follows_tryCatch (S := Op.sig)
    (Coro.Follows.mono (fun r h _ => ?_) hbody))
  cases r with
  | error e =>
    refine Coro.follows_perform (S := Op.sig) fun r _ => ⟨false, Allowance.ends trivial, ?_⟩
    cases r with
    | error e => rfl
    | ok _ => rfl
  | ok payload =>
    refine Coro.follows_perform (S := Op.sig) fun r _ => ⟨false, Allowance.ends trivial, ?_⟩
    cases r with
    | error e => rfl
    | ok _ => rfl

/-- A session of somebody else stores no message of this user. -/
theorem spares_storeMessage {d : MessageData}
    (hsender : ∀ sender, env.parseUuid (.str u) = .ok sender → sender ≠ v) :
    (storeMessage env u username d.roomId d.content d.idempotencyKey).All
      (Op.Spares v) :=
  all_storeMessage ⟨trivial, fun _ sender _ hs => hsender sender hs, trivial, trivial, trivial⟩

theorem parseUuid_str_eq_ok {s : String} {w : Uuid} (h : env.parseUuid (.str s) = .ok w) :
    env.uuid s = some w := by
  obtain ⟨s', hs, hw⟩ := parseUuid_eq_ok h
  cases hs
  exact hw

/-- What a frame does after the rate limit: it inserts no message of the user, or it is a session of
the user that inserts one, with an allowance. -/
theorem spends_dispatch {event event_data : Json} :
    (dispatch env u username event event_data).All (Op.Spares v) ∨
      env.uuid u = some v ∧
        (spending env v).Keeps true (dispatch env u username event event_data) := by
  have hquiet : ∀ op : Op, op.Quiet → op.Spares v := fun _ => Op.Quiet.spares
  apply dispatch_cases (P := fun p => p.All (Op.Spares v) ∨
    env.uuid u = some v ∧ (spending env v).Keeps true p)
  · intro _
    exact .inl (all_handleJoinRoom hquiet (fun _ _ => trivial) trivial (fun _ => trivial)
      (fun _ _ => trivial) (fun _ => trivial) fun _ => trivial)
  · exact fun _ => .inl (all_handleLeaveRoom hquiet (fun _ _ => trivial) fun _ _ => trivial)
  · intro _
    rw [handleMessage_eq]
    cases readMessage env event_data with
    | error e => exact .inl trivial
    | ok d =>
      show (handleRead env u username d).All _ ∨ _ ∧ (spending env v).Keeps true
        (handleRead env u username d)
      have hpublish : ∀ m : WSOutboundMessage, (RedisBroker.publish (roomChannel env d.roomId)
          (envelope "chat" m)).All (Op.Spares v) := fun _ =>
        all_publish hquiet trivial
      unfold handleRead
      split
      · exact .inl (all_sendToUser hquiet)
      · split
        · exact .inl (all_sendToUser hquiet)
        · by_cases huser : env.uuid u = some v
          · refine .inr ⟨huser, Coro.follows_bind (S := Op.sig) (Coro.Follows.mono
              (fun r h hh => ?_) (spends_storeMessage fun sender hs => ?_))⟩
            · subst hh
              cases r with
              | error e => rfl
              | ok m => exact spares_of_all (hpublish m)
            · exact (Option.some.inj (huser.symm.trans (parseUuid_str_eq_ok hs))).symm
          · refine .inl (Coro.all_bind (spares_storeMessage fun sender hs he => ?_) hpublish)
            exact huser (he ▸ parseUuid_str_eq_ok hs)
  · exact fun _ => .inl (all_handleTyping hquiet fun _ _ => trivial)
  · exact fun _ => .inl (all_handleTyping hquiet fun _ _ => trivial)
  · exact fun _ => .inl (all_sendToUser hquiet)

theorem spends_handleFrame {data : Json} :
    (spending env v).Keeps false (handleFrame env u username data) := by
  have hquiet : ∀ op : Op, op.Quiet → op.Spares v := fun _ => Op.Quiet.spares
  rw [handleFrame_eq]
  refine spares_bind (Coro.all_ofExcept _) fun event => spares_bind (Coro.all_ofExcept _)
    fun event_data => ?_
  have hdispatch : (dispatch env u username event event_data).All (Op.Spares v) ∨
      env.uuid u = some v ∧
        (spending env v).Keeps true (dispatch env u username event event_data) := spends_dispatch
  rcases hdispatch with hspares | ⟨huser, hspends⟩
  · refine spares_bind (all_rateLimited hquiet) fun limited => ?_
    split
    · exact spares_of_all (all_sendToUser hquiet)
    · exact spares_of_all hspares
  · refine Coro.follows_bind (S := Op.sig) (Coro.follows_tryCatch (S := Op.sig)
      (Coro.follows_perform (S := Op.sig) fun r _ => ?_))
    cases r with
    | ok _ => exact ⟨true, .gets huser, hspends⟩
    | error e => exact ⟨false, .keeps trivial, spares_of_all (all_sendToUser hquiet)⟩

theorem spending_starts : (spending env v).Starts env where
  connect _ _ := spares_of_all (all_connect trivial trivial (fun _ => trivial)
    (fun _ _ => trivial) (fun _ => trivial) fun _ => trivial)
  frame _ _ _ := spends_handleFrame
  send _ _ := spares_of_all (all_sendToUser fun _ => Op.Quiet.spares)
  cleanup _ _ _ := spares_of_all (all_cleanup (fun _ => Op.Quiet.spares) (fun _ => trivial)
    trivial (fun _ => trivial) trivial)
  request _ := spares_of_all (all_request_ops fun op hop => by
    cases op with
    | insertMessage room_id sender_id content message_type key => exact absurd hop id
    | _ => trivial)
  force _ _ := spares_of_all (all_forceDisconnect trivial (fun _ => trivial) trivial
    trivial)

end Programs

/-! ## What is stored -/

/-- The messages of a sender. -/
def Tables.storedBy (t : Tables) (v : Uuid) : Nat :=
  t.messages.rows.countP fun m => m.senderId = some v

/-- The statement inserts a message of this sender. -/
def Write.storesFor (v : Uuid) : Write → Bool
  | .addMessage m => m.senderId = some v
  | _ => false

/-- The messages of a sender that are stored, or about to be. -/
def Database.storedBy (d : Database) (v : Uuid) : Nat :=
  d.committed.storedBy v + d.pending.countP fun e => e.2.storesFor v

section Stored

variable {v : Uuid} {t : Tables} {d d' : Database} {me : TaskId} {x : DbOutcome} {op : DbOp}
  {r : Except Exn op.Resp}

theorem Tables.storedBy_apply_le {w : Write} :
    (t.apply w).storedBy v ≤ t.storedBy v + if w.storesFor v then 1 else 0 := by
  cases w with
  | addMessage m => exact Table.countP_insert_le
  | addUser _ | addRoom _ | addMember _ | deleteMember _ => exact Nat.le_add_right _ _

theorem Tables.storedBy_foldl_le {ws : List Write} :
    (ws.foldl Tables.apply t).storedBy v ≤ t.storedBy v + ws.countP (Write.storesFor v) := by
  induction ws generalizing t with
  | nil => exact le_rfl
  | cons w ws ih =>
    have hw := Tables.storedBy_apply_le (t := t) (w := w) (v := v)
    have hrest := ih (t := t.apply w)
    rw [List.foldl_cons, List.countP_cons]
    omega

/-- A commit moves what its transaction has flushed, and an end of a transaction forgets it. -/
theorem Database.storedBy_commit_le : (d.commit me).storedBy v ≤ d.storedBy v := by
  have hmine : (d.flushed me).countP (Write.storesFor v) =
      (d.pending.filter fun e => e.1 = me).countP fun e => e.2.storesFor v := by
    rw [Database.flushed, List.countP_map]
    rfl
  have hsplit := List.countP_eq_countP_filter_add d.pending
    (fun e : TaskId × Write => e.2.storesFor v) fun e => decide (e.1 = me)
  have hview : ((d.flushed me).foldl Tables.apply d.committed).storedBy v ≤
      d.committed.storedBy v + (d.flushed me).countP (Write.storesFor v) := Tables.storedBy_foldl_le
  show ((d.flushed me).foldl Tables.apply d.committed).storedBy v +
    ((d.pending.filter fun e => e.1 ≠ me).countP fun e => e.2.storesFor v) ≤ _
  rw [Database.storedBy]
  simp only [ne_eq, decide_not] at hsplit ⊢
  omega

theorem Database.storedBy_forget_le : (d.forget me).storedBy v ≤ d.storedBy v := by
  have hless : ((d.forget me).pending.countP fun e => e.2.storesFor v) ≤
      d.pending.countP fun e => e.2.storesFor v := List.filter_sublist.countP_le
  exact Nat.add_le_add_left hless _

/-- An operation adds one message of a sender, if it inserts one, and none otherwise. -/
theorem DbOp.storedBy_exec_le (h : op.exec me x d = some (r, d')) :
    d'.storedBy v ≤ d.storedBy v + 1 ∧ ((Op.db op).Spares v → d'.storedBy v ≤ d.storedBy v) := by
  rcases DbOp.exec_cases h with rfl | ⟨w, hw, -, rfl⟩ | ⟨-, -, rfl⟩ | rfl
  · exact ⟨Nat.le_succ _, fun _ => le_rfl⟩
  · have hflush : (d.flush me w).storedBy v =
        d.storedBy v + if w.storesFor v then 1 else 0 := by
      simp only [Database.storedBy, Database.flush, List.countP_append, List.countP_singleton]
      omega
    refine ⟨?_, fun hop => ?_⟩
    · rw [hflush]
      split <;> omega
    · have hnot : w.storesFor v = false := by
        cases w with
        | addMessage m =>
          cases op with
          | insertMessage room_id sender_id content message_type key =>
            obtain ⟨k, -, -, rfl, -, -, -⟩ := DbOp.messageRow_eq_ok.mp hw
            exact decide_eq_false fun he => hop (Option.some.inj he)
          | _ => exact absurd hw (by simp [DbOp.Writes])
        | addUser _ | addRoom _ | addMember _ | deleteMember _ => rfl
      rw [hflush, hnot]
      exact le_rfl
  · exact ⟨Database.storedBy_commit_le.trans (Nat.le_succ _), fun _ => Database.storedBy_commit_le⟩
  · exact ⟨Database.storedBy_forget_le.trans (Nat.le_succ _), fun _ => Database.storedBy_forget_le⟩

end Stored

/-! ## The allowances that are held -/

/-- How many of the first `n` tasks hold one. -/
def held (place : TaskId → Bool) (n : Nat) : Nat := ∑ i ∈ Finset.range n, (place i).toNat

theorem held_update {place : TaskId → Bool} {n : Nat} {i : TaskId} {b : Bool} (hi : i < n) :
    held (Function.update place i b) n + (place i).toNat = held place n + b.toNat := by
  have hmem : i ∈ Finset.range n := Finset.mem_range.mpr hi
  have hrest : ∑ j ∈ (Finset.range n).erase i, (Function.update place i b j).toNat =
      ∑ j ∈ (Finset.range n).erase i, (place j).toNat :=
    Finset.sum_congr rfl fun j hj => by rw [Function.update_of_ne (Finset.ne_of_mem_erase hj)]
  have hnew : held (Function.update place i b) n =
      b.toNat + ∑ j ∈ (Finset.range n).erase i, (place j).toNat := by
    rw [held, ← Finset.add_sum_erase _ _ hmem, hrest, Function.update_self]
  have hold : held place n =
      (place i).toNat + ∑ j ∈ (Finset.range n).erase i, (place j).toNat := by
    rw [held, ← Finset.add_sum_erase _ _ hmem]
  omega

/-- Tasks that are not there yet hold none. -/
theorem held_of_unborn {place : TaskId → Bool} {n n' : Nat} (hle : n ≤ n')
    (hnone : ∀ i, n ≤ i → place i = false) : held place n' = held place n := by
  refine (Finset.sum_subset (Finset.range_mono hle) fun i _ hi => ?_).symm
  rw [hnone i (Nat.not_lt.mp fun hlt => hi (Finset.mem_range.mpr hlt))]
  rfl

/-! ## The system and the limiter's keys -/

/-- The system, and the keys of the rate limiter in Redis. -/
structure Metered where
  system : System
  limiter : RateLimiter.State

/-- A step of the system, with the time a session records for the limiter and the one on Redis'
clock. -/
structure Metered.Label where
  label : NexusChat.Label
  now : ℚ
  clock : ℚ

/-- The user whose frame the step asks the limiter about, and how Redis takes it. -/
def System.asks (s : System) : Label → Option (UserId × Choice)
  | .run i x =>
    match s.tasks[i]?.bind Task.head? with
    | some (.redis (.checkWsRateLimit user_id)) => some (user_id, x)
    | _ => none
  | _ => none

namespace Metered

open RateLimiter

def init (ts : Tables) : Metered := { system := .init ts, limiter := .init }

/-- `check_ws_rate_limit(user_id, limit)`, with the default window -/
def call (limit : Nat) (user_id : UserId) (l : Metered.Label) : Call :=
  Call.checkWsRateLimit user_id limit 60 l.now l.clock

def step (env : Env) (fmt : FloatFormat) (limit : Nat) (s : Metered) (l : Metered.Label) :
    Option Metered :=
  match s.system.step env l.label with
  | none => none
  | some system =>
    match s.system.asks l.label with
    | none => some { s with system }
    | some (user_id, x) =>
      let c := call limit user_id l
      -- what the session is answered is what the limiter has found
      if x.ok && !(c.checkRateLimit fmt s.limiter.store).1.isOk then none
      else if x.ok || x.executed then
        (s.limiter.step fmt c).map fun limiter => { system, limiter }
      else some { s with system }

/-- The calls for the user are made under one name, at times that do not decrease, and each is
counted by those after it. -/
def Regular (env : Env) (fmt : FloatFormat) (limit : Nat) (u : UserId) (v : Uuid) (s : Metered)
    (l : Metered.Label) : Prop :=
  ∀ user_id x, s.system.asks l.label = some (user_id, x) →
    (env.uuid user_id = some v → user_id = u) ∧
      (user_id = u → Ordered s.limiter (call limit user_id l) ∧
        Counted fmt s.limiter (call limit user_id l))

/-- The limiter's key for a user. -/
def key (u : UserId) : String := "ratelimit:ws:" ++ u

end Metered

/-! ## One step -/

section Steps

open RateLimiter

variable {env : Env} {fmt : FloatFormat} {limit : Nat} {u : UserId} {v : Uuid} {s s' : Metered}
  {l : Metered.Label}

/-- What an operation stores is paid with the allowance of its task, and only the limiter gives
one. -/
theorem Allowance.Moves.stored {srv : ServerId} {me : TaskId} {x : Choice} {w w' : World} {op : Op}
    {r : Except Exn op.Resp} {h h' : Bool} (hm : Allowance.Moves env v h op r h')
    (hx : op.exec env srv me x w = some (r, w')) :
    w'.db.storedBy v + h'.toNat ≤ w.db.storedBy v + h.toNat ∨
      ∃ user_id, env.uuid user_id = some v ∧ op = .redis (.checkWsRateLimit user_id) ∧
        x.ok = true ∧ w'.db.storedBy v + h'.toNat ≤ w.db.storedBy v + h.toNat + 1 := by
  have hspares : op.Spares v → w'.db.storedBy v ≤ w.db.storedBy v := fun hop => by
    rcases Op.exec_db hx with he | ⟨o, r', rfl, ho⟩
    · rw [he]
    · exact (DbOp.storedBy_exec_le ho).2 hop
  cases hm with
  | gets huser =>
    rename_i user_id
    refine .inr ⟨user_id, huser, rfl, ?_, ?_⟩
    · simp only [Op.exec, Option.some.injEq, Prod.mk.injEq] at hx
      cases hok : x.ok with
      | true => rfl
      | false =>
        rw [hok] at hx
        cases hx.1
    · exact Nat.add_le_add_right (hspares trivial) 1
  | spends =>
    obtain ⟨d, ho, rfl⟩ := Op.exec_dbOp hx
    exact .inl (DbOp.storedBy_exec_le ho).1
  | keeps hop => exact .inl (Nat.add_le_add_right (hspares hop) _)
  | drops hop => exact .inl ((hspares hop).trans (Nat.le_add_right _ _))

/-- A step of the system, and the limiter is left alone or asked for somebody. -/
theorem Metered.step_cases (hs : s.step env fmt limit l = some s') :
    s.system.step env l.label = some s'.system ∧
      ((s'.limiter = s.limiter ∧
          ∀ user_id x, s.system.asks l.label = some (user_id, x) → x.ok = false) ∨
        ∃ user_id x, s.system.asks l.label = some (user_id, x) ∧
          s.limiter.step fmt (Metered.call limit user_id l) = some s'.limiter ∧
          (x.ok = true →
            ((Metered.call limit user_id l).pruned s.limiter.store).size < limit)) := by
  unfold Metered.step at hs
  split at hs
  · cases hs
  · rename_i system hsystem
    split at hs
    · rename_i hnone
      cases hs
      refine ⟨hsystem, .inl ⟨rfl, fun user_id x hasks => ?_⟩⟩
      rw [hnone] at hasks
      cases hasks
    · rename_i user_id x hasks
      dsimp only at hs
      split at hs
      · cases hs
      · rename_i hanswer
        split at hs
        · obtain ⟨limiter, hlimiter, rfl⟩ := Option.map_eq_some_iff.mp hs
          refine ⟨hsystem, .inr ⟨user_id, x, hasks, hlimiter, fun hok => ?_⟩⟩
          by_contra hfull
          refine hanswer ?_
          have hdenied : (call limit user_id l).limit ≤
              ((call limit user_id l).pruned s.limiter.store).size := Nat.not_lt.mp hfull
          rw [hok, Call.checkRateLimit, if_pos hdenied]
          rfl
        · rename_i hlost
          cases hs
          refine ⟨hsystem, .inl ⟨rfl, fun user_id' x' hasks' => ?_⟩⟩
          rw [hasks] at hasks'
          cases hasks'
          cases hok : x.ok with
          | false => rfl
          | true => exact absurd (by rw [hok]; rfl) hlost

theorem Metered.key_call {user_id : UserId} :
    (Metered.call limit user_id l).key = Metered.key user_id := rfl

theorem Metered.key_injective {user_id : UserId} (h : Metered.key user_id = Metered.key u) :
    user_id = u := by
  have hlist := congrArg String.toList h
  simp only [Metered.key, String.toList_append, List.append_cancel_left_eq] at hlist
  exact String.toList_inj.mp hlist

/-- A call of the limiter, on whatever key: what the user has been allowed stays within the limit,
and grows by one if the call is his and is allowed. -/
theorem Metered.limiter_step {user_id : UserId} {limiter : RateLimiter.State}
    (htracked : RateLimiter.Tracked fmt (Metered.key u) 60 s.limiter)
    (hbounded : Window.Bounded limit ((60 : Int) : ℚ) (s.limiter.allowed (Metered.key u)))
    (hregular : user_id = u → Ordered s.limiter (Metered.call limit user_id l) ∧
      Counted fmt s.limiter (Metered.call limit user_id l))
    (hs : s.limiter.step fmt (Metered.call limit user_id l) = some limiter) :
    RateLimiter.Tracked fmt (Metered.key u) 60 limiter ∧
      Window.Bounded limit ((60 : Int) : ℚ) (limiter.allowed (Metered.key u)) ∧
      (s.limiter.allowed (Metered.key u)).length ≤ (limiter.allowed (Metered.key u)).length ∧
      (user_id = u → ((Metered.call limit user_id l).pruned s.limiter.store).size < limit →
        (limiter.allowed (Metered.key u)).length =
          (s.limiter.allowed (Metered.key u)).length + 1) := by
  by_cases huser : user_id = u
  · subst huser
    obtain ⟨hord, hcount⟩ := hregular rfl
    have hallowed : limiter.allowed (Metered.key user_id) =
        if ((Metered.call limit user_id l).pruned s.limiter.store).size < limit then
          l.now :: s.limiter.allowed (Metered.key user_id)
        else s.limiter.allowed (Metered.key user_id) := allowed_step hs
    have hbounded' : Window.Bounded (Metered.call limit user_id l).limit
        ((Metered.call limit user_id l).windowSeconds : ℚ)
        (limiter.allowed (Metered.call limit user_id l).key) :=
      bounded_step htracked hbounded hord hcount hs
    have hminute : 0 < (Metered.call limit user_id l).windowSeconds :=
      (by decide : (0 : Int) < 60)
    refine ⟨htracked.step hord hcount hminute hs, hbounded', ?_, fun _ hfew => ?_⟩
    · rw [hallowed]
      split
      · exact Nat.le_succ _
      · exact le_rfl
    · rw [hallowed, if_pos hfew]
      rfl
  · have hkey : (Metered.call limit user_id l).key ≠ Metered.key u :=
      fun he => huser (Metered.key_injective he)
    have hsame : limiter.allowed (Metered.key u) = s.limiter.allowed (Metered.key u) := by
      rw [State.allowed, on_step_of_ne hs hkey]
      rfl
    rw [hsame]
    exact ⟨htracked.step_of_ne hs hkey, hbounded, le_rfl, fun he => absurd he huser⟩

end Steps

/-! ## Runs -/

open RateLimiter in
/-- The limiter has kept to the limit, and what is stored, or may be by the allowances that are
held, has been allowed. -/
structure Budget (env : Env) (fmt : FloatFormat) (limit : Nat) (u : UserId) (v : Uuid) (n : Nat)
    (place : TaskId → Bool) (s : Metered) : Prop
    extends (spending env v).Placed place s.system where
  tracked : RateLimiter.Tracked fmt (Metered.key u) 60 s.limiter
  bounded : Window.Bounded limit ((60 : Int) : ℚ) (s.limiter.allowed (Metered.key u))
  spent : s.system.world.db.storedBy v + held place s.system.tasks.length ≤
    n + (s.limiter.allowed (Metered.key u)).length

section Runs

variable {env : Env} {fmt : FloatFormat} {limit n : Nat} {u : UserId} {v : Uuid} {ts : Tables}
  {s s' : Metered} {place : TaskId → Bool} {l : Metered.Label}

theorem budget_init : Budget env fmt limit u v (ts.storedBy v) (fun _ => false) (.init ts) where
  toPlaced := Protocol.placed_init
  tracked := RateLimiter.tracked_init
  bounded := Window.bounded_nil
  spent := le_rfl

/-- A step that is no operation of a task. -/
theorem budget_env (h : Budget env fmt limit u v n place s) (hl : ∀ i x, l.label ≠ .run i x)
    (hs : s.step env fmt limit l = some s') : Budget env fmt limit u v n place s' := by
  obtain ⟨hsystem, hlimiter⟩ := Metered.step_cases hs
  have hnone : s.system.asks l.label = none := by
    unfold System.asks
    split
    · rename_i i x he
      exact absurd he (hl i x)
    · rfl
  have hsame : s'.limiter = s.limiter := by
    rcases hlimiter with ⟨he, -⟩ | ⟨_, _, hasks, -⟩
    · exact he
    · rw [hnone] at hasks
      cases hasks
  refine ⟨h.toPlaced.background spending_starts hl hsystem, hsame ▸ h.tracked, hsame ▸ h.bounded,
    ?_⟩
  rw [(System.stores_env hl hsystem).1, hsame,
    held_of_unborn (System.moves hsystem).length_le h.unborn]
  exact h.spent

/-- **One operation of a task.** -/
theorem budget_run (h : Budget env fmt limit u v n place s) {i : TaskId} {x : Choice}
    (hl : l.label = .run i x) (hregular : s.Regular env fmt limit u v l)
    (hs : s.step env fmt limit l = some s') :
    ∃ h', Budget env fmt limit u v n (Function.update place i h') s' := by
  obtain ⟨hsystem, hlimiter⟩ := Metered.step_cases hs
  rw [hl] at hsystem
  obtain ⟨t, t', op, r, h', hi, -, htasks, hhead, hx, hmove, hplaced⟩ :=
    h.toPlaced.run spending_starts hsystem fun _ _ _ _ _ _ => trivial
  have hheld : held (Function.update place i h') s.system.tasks.length + (place i).toNat =
      held place s.system.tasks.length + h'.toNat :=
    held_update (List.getElem?_eq_some_iff.mp hi).1
  have hlen : s'.system.tasks.length = s.system.tasks.length := by rw [htasks, List.length_set]
  have hspent := h.spent
  have hasked : ∀ user_id, op = .redis (.checkWsRateLimit user_id) →
      s.system.asks l.label = some (user_id, x) := by
    rintro user_id rfl
    simp only [System.asks, hl, hi, Option.bind_some, hhead]
  rcases hlimiter with ⟨hsame, hrefused⟩ | ⟨user_id, x', hasks, hstep, hallowed⟩
  · refine ⟨h', hplaced, hsame ▸ h.tracked, hsame ▸ h.bounded, ?_⟩
    rw [hlen, hsame]
    rcases hmove.stored hx with hpaid | ⟨user_id, -, hop, hok, -⟩
    · omega
    · rw [hrefused user_id x (hasked user_id hop)] at hok
      cases hok
  · obtain ⟨hname, hcounted⟩ := hregular user_id x' hasks
    obtain ⟨htracked, hbounded, hgrown, hone⟩ :=
      Metered.limiter_step h.tracked h.bounded hcounted hstep
    refine ⟨h', hplaced, htracked, hbounded, ?_⟩
    rw [hlen]
    rcases hmove.stored hx with hpaid | ⟨asker, huser, hop, hok, hpaid⟩
    · omega
    · rw [hasked asker hop] at hasks
      cases hasks
      have hone := hone (hname huser) (hallowed hok)
      omega

theorem budget_reach
    (hr : Reach (Metered.step env fmt limit) (Metered.Regular env fmt limit u v) (.init ts) s) :
    ∃ place, Budget env fmt limit u v (ts.storedBy v) place s := by
  induction hr with
  | init => exact ⟨_, budget_init⟩
  | tail hbefore hc hs ih =>
    rename_i s₁ s₂ l
    obtain ⟨place, h⟩ := ih
    by_cases hl : ∃ i x, l.label = .run i x
    · obtain ⟨i, x, hl⟩ := hl
      obtain ⟨h', hnext⟩ := budget_run h hl hc hs
      exact ⟨_, hnext⟩
    · exact ⟨place, budget_env h (fun i x he => hl ⟨i, x, he⟩) hs⟩

end Runs

/-- **No flood**: whatever a user's sessions do, on any number of instances and in any interleaving,
if what the limiter has allowed him was in `k` minutes, then no more than `k` times the limit has
been stored for him. -/
theorem Metered.stored_le {env : Env} {fmt : FloatFormat} {limit k : Nat} {u : UserId} {v : Uuid}
    {ts : Tables} {s : Metered} {t : ℚ}
    (hr : Reach (Metered.step env fmt limit) (Metered.Regular env fmt limit u v) (.init ts) s)
    (hin : ∀ now ∈ s.limiter.allowed (Metered.key u), t < now ∧ now ≤ t + k * 60) :
    s.system.world.db.committed.storedBy v ≤ ts.storedBy v + k * limit := by
  obtain ⟨place, h⟩ := budget_reach hr
  have hlen : (s.limiter.allowed (Metered.key u)).length ≤ k * limit := by
    refine h.bounded.length_le (t := t) fun now hnow => ?_
    rw [nsmul_eq_mul]
    exact_mod_cast hin now hnow
  have hspent := h.spent
  have hstored : s.system.world.db.committed.storedBy v ≤ s.system.world.db.storedBy v :=
    Nat.le_add_right _ _
  omega

namespace Metered

open RateLimiter

/-- `Metered.Regular`, as a test: only the user `u` sends frames. -/
def isRegular (fmt : FloatFormat) (limit : Nat) (u : UserId) (s : Metered) (l : Metered.Label) :
    Bool :=
  match s.system.asks l.label with
  | none => true
  | some (user_id, _) => decide (user_id = u ∧ Ordered s.limiter (call limit u l) ∧
      Counted fmt s.limiter (call limit u l))

theorem regular_of_test {env : Env} {fmt : FloatFormat} {limit : Nat} {u : UserId} {v : Uuid}
    {s : Metered} {l : Metered.Label} (h : isRegular fmt limit u s l = true) :
    s.Regular env fmt limit u v l := by
  intro user_id x hasks
  simp only [isRegular, hasks, decide_eq_true_eq] at h
  obtain ⟨rfl, hcounted⟩ := h
  exact ⟨fun _ => rfl, fun _ => hcounted⟩

/-- The steps, all at one time. -/
def timed (now : ℚ) (labels : List NexusChat.Label) : List Metered.Label :=
  labels.map fun label => { label, now, clock := now }

/-- User 1 sends two messages within a second, and the limit is one. -/
def twoFrames : List Metered.Label :=
  timed 0 (System.enters 0 0 ++
      System.handles 0 (System.about "message" [("content", .str "hi")]) 6 1)
    ++ timed 1 (.receive 0 (System.about "message" [("content", .str "ho")]) ::
      [.run 0 { System.smooth 2 with ok := false }])

/-- The first of them is stored. -/
theorem stored_le_one : ∃ s, Reach (step .sample Sample.format 1)
      (Regular .sample Sample.format 1 "00000000-0000-0000-0000-000000000001" 1) (init .sample) s ∧
    s.limiter.calls.length = 2 ∧ s.system.world.db.committed.storedBy 1 = 1 ∧
    s.system.world.db.committed.storedBy 1 ≤ Tables.sample.storedBy 1 + 1 * 1 := by
  have hrun : ((replayIf (step .sample Sample.format 1)
      (isRegular Sample.format 1 "00000000-0000-0000-0000-000000000001") twoFrames
      (init .sample)).any fun s => decide (s.limiter.calls.length = 2) &&
        decide (s.system.world.db.committed.storedBy 1 = 1) &&
        decide (∀ now ∈ s.limiter.allowed (key "00000000-0000-0000-0000-000000000001"),
          (-1 : ℚ) < now ∧ now ≤ -1 + (1 : Nat) * 60)) = true := by
    decide +kernel
  obtain ⟨s, hs, hw⟩ := (Option.any_eq_true _ _).mp hrun
  simp only [Bool.and_eq_true, decide_eq_true_eq] at hw
  obtain ⟨⟨hcalls, hstored⟩, hin⟩ := hw
  have hr : Reach (step .sample Sample.format 1)
      (Regular .sample Sample.format 1 "00000000-0000-0000-0000-000000000001" 1) (init .sample) s :=
    .of_replayIf (fun _ _ => regular_of_test) .init hs
  exact ⟨s, hr, hcalls, hstored, stored_le hr hin⟩

end Metered

end NexusChat
