import NexusChat.Messaging.ManagerRuns
import NexusChat.Messaging.SendQueue

/-!
# What a slow client misses

A payload that is addressed to a connection whose queue is full is dropped: `send_to_user` logs
it, `broadcast_to_room` schedules a forced disconnect as well. Neither stops what comes later. The
send task goes on taking payloads off the queue, so a later payload finds room again, and is
written unless the forced disconnect cancels the task before.

`Ledger` adds to a pool the history of what was addressed to each connection and whether it found
room. What is written is at any time the beginning of what found room.
-/

set_option autoImplicit false

namespace NexusChat

open ConnectionManager WebSocketConnection

variable {π : Type}

namespace ManagerPool

/-- The users that a step addresses a payload to. -/
def addressed (s : ManagerPool π) : PoolLabel π → Option (List UserId × π)
  | .broadcast room_id payload exclude_user =>
    some ((s.manager.getRoomUserIds room_id).elems.filter fun u => some u ≠ exclude_user, payload)
  | .sendToUser user_id payload => some ([user_id], payload)
  | .run i _ =>
    match s.tasks[i]?.bind Coro.head? with
    | some (.sendToUser user_id payload) => some ([user_id], payload)
    | _ => none
  | _ => none

/-- The payload that a step addresses to a connection, and whether it finds room. -/
def receives (maxsize : Nat) (s : ManagerPool π) (l : PoolLabel π) (c : ConnId) :
    Option (π × Bool) :=
  (s.addressed l).bind fun (us, payload) =>
    if s.manager.addressees us c then
      some (payload, !full maxsize (s.manager.heap c).sendQueue)
    else none

end ManagerPool

/-- A pool, and what has been addressed to each connection. -/
structure Ledger (π : Type) where
  pool : ManagerPool π
  history : ConnId → List (π × Bool)

namespace Ledger

def init : Ledger π := { pool := .init, history := fun _ => [] }

def step (maxsize : Nat) (l : Ledger π) (e : PoolLabel π) : Option (Ledger π) :=
  (l.pool.step maxsize e).map fun pool =>
    { pool, history := fun c => l.history c ++ (l.pool.receives maxsize e c).toList }

/-- The payloads addressed to a connection. -/
def addressed (l : Ledger π) (c : ConnId) : List π := (l.history c).map Prod.fst

/-- Those that found room in its queue. -/
def queued (l : Ledger π) (c : ConnId) : List π :=
  ((l.history c).filter Prod.snd).map Prod.fst

/-- Those that were written to its socket. -/
def written (l : Ledger π) (c : ConnId) : List π := (l.pool.manager.heap c).sent

end Ledger

/-! ## One step -/

/-- A step addresses nothing to the connection, or queues what it addresses to it where there is
room. -/
inductive QueueStep (k k' : WebSocketConnection π) : Option (π × Bool) → Prop where
  | none (h : Drains k k') : QueueStep k k' none
  | queued {p : π} (h : k' = { k with sendQueue := k.sendQueue ++ [p] }) :
      QueueStep k k' (some (p, true))
  | dropped {p : π} (h : k' = k) : QueueStep k k' (some (p, false))

/-- The payload of an entry that found room. -/
def queuedOf (e : Option (π × Bool)) : List π := (e.toList.filter Prod.snd).map Prod.fst

theorem QueueStep.queuedOf {k k' : WebSocketConnection π} {e : Option (π × Bool)} {q : List π}
    (h : QueueStep k k' e) (hw : k.sent <+: q) (hl : ¬k.Finished → k.passed = q) :
    k'.sent <+: q ++ queuedOf e ∧ (¬k'.Finished → k'.passed = q ++ queuedOf e) := by
  cases h with
  | none hd =>
    simp only [NexusChat.queuedOf, Option.toList_none, List.filter_nil, List.map_nil,
      List.append_nil]
    refine ⟨?_, fun hlive => ?_⟩
    · rcases hd.written with he | ⟨hlive, he⟩
      · rw [he]
        exact hw
      · rw [← hl hlive]
        exact he
    · obtain ⟨hlive, he⟩ := hd.live hlive
      rw [he, hl hlive]
  | @queued p hk =>
    subst hk
    have hone : NexusChat.queuedOf (some (p, true)) = [p] := rfl
    rw [hone]
    refine ⟨hw.trans (List.prefix_append ..), fun hlive => ?_⟩
    rw [passed_enqueue, hl hlive]
  | dropped hk =>
    subst hk
    simp only [NexusChat.queuedOf, Option.toList_some, List.filter_cons, List.filter_nil,
      Bool.false_eq_true, if_false, List.map_nil, List.append_nil]
    exact ⟨hw, hl⟩

section Step

variable {maxsize : Nat} {s s' : ManagerPool π} {m : ConnectionManager π} {c : ConnId}

theorem queueStep_deliverAll {us : List UserId} {payload : π} (h : m.Owned) (hnodup : us.Nodup) :
    QueueStep (m.heap c) ((us.foldl (deliver maxsize payload) m).heap c)
      (if m.addressees us c then some (payload, !full maxsize (m.heap c).sendQueue) else none) := by
  rw [heap_deliverAll h hnodup]
  by_cases ha : m.addressees us c = true
  · rw [if_pos ha, ha]
    cases full maxsize (m.heap c).sendQueue
    · exact .queued rfl
    · exact .dropped rfl
  · rw [if_neg ha, Bool.eq_false_iff.mpr ha]
    exact .none (.refl _)

theorem queueStep_sendToUser {u : UserId} {payload : π} (h : m.Owned) :
    QueueStep (m.heap c) ((m.sendToUser maxsize u payload).heap c)
      (if m.addressees [u] c then some (payload, !full maxsize (m.heap c).sendQueue) else none) := by
  rw [heap_sendToUser_eq]
  exact queueStep_deliverAll h (List.nodup_singleton u)

/-- What a step does to the queue of a connection. -/
theorem queueStep (h : s.manager.Owned) {l : PoolLabel π} (hs : s.step maxsize l = some s') :
    QueueStep (s.manager.heap c) (s'.manager.heap c) (s.receives maxsize l c) ∨
      (c = s.manager.nextConn ∧ s.receives maxsize l c = none ∧
        ∃ u name, s'.manager.heap c = .fresh u name) := by
  cases l with
  | call e => cases hs; exact Or.inl (.none (.refl _))
  | start =>
    simp only [ManagerPool.step] at hs
    split at hs
    · cases hs
    · cases hs; exact Or.inl (.none (.refl _))
  | broadcast r p ex =>
    cases hs
    exact Or.inl (queueStep_deliverAll h ((s.manager.getRoomUserIds r).nodup.filter _))
  | sendToUser u p =>
    cases hs
    exact Or.inl (queueStep_sendToUser h)
  | sendTake c' =>
    obtain ⟨m, hm, rfl⟩ := Option.map_eq_some_iff.mp hs
    exact Or.inl (.none (drains_sendTake hm))
  | sendDone c' ok wrote =>
    obtain ⟨m, hm, rfl⟩ := Option.map_eq_some_iff.mp hs
    exact Or.inl (.none (drains_sendDone hm))
  | clientGone c' => cases hs; exact Or.inl (.none drains_clientGone)
  | run i x =>
    simp only [ManagerPool.step] at hs
    split at hs
    · cases hs
    · rename_i p hi
      obtain ⟨⟨p', m⟩, hp, rfl⟩ := Option.map_eq_some_iff.mp hs
      obtain ⟨op, k, r, rfl, hx, rfl⟩ := Coro.step_eq_some hp
      obtain ⟨-, -, rfl⟩ := ManagerOp.exec_eq_some hx
      have hhead : s.tasks[i]?.bind Coro.head? = some op := by
        rw [hi]
        rfl
      -- the only operation of a task that puts something into a queue
      by_cases hsend : ∃ u p, op = .sendToUser u p
      · obtain ⟨u, p, rfl⟩ := hsend
        have hr : s.receives maxsize (.run i x) c =
            if s.manager.addressees [u] c then
              some (p, !full maxsize (s.manager.heap c).sendQueue)
            else none := by
          simp only [ManagerPool.receives, ManagerPool.addressed, hhead, Option.bind_some]
        rw [hr]
        exact Or.inl (queueStep_sendToUser h)
      · have hnot : ∀ u p, op ≠ .sendToUser u p := fun u p he => hsend ⟨u, p, he⟩
        have hr : s.receives maxsize (.run i x) c = none := by
          simp only [ManagerPool.receives, ManagerPool.addressed, hhead]
          split
          · rename_i u p he
            exact absurd (Option.some.inj he) (hnot u p)
          · rfl
        rw [hr]
        rcases drains_after (m := s.manager) (c := c) hnot with hd | ⟨hc, hf⟩
        · exact Or.inl (.none hd)
        · exact Or.inr ⟨hc, rfl, hf⟩

theorem owned_step (h : s.manager.Owned) {l : PoolLabel π} (hs : s.step maxsize l = some s') :
    s'.manager.Owned := by
  cases l with
  | call e => cases hs; exact h
  | start =>
    simp only [ManagerPool.step] at hs
    split at hs
    · cases hs
    · cases hs; exact h
  | broadcast r p ex =>
    cases hs
    exact owned_congr h (fun _ _ hc => by rwa [connections_broadcastToRoom] at hc)
      (fun _ => congrArg Prod.snd identity_broadcastToRoom)
      (Nat.le_of_eq flags_broadcastToRoom.1.symm)
  | sendToUser u p =>
    cases hs
    exact owned_sendToUser h
  | sendTake c' =>
    obtain ⟨m, hm, rfl⟩ := Option.map_eq_some_iff.mp hs
    obtain ⟨f, rfl, hf⟩ := sendTake_eq hm
    exact owned_modify h fun k => congrArg Prod.snd (hf k).2
  | sendDone c' ok wrote =>
    obtain ⟨m, hm, rfl⟩ := Option.map_eq_some_iff.mp hs
    obtain ⟨f, rfl, hf⟩ := sendDone_eq hm
    exact owned_modify h fun k => congrArg Prod.snd (hf k).2
  | clientGone c' =>
    cases hs
    exact owned_modify h fun _ => rfl
  | run i x =>
    simp only [ManagerPool.step] at hs
    split at hs
    · cases hs
    · obtain ⟨⟨p', m⟩, hp, rfl⟩ := Option.map_eq_some_iff.mp hs
      obtain ⟨op, k, r, rfl, hx, rfl⟩ := Coro.step_eq_some hp
      obtain ⟨-, -, rfl⟩ := ManagerOp.exec_eq_some hx
      exact owned_after h

theorem nextConn_step {l : PoolLabel π} (hs : s.step maxsize l = some s') :
    s.manager.nextConn ≤ s'.manager.nextConn := by
  cases l with
  | call e => cases hs; exact Nat.le_refl _
  | start =>
    simp only [ManagerPool.step] at hs
    split at hs
    · cases hs
    · cases hs; exact Nat.le_refl _
  | broadcast r p ex => cases hs; exact Nat.le_of_eq flags_broadcastToRoom.1.symm
  | sendToUser u p => cases hs; exact Nat.le_of_eq flags_sendToUser.1.symm
  | sendTake c' =>
    obtain ⟨m, hm, rfl⟩ := Option.map_eq_some_iff.mp hs
    obtain ⟨f, rfl, -⟩ := sendTake_eq hm
    exact Nat.le_refl _
  | sendDone c' ok wrote =>
    obtain ⟨m, hm, rfl⟩ := Option.map_eq_some_iff.mp hs
    obtain ⟨f, rfl, -⟩ := sendDone_eq hm
    exact Nat.le_refl _
  | clientGone c' => cases hs; exact Nat.le_refl _
  | run i x =>
    simp only [ManagerPool.step] at hs
    split at hs
    · cases hs
    · obtain ⟨⟨p', m⟩, hp, rfl⟩ := Option.map_eq_some_iff.mp hs
      obtain ⟨op, k, r, rfl, hx, rfl⟩ := Coro.step_eq_some hp
      obtain ⟨-, -, rfl⟩ := ManagerOp.exec_eq_some hx
      exact nextConn_after

/-- Nothing is addressed to a connection that does not exist yet. -/
theorem receives_unborn (h : s.manager.Owned) (hc : s.manager.nextConn ≤ c) {l : PoolLabel π} :
    s.receives maxsize l c = none := by
  have hnone : ∀ us, s.manager.addressees us c = false := fun us =>
    addressees_eq_false.mpr fun u _ hget => Nat.not_lt.mpr hc (h u c hget).2
  unfold ManagerPool.receives
  cases s.addressed l with
  | none => rfl
  | some e => simp [hnone]

end Step

/-! ## Every run -/

namespace Ledger

/-- What is written is the beginning of what was queued; as long as the send task lives, the rest
of it is still to come. -/
structure Inv (l : Ledger π) : Prop where
  owned : l.pool.manager.Owned
  unborn : ∀ c, l.pool.manager.nextConn ≤ c → l.history c = []
  written : ∀ c, l.written c <+: l.queued c
  live : ∀ c, ¬(l.pool.manager.heap c).Finished → (l.pool.manager.heap c).passed = l.queued c

theorem inv_init : (init : Ledger π).Inv where
  owned := fun _ _ hc => by cases hc
  unborn := fun _ _ => rfl
  written := fun _ => List.prefix_refl []
  live := fun _ _ => rfl

theorem Inv.step {maxsize : Nat} {l l' : Ledger π} {e : PoolLabel π} (h : l.Inv)
    (hs : l.step maxsize e = some l') : l'.Inv := by
  obtain ⟨pool, hp, rfl⟩ := Option.map_eq_some_iff.mp hs
  have hqueued : ∀ c, (Ledger.queued ⟨pool, fun c => l.history c ++
      (l.pool.receives maxsize e c).toList⟩ c) =
        l.queued c ++ queuedOf (l.pool.receives maxsize e c) := by
    intro c
    simp only [queued, queuedOf, List.filter_append, List.map_append]
  have hconn : ∀ c, (pool.manager.heap c).sent <+:
      l.queued c ++ queuedOf (l.pool.receives maxsize e c) ∧
        (¬(pool.manager.heap c).Finished → (pool.manager.heap c).passed =
          l.queued c ++ queuedOf (l.pool.receives maxsize e c)) := by
    intro c
    rcases queueStep (c := c) h.owned hp with hq | ⟨hc, hr, u, name, hf⟩
    · exact hq.queuedOf (h.written c) (h.live c)
    · -- a new connection, to which nothing has been addressed
      have hempty : l.queued c = [] := by
        rw [queued, h.unborn c (Nat.le_of_eq hc.symm)]
        rfl
      rw [hf, hr, hempty]
      exact ⟨List.nil_prefix, fun _ => rfl⟩
  refine ⟨owned_step h.owned hp, fun c hc => ?_, fun c => ?_, fun c => ?_⟩
  · have hold : l.pool.manager.nextConn ≤ c := (nextConn_step hp).trans hc
    show l.history c ++ (l.pool.receives maxsize e c).toList = []
    rw [h.unborn c hold, receives_unborn h.owned hold]
    rfl
  · rw [hqueued]
    exact (hconn c).1
  · rw [hqueued]
    exact (hconn c).2

theorem inv_reach {maxsize : Nat} {l : Ledger π}
    (hr : Reach (step maxsize) Always init l) : l.Inv :=
  hr.invariant inv_init fun _ _ _ h _ hs => h.step hs

/-- **What is written to a connection is the beginning of what found room in its queue**, so a
part, in order, of what was addressed to it, and the beginning of that as long as nothing has been
dropped. -/
theorem written_prefix_queued {maxsize : Nat} {l : Ledger π}
    (hr : Reach (step maxsize) Always init l) (c : ConnId) :
    l.written c <+: l.queued c ∧ (l.queued c).Sublist (l.addressed c) ∧
      ((∀ e ∈ l.history c, e.2 = true) → l.written c <+: l.addressed c) := by
  have hpre : l.written c <+: l.queued c := (inv_reach hr).written c
  refine ⟨hpre, List.filter_sublist.map _, fun hall => ?_⟩
  have heq : l.queued c = l.addressed c := by
    rw [queued, List.filter_eq_self.mpr hall, addressed]
  rw [← heq]
  exact hpre

/-! ## A client that catches up -/

/-- User "u" connects, and is sent a hundred payloads while its send task does not run; the next
one is dropped. -/
def flooded : List (PoolLabel Nat) :=
  .call (.connect "u" "u") :: List.replicate 2 (.run 0 { ok := true, order := [] }) ++
    (List.range 101).map (.sendToUser "u")

/-- The client catches up with a payload, and a further one is addressed to it and written. -/
def caughtUp : List (PoolLabel Nat) :=
  flooded ++ [.sendTake 0, .sendDone 0 true true, .sendToUser "u" 101] ++
    (List.replicate 100 [.sendTake 0, .sendDone 0 true true]).flatten

set_option maxRecDepth 20000 in
/-- What is written skips the payload that was dropped. -/
theorem written_prefix_queued_caughtUp : ∃ l : Ledger Nat, replay (step 100) caughtUp init = some l ∧
    l.written 0 = List.range 100 ++ [101] ∧ l.written 0 <+: l.queued 0 := by
  have hrun : ((replay (step 100) caughtUp init).any fun l =>
      l.written 0 = List.range 100 ++ [101]) = true := by
    decide +kernel
  obtain ⟨l, hl, hw⟩ := Option.any_eq_true _ _ |>.mp hrun
  exact ⟨l, hl, of_decide_eq_true hw, (written_prefix_queued (.of_replay .init hl) 0).1⟩

set_option maxRecDepth 20000 in
/-- **A payload that was addressed after one that was dropped is written.** -/
theorem not_written_prefix_addressed : ¬∀ (maxsize : Nat) (l : Ledger Nat),
    Reach (step maxsize) Always init l → ∀ c, l.written c <+: l.addressed c := by
  intro hall
  have hrun : ((replay (step 100) caughtUp init).any fun l =>
      !(l.written 0).isPrefixOf (l.addressed 0)) = true := by
    decide +kernel
  obtain ⟨l, hl, hw⟩ := Option.any_eq_true _ _ |>.mp hrun
  have hpre := hall 100 l (.of_replay .init hl) 0
  rw [← List.isPrefixOf_iff_prefix] at hpre
  simp [hpre] at hw

end Ledger

end NexusChat
