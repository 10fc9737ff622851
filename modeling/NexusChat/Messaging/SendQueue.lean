import NexusChat.Messaging.ManagerFacts

/-!
# The send queue of a connection

A connection has written some payloads, may be writing one, and has the rest queued: together,
in this order, they are what has `passed` its queue. This file says what each method and the
send task do to that list. Either a payload is appended, by `send_to_user` or by a broadcast and
only where the queue has room, or the list is drained (`Drains`): what is written next is taken
from its front, and it loses payloads only when the send task has come to its end and writes no
more.
-/

set_option autoImplicit false

namespace NexusChat

variable {π : Type}

namespace WebSocketConnection

/-- The payload in `send_text`. -/
def inFlight (k : WebSocketConnection π) : List π :=
  match k.sendTask with
  | .sending p => [p]
  | .waiting | .finished => []

/-- Written, being written, and queued. -/
def passed (k : WebSocketConnection π) : List π := k.sent ++ k.inFlight ++ k.sendQueue

def Finished (k : WebSocketConnection π) : Prop := k.sendTask = .finished

/-- From `k` to `k'` nothing is queued. -/
structure Drains (k k' : WebSocketConnection π) : Prop where
  sublist : k'.passed.Sublist k.passed
  written : k'.sent = k.sent ∨ (¬k.Finished ∧ k'.sent <+: k.passed)
  live : ¬k'.Finished → ¬k.Finished ∧ k'.passed = k.passed

theorem Drains.refl (k : WebSocketConnection π) : Drains k k :=
  ⟨List.Sublist.refl _, Or.inl rfl, fun h => ⟨h, rfl⟩⟩

/-- A change of anything but the queue, the send task and the history. -/
theorem Drains.of_eq {k k' : WebSocketConnection π} (hs : k'.sent = k.sent)
    (ht : k'.sendTask = k.sendTask) (hq : k'.sendQueue = k.sendQueue) : Drains k k' := by
  have hpassed : k'.passed = k.passed := by simp only [passed, inFlight, hs, ht, hq]
  refine ⟨?_, Or.inl hs, ?_⟩
  · rw [hpassed]
  · intro h
    rw [Finished, ht] at h
    exact ⟨h, hpassed⟩

/-- The send task is cancelled. -/
theorem Drains.cancel (k : WebSocketConnection π) : Drains k { k with sendTask := .finished } := by
  refine ⟨?_, Or.inl rfl, ?_⟩
  · simp only [passed, inFlight, List.append_nil]
    exact List.Sublist.append (List.sublist_append_left ..) (List.Sublist.refl _)
  · intro h
    exact absurd rfl h

/-- One more payload is queued. -/
theorem passed_enqueue (k : WebSocketConnection π) (p : π) :
    passed { k with sendQueue := k.sendQueue ++ [p] } = k.passed ++ [p] := by
  simp only [passed, inFlight, List.append_assoc]

end WebSocketConnection

namespace ConnectionManager

open WebSocketConnection

variable {m m' : ConnectionManager π} {c c' : ConnId}

/-- No operation but `send_to_user` queues anything; a new connection starts with nothing. -/
theorem drains_after {maxsize : Nat} {me : TaskId} {op : ManagerOp π}
    (hop : ∀ u p, op ≠ .sendToUser u p) : Drains (m.heap c) ((op.after maxsize me m).heap c) ∨
      (c = m.nextConn ∧ ∃ u name, (op.after maxsize me m).heap c = .fresh u name) := by
  cases op with
  | sendToUser u p => exact absurd rfl (hop u p)
  | accept | clientState | sendText | rooms | unlock => exact Or.inl (.refl _)
  | connectLocked u name =>
    simp only [ManagerOp.after]
    split
    · exact Or.inl (.refl _)
    · rw [heap_register]
      split
      · rename_i hc
        exact Or.inr ⟨hc, u, name, rfl⟩
      · exact Or.inl (.refl _)
  | close c₀ =>
    refine Or.inl ?_
    rw [ManagerOp.after, heap_closeSocket]
    split
    · rename_i hc
      rw [hc]
      -- a close leaves the queue to the send task
      exact .of_eq rfl rfl rfl
    · exact .refl _
  | forceCleanup c₀ =>
    refine Or.inl ?_
    rw [ManagerOp.after, heap_forceCleanup]
    split
    · rename_i hc
      rw [hc]
      -- the send task is cancelled, with what it has in hand
      exact .cancel _
    · exact .refl _
  | replace old u name =>
    show Drains _ (((m.forceCleanup old).register u name).heap c) ∨
      (_ ∧ ∃ u name, ((m.forceCleanup old).register _ _).heap c = _)
    rw [heap_register]
    split
    · rename_i hc
      exact Or.inr ⟨hc, u, name, rfl⟩
    · refine Or.inl ?_
      rw [heap_forceCleanup]
      split
      · rename_i hc
        rw [hc]
        exact .cancel _
      · exact .refl _
  | disconnectLocked u =>
    refine Or.inl ?_
    show Drains _ ((m.unregister u).heap c)
    rw [heap_unregister]
    split
    · exact .cancel _
    · exact .refl _
  | joinRoom u r =>
    refine Or.inl ?_
    rw [ManagerOp.after, heap_joinRoom]
    split
    · exact .of_eq rfl rfl rfl
    · exact .refl _
  | leaveRoom u r =>
    refine Or.inl ?_
    rw [ManagerOp.after, heap_leaveRoom]
    split
    · split
      · exact .of_eq rfl rfl rfl
      · exact .refl _
    · exact .refl _

theorem drains_clientGone : Drains (m.heap c) ((m.clientGone c').heap c) := by
  rw [clientGone, heap_modify]
  split
  · rename_i hc
    rw [hc]
    exact .of_eq rfl rfl rfl
  · exact .refl _

/-- The send task takes the first payload, to write it or to end with it. -/
theorem drains_sendTake (h : m.sendTake c' = some m') : Drains (m.heap c) (m'.heap c) := by
  unfold sendTake at h
  split at h
  · rename_i p queue htask hqueue
    cases h
    rw [heap_modify]
    split
    · rename_i hc
      subst hc
      have hpassed : (m.heap c).passed = (m.heap c).sent ++ p :: queue := by
        simp only [passed, inFlight, htask, hqueue, List.append_nil]
      by_cases hopen : (m.heap c).websocket = ⟨.connected, .connected⟩
      · rw [if_pos hopen]
        refine ⟨?_, Or.inl rfl, fun _ => ⟨by simp [Finished, htask], ?_⟩⟩
        · rw [hpassed]
          simp [passed, inFlight]
        · rw [hpassed]
          simp [passed, inFlight]
      · rw [if_neg hopen]
        refine ⟨?_, Or.inl rfl, fun hlive => absurd rfl hlive⟩
        rw [hpassed]
        simp [passed, inFlight]
    · exact .refl _
  · exact absurd h (by simp)

/-- The send task has written the payload, or ends. -/
theorem drains_sendDone {ok wrote : Bool} (h : m.sendDone c' ok wrote = some m') :
    Drains (m.heap c) (m'.heap c) := by
  unfold sendDone at h
  split at h
  · rename_i p htask
    cases h
    rw [heap_modify]
    split
    · rename_i hc
      subst hc
      have hpassed : (m.heap c).passed = (m.heap c).sent ++ p :: (m.heap c).sendQueue := by
        simp only [passed, inFlight, htask, List.append_assoc, List.cons_append, List.nil_append]
      have hlive : ¬(m.heap c).Finished := by simp [Finished, htask]
      by_cases hw : (ok || wrote) = true
      · rw [if_pos hw]
        refine ⟨?_, Or.inr ⟨hlive, ?_⟩, fun hf => ⟨hlive, ?_⟩⟩
        · rw [hpassed]
          cases ok <;> simp [passed, inFlight]
        · rw [hpassed]
          exact ⟨(m.heap c).sendQueue, by simp⟩
        · rw [hpassed]
          cases ok
          · exact absurd rfl hf
          · simp [passed, inFlight]
      · rw [if_neg hw]
        obtain ⟨rfl, -⟩ := Bool.or_eq_false_iff.mp (Bool.eq_false_iff.mpr hw)
        refine ⟨?_, Or.inl rfl, fun hf => absurd rfl hf⟩
        rw [hpassed]
        simp [passed, inFlight]
    · exact .refl _
  · exact absurd h (by simp)

/-- The registered connection of a user is the user's own, and has been allocated. -/
def Owned (m : ConnectionManager π) : Prop :=
  ∀ u c, m.connections.get? u = some c → (m.heap c).userId = u ∧ c < m.nextConn

theorem owned_congr (h : m.Owned) (hconn : ∀ u c, m'.connections.get? u = some c →
      m.connections.get? u = some c) (huser : ∀ c, (m'.heap c).userId = (m.heap c).userId)
    (hnext : m.nextConn ≤ m'.nextConn) : m'.Owned := by
  intro u c hc
  obtain ⟨hu, hlt⟩ := h u c (hconn u c hc)
  exact ⟨(huser c).trans hu, Nat.lt_of_lt_of_le hlt hnext⟩

theorem owned_modify (h : m.Owned) {f : WebSocketConnection π → WebSocketConnection π}
    (hf : ∀ k, (f k).userId = k.userId) : (m.modify c f).Owned :=
  owned_congr h (fun _ _ hc => hc) (fun _ => owner_modify hf) (Nat.le_refl _)

theorem owned_register (h : m.Owned) {u : UserId} {name : String} : (m.register u name).Owned := by
  intro u' c hc
  rw [get?_register] at hc
  split at hc
  · rename_i hu
    cases hc
    rw [heap_register, if_pos rfl]
    exact ⟨hu.symm, Nat.lt_succ_self _⟩
  · obtain ⟨hown, hlt⟩ := h u' c hc
    rw [heap_register, if_neg (Nat.ne_of_lt hlt)]
    exact ⟨hown, Nat.lt_succ_of_lt hlt⟩

theorem owned_forceCleanup (h : m.Owned) : (m.forceCleanup c).Owned := by
  refine owned_congr h (fun u c' hc => ?_) (fun c' => congrArg Prod.snd identity_forceCleanup)
    (Nat.le_refl _)
  rw [get?_forceCleanup] at hc
  split at hc
  · cases hc
  · exact hc

theorem owned_sendToUser (h : m.Owned) {maxsize : Nat} {u : UserId} {p : π} :
    (m.sendToUser maxsize u p).Owned :=
  owned_congr h (fun _ _ hc => by rwa [connections_sendToUser] at hc)
    (fun c => congrArg Prod.snd identity_sendToUser) (Nat.le_of_eq flags_sendToUser.1.symm)

theorem owned_after {maxsize : Nat} {me : TaskId} {op : ManagerOp π} (h : m.Owned) :
    (op.after maxsize me m).Owned := by
  cases op with
  | accept | clientState | sendText | rooms | unlock => exact h
  | connectLocked u name =>
    simp only [ManagerOp.after]
    split
    · exact h
    · exact owned_register h
  | close c₀ => exact owned_modify h fun _ => rfl
  | forceCleanup c₀ => exact owned_forceCleanup h
  | replace old u name => exact owned_register (owned_forceCleanup h)
  | disconnectLocked u =>
    refine owned_congr h (fun u' c hc => ?_) (fun c => congrArg Prod.snd identity_unregister)
      (Nat.le_of_eq nextConn_unregister.symm)
    have hc : (m.unregister u).connections.get? u' = some c := hc
    rw [get?_unregister] at hc
    split at hc
    · cases hc
    · exact hc
  | joinRoom u r =>
    exact owned_congr h (fun _ _ hc => by rwa [ManagerOp.after, connections_joinRoom] at hc)
      (fun c => congrArg Prod.snd identity_joinRoom) (Nat.le_of_eq nextConn_joinRoom.symm)
  | leaveRoom u r =>
    exact owned_congr h (fun _ _ hc => by rwa [ManagerOp.after, connections_leaveRoom] at hc)
      (fun c => congrArg Prod.snd identity_leaveRoom) (Nat.le_of_eq flags_leaveRoom.1.symm)
  | sendToUser u p => exact owned_sendToUser h

theorem nextConn_after {maxsize : Nat} {me : TaskId} {op : ManagerOp π} :
    m.nextConn ≤ (op.after maxsize me m).nextConn := by
  cases op with
  | accept | clientState | sendText | rooms | unlock | close | forceCleanup => exact Nat.le_refl _
  | connectLocked u name =>
    simp only [ManagerOp.after]
    split
    · exact Nat.le_refl _
    · exact Nat.le_succ _
  | replace old u name => exact Nat.le_succ _
  | disconnectLocked u => exact Nat.le_of_eq nextConn_unregister.symm
  | joinRoom u r => exact Nat.le_of_eq nextConn_joinRoom.symm
  | leaveRoom u r => exact Nat.le_of_eq flags_leaveRoom.1.symm
  | sendToUser u p => exact Nat.le_of_eq flags_sendToUser.1.symm

/-! ## What is queued -/

/-- The connection of one of the users. -/
def addressees (m : ConnectionManager π) (us : List UserId) (c : ConnId) : Bool :=
  us.any fun u => m.connections.get? u = some c

theorem addressees_eq_false {us : List UserId} : m.addressees us c = false ↔
    ∀ u ∈ us, m.connections.get? u ≠ some c := by
  simp [addressees]

theorem heap_deliver_of_ne {maxsize : Nat} {payload : π} {u : UserId}
    (h : m.connections.get? u ≠ some c) : (deliver maxsize payload m u).heap c = m.heap c := by
  rcases heap_deliver (m := m) (u := u) (c := c) (n := maxsize) (p := payload) with he | ⟨hget, -⟩
  · exact he
  · exact absurd hget h

theorem heap_deliver_self {maxsize : Nat} {payload : π} {u : UserId}
    (h : m.connections.get? u = some c) : (deliver maxsize payload m u).heap c =
      if full maxsize (m.heap c).sendQueue then m.heap c
      else { m.heap c with sendQueue := (m.heap c).sendQueue ++ [payload] } := by
  unfold deliver
  rw [h]
  dsimp only
  split
  · rfl
  · simp [enqueue, modify]

theorem heap_deliverAll_of_ne {maxsize : Nat} {payload : π} {us : List UserId}
    (h : m.addressees us c = false) :
    (us.foldl (deliver maxsize payload) m).heap c = m.heap c := by
  induction us generalizing m with
  | nil => rfl
  | cons u us ih =>
    obtain ⟨hu, hus⟩ := List.forall_mem_cons.mp (addressees_eq_false.mp h)
    rw [List.foldl_cons, ih, heap_deliver_of_ne hu]
    refine addressees_eq_false.mpr fun u' hu' => ?_
    rw [connections_deliver]
    exact hus u' hu'

/-- Connections have one owner, so a delivery to several users queues its payload at most once on
each connection. -/
theorem heap_deliverAll {maxsize : Nat} {payload : π} {us : List UserId} (h : m.Owned)
    (hnodup : us.Nodup) : (us.foldl (deliver maxsize payload) m).heap c =
      if m.addressees us c && !full maxsize (m.heap c).sendQueue then
        { m.heap c with sendQueue := (m.heap c).sendQueue ++ [payload] }
      else m.heap c := by
  induction us generalizing m with
  | nil => rfl
  | cons u us ih =>
    obtain ⟨hu, hus⟩ := List.nodup_cons.mp hnodup
    rw [List.foldl_cons]
    by_cases hget : m.connections.get? u = some c
    · -- nobody else among the users owns the connection
      have hrest : (deliver maxsize payload m u).addressees us c = false := by
        refine addressees_eq_false.mpr fun u' hu' hget' => hu ?_
        rw [connections_deliver] at hget'
        rw [← (h u c hget).1, (h u' c hget').1]
        exact hu'
      have hself : m.addressees (u :: us) c = true := by
        simp [addressees, hget]
      rw [heap_deliverAll_of_ne hrest, heap_deliver_self hget, hself]
      cases full maxsize (m.heap c).sendQueue <;> rfl
    · have howned : (deliver maxsize payload m u).Owned :=
        owned_congr h (fun _ _ hc => by rwa [connections_deliver] at hc)
          (fun _ => congrArg Prod.snd identity_deliver) (Nat.le_of_eq flags_deliver.1.symm)
      have hsame : (deliver maxsize payload m u).addressees us c = m.addressees (u :: us) c := by
        simp only [addressees, connections_deliver, List.any_cons]
        rw [decide_eq_false hget, Bool.false_or]
      rw [ih howned hus, heap_deliver_of_ne hget, hsame]

theorem heap_sendToUser_eq {maxsize : Nat} {payload : π} {u : UserId} :
    (m.sendToUser maxsize u payload).heap = (deliver maxsize payload m u).heap := by
  unfold sendToUser deliver
  cases m.connections.get? u with
  | none => rfl
  | some c =>
    dsimp only
    split <;> rfl

/-- **A broadcast queues its payload at most once** on each connection. -/
theorem passed_broadcastToRoom {maxsize : Nat} {room_id : RoomId} {payload : π}
    {exclude_user : Option UserId} (h : m.Owned) (c : ConnId) :
    ((m.broadcastToRoom maxsize room_id payload exclude_user).heap c) = m.heap c ∨
      ((m.broadcastToRoom maxsize room_id payload exclude_user).heap c) =
        { m.heap c with sendQueue := (m.heap c).sendQueue ++ [payload] } := by
  rw [broadcastToRoom, heap_deliverAll h ((m.getRoomUserIds room_id).nodup.filter _)]
  split
  · exact Or.inr rfl
  · exact Or.inl rfl

end ConnectionManager

end NexusChat
