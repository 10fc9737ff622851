import NexusChat.Messaging.ConnectionManager

/-!
# What the manager's methods do, view by view

Everything later proofs need to know about `ConnectionManager` is one of four views: the
registration `connections.get? u`, the membership `u ∈ getRoomUserIds r`, the connection object
`heap c`, and the flags. This file says for each method what it does to each view, once, so
that no later proof unfolds a method or looks inside a dictionary.
-/

set_option autoImplicit false

namespace NexusChat.ConnectionManager

variable {π : Type} {m : ConnectionManager π} {u u' : UserId} {r r' : RoomId} {c c' : ConnId}

/-! ## The room index -/

/-- `index.get(room_id, set())` -/
def roomOf (index : Dict RoomId (PySet UserId)) (room_id : RoomId) : PySet UserId :=
  (index.get? room_id).getD ∅

theorem getRoomUserIds_eq : m.getRoomUserIds r = roomOf m.roomConnections r := rfl

/-- Whether or not it prunes, one pass of the cleanup loop takes `u` out of the set of `r` and
changes nothing else. -/
theorem mem_roomOf_dropUser {prune : Bool} {index : Dict RoomId (PySet UserId)} :
    u' ∈ roomOf (dropUser prune u index r) r' ↔ u' ∈ roomOf index r' ∧ ¬(r' = r ∧ u' = u) := by
  unfold dropUser
  cases hg : index.get? r with
  | none =>
    refine ⟨fun h => ⟨h, ?_⟩, fun h => h.1⟩
    rintro ⟨rfl, rfl⟩
    simp [roomOf, hg] at h
  | some users =>
    dsimp only
    by_cases he : users.isEmpty = true
    · rw [if_pos he]
      refine ⟨fun h => ⟨h, ?_⟩, fun h => h.1⟩
      rintro ⟨rfl, rfl⟩
      exact PySet.isEmpty_iff.mp he u' (by simpa [roomOf, hg] using h)
    · rw [if_neg he]
      by_cases hp : (prune && (users.discard u).isEmpty) = true
      · rw [if_pos hp]
        have hd := PySet.isEmpty_iff.mp (Bool.and_eq_true_iff.mp hp).2
        by_cases hr : r' = r
        · subst hr
          have hout := hd u'
          simp only [PySet.mem_discard, not_and, not_not] at hout
          simpa [roomOf, hg, Dict.get?_pop] using hout
        · simp [roomOf, Dict.get?_pop, hr]
      · rw [if_neg hp]
        by_cases hr : r' = r
        · subst hr
          simp [roomOf, hg]
        · simp [roomOf, Dict.get?_set, hr]

/-- The whole cleanup loop over a list of rooms. -/
theorem mem_roomOf_foldl_dropUser {prune : Bool} (rooms : List RoomId)
    (index : Dict RoomId (PySet UserId)) :
    u' ∈ roomOf (rooms.foldl (dropUser prune u) index) r' ↔
      u' ∈ roomOf index r' ∧ ¬(r' ∈ rooms ∧ u' = u) := by
  induction rooms generalizing index with
  | nil => simp
  | cons r rooms ih =>
    rw [List.foldl_cons, ih, mem_roomOf_dropUser]
    simp only [List.mem_cons]
    tauto

@[simp] theorem mem_getRoomUserIds_modify {f : WebSocketConnection π → WebSocketConnection π} :
    u' ∈ (m.modify c f).getRoomUserIds r ↔ u' ∈ m.getRoomUserIds r := Iff.rfl

@[simp] theorem mem_getRoomUserIds_register {name : String} :
    u' ∈ (m.register u name).getRoomUserIds r ↔ u' ∈ m.getRoomUserIds r := Iff.rfl

theorem mem_getRoomUserIds_unregister :
    u' ∈ (m.unregister u).getRoomUserIds r ↔ u' ∈ m.getRoomUserIds r ∧
      ¬(u' = u ∧ ∃ c, m.connections.get? u = some c ∧ r ∈ (m.heap c).rooms) := by
  unfold unregister
  cases hg : m.connections.get? u with
  | none => simp
  | some c =>
    have hrec : u' ∈ roomOf ((m.heap c).rooms.elems.foldl (dropUser true u) m.roomConnections) r ↔
        u' ∈ roomOf m.roomConnections r ∧ ¬(r ∈ (m.heap c).rooms ∧ u' = u) :=
      mem_roomOf_foldl_dropUser _ _
    simp only [getRoomUserIds_eq, cancelSend, modify, hrec, Option.some.injEq, exists_eq_left']
    tauto

theorem mem_getRoomUserIds_forceCleanup :
    u' ∈ (m.forceCleanup c).getRoomUserIds r ↔ u' ∈ m.getRoomUserIds r ∧
      ¬(u' = (m.heap c).userId ∧ r ∈ (m.heap c).rooms) := by
  have hrec : u' ∈ roomOf ((m.heap c).rooms.elems.foldl (dropUser false (m.heap c).userId)
      m.roomConnections) r ↔
        u' ∈ roomOf m.roomConnections r ∧ ¬(r ∈ (m.heap c).rooms ∧ u' = (m.heap c).userId) :=
    mem_roomOf_foldl_dropUser _ _
  simp only [getRoomUserIds_eq, forceCleanup, cancelSend, modify, hrec]
  tauto

theorem mem_getRoomUserIds_joinRoom :
    u' ∈ (m.joinRoom u r).getRoomUserIds r' ↔ u' ∈ m.getRoomUserIds r' ∨
      (u' = u ∧ r' = r ∧ ∃ c, m.connections.get? u = some c) := by
  unfold joinRoom
  cases hg : m.connections.get? u with
  | none => simp
  | some c =>
    by_cases hr : r' = r
    · subst hr
      simp [getRoomUserIds, or_comm]
    · simp [getRoomUserIds, Dict.get?_set, hr]

theorem mem_getRoomUserIds_leaveRoom {room : Json} :
    u' ∈ (m.leaveRoom u room).2.getRoomUserIds r' ↔ u' ∈ m.getRoomUserIds r' ∧
      ¬(u' = u ∧ room = .str r' ∧ ∃ c, m.connections.get? u = some c) := by
  unfold leaveRoom
  cases hg : m.connections.get? u with
  | none => simp
  | some c =>
    cases room with
    | str r =>
      simp only [getRoomUserIds_eq, modify, mem_roomOf_dropUser, Json.str.injEq]
      simp only [Option.some.injEq, exists_eq', and_true]
      constructor
      · rintro ⟨h, hn⟩
        exact ⟨h, fun ⟨hu, hr⟩ => hn ⟨hr.symm, hu⟩⟩
      · rintro ⟨h, hn⟩
        exact ⟨h, fun ⟨hr, hu⟩ => hn ⟨hu, hr.symm⟩⟩
    | _ => simp

theorem roomConnections_sendToUser {n : Nat} {p : π} :
    (m.sendToUser n u p).roomConnections = m.roomConnections := by
  unfold sendToUser
  split
  · rfl
  · split <;> rfl

theorem roomConnections_deliver {n : Nat} {p : π} :
    (deliver n p m u).roomConnections = m.roomConnections := by
  unfold deliver
  split
  · rfl
  · split <;> rfl

/-! ## Registration -/

theorem get?_register {name : String} : (m.register u name).connections.get? u' =
    if u' = u then some m.nextConn else m.connections.get? u' := by
  simp [register, Dict.get?_set]

theorem get?_unregister : (m.unregister u).connections.get? u' =
    if u' = u then none else m.connections.get? u' := by
  unfold unregister
  cases hg : m.connections.get? u with
  | none =>
    by_cases hu : u' = u
    · simp [hu, hg]
    · simp [hu]
  | some c => simp [cancelSend, modify, Dict.get?_pop]

theorem get?_forceCleanup : (m.forceCleanup c).connections.get? u' =
    if u' = (m.heap c).userId then none else m.connections.get? u' := by
  simp [forceCleanup, cancelSend, modify, Dict.get?_pop]

@[simp] theorem connections_joinRoom : (m.joinRoom u r).connections = m.connections := by
  unfold joinRoom
  split <;> rfl

@[simp] theorem connections_leaveRoom {room : Json} :
    (m.leaveRoom u room).2.connections = m.connections := by
  unfold leaveRoom
  split
  · rfl
  · split <;> rfl

@[simp] theorem connections_sendToUser {n : Nat} {p : π} :
    (m.sendToUser n u p).connections = m.connections := by
  unfold sendToUser
  split
  · rfl
  · split <;> rfl

@[simp] theorem connections_deliver {n : Nat} {p : π} :
    (deliver n p m u).connections = m.connections := by
  unfold deliver
  split
  · rfl
  · split <;> rfl

/-! ## Connection objects -/

theorem heap_modify {f : WebSocketConnection π → WebSocketConnection π} :
    (m.modify c f).heap c' = if c' = c then f (m.heap c) else m.heap c' := by
  simp [modify, Function.update_apply]

theorem heap_closeSocket : (m.closeSocket c).heap c' = if c' = c then
    { m.heap c with websocket := { (m.heap c).websocket with applicationState := .disconnected } }
    else m.heap c' := heap_modify

theorem heap_register {name : String} : (m.register u name).heap c =
    if c = m.nextConn then .fresh u name else m.heap c := by
  simp [register, Function.update_apply]

theorem heap_unregister : (m.unregister u).heap c =
    if m.connections.get? u = some c then { m.heap c with sendTask := .finished }
    else m.heap c := by
  unfold unregister
  cases hg : m.connections.get? u with
  | none => simp
  | some c₀ =>
    by_cases hc : c = c₀
    · subst hc; simp [cancelSend, modify]
    · have hne : c₀ ≠ c := fun h => hc h.symm
      simp [cancelSend, modify, hne, hc]

theorem heap_forceCleanup : (m.forceCleanup c).heap c' =
    if c' = c then { m.heap c with sendTask := .finished } else m.heap c' := by
  simp [forceCleanup, cancelSend, modify, Function.update_apply]

theorem heap_joinRoom : (m.joinRoom u r).heap c =
    if m.connections.get? u = some c then { m.heap c with rooms := (m.heap c).rooms.add r }
    else m.heap c := by
  unfold joinRoom
  cases hg : m.connections.get? u with
  | none => simp
  | some c₀ =>
    by_cases hc : c = c₀
    · subst hc; simp [modify]
    · have hne : c₀ ≠ c := fun h => hc h.symm
      simp [modify, hc, hne]

theorem heap_leaveRoom {room : Json} : (m.leaveRoom u room).2.heap c =
    match room with
    | .str r =>
      if m.connections.get? u = some c then
        { m.heap c with rooms := (m.heap c).rooms.discard r }
      else m.heap c
    | _ => m.heap c := by
  unfold leaveRoom
  cases hg : m.connections.get? u with
  | none => cases room <;> simp
  | some c₀ =>
    cases room with
    | str r =>
      by_cases hc : c = c₀
      · subst hc; simp [modify]
      · have hne : c₀ ≠ c := fun h => hc h.symm
        simp [modify, hc, hne]
    | _ => rfl

/-- `send_to_user` appends at most one payload, to the user's registered connection. -/
theorem heap_sendToUser {n : Nat} {p : π} : (m.sendToUser n u p).heap c = m.heap c ∨
    (m.connections.get? u = some c ∧ (m.sendToUser n u p).heap c =
      { m.heap c with sendQueue := (m.heap c).sendQueue ++ [p] }) := by
  unfold sendToUser
  cases hg : m.connections.get? u with
  | none => exact Or.inl rfl
  | some c₀ =>
    dsimp only
    split
    · exact Or.inl rfl
    · by_cases hc : c = c₀
      · subst hc
        exact Or.inr ⟨rfl, by simp [enqueue, modify]⟩
      · exact Or.inl (by simp [enqueue, modify, hc])

theorem heap_deliver {n : Nat} {p : π} : (deliver n p m u).heap c = m.heap c ∨
    (m.connections.get? u = some c ∧ (deliver n p m u).heap c =
      { m.heap c with sendQueue := (m.heap c).sendQueue ++ [p] }) := by
  unfold deliver
  cases hg : m.connections.get? u with
  | none => exact Or.inl rfl
  | some c₀ =>
    dsimp only
    split
    · exact Or.inl rfl
    · by_cases hc : c = c₀
      · subst hc
        exact Or.inr ⟨rfl, by simp [enqueue, modify]⟩
      · exact Or.inl (by simp [enqueue, modify, hc])

/-! ## Owners and sockets

No method but `connect` and `close` touches whose a connection is or its socket. -/

/-- The part of a connection object that is fixed once it is accepted, until a close. -/
def identity (k : WebSocketConnection π) : WebSocket × UserId := (k.websocket, k.userId)

@[simp] theorem identity_unregister :
    identity ((m.unregister u).heap c) = identity (m.heap c) := by
  rw [heap_unregister]; split <;> rfl

@[simp] theorem identity_forceCleanup :
    identity ((m.forceCleanup c').heap c) = identity (m.heap c) := by
  rw [heap_forceCleanup]
  split
  · rename_i hq; subst hq; rfl
  · rfl

@[simp] theorem identity_joinRoom :
    identity ((m.joinRoom u r).heap c) = identity (m.heap c) := by
  rw [heap_joinRoom]; split <;> rfl

@[simp] theorem identity_leaveRoom {room : Json} :
    identity ((m.leaveRoom u room).2.heap c) = identity (m.heap c) := by
  rw [heap_leaveRoom]
  split
  · split <;> rfl
  · rfl

@[simp] theorem identity_sendToUser {n : Nat} {p : π} :
    identity ((m.sendToUser n u p).heap c) = identity (m.heap c) := by
  rcases heap_sendToUser (m := m) (u := u) (c := c) (n := n) (p := p) with he | ⟨-, he⟩
  · rw [he]
  · rw [he]; rfl

@[simp] theorem identity_deliver {n : Nat} {p : π} :
    identity ((deliver n p m u).heap c) = identity (m.heap c) := by
  rcases heap_deliver (m := m) (u := u) (c := c) (n := n) (p := p) with he | ⟨-, he⟩
  · rw [he]
  · rw [he]; rfl

/-! ## Flags -/

@[simp] theorem nextConn_unregister : (m.unregister u).nextConn = m.nextConn := by
  unfold unregister; split <;> rfl

@[simp] theorem nextConn_joinRoom : (m.joinRoom u r).nextConn = m.nextConn := by
  unfold joinRoom; split <;> rfl

@[simp] theorem lock_joinRoom : (m.joinRoom u r).lock = m.lock := by
  unfold joinRoom; split <;> rfl

/-- Of the flags, `leave_room` and `send_to_user` change none. -/
theorem flags_leaveRoom {room : Json} : (m.leaveRoom u room).2.nextConn = m.nextConn ∧
    (m.leaveRoom u room).2.lock = m.lock ∧ (m.leaveRoom u room).2.joined = m.joined := by
  unfold leaveRoom
  split
  · exact ⟨rfl, rfl, rfl⟩
  · split <;> exact ⟨rfl, rfl, rfl⟩

theorem flags_sendToUser {n : Nat} {p : π} : (m.sendToUser n u p).nextConn = m.nextConn ∧
    (m.sendToUser n u p).lock = m.lock ∧ (m.sendToUser n u p).joined = m.joined := by
  unfold sendToUser
  split
  · exact ⟨rfl, rfl, rfl⟩
  · split <;> exact ⟨rfl, rfl, rfl⟩

theorem flags_deliver {n : Nat} {p : π} : (deliver n p m u).nextConn = m.nextConn ∧
    (deliver n p m u).lock = m.lock ∧ (deliver n p m u).joined = m.joined := by
  unfold deliver
  split
  · exact ⟨rfl, rfl, rfl⟩
  · split <;> exact ⟨rfl, rfl, rfl⟩

/-! ## A whole broadcast -/

/-- What every delivery preserves, a broadcast preserves. -/
theorem broadcastToRoom_induction {n : Nat} {p : π} {ex : Option UserId}
    {P : ConnectionManager π → Prop} (h₀ : P m) (hd : ∀ m u, P m → P (deliver n p m u)) :
    P (m.broadcastToRoom n r p ex) := by
  unfold broadcastToRoom
  generalize (m.getRoomUserIds r).elems.filter _ = us
  induction us generalizing m with
  | nil => exact h₀
  | cons u us ih => exact ih (hd m u h₀)

theorem connections_broadcastToRoom {n : Nat} {p : π} {ex : Option UserId} :
    (m.broadcastToRoom n r p ex).connections = m.connections :=
  broadcastToRoom_induction (P := fun m' => m'.connections = m.connections) rfl
    fun _ _ h => connections_deliver.trans h

theorem roomConnections_broadcastToRoom {n : Nat} {p : π} {ex : Option UserId} :
    (m.broadcastToRoom n r p ex).roomConnections = m.roomConnections :=
  broadcastToRoom_induction (P := fun m' => m'.roomConnections = m.roomConnections) rfl
    fun _ _ h => roomConnections_deliver.trans h

theorem flags_broadcastToRoom {n : Nat} {p : π} {ex : Option UserId} :
    (m.broadcastToRoom n r p ex).nextConn = m.nextConn ∧
      (m.broadcastToRoom n r p ex).lock = m.lock ∧
      (m.broadcastToRoom n r p ex).joined = m.joined :=
  broadcastToRoom_induction (P := fun m' => m'.nextConn = m.nextConn ∧ m'.lock = m.lock ∧
    m'.joined = m.joined) ⟨rfl, rfl, rfl⟩
    fun _ _ h => ⟨flags_deliver.1.trans h.1, flags_deliver.2.1.trans h.2.1,
      flags_deliver.2.2.trans h.2.2⟩

@[simp] theorem identity_broadcastToRoom {n : Nat} {p : π} {ex : Option UserId} :
    identity ((m.broadcastToRoom n r p ex).heap c) = identity (m.heap c) :=
  broadcastToRoom_induction (P := fun m' => identity (m'.heap c) = identity (m.heap c)) rfl
    fun _ _ h => identity_deliver.trans h

/-! ## The send task

Each of its two steps changes one connection object, and there neither the owner nor the rooms
nor the socket. -/

theorem sendTake_eq {m' : ConnectionManager π} (h : m.sendTake c = some m') :
    ∃ f, m' = m.modify c f ∧ ∀ k, (f k).rooms = k.rooms ∧ identity (f k) = identity k := by
  unfold sendTake at h
  split at h
  · exact ⟨_, (Option.some.inj h).symm, fun k => ⟨rfl, rfl⟩⟩
  · exact absurd h (by simp)

theorem sendDone_eq {ok wrote : Bool} {m' : ConnectionManager π}
    (h : m.sendDone c ok wrote = some m') :
    ∃ f, m' = m.modify c f ∧ ∀ k, (f k).rooms = k.rooms ∧ identity (f k) = identity k := by
  unfold sendDone at h
  split at h
  · exact ⟨_, (Option.some.inj h).symm, fun k => ⟨rfl, rfl⟩⟩
  · exact absurd h (by simp)

theorem roomConnections_sendTake {m' : ConnectionManager π} (h : m.sendTake c = some m') :
    m'.roomConnections = m.roomConnections := by
  obtain ⟨f, rfl, -⟩ := sendTake_eq h
  rfl

theorem roomConnections_sendDone {ok wrote : Bool} {m' : ConnectionManager π}
    (h : m.sendDone c ok wrote = some m') : m'.roomConnections = m.roomConnections := by
  obtain ⟨f, rfl, -⟩ := sendDone_eq h
  rfl

theorem owner_modify {f : WebSocketConnection π → WebSocketConnection π}
    (hf : ∀ k, (f k).userId = k.userId) :
    ((m.modify c f).heap c').userId = (m.heap c').userId := by
  rw [heap_modify]
  split
  · rename_i hq; subst hq; exact hf _
  · rfl

/-! ## Who is registered -/

/-- Whoever is registered after an operation was registered before, or it has registered them, with
a new connection. -/
theorem registered_after {maxsize : Nat} {me : TaskId} {o : ManagerOp π}
    (h : (o.after maxsize me m).connections.get? u = some c) :
    m.connections.get? u = some c ∨ c = m.nextConn ∧
      ((∃ name, o = .connectLocked u name ∧ m.connections.get? u = none) ∨
        ∃ old name, o = .replace old u name) := by
  have hregister : ∀ {m₁ : ConnectionManager π} {v : UserId} (name : String),
      (m₁.register v name).connections.get? u = some c →
        (u = v ∧ c = m₁.nextConn) ∨ m₁.connections.get? u = some c := by
    intro m₁ v name hget
    rw [get?_register] at hget
    split at hget
    · exact .inl ⟨‹_›, (Option.some.inj hget).symm⟩
    · exact .inr hget
  have hforce : ∀ {c' : ConnId}, (m.forceCleanup c').connections.get? u = some c →
      m.connections.get? u = some c := by
    intro c' hget
    rw [get?_forceCleanup] at hget
    split at hget
    · cases hget
    · exact hget
  cases o with
  | accept | clientState | sendText | rooms | unlock | close => exact .inl h
  | connectLocked v name =>
    cases hv : m.connections.get? v with
    | some c' =>
      simp only [ManagerOp.after, hv] at h
      exact .inl h
    | none =>
      simp only [ManagerOp.after, hv] at h
      rcases hregister name h with ⟨rfl, hnew⟩ | hold
      · exact .inr ⟨hnew, .inl ⟨name, rfl, hv⟩⟩
      · exact .inl hold
  | forceCleanup c' => exact .inl (hforce h)
  | replace old v name =>
    rcases @hregister (m.forceCleanup old) v name h with ⟨rfl, hnew⟩ | hold
    · exact .inr ⟨hnew, .inr ⟨old, name, rfl⟩⟩
    · exact .inl (hforce hold)
  | disconnectLocked v =>
    have hget : (m.unregister v).connections.get? u = some c := h
    rw [get?_unregister] at hget
    split at hget
    · cases hget
    · exact .inl hget
  | joinRoom v r =>
    have hget : (m.joinRoom v r).connections.get? u = some c := h
    rw [connections_joinRoom] at hget
    exact .inl hget
  | leaveRoom v r =>
    have hget : (m.leaveRoom v r).2.connections.get? u = some c := h
    rw [connections_leaveRoom] at hget
    exact .inl hget
  | sendToUser v p =>
    have hget : (m.sendToUser maxsize v p).connections.get? u = some c := h
    rw [connections_sendToUser] at hget
    exact .inl hget

end NexusChat.ConnectionManager
