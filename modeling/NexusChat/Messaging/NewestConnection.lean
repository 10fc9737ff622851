import NexusChat.Messaging.SingleSession

/-!
# The newest connection of a user

The manager's methods are keyed by user, and find the connection that is registered, which is the
newest one of the user. `Untouched` says that it is left alone: it stays registered and open, with
the rooms it has, and no newer one comes. An operation that `Spares` it does so (`untouched_after`).
-/

set_option autoImplicit false

namespace NexusChat

namespace ConnectionManager

variable {π : Type}

/-- The connection is registered, and is the last one made for its user. -/
structure Newest (m : ConnectionManager π) (u : UserId) (n : ConnId) : Prop where
  registered : m.connections.get? u = some n
  last : ∀ c, c < m.nextConn → (m.heap c).userId = u → c ≤ n

/-- The connection of the user is still registered, there is no newer one, and its rooms, its
user's entries in the index and its socket are as they were. -/
structure Untouched (m m' : ConnectionManager π) (u : UserId) (n : ConnId) : Prop where
  registered : m'.connections.get? u = some n
  newer : ∀ c, c < m'.nextConn → (m'.heap c).userId = u → c < m.nextConn ∧ (m.heap c).userId = u
  rooms : ∀ room, room ∈ (m'.heap n).rooms ↔ room ∈ (m.heap n).rooms
  entries : ∀ room, u ∈ m'.getRoomUserIds room ↔ u ∈ m.getRoomUserIds room
  socket : (m'.heap n).websocket.applicationState = (m.heap n).websocket.applicationState

/-- The operations that change registrations, rooms or sockets. -/
def Alters : ManagerOp π → Prop
  | .close _ | .forceCleanup _ | .replace _ _ _ | .disconnectLocked _ | .joinRoom _ _
  | .leaveRoom _ _ => True
  | _ => False

/-- The operation, keyed by the user, reaches the registered connection `n` and makes a
difference to it. -/
def Reaches (m : ConnectionManager π) (u : UserId) (n : ConnId) : ManagerOp π → Prop
  | .disconnectLocked _ | .forceCleanup _ => True
  | .joinRoom _ room => ¬(room ∈ (m.heap n).rooms ∧ u ∈ m.getRoomUserIds room)
  | .leaveRoom _ room_id =>
    ∃ room, room_id = .str room ∧ (room ∈ (m.heap n).rooms ∨ u ∈ m.getRoomUserIds room)
  | _ => False

/-- The operation leaves the registered connection of the user alone. -/
def Spares (m : ConnectionManager π) (u : UserId) (n : ConnId) : ManagerOp π → Prop
  | .close c => c ≠ n
  | .forceCleanup c => (m.heap c).userId ≠ u
  | .replace old v _ => v ≠ u ∧ (m.heap old).userId ≠ u
  | .disconnectLocked v => v ≠ u
  | .joinRoom v room => v = u → ¬m.Reaches u n (.joinRoom v room)
  | .leaveRoom v room_id => v = u → ¬m.Reaches u n (.leaveRoom v room_id)
  | _ => True

section Facts

variable {m m' m'' : ConnectionManager π} {u v : UserId} {n c : ConnId}

theorem Untouched.refl (h : m.connections.get? u = some n) : m.Untouched m u n :=
  ⟨h, fun _ hc hu => ⟨hc, hu⟩, fun _ => Iff.rfl, fun _ => Iff.rfl, rfl⟩

theorem Untouched.trans (h : m.Untouched m' u n) (h' : m'.Untouched m'' u n) :
    m.Untouched m'' u n where
  registered := h'.registered
  newer := fun c hc hu => by
    obtain ⟨hc, hu⟩ := h'.newer c hc hu
    exact h.newer c hc hu
  rooms := fun room => (h'.rooms room).trans (h.rooms room)
  entries := fun room => (h'.entries room).trans (h.entries room)
  socket := h'.socket.trans h.socket

theorem Newest.untouched (h : m.Newest u n) (hm : m.Untouched m' u n) : m'.Newest u n where
  registered := hm.registered
  last := fun c hc hu => by
    obtain ⟨hc, hu⟩ := hm.newer c hc hu
    exact h.last c hc hu

/-- The manager's lock is no part of the connection. -/
theorem Untouched.lock (h : m.Untouched m' u n) {l : Option TaskId} :
    m.Untouched { m' with lock := l } u n :=
  ⟨h.registered, h.newer, h.rooms, h.entries, h.socket⟩

/-- An operation on connection objects alone, which leaves this one's rooms and socket. -/
theorem untouched_of_owners (h : m.connections.get? u = some n)
    (hconn : m'.connections.get? u = m.connections.get? u) (hnext : m'.nextConn = m.nextConn)
    (howner : ∀ c, (m'.heap c).userId = (m.heap c).userId)
    (hrooms : ∀ room, room ∈ (m'.heap n).rooms ↔ room ∈ (m.heap n).rooms)
    (hindex : ∀ room, u ∈ m'.getRoomUserIds room ↔ u ∈ m.getRoomUserIds room)
    (hsocket : (m'.heap n).websocket.applicationState = (m.heap n).websocket.applicationState) :
    m.Untouched m' u n where
  registered := hconn.trans h
  newer := fun c hc hu => by
    rw [hnext] at hc
    rw [howner] at hu
    exact ⟨hc, hu⟩
  rooms := hrooms
  entries := hindex
  socket := hsocket

/-- What touches no session leaves the connection alone, if it leaves the socket. -/
theorem SameSessions.untouched (hs : SameSessions m m') (h : m.connections.get? u = some n)
    (hsocket : (m'.heap n).websocket.applicationState = (m.heap n).websocket.applicationState) :
    m.Untouched m' u n := by
  refine untouched_of_owners h ?_ hs.next hs.owner (fun room => ?_) (fun room => ?_) hsocket
  · rw [hs.connections]
  · rw [hs.rooms]
  · rw [getRoomUserIds, hs.index]
    rfl

/-! ## One operation -/

variable {maxsize : Nat} {me : TaskId} {o : ManagerOp π}

theorem untouched_register (howned : m.Owned) (h : m.connections.get? u = some n) {name : String}
    (hv : v ≠ u) : m.Untouched (m.register v name) u n := by
  have hborn : n ≠ m.nextConn := Nat.ne_of_lt (howned u n h).2
  refine ⟨?_, fun c hc hu => ?_, fun room => ?_, fun room => Iff.rfl, ?_⟩
  · rw [get?_register, if_neg (Ne.symm hv)]
    exact h
  · rw [heap_register] at hu
    split at hu
    · exact absurd hu hv
    · rename_i hne
      exact ⟨Nat.lt_of_le_of_ne (Nat.le_of_lt_succ hc) hne, hu⟩
  · rw [heap_register, if_neg hborn]
  · rw [heap_register, if_neg hborn]

theorem untouched_forceCleanup (h : m.connections.get? u = some n)
    (hc : (m.heap c).userId ≠ u) : m.Untouched (m.forceCleanup c) u n := by
  have hself : ∀ c', (m.forceCleanup c).heap c' = m.heap c' ∨
      (m.forceCleanup c).heap c' = { m.heap c' with sendTask := .finished } := by
    intro c'
    rw [heap_forceCleanup]
    split
    · rename_i heq
      rw [heq]
      exact .inr rfl
    · exact .inl rfl
  refine untouched_of_owners h ?_ rfl (fun _ => congrArg Prod.snd identity_forceCleanup)
    (fun room => ?_) (fun room => ?_) (congrArg (fun e => e.1.applicationState)
      identity_forceCleanup)
  · rw [get?_forceCleanup, if_neg (Ne.symm hc)]
  · rcases hself n with he | he
    · rw [he]
    · rw [he]
  · rw [mem_getRoomUserIds_forceCleanup]
    exact and_iff_left fun hout => hc hout.1.symm

theorem untouched_unregister (h : m.connections.get? u = some n) (hv : v ≠ u) :
    m.Untouched (m.unregister v) u n := by
  refine untouched_of_owners h ?_ nextConn_unregister
    (fun _ => congrArg Prod.snd identity_unregister) (fun room => ?_) (fun room => ?_)
    (congrArg (fun e => e.1.applicationState) identity_unregister)
  · rw [get?_unregister, if_neg (Ne.symm hv)]
  · rw [heap_unregister]
    split <;> rfl
  · rw [mem_getRoomUserIds_unregister]
    exact and_iff_left fun hout => hv hout.1.symm

theorem untouched_joinRoom (howned : m.Owned) (h : m.connections.get? u = some n) {room : RoomId}
    (hspares : m.Spares u n (.joinRoom v room)) : m.Untouched (m.joinRoom v room) u n := by
  -- two users do not share a connection
  have hother : v ≠ u → m.connections.get? v ≠ some n := by
    intro hv hget
    exact hv ((howned v n hget).1.symm.trans (howned u n h).1)
  refine untouched_of_owners h (by rw [connections_joinRoom]) nextConn_joinRoom
    (fun _ => congrArg Prod.snd identity_joinRoom) (fun r => ?_) (fun r => ?_)
    (congrArg (fun e => e.1.applicationState) identity_joinRoom)
  · rw [heap_joinRoom]
    split
    · rename_i hget
      rw [PySet.mem_add]
      refine ⟨fun hr => hr.elim (fun heq => ?_) id, .inr⟩
      by_cases hv : v = u
      · rw [heq]
        exact (not_not.mp (hspares hv)).1
      · exact absurd hget (hother hv)
    · exact Iff.rfl
  · rw [mem_getRoomUserIds_joinRoom]
    refine ⟨fun hr => hr.elim id ?_, .inl⟩
    rintro ⟨hv, heq, -⟩
    rw [heq]
    exact (not_not.mp (hspares hv.symm)).2

theorem untouched_leaveRoom (howned : m.Owned) (h : m.connections.get? u = some n)
    {room_id : Json} (hspares : m.Spares u n (.leaveRoom v room_id)) :
    m.Untouched (m.leaveRoom v room_id).2 u n := by
  have hother : v ≠ u → m.connections.get? v ≠ some n := by
    intro hv hget
    exact hv ((howned v n hget).1.symm.trans (howned u n h).1)
  refine untouched_of_owners h (by rw [connections_leaveRoom]) flags_leaveRoom.1
    (fun _ => congrArg Prod.snd identity_leaveRoom) (fun r => ?_) (fun r => ?_)
    (congrArg (fun e => e.1.applicationState) identity_leaveRoom)
  · rw [heap_leaveRoom]
    cases room_id with
    | str room =>
      dsimp only
      split
      · rename_i hget
        rw [PySet.mem_discard]
        refine and_iff_left_of_imp fun hr heq => ?_
        by_cases hv : v = u
        · exact hspares hv ⟨room, rfl, .inl (heq ▸ hr)⟩
        · exact absurd hget (hother hv)
      · exact Iff.rfl
    | _ => exact Iff.rfl
  · rw [mem_getRoomUserIds_leaveRoom]
    refine and_iff_left_of_imp fun hr => ?_
    rintro ⟨hv, heq, -⟩
    exact hspares hv.symm ⟨r, heq, .inr hr⟩

theorem untouched_sendToUser (h : m.connections.get? u = some n) {p : π} :
    m.Untouched (m.sendToUser maxsize v p) u n := by
  refine untouched_of_owners h (by rw [connections_sendToUser]) flags_sendToUser.1
    (fun _ => congrArg Prod.snd identity_sendToUser) (fun room => ?_) (fun room => ?_)
    (congrArg (fun e => e.1.applicationState) identity_sendToUser)
  · rcases heap_sendToUser (m := m) (u := v) (c := n) (n := maxsize) (p := p) with he | ⟨-, he⟩
    · rw [he]
    · rw [he]
  · rw [getRoomUserIds, roomConnections_sendToUser]
    exact Iff.rfl

/-- **An operation that spares the connection leaves it alone.** -/
theorem untouched_after (howned : m.Owned) (h : m.connections.get? u = some n)
    (hspares : m.Spares u n o) : m.Untouched (o.after maxsize me m) u n := by
  cases o with
  | accept | clientState | sendText | rooms => exact .refl h
  | unlock => exact (Untouched.refl h).lock
  | connectLocked v name =>
    simp only [ManagerOp.after]
    split
    · exact (Untouched.refl h).lock
    · rename_i hnone
      refine untouched_register howned h fun hv => ?_
      rw [hv, h] at hnone
      cases hnone
  | close c =>
    rw [ManagerOp.after]
    have hheap : (m.closeSocket c).heap n = m.heap n := by
      rw [heap_closeSocket, if_neg (Ne.symm hspares)]
    refine untouched_of_owners h rfl rfl (fun c' => ?_) (fun room => ?_) (fun room => Iff.rfl) ?_
    · rw [heap_closeSocket]
      split
      · rename_i heq
        rw [heq]
      · rfl
    · rw [hheap]
    · rw [hheap]
  | forceCleanup c => exact untouched_forceCleanup h hspares
  | replace old v name =>
    have hforced : m.Untouched (m.forceCleanup old) u n := untouched_forceCleanup h hspares.2
    have howned' : (m.forceCleanup old).Owned :=
      @owned_after π m maxsize me (.forceCleanup old) howned
    exact (hforced.trans (untouched_register howned' hforced.registered hspares.1)).lock
  | disconnectLocked v => exact (untouched_unregister h hspares).lock
  | joinRoom v room => exact untouched_joinRoom howned h hspares
  | leaveRoom v room_id => exact untouched_leaveRoom howned h hspares
  | sendToUser v p => exact untouched_sendToUser h

/-- An operation that alters nothing spares every connection. -/
theorem spares_of_not_alters (h : ¬Alters o) : m.Spares u n o := by
  cases o with
  | close | forceCleanup | replace | disconnectLocked | joinRoom | leaveRoom => exact absurd trivial h
  | _ => trivial

end Facts

end ConnectionManager

end NexusChat
