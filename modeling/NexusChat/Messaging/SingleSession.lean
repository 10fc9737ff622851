import NexusChat.Messaging.IndexAgreement
import NexusChat.Messaging.SendQueue

/-!
# A user with one session

As long as a user has one session on an instance, the connection of the session is registered and
the rooms that have the user are its rooms (`Attached`), or the session is over as far as the
manager is concerned (`Gone`). Whatever other users do keeps it this way; the connection's own
forced disconnect, and its `disconnect`, lead from the one to the other.
-/

set_option autoImplicit false

namespace NexusChat

namespace ConnectionManager

variable {π : Type} {m m' : ConnectionManager π} {u : UserId} {conn : ConnId}

/-- The connection is the user's, and the rooms that have the user are its rooms. -/
structure Attached (m : ConnectionManager π) (u : UserId) (conn : ConnId) : Prop where
  registered : m.connections.get? u = some conn
  only : ∀ u', m.connections.get? u' = some conn → u' = u
  owner : (m.heap conn).userId = u
  born : conn < m.nextConn
  rooms : ∀ r, u ∈ m.getRoomUserIds r → r ∈ (m.heap conn).rooms

/-- The user has no connection and is in no room. -/
def Gone (m : ConnectionManager π) (u : UserId) : Prop :=
  m.connections.get? u = none ∧ ∀ r, u ∉ m.getRoomUserIds r

/-- The user's one session is there, or it is gone. -/
def Single (m : ConnectionManager π) (u : UserId) (conn : ConnId) : Prop :=
  m.Attached u conn ∨ m.Gone u

/-- A user that is gone is not registered. -/
theorem Single.gone_iff (h : m.Single u conn) :
    m.Gone u ↔ (m.connections.get? u).isSome = false := by
  constructor
  · intro hg
    rw [hg.1]
    rfl
  · intro hr
    rcases h with ha | hg
    · rw [ha.registered] at hr
      cases hr
    · exact hg

theorem Attached.congr (h : m.Attached u conn) (hconn : m'.connections.get? u = some conn)
    (honly : ∀ u', m'.connections.get? u' = some conn → m.connections.get? u' = some conn)
    (howner : (m'.heap conn).userId = (m.heap conn).userId) (hnext : m.nextConn ≤ m'.nextConn)
    (hindex : ∀ r, u ∈ m'.getRoomUserIds r → u ∈ m.getRoomUserIds r)
    (hrooms : ∀ r, r ∈ (m.heap conn).rooms → r ∈ (m'.heap conn).rooms) : m'.Attached u conn where
  registered := hconn
  only := fun u' hu => h.only u' (honly u' hu)
  owner := howner.trans h.owner
  born := Nat.lt_of_lt_of_le h.born hnext
  rooms := fun r hr => hrooms r (h.rooms r (hindex r hr))

theorem Attached.lock (h : m.Attached u conn) {l : Option TaskId} :
    Attached { m with lock := l } u conn :=
  ⟨h.registered, h.only, h.owner, h.born, h.rooms⟩

theorem Gone.congr (h : m.Gone u) (hconn : m'.connections.get? u = none)
    (hindex : ∀ r, u ∈ m'.getRoomUserIds r → u ∈ m.getRoomUserIds r) : m'.Gone u :=
  ⟨hconn, fun r hr => h.2 r (hindex r hr)⟩

/-! ## What others do -/

/-- An operation that is no session's of the user; a forced disconnect may be that of the user's
registered connection. -/
def Foreign (m : ConnectionManager π) (u : UserId) : ManagerOp π → Prop
  | .connectLocked u' _ | .disconnectLocked u' | .joinRoom u' _ | .leaveRoom u' _ => u' ≠ u
  | .replace old u' _ => u' ≠ u ∧ (m.heap old).userId ≠ u
  | .forceCleanup c => (m.heap c).userId = u → ∀ c', m.connections.get? u = some c' → c' = c
  | _ => True

theorem attached_register (h : m.Attached u conn) {u' : UserId} {name : String} (hu : u' ≠ u) :
    (m.register u' name).Attached u conn := by
  have hne : conn ≠ m.nextConn := Nat.ne_of_lt h.born
  refine h.congr ?_ (fun u'' hc => ?_) ?_ (Nat.le_succ _) (fun _ hr => hr) fun r hr => ?_
  · rw [get?_register, if_neg (Ne.symm hu)]
    exact h.registered
  · rw [get?_register] at hc
    split at hc
    · cases hc
      exact absurd rfl hne
    · exact hc
  · rw [heap_register, if_neg hne]
  · rw [heap_register, if_neg hne]
    exact hr

theorem gone_register (h : m.Gone u) {u' : UserId} (name : String) (hu : u' ≠ u) :
    (m.register u' name).Gone u := by
  refine h.congr ?_ fun _ hr => hr
  rw [get?_register, if_neg (Ne.symm hu)]
  exact h.1

theorem attached_forceCleanup {c : ConnId} (h : m.Attached u conn) (hc : (m.heap c).userId ≠ u) :
    (m.forceCleanup c).Attached u conn := by
  refine h.congr ?_ (fun u' hc' => ?_) (congrArg Prod.snd identity_forceCleanup) (Nat.le_refl _)
    (fun r hr => ?_) fun r hr => ?_
  · rw [get?_forceCleanup, if_neg (Ne.symm hc)]
    exact h.registered
  · rw [get?_forceCleanup] at hc'
    split at hc'
    · cases hc'
    · exact hc'
  · exact (mem_getRoomUserIds_forceCleanup.mp hr).1
  · rw [heap_forceCleanup]
    split
    · rename_i he
      rw [← he]
      exact hr
    · exact hr

theorem gone_forceCleanup {c : ConnId} (h : m.Gone u) : (m.forceCleanup c).Gone u := by
  refine h.congr ?_ fun r hr => (mem_getRoomUserIds_forceCleanup.mp hr).1
  rw [get?_forceCleanup]
  split
  · rfl
  · exact h.1

/-- The session's own forced disconnect takes it out completely. -/
theorem Attached.gone_forceCleanup (h : m.Attached u conn) : (m.forceCleanup conn).Gone u := by
  refine ⟨?_, fun r hr => ?_⟩
  · rw [get?_forceCleanup, if_pos h.owner.symm]
  · obtain ⟨hr, hout⟩ := mem_getRoomUserIds_forceCleanup.mp hr
    exact hout ⟨h.owner.symm, h.rooms r hr⟩

/-- So does `disconnect`. -/
theorem Single.gone_unregister (h : m.Single u conn) : (m.unregister u).Gone u := by
  refine ⟨?_, fun r hr => ?_⟩
  · rw [get?_unregister, if_pos rfl]
  · obtain ⟨hr, hout⟩ := mem_getRoomUserIds_unregister.mp hr
    rcases h with ha | hg
    · exact hout ⟨rfl, conn, ha.registered, ha.rooms r hr⟩
    · exact hg.2 r hr

theorem gone_after {maxsize : Nat} {me : TaskId} {op : ManagerOp π} (h : m.Gone u)
    (hop : m.Foreign u op) : (op.after maxsize me m).Gone u := by
  cases op with
  | accept | clientState | sendText | close | rooms | unlock => exact h
  | connectLocked u' name =>
    simp only [ManagerOp.after]
    split
    · exact h
    · exact gone_register h name hop
  | forceCleanup c => exact gone_forceCleanup h
  | replace old u' name => exact gone_register (gone_forceCleanup h) name hop.1
  | disconnectLocked u' =>
    refine h.congr ?_ fun r hr => (mem_getRoomUserIds_unregister.mp hr).1
    show (m.unregister u').connections.get? u = none
    rw [get?_unregister, if_neg (Ne.symm hop)]
    exact h.1
  | joinRoom u' r' =>
    refine h.congr ?_ fun r hr => ?_
    · rw [ManagerOp.after, connections_joinRoom]
      exact h.1
    · rcases mem_getRoomUserIds_joinRoom.mp hr with hr | ⟨hu, -⟩
      · exact hr
      · exact absurd hu.symm hop
  | leaveRoom u' r' =>
    refine h.congr ?_ fun r hr => (mem_getRoomUserIds_leaveRoom.mp hr).1
    rw [ManagerOp.after, connections_leaveRoom]
    exact h.1
  | sendToUser u' p =>
    refine h.congr ?_ fun r hr => ?_
    · rw [ManagerOp.after, connections_sendToUser]
      exact h.1
    · rwa [ManagerOp.after, getRoomUserIds, roomConnections_sendToUser] at hr

/-- The session stays, or is gone. -/
theorem single_after {maxsize : Nat} {me : TaskId} {op : ManagerOp π} (h : m.Single u conn)
    (hop : m.Foreign u op) : (op.after maxsize me m).Single u conn := by
  -- a session that is gone stays gone
  rcases h with ha | hg
  swap
  · exact Or.inr (gone_after hg hop)
  cases op with
  | accept | clientState | sendText | rooms => exact Or.inl ha
  | unlock => exact Or.inl ha.lock
  | close c =>
    refine Or.inl (ha.congr ha.registered (fun _ hc => hc) ?_ (Nat.le_refl _) (fun _ hr => hr)
      fun r hr => ?_)
    all_goals
      rw [ManagerOp.after, heap_closeSocket]
      split
      · rename_i hc
        subst hc
        first | rfl | exact hr
      · first | rfl | exact hr
  | connectLocked u' name =>
    simp only [ManagerOp.after]
    split
    · exact Or.inl ha.lock
    · exact Or.inl (attached_register ha hop)
  | forceCleanup c =>
    -- a cleanup for the user is one for this connection, which then goes
    by_cases hc : (m.heap c).userId = u
    · rw [← hop hc conn ha.registered]
      exact Or.inr ha.gone_forceCleanup
    · exact Or.inl (attached_forceCleanup ha hc)
  | replace old u' name =>
    exact Or.inl (attached_register (attached_forceCleanup ha hop.2) hop.1).lock
  | disconnectLocked u' =>
    -- the connection that `disconnect` drops is another one
    have hne : m.connections.get? u' ≠ some conn := fun hc => hop (ha.only u' hc)
    refine Or.inl (ha.congr ?_ (fun u'' hc => ?_) ?_ ?_ (fun r hr => ?_) fun r hr => ?_)
    · show (m.unregister u').connections.get? u = some conn
      rw [get?_unregister, if_neg (Ne.symm hop)]
      exact ha.registered
    · have hc : (m.unregister u').connections.get? u'' = some conn := hc
      rw [get?_unregister] at hc
      split at hc
      · cases hc
      · exact hc
    · exact congrArg Prod.snd identity_unregister
    · exact Nat.le_of_eq nextConn_unregister.symm
    · exact (mem_getRoomUserIds_unregister.mp hr).1
    · show r ∈ ((m.unregister u').heap conn).rooms
      rw [heap_unregister, if_neg hne]
      exact hr
  | joinRoom u' r' =>
    have hne : m.connections.get? u' ≠ some conn := fun hc => hop (ha.only u' hc)
    refine Or.inl (ha.congr ?_ (fun u'' hc => ?_) ?_ ?_ (fun r hr => ?_) fun r hr => ?_)
    · rw [ManagerOp.after, connections_joinRoom]
      exact ha.registered
    · rwa [ManagerOp.after, connections_joinRoom] at hc
    · exact congrArg Prod.snd identity_joinRoom
    · exact Nat.le_of_eq nextConn_joinRoom.symm
    · rcases mem_getRoomUserIds_joinRoom.mp hr with hr | ⟨hu, -⟩
      · exact hr
      · exact absurd hu.symm hop
    · rw [ManagerOp.after, heap_joinRoom, if_neg hne]
      exact hr
  | leaveRoom u' r' =>
    have hne : m.connections.get? u' ≠ some conn := fun hc => hop (ha.only u' hc)
    refine Or.inl (ha.congr ?_ (fun u'' hc => ?_) ?_ ?_ (fun r hr => ?_) fun r hr => ?_)
    · rw [ManagerOp.after, connections_leaveRoom]
      exact ha.registered
    · rwa [ManagerOp.after, connections_leaveRoom] at hc
    · exact congrArg Prod.snd identity_leaveRoom
    · exact Nat.le_of_eq flags_leaveRoom.1.symm
    · exact (mem_getRoomUserIds_leaveRoom.mp hr).1
    · rw [ManagerOp.after, heap_leaveRoom]
      split
      · rw [if_neg hne]
        exact hr
      · exact hr
  | sendToUser u' p =>
    refine Or.inl (ha.congr ?_ (fun u'' hc => ?_) ?_ ?_ (fun r hr => ?_) fun r hr => ?_)
    · rw [ManagerOp.after, connections_sendToUser]
      exact ha.registered
    · rwa [ManagerOp.after, connections_sendToUser] at hc
    · exact congrArg Prod.snd identity_sendToUser
    · exact Nat.le_of_eq flags_sendToUser.1.symm
    · rwa [ManagerOp.after, getRoomUserIds, roomConnections_sendToUser] at hr
    · show r ∈ ((m.sendToUser maxsize u' p).heap conn).rooms
      rcases heap_sendToUser (m := m) (u := u') (c := conn) (n := maxsize) (p := p) with
        he | ⟨-, he⟩
      · rw [he]
        exact hr
      · rw [he]
        exact hr

/-- Nobody else touches the rooms of the connection. -/
theorem rooms_foreign {maxsize : Nat} {me : TaskId} {op : ManagerOp π} (h : m.Attached u conn)
    (hop : m.Foreign u op) : ((op.after maxsize me m).heap conn).rooms = (m.heap conn).rooms := by
  have hborn : conn ≠ m.nextConn := Nat.ne_of_lt h.born
  have hregister : ∀ u' name, ((m.register u' name).heap conn) = m.heap conn := fun u' name => by
    rw [heap_register, if_neg hborn]
  cases op with
  | accept | clientState | sendText | rooms | unlock => rfl
  | close c =>
    rw [ManagerOp.after, heap_closeSocket]
    split
    · rename_i hc
      rw [hc]
    · rfl
  | connectLocked u' name =>
    simp only [ManagerOp.after]
    split
    · rfl
    · rw [hregister]
  | forceCleanup c =>
    rw [ManagerOp.after, heap_forceCleanup]
    split
    · rename_i hc
      rw [hc]
    · rfl
  | replace old u' name =>
    have hborn' : conn ≠ (m.forceCleanup old).nextConn := hborn
    show (((m.forceCleanup old).register u' name).heap conn).rooms = _
    rw [heap_register, if_neg hborn', heap_forceCleanup]
    split
    · rename_i hc
      rw [hc]
    · rfl
  | disconnectLocked u' =>
    show ((m.unregister u').heap conn).rooms = _
    rw [heap_unregister]
    split <;> rfl
  | joinRoom u' r =>
    have hne : m.connections.get? u' ≠ some conn := fun hc => hop (h.only u' hc)
    rw [ManagerOp.after, heap_joinRoom, if_neg hne]
  | leaveRoom u' r =>
    have hne : m.connections.get? u' ≠ some conn := fun hc => hop (h.only u' hc)
    rw [ManagerOp.after, heap_leaveRoom]
    split
    · rw [if_neg hne]
    · rfl
  | sendToUser u' p =>
    rw [ManagerOp.after]
    rcases heap_sendToUser (m := m) (u := u') (c := conn) (n := maxsize) (p := p) with he | ⟨-, he⟩
    · rw [he]
    · rw [he]

/-! ## What the session does -/

/-- A user that is gone connects. -/
theorem Gone.attached_register (h : m.Gone u) (howned : m.Owned) {name : String} :
    (m.register u name).Attached u m.nextConn := by
  refine ⟨?_, fun u' hu => ?_, ?_, Nat.lt_succ_self _, fun r hr => absurd hr (h.2 r)⟩
  · rw [get?_register, if_pos rfl]
  · rw [get?_register] at hu
    split at hu
    · assumption
    · exact absurd (howned u' _ hu).2 (Nat.lt_irrefl _)
  · rw [heap_register, if_pos rfl]
    rfl

/-- The operations on its rooms and its queue. -/
def Own (u : UserId) : ManagerOp π → Prop
  | .joinRoom u' _ | .leaveRoom u' _ => u' = u
  | .sendToUser _ _ | .rooms _ => True
  | _ => False

theorem single_own {maxsize : Nat} {me : TaskId} {op : ManagerOp π} (h : m.Single u conn)
    (hop : Own u op) : (op.after maxsize me m).Single u conn := by
  cases op with
  | sendToUser u' p => exact single_after h trivial
  | rooms c => exact h
  | joinRoom u' r' =>
    obtain rfl : u' = u := hop
    rcases h with ha | hg
    · refine Or.inl ⟨?_, fun u'' hc => ?_, ?_, ?_, fun r hr => ?_⟩
      · rw [ManagerOp.after, connections_joinRoom]
        exact ha.registered
      · rw [ManagerOp.after, connections_joinRoom] at hc
        exact ha.only u'' hc
      · exact (congrArg Prod.snd identity_joinRoom).trans ha.owner
      · rw [ManagerOp.after, nextConn_joinRoom]
        exact ha.born
      · rw [ManagerOp.after, heap_joinRoom, if_pos ha.registered]
        rcases mem_getRoomUserIds_joinRoom.mp hr with hr | ⟨-, hr, -⟩
        · exact PySet.mem_add.mpr (Or.inr (ha.rooms r hr))
        · exact PySet.mem_add.mpr (Or.inl hr)
    · refine Or.inr (hg.congr ?_ fun r hr => ?_)
      · rw [ManagerOp.after, connections_joinRoom]
        exact hg.1
      · rcases mem_getRoomUserIds_joinRoom.mp hr with hr | ⟨-, -, c, hc⟩
        · exact hr
        · rw [hg.1] at hc
          cases hc
  | leaveRoom u' room =>
    obtain rfl : u' = u := hop
    rcases h with ha | hg
    · refine Or.inl ⟨?_, fun u'' hc => ?_, ?_, ?_, fun r hr => ?_⟩
      · rw [ManagerOp.after, connections_leaveRoom]
        exact ha.registered
      · rw [ManagerOp.after, connections_leaveRoom] at hc
        exact ha.only u'' hc
      · exact (congrArg Prod.snd identity_leaveRoom).trans ha.owner
      · rw [ManagerOp.after, flags_leaveRoom.1]
        exact ha.born
      · obtain ⟨hr, hout⟩ := mem_getRoomUserIds_leaveRoom.mp hr
        have hmem := ha.rooms r hr
        rw [ManagerOp.after, heap_leaveRoom]
        split
        · rename_i r'
          rw [if_pos ha.registered]
          refine PySet.mem_discard.mpr ⟨hmem, fun he => hout ⟨rfl, ?_, conn, ha.registered⟩⟩
          rw [he]
        · exact hmem
    · refine Or.inr (hg.congr ?_ fun r hr => (mem_getRoomUserIds_leaveRoom.mp hr).1)
      rw [ManagerOp.after, connections_leaveRoom]
      exact hg.1
  | _ => exact absurd hop id

/-- Registrations, rooms and owners are the same. -/
structure SameSessions (m m' : ConnectionManager π) : Prop where
  connections : m'.connections = m.connections
  index : m'.roomConnections = m.roomConnections
  next : m'.nextConn = m.nextConn
  owner : ∀ c, (m'.heap c).userId = (m.heap c).userId
  rooms : ∀ c, (m'.heap c).rooms = (m.heap c).rooms

theorem SameSessions.refl (m : ConnectionManager π) : SameSessions m m :=
  ⟨rfl, rfl, rfl, fun _ => rfl, fun _ => rfl⟩

theorem sameSessions_modify {c : ConnId} {f : WebSocketConnection π → WebSocketConnection π}
    (hf : ∀ k, (f k).rooms = k.rooms ∧ (f k).userId = k.userId) :
    SameSessions m (m.modify c f) := by
  refine ⟨rfl, rfl, rfl, fun _ => owner_modify fun k => (hf k).2, fun c' => ?_⟩
  rw [heap_modify]
  split
  · rename_i hc
    rw [hc]
    exact (hf _).1
  · rfl

theorem sameSessions_sendTake {c : ConnId} (h : m.sendTake c = some m') : SameSessions m m' := by
  obtain ⟨f, rfl, hf⟩ := sendTake_eq h
  exact sameSessions_modify fun k => ⟨(hf k).1, congrArg Prod.snd (hf k).2⟩

theorem sameSessions_sendDone {c : ConnId} {ok wrote : Bool}
    (h : m.sendDone c ok wrote = some m') : SameSessions m m' := by
  obtain ⟨f, rfl, hf⟩ := sendDone_eq h
  exact sameSessions_modify fun k => ⟨(hf k).1, congrArg Prod.snd (hf k).2⟩

theorem sameSessions_deliver {maxsize : Nat} {u' : UserId} {p : π} {m₀ : ConnectionManager π}
    (h : SameSessions m₀ m) : SameSessions m₀ (deliver maxsize p m u') := by
  unfold deliver
  split
  · exact h
  · split
    · exact ⟨h.connections, h.index, h.next, h.owner, h.rooms⟩
    · rename_i c _ _
      have hone : SameSessions m (m.enqueue c p) := sameSessions_modify fun _ => ⟨rfl, rfl⟩
      exact ⟨hone.connections.trans h.connections, hone.index.trans h.index,
        hone.next.trans h.next, fun c => (hone.owner c).trans (h.owner c),
        fun c => (hone.rooms c).trans (h.rooms c)⟩

theorem sameSessions_broadcastToRoom {maxsize : Nat} {r : RoomId} {p : π} {ex : Option UserId} :
    SameSessions m (m.broadcastToRoom maxsize r p ex) :=
  broadcastToRoom_induction (P := SameSessions m) (.refl m) fun _ _ => sameSessions_deliver

theorem Single.same (h : m.Single u conn) (hs : SameSessions m m') : m'.Single u conn := by
  have hsame : ∀ r, u ∈ m'.getRoomUserIds r → u ∈ m.getRoomUserIds r := by
    intro r hr
    rwa [getRoomUserIds, hs.index] at hr
  rcases h with ha | hg
  · refine Or.inl (ha.congr ?_ (fun u' hc => ?_) (hs.owner conn) (Nat.le_of_eq hs.next.symm) hsame
      fun r hr => ?_)
    · rw [hs.connections]
      exact ha.registered
    · rwa [hs.connections] at hc
    · rw [hs.rooms]
      exact hr
  · exact Or.inr (hg.congr (hs.connections ▸ hg.1) hsame)

theorem Owned.same (h : m.Owned) (hs : SameSessions m m') : m'.Owned := by
  refine owned_congr h (fun u c hc => ?_) hs.owner (Nat.le_of_eq hs.next.symm)
  rwa [hs.connections] at hc

theorem Gone.same (h : m.Gone u) (hs : SameSessions m m') : m'.Gone u := by
  refine h.congr (hs.connections ▸ h.1) fun r hr => ?_
  rwa [getRoomUserIds, hs.index] at hr

end ConnectionManager

end NexusChat
