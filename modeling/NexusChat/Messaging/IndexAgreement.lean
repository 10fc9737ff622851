import NexusChat.Messaging.ManagerFacts
import NexusChat.Lib.Machine

/-!
# The two indexes of the connection manager agree

`_room_connections` is an inverted copy of the `rooms` of the registered connections. This file
says when the copy is right: `IndexAgrees` is preserved by every operation of every method but
one. The exception is the `finally` of a `_force_disconnect` that runs late: it pops whatever
connection its *user* has by then, and takes the user only out of the rooms of the connection
it was *scheduled for*. `agrees_forceCleanup_iff` is the exact condition under which that is
harmless.
-/

set_option autoImplicit false

namespace NexusChat

open ConnectionManager

variable {π : Type}

/-- For every user and room, the room index holds the user exactly when the user has a
connection whose `rooms` hold the room. -/
def IndexAgrees (m : ConnectionManager π) : Prop :=
  ∀ u r, u ∈ m.getRoomUserIds r ↔ ∃ c, m.connections.get? u = some c ∧ r ∈ (m.heap c).rooms

/-- Agreement, and every registered connection is an allocated one of its own user. -/
structure Coherent (m : ConnectionManager π) : Prop where
  agrees : IndexAgrees m
  owned : ∀ u c, m.connections.get? u = some c → (m.heap c).userId = u ∧ c < m.nextConn

/-- Whatever connection the user of `c` has now, its rooms are rooms of `c`. -/
def CleanupHarmless (m : ConnectionManager π) (c : ConnId) : Prop :=
  ∀ c', m.connections.get? (m.heap c).userId = some c' → ∀ r ∈ (m.heap c').rooms,
    r ∈ (m.heap c).rooms

/-! ## One operation -/

theorem coherent_init : Coherent (ConnectionManager.init : ConnectionManager π) where
  agrees := fun u r => by simp [ConnectionManager.init, getRoomUserIds]
  owned := fun u c h => by simp [ConnectionManager.init] at h

/-- Coherence only looks at the registrations, the room index, and the owner and rooms of each
connection. -/
theorem Coherent.congr {m m' : ConnectionManager π} (h : Coherent m)
    (hconn : m'.connections = m.connections)
    (hidx : ∀ u r, u ∈ m'.getRoomUserIds r ↔ u ∈ m.getRoomUserIds r)
    (hheap : ∀ c, (m'.heap c).rooms = (m.heap c).rooms ∧ (m'.heap c).userId = (m.heap c).userId)
    (hnext : m'.nextConn = m.nextConn) : Coherent m' where
  agrees := fun u r => by
    rw [hidx, h.agrees, hconn]
    simp only [(hheap _).1]
  owned := fun u c hc => by
    rw [hconn] at hc
    rw [(hheap c).2, hnext]
    exact h.owned u c hc

theorem coherent_modify {m : ConnectionManager π} {c : ConnId}
    {f : WebSocketConnection π → WebSocketConnection π} (h : Coherent m)
    (hf : ∀ k, (f k).rooms = k.rooms ∧ (f k).userId = k.userId) : Coherent (m.modify c f) := by
  refine h.congr rfl (fun u r => mem_getRoomUserIds_modify) (fun c' => ?_) rfl
  rw [heap_modify]
  split
  · rename_i hc; subst hc; exact hf _
  · exact ⟨rfl, rfl⟩

theorem coherent_closeSocket {m : ConnectionManager π} {c : ConnId} (h : Coherent m) :
    Coherent (m.closeSocket c) := coherent_modify h fun _ => ⟨rfl, rfl⟩

theorem coherent_register {m : ConnectionManager π} {u : UserId} {name : String}
    (h : Coherent m) (hu : m.connections.get? u = none) : Coherent (m.register u name) where
  agrees := fun u' r => by
    rw [mem_getRoomUserIds_register, h.agrees]
    by_cases hq : u' = u
    · subst hq
      simp [get?_register, heap_register, hu, WebSocketConnection.fresh]
    · simp only [get?_register, if_neg hq]
      refine exists_congr fun c => and_congr_right fun hc => ?_
      rw [heap_register, if_neg (Nat.ne_of_lt (h.owned u' c hc).2)]
  owned := fun u' c hc => by
    rw [get?_register] at hc
    rw [heap_register]
    split at hc
    · rename_i hq
      cases hc
      simp [WebSocketConnection.fresh, hq, register]
    · have hlt := (h.owned u' c hc).2
      rw [if_neg (Nat.ne_of_lt hlt)]
      exact ⟨(h.owned u' c hc).1, Nat.lt_succ_of_lt hlt⟩

theorem coherent_unregister {m : ConnectionManager π} {u : UserId} (h : Coherent m) :
    Coherent (m.unregister u) := by
  have hrooms : ∀ c, ((m.unregister u).heap c).rooms = (m.heap c).rooms ∧
      ((m.unregister u).heap c).userId = (m.heap c).userId := fun c => by
    rw [heap_unregister]; split <;> exact ⟨rfl, rfl⟩
  refine ⟨fun u' r => ?_, fun u' c hc => ?_⟩
  · rw [mem_getRoomUserIds_unregister, h.agrees]
    simp only [get?_unregister, (hrooms _).1]
    by_cases hq : u' = u
    · subst hq; simp
    · simp [hq]
  · rw [get?_unregister] at hc
    split at hc
    · exact absurd hc (by simp)
    · rw [(hrooms c).2, nextConn_unregister]; exact h.owned u' c hc

/-- **When a late cleanup is harmless**: exactly when the connection it unregisters is in no
room the cleanup does not visit. -/
theorem agrees_forceCleanup_iff {m : ConnectionManager π} {c : ConnId} (h : Coherent m) :
    IndexAgrees (m.forceCleanup c) ↔ CleanupHarmless m c := by
  have hrooms : ∀ c', ((m.forceCleanup c).heap c').rooms = (m.heap c').rooms := fun c' => by
    rw [heap_forceCleanup]; split
    · rename_i hc; subst hc; rfl
    · rfl
  constructor
  · intro ha c' hc' r hr
    by_contra hn
    have hin : (m.heap c).userId ∈ (m.forceCleanup c).getRoomUserIds r := by
      rw [mem_getRoomUserIds_forceCleanup]
      exact ⟨(h.agrees _ r).mpr ⟨c', hc', hr⟩, fun hx => hn hx.2⟩
    obtain ⟨c'', hc'', -⟩ := (ha _ r).mp hin
    simp [get?_forceCleanup] at hc''
  · intro hh u r
    rw [mem_getRoomUserIds_forceCleanup, h.agrees]
    simp only [get?_forceCleanup, hrooms]
    by_cases hq : u = (m.heap c).userId
    · subst hq
      simp only [if_true, true_and, reduceCtorEq, false_and, exists_false, iff_false, not_and,
        not_not]
      rintro ⟨c', hc', hr⟩
      exact hh c' hc' r hr
    · simp [hq]

theorem coherent_forceCleanup {m : ConnectionManager π} {c : ConnId} (h : Coherent m)
    (hh : CleanupHarmless m c) : Coherent (m.forceCleanup c) where
  agrees := (agrees_forceCleanup_iff h).mpr hh
  owned := fun u c' hc' => by
    rw [get?_forceCleanup] at hc'
    split at hc'
    · exact absurd hc' (by simp)
    · rw [heap_forceCleanup]
      split
      · rename_i hq; subst hq; exact h.owned u _ hc'
      · exact h.owned u c' hc'

theorem coherent_joinRoom {m : ConnectionManager π} {u : UserId} {r : RoomId}
    (h : Coherent m) : Coherent (m.joinRoom u r) := by
  refine ⟨fun u' r' => ?_, fun u' c hc => ?_⟩
  · rw [mem_getRoomUserIds_joinRoom, h.agrees, connections_joinRoom]
    simp only [heap_joinRoom]
    constructor
    · rintro (⟨c, hc, hr⟩ | ⟨rfl, rfl, c, hc⟩)
      · refine ⟨c, hc, ?_⟩
        split
        · exact PySet.mem_add.mpr (Or.inr hr)
        · exact hr
      · exact ⟨c, hc, by rw [if_pos hc]; exact PySet.mem_add.mpr (Or.inl rfl)⟩
    · rintro ⟨c, hc, hr⟩
      split at hr
      · rename_i hq
        rcases PySet.mem_add.mp hr with rfl | hr
        · have : u' = u := by rw [← (h.owned u' c hc).1, (h.owned u c hq).1]
          exact Or.inr ⟨this, rfl, c, hq⟩
        · exact Or.inl ⟨c, hc, hr⟩
      · exact Or.inl ⟨c, hc, hr⟩
  · rw [connections_joinRoom] at hc
    rw [heap_joinRoom, nextConn_joinRoom]
    split <;> exact h.owned u' c hc

theorem coherent_leaveRoom {m : ConnectionManager π} {u : UserId} {room : Json}
    (h : Coherent m) : Coherent (m.leaveRoom u room).2 := by
  -- the room leaves the set of the user's newest connection only, and only if it is a string
  have hrooms : ∀ c r', r' ∈ ((m.leaveRoom u room).2.heap c).rooms ↔
      r' ∈ (m.heap c).rooms ∧ ¬(room = .str r' ∧ m.connections.get? u = some c) := fun c r' => by
    rw [heap_leaveRoom]
    cases room with
    | str r =>
      by_cases hc : m.connections.get? u = some c
      · simp [hc, eq_comm]
      · simp [hc]
    | _ => simp
  have huser : ∀ c, ((m.leaveRoom u room).2.heap c).userId = (m.heap c).userId :=
    fun c => congrArg Prod.snd identity_leaveRoom
  refine ⟨fun u' r' => ?_, fun u' c hc => ?_⟩
  · rw [mem_getRoomUserIds_leaveRoom, h.agrees, connections_leaveRoom]
    simp only [hrooms]
    constructor
    · rintro ⟨⟨c, hc, hr⟩, hn⟩
      refine ⟨c, hc, hr, ?_⟩
      rintro ⟨hroom, hu⟩
      refine hn ⟨?_, hroom, c, hu⟩
      rw [← (h.owned u' c hc).1, (h.owned u c hu).1]
    · rintro ⟨c, hc, hr, hn⟩
      refine ⟨⟨c, hc, hr⟩, ?_⟩
      rintro ⟨rfl, hroom, -⟩
      exact hn ⟨hroom, hc⟩
  · rw [connections_leaveRoom] at hc
    rw [huser, flags_leaveRoom.1]
    exact h.owned u' c hc

/-- Queueing payloads touches none of the indexes. -/
theorem coherent_sendToUser {m : ConnectionManager π} {n : Nat} {u : UserId} {p : π}
    (h : Coherent m) : Coherent (m.sendToUser n u p) := by
  unfold sendToUser
  split
  · exact h
  · split
    · exact h
    · exact coherent_modify h fun k => ⟨rfl, rfl⟩

theorem coherent_deliver {m : ConnectionManager π} {n : Nat} {u : UserId} {p : π}
    (h : Coherent m) : Coherent (deliver n p m u) := by
  unfold deliver
  split
  · exact h
  · split
    · exact h.congr rfl (fun _ _ => Iff.rfl) (fun _ => ⟨rfl, rfl⟩) rfl
    · exact coherent_modify h fun k => ⟨rfl, rfl⟩

theorem coherent_broadcastToRoom {m : ConnectionManager π} {n : Nat} {r : RoomId} {p : π}
    {ex : Option UserId} (h : Coherent m) : Coherent (m.broadcastToRoom n r p ex) :=
  broadcastToRoom_induction h fun _ _ => coherent_deliver

end NexusChat
