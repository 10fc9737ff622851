import NexusChat.Messaging.Backpressure

/-!
# What a broadcast does (`broadcast_to_room`)

The loop of `broadcast_to_room` runs over a copy of a set, in whatever order the set yields its
users. `FanOut` describes the manager after it without the loop: what becomes of each connection,
which forced disconnects are scheduled, and what stays. A manager that fits the description is
determined up to the order of the scheduled tasks (`FanOut.agree`), so the order of the loop does
not matter.
-/

set_option autoImplicit false

namespace NexusChat

namespace ConnectionManager

variable {π : Type}

/-- The connection is a registered user's of the room, and not the excluded one's. -/
def Recipient (m : ConnectionManager π) (room_id : RoomId) (exclude_user : Option UserId)
    (c : ConnId) : Prop :=
  ∃ u ∈ m.getRoomUserIds room_id, some u ≠ exclude_user ∧ m.connections.get? u = some c

/-- The loop over the users in an order. -/
def broadcastOver (maxsize : Nat) (m : ConnectionManager π) (user_ids : List UserId) (payload : π)
    (exclude_user : Option UserId) : ConnectionManager π :=
  (user_ids.filter fun u => some u ≠ exclude_user).foldl (deliver maxsize payload) m

/-- The payload is appended once to the queue of each recipient that has room; of each that has
none one forced disconnect is scheduled; and nothing else changes. -/
structure FanOut (maxsize : Nat) (m : ConnectionManager π) (room_id : RoomId) (payload : π)
    (exclude_user : Option UserId) (m' : ConnectionManager π) : Prop where
  delivered : ∀ c, m.Recipient room_id exclude_user c →
    full maxsize (m.heap c).sendQueue = false →
    m'.heap c = { m.heap c with sendQueue := (m.heap c).sendQueue ++ [payload] }
  others : ∀ c, ¬(m.Recipient room_id exclude_user c ∧
    full maxsize (m.heap c).sendQueue = false) → m'.heap c = m.heap c
  scheduled : ∃ cs, m'.forced = m.forced ++ cs ∧ cs.Nodup ∧ ∀ c, c ∈ cs ↔
    m.Recipient room_id exclude_user c ∧ full maxsize (m.heap c).sendQueue = true
  connections : m'.connections = m.connections
  roomConnections : m'.roomConnections = m.roomConnections
  flags : m'.lock = m.lock ∧ m'.nextConn = m.nextConn ∧ m'.joined = m.joined

/-- The managers differ at most in the order of what is scheduled. -/
structure Agree (m m' : ConnectionManager π) : Prop where
  same : m' = { m with forced := m'.forced }
  forced : m'.forced.Perm m.forced

section Loop

variable {m m' m'' : ConnectionManager π} {maxsize : Nat} {payload : π} {room_id : RoomId}
  {exclude_user : Option UserId} {u : UserId} {us : List UserId} {c : ConnId}

theorem forced_deliver : (deliver maxsize payload m u).forced = m.forced ++
    ((m.connections.get? u).filter fun c => full maxsize (m.heap c).sendQueue).toList := by
  unfold deliver
  cases m.connections.get? u with
  | none => simp
  | some c =>
    dsimp only
    rw [Option.filter_some]
    cases full maxsize (m.heap c).sendQueue with
    | false => exact (List.append_nil _).symm
    | true => rfl

theorem owned_deliver (h : m.Owned) : (deliver maxsize payload m u).Owned :=
  owned_congr h (fun _ _ hc => by rwa [connections_deliver] at hc)
    (fun _ => congrArg Prod.snd identity_deliver) (Nat.le_of_eq flags_deliver.1.symm)

/-- What every delivery of a loop leaves alone. -/
theorem frame_deliverAll : (us.foldl (deliver maxsize payload) m).connections = m.connections ∧
    (us.foldl (deliver maxsize payload) m).roomConnections = m.roomConnections ∧
    (us.foldl (deliver maxsize payload) m).lock = m.lock ∧
    (us.foldl (deliver maxsize payload) m).nextConn = m.nextConn ∧
    (us.foldl (deliver maxsize payload) m).joined = m.joined := by
  induction us generalizing m with
  | nil => exact ⟨rfl, rfl, rfl, rfl, rfl⟩
  | cons u us ih =>
    obtain ⟨hconn, hroom, hlock, hnext, hjoined⟩ := ih (m := deliver maxsize payload m u)
    exact ⟨hconn.trans connections_deliver, hroom.trans roomConnections_deliver,
      hlock.trans flags_deliver.2.1, hnext.trans flags_deliver.1,
      hjoined.trans flags_deliver.2.2⟩

/-- **What a loop schedules**: the connections with a full queue, in the order of the users. A
connection has one owner, so no delivery of the loop fills the queue of a later one. -/
theorem forced_deliverAll (h : m.Owned) (hnodup : us.Nodup) :
    (us.foldl (deliver maxsize payload) m).forced = m.forced ++ us.filterMap fun u =>
      (m.connections.get? u).filter fun c => full maxsize (m.heap c).sendQueue := by
  induction us generalizing m with
  | nil => simp
  | cons u us ih =>
    obtain ⟨hu, hus⟩ := List.nodup_cons.mp hnodup
    have hrest : us.filterMap (fun v => ((deliver maxsize payload m u).connections.get? v).filter
          fun c => full maxsize ((deliver maxsize payload m u).heap c).sendQueue) =
        us.filterMap fun v => (m.connections.get? v).filter
          fun c => full maxsize (m.heap c).sendQueue := by
      refine List.filterMap_congr fun v hv => ?_
      rw [connections_deliver]
      cases hget : m.connections.get? v with
      | none => rfl
      | some c =>
        have hne : m.connections.get? u ≠ some c := fun hget' => by
          refine hu ?_
          rw [← (h u c hget').1, (h v c hget).1]
          exact hv
        rw [Option.filter_some, Option.filter_some, heap_deliver_of_ne hne]
    rw [List.foldl_cons, ih (owned_deliver h) hus, forced_deliver, hrest, List.append_assoc,
      List.filterMap_cons]
    cases (m.connections.get? u).filter fun c => full maxsize (m.heap c).sendQueue with
    | none => rfl
    | some c => rfl

theorem addressees_iff (hmem : ∀ u, u ∈ us ↔ u ∈ m.getRoomUserIds room_id) :
    m.addressees (us.filter fun u => some u ≠ exclude_user) c = true ↔
      m.Recipient room_id exclude_user c := by
  simp only [addressees, List.any_eq_true, List.mem_filter, decide_eq_true_eq, hmem, Recipient,
    and_assoc]

/-- **A loop over the users of the room, in any order.** -/
theorem fanOut_broadcastOver (h : m.Owned) (hnodup : us.Nodup)
    (hmem : ∀ u, u ∈ us ↔ u ∈ m.getRoomUserIds room_id) :
    FanOut maxsize m room_id payload exclude_user
      (m.broadcastOver maxsize us payload exclude_user) := by
  have hfilter : (us.filter fun u => some u ≠ exclude_user).Nodup := hnodup.filter _
  have hheap : ∀ c, (m.broadcastOver maxsize us payload exclude_user).heap c = _ := fun c =>
    heap_deliverAll h hfilter
  have hframe : (m.broadcastOver maxsize us payload exclude_user).connections = _ ∧ _ :=
    frame_deliverAll
  obtain ⟨hconn, hroom, hlock, hnext, hjoined⟩ := hframe
  refine ⟨fun c hc hspace => ?_, fun c hc => ?_, ⟨_, forced_deliverAll h hfilter, ?_, fun c => ?_⟩,
    hconn, hroom, hlock, hnext, hjoined⟩
  · rw [hheap, (addressees_iff hmem).mpr hc, hspace]
    rfl
  · rw [hheap]
    split
    · rename_i hboth
      obtain ⟨hto, hspace⟩ := (Bool.and_eq_true _ _).mp hboth
      exact absurd ⟨(addressees_iff hmem).mp hto, by simpa using hspace⟩ hc
    · rfl
  · -- nobody is scheduled twice: two users have two connections
    refine List.Nodup.filterMap (fun v v' c hv hv' => ?_) hfilter
    obtain ⟨hget, -⟩ := Option.filter_eq_some_iff.mp hv
    obtain ⟨hget', -⟩ := Option.filter_eq_some_iff.mp hv'
    rw [← (h v c hget).1, (h v' c hget').1]
  · rw [List.mem_filterMap]
    constructor
    · rintro ⟨v, hv, hget⟩
      obtain ⟨hv, hne⟩ := List.mem_filter.mp hv
      obtain ⟨hget, hfull⟩ := Option.filter_eq_some_iff.mp hget
      exact ⟨⟨v, (hmem v).mp hv, of_decide_eq_true hne, hget⟩, hfull⟩
    · rintro ⟨⟨v, hv, hne, hget⟩, hfull⟩
      exact ⟨v, List.mem_filter.mpr ⟨(hmem v).mpr hv, decide_eq_true hne⟩,
        Option.filter_eq_some_iff.mpr ⟨hget, hfull⟩⟩

/-- **The description determines the manager**, up to the order of what is scheduled. -/
theorem FanOut.agree (h : FanOut maxsize m room_id payload exclude_user m')
    (h' : FanOut maxsize m room_id payload exclude_user m'') : Agree m' m'' := by
  have hheap : m''.heap = m'.heap := by
    funext c
    by_cases hc : m.Recipient room_id exclude_user c ∧ full maxsize (m.heap c).sendQueue = false
    · rw [h.delivered c hc.1 hc.2, h'.delivered c hc.1 hc.2]
    · rw [h.others c hc, h'.others c hc]
  obtain ⟨cs, hforced, hnodup, hmem⟩ := h.scheduled
  obtain ⟨cs', hforced', hnodup', hmem'⟩ := h'.scheduled
  constructor
  · obtain ⟨hlock, hnext, hjoined⟩ := h.flags
    obtain ⟨hlock', hnext', hjoined'⟩ := h'.flags
    have hconn := h'.connections.trans h.connections.symm
    have hroom := h'.roomConnections.trans h.roomConnections.symm
    have hlock := hlock'.trans hlock.symm
    have hnext := hnext'.trans hnext.symm
    have hjoined := hjoined'.trans hjoined.symm
    cases m'
    cases m''
    simp_all
  · rw [hforced, hforced']
    refine List.Perm.append_left _ ((List.perm_ext_iff_of_nodup hnodup' hnodup).mpr fun c => ?_)
    rw [hmem, hmem']

end Loop

end ConnectionManager

open ConnectionManager

section Runs

variable {π : Type} {maxsize : Nat} {s : ManagerPool π}

theorem owned_reach (hr : Reach (ManagerPool.step maxsize) Always .init s) : s.manager.Owned :=
  hr.invariant (I := fun s => s.manager.Owned) (fun u c hc => by cases hc)
    fun _ _ _ h _ hs => owned_step h hs

/-- **A broadcast is an exact fan-out**, in every state of the manager that can be reached, and
whatever order the users of the room come in. -/
theorem exact_fan_out (hr : Reach (ManagerPool.step maxsize) Always .init s) (room_id : RoomId)
    (payload : π) (exclude_user : Option UserId) :
    FanOut maxsize s.manager room_id payload exclude_user
        (s.manager.broadcastToRoom maxsize room_id payload exclude_user) ∧
      ∀ user_ids, user_ids.Perm (s.manager.getRoomUserIds room_id).elems →
        Agree (s.manager.broadcastToRoom maxsize room_id payload exclude_user)
          (s.manager.broadcastOver maxsize user_ids payload exclude_user) := by
  have howned := owned_reach hr
  have hfan : FanOut maxsize s.manager room_id payload exclude_user
      (s.manager.broadcastToRoom maxsize room_id payload exclude_user) :=
    fanOut_broadcastOver howned (s.manager.getRoomUserIds room_id).nodup fun _ => Iff.rfl
  refine ⟨hfan, fun user_ids hperm => hfan.agree ?_⟩
  exact fanOut_broadcastOver howned
    (hperm.nodup_iff.mpr (s.manager.getRoomUserIds room_id).nodup) fun u => hperm.mem_iff

end Runs

/-! ## A slow client and a fast one -/

/-- Users "u" and "v" are in room "r"; the queue of "u" is full. -/
def slowAndFast : List (PoolLabel Nat) :=
  [.call (.connect "u" "u"), .call (.connect "v" "v"), .call (.joinRoom "u" "r"),
      .call (.joinRoom "v" "r")] ++
    [0, 0, 1, 1, 2, 3].map (fun i => .run i { ok := true, order := [] }) ++
    (List.range 100).map (.sendToUser "u")

set_option maxRecDepth 20000 in
/-- A broadcast reaches "v" alone, and "u" is to be disconnected. -/
theorem exact_fan_out_slow : ∃ s : ManagerPool Nat,
    Reach (ManagerPool.step 100) Always .init s ∧
      FanOut 100 s.manager "r" 7 none (s.manager.broadcastToRoom 100 "r" 7 none) ∧
      s.manager.forced = [] ∧
      (s.manager.broadcastToRoom 100 "r" 7 none).forced = [0] ∧
      ((s.manager.broadcastToRoom 100 "r" 7 none).heap 1).sendQueue = [7] := by
  have hrun : ((replay (ManagerPool.step 100) slowAndFast .init).any fun s =>
      s.manager.forced = [] ∧ (s.manager.broadcastToRoom 100 "r" 7 none).forced = [0] ∧
        ((s.manager.broadcastToRoom 100 "r" 7 none).heap 1).sendQueue = [7]) = true := by
    decide +kernel
  obtain ⟨s, hs, htest⟩ := (Option.any_eq_true _ _).mp hrun
  have hr : Reach (ManagerPool.step 100) Always .init s := .of_replay .init hs
  exact ⟨s, hr, (exact_fan_out hr "r" 7 none).1, of_decide_eq_true htest⟩

end NexusChat
