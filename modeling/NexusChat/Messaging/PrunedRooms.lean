import NexusChat.Messaging.ManagerRuns

/-!
# Rooms nobody is in

`disconnect` and `leave_room` delete a room's set once they have emptied it. The `finally` of
`_force_disconnect` only discards the user, and nothing repairs that afterwards: both of the
others pass over a set that is already empty. So the room map stays free of empty sets exactly
as long as every such cleanup leaves somebody in each room it visits (`LeavesOthers`).
-/

set_option autoImplicit false

namespace NexusChat

namespace ConnectionManager

variable {π : Type} {m : ConnectionManager π} {u : UserId} {r : RoomId} {c : ConnId}

/-- No key of the index maps to an empty set. -/
def NoEmptySet (index : Dict RoomId (PySet UserId)) : Prop :=
  ∀ room_id users, index.get? room_id = some users → users.isEmpty = false

/-- No key of `_room_connections` maps to an empty set. -/
def Pruned (m : ConnectionManager π) : Prop := NoEmptySet m.roomConnections

/-- The cleanup for `c` leaves somebody in every room of `c` that is in the map. -/
def LeavesOthers (m : ConnectionManager π) (c : ConnId) : Prop :=
  ∀ r ∈ (m.heap c).rooms, ∀ users, m.roomConnections.get? r = some users →
    ∃ v ∈ users, v ≠ (m.heap c).userId

/-! ## The cleanup loop -/

theorem isEmpty_eq_false {users : PySet UserId} : users.isEmpty = false ↔ ∃ v, v ∈ users := by
  rw [← Bool.not_eq_true, PySet.isEmpty_iff]
  simp

/-- Read through membership: whoever is a key has somebody in its set. -/
theorem noEmptySet_iff {index : Dict RoomId (PySet UserId)} :
    NoEmptySet index ↔ ∀ r ∈ index.keys, ∃ v, v ∈ roomOf index r := by
  constructor
  · intro h r hr
    obtain ⟨users, hg⟩ := Dict.mem_keys.mp hr
    have hne := isEmpty_eq_false.mp (h r users hg)
    simpa [roomOf, hg] using hne
  · intro h r users hg
    obtain ⟨v, hv⟩ := h r (Dict.mem_keys.mpr ⟨users, hg⟩)
    apply isEmpty_eq_false.mpr
    exact ⟨v, by simpa [roomOf, hg] using hv⟩

/-- One pass of a loop that prunes. -/
theorem noEmptySet_dropUser {index : Dict RoomId (PySet UserId)} (h : NoEmptySet index) :
    NoEmptySet (dropUser true u index r) := by
  unfold dropUser
  cases hg : index.get? r with
  | none => exact h
  | some users =>
    dsimp only
    split
    · exact h
    · intro r' users' hg'
      split at hg'
      · rw [Dict.get?_pop] at hg'
        split at hg'
        · exact absurd hg' (by simp)
        · exact h r' users' hg'
      · rename_i hd
        rw [Dict.get?_set] at hg'
        split at hg'
        · cases hg'
          simpa using hd
        · exact h r' users' hg'

theorem noEmptySet_foldl_dropUser (rooms : List RoomId) {index : Dict RoomId (PySet UserId)}
    (h : NoEmptySet index) : NoEmptySet (rooms.foldl (dropUser true u) index) := by
  induction rooms generalizing index with
  | nil => exact h
  | cons r rooms ih =>
    rw [List.foldl_cons]
    exact ih (noEmptySet_dropUser h)

/-- A loop that does not prune keeps every key. -/
theorem keys_foldl_dropUser (rooms : List RoomId) (index : Dict RoomId (PySet UserId)) :
    (rooms.foldl (dropUser false u) index).keys = index.keys := by
  induction rooms generalizing index with
  | nil => rfl
  | cons r rooms ih =>
    rw [List.foldl_cons, ih]
    unfold dropUser
    cases hg : index.get? r with
    | none => rfl
    | some users =>
      dsimp only
      split
      · rfl
      · exact Dict.keys_set_of_mem (Dict.mem_keys.mpr ⟨users, hg⟩) _

/-! ## One method -/

theorem pruned_init : Pruned (ConnectionManager.init : ConnectionManager π) := by
  intro r users hg
  simp [ConnectionManager.init] at hg

/-- **The cleanup that does not prune**: from a pruned map it leaves a pruned map exactly when
nobody was alone in a room it visited. -/
theorem pruned_forceCleanup_iff (h : Pruned m) : Pruned (m.forceCleanup c) ↔ m.LeavesOthers c := by
  have hkeys : (m.forceCleanup c).roomConnections.keys = m.roomConnections.keys :=
    keys_foldl_dropUser _ _
  have hroom : ∀ r v, v ∈ roomOf (m.forceCleanup c).roomConnections r ↔
      v ∈ roomOf m.roomConnections r ∧ ¬(v = (m.heap c).userId ∧ r ∈ (m.heap c).rooms) :=
    fun r v => mem_getRoomUserIds_forceCleanup
  unfold Pruned
  rw [noEmptySet_iff, hkeys]
  constructor
  · intro ha r hr users hg
    obtain ⟨v, hv⟩ := ha r (Dict.mem_keys.mpr ⟨users, hg⟩)
    obtain ⟨hin, hne⟩ := (hroom r v).mp hv
    refine ⟨v, by simpa [roomOf, hg] using hin, ?_⟩
    intro hq
    exact hne ⟨hq, hr⟩
  · intro hl r hr
    obtain ⟨users, hg⟩ := Dict.mem_keys.mp hr
    by_cases hc : r ∈ (m.heap c).rooms
    · obtain ⟨v, hv, hne⟩ := hl r hc users hg
      exact ⟨v, (hroom r v).mpr ⟨by simpa [roomOf, hg] using hv, fun hx => hne hx.1⟩⟩
    · obtain ⟨v, hv⟩ := noEmptySet_iff.mp h r hr
      exact ⟨v, (hroom r v).mpr ⟨hv, fun hx => hc hx.2⟩⟩

theorem pruned_unregister (h : Pruned m) : Pruned (m.unregister u) := by
  unfold unregister
  cases m.connections.get? u with
  | none => exact h
  | some c => exact noEmptySet_foldl_dropUser _ h

theorem pruned_joinRoom (h : Pruned m) : Pruned (m.joinRoom u r) := by
  unfold joinRoom
  cases m.connections.get? u with
  | none => exact h
  | some c =>
    intro r' users hg
    dsimp only at hg
    rw [Dict.get?_set] at hg
    split at hg
    · cases hg
      exact isEmpty_eq_false.mpr ⟨u, PySet.mem_add.mpr (Or.inl rfl)⟩
    · exact h r' users hg

theorem pruned_leaveRoom {room : Json} (h : Pruned m) : Pruned (m.leaveRoom u room).2 := by
  unfold leaveRoom
  cases m.connections.get? u with
  | none => exact h
  | some c =>
    cases room with
    | str r => exact noEmptySet_dropUser h
    | _ => exact h

end ConnectionManager

open ConnectionManager

variable {π : Type}

/-- The condition on an operation: a cleanup that does not prune leaves somebody in every room
it visits. -/
def ManagerOp.Tidy (m : ConnectionManager π) : ManagerOp π → Prop
  | .forceCleanup c | .replace c _ _ => m.LeavesOthers c
  | _ => True

/-- **One operation**: it keeps the map pruned exactly when it is tidy. -/
theorem pruned_after_iff {maxsize : Nat} {me : TaskId} {op : ManagerOp π}
    {m : ConnectionManager π} (h : Pruned m) : Pruned (op.after maxsize me m) ↔ op.Tidy m := by
  cases op with
  | forceCleanup c => exact pruned_forceCleanup_iff h
  | replace c u name => exact pruned_forceCleanup_iff h
  | connectLocked u name =>
    refine iff_of_true ?_ trivial
    simp only [ManagerOp.after]
    cases m.connections.get? u <;> exact h
  | disconnectLocked u => exact iff_of_true (pruned_unregister h) trivial
  | joinRoom u r => exact iff_of_true (pruned_joinRoom h) trivial
  | leaveRoom u r => exact iff_of_true (pruned_leaveRoom h) trivial
  | sendToUser u p =>
    refine iff_of_true ?_ trivial
    simp only [ManagerOp.after, Pruned, roomConnections_sendToUser]
    exact h
  | accept | clientState | sendText | close | unlock | rooms => exact iff_of_true h trivial

/-! ## Every run -/

namespace ManagerPool

variable {maxsize : Nat} {s s' : ManagerPool π}

/-- The condition on a step: the operation it performs, if any, is tidy. -/
def Tidies (s : ManagerPool π) : PoolLabel π → Prop
  | .run i _ => ∀ p op, s.tasks[i]? = some p → p.head? = some op → op.Tidy s.manager
  | _ => True

theorem pruned_step {l : PoolLabel π} (h : Pruned s.manager) (hl : s.Tidies l)
    (hs : step maxsize s l = some s') : Pruned s'.manager := by
  cases l with
  | call c =>
    simp only [step, Option.some.injEq] at hs
    subst hs
    exact h
  | start =>
    simp only [step] at hs
    split at hs
    · exact absurd hs (by simp)
    · simp only [Option.some.injEq] at hs
      subst hs
      exact h
  | run i x =>
    simp only [step] at hs
    split at hs
    · exact absurd hs (by simp)
    · rename_i p hp
      obtain ⟨⟨p', m'⟩, hq, rfl⟩ := Option.map_eq_some_iff.mp hs
      obtain ⟨op, k, r, rfl, hx, rfl⟩ := Coro.step_eq_some hq
      obtain ⟨-, -, rfl⟩ := ManagerOp.exec_eq_some hx
      -- only the operations of a task take users out of rooms
      exact (pruned_after_iff h).mpr (hl _ op hp rfl)
  | broadcast r p ex =>
    simp only [step, Option.some.injEq] at hs
    subst hs
    simpa only [Pruned, roomConnections_broadcastToRoom] using h
  | sendToUser u p =>
    simp only [step, Option.some.injEq] at hs
    subst hs
    simpa only [Pruned, roomConnections_sendToUser] using h
  | sendTake c =>
    obtain ⟨m', hm, rfl⟩ := Option.map_eq_some_iff.mp hs
    simpa only [Pruned, roomConnections_sendTake hm] using h
  | sendDone c ok wrote =>
    obtain ⟨m', hm, rfl⟩ := Option.map_eq_some_iff.mp hs
    simpa only [Pruned, roomConnections_sendDone hm] using h
  | clientGone c =>
    simp only [step, Option.some.injEq] at hs
    subst hs
    exact h

/-- Nobody has a connection. -/
def AllGone (s : ManagerPool π) : Prop := ∀ u, s.manager.connections.get? u = none

/-- With the indexes in agreement and the map pruned, a room in the map has a user who is
connected. -/
theorem keys_eq_nil (hp : Pruned s.manager) (ha : IndexAgrees s.manager) (hg : s.AllGone) :
    s.manager.roomConnections.keys = [] := by
  apply List.eq_nil_iff_forall_not_mem.mpr
  intro r hr
  obtain ⟨u, hu⟩ := noEmptySet_iff.mp hp r hr
  obtain ⟨c, hc, -⟩ := (ha u r).mp hu
  rw [hg u] at hc
  exact absurd hc (by simp)

/-- **The room map stays pruned** in every run all of whose cleanups are tidy, suspended calls
or not; and it is empty once everybody has gone, late cleanups being harmless. -/
theorem rooms_pruned (h : Reach (step maxsize) Tidies init s) :
    Pruned s.manager ∧
      (Reach (step maxsize) LateCleanupHarmless init s → s.AllGone →
        s.manager.roomConnections.keys = []) := by
  have hp : Pruned s.manager :=
    h.invariant (I := fun s : ManagerPool π => Pruned s.manager) pruned_init
      fun _ _ _ hi hl hs => pruned_step hi hl hs
  exact ⟨hp, fun hr hg => keys_eq_nil hp (index_agreement hr) hg⟩

/-- `LeavesOthers` as a test. -/
def leavesOthersTest (m : ConnectionManager π) (c : ConnId) : Bool :=
  (m.heap c).rooms.elems.all fun r =>
    (m.roomConnections.get? r).all fun users => users.elems.any (· ≠ (m.heap c).userId)

theorem leavesOthers_of_test {m : ConnectionManager π} {c : ConnId}
    (h : leavesOthersTest m c = true) : m.LeavesOthers c := by
  intro r hr users hg
  have hv := List.all_eq_true.mp h r hr
  rw [hg] at hv
  obtain ⟨v, hin, hne⟩ := List.any_eq_true.mp hv
  exact ⟨v, hin, by simpa using hne⟩

/-- `Tidies` as a test. -/
def tidyTest (s : ManagerPool π) : PoolLabel π → Bool
  | .run i _ =>
    match s.tasks[i]? with
    | some (.await (.forceCleanup c) _) | some (.await (.replace c _ _) _) =>
      leavesOthersTest s.manager c
    | _ => true
  | _ => true

theorem tidies_of_test (s : ManagerPool π) (l : PoolLabel π) (h : s.tidyTest l = true) :
    s.Tidies l := by
  cases l with
  | run i x =>
    intro p op hp ho
    cases p with
    | ret | raise => simp [Coro.head?] at ho
    | await op' k =>
      obtain rfl : op' = op := Option.some.inj ho
      cases op' with
      | forceCleanup c | replace c =>
        simp only [tidyTest, hp] at h
        exact leavesOthers_of_test h
      | _ => trivial
  | _ => trivial

/-! ## Replacing a connection -/

/-- The user connects a second time and then leaves. The replacement is task `n`. -/
def replacing (n : TaskId) : List (PoolLabel Unit) :=
  .call (.connect "u" "U") :: List.replicate 6 (.run n attempt) ++
    .call (.disconnect "u") :: List.replicate 3 (.run (n + 1) attempt)

/-- Somebody else is in the room when the first connection is replaced, and leaves last. -/
def company : List (PoolLabel Unit) :=
  [.call (.connect "v" "V"), .run 2 attempt, .run 2 attempt,
    .call (.joinRoom "v" "r1"), .run 3 attempt] ++
  replacing 4 ++ .call (.disconnect "v") :: List.replicate 3 (.run 6 attempt)

/-- Nothing is suspended and `"r1"` maps to an empty set. -/
def deadRoom (s : ManagerPool Unit) : Bool :=
  s.manager.forced.isEmpty && s.tasks.all (fun p => p.head?.isNone) &&
    (s.manager.roomConnections.get? "r1").any (·.isEmpty)

set_option maxRecDepth 20000 in
/-- Alone in the room, the user leaves an empty set behind that their own `disconnect` does not
see. -/
theorem not_rooms_pruned : ¬ ∀ s : ManagerPool Unit,
    Reach (step 100) Always init s → s.Quiescent →
      Pruned s.manager ∧ (s.AllGone → s.manager.roomConnections.keys = []) := by
  intro hall
  have hrun : ((replay (step 100) (opening ++ replacing 2) init).any deadRoom) = true := by
    decide +kernel
  obtain ⟨s, hs, hv⟩ := Option.any_eq_true _ _ |>.mp hrun
  simp only [deadRoom, Bool.and_eq_true, List.all_eq_true] at hv
  obtain ⟨⟨hforced, htasks⟩, hdead⟩ := hv
  have hq : s.Quiescent := ⟨List.isEmpty_iff.mp hforced, fun p hp =>
    Option.isNone_iff_eq_none.mp (htasks p hp)⟩
  obtain ⟨users, hg, hempty⟩ := Option.any_eq_true _ _ |>.mp hdead
  have hne := (hall s (.of_replay .init hs) hq).1 "r1" users hg
  simp [hne] at hempty

/-- Both conditions on a step as one test. -/
def bothTest (s : ManagerPool Unit) (l : PoolLabel Unit) : Bool :=
  s.tidyTest l && s.lateCleanupTest l

set_option maxRecDepth 20000 in
/-- In company, both conditions hold and the map is empty in the end. -/
theorem rooms_pruned_company : ∃ s : ManagerPool Unit,
    replay (step 100) (opening ++ company) init = some s ∧ Pruned s.manager ∧
      s.manager.roomConnections.keys = [] := by
  have hrun : ((replayIf (step 100) bothTest (opening ++ company) init).any
      fun s => s.manager.connections.keys.isEmpty) = true := by
    decide +kernel
  obtain ⟨s, hs, hgone⟩ := Option.any_eq_true _ _ |>.mp hrun
  have htidy : Reach (step 100) Tidies init s :=
    .of_replayIf (fun s l h => tidies_of_test s l (Bool.and_eq_true_iff.mp h).1) .init hs
  have hlate : Reach (step 100) LateCleanupHarmless init s :=
    .of_replayIf (fun s l h => lateCleanupHarmless_of_test s l (Bool.and_eq_true_iff.mp h).2)
      .init hs
  have hall : s.AllGone := fun u =>
    Dict.get?_eq_none.mpr (List.isEmpty_iff.mp hgone ▸ List.not_mem_nil)
  exact ⟨s, replay_of_replayIf hs, (rooms_pruned htidy).1, (rooms_pruned htidy).2 hlate hall⟩

end ManagerPool

end NexusChat
