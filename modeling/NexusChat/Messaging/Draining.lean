import NexusChat.Messaging.Backpressure

/-!
# Send tasks and registrations (`_process_send_queue`)

The send task of a connection ends when it is cancelled, when a send fails and when it finds the
socket closed. Whoever cancels it has unregistered the connection before; the other two ends leave
the connection registered, with a queue that nobody reads.
-/

set_option autoImplicit false

namespace NexusChat

namespace ConnectionManager

variable {π : Type} {m m' : ConnectionManager π} {c : ConnId} {u : UserId}

/-- Every registered connection has a send task that has not finished. -/
def Draining (m : ConnectionManager π) : Prop :=
  ∀ u c, m.connections.get? u = some c → (m.heap c).sendTask ≠ .finished

/-- The connection is in `_connections`. -/
def Registered (m : ConnectionManager π) (c : ConnId) : Prop := ∃ u, m.connections.get? u = some c

theorem draining_init : (init : ConnectionManager π).Draining := by
  intro u c hc
  cases hc

/-- Nobody is registered anew, and the send tasks of the registered connections go on. -/
theorem Draining.congr (h : m.Draining) (hconn : ∀ u c, m'.connections.get? u = some c →
      m.connections.get? u = some c ∧ (m'.heap c).sendTask = (m.heap c).sendTask) :
    m'.Draining := by
  intro u c hc
  obtain ⟨hold, htask⟩ := hconn u c hc
  rw [htask]
  exact h u c hold

theorem draining_register (ho : m.Owned) (h : m.Draining) {name : String} :
    (m.register u name).Draining := by
  intro u' c hc
  rw [get?_register] at hc
  rw [heap_register]
  split at hc
  · cases hc
    rw [if_pos rfl]
    intro hfinished
    cases hfinished
  · rw [if_neg (Nat.ne_of_lt (ho u' c hc).2)]
    exact h u' c hc

/-- The forced connection's user is not registered any more, so the cancelled task is nobody's. -/
theorem draining_forceCleanup (ho : m.Owned) (h : m.Draining) : (m.forceCleanup c).Draining := by
  refine h.congr fun u c' hc => ?_
  rw [get?_forceCleanup] at hc
  split at hc
  · cases hc
  · rename_i hu
    refine ⟨hc, ?_⟩
    rw [heap_forceCleanup, if_neg]
    rintro rfl
    exact hu (ho u c' hc).1.symm

theorem draining_unregister (ho : m.Owned) (h : m.Draining) : (m.unregister u).Draining := by
  refine h.congr fun u' c hc => ?_
  rw [get?_unregister] at hc
  split at hc
  · cases hc
  · rename_i hu
    refine ⟨hc, ?_⟩
    rw [heap_unregister, if_neg]
    intro hown
    exact hu ((ho u' c hc).1.symm.trans (ho u c hown).1)

theorem draining_sendToUser (h : m.Draining) {maxsize : Nat} {p : π} :
    (m.sendToUser maxsize u p).Draining := by
  refine h.congr fun u' c hc => ?_
  rw [connections_sendToUser] at hc
  refine ⟨hc, ?_⟩
  rcases heap_sendToUser (m := m) (u := u) (c := c) (n := maxsize) (p := p) with he | ⟨-, he⟩
  · rw [he]
  · rw [he]

theorem draining_broadcastToRoom (h : m.Draining) {maxsize : Nat} {r : RoomId} {p : π}
    {ex : Option UserId} : (m.broadcastToRoom maxsize r p ex).Draining := by
  refine broadcastToRoom_induction h fun n v hn => ?_
  refine hn.congr fun u' c hc => ?_
  rw [connections_deliver] at hc
  refine ⟨hc, ?_⟩
  rcases heap_deliver (m := n) (u := v) (c := c) (n := maxsize) (p := p) with he | ⟨-, he⟩
  · rw [he]
  · rw [he]

/-- **No operation of the manager ends the send task of a connection that stays registered.** -/
theorem draining_after {maxsize : Nat} {me : TaskId} {op : ManagerOp π} (ho : m.Owned)
    (h : m.Draining) : (op.after maxsize me m).Draining := by
  cases op with
  | accept | clientState | sendText | rooms | unlock => exact h
  | connectLocked u name =>
    simp only [ManagerOp.after]
    split
    · exact h
    · exact draining_register ho h
  | close c₀ =>
    refine h.congr fun u c hc => ⟨hc, ?_⟩
    rw [ManagerOp.after, heap_closeSocket]
    split
    · rename_i heq
      rw [heq]
    · rfl
  | forceCleanup c₀ => exact draining_forceCleanup ho h
  | replace old u name =>
    exact draining_register (owned_forceCleanup ho) (draining_forceCleanup ho h)
  | disconnectLocked u => exact draining_unregister ho h
  | joinRoom u r =>
    refine h.congr fun u' c hc => ?_
    rw [ManagerOp.after, connections_joinRoom] at hc
    refine ⟨hc, ?_⟩
    rw [ManagerOp.after, heap_joinRoom]
    split <;> rfl
  | leaveRoom u r =>
    refine h.congr fun u' c hc => ?_
    rw [ManagerOp.after, connections_leaveRoom] at hc
    refine ⟨hc, ?_⟩
    rw [ManagerOp.after, heap_leaveRoom]
    cases r with
    | str r =>
      dsimp only
      split <;> rfl
    | _ => rfl
  | sendToUser u p => exact draining_sendToUser h

/-- The send task of one connection goes on by a change of that connection. -/
theorem draining_modify_iff (h : m.Draining)
    {f : WebSocketConnection π → WebSocketConnection π} :
    (m.modify c f).Draining ↔ (m.Registered c → (f (m.heap c)).sendTask ≠ .finished) := by
  constructor
  · rintro hd ⟨u, hu⟩
    have := hd u c hu
    rwa [heap_modify, if_pos rfl] at this
  · intro hc u c' hu
    rw [heap_modify]
    split
    · rename_i heq
      subst heq
      exact hc ⟨u, hu⟩
    · exact h u c' hu

end ConnectionManager

namespace ManagerPool

open ConnectionManager

variable {π : Type} {maxsize : Nat} {s s' : ManagerPool π}

/-- The send task of a registered connection finds the socket connected, and its sends succeed. -/
def SendsSucceed (s : ManagerPool π) : PoolLabel π → Prop
  | .sendTake c => s.manager.Registered c → (s.manager.heap c).websocket = ⟨.connected, .connected⟩
  | .sendDone c ok _ => s.manager.Registered c → ok = true
  | _ => True

/-- **A step leaves every registered connection drained exactly if it is no failing send of one.** -/
theorem draining_step_iff (ho : s.manager.Owned) (h : s.manager.Draining) {l : PoolLabel π}
    (hs : s.step maxsize l = some s') : s'.manager.Draining ↔ s.SendsSucceed l := by
  cases l with
  | call e =>
    cases hs
    exact ⟨fun _ => trivial, fun _ => h⟩
  | start =>
    simp only [step] at hs
    split at hs
    · cases hs
    · cases hs
      exact ⟨fun _ => trivial, fun _ => h⟩
  | broadcast r p ex =>
    cases hs
    exact ⟨fun _ => trivial, fun _ => draining_broadcastToRoom h⟩
  | sendToUser u p =>
    cases hs
    exact ⟨fun _ => trivial, fun _ => draining_sendToUser h⟩
  | clientGone c =>
    cases hs
    refine ⟨fun _ => trivial, fun _ => (draining_modify_iff h).mpr ?_⟩
    rintro ⟨u, hu⟩
    exact h u c hu
  | run i x =>
    simp only [step] at hs
    split at hs
    · cases hs
    · obtain ⟨⟨p', m⟩, hp, rfl⟩ := Option.map_eq_some_iff.mp hs
      obtain ⟨op, k, r, rfl, hx, rfl⟩ := Coro.step_eq_some hp
      obtain ⟨-, -, rfl⟩ := ManagerOp.exec_eq_some hx
      exact ⟨fun _ => trivial, fun _ => draining_after ho h⟩
  | sendTake c =>
    obtain ⟨m, hm, rfl⟩ := Option.map_eq_some_iff.mp hs
    unfold ConnectionManager.sendTake at hm
    split at hm
    · cases hm
      refine (draining_modify_iff h).trans (imp_congr_right fun _ => ?_)
      dsimp only
      split
      · rename_i hopen
        exact ⟨fun _ => hopen, fun _ hfinished => by cases hfinished⟩
      · rename_i hclosed
        exact ⟨fun hne => absurd rfl hne, fun hopen => absurd hopen hclosed⟩
    · cases hm
  | sendDone c ok wrote =>
    obtain ⟨m, hm, rfl⟩ := Option.map_eq_some_iff.mp hs
    unfold ConnectionManager.sendDone at hm
    split at hm
    · cases hm
      refine (draining_modify_iff h).trans (imp_congr_right fun _ => ?_)
      cases ok with
      | true => exact ⟨fun _ => rfl, fun _ hfinished => by cases hfinished⟩
      | false => exact ⟨fun hne => absurd rfl hne, fun hok => by cases hok⟩
    · cases hm

/-- **The registered connections are being drained**, in the runs in which the sends to registered
connections succeed. -/
theorem registered_drained (hr : Reach (step maxsize) SendsSucceed (init : ManagerPool π) s) :
    s.manager.Draining := by
  have h : s.manager.Owned ∧ s.manager.Draining := by
    have hinit : (init : ManagerPool π).manager.Owned ∧ (init : ManagerPool π).manager.Draining :=
      ⟨(fun _ _ hc => by cases hc), draining_init⟩
    refine Reach.invariant (I := fun s => s.manager.Owned ∧ s.manager.Draining) hinit
      (fun s l s' h hC hs => ?_) hr
    exact ⟨owned_step h.1 hs, (draining_step_iff h.1 h.2 hs).mpr hC⟩
  exact h.2

/-! ### A send that fails -/

namespace Sample

/-- User "u" connects, and a payload for the user is taken out of the queue. -/
def sends : List (PoolLabel Nat) :=
  .call (.connect "u" "u") :: List.replicate 2 (.run 0 { ok := true, order := [] }) ++
    [.sendToUser "u" 7, .sendTake 0]

/-- The only connection there is may be drained. -/
def succeeds (s : ManagerPool Nat) : PoolLabel Nat → Bool
  | .sendTake c => (s.manager.heap c).websocket = ⟨.connected, .connected⟩
  | .sendDone _ ok _ => ok
  | _ => true

theorem sendsSucceed_of_succeeds (s : ManagerPool Nat) (l : PoolLabel Nat)
    (h : succeeds s l = true) : s.SendsSucceed l := by
  cases l with
  | sendTake c => exact fun _ => of_decide_eq_true h
  | sendDone c ok wrote => exact fun _ => h
  | _ => trivial

def registered (s : ManagerPool Nat) : Bool := s.manager.connections.get? "u" = some 0

def finished (s : ManagerPool Nat) : Bool :=
  match (s.manager.heap 0).sendTask with
  | .finished => true
  | _ => false

end Sample

open ManagerPool.Sample in
/-- The payload is written, and the send task goes on. -/
theorem registered_drained_once : ∃ s : ManagerPool Nat,
    Reach (step 100) SendsSucceed init s ∧ s.manager.connections.get? "u" = some 0 ∧
      (s.manager.heap 0).sendTask ≠ .finished := by
  have hrun : ((replayIf (step 100) succeeds (sends ++ [.sendDone 0 true true]) init).any
      registered) = true := by
    decide +kernel
  obtain ⟨s, hs, hregistered⟩ := (Option.any_eq_true _ _).mp hrun
  have hr := Reach.of_replayIf sendsSucceed_of_succeeds .init hs
  have hu := of_decide_eq_true hregistered
  exact ⟨s, hr, hu, registered_drained hr "u" 0 hu⟩

open ManagerPool.Sample in
/-- **A send that fails leaves a registered connection whose queue nobody reads.** -/
theorem not_registered_drained : ¬∀ (maxsize : Nat) (s : ManagerPool Nat),
    Reach (step maxsize) Always init s → s.manager.Draining := by
  intro hall
  have hrun : ((replay (step 100) (sends ++ [.sendDone 0 false false]) init).any fun s =>
      registered s && finished s) = true := by
    decide +kernel
  obtain ⟨s, hs, htest⟩ := (Option.any_eq_true _ _).mp hrun
  obtain ⟨hregistered, hfinished⟩ := (Bool.and_eq_true _ _).mp htest
  refine hall 100 s (.of_replay .init hs) "u" 0 (of_decide_eq_true hregistered) ?_
  unfold finished at hfinished
  split at hfinished
  · assumption
  · cases hfinished

end ManagerPool

end NexusChat
