import NexusChat.Client.Connection

/-!
# Reconnecting

A socket that is lost is replaced by the reconnect timer, which `onclose` sets unless one is set
already. It is cleared only when it fires, and then `connectWebSocket` opens a socket unless the
present one is alive. So the page is never left with a dead socket and nothing under way: as long as
the socket that was lost is still `state.ws`, the variable holds a timer that is pending, and its
callback puts a live socket in its place (`never_gives_up`).
-/

set_option autoImplicit false

namespace NexusChat

namespace Connection

/-- What a function does to the sockets that leaves the reconnect timer alone: it revives none, and
`state.ws` is the socket it was, a new one or none. -/
structure Moves (s s' : Connection) : Prop where
  length : s.sockets.length ≤ s'.sockets.length
  dead : ∀ k < s.sockets.length, s'.live k = true → s.live k = true
  ws : ∀ k, s'.ws = some k → s.ws = some k ∨ s.sockets.length ≤ k
  timers : s'.timers = s.timers
  timer : s'.reconnectTimer = s.reconnectTimer

/-- The socket `k` is lost, and is replaced if it is still the one in use. -/
structure Recovering (k : SocketId) (s : Connection) : Prop where
  opened : k < s.sockets.length
  dead : s.live k = false
  armed : s.timers.Armed s.reconnectTimer
  scheduled : s.ws = some k → s.reconnectTimer ≠ none

variable {s s' s'' : Connection} {k : SocketId}

/-! ## The functions -/

/-- A function that leaves the sockets alone, too. -/
theorem Moves.of_eq (hsockets : s'.sockets = s.sockets) (hws : s'.ws = s.ws)
    (htimers : s'.timers = s.timers) (htimer : s'.reconnectTimer = s.reconnectTimer) :
    s.Moves s' where
  length := by rw [hsockets]
  dead := fun k _ hlive => by
    unfold live readyState at hlive ⊢
    rwa [hsockets] at hlive
  ws := fun k hk => .inl (hws ▸ hk)
  timers := htimers
  timer := htimer

theorem Moves.trans (h : s.Moves s') (h' : s'.Moves s'') : s.Moves s'' where
  length := h.length.trans h'.length
  dead := fun k hk hlive => h.dead k hk (h'.dead k (hk.trans_le h.length) hlive)
  ws := by
    intro k hk
    rcases h'.ws k hk with hws | hnew
    · exact h.ws k hws
    · exact .inr (h.length.trans hnew)
  timers := h'.timers.trans h.timers
  timer := h'.timer.trans h.timer

theorem moves_request {caller : Caller} : s.Moves (s.request caller) := .of_eq rfl rfl rfl rfl

theorem moves_wsSend {event : String} {roomId : Option RoomId} :
    s.Moves (s.wsSend event roomId) := by
  unfold wsSend
  split
  · exact .of_eq rfl rfl rfl rfl
  · split <;> exact .of_eq rfl rfl rfl rfl

/-- A `readyState` that does not decrease revives no socket. -/
theorem moves_moveSocket {r : ReadyState}
    (hr : ∀ old, s.readyState k = some old → old.value ≤ r.value) : s.Moves (s.moveSocket k r) where
  length := (List.length_modify ..).ge
  dead := by
    intro j _ hlive
    unfold live at hlive ⊢
    rw [readyState_moveSocket] at hlive
    split at hlive
    · rename_i heq
      subst heq
      cases hold : s.readyState j with
      | none => simp [hold] at hlive
      | some old =>
        simp only [hold, Option.map_some, Option.any_some, decide_eq_true_eq] at hlive ⊢
        exact (hr old hold).trans hlive
    · exact hlive
  ws := fun _ hk => .inl hk
  timers := rfl
  timer := rfl

theorem moves_close : s.Moves (s.close k) := by
  unfold close
  split
  · rename_i hlive
    refine moves_moveSocket fun old hold => ?_
    rw [live, hold, Option.any_some, decide_eq_true_eq] at hlive
    exact hlive.trans (by decide)
  · exact .of_eq rfl rfl rfl rfl

theorem moves_logout : s.Moves s.logout := by
  have hcleared : s.Moves { s.clearTokens with currentRoom := none } := .of_eq rfl rfl rfl rfl
  unfold logout
  dsimp only
  split
  · rename_i k _
    have hclosed := hcleared.trans (moves_close (k := k))
    exact ⟨hclosed.length, hclosed.dead, fun _ hk => absurd hk (by simp), hclosed.timers,
      hclosed.timer⟩
  · exact hcleared

theorem moves_connectWebSocket : s.Moves s.connectWebSocket := by
  unfold connectWebSocket
  split
  · exact .of_eq rfl rfl rfl rfl
  · refine ⟨?_, ?_, ?_, rfl, rfl⟩
    · rw [List.length_append]
      exact Nat.le_add_right ..
    · intro j hj hlive
      unfold live readyState at hlive ⊢
      rwa [List.getElem?_append_left hj] at hlive
    · intro j hj
      exact .inr (Option.some.inj hj).le

theorem moves_fail {caller : Caller} : s.Moves (s.fail caller) := by
  cases caller <;> exact .of_eq rfl rfl rfl rfl

theorem moves_proceed {caller : Caller} : s.Moves (s.proceed caller) := by
  cases caller with
  | login | init => exact moves_connectWebSocket.trans moves_request
  | other => exact .of_eq rfl rfl rfl rfl

theorem moves_resume {c : Call} {a : Answer} (hr : s.resume c a = some s') : s.Moves s' := by
  cases c with
  | login =>
    cases a with
    | ok => cases hr
    | tokens access refresh | unauthorized | failed =>
      cases hr
      exact .of_eq rfl rfl rfl rfl
  | fetch caller =>
    cases a with
    | ok =>
      cases hr
      exact moves_proceed
    | tokens access refresh => cases hr
    | unauthorized =>
      simp only [resume] at hr
      split at hr
      · cases hr
        exact moves_logout.trans moves_fail
      · cases hr
        exact .of_eq rfl rfl rfl rfl
    | failed =>
      cases hr
      exact moves_fail
  | refresh caller =>
    cases a with
    | ok => cases hr
    | tokens access refresh =>
      cases hr
      exact .of_eq rfl rfl rfl rfl
    | unauthorized | failed =>
      cases hr
      exact moves_logout.trans moves_fail
  | retry caller =>
    cases a with
    | ok =>
      cases hr
      exact moves_proceed
    | tokens access refresh => cases hr
    | unauthorized | failed =>
      cases hr
      exact moves_fail

/-! ## Runs -/

/-- **A step leaves the timer alone**, except that `onclose` sets it and that it fires. -/
theorem moves_step {l : Label} (hs : s.step l = some s') :
    s.Moves s' ∨ s' = s.scheduleReconnect ∨
      ∃ t timers, s.timers.fire t = some timers ∧ s' = { s with timers }.reconnect := by
  cases l with
  | login | request | room =>
    cases hs
    exact .inl (.of_eq rfl rfl rfl rfl)
  | logout =>
    cases hs
    exact .inl moves_logout
  | init =>
    cases hs
    left
    unfold Connection.init
    dsimp only
    split <;> exact .of_eq rfl rfl rfl rfl
  | answer i a =>
    simp only [step] at hs
    split at hs
    · cases hs
    · have hrest : s.Moves { s with calls := s.calls.eraseIdx i } := .of_eq rfl rfl rfl rfl
      exact .inl (hrest.trans (moves_resume hs))
  | ready k r =>
    simp only [step] at hs
    split at hs
    · rename_i hle
      cases hs
      refine .inl (moves_moveSocket fun old hold => ?_)
      rwa [hold, Option.any_some, decide_eq_true_eq] at hle
    · cases hs
  | opened k =>
    simp only [step] at hs
    split at hs
    · cases hs
      left
      have hreset : s.Moves { s with reconnectAttempts := 0 } := .of_eq rfl rfl rfl rfl
      unfold onopen
      dsimp only
      split
      · exact hreset.trans moves_wsSend
      · exact hreset
    · cases hs
  | closed k code =>
    simp only [step] at hs
    split at hs
    · cases hs
      unfold onclose
      split
      · exact .inr (.inl rfl)
      · exact .inl (.of_eq rfl rfl rfl rfl)
    · cases hs
  | errored k =>
    simp only [step] at hs
    split at hs
    · cases hs
      exact .inl (.of_eq rfl rfl rfl rfl)
    · cases hs
  | timer t =>
    obtain ⟨timers, hfire, rfl⟩ := Option.map_eq_some_iff.mp hs
    exact .inr (.inr ⟨t, timers, hfire, rfl⟩)

theorem armed_scheduleReconnect (h : s.timers.Armed s.reconnectTimer) :
    s.scheduleReconnect.timers.Armed s.scheduleReconnect.reconnectTimer := by
  unfold scheduleReconnect
  split
  · exact h
  · exact Timers.armed_set

theorem reconnectTimer_scheduleReconnect : s.scheduleReconnect.reconnectTimer ≠ none := by
  unfold scheduleReconnect
  split
  · rename_i hsome
    exact Option.isSome_iff_ne_none.mp hsome
  · exact Option.some_ne_none _

theorem sockets_scheduleReconnect : s.scheduleReconnect.sockets = s.sockets := by
  unfold scheduleReconnect
  split <;> rfl

theorem live_scheduleReconnect : s.scheduleReconnect.live k = s.live k := by
  unfold live readyState
  rw [sockets_scheduleReconnect]

/-- The callback of the timer leaves the variable empty. -/
theorem armed_reconnect : s.reconnect.timers.Armed s.reconnect.reconnectTimer := by
  unfold reconnect
  rw [moves_connectWebSocket.timer]
  exact Timers.armed_none

/-- **`connectWebSocket` leaves a live socket.** -/
theorem live_connectWebSocket :
    ∃ j, s.connectWebSocket.ws = some j ∧ s.connectWebSocket.live j = true := by
  unfold connectWebSocket
  split
  · rename_i hguard
    exact (Option.any_eq_true _ _).mp hguard
  · refine ⟨s.sockets.length, rfl, ?_⟩
    unfold live readyState
    rw [List.getElem?_append_right (Nat.le_refl _), Nat.sub_self]
    rfl

/-- The timer of the variable is pending, in every run. -/
theorem armed_step (h : s.timers.Armed s.reconnectTimer) {l : Label} (hs : s.step l = some s') :
    s'.timers.Armed s'.reconnectTimer := by
  rcases moves_step hs with hmoves | rfl | ⟨t, timers, -, rfl⟩
  · rw [hmoves.timers, hmoves.timer]
    exact h
  · exact armed_scheduleReconnect h
  · exact armed_reconnect

/-- A dead socket stays dead. -/
theorem Moves.dead_of (h : s.Moves s') (hk : k < s.sockets.length) (hdead : s.live k = false) :
    s'.live k = false := by
  rw [← Bool.not_eq_true] at hdead ⊢
  exact fun hlive => hdead (h.dead k hk hlive)

theorem recovering_step (h : Recovering k s) {l : Label} (hs : s.step l = some s') :
    Recovering k s' := by
  have harmed := armed_step h.armed hs
  rcases moves_step hs with hmoves | rfl | ⟨t, timers, -, rfl⟩
  · refine ⟨h.opened.trans_le hmoves.length, hmoves.dead_of h.opened h.dead, harmed, ?_⟩
    intro hws
    rw [hmoves.timer]
    rcases hmoves.ws k hws with hsame | hnew
    · exact h.scheduled hsame
    · exact absurd h.opened (Nat.not_lt.mpr hnew)
  · refine ⟨?_, live_scheduleReconnect.trans h.dead, harmed, ?_⟩
    · rw [sockets_scheduleReconnect]
      exact h.opened
    · exact fun _ => reconnectTimer_scheduleReconnect
  · -- the socket in use is alive now, so it is another one
    have hmoves : Moves { { s with timers } with reconnectTimer := none }
        ({ s with timers } : Connection).reconnect := moves_connectWebSocket
    have hdead := hmoves.dead_of h.opened h.dead
    refine ⟨h.opened.trans_le hmoves.length, hdead, harmed, fun hws => ?_⟩
    obtain ⟨j, hj, hlive⟩ := live_connectWebSocket
      (s := { { s with timers } with reconnectTimer := none })
    cases Option.some.inj (hj.symm.trans hws)
    exact absurd (hdead.symm.trans hlive) Bool.false_ne_true

/-- **The page never gives up.** When a socket that is dead has closed with a code other than 1000,
then for as long as `state.ws` is still that socket a reconnect timer is pending, and when it fires
another socket, which is alive, is in its place. -/
theorem never_gives_up {stored : Option String × Option String} {s₁ s₂ s₃ : Connection} {code : Nat}
    (h : Reach step Always (start stored) s₁) (hdead : s₁.live k = false)
    (hs : s₁.step (.closed k code) = some s₂) (hcode : code ≠ 1000)
    (hlater : Reach step Always s₂ s₃) (hws : s₃.ws = some k) :
    ∃ t s₄, s₃.reconnectTimer = some t ∧ s₃.step (.timer t) = some s₄ ∧
      ∃ j, j ≠ k ∧ s₄.ws = some j ∧ s₄.live j = true := by
  have harmed : s₁.timers.Armed s₁.reconnectTimer := by
    refine h.invariant (I := fun s => s.timers.Armed s.reconnectTimer) Timers.armed_none ?_
    exact fun _ _ _ h _ hs => armed_step h hs
  -- the close
  have hlost : Recovering k s₂ := by
    simp only [step] at hs
    split at hs
    · rename_i hopened
      cases hs
      have heq : s₁.onclose code = s₁.scheduleReconnect := if_pos hcode
      rw [heq]
      refine ⟨?_, live_scheduleReconnect.trans hdead, armed_scheduleReconnect harmed, ?_⟩
      · rw [sockets_scheduleReconnect]
        exact hopened
      · exact fun _ => reconnectTimer_scheduleReconnect
    · cases hs
  have hend : Recovering k s₃ := by
    refine hlater.invariant (I := Recovering k) hlost ?_
    exact fun _ _ _ h _ hs => recovering_step h hs
  -- the timer that is pending
  obtain ⟨t, ht⟩ := Option.ne_none_iff_exists'.mp (hend.scheduled hws)
  have hpending : s₃.timers.Armed (some t) := ht ▸ hend.armed
  have hstep : s₃.step (.timer t) =
      some ({ s₃ with timers := s₃.timers.remove t } : Connection).reconnect := by
    rw [step, hpending.fire]
    rfl
  obtain ⟨j, hj, hlive⟩ := live_connectWebSocket
    (s := { { s₃ with timers := s₃.timers.remove t } with reconnectTimer := none })
  refine ⟨t, _, ht, hstep, j, ?_, hj, hlive⟩
  rintro rfl
  exact absurd ((recovering_step hend hstep).dead.symm.trans hlive) Bool.false_ne_true

/-- The socket of a login is lost with the code 1006. -/
theorem never_gives_up_lost : ∃ s₂ s₄ : Connection, ∃ t, s₂.reconnectTimer = some t ∧
    s₂.step (.timer t) = some s₄ ∧ ∃ j, j ≠ 0 ∧ s₄.ws = some j ∧ s₄.live j = true := by
  have hrun : ((replay step (loginRun.take 6) (start (none, none))).any fun s₁ => !s₁.live 0 &&
      (s₁.step (.closed 0 1006)).any fun s₂ => s₂.ws = some 0) = true := by
    decide +kernel
  obtain ⟨s₁, hs₁, hrest⟩ := (Option.any_eq_true _ _).mp hrun
  obtain ⟨hdead, hrest⟩ := Bool.and_eq_true_iff.mp hrest
  obtain ⟨s₂, hs₂, hws⟩ := (Option.any_eq_true _ _).mp hrest
  obtain ⟨t, s₄, h⟩ := never_gives_up (.of_replay .init hs₁) (Bool.not_eq_true' _ ▸ hdead) hs₂
    (by decide) .init (of_decide_eq_true hws)
  exact ⟨s₂, s₄, t, h⟩

end Connection

end NexusChat
