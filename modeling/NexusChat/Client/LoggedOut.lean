import NexusChat.Client.Connection

/-!
# Logged out

`logout` clears the tokens and closes the socket, without a code: the socket then reports 1005, and
`onclose` schedules a reconnect for every code but 1000, logged in or not. A timer that is pending
already goes on too, and so does a `login` or an `init` that waits for its profile. Each of them
ends in `connectWebSocket`, which does not ask whether there is a token.

So nothing is opened without a token as long as the tokens are cleared only when nothing of that
kind is under way, and no socket reports another code than 1000 while there are none (`Orderly`).
-/

set_option autoImplicit false

namespace NexusChat

namespace Connection

/-- The call has `login` or `init` go on to `connectWebSocket`. -/
def Call.connects : Call → Bool
  | .login => false
  | .fetch caller | .refresh caller | .retry caller => caller ≠ .other

/-- With this answer the call ends in `clearTokens`, by `logout` or in `init`. -/
def Call.clears (refreshToken : Option String) : Call → Answer → Bool
  | .fetch .init, .failed | .retry .init, .failed | .retry .init, .unauthorized => true
  | .fetch _, .unauthorized => refreshToken.all (· = "")
  | .refresh _, .unauthorized | .refresh _, .failed => true
  | _, _ => false

theorem Call.clears_unauthorized {refreshToken : Option String} {caller : Caller} :
    (Call.fetch caller).clears refreshToken .unauthorized = refreshToken.all (· = "") := by
  cases caller <;> rfl

/-- No reconnect is pending, and none of these calls will connect. -/
def Idle (s : Connection) (calls : List Call) : Prop :=
  s.timers.pending = ∅ ∧ ∀ c ∈ calls, c.connects = false

/-- The condition on a step: the tokens are cleared only when nothing is under way that connects,
and a socket reports a code other than 1000 only while there is a token. -/
def Orderly (s : Connection) : Label → Prop
  | .logout => s.Idle s.calls
  | .answer i a => ∀ c, s.calls[i]? = some c → c.clears s.refreshToken a = true →
      s.Idle (s.calls.eraseIdx i)
  | .closed _ code => code ≠ 1000 → s.accessToken ≠ none
  | _ => True

/-- Without a token nothing is under way that connects, the token is the stored one, and every
socket has been opened with a token. -/
structure Tokened (s : Connection) : Prop where
  idle : s.accessToken = none → s.Idle s.calls
  stored : ∀ token, s.accessToken = some token → s.stored.1 = some token
  sockets : ∀ w ∈ s.sockets, w.token ≠ none

variable {s s' : Connection} {k : SocketId}

/-! ## The functions -/

theorem tokened_start {stored : Option String × Option String} : (start stored).Tokened where
  idle := fun _ => ⟨rfl, fun _ hc => absurd hc List.not_mem_nil⟩
  stored := fun _ ht => by cases ht
  sockets := fun _ hw => absurd hw List.not_mem_nil

/-- A function that opens no socket and leaves the tokens and the timers alone, and has no call
connect that did not. -/
theorem Tokened.congr (h : s.Tokened) (haccess : s'.accessToken = s.accessToken)
    (hstored : s'.stored = s.stored) (hsockets : s'.sockets = s.sockets)
    (htimers : s'.timers = s.timers)
    (hcalls : s.accessToken = none → ∀ c ∈ s'.calls, c.connects = false) : s'.Tokened where
  idle := by
    intro hnone
    rw [haccess] at hnone
    refine ⟨?_, hcalls hnone⟩
    rw [htimers]
    exact (h.idle hnone).1
  stored := by
    rw [haccess, hstored]
    exact h.stored
  sockets := by
    rw [hsockets]
    exact h.sockets

/-- With a token, calls and timers do not matter. -/
theorem Tokened.of_token {token : String} (h : s.Tokened) (haccess : s'.accessToken = some token)
    (hstored : s'.stored.1 = some token) (hsockets : s'.sockets = s.sockets) : s'.Tokened where
  idle := by
    intro hnone
    rw [haccess] at hnone
    cases hnone
  stored := by
    intro t ht
    rw [haccess] at ht
    rw [hstored, Option.some.inj ht]
  sockets := by
    rw [hsockets]
    exact h.sockets

/-- The tokens are gone, and nothing is under way that connects. -/
theorem Tokened.of_idle (h : s.Tokened) (haccess : s'.accessToken = none) (hidle : s'.Idle s'.calls)
    (hsockets : ∀ w ∈ s'.sockets, ∃ old ∈ s.sockets, w.token = old.token) : s'.Tokened where
  idle := fun _ => hidle
  stored := by
    intro t ht
    rw [haccess] at ht
    cases ht
  sockets := by
    intro w hw
    obtain ⟨old, hold, htoken⟩ := hsockets w hw
    rw [htoken]
    exact h.sockets old hold

theorem Tokened.connectWebSocket (h : s.Tokened) (ht : s.accessToken ≠ none) :
    s.connectWebSocket.Tokened := by
  unfold Connection.connectWebSocket
  split
  · exact h
  · refine ⟨fun hnone => absurd hnone ht, h.stored, ?_⟩
    intro w hw
    rcases List.mem_append.mp hw with hold | hnew
    · exact h.sockets w hold
    · rw [List.mem_singleton.mp hnew]
      exact ht

theorem Tokened.scheduleReconnect (h : s.Tokened) (ht : s.accessToken ≠ none) :
    s.scheduleReconnect.Tokened := by
  unfold Connection.scheduleReconnect
  split
  · exact h
  · exact ⟨fun hnone => absurd hnone ht, h.stored, h.sockets⟩

/-- A socket keeps the token it was opened with. -/
theorem token_moveSocket {r : ReadyState} :
    ∀ w ∈ (s.moveSocket k r).sockets, ∃ old ∈ s.sockets, w.token = old.token := by
  intro w hw
  obtain ⟨i, hi⟩ := List.mem_iff_getElem?.mp hw
  rw [moveSocket, List.getElem?_modify] at hi
  obtain ⟨old, hold, hmoved⟩ := Option.map_eq_some_iff.mp hi
  refine ⟨old, List.mem_of_getElem? hold, ?_⟩
  rw [← hmoved]
  split <;> rfl

theorem token_close : ∀ w ∈ (s.close k).sockets, ∃ old ∈ s.sockets, w.token = old.token := by
  unfold close
  split
  · exact token_moveSocket
  · intro w hw
    exact ⟨w, hw, rfl⟩

theorem accessToken_close : (s.close k).accessToken = s.accessToken := by
  unfold close
  split <;> rfl

theorem calls_close : (s.close k).calls = s.calls := by
  unfold close
  split <;> rfl

theorem accessToken_logout : s.logout.accessToken = none := by
  unfold logout
  dsimp only
  split
  · exact accessToken_close
  · rfl

theorem calls_logout : s.logout.calls = s.calls := by
  unfold logout
  dsimp only
  split
  · exact calls_close
  · rfl

theorem token_logout : ∀ w ∈ s.logout.sockets, ∃ old ∈ s.sockets, w.token = old.token := by
  unfold logout
  dsimp only
  split
  · exact token_close
  · intro w hw
    exact ⟨w, hw, rfl⟩

/-- **A logout** that finds nothing under way, and what its caller does about it. -/
theorem Tokened.logout (h : s.Tokened) (hidle : s.Idle s.calls) : s.logout.Tokened := by
  refine h.of_idle accessToken_logout ?_ token_logout
  unfold Idle
  rw [timers_logout, calls_logout]
  exact hidle

theorem Tokened.clearTokens (h : s.Tokened) (hidle : s.Idle s.calls) : s.clearTokens.Tokened :=
  h.of_idle rfl hidle fun w hw => ⟨w, hw, rfl⟩

theorem Tokened.logout_fail (h : s.Tokened) (hidle : s.Idle s.calls) (caller : Caller) :
    (s.logout.fail caller).Tokened := by
  cases caller with
  | init =>
    apply (h.logout hidle).clearTokens
    unfold Idle
    rw [timers_logout, calls_logout]
    exact hidle
  | login | other => exact h.logout hidle

theorem Tokened.fail (h : s.Tokened) {caller : Caller} (hidle : caller = .init → s.Idle s.calls) :
    (s.fail caller).Tokened := by
  cases caller with
  | init => exact h.clearTokens (hidle rfl)
  | login | other => exact h

theorem Tokened.request (h : s.Tokened) : (s.request .other).Tokened := by
  refine h.congr rfl rfl rfl rfl ?_
  intro hnone c hc
  rcases List.mem_append.mp hc with hold | hnew
  · exact (h.idle hnone).2 c hold
  · rw [List.mem_singleton.mp hnew]
    rfl

theorem Tokened.proceed (h : s.Tokened) {caller : Caller}
    (ht : caller ≠ .other → s.accessToken ≠ none) : (s.proceed caller).Tokened := by
  cases caller with
  | login => exact (h.connectWebSocket (ht (by decide))).request
  | init => exact (h.connectWebSocket (ht (by decide))).request
  | other => exact h

/-- **A call goes on**: if it connects there is a token, and if it clears the tokens nothing else
is under way. -/
theorem Tokened.resume (h : s.Tokened) {c : Call} {a : Answer}
    (hconnects : c.connects = true → s.accessToken ≠ none)
    (hclears : c.clears s.refreshToken a = true → s.Idle s.calls)
    (hr : s.resume c a = some s') : s'.Tokened := by
  -- a call that goes on without connecting has not connected before
  have hgo : ∀ next : Call, next.connects = c.connects → s.accessToken = none →
      ∀ c' ∈ s.calls ++ [next], c'.connects = false := by
    intro next hnext hnone c' hc'
    rcases List.mem_append.mp hc' with hold | hnew
    · exact (h.idle hnone).2 c' hold
    · rw [List.mem_singleton.mp hnew, hnext]
      by_contra hyes
      exact hconnects (Bool.not_eq_false _ ▸ hyes) hnone
  unfold Connection.resume at hr
  split at hr
  · cases hr
    exact h.of_token rfl rfl rfl
  · cases hr
    exact h
  · cases hr
    exact h
  · cases hr
    exact h.proceed fun hcaller => hconnects (decide_eq_true hcaller)
  · split at hr
    · rename_i hfalsy
      cases hr
      exact h.logout_fail (hclears (Call.clears_unauthorized.trans hfalsy)) _
    · cases hr
      exact h.congr rfl rfl rfl rfl (hgo _ rfl)
  · cases hr
    refine h.fail ?_
    rintro rfl
    exact hclears rfl
  · cases hr
    exact h.of_token rfl rfl rfl
  · cases hr
    exact h.logout_fail (hclears rfl) _
  · cases hr
    exact h.logout_fail (hclears rfl) _
  · cases hr
    exact h.proceed fun hcaller => hconnects (decide_eq_true hcaller)
  · cases hr
    refine h.fail ?_
    rintro rfl
    exact hclears rfl
  · cases hr
    refine h.fail ?_
    rintro rfl
    exact hclears rfl
  · cases hr

/-! ## Every run -/

theorem Tokened.init (h : s.Tokened) : s.init.Tokened := by
  -- what is loaded is the token there is, or one an earlier visit has left
  have hloaded : s.loadTokens.Tokened := by
    cases hstored : s.stored.1 with
    | none =>
      have hnone : s.accessToken = none := by
        rw [Option.eq_none_iff_forall_ne_some]
        intro token htoken
        rw [h.stored token htoken] at hstored
        cases hstored
      exact h.of_idle hstored (h.idle hnone) fun w hw => ⟨w, hw, rfl⟩
    | some token => exact h.of_token hstored hstored rfl
  unfold Connection.init
  dsimp only
  split
  · rename_i hany
    obtain ⟨token, htoken, -⟩ := (Option.any_eq_true _ _).mp hany
    exact hloaded.of_token htoken (hloaded.stored token htoken) rfl
  · exact hloaded

theorem Tokened.wsSend (h : s.Tokened) {event : String} {roomId : Option RoomId} :
    (s.wsSend event roomId).Tokened := by
  unfold Connection.wsSend
  split
  · exact h
  · split
    · exact ⟨h.idle, h.stored, h.sockets⟩
    · exact h

theorem tokened_step (h : s.Tokened) {l : Label} (ho : s.Orderly l) (hs : s.step l = some s') :
    s'.Tokened := by
  cases l with
  | login =>
    cases hs
    refine h.congr rfl rfl rfl rfl ?_
    intro hnone c hc
    rcases List.mem_append.mp hc with hold | hnew
    · exact (h.idle hnone).2 c hold
    · rw [List.mem_singleton.mp hnew]
      rfl
  | logout =>
    cases hs
    exact h.logout ho
  | init =>
    cases hs
    exact h.init
  | request =>
    cases hs
    exact h.request
  | room roomId =>
    cases hs
    exact ⟨h.idle, h.stored, h.sockets⟩
  | answer i a =>
    simp only [step] at hs
    split at hs
    · cases hs
    · rename_i c hc
      have hrest : ({ s with calls := s.calls.eraseIdx i } : Connection).Tokened :=
        h.congr rfl rfl rfl rfl fun hnone c' hc' =>
          (h.idle hnone).2 c' (List.mem_of_mem_eraseIdx hc')
      refine hrest.resume ?_ (ho c hc) hs
      intro hconnects hnone
      have hno := (h.idle hnone).2 c (List.mem_of_getElem? hc)
      rw [hconnects] at hno
      cases hno
  | ready k r =>
    simp only [step] at hs
    split at hs
    · cases hs
      refine ⟨h.idle, h.stored, ?_⟩
      intro w hw
      obtain ⟨old, hold, htoken⟩ := token_moveSocket w hw
      rw [htoken]
      exact h.sockets old hold
    · cases hs
  | opened k =>
    simp only [step] at hs
    split at hs
    · cases hs
      have hreset : ({ s with reconnectAttempts := 0 } : Connection).Tokened :=
        ⟨h.idle, h.stored, h.sockets⟩
      unfold onopen
      dsimp only
      split
      · exact hreset.wsSend
      · exact hreset
    · cases hs
  | closed k code =>
    simp only [step] at hs
    split at hs
    · cases hs
      unfold onclose
      split
      · rename_i hcode
        exact h.scheduleReconnect (ho hcode)
      · exact h
    · cases hs
  | errored k =>
    simp only [step] at hs
    split at hs
    · cases hs
      exact h
    · cases hs
  | timer t =>
    obtain ⟨timers, hfire, rfl⟩ := Option.map_eq_some_iff.mp hs
    -- a timer is pending, so there is a token
    have ht : s.accessToken ≠ none := by
      intro hnone
      have hmem := (Timers.fire_eq_some hfire).1
      rw [(h.idle hnone).1] at hmem
      exact Finset.notMem_empty t hmem
    unfold reconnect
    refine Tokened.connectWebSocket ?_ ht
    exact ⟨fun hnone => absurd hnone ht, h.stored, h.sockets⟩

/-- **Logged out means disconnected**, in every run all of whose steps are orderly: every socket
was opened with a token. -/
theorem opened_with_token {stored : Option String × Option String}
    (h : Reach step Orderly (start stored) s) : ∀ w ∈ s.sockets, w.token ≠ none :=
  (h.invariant tokened_start fun _ _ _ hi ho hs => tokened_step hi ho hs).sockets

/-- What is left to happen otherwise: a reconnect that is pending without a token opens a socket
without one. -/
theorem reconnect_without_token {t : TimerId} (ht : t ∈ s.timers.pending)
    (hnone : s.accessToken = none) (hws : s.ws = none) :
    ∃ s', s.step (.timer t) = some s' ∧
      s'.sockets = s.sockets ++ [{ readyState := .connecting, token := none }] := by
  simp only [step, Timers.fire, if_pos ht, Option.map_some]
  refine ⟨_, rfl, ?_⟩
  simp [reconnect, Connection.connectWebSocket, hnone, hws]

/-! ## Two logouts -/

/-- `Idle`, as a test. -/
def idleTest (s : Connection) (calls : List Call) : Bool :=
  s.timers.pending = ∅ && calls.all fun c => !c.connects

theorem idle_of_test {calls : List Call} (h : s.idleTest calls = true) : s.Idle calls := by
  simpa [idleTest, Idle] using h

/-- `Orderly`, as a test. -/
def orderlyTest (s : Connection) : Label → Bool
  | .logout => s.idleTest s.calls
  | .answer i a => (s.calls[i]?).all fun c =>
      !c.clears s.refreshToken a || s.idleTest (s.calls.eraseIdx i)
  | .closed _ code => code = 1000 || s.accessToken.isSome
  | _ => true

theorem orderly_of_test (s : Connection) (l : Label) (h : s.orderlyTest l = true) :
    s.Orderly l := by
  cases l with
  | logout => exact idle_of_test h
  | answer i a =>
    intro c hc hclears
    simp only [orderlyTest, hc, Option.all_some, hclears, Bool.not_true, Bool.false_or] at h
    exact idle_of_test h
  | closed k code =>
    intro hcode
    simp only [orderlyTest, Bool.or_eq_true, decide_eq_true_eq] at h
    rw [← Option.isSome_iff_ne_none]
    exact h.resolve_left hcode
  | _ => trivial

/-- A login, a reconnect after a lost socket, and a logout once the server has closed the second
one; then the next login. -/
def quietLogout : List Label :=
  loginRun ++ [.ready 1 .closed, .closed 1 1000, .logout, .login,
    .answer 1 (.tokens "access" "refresh"), .answer 1 .ok]

/-- Three sockets, each with a token. -/
theorem opened_with_token_quiet : ∃ s : Connection,
    replay step quietLogout (start (none, none)) = some s ∧ s.sockets.length = 3 ∧
      ∀ w ∈ s.sockets, w.token ≠ none := by
  have hrun : ((replayIf step orderlyTest quietLogout (start (none, none))).any fun s =>
      s.sockets.length = 3) = true := by
    decide +kernel
  obtain ⟨s, hs, hlength⟩ := (Option.any_eq_true _ _).mp hrun
  exact ⟨s, replay_of_replayIf hs, of_decide_eq_true hlength,
    opened_with_token (.of_replayIf orderly_of_test .init hs)⟩

/-- A logout on an open socket: the socket reports 1005, and the timer fires. -/
def loggedOutRun : List Label :=
  [.login, .answer 0 (.tokens "access" "refresh"), .answer 0 .ok, .ready 0 .opened, .opened 0,
    .logout, .ready 0 .closed, .closed 0 1005, .timer 0]

/-- **The socket `logout` closes comes back without a token.** -/
theorem not_opened_with_token : ¬∀ (stored : Option String × Option String) (s : Connection),
    Reach step Always (start stored) s → ∀ w ∈ s.sockets, w.token ≠ none := by
  intro hall
  have hrun : ((replay step loggedOutRun (start (none, none))).any fun s =>
      s.sockets.any fun w => w.token.isNone) = true := by
    decide +kernel
  obtain ⟨s, hs, hany⟩ := (Option.any_eq_true _ _).mp hrun
  obtain ⟨w, hw, hnone⟩ := List.any_eq_true.mp hany
  exact hall (none, none) s (.of_replay .init hs) w hw (Option.isNone_iff_eq_none.mp hnone)

end Connection

end NexusChat
