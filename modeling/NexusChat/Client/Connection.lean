import NexusChat.Lib.Timers
import NexusChat.Lib.Machine
import NexusChat.Client.App

/-!
# The client's connection (`client/app.js`)

`login`, `init` and the reconnect timer open the socket, `logout` drops it, and the handlers of
every socket that was ever opened go on firing. `login` and `init` wait for the profile first, and
every request the page makes may end in a refresh of the tokens or in `logout`; a `Call` says which
request is out. What becomes of a socket is up to the network: its `readyState` never decreases,
and its events come in any order, with any close code.

One guard in `connectWebSocket` and one in `scheduleReconnect` keep it to one live socket and one
timer, over every run (`one_live_socket`).
-/

set_option autoImplicit false

namespace NexusChat

/-- `WebSocket.readyState` -/
inductive ReadyState where
  | connecting
  | opened
  | closing
  | closed
  deriving DecidableEq, Repr

/-- The constants of the API. -/
def ReadyState.value : ReadyState → Nat
  | .connecting => 0
  | .opened => 1
  | .closing => 2
  | .closed => 3

/-- A `WebSocket` of the page, with the `token` of its URL. -/
structure ClientSocket where
  readyState : ReadyState
  token : Option String
  deriving DecidableEq, Repr

/-- A socket, by the order of creation. -/
abbrev SocketId := Nat

namespace Connection

/-- Who has called `api`, as far as it matters to the connection. -/
inductive Caller where
  /-- `login`, for the profile -/
  | login
  /-- `init`, for the profile -/
  | init
  /-- any other function of the page -/
  | other
  deriving DecidableEq, Repr

/-- Where a function waits for the server. -/
inductive Call where
  /-- `login`, for its tokens -/
  | login
  /-- `api`, for the answer -/
  | fetch (caller : Caller)
  /-- `api`, after a 401, for `refreshToken()` -/
  | refresh (caller : Caller)
  /-- `api`, for the answer with the new token -/
  | retry (caller : Caller)
  deriving DecidableEq, Repr

/-- What comes back. -/
inductive Answer where
  | ok
  | tokens (access_token refresh_token : String)
  | unauthorized
  | failed
  deriving DecidableEq, Repr

end Connection

/-- `state` as far as it concerns the connection, `localStorage`, the timers of the page, the
sockets it has opened, the frames handed to them, and the calls that wait. -/
structure Connection where
  accessToken : Option String
  refreshToken : Option String
  stored : Option String × Option String
  currentRoom : Option RoomId
  ws : Option SocketId
  reconnectAttempts : Nat
  reconnectTimer : Option TimerId
  timers : Timers
  sockets : List ClientSocket
  sent : List (SocketId × Client.Frame)
  calls : List Connection.Call

namespace Connection

/-- The page before `init`, with what an earlier visit has left in `localStorage`. -/
def start (stored : Option String × Option String) : Connection where
  accessToken := none
  refreshToken := none
  stored := stored
  currentRoom := none
  ws := none
  reconnectAttempts := 0
  reconnectTimer := none
  timers := .empty
  sockets := []
  sent := []
  calls := []

/-- The socket has this `readyState`. -/
def readyState (s : Connection) (k : SocketId) : Option ReadyState :=
  s.sockets[k]?.map ClientSocket.readyState

/-- `readyState <= 1` -/
def live (s : Connection) (k : SocketId) : Bool :=
  (s.readyState k).any fun r => r.value ≤ 1

/-- The socket's `readyState` becomes `r`. -/
def moveSocket (k : SocketId) (r : ReadyState) (s : Connection) : Connection :=
  { s with sockets := s.sockets.modify k fun w => { w with readyState := r } }

/-- `ws.close()`: a socket that is closing or closed stays as it is. -/
def close (k : SocketId) (s : Connection) : Connection :=
  if s.live k then s.moveSocket k .closing else s

/-- `wsSend(event, data)` -/
def wsSend (event : String) (roomId : Option RoomId) (s : Connection) : Connection :=
  match s.ws with
  | none => s
  | some k =>
    if s.readyState k = some .opened then { s with sent := s.sent ++ [(k, { event, roomId })] }
    else s

/-! ## Tokens -/

/-- The tokens of a response, and `saveTokens()`. -/
def saveTokens (access_token refresh_token : String) (s : Connection) : Connection :=
  { s with
    accessToken := some access_token
    refreshToken := some refresh_token
    stored := (some access_token, some refresh_token) }

/-- `loadTokens()` -/
def loadTokens (s : Connection) : Connection :=
  { s with accessToken := s.stored.1, refreshToken := s.stored.2 }

/-- `clearTokens()` -/
def clearTokens (s : Connection) : Connection :=
  { s with accessToken := none, refreshToken := none, stored := (none, none) }

/-! ## The socket -/

/-- `connectWebSocket()` -/
def connectWebSocket (s : Connection) : Connection :=
  if s.ws.any s.live then s
  else
    { s with
      sockets := s.sockets ++ [{ readyState := .connecting, token := s.accessToken }]
      ws := some s.sockets.length }

/-- `scheduleReconnect()` -/
def scheduleReconnect (s : Connection) : Connection :=
  if s.reconnectTimer.isSome then s
  else
    { s with
      reconnectAttempts := s.reconnectAttempts + 1
      reconnectTimer := some s.timers.next
      timers := s.timers.set }

/-- `ws.onopen` -/
def onopen (s : Connection) : Connection :=
  let s := { s with reconnectAttempts := 0 }
  match s.currentRoom with
  | some roomId => s.wsSend "join_room" (some roomId)
  | none => s

/-- `ws.onclose`, for a close with this code -/
def onclose (code : Nat) (s : Connection) : Connection :=
  if code ≠ 1000 then s.scheduleReconnect else s

/-- The callback of the reconnect timer. -/
def reconnect (s : Connection) : Connection := { s with reconnectTimer := none }.connectWebSocket

/-! ## Authentication -/

/-- A request of the caller through `api`, up to its `await`. -/
def request (caller : Caller) (s : Connection) : Connection :=
  { s with calls := s.calls ++ [.fetch caller] }

/-- `login(username, password)` up to its `await` -/
def login (s : Connection) : Connection := { s with calls := s.calls ++ [.login] }

/-- `logout()` -/
def logout (s : Connection) : Connection :=
  let s := { s.clearTokens with currentRoom := none }
  match s.ws with
  | some k => { s.close k with ws := none }
  | none => s

/-- `init()` up to its `await` -/
def init (s : Connection) : Connection :=
  let s := s.loadTokens
  if s.accessToken.any (· ≠ "") then s.request .init else s

/-- The caller with its answer; `login` and `init` go on to `loadRooms`. -/
def proceed (caller : Caller) (s : Connection) : Connection :=
  match caller with
  | .login | .init => s.connectWebSocket.request .other
  | .other => s

/-- The caller with an exception: the catch clause of `init` clears the tokens, the others show the
error. -/
def fail (caller : Caller) (s : Connection) : Connection :=
  match caller with
  | .init => s.clearTokens
  | .login | .other => s

/-- A call goes on; `none` for an answer of another kind. -/
def resume (c : Call) (a : Answer) (s : Connection) : Option Connection :=
  match c, a with
  | .login, .tokens access refresh => some ((s.saveTokens access refresh).request .login)
  | .login, .unauthorized | .login, .failed => some s
  | .fetch caller, .ok => some (s.proceed caller)
  | .fetch caller, .unauthorized =>
    -- `refreshToken` has nothing to send
    if s.refreshToken.all (· = "") then some (s.logout.fail caller)
    else some { s with calls := s.calls ++ [.refresh caller] }
  | .fetch caller, .failed => some (s.fail caller)
  | .refresh caller, .tokens access refresh =>
    let s := s.saveTokens access refresh
    some { s with calls := s.calls ++ [.retry caller] }
  | .refresh caller, .unauthorized | .refresh caller, .failed => some (s.logout.fail caller)
  | .retry caller, .ok => some (s.proceed caller)
  | .retry caller, .unauthorized | .retry caller, .failed => some (s.fail caller)
  | _, _ => none

/-! ## The connection as a machine -/

inductive Label where
  | login
  | logout
  | init
  /-- any other function of the page calls `api` -/
  | request
  /-- the user opens or leaves a room -/
  | room (roomId : Option RoomId)
  /-- the call at position `i` gets its answer -/
  | answer (i : Nat) (a : Answer)
  /-- the network moves a socket on -/
  | ready (k : SocketId) (r : ReadyState)
  | opened (k : SocketId)
  | closed (k : SocketId) (code : Nat)
  | errored (k : SocketId)
  | timer (t : TimerId)
  deriving DecidableEq, Repr

def step (s : Connection) : Label → Option Connection
  | .login => some s.login
  | .logout => some s.logout
  | .init => some s.init
  | .request => some (s.request .other)
  | .room roomId => some { s with currentRoom := roomId }
  | .answer i a =>
    match s.calls[i]? with
    | none => none
    | some c => { s with calls := s.calls.eraseIdx i }.resume c a
  | .ready k r =>
    if (s.readyState k).any fun old => old.value ≤ r.value then some (s.moveSocket k r) else none
  | .opened k => if k < s.sockets.length then some s.onopen else none
  | .closed k code => if k < s.sockets.length then some (s.onclose code) else none
  | .errored k => if k < s.sockets.length then some s else none
  | .timer t => (s.timers.fire t).map fun timers => { s with timers }.reconnect

/-! ## One live socket -/

/-- A live socket is `state.ws`, and a pending timer is `state.reconnectTimer`. -/
structure OneSocket (s : Connection) : Prop where
  current : ∀ k, s.live k = true → s.ws = some k
  timer : s.timers.OnlyIn s.reconnectTimer

variable {s s' : Connection} {k : SocketId}

/-- A function that opens no socket, drops none that is live, and leaves the timer alone. -/
theorem OneSocket.congr (h : s.OneSocket) (hlive : ∀ k, s'.live k = true → s.live k = true)
    (hws : s'.ws = s.ws) (htimers : s'.timers = s.timers)
    (htimer : s'.reconnectTimer = s.reconnectTimer) : s'.OneSocket where
  current := fun k hk => hws.trans (h.current k (hlive k hk))
  timer := by
    rw [htimers, htimer]
    exact h.timer

theorem readyState_moveSocket {j : SocketId} {r : ReadyState} : (s.moveSocket k r).readyState j =
    if j = k then (s.readyState j).map fun _ => r else s.readyState j := by
  unfold readyState moveSocket
  rw [List.getElem?_modify]
  cases s.sockets[j]? with
  | none => simp
  | some w =>
    by_cases hj : j = k
    · simp [hj]
    · simp [hj, Ne.symm hj]

/-- **`close()` leaves the socket dead** and the others as they are. -/
theorem live_close {j : SocketId} : (s.close k).live j = (decide (j ≠ k) && s.live j) := by
  unfold close
  split
  · unfold live
    rw [readyState_moveSocket]
    by_cases hj : j = k
    · subst hj
      cases s.readyState j <;> simp [ReadyState.value]
    · simp [hj]
  · rename_i hdead
    by_cases hj : j = k
    · subst hj
      simp [hdead]
    · simp [hj]

@[simp] theorem timers_close : (s.close k).timers = s.timers := by
  unfold close
  split <;> rfl

@[simp] theorem reconnectTimer_close : (s.close k).reconnectTimer = s.reconnectTimer := by
  unfold close
  split <;> rfl

@[simp] theorem timers_logout : s.logout.timers = s.timers := by
  unfold logout
  dsimp only
  split
  · exact timers_close
  · rfl

@[simp] theorem reconnectTimer_logout : s.logout.reconnectTimer = s.reconnectTimer := by
  unfold logout
  dsimp only
  split
  · exact reconnectTimer_close
  · rfl

/-- **`logout` leaves `state.ws` dead.** -/
theorem live_logout {j : SocketId} : s.logout.live j = (decide (s.ws ≠ some j) && s.live j) := by
  unfold logout
  dsimp only
  split
  · rename_i k hws
    have hws : s.ws = some k := hws
    rw [hws]
    show (Connection.close k _).live j = _
    rw [live_close]
    by_cases hj : j = k
    · simp [hj]
    · have hne : k ≠ j := Ne.symm hj
      simp [hj, hne]
      rfl
  · rename_i hws
    have hws : s.ws = none := hws
    simp [hws]
    rfl

theorem oneSocket_start {stored : Option String × Option String} : (start stored).OneSocket where
  current := by
    intro k hk
    simp [live, readyState, start] at hk
  timer := Timers.onlyIn_of_pending rfl

/-- **The guard**: a socket is opened only when none is live. -/
theorem OneSocket.connectWebSocket (h : s.OneSocket) : s.connectWebSocket.OneSocket := by
  unfold Connection.connectWebSocket
  split
  · exact h
  · rename_i hguard
    refine ⟨?_, h.timer⟩
    intro k hk
    by_cases hnew : k = s.sockets.length
    · rw [hnew]
    · -- an older socket that is live would be `state.ws`, and the guard would have seen it
      exfalso
      have hold : s.live k = true := by
        have hget : (s.sockets ++ [⟨.connecting, s.accessToken⟩])[k]? = s.sockets[k]? := by
          rcases Nat.lt_or_gt_of_ne hnew with hlt | hgt
          · exact List.getElem?_append_left hlt
          · rw [List.getElem?_eq_none (Nat.le_of_lt hgt), List.getElem?_eq_none]
            rw [List.length_append]
            exact hgt
        unfold live readyState at hk ⊢
        rwa [hget] at hk
      rw [h.current k hold] at hguard
      exact hguard hold

theorem OneSocket.scheduleReconnect (h : s.OneSocket) : s.scheduleReconnect.OneSocket := by
  unfold Connection.scheduleReconnect
  split
  · exact h
  · rename_i hnone
    have htimer := h.timer
    rw [Option.not_isSome_iff_eq_none.mp hnone] at htimer
    exact ⟨h.current, Timers.onlyIn_set htimer.pending_none⟩

theorem OneSocket.logout (h : s.OneSocket) : s.logout.OneSocket where
  current := by
    intro k hk
    -- the only live socket was the one that has been closed
    exfalso
    rw [live_logout, Bool.and_eq_true, decide_eq_true_eq] at hk
    exact hk.1 (h.current k hk.2)
  timer := by
    rw [timers_logout, reconnectTimer_logout]
    exact h.timer

theorem OneSocket.wsSend (h : s.OneSocket) {event : String} {roomId : Option RoomId} :
    (s.wsSend event roomId).OneSocket := by
  unfold Connection.wsSend
  split
  · exact h
  · split
    · exact h.congr (fun _ hk => hk) rfl rfl rfl
    · exact h

theorem OneSocket.proceed (h : s.OneSocket) (caller : Caller) : (s.proceed caller).OneSocket := by
  cases caller with
  | login | init => exact h.connectWebSocket.congr (fun _ hk => hk) rfl rfl rfl
  | other => exact h

theorem OneSocket.fail (h : s.OneSocket) (caller : Caller) : (s.fail caller).OneSocket := by
  cases caller with
  | init => exact h.congr (fun _ hk => hk) rfl rfl rfl
  | login | other => exact h

theorem OneSocket.resume (h : s.OneSocket) {c : Call} {a : Answer} (hr : s.resume c a = some s') :
    s'.OneSocket := by
  unfold Connection.resume at hr
  split at hr
  · cases hr
    exact h.congr (fun _ hk => hk) rfl rfl rfl
  · cases hr
    exact h
  · cases hr
    exact h
  · cases hr
    exact h.proceed _
  · split at hr
    · cases hr
      exact h.logout.fail _
    · cases hr
      exact h.congr (fun _ hk => hk) rfl rfl rfl
  · cases hr
    exact h.fail _
  · cases hr
    exact h.congr (fun _ hk => hk) rfl rfl rfl
  · cases hr
    exact h.logout.fail _
  · cases hr
    exact h.logout.fail _
  · cases hr
    exact h.proceed _
  · cases hr
    exact h.fail _
  · cases hr
    exact h.fail _
  · cases hr

theorem oneSocket_step (h : s.OneSocket) {l : Label} (hs : s.step l = some s') : s'.OneSocket := by
  cases l with
  | login | request | room =>
    cases hs
    exact h.congr (fun _ hk => hk) rfl rfl rfl
  | logout =>
    cases hs
    exact h.logout
  | init =>
    cases hs
    unfold Connection.init
    dsimp only
    split <;> exact h.congr (fun _ hk => hk) rfl rfl rfl
  | answer i a =>
    simp only [step] at hs
    split at hs
    · cases hs
    · have hrest : ({ s with calls := s.calls.eraseIdx i } : Connection).OneSocket :=
        h.congr (fun _ hk => hk) rfl rfl rfl
      exact hrest.resume hs
  | ready k r =>
    simp only [step] at hs
    split at hs
    · rename_i hle
      cases hs
      refine h.congr ?_ rfl rfl rfl
      intro j hj
      -- a `readyState` that does not decrease revives no socket
      unfold live at hj ⊢
      rw [readyState_moveSocket] at hj
      split at hj
      · rename_i heq
        subst heq
        obtain ⟨old, hold, hvalue⟩ := (Option.any_eq_true _ _).mp hle
        rw [hold] at hj ⊢
        simp only [Option.map_some, Option.any_some, decide_eq_true_eq] at hj hvalue ⊢
        exact hvalue.trans hj
      · exact hj
    · cases hs
  | opened k =>
    simp only [step] at hs
    split at hs
    · cases hs
      have hreset : ({ s with reconnectAttempts := 0 } : Connection).OneSocket :=
        h.congr (fun _ hk => hk) rfl rfl rfl
      unfold onopen
      dsimp only
      split
      · exact hreset.wsSend
      · exact hreset
    · cases hs
  | closed k code =>
    simp only [step] at hs
    split at hs
    · cases hs
      unfold onclose
      split
      · exact h.scheduleReconnect
      · exact h
    · cases hs
  | errored k =>
    simp only [step] at hs
    split at hs
    · cases hs
      exact h
    · cases hs
  | timer t =>
    obtain ⟨timers, hfire, rfl⟩ := Option.map_eq_some_iff.mp hs
    unfold reconnect
    apply OneSocket.connectWebSocket
    exact ⟨h.current, Timers.onlyIn_of_pending (h.timer.fire hfire)⟩

/-- **One live socket.** In every run of the page the live socket, if there is one, is `state.ws`,
so there is one at most; and at most one reconnect timer is pending. -/
theorem one_live_socket {stored : Option String × Option String}
    (h : Reach step Always (start stored) s) :
    (∀ j k, s.live j = true → s.live k = true → j = k) ∧
      (∀ k, s.live k = true → s.ws = some k) ∧ s.timers.pending.card ≤ 1 := by
  have hinv := h.invariant oneSocket_start fun _ _ _ hi _ hs => oneSocket_step hi hs
  refine ⟨?_, hinv.current, hinv.timer.card_le_one⟩
  intro j k hj hk
  exact Option.some.inj ((hinv.current j hj).symm.trans (hinv.current k hk))

/-- A login, and what the network makes of its socket `k` and of the reconnect. -/
def loginRun : List Label :=
  [.login, .answer 0 (.tokens "access" "refresh"), .answer 0 .ok, .ready 0 .opened, .opened 0,
    .ready 0 .closed, .closed 0 1006, .timer 0, .ready 1 .opened]

/-- A socket is lost and replaced after the timer: the second one is the live one. -/
theorem one_live_socket_reconnected : ∃ s : Connection,
    replay step loginRun (start (none, none)) = some s ∧ s.live 1 = true ∧ s.ws = some 1 := by
  have hrun : ((replay step loginRun (start (none, none))).any fun s => s.live 1) = true := by
    decide +kernel
  obtain ⟨s, hs, hlive⟩ := (Option.any_eq_true _ _).mp hrun
  exact ⟨s, hs, hlive, (one_live_socket (.of_replay .init hs)).2.1 1 hlive⟩

end Connection

end NexusChat
