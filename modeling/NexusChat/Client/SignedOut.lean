import NexusChat.Client.LoggedOut

/-!
# Signed out for good

`logout` clears the tokens and cancels no request. A request that is out goes on afterwards: a
`login` that waits for its tokens, and a `refreshToken` that waits for new ones, save what they are
answered, logged out or not. Nothing else ever sets a token. So a logout lasts until the next login
exactly if no request of these two kinds is out (`logout_lasts_iff`).
-/

set_option autoImplicit false

namespace NexusChat

namespace Connection

/-- There is no token, neither in `state` nor in `localStorage`. -/
structure SignedOut (s : Connection) : Prop where
  access : s.accessToken = none
  refresh : s.refreshToken = none
  stored : s.stored = (none, none)

/-- The sockets from the `n`-th on were opened without a token. -/
def Unsigned (n : Nat) (s : Connection) : Prop :=
  ∀ k w, n ≤ k → s.sockets[k]? = some w → w.token = none

/-- The call saves the tokens it is answered. -/
def Call.signsIn : Call → Bool
  | .login | .refresh _ => true
  | .fetch _ | .retry _ => false

/-- Nobody is signed in, and nothing is under way that signs anybody in. -/
structure Out (n : Nat) (s : Connection) : Prop extends SignedOut s where
  calls : ∀ c ∈ s.calls, c.signsIn = false
  sockets : s.Unsigned n

variable {s s' : Connection} {k : SocketId} {n : Nat} {c : Call}

/-! ## The functions -/

/-- A function that leaves the tokens and the sockets alone. -/
theorem Out.congr (h : s.Out n) (haccess : s'.accessToken = s.accessToken)
    (hrefresh : s'.refreshToken = s.refreshToken) (hstored : s'.stored = s.stored)
    (hsockets : s'.sockets = s.sockets) (hcalls : ∀ c ∈ s'.calls, c.signsIn = false) :
    s'.Out n where
  access := haccess.trans h.access
  refresh := hrefresh.trans h.refresh
  stored := hstored.trans h.stored
  calls := hcalls
  sockets := fun k w hk hw => h.sockets k w hk (hsockets ▸ hw)

theorem Out.await (h : s.Out n) (hc : c.signsIn = false) :
    Out n { s with calls := s.calls ++ [c] } := by
  refine h.congr rfl rfl rfl rfl fun c' hc' => ?_
  rcases List.mem_append.mp hc' with hold | hnew
  · exact h.calls c' hold
  · rw [List.mem_singleton.mp hnew]
    exact hc

theorem Out.moveSocket (h : s.Out n) {r : ReadyState} : (s.moveSocket k r).Out n := by
  refine ⟨⟨h.access, h.refresh, h.stored⟩, h.calls, fun j w hj hw => ?_⟩
  rw [Connection.moveSocket, List.getElem?_modify] at hw
  obtain ⟨old, hold, rfl⟩ := Option.map_eq_some_iff.mp hw
  have htoken := h.sockets j old hj hold
  split <;> exact htoken

theorem Out.close (h : s.Out n) : (s.close k).Out n := by
  unfold Connection.close
  split
  · exact h.moveSocket
  · exact h

/-- A socket is opened with the token there is. -/
theorem Out.connectWebSocket (h : s.Out n) : s.connectWebSocket.Out n := by
  unfold Connection.connectWebSocket
  split
  · exact h
  · refine ⟨⟨h.access, h.refresh, h.stored⟩, h.calls, fun j w hj hw => ?_⟩
    by_cases hlt : j < s.sockets.length
    · rw [List.getElem?_append_left hlt] at hw
      exact h.sockets j w hj hw
    · rw [List.getElem?_append_right (Nat.not_lt.mp hlt)] at hw
      rw [List.mem_singleton.mp (List.mem_of_getElem? hw)]
      exact h.access

theorem Out.clearTokens (h : s.Out n) : s.clearTokens.Out n :=
  ⟨⟨rfl, rfl, rfl⟩, h.calls, h.sockets⟩

theorem Out.logout (h : s.Out n) : s.logout.Out n := by
  have hcleared : Out n { s.clearTokens with currentRoom := none } :=
    ⟨⟨rfl, rfl, rfl⟩, h.calls, h.sockets⟩
  unfold Connection.logout
  dsimp only
  split
  · exact hcleared.close.congr rfl rfl rfl rfl hcleared.close.calls
  · exact hcleared

theorem Out.fail (h : s.Out n) {caller : Caller} : (s.fail caller).Out n := by
  cases caller with
  | init => exact h.clearTokens
  | login | other => exact h

theorem Out.proceed (h : s.Out n) {caller : Caller} : (s.proceed caller).Out n := by
  cases caller with
  | login | init => exact h.connectWebSocket.await rfl
  | other => exact h

/-- **A call goes on**, and is none of those that save tokens. -/
theorem Out.resume (h : s.Out n) (hc : c.signsIn = false) {a : Answer}
    (hr : s.resume c a = some s') : s'.Out n := by
  cases c with
  | login | refresh caller => cases hc
  | fetch caller =>
    cases a with
    | ok =>
      cases hr
      exact h.proceed
    | tokens access refresh => cases hr
    | unauthorized =>
      -- there is nothing to refresh
      simp only [Connection.resume, h.refresh, Option.all_none, if_true] at hr
      cases hr
      exact h.logout.fail
    | failed =>
      cases hr
      exact h.fail
  | retry caller =>
    cases a with
    | ok =>
      cases hr
      exact h.proceed
    | tokens access refresh => cases hr
    | unauthorized | failed =>
      cases hr
      exact h.fail

/-- There is nothing in `localStorage` to go on with. -/
theorem Out.init (h : s.Out n) : s.init.Out n := by
  have haccess : s.loadTokens.accessToken = none := congrArg Prod.fst h.stored
  have hloaded : s.loadTokens.Out n :=
    ⟨⟨haccess, congrArg Prod.snd h.stored, h.stored⟩, h.calls, h.sockets⟩
  unfold Connection.init
  simp only [haccess, Option.any_none, Bool.false_eq_true, if_false]
  exact hloaded

theorem Out.wsSend (h : s.Out n) {event : String} {roomId : Option RoomId} :
    (s.wsSend event roomId).Out n := by
  unfold Connection.wsSend
  split
  · exact h
  · split
    · exact h.congr rfl rfl rfl rfl h.calls
    · exact h

/-! ## Runs -/

theorem out_step (h : s.Out n) {l : Label} (hl : l ≠ .login) (hs : s.step l = some s') :
    s'.Out n := by
  cases l with
  | login => exact absurd rfl hl
  | logout =>
    cases hs
    exact h.logout
  | init =>
    cases hs
    exact h.init
  | request =>
    cases hs
    exact h.await rfl
  | room roomId =>
    cases hs
    exact h.congr rfl rfl rfl rfl h.calls
  | answer i a =>
    simp only [step] at hs
    split at hs
    · cases hs
    · rename_i c hc
      have hrest : Out n { s with calls := s.calls.eraseIdx i } :=
        h.congr rfl rfl rfl rfl fun c' hc' => h.calls c' (List.mem_of_mem_eraseIdx hc')
      exact hrest.resume (h.calls c (List.mem_of_getElem? hc)) hs
  | ready k r =>
    simp only [step] at hs
    split at hs
    · cases hs
      exact h.moveSocket
    · cases hs
  | opened k =>
    simp only [step] at hs
    split at hs
    · cases hs
      have hreset : Out n { s with reconnectAttempts := 0 } := h.congr rfl rfl rfl rfl h.calls
      unfold onopen
      dsimp only
      split
      · exact hreset.wsSend
      · exact hreset
    · cases hs
  | closed k code =>
    simp only [step] at hs
    split at hs
    · cases hs
      unfold onclose
      split
      · unfold scheduleReconnect
        split
        · exact h
        · exact h.congr rfl rfl rfl rfl h.calls
      · exact h
    · cases hs
  | errored k =>
    simp only [step] at hs
    split at hs
    · cases hs
      exact h
    · cases hs
  | timer t =>
    obtain ⟨timers, -, rfl⟩ := Option.map_eq_some_iff.mp hs
    have hfired : Out n { { s with timers } with reconnectTimer := none } :=
      h.congr rfl rfl rfl rfl h.calls
    exact hfired.connectWebSocket

theorem sockets_logout_length : s.logout.sockets.length = s.sockets.length := by
  unfold logout
  dsimp only
  split
  · unfold close
    split
    · exact List.length_modify ..
    · rfl
  · rfl

theorem signedOut_logout : s.logout.SignedOut := by
  unfold logout
  dsimp only
  split
  · unfold close
    split <;> exact ⟨rfl, rfl, rfl⟩
  · exact ⟨rfl, rfl, rfl⟩

/-- **How long a logout lasts**: until the next login there is no token, in `state` or in
`localStorage`, and no socket is opened with one, if and only if no request is out whose answer is
saved, a `login` or the `refreshToken` of a call that has found its token expired. -/
theorem logout_lasts_iff (s : Connection) :
    (∀ s', Reach step (fun _ l => l ≠ .login) s.logout s' →
      s'.SignedOut ∧ s'.Unsigned s.sockets.length) ↔ ∀ c ∈ s.calls, c.signsIn = false := by
  constructor
  · intro h c hc
    by_contra hsigns
    obtain ⟨i, hi⟩ := List.mem_iff_getElem?.mp hc
    have hcall : s.logout.calls[i]? = some c := by rw [calls_logout]; exact hi
    -- the call is answered with tokens
    obtain ⟨s', hs', htoken⟩ : ∃ s', s.logout.step (.answer i (.tokens "a" "r")) = some s' ∧
        s'.accessToken = some "a" := by
      simp only [step, hcall]
      cases c with
      | login => exact ⟨_, rfl, rfl⟩
      | refresh caller => exact ⟨_, rfl, rfl⟩
      | fetch caller | retry caller => exact absurd rfl hsigns
    have hnone := (h s' (.tail .init (by simp) hs')).1.access
    rw [htoken] at hnone
    cases hnone
  · intro hcalls s' hr
    have hout : s.logout.Out s.sockets.length := by
      refine ⟨signedOut_logout, ?_, fun k w hk hw => ?_⟩
      · rw [calls_logout]
        exact hcalls
      · have hlt := (List.getElem?_eq_some_iff.mp hw).1
        rw [sockets_logout_length] at hlt
        omega
    have hend : s'.Out s.sockets.length := by
      refine hr.invariant (I := fun s' => s'.Out s.sockets.length) hout ?_
      exact fun _ _ _ h hl hs => out_step h hl hs
    exact ⟨hend.toSignedOut, hend.sockets⟩

end Connection

end NexusChat
