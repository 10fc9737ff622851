import NexusChat.Services.AuthService
import NexusChat.Lib.Machine

/-!
# Who is let in (`app/api/deps.py`, the start of `app/api/websocket/chat.py`)

The HTTP routes and the WebSocket endpoint check a token in two functions of their own. Both let
in the users of the table who are active, with an access token that has not expired; and the
tokens there are go back, refresh by refresh, to a login with the user's password.
-/

set_option autoImplicit false

namespace NexusChat

namespace Authentication

open Security AuthService

/-! ## The two checks -/

section Checks

variable (lib : AuthLib)

/-- The token of an `Authorization` header. -/
def bearer : Option String → Except Exn String
  | none => .error (authenticationError "Missing or invalid Authorization header")
  | some authorization =>
    if "Bearer ".toList.isPrefixOf authorization.toList then
      .ok (String.ofList ((authorization.toList.dropWhile (· ≠ ' ')).drop 1))
    else .error (authenticationError "Missing or invalid Authorization header")

/-- `get_current_user`, for the token of the header. -/
def currentUser (token : String) (now : Time) (users : Users) : Except Exn User :=
  match decodeAccessToken lib now token with
  | none => .error (authenticationError "Invalid or expired access token")
  | some payload =>
    if ((payload.get "sub").filter (· ≠ "")).isNone then
      .error (authenticationError "Invalid token payload")
    else
      match subject lib payload with
      | .error e => .error e
      | .ok id =>
        match users.byId id with
        | none => .error (authenticationError "User not found or deactivated")
        | some user =>
          if !user.isActive then .error (authenticationError "User not found or deactivated")
          else .ok user

/-- `get_current_user` -/
def getCurrentUser (authorization : Option String) (now : Time) (users : Users) :
    Except Exn User :=
  match bearer authorization with
  | .error e => .error e
  | .ok token => currentUser lib token now users

/-- How a WebSocket is turned away: with a close, or because an exception is raised. -/
inductive Refusal where
  | closed (code : Nat) (reason : String)
  | raised (e : Exn)
  deriving DecidableEq

/-- The authentication of `websocket_chat`: the user id and the username the session goes by. -/
def websocketAuth (token : Option String) (now : Time) (users : Users) :
    Except Refusal (UserId × String) :=
  match token.filter (· ≠ "") with
  | none => .error (.closed 4001 "Missing authentication token")
  | some token =>
    match decodeAccessToken lib now token with
    | none => .error (.closed 4001 "Invalid or expired token")
    | some payload =>
      match payload.get "sub" with
      | none => .error (.raised .typeError)
      | some user_id =>
        match lib.uuid user_id with
        | none => .error (.raised .valueError)
        | some id =>
          match users.byId id with
          | none => .error (.closed 4001 "User not found")
          | some user =>
            if !user.isActive then .error (.closed 4001 "User not found")
            else .ok (user_id, (payload.get "username").getD "Unknown")

end Checks

section Checked

variable {lib : AuthLib} {token : String} {now : Time} {users : Users} {user : User}

theorem bearer_append : bearer (some ("Bearer " ++ token)) = .ok token := by
  have hlist : ("Bearer " ++ token).toList = "Bearer ".toList ++ token.toList :=
    String.toList_append ..
  have hchars : "Bearer ".toList = ['B', 'e', 'a', 'r', 'e', 'r', ' '] := rfl
  simp [bearer, hlist, hchars, List.isPrefixOf]

/-- The subject of a token is a UUID, and so not empty. -/
theorem subject_eq_ok {p : Payload} {id : Uuid} : subject lib p = .ok id ↔
    ∃ sub, p.get "sub" = some sub ∧ sub ≠ "" ∧ lib.uuid sub = some id := by
  unfold subject
  cases p.get "sub" with
  | none => simp
  | some sub =>
    by_cases hempty : sub = ""
    · subst hempty
      simp [lib.uuid_empty]
    · cases hid : lib.uuid sub <;> simp [hid, hempty]

/-- Somebody who is let in: the token names the user, who is there and active. -/
structure LetsIn (lib : AuthLib) (token : String) (now : Time) (users : Users) (id : Uuid) :
    Prop where
  exists_payload : ∃ p, decodeAccessToken lib now token = some p ∧ subject lib p = .ok id
  exists_user : ∃ user, users.byId id = some user ∧ user.isActive = true

/-- **Whom the HTTP routes let in.** -/
theorem currentUser_eq_ok : currentUser lib token now users = .ok user ↔
    LetsIn lib token now users user.id ∧ users.byId user.id = some user := by
  constructor
  · intro h
    unfold currentUser at h
    split at h
    · cases h
    · rename_i p hp
      split at h
      · cases h
      · split at h
        · cases h
        · rename_i id hid
          split at h
          · cases h
          · rename_i found hfound
            obtain rfl := (Users.byId_eq_some hfound).2
            split at h
            · cases h
            · rename_i hactive
              cases h
              exact ⟨⟨⟨p, hp, hid⟩, _, hfound, by simpa using hactive⟩, hfound⟩
  · rintro ⟨⟨⟨p, hp, hid⟩, found, hfound, hactive⟩, huser⟩
    rw [hfound] at huser
    obtain rfl := Option.some.inj huser
    obtain ⟨sub, hsub, hne, -⟩ := subject_eq_ok.mp hid
    simp [currentUser, hp, hsub, hne, hid, hfound, hactive]

/-- **Whom the WebSocket endpoint lets in.** -/
theorem websocketAuth_eq_ok {user_id username : String}
    (h : websocketAuth lib (some token) now users = .ok (user_id, username)) :
    ∃ id, lib.uuid user_id = some id ∧ LetsIn lib token now users id ∧
      ∃ p, decodeAccessToken lib now token = some p ∧ p.get "sub" = some user_id := by
  unfold websocketAuth at h
  split at h
  · cases h
  · rename_i token' htoken
    obtain ⟨heq, -⟩ := Option.filter_eq_some_iff.mp htoken
    obtain rfl := Option.some.inj heq
    split at h
    · cases h
    · rename_i p hp
      split at h
      · cases h
      · rename_i sub hsub
        split at h
        · cases h
        · rename_i id hid
          have hne : sub ≠ "" := by
            rintro rfl
            rw [lib.uuid_empty] at hid
            cases hid
          have hsubject := subject_eq_ok.mpr ⟨sub, hsub, hne, hid⟩
          split at h
          · cases h
          · rename_i found hfound
            split at h
            · cases h
            · rename_i hactive
              cases h
              exact ⟨id, hid, ⟨⟨p, hp, hsubject⟩, found, hfound, by simpa using hactive⟩, p, hp,
                hsub⟩

theorem exists_websocketAuth {id : Uuid} (h : LetsIn lib token now users id) :
    ∃ user_id username, websocketAuth lib (some token) now users = .ok (user_id, username) ∧
      lib.uuid user_id = some id := by
  obtain ⟨⟨p, hp, hid⟩, found, hfound, hactive⟩ := h
  obtain ⟨sub, hsub, hne, hsubid⟩ := subject_eq_ok.mp hid
  have htoken : token ≠ "" := by
    rintro rfl
    obtain ⟨htoken, -⟩ := decodeTyped_eq_some.mp hp
    exact lib.encode_ne_empty p htoken.symm
  have hfilter : (some token).filter (· ≠ "") = some token := by
    simp [Option.filter_some, htoken]
  refine ⟨sub, (p.get "username").getD "Unknown", ?_, hsubid⟩
  unfold websocketAuth
  rw [hfilter]
  simp [hp, hsub, hsubid, hfound, hactive]

/-- **The two checks let in the same users with the same tokens.** -/
theorem getCurrentUser_iff_websocketAuth {id : Uuid} :
    (∃ user, getCurrentUser lib (some ("Bearer " ++ token)) now users = .ok user ∧
      user.id = id) ↔
    ∃ user_id username, websocketAuth lib (some token) now users = .ok (user_id, username) ∧
      lib.uuid user_id = some id := by
  have hhttp : getCurrentUser lib (some ("Bearer " ++ token)) now users =
      currentUser lib token now users := by
    rw [getCurrentUser, bearer_append]
  rw [hhttp]
  constructor
  · rintro ⟨user, huser, rfl⟩
    exact exists_websocketAuth (currentUser_eq_ok.mp huser).1
  · rintro ⟨user_id, username, hws, hid⟩
    obtain ⟨id', hid', hlets, -⟩ := websocketAuth_eq_ok hws
    rw [hid] at hid'
    obtain rfl := Option.some.inj hid'
    obtain ⟨user, huser, hactive⟩ := hlets.exists_user
    have hid := (Users.byId_eq_some huser).2
    refine ⟨user, currentUser_eq_ok.mpr ?_, hid⟩
    rw [hid]
    exact ⟨hlets, huser⟩

end Checked

/-! ## Runs -/

/-- An issue of tokens, with the row of the user as it was. -/
inductive Event where
  | login (user : User) (password : String) (tokens : TokenResponse)
  | refresh (user : User) (presented : String) (now : Time) (tokens : TokenResponse)

namespace Event

def user : Event → User
  | .login user _ _ => user
  | .refresh user _ _ _ => user

def tokens : Event → TokenResponse
  | .login _ _ tokens => tokens
  | .refresh _ _ _ tokens => tokens

end Event

/-- The table of the users, the time, and what has been issued, newest first. -/
structure State where
  users : Users
  now : Time
  history : List Event

inductive Label where
  | register (data : UserRegister) (id : Uuid) (salt : String)
  | login (data : UserLogin)
  | refresh (refresh_token : String)
  /-- an account is deactivated, or activated again -/
  | setActive (id : Uuid) (active : Bool)
  | wait (time : Time)

namespace State

def init : State := { users := ∅, now := 0, history := [] }

def setActive (users : Users) (id : Uuid) (active : Bool) : Users :=
  match users.byId id with
  | some user => (users.delete fun u => u.id = id).insert { user with isActive := active }
  | none => users

/-- One request, or a step of the clock. A request that raises changes nothing. -/
def step (lib : AuthLib) (s : State) : Label → Option State
  | .register data id salt => some { s with users := (register lib data id salt s.users).2 }
  | .login data =>
    match login lib data s.now s.users with
    | .ok (user, tokens) => some { s with history := .login user data.password tokens :: s.history }
    | .error _ => some s
  | .refresh token =>
    match refreshToken lib token s.now s.users with
    | .ok (user, tokens) => some { s with history := .refresh user token s.now tokens :: s.history }
    | .error _ => some s
  | .setActive id active => some { s with users := setActive s.users id active }
  | .wait time => some { s with now := s.now + time }

/-- The token is one the service has issued. -/
def Issued (s : State) (token : String) : Prop :=
  ∃ e ∈ s.history, token = e.tokens.accessToken ∨ token = e.tokens.refreshToken

/-- Nobody forges: a signed token is one the service has issued. -/
def Presentable (lib : AuthLib) (s : State) (token : String) : Prop :=
  (∃ p, token = lib.encode p) → s.Issued token

end State

/-- Whoever asks for a refresh presents a token they can have. -/
def Unforged (lib : AuthLib) (s : State) : Label → Prop
  | .refresh token => s.Presentable lib token
  | _ => True

/-- The tokens go back to a login of the user `id` with the password of the row as it was, by
refreshes with a refresh token that had not expired, the user being active each time. -/
inductive Chain (lib : AuthLib) : List Event → Uuid → TokenResponse → Prop where
  | login {earlier : List Event} {user : User} {password : String} {tokens : TokenResponse}
      (hverify : verifyPassword lib password user.hashedPassword = true)
      (hactive : user.isActive = true) :
      Chain lib (.login user password tokens :: earlier) user.id tokens
  | refresh {earlier : List Event} {user : User} {now : Time} {old tokens : TokenResponse}
      (hold : Chain lib earlier user.id old)
      (hvalid : (decodeRefreshToken lib now old.refreshToken).isSome = true)
      (hactive : user.isActive = true) :
      Chain lib (.refresh user old.refreshToken now tokens :: earlier) user.id tokens
  | later {e : Event} {earlier : List Event} {id : Uuid} {tokens : TokenResponse}
      (h : Chain lib earlier id tokens) : Chain lib (e :: earlier) id tokens

/-- The caller is let in as `user` by right: the user is there and active, and the token is an
access token issued at the end of a chain, which has not expired. -/
structure Rightful (lib : AuthLib) (s : State) (token : String) (user : User) : Prop where
  present : user ∈ s.users
  active : user.isActive = true
  issued : ∃ tokens, Chain lib s.history user.id tokens ∧ token = tokens.accessToken
  unexpired : (decodeAccessToken lib s.now token).isSome = true

/-- What the checks promise of a token that is presented in a state. -/
structure Sound (lib : AuthLib) (s : State) (token : String) : Prop where
  http : ∀ authorization user, bearer authorization = .ok token →
    getCurrentUser lib authorization s.now s.users = .ok user → Rightful lib s token user
  websocket : ∀ user_id username,
    websocketAuth lib (some token) s.now s.users = .ok (user_id, username) →
    ∃ user, user_id = lib.uuidStr user.id ∧ Rightful lib s token user
  kinds : ∀ e ∈ s.history, ∀ now users,
    (∀ user, getCurrentUser lib (some ("Bearer " ++ e.tokens.refreshToken)) now users ≠
      .ok user) ∧
    (∀ who, websocketAuth lib (some e.tokens.refreshToken) now users ≠ .ok who) ∧
    ∀ granted, refreshToken lib e.tokens.accessToken now users ≠ .ok granted
  same : ∀ token now users id,
    (∃ user, getCurrentUser lib (some ("Bearer " ++ token)) now users = .ok user ∧
      user.id = id) ↔
    ∃ user_id username, websocketAuth lib (some token) now users = .ok (user_id, username) ∧
      lib.uuid user_id = some id

section Runs

variable {lib : AuthLib} {s s' : State} {token : String} {tokens : TokenResponse} {id : Uuid}
  {p : Payload} {now : Time}

/-- What holds of every run: the tokens of each issue are its user's, at the end of a chain. -/
structure Inv (lib : AuthLib) (s : State) : Prop where
  minted : ∀ e ∈ s.history, ∃ now, e.tokens = issue lib now e.user
  chained : ∀ e ∈ s.history, Chain lib s.history e.user.id e.tokens

/-- An access token that is presented is that of an issue to its subject. -/
theorem Inv.access (h : Inv lib s) (htoken : s.Presentable lib token)
    (hp : decodeAccessToken lib now token = some p) :
    ∃ e ∈ s.history, token = e.tokens.accessToken ∧ p.get "sub" = some (lib.uuidStr e.user.id) := by
  obtain ⟨hencode, -, -⟩ := decodeTyped_eq_some.mp hp
  obtain ⟨e, he, hissued⟩ := htoken ⟨p, hencode⟩
  obtain ⟨at', hminted⟩ := h.minted e he
  rw [hminted] at hissued
  rcases hissued with rfl | rfl
  · refine ⟨e, he, by rw [hminted], ?_⟩
    rw [← encode_inj hencode]
    rfl
  · rw [issue, decodeAccessToken_createRefreshToken] at hp
    cases hp

/-- A refresh token that is presented is that of an issue to its subject. -/
theorem Inv.refresh (h : Inv lib s) (htoken : s.Presentable lib token)
    (hp : decodeRefreshToken lib now token = some p) :
    ∃ e ∈ s.history, token = e.tokens.refreshToken ∧ subject lib p = .ok e.user.id := by
  obtain ⟨hencode, -, -⟩ := decodeTyped_eq_some.mp hp
  obtain ⟨e, he, hissued⟩ := htoken ⟨p, hencode⟩
  obtain ⟨at', hminted⟩ := h.minted e he
  rw [hminted] at hissued
  rcases hissued with rfl | rfl
  · rw [issue, decodeRefreshToken_createAccessToken] at hp
    cases hp
  · refine ⟨e, he, by rw [hminted], ?_⟩
    rw [← encode_inj hencode]
    exact subject_refreshPayload

/-- One more issue. -/
theorem Inv.cons (h : Inv lib s) {e : Event} (hminted : e.tokens = issue lib now e.user)
    (hchain : Chain lib (e :: s.history) e.user.id e.tokens) :
    Inv lib { s with history := e :: s.history } where
  minted := by
    intro e' he'
    rcases List.mem_cons.mp he' with rfl | he'
    · exact ⟨now, hminted⟩
    · exact h.minted e' he'
  chained := by
    intro e' he'
    rcases List.mem_cons.mp he' with rfl | he'
    · exact hchain
    · exact .later (h.chained e' he')

theorem inv_step {l : Label} (h : Inv lib s) (hl : Unforged lib s l)
    (hs : s.step lib l = some s') : Inv lib s' := by
  cases l with
  | register data id salt =>
    cases hs
    exact ⟨h.minted, h.chained⟩
  | setActive id active =>
    cases hs
    exact ⟨h.minted, h.chained⟩
  | wait time =>
    cases hs
    exact ⟨h.minted, h.chained⟩
  | login data =>
    simp only [State.step] at hs
    split at hs
    · rename_i user tokens hlogin
      cases hs
      obtain ⟨-, hverify, hactive, rfl⟩ := login_eq_ok hlogin
      exact h.cons rfl (.login hverify hactive)
    · cases hs
      exact h
  | refresh token =>
    simp only [State.step] at hs
    split at hs
    · rename_i user tokens hrefresh
      cases hs
      obtain ⟨p, hp, hid, -, hactive, rfl⟩ := refreshToken_eq_ok hrefresh
      -- the presented token is that of an earlier issue to the same user
      obtain ⟨e, he, rfl, hsubject⟩ := h.refresh hl hp
      rw [hid] at hsubject
      have huser : user.id = e.user.id := Except.ok.inj hsubject
      have hold : Chain lib s.history user.id e.tokens := huser ▸ h.chained e he
      exact h.cons rfl (.refresh hold (by rw [hp]; rfl) hactive)
    · cases hs
      exact h

/-- Whoever is let in is let in by right. -/
theorem Inv.rightful (h : Inv lib s) (htoken : s.Presentable lib token)
    (hin : LetsIn lib token s.now s.users id) :
    ∃ user, s.users.byId id = some user ∧ Rightful lib s token user := by
  obtain ⟨⟨p, hp, hid⟩, user, huser, hactive⟩ := hin
  obtain ⟨hmem, rfl⟩ := Users.byId_eq_some huser
  obtain ⟨e, he, haccess, hsub⟩ := h.access htoken hp
  obtain ⟨sub, hsub', -, huuid⟩ := subject_eq_ok.mp hid
  rw [hsub] at hsub'
  obtain rfl := Option.some.inj hsub'
  rw [lib.uuid_uuidStr] at huuid
  have hsame : e.user.id = user.id := Option.some.inj huuid
  exact ⟨user, huser, hmem, hactive, ⟨e.tokens, hsame ▸ h.chained e he, haccess⟩, by rw [hp]; rfl⟩

/-- **Authentication is sound** in every run: whatever token is presented, the HTTP routes and the
WebSocket endpoint let in nobody but by right, no token is taken for one of the other kind, and
the two checks agree. -/
theorem authentication_sound
    (hr : Reach (State.step lib) (Unforged lib) .init s) (htoken : s.Presentable lib token) :
    Sound lib s token := by
  have hinit : Inv lib .init := ⟨fun _ he => absurd he List.not_mem_nil,
    fun _ he => absurd he List.not_mem_nil⟩
  have hinv : Inv lib s := hr.invariant hinit fun _ _ _ h hl hs => inv_step h hl hs
  refine ⟨fun authorization user hbearer huser => ?_, fun user_id username hws => ?_,
    fun e he now users => ?_, fun _ _ _ _ => getCurrentUser_iff_websocketAuth⟩
  · rw [getCurrentUser, hbearer] at huser
    obtain ⟨hin, hby⟩ := currentUser_eq_ok.mp huser
    obtain ⟨user', huser', hright⟩ := hinv.rightful htoken hin
    rw [hby] at huser'
    cases huser'
    exact hright
  · obtain ⟨id, hid, hin, p, hp, hsub⟩ := websocketAuth_eq_ok hws
    obtain ⟨user, huser, hright⟩ := hinv.rightful htoken hin
    obtain ⟨-, rfl⟩ := Users.byId_eq_some huser
    obtain ⟨e, -, -, hsub'⟩ := hinv.access htoken hp
    rw [hsub] at hsub'
    obtain rfl := Option.some.inj hsub'
    rw [lib.uuid_uuidStr] at hid
    exact ⟨user, congrArg lib.uuidStr (Option.some.inj hid), hright⟩
  · obtain ⟨at', hminted⟩ := hinv.minted e he
    have hrefresh : ∀ id, ¬LetsIn lib e.tokens.refreshToken now users id := by
      rintro id ⟨⟨p, hp, -⟩, -⟩
      rw [hminted, issue, decodeAccessToken_createRefreshToken] at hp
      cases hp
    refine ⟨fun user huser => ?_, fun who hwho => ?_, fun granted hgranted => ?_⟩
    · rw [getCurrentUser, bearer_append] at huser
      exact hrefresh _ (currentUser_eq_ok.mp huser).1
    · obtain ⟨id, -, hin, -⟩ := websocketAuth_eq_ok hwho
      exact hrefresh id hin
    · obtain ⟨p, hp, -⟩ := refreshToken_eq_ok hgranted
      rw [hminted, issue, decodeRefreshToken_createAccessToken] at hp
      cases hp

end Runs

/-! ### A session that is kept alive by a refresh -/

namespace Sample

open Security.Sample (plain)

def alice : User where
  id := 0
  username := "alice"
  email := "alice@nexus"
  hashedPassword := "secret"
  displayName := some "alice"
  isActive := true

def first : TokenResponse := issue plain 0 alice

def second : TokenResponse := issue plain 3 alice

def registration : UserRegister where
  username := "alice"
  email := "alice@nexus"
  password := "secret"
  displayName := none

/-- Alice logs in, and refreshes when her access token has expired. -/
def labels : List Label :=
  [.register registration 0 "", .login { username := "alice", password := "secret" }, .wait 3,
    .refresh first.refreshToken]

/-- Whether the token is one that has been issued, unless it is not presented at all. -/
def presents (s : State) : Label → Bool
  | .refresh token => s.history.any fun e => token = e.tokens.refreshToken
  | _ => true

theorem unforged_of_presents (s : State) (l : Label) (h : presents s l = true) :
    Unforged plain s l := by
  cases l with
  | refresh token =>
    obtain ⟨e, he, htoken⟩ := List.any_eq_true.mp h
    intro _
    exact ⟨e, he, .inr (of_decide_eq_true htoken)⟩
  | _ => trivial

/-- Alice's new access token has been issued, and lets her in over HTTP. -/
def served (s : State) : Bool :=
  (s.history.any fun e => second.accessToken = e.tokens.accessToken) &&
    getCurrentUser plain (some ("Bearer " ++ second.accessToken)) s.now s.users = .ok alice

set_option maxRecDepth 20000 in
theorem exists_served :
    (replayIf (State.step plain) presents labels .init).any served = true := by
  decide +kernel

end Sample

open Sample in
/-- The new access token lets Alice in, by right. -/
theorem authentication_sound_refreshed :
    ∃ s, Reach (State.step Security.Sample.plain) (Unforged Security.Sample.plain) .init s ∧
      getCurrentUser Security.Sample.plain (some ("Bearer " ++ second.accessToken)) s.now
        s.users = .ok alice ∧
      Rightful Security.Sample.plain s second.accessToken alice ∧
      ∃ user_id username, websocketAuth Security.Sample.plain (some second.accessToken) s.now
        s.users = .ok (user_id, username) ∧ Security.Sample.plain.uuid user_id = some 0 := by
  obtain ⟨s, hs, hserved⟩ := (Option.any_eq_true _ _).mp exists_served
  obtain ⟨hissued, hin⟩ := (Bool.and_eq_true _ _).mp hserved
  obtain ⟨e, he, htoken⟩ := List.any_eq_true.mp hissued
  have hr := Reach.of_replayIf unforged_of_presents .init hs
  have hsound := authentication_sound hr
    (fun _ => ⟨e, he, .inl (of_decide_eq_true htoken)⟩ : s.Presentable _ second.accessToken)
  have huser := of_decide_eq_true hin
  exact ⟨s, hr, huser, hsound.http _ _ bearer_append huser,
    (hsound.same _ _ _ _).mp ⟨alice, huser, rfl⟩⟩

end Authentication

end NexusChat
