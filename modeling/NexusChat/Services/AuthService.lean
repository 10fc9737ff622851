import NexusChat.Core.Security
import NexusChat.Db.Database

/-!
# Registration, login and refresh (`app/services/auth_service.py`)

Each is one request: it reads the table of the users, and issues a pair of tokens or raises. The
clock is read within the request.
-/

set_option autoImplicit false

namespace NexusChat

abbrev Users := Table User User.id

/-- `AuthenticationError(detail)` -/
def authenticationError (detail : String) : Exn := .httpException 401 detail

namespace Users

/-- `select(User).where(User.id == id)`, of which there is one at most. -/
def byId (users : Users) (id : Uuid) : Option User := users.find? fun u => u.id = id

theorem byId_eq_some {users : Users} {id : Uuid} {user : User} (h : users.byId id = some user) :
    user ∈ users ∧ user.id = id := by
  obtain ⟨hmem, hid⟩ := Table.find?_eq_some h
  exact ⟨hmem, of_decide_eq_true hid⟩

end Users

/-- `UserRegister` -/
structure UserRegister where
  username : String
  email : String
  password : String
  displayName : Option String

/-- `UserLogin` -/
structure UserLogin where
  username : String
  password : String

/-- `TokenResponse` -/
structure TokenResponse where
  accessToken : String
  refreshToken : String
  tokenType : String := "bearer"
  deriving DecidableEq

namespace AuthService

open Security

variable (lib : AuthLib)

/-- `register`; `id` is the new row's default and `salt` what `gensalt` gives. -/
def register (data : UserRegister) (id : Uuid) (salt : String) (users : Users) :
    Except Exn User × Users :=
  match scalarOneOrNone (users.rows.filter fun u =>
    u.username = data.username || u.email = data.email) with
  | .error e => (.error e, users)
  | .ok (some existing) =>
    if existing.username = data.username then
      (.error (.httpException 409 "Username already taken"), users)
    else (.error (.httpException 409 "Email already registered"), users)
  | .ok none =>
    let user : User :=
      { id
        username := data.username
        email := data.email
        hashedPassword := hashPassword lib salt data.password
        displayName := some ((data.displayName.filter (· ≠ "")).getD data.username)
        isActive := true }
    if (users.byId id).isSome then (.error .integrityError, users)
    else (.ok user, users.insert user)

/-- The tokens for a user. -/
def issue (now : Time) (user : User) : TokenResponse where
  accessToken := createAccessToken lib now (lib.uuidStr user.id) user.username
  refreshToken := createRefreshToken lib now (lib.uuidStr user.id)

/-- `login`, with the user that has logged in. -/
def login (data : UserLogin) (now : Time) (users : Users) : Except Exn (User × TokenResponse) :=
  match scalarOneOrNone (users.rows.filter fun u => u.username = data.username) with
  | .error e => .error e
  | .ok none => .error (authenticationError "Invalid username or password")
  | .ok (some user) =>
    if !verifyPassword lib data.password user.hashedPassword then
      .error (authenticationError "Invalid username or password")
    else if !user.isActive then .error (authenticationError "Account is deactivated")
    else .ok (user, issue lib now user)

/-- `UUID(payload.get("sub"))` -/
def subject (p : Payload) : Except Exn Uuid :=
  match p.get "sub" with
  | none => .error .typeError
  | some sub =>
    match lib.uuid sub with
    | none => .error .valueError
    | some id => .ok id

/-- `refresh_token`, with the user it is refreshed for. -/
def refreshToken (refresh_token : String) (now : Time) (users : Users) :
    Except Exn (User × TokenResponse) :=
  match decodeRefreshToken lib now refresh_token with
  | none => .error (authenticationError "Invalid or expired refresh token")
  | some payload =>
    match subject lib payload with
    | .error e => .error e
    | .ok id =>
      match users.byId id with
      | none => .error (authenticationError "User not found or deactivated")
      | some user =>
        if !user.isActive then .error (authenticationError "User not found or deactivated")
        else .ok (user, issue lib now user)

section Facts

variable {lib} {data : UserLogin} {now : Time} {users : Users} {user : User}
  {tokens : TokenResponse} {token : String}

/-- **Who logs in** is there, has the password, and is active. -/
theorem login_eq_ok (h : login lib data now users = .ok (user, tokens)) :
    user ∈ users ∧ verifyPassword lib data.password user.hashedPassword = true ∧
      user.isActive = true ∧ tokens = issue lib now user := by
  unfold login at h
  split at h
  · cases h
  · cases h
  · rename_i found hfind
    have hmem := (List.mem_filter.mp (scalarOneOrNone_eq_some hfind)).1
    split at h
    · cases h
    · rename_i hverify
      split at h
      · cases h
      · rename_i hactive
        cases h
        exact ⟨hmem, by simpa using hverify, by simpa using hactive, rfl⟩

/-- **Whose tokens are refreshed**: the refresh token names the user, who is active. -/
theorem refreshToken_eq_ok (h : refreshToken lib token now users = .ok (user, tokens)) :
    ∃ p, decodeRefreshToken lib now token = some p ∧ subject lib p = .ok user.id ∧
      user ∈ users ∧ user.isActive = true ∧ tokens = issue lib now user := by
  unfold refreshToken at h
  split at h
  · cases h
  · rename_i p hp
    split at h
    · cases h
    · rename_i id hid
      split at h
      · cases h
      · rename_i found hfound
        obtain ⟨hmem, rfl⟩ := Users.byId_eq_some hfound
        split at h
        · cases h
        · rename_i hactive
          cases h
          exact ⟨p, hp, hid, hmem, by simpa using hactive, rfl⟩

theorem subject_refreshPayload {id : Uuid} :
    subject lib (refreshPayload lib now (lib.uuidStr id)) = .ok id := by
  simp [subject, refreshPayload, Payload.get, lib.uuid_uuidStr]

end Facts

end AuthService

end NexusChat
