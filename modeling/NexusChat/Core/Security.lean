import NexusChat.Env

/-!
# Tokens and passwords (`app/core/security.py`)

What the service takes from its libraries is `AuthLib`: `jwt.encode` and `jwt.decode` under the
service's key, bcrypt, and UUIDs in their canonical form. `decode` undoes `encode` as long as the
token has not expired, and accepts nothing else. Times are whole seconds here: `jwt.encode` cuts
`exp` to the second, and `jwt.decode` compares it with a clock in seconds.
-/

set_option autoImplicit false

namespace NexusChat

/-- The claims of a token, `exp` apart. -/
structure Payload where
  claims : List (String × String)
  exp : Time
  deriving DecidableEq

/-- `payload.get(key)` -/
def Payload.get (p : Payload) (key : String) : Option String :=
  (p.claims.find? fun e => e.1 = key).map Prod.snd

structure AuthLib where
  /-- `jwt.encode(payload, settings.JWT_SECRET_KEY, settings.JWT_ALGORITHM)` -/
  encode : Payload → String
  /-- `jwt.decode(token, ..)` at a time; `none` where it raises `JWTError` -/
  decode : Time → String → Option Payload
  decode_eq_some : ∀ {now : Time} {token : String} {p : Payload},
    decode now token = some p ↔ token = encode p ∧ now ≤ p.exp
  encode_ne_empty : ∀ p, encode p ≠ ""
  /-- `bcrypt.hashpw(password, salt)` -/
  hashpw : String → String → String
  /-- `bcrypt.checkpw(password, hashed)` -/
  checkpw : String → String → Bool
  /-- `UUID(s)`; `none` where it raises `ValueError` -/
  uuid : String → Option Uuid
  /-- `str(u)` -/
  uuidStr : Uuid → String
  uuid_uuidStr : ∀ u, uuid (uuidStr u) = some u
  uuid_empty : uuid "" = none
  /-- `settings.ACCESS_TOKEN_EXPIRE_MINUTES`, in seconds -/
  accessTokenExpire : Time
  /-- `settings.REFRESH_TOKEN_EXPIRE_DAYS`, in seconds -/
  refreshTokenExpire : Time

namespace Security

variable (lib : AuthLib)

/-- `password[:72]` where it is longer -/
def truncate (password : String) : String :=
  if 72 < password.length then String.ofList (password.toList.take 72) else password

/-- `hash_password`, with the salt `gensalt` has given. -/
def hashPassword (salt password : String) : String := lib.hashpw (truncate password) salt

/-- `verify_password` -/
def verifyPassword (plain_password hashed_password : String) : Bool :=
  lib.checkpw (truncate plain_password) hashed_password

def accessPayload (now : Time) (user_id username : String) : Payload where
  claims := [("sub", user_id), ("username", username), ("type", "access")]
  exp := now + lib.accessTokenExpire

def refreshPayload (now : Time) (user_id : String) : Payload where
  claims := [("sub", user_id), ("type", "refresh")]
  exp := now + lib.refreshTokenExpire

/-- `create_access_token` -/
def createAccessToken (now : Time) (user_id username : String) : String :=
  lib.encode (accessPayload lib now user_id username)

/-- `create_refresh_token` -/
def createRefreshToken (now : Time) (user_id : String) : String :=
  lib.encode (refreshPayload lib now user_id)

/-- `decode_token` -/
def decodeToken (now : Time) (token : String) : Option Payload := lib.decode now token

/-- A decoded token of the type. -/
def decodeTyped (type : String) (now : Time) (token : String) : Option Payload :=
  (decodeToken lib now token).filter fun p => p.get "type" = some type

/-- `decode_access_token` -/
def decodeAccessToken : Time → String → Option Payload := decodeTyped lib "access"

/-- `decode_refresh_token` -/
def decodeRefreshToken : Time → String → Option Payload := decodeTyped lib "refresh"

section Tokens

variable {lib} {type : String} {now at' : Time} {token user_id username : String} {p : Payload}

theorem decodeTyped_eq_some : decodeTyped lib type now token = some p ↔
    token = lib.encode p ∧ now ≤ p.exp ∧ p.get "type" = some type := by
  rw [decodeTyped, decodeToken, Option.filter_eq_some_iff, lib.decode_eq_some, and_assoc,
    decide_eq_true_eq]

/-- Different payloads have different tokens. -/
theorem encode_inj {q : Payload} (h : lib.encode p = lib.encode q) : p = q := by
  have hp : lib.decode 0 (lib.encode p) = some p := lib.decode_eq_some.mpr ⟨rfl, Nat.zero_le _⟩
  have hq : lib.decode 0 (lib.encode p) = some q := lib.decode_eq_some.mpr ⟨h, Nat.zero_le _⟩
  rw [hp] at hq
  exact Option.some.inj hq

/-- What an access token decodes to. -/
theorem decode_createAccessToken
    (h : lib.decode now (createAccessToken lib at' user_id username) = some p) :
    p = accessPayload lib at' user_id username :=
  (encode_inj (lib.decode_eq_some.mp h).1).symm

/-- What a refresh token decodes to. -/
theorem decode_createRefreshToken
    (h : lib.decode now (createRefreshToken lib at' user_id) = some p) :
    p = refreshPayload lib at' user_id :=
  (encode_inj (lib.decode_eq_some.mp h).1).symm

/-- **No refresh token is an access token.** -/
theorem decodeAccessToken_createRefreshToken :
    decodeAccessToken lib now (createRefreshToken lib at' user_id) = none := by
  rw [Option.eq_none_iff_forall_ne_some]
  intro p hp
  obtain ⟨htoken, -, htype⟩ := decodeTyped_eq_some.mp hp
  rw [← encode_inj htoken] at htype
  simp [refreshPayload, Payload.get] at htype

/-- **No access token is a refresh token.** -/
theorem decodeRefreshToken_createAccessToken :
    decodeRefreshToken lib now (createAccessToken lib at' user_id username) = none := by
  rw [Option.eq_none_iff_forall_ne_some]
  intro p hp
  obtain ⟨htoken, -, htype⟩ := decodeTyped_eq_some.mp hp
  rw [← encode_inj htoken] at htype
  simp [accessPayload, Payload.get] at htype

end Tokens

/-! ## A sample -/

namespace Sample

/-- A string with its length in front. -/
def field (s rest : List Char) : List Char := List.replicate s.length 'n' ++ 'x' :: s ++ rest

def readField (l : List Char) : List Char × List Char :=
  let n := (l.takeWhile (· = 'n')).length
  let rest := l.drop (n + 1)
  (rest.take n, rest.drop n)

theorem readField_field (s rest : List Char) : readField (field s rest) = (s, rest) := by
  have hn : ((field s rest).takeWhile (· = 'n')).length = s.length := by
    simp [field]
  have hdrop : (field s rest).drop (s.length + 1) = s ++ rest := by
    simp [field, List.drop_append]
  simp only [readField, hn, hdrop]
  simp

def writeClaims : List (String × String) → List Char
  | [] => []
  | (k, v) :: claims => field k.toList (field v.toList (writeClaims claims))

def readClaims : Nat → List Char → List (String × String)
  | 0, _ => []
  | n + 1, l =>
    let (k, l) := readField l
    let (v, l) := readField l
    (String.ofList k, String.ofList v) :: readClaims n l

theorem readClaims_writeClaims (claims : List (String × String)) :
    readClaims claims.length (writeClaims claims) = claims := by
  induction claims with
  | nil => rfl
  | cons e claims ih =>
    obtain ⟨k, v⟩ := e
    simp [readClaims, writeClaims, readField_field, ih]

def write (p : Payload) : String :=
  String.ofList (field (List.replicate p.exp 't') (field (List.replicate p.claims.length 'c')
    (writeClaims p.claims)))

def read (token : String) : Payload :=
  let (exp, l) := readField token.toList
  let (n, l) := readField l
  { claims := readClaims n.length l, exp := exp.length }

theorem read_write (p : Payload) : read (write p) = p := by
  simp [read, write, readField_field, readClaims_writeClaims]

/-- Tokens that are written out and not signed, and passwords that are not hashed. -/
def plain : AuthLib where
  encode := write
  decode now token := some (read token) |>.filter fun p => token = write p ∧ now ≤ p.exp
  decode_eq_some := by
    intro now token p
    rw [Option.filter_eq_some_iff]
    constructor
    · rintro ⟨hread, hp⟩
      exact of_decide_eq_true hp
    · rintro ⟨rfl, hexp⟩
      rw [read_write]
      exact ⟨rfl, decide_eq_true ⟨rfl, hexp⟩⟩
  encode_ne_empty := by
    intro p h
    have hlist := congrArg String.toList h
    simp [write, field] at hlist
  hashpw password _ := password
  checkpw password hashed := password = hashed
  uuid s := if s = "" then none else some (s.length - 1)
  uuidStr u := String.ofList (List.replicate (u + 1) 'u')
  uuid_uuidStr := by
    intro u
    simp
  uuid_empty := rfl
  accessTokenExpire := 2
  refreshTokenExpire := 4

end Sample

end Security

end NexusChat
