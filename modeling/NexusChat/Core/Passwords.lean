import NexusChat.Lib.Utf8
import NexusChat.Services.AuthService

/-!
# The bytes of a password (`app/core/security.py`)

`hash_password` and `verify_password` cut a password to 72 characters and hand its UTF-8 encoding
to bcrypt, whose limit is 72 bytes. The two always hand over the same bytes, and the whole
encoding when that is within the limit. What the cut does not bound is the number of bytes: it
does exactly for a password that is short in bytes, or ASCII as far as it is kept.
-/

set_option autoImplicit false

namespace NexusChat

/-- The limit of bcrypt, in bytes. -/
def maxPasswordBytes : Nat := 72

/-- What `bcrypt` raises. -/
inductive BcryptError where
  /-- the password is longer than the limit -/
  | tooLong
  | other
  deriving DecidableEq

/-- `bcrypt`: the length error is about length, and a hash checks against its password. -/
structure Bcrypt where
  /-- `bcrypt.hashpw(password, salt)` -/
  hashpw : ByteArray → String → Except BcryptError String
  /-- `bcrypt.checkpw(password, hashed_password)` -/
  checkpw : ByteArray → String → Except BcryptError Bool
  hashpw_tooLong : ∀ {password : ByteArray} {salt : String},
    hashpw password salt = .error .tooLong → maxPasswordBytes < password.size
  checkpw_tooLong : ∀ {password : ByteArray} {hashed : String},
    checkpw password hashed = .error .tooLong → maxPasswordBytes < password.size
  checkpw_hashpw : ∀ {password : ByteArray} {salt hashed : String},
    hashpw password salt = .ok hashed → checkpw password hashed = .ok true

namespace Security

/-- What `hash_password` passes to `bcrypt.hashpw`: `password.encode('utf-8')` after the cut. -/
def hashedBytes (password : String) : ByteArray := (truncate password).toUTF8

/-- What `verify_password` passes to `bcrypt.checkpw`. -/
def checkedBytes (plain_password : String) : ByteArray := (truncate plain_password).toUTF8

/-- `Field(..., min_length=6, max_length=128)` of `UserRegister`; the lengths are of characters. -/
def PasswordAccepted (password : String) : Prop := 6 ≤ password.length ∧ password.length ≤ 128

end Security

namespace Bcrypt

open Security

variable (bcrypt : Bcrypt)

/-- `hash_password`, with the salt `gensalt` has given and the errors of the library. -/
def hashPassword (salt password : String) : Except BcryptError String :=
  bcrypt.hashpw (hashedBytes password) salt

/-- `verify_password` -/
def verifyPassword (plain_password hashed_password : String) : Except BcryptError Bool :=
  bcrypt.checkpw (checkedBytes plain_password) hashed_password

/-- The library the service runs on hashes and checks with `bcrypt`, where that does not fail. -/
structure Behind (lib : AuthLib) : Prop where
  hashpw : ∀ password salt hashed,
    bcrypt.hashpw password.toUTF8 salt = .ok hashed → lib.hashpw password salt = hashed
  checkpw : ∀ password hashed result,
    bcrypt.checkpw password.toUTF8 hashed = .ok result → lib.checkpw password hashed = result

/-- A password that fits: hashed and checked as the same bytes, no more of them than the limit,
all of them where they are no more; so it is hashed and checked without the length error, and what
it is hashed to lets it in. -/
structure Fits (password : String) : Prop where
  same : hashedBytes password = checkedBytes password
  short : (hashedBytes password).size ≤ maxPasswordBytes ∧
    (checkedBytes password).size ≤ maxPasswordBytes
  whole : password.toUTF8.size ≤ maxPasswordBytes → hashedBytes password = password.toUTF8
  hashes : ∀ salt, bcrypt.hashPassword salt password ≠ .error .tooLong
  checks : ∀ hashed, bcrypt.verifyPassword password hashed ≠ .error .tooLong
  logsIn : ∀ salt hashed, bcrypt.hashPassword salt password = .ok hashed →
    bcrypt.verifyPassword password hashed = .ok true

variable {bcrypt} {lib : AuthLib} {password salt hashed : String}

theorem toList_truncate : (truncate password).toList = password.toList.take 72 := by
  unfold truncate
  split
  · rw [String.toList_ofList]
  · rename_i hlen
    rw [List.take_of_length_le]
    rw [String.length_toList]
    exact Nat.not_lt.mp hlen

theorem size_toUTF8 (s : String) : s.toUTF8.size = (String.ofList s.toList).utf8ByteSize := by
  rw [String.ofList_toList, String.toUTF8_eq_toByteArray, String.size_toByteArray]

/-- **A password within the limit is passed on whole**: it has no more characters than bytes. -/
theorem hashedBytes_of_size_le (h : password.toUTF8.size ≤ maxPasswordBytes) :
    hashedBytes password = password.toUTF8 := by
  have hlen : password.length ≤ 72 := by
    rw [← String.length_toList]
    apply (Utf8.length_le_utf8ByteSize password.toList).trans
    rw [← size_toUTF8]
    exact h
  rw [hashedBytes, truncate, if_neg (Nat.not_lt.mpr hlen)]

/-- **What the cut bounds**: the bytes of a password that is short in bytes, or ASCII as far as it
is kept. -/
theorem size_hashedBytes_le_iff : (hashedBytes password).size ≤ maxPasswordBytes ↔
    password.toUTF8.size ≤ maxPasswordBytes ∨ ∀ c ∈ password.toList.take 72, Utf8.Ascii c := by
  constructor
  · intro h
    by_cases hlen : 72 < password.length
    · right
      rw [hashedBytes, size_toUTF8, toList_truncate] at h
      apply (Utf8.utf8ByteSize_le_length_iff _).mp
      have hcut : (password.toList.take 72).length = 72 := by
        rw [List.length_take, String.length_toList]
        exact Nat.min_eq_left (Nat.le_of_lt hlen)
      rw [hcut]
      exact h
    · left
      rw [hashedBytes, truncate, if_neg hlen] at h
      exact h
  · rintro (h | h)
    · rw [hashedBytes_of_size_le h]
      exact h
    · rw [hashedBytes, size_toUTF8, toList_truncate]
      exact ((Utf8.utf8ByteSize_le_length_iff _).mpr h).trans (List.length_take_le _ _)

/-- **Which passwords fit**: exactly those of at most 72 bytes, and those whose first 72
characters are ASCII. -/
theorem fits_iff : bcrypt.Fits password ↔ password.toUTF8.size ≤ maxPasswordBytes ∨
    ∀ c ∈ password.toList.take 72, Utf8.Ascii c := by
  rw [← size_hashedBytes_le_iff]
  constructor
  · intro h
    exact h.short.1
  · intro h
    exact
      { same := rfl
        short := ⟨h, h⟩
        whole := hashedBytes_of_size_le
        hashes := fun salt he => absurd (bcrypt.hashpw_tooLong he) (Nat.not_lt.mpr h)
        checks := fun hashed he => absurd (bcrypt.checkpw_tooLong he) (Nat.not_lt.mpr h)
        logsIn := fun salt hashed he => bcrypt.checkpw_hashpw he }

/-! ## A sample -/

namespace Sample

/-- A library that refuses a password over the limit, and hashes to the number of bytes. -/
def strict : Bcrypt where
  hashpw password _ :=
    if maxPasswordBytes < password.size then .error .tooLong else .ok (toString password.size)
  checkpw password hashed :=
    if maxPasswordBytes < password.size then .error .tooLong
    else .ok (hashed = toString password.size)
  hashpw_tooLong := by
    intro password salt h
    split at h
    · assumption
    · cases h
  checkpw_tooLong := by
    intro password hashed h
    split at h
    · assumption
    · cases h
  checkpw_hashpw := by
    intro password salt hashed h
    split at h
    · cases h
    · rename_i hle
      cases h
      simp [hle]

/-- 37 letters of two bytes each. -/
def accented : String := String.ofList (List.replicate 37 'é')

theorem toList_accented : accented.toList = List.replicate 37 'é' := String.toList_ofList

/-- The password is accepted and too long for the library. -/
theorem not_fits : ¬ ∀ (bcrypt : Bcrypt) (password : String),
    PasswordAccepted password → bcrypt.Fits password := by
  intro hall
  have hlen : accented.length = 37 := by
    rw [← String.length_toList, toList_accented, List.length_replicate]
  have haccepted : PasswordAccepted accented := by
    rw [PasswordAccepted, hlen]
    omega
  have hsize : accented.toUTF8.size = 74 := by
    rw [size_toUTF8, Utf8.utf8ByteSize_ofList, toList_accented, List.map_replicate,
      List.sum_replicate]
    rfl
  rcases fits_iff.mp (hall strict accented haccepted) with h | h
  · rw [hsize] at h
    exact absurd h (by decide)
  · have hmem : 'é' ∈ accented.toList.take 72 := by
      rw [toList_accented, List.take_replicate]
      exact List.mem_replicate.mpr ⟨by omega, rfl⟩
    exact absurd (h _ hmem) (by decide)

end Sample

/-! ## In the service -/

/-- Where bcrypt does not fail, `hash_password` is what the service stores. -/
theorem Behind.hashPassword_eq (hb : bcrypt.Behind lib)
    (h : bcrypt.hashPassword salt password = .ok hashed) :
    Security.hashPassword lib salt password = hashed :=
  hb.hashpw _ _ _ h

/-- **Who has registered can log in**, if the password could be hashed at all. -/
theorem Behind.verify_registered (hb : bcrypt.Behind lib) {data : UserRegister} {id : Uuid}
    {users users' : Users} {user : User}
    (hr : AuthService.register lib data id salt users = (.ok user, users'))
    (h : bcrypt.hashPassword salt data.password = .ok hashed) :
    Security.verifyPassword lib data.password user.hashedPassword = true := by
  have hstored : user.hashedPassword = hashed := by
    unfold AuthService.register at hr
    split at hr
    · cases hr
    · split at hr <;> cases hr
    · split at hr
      · cases hr
      · cases hr
        exact hb.hashPassword_eq h
  rw [hstored]
  exact hb.checkpw _ _ _ (bcrypt.checkpw_hashpw h)

end Bcrypt

end NexusChat
