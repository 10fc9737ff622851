import Mathlib.Logic.Function.Basic

/-!
# A copy kept by events

Somebody keeps a copy of a map that changes entry by entry. Each change is first made and then
announced, by an event `(a, b)` in a queue that arrives in order. `settle events copy` is what the
copy comes to when all the events have arrived.

An entry is *owed* while a change of it has been made and not been announced. `Converges` says that
the copy comes to the truth in every entry that is not owed. There is one lemma for each thing that
can happen to it, and `Converges.arrived` for the end.
-/

set_option autoImplicit false

namespace Replica

variable {α β : Type} [DecidableEq α]

/-- The copy when the events have arrived. -/
def settle (events : List (α × β)) (copy : α → β) : α → β :=
  events.foldl (fun copy e => Function.update copy e.1 e.2) copy

section

variable {events : List (α × β)} {copy : α → β} {e : α × β}

theorem settle_cons : settle (e :: events) copy = settle events (Function.update copy e.1 e.2) :=
  rfl

theorem settle_concat : settle (events ++ [e]) copy =
    Function.update (settle events copy) e.1 e.2 := by
  simp [settle]

end

/-- The copy comes to the truth. -/
def Converges (truth : α → β) (owed : α → Prop) (events : List (α × β)) (copy : α → β) : Prop :=
  ∀ a, ¬owed a → settle events copy a = truth a

namespace Converges

variable {truth truth' : α → β} {owed owed' : α → Prop} {events : List (α × β)} {copy : α → β}
  {a : α} {e : α × β}

/-- Some entries change, and are owed now. -/
theorem change (h : Converges truth owed events copy)
    (hchange : ∀ x, ¬owed' x → ¬owed x ∧ truth' x = truth x) :
    Converges truth' owed' events copy := by
  intro x hx
  obtain ⟨hold, hsame⟩ := hchange x hx
  rw [hsame]
  exact h x hold

/-- An entry is announced: the last announcement of it is the truth. -/
theorem announce (h : Converges truth owed events copy)
    (hother : ∀ x, x ≠ e.1 → ¬owed' x → ¬owed x) (hlast : ¬owed' e.1 → e.2 = truth e.1) :
    Converges truth owed' (events ++ [e]) copy := by
  intro x hx
  rw [settle_concat]
  by_cases hxe : x = e.1
  · subst hxe
    rw [Function.update_self]
    exact hlast hx
  · rw [Function.update_of_ne hxe]
    exact h x (hother x hxe hx)

/-- The first event arrives. -/
theorem arrive (h : Converges truth owed (e :: events) copy) :
    Converges truth owed events (Function.update copy e.1 e.2) := by
  intro x hx
  rw [← settle_cons]
  exact h x hx

end Converges

end Replica
