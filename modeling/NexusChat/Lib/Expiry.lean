import Mathlib.Algebra.Order.Group.Nat

/-!
# A store that forgets what is too old

An entry is seen at a time and is fresh for a while. A store may drop it once it is not: then what
is stored and what was seen differ, but not in what is fresh.
-/

set_option autoImplicit false

namespace Expiry

variable {τ : Type} [Add τ] [LinearOrder τ]

/-- Seen at a time that is less than `timeout` ago. -/
def Fresh (timeout now : τ) (seen : Option τ) : Prop := ∃ t, seen = some t ∧ now < t + timeout

/-- What is stored is what was seen, or nothing when that is too old. -/
def Forgets (timeout now : τ) (seen stored : Option τ) : Prop :=
  stored = seen ∨ stored = none ∧ ∀ t, seen = some t → t + timeout ≤ now

namespace Forgets

variable {timeout now now' : τ} {seen stored : Option τ}

theorem refl : Forgets timeout now seen seen := Or.inl rfl

/-- Time passes. -/
theorem later (h : Forgets timeout now seen stored) (hnow : now ≤ now') :
    Forgets timeout now' seen stored :=
  h.imp_right fun ⟨hgone, hold⟩ => ⟨hgone, fun t ht => (hold t ht).trans hnow⟩

/-- What is too old is dropped. -/
theorem filter (h : Forgets timeout now seen stored) {keeps : τ → Bool}
    (hkeeps : ∀ t, keeps t = false → t + timeout ≤ now) :
    Forgets timeout now seen (stored.filter keeps) := by
  rcases h with rfl | ⟨rfl, hold⟩
  · cases stored with
    | none => exact .refl
    | some t =>
      rw [Option.filter_some]
      split
      · exact .refl
      · rename_i hdropped
        refine Or.inr ⟨rfl, fun t' ht' => ?_⟩
        cases ht'
        exact hkeeps t (Bool.eq_false_iff.mpr hdropped)
  · exact Or.inr ⟨rfl, hold⟩

/-- **What is forgotten makes no difference.** -/
theorem fresh_iff (h : Forgets timeout now seen stored) :
    Fresh timeout now stored ↔ Fresh timeout now seen := by
  rcases h with rfl | ⟨rfl, hold⟩
  · exact Iff.rfl
  · refine iff_of_false (fun ⟨t, ht, _⟩ => by cases ht) ?_
    rintro ⟨t, ht, hfresh⟩
    exact absurd hfresh (not_lt.mpr (hold t ht))

end Forgets

end Expiry
