import Mathlib

/-!
# Sliding windows

`Bounded L W times` says that no window of length `W` holds more than `L` of the times. A log that
grows at its latest end stays bounded when fewer than `L` of its times are in the window that ends
with the new one.

`Admits L W t times` is the question a sliding-window limiter asks at the time `t`: whether fewer
than `L` of the times are later than `t - W`.
-/

set_option autoImplicit false

namespace Window

variable {τ : Type} [AddCommGroup τ] [LinearOrder τ] [IsOrderedAddMonoid τ]

/-- The time is in the half-open window `(t - W, t]`. -/
def Within (t W x : τ) : Prop := t - W < x ∧ x ≤ t

instance (t W x : τ) : Decidable (Within t W x) := inferInstanceAs (Decidable (_ ∧ _))

/-- At most `L` of the times are in any window of length `W`. -/
def Bounded (L : Nat) (W : τ) (times : List τ) : Prop :=
  ∀ t, times.countP (fun x => Within t W x) ≤ L

omit [IsOrderedAddMonoid τ] in
theorem bounded_nil {L : Nat} {W : τ} : Bounded L W [] := by
  intro t
  exact Nat.zero_le L

/-- A window without length is empty. -/
theorem bounded_of_nonpos {L : Nat} {W : τ} (hW : W ≤ 0) (times : List τ) : Bounded L W times := by
  intro t
  have hnone : times.countP (fun x => Within t W x) = 0 := by
    refine List.countP_eq_zero.mpr fun x _ => ?_
    simp only [decide_eq_true_eq]
    intro hx
    have hlt : t - W < t := lt_of_lt_of_le hx.1 hx.2
    exact absurd (sub_lt_self_iff t |>.mp hlt) (not_lt.mpr hW)
  rw [hnone]
  exact Nat.zero_le L

/-- A new latest time. -/
theorem Bounded.cons {L : Nat} {W now : τ} {times : List τ} (h : Bounded L W times)
    (hfew : times.countP (fun x => now - W < x) < L) : Bounded L W (now :: times) := by
  intro t
  rw [List.countP_cons]
  split
  · rename_i hnow
    have hnow : Within t W now := by simpa using hnow
    -- the times of this window are in the one that ends with `now`, or later than `now`
    have hle : times.countP (fun x => Within t W x) ≤ times.countP (fun x => now - W < x) := by
      refine List.countP_mono_left fun x _ hx => ?_
      have hx : Within t W x := by simpa using hx
      have hlt : now - W < x := lt_of_le_of_lt (sub_le_sub_right hnow.2 W) hx.1
      simpa using hlt
    exact Nat.succ_le_of_lt (Nat.lt_of_le_of_lt hle hfew)
  · exact h t

omit [IsOrderedAddMonoid τ] in
/-- So many windows in a row hold so many times the limit. -/
theorem Bounded.length_le {L : Nat} {W t : τ} {times : List τ} (h : Bounded L W times) {k : Nat}
    (hin : ∀ x ∈ times, t < x ∧ x ≤ t + k • W) : times.length ≤ k * L := by
  induction k generalizing times with
  | zero =>
    have hempty : times = [] := by
      refine List.eq_nil_iff_forall_not_mem.mpr fun x hx => ?_
      obtain ⟨hlt, hle⟩ := hin x hx
      rw [zero_nsmul, add_zero] at hle
      exact absurd hlt (not_lt.mpr hle)
    rw [hempty]
    exact Nat.zero_le _
  | succ k ih =>
    -- the times of the last window, and those before it
    have hlast : times.countP (fun x => Within (t + (k + 1) • W) W x) ≤ L := h _
    have hsub : (times.filter fun x => !decide (Within (t + (k + 1) • W) W x)).length ≤ k * L := by
      refine ih (fun t' => (List.filter_sublist.countP_le).trans (h t')) fun x hx => ?_
      obtain ⟨hx, hnot⟩ := List.mem_filter.mp hx
      obtain ⟨hlt, hle⟩ := hin x hx
      have hnot : ¬Within (t + (k + 1) • W) W x := by simpa using hnot
      refine ⟨hlt, not_lt.mp fun hlate => hnot ⟨?_, hle⟩⟩
      rw [succ_nsmul, ← add_assoc, add_sub_cancel_right]
      exact hlate
    have hsplit := List.length_eq_length_filter_add (l := times)
      fun x => decide (Within (t + (k + 1) • W) W x)
    rw [List.countP_eq_length_filter] at hlast
    rw [Nat.succ_mul]
    omega

/-! ## Limiters -/

/-- Fewer than `L` of the times are later than `t - W`. -/
def Admits (L : Nat) (W t : τ) (times : List τ) : Prop := times.countP (fun x => t - W < x) < L

instance (L : Nat) (W t : τ) (times : List τ) : Decidable (Admits L W t times) :=
  inferInstanceAs (Decidable (_ < L))

omit [IsOrderedAddMonoid τ] in
/-- One more time in the window leaves room for one less. -/
theorem admits_cons_of_lt {L : Nat} {W t x : τ} {times : List τ} (hx : t - W < x) :
    Admits L W t (x :: times) ↔ times.countP (fun x => t - W < x) + 1 < L := by
  rw [Admits, List.countP_cons_of_pos (by simpa using hx)]

omit [IsOrderedAddMonoid τ] in
/-- Times before the window are not counted. -/
theorem admits_of_le {L : Nat} {W t : τ} {times : List τ} (hL : 0 < L)
    (hold : ∀ x ∈ times, x ≤ t - W) : Admits L W t times := by
  have hnone : times.countP (fun x => t - W < x) = 0 :=
    List.countP_eq_zero.mpr fun x hx => by simpa using hold x hx
  rw [Admits, hnone]
  exact hL

end Window
