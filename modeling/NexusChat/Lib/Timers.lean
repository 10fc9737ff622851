import Mathlib

/-!
# Timers

The timers of a page: each has an id of its own, and is pending until it fires or is cleared. A
program that keeps the id of its only timer in a variable has `OnlyIn`: whatever is pending is the
timer of the variable. It clears the variable's timer before it sets another one, or sets one only
while the variable is empty.
-/

set_option autoImplicit false

abbrev TimerId := Nat

/-- The timers that have neither fired nor been cleared; ids are handed out in order. -/
structure Timers where
  pending : Finset TimerId
  next : TimerId
  lt_next : ∀ t ∈ pending, t < next

namespace Timers

def empty : Timers where
  pending := ∅
  next := 0
  lt_next := by simp

/-- `setTimeout`; the id is `next`. -/
def set (ts : Timers) : Timers where
  pending := insert ts.next ts.pending
  next := ts.next + 1
  lt_next := by
    intro t ht
    rcases Finset.mem_insert.mp ht with rfl | ht
    · exact Nat.lt_succ_self _
    · exact Nat.lt_succ_of_lt (ts.lt_next t ht)

/-- The timer is no longer pending. -/
def remove (ts : Timers) (t : TimerId) : Timers where
  pending := ts.pending.erase t
  next := ts.next
  lt_next := fun u hu => ts.lt_next u (Finset.mem_of_mem_erase hu)

/-- `clearTimeout` of what a variable holds -/
def clear (ts : Timers) (var : Option TimerId) : Timers :=
  match var with
  | none => ts
  | some t => ts.remove t

/-- A pending timer fires. -/
def fire (ts : Timers) (t : TimerId) : Option Timers :=
  if t ∈ ts.pending then some (ts.remove t) else none

/-- Whatever is pending is the timer of the variable. -/
def OnlyIn (ts : Timers) (var : Option TimerId) : Prop := ∀ t ∈ ts.pending, var = some t

/-- The timer of the variable is pending. -/
def Armed (ts : Timers) (var : Option TimerId) : Prop := ∀ t, var = some t → t ∈ ts.pending

variable {ts ts' : Timers} {var : Option TimerId} {t : TimerId}

theorem onlyIn_of_pending (h : ts.pending = ∅) : ts.OnlyIn var := by
  intro t ht
  rw [h] at ht
  exact absurd ht (Finset.notMem_empty t)

theorem OnlyIn.pending_none (h : ts.OnlyIn none) : ts.pending = ∅ := by
  apply Finset.eq_empty_of_forall_notMem
  intro t ht
  cases h t ht

theorem OnlyIn.card_le_one (h : ts.OnlyIn var) : ts.pending.card ≤ 1 := by
  apply Finset.card_le_one.mpr
  intro t ht u hu
  exact Option.some.inj ((h t ht).symm.trans (h u hu))

theorem pending_set (h : ts.pending = ∅) : ts.set.pending = {ts.next} := by
  simp [set, h]

theorem onlyIn_set (h : ts.pending = ∅) : ts.set.OnlyIn (some ts.next) := by
  intro t ht
  rw [pending_set h, Finset.mem_singleton] at ht
  rw [ht]

theorem OnlyIn.remove (h : ts.OnlyIn (some t)) : (ts.remove t).pending = ∅ := by
  apply Finset.eq_empty_of_forall_notMem
  intro u hu
  obtain ⟨hne, hu⟩ := Finset.mem_erase.mp hu
  exact hne (Option.some.inj (h u hu)).symm

/-- Clearing the variable's timer leaves none. -/
theorem OnlyIn.clear (h : ts.OnlyIn var) : (ts.clear var).pending = ∅ := by
  cases var with
  | none => exact h.pending_none
  | some t => exact h.remove

theorem fire_eq_some (h : ts.fire t = some ts') : t ∈ ts.pending ∧ ts' = ts.remove t := by
  unfold fire at h
  split at h
  · rename_i hmem
    exact ⟨hmem, (Option.some.inj h).symm⟩
  · cases h

theorem armed_none : ts.Armed none := by
  intro t ht
  cases ht

theorem armed_set : ts.set.Armed (some ts.next) := by
  intro t ht
  cases ht
  exact Finset.mem_insert_self _ _

/-- A variable that is armed can be waited for. -/
theorem Armed.fire (h : ts.Armed (some t)) : ts.fire t = some (ts.remove t) := if_pos (h t rfl)

/-- When the variable's timer has fired, none is left. -/
theorem OnlyIn.fire (h : ts.OnlyIn var) (hf : ts.fire t = some ts') : ts'.pending = ∅ := by
  obtain ⟨hmem, rfl⟩ := fire_eq_some hf
  exact (h t hmem ▸ h).remove

end Timers
