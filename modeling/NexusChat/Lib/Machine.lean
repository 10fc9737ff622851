import Mathlib

/-!
# Runs of a labelled machine

A machine is a partial step function `σ → ℓ → Option σ`: a label names one step and everything
the environment decides about it. `Reach step C s₀ s` is reachability by steps that all meet a
condition `C` on the state before the step; `Reach.invariant` is the one induction over runs,
and `replay` executes a list of labels, so that a concrete run is a computation.
-/

set_option autoImplicit false

variable {σ ℓ : Type}

/-- The states of the runs from `s₀` each of whose steps meets `C`. -/
inductive Reach (step : σ → ℓ → Option σ) (C : σ → ℓ → Prop) (s₀ : σ) : σ → Prop where
  | init : Reach step C s₀ s₀
  | tail {s s' : σ} {l : ℓ} : Reach step C s₀ s → C s l → step s l = some s' →
      Reach step C s₀ s'

/-- No condition on the steps. -/
def Always (_ : σ) (_ : ℓ) : Prop := True

/-- The labels in order, from `s`; `none` when one of them is not enabled. -/
def replay (step : σ → ℓ → Option σ) : List ℓ → σ → Option σ
  | [], s => some s
  | l :: ls, s => (step s l).bind (replay step ls)

/-- The labels in order, as long as each step passes the test `c`. -/
def replayIf (step : σ → ℓ → Option σ) (c : σ → ℓ → Bool) : List ℓ → σ → Option σ
  | [], s => some s
  | l :: ls, s => if c s l then (step s l).bind (replayIf step c ls) else none

theorem replay_of_replayIf {step : σ → ℓ → Option σ} {c : σ → ℓ → Bool} {ls : List ℓ} {s s' : σ}
    (h : replayIf step c ls s = some s') : replay step ls s = some s' := by
  induction ls generalizing s with
  | nil => exact h
  | cons l ls ih =>
    simp only [replayIf] at h
    split at h
    · obtain ⟨s₁, h₁, h₂⟩ := Option.bind_eq_some_iff.mp h
      exact Option.bind_eq_some_iff.mpr ⟨s₁, h₁, ih h₂⟩
    · exact absurd h (by simp)

namespace Reach

variable {step : σ → ℓ → Option σ} {C : σ → ℓ → Prop} {s₀ : σ}

/-- What holds at the start and survives every step of the kind considered holds throughout. -/
theorem invariant {I : σ → Prop} (h₀ : I s₀)
    (hs : ∀ s l s', I s → C s l → step s l = some s' → I s') {s : σ}
    (h : Reach step C s₀ s) : I s := by
  induction h with
  | init => exact h₀
  | tail _ hc hst ih => exact hs _ _ _ ih hc hst

theorem mono {C' : σ → ℓ → Prop} (hi : ∀ s l, C s l → C' s l) {s : σ}
    (h : Reach step C s₀ s) : Reach step C' s₀ s := by
  induction h with
  | init => exact .init
  | tail _ hc hst ih => exact ih.tail (hi _ _ hc) hst

theorem trans {s s' : σ} (h : Reach step C s₀ s) (h' : Reach step C s s') :
    Reach step C s₀ s' := by
  induction h' with
  | init => exact h
  | tail _ hc hst ih => exact ih.tail hc hst

theorem of_replay {ls : List ℓ} {s s' : σ} (hr : Reach step Always s₀ s)
    (h : replay step ls s = some s') : Reach step Always s₀ s' := by
  induction ls generalizing s with
  | nil => exact Option.some.inj h ▸ hr
  | cons l ls ih =>
    obtain ⟨s₁, h₁, h₂⟩ := Option.bind_eq_some_iff.mp h
    exact ih (hr.tail trivial h₁) h₂

theorem of_replayIf {c : σ → ℓ → Bool} (hc : ∀ s l, c s l = true → C s l) {ls : List ℓ}
    {s s' : σ} (hr : Reach step C s₀ s) (h : replayIf step c ls s = some s') :
    Reach step C s₀ s' := by
  induction ls generalizing s with
  | nil => exact Option.some.inj h ▸ hr
  | cons l ls ih =>
    simp only [replayIf] at h
    split at h
    · rename_i ht
      obtain ⟨s₁, h₁, h₂⟩ := Option.bind_eq_some_iff.mp h
      exact ih (hr.tail (hc _ _ ht) h₁) h₂
    · exact absurd h (by simp)

end Reach

/-! ## Processes -/

/-- In a list of processes one of which has moved, another one is where it was. -/
theorem getElem?_replace {α : Type} {ps : List α} {i j : Nat} {p q : α}
    (hj : (ps.set i p)[j]? = some q) : (j ≠ i ∧ ps[j]? = some q) ∨ (j = i ∧ q = p) := by
  by_cases hji : j = i
  · subst hji
    have hlt : j < ps.length := by
      simpa using (List.getElem?_eq_some_iff.mp hj).1
    rw [List.getElem?_set_self hlt] at hj
    cases hj
    exact .inr ⟨rfl, rfl⟩
  · rw [List.getElem?_set_ne (Ne.symm hji)] at hj
    exact .inl ⟨hji, hj⟩
