import Mathlib

/-!
# Constraints under interleaved transactions

A store is a set of rows. `Constraints` say what a row needs to be there, and which two rows
exclude each other. Any number of transactions add and remove rows: each sees what is committed
and its own changes, and nothing of the others. A change is checked where its transaction makes
it, against what the transaction sees, and a row that excludes one another transaction is about to
add waits. That is enough: whatever the interleaving, what is committed is consistent, and so is
what each transaction sees (`Sound.step`, `Sound.view`).

What a row needs is to be found among rows that are never removed (`fixed`).
-/

set_option autoImplicit false

variable {ρ τ : Type}

structure Constraints (ρ : Type) where
  needs : Set ρ → ρ → Prop
  clash : ρ → ρ → Prop
  fixed : Set ρ
  needs_mono : ∀ {s s' : Set ρ} {r : ρ}, (∀ a ∈ s, a ∈ fixed → a ∈ s') → needs s r → needs s' r
  clash_symm : ∀ {r r' : ρ}, clash r r' → clash r' r

inductive Change (ρ : Type) where
  | add (r : ρ)
  | remove (gone : Set ρ)

namespace Change

def apply (s : Set ρ) : Change ρ → Set ρ
  | add r => insert r s
  | remove gone => s \ gone

end Change

namespace Constraints

variable (c : Constraints ρ)

structure Consistent (s : Set ρ) : Prop where
  needs : ∀ r ∈ s, c.needs s r
  apart : ∀ r ∈ s, ∀ r' ∈ s, r ≠ r' → ¬c.clash r r'

/-- The check of a change. -/
def Fits (s : Set ρ) : Change ρ → Prop
  | .add r => c.needs s r ∧ ∀ r' ∈ s, ¬c.clash r r'
  | .remove gone => ∀ r ∈ gone, r ∉ c.fixed

/-- Each of a sequence of changes passes its check, after those before it. -/
def AllFit (s : Set ρ) : List (Change ρ) → Prop
  | [] => True
  | w :: ws => c.Fits s w ∧ AllFit (w.apply s) ws

variable {c} {s s' : Set ρ} {w : Change ρ} {ws ws' : List (Change ρ)} {r : ρ}

/-! ## One transaction -/

theorem fixed_apply (h : c.Fits s w) (hr : r ∈ s) (hfixed : r ∈ c.fixed) : r ∈ w.apply s := by
  cases w with
  | add a => exact Set.mem_insert_of_mem a hr
  | remove gone => exact ⟨hr, fun hgone => h r hgone hfixed⟩

theorem Consistent.apply (hs : c.Consistent s) (h : c.Fits s w) : c.Consistent (w.apply s) := by
  have hneeds : ∀ {r : ρ}, c.needs s r → c.needs (w.apply s) r :=
    c.needs_mono fun _ hr hfixed => fixed_apply h hr hfixed
  cases w with
  | add a =>
    obtain ⟨ha, hclash⟩ := h
    constructor
    · intro r hr
      rcases Set.mem_insert_iff.mp hr with rfl | hr
      · exact hneeds ha
      · exact hneeds (hs.needs r hr)
    · intro r hr r' hr' hne
      rcases Set.mem_insert_iff.mp hr with he | hold
      · rcases Set.mem_insert_iff.mp hr' with he' | hold'
        · exact absurd (he.trans he'.symm) hne
        · rw [he]
          exact hclash r' hold'
      · rcases Set.mem_insert_iff.mp hr' with he' | hold'
        · rw [he']
          exact fun h => hclash r hold (c.clash_symm h)
        · exact hs.apart r hold r' hold' hne
  | remove gone =>
    exact ⟨fun r hr => hneeds (hs.needs r hr.1),
      fun r hr r' hr' => hs.apart r hr.1 r' hr'.1⟩

theorem allFit_append : c.AllFit s (ws ++ ws') ↔
    c.AllFit s ws ∧ c.AllFit (ws.foldl Change.apply s) ws' := by
  induction ws generalizing s with
  | nil => simp [AllFit]
  | cons w ws ih => simp only [List.cons_append, AllFit, ih, List.foldl_cons, and_assoc]

/-- A transaction that passes its checks keeps what it sees consistent. -/
theorem Consistent.foldl (hs : c.Consistent s) (h : c.AllFit s ws) :
    c.Consistent (ws.foldl Change.apply s) := by
  induction ws generalizing s with
  | nil => exact hs
  | cons w ws ih => exact ih (hs.apply h.1) h.2

theorem fixed_foldl (h : c.AllFit s ws) (hr : r ∈ s) (hfixed : r ∈ c.fixed) :
    r ∈ ws.foldl Change.apply s := by
  induction ws generalizing s with
  | nil => exact hr
  | cons w ws ih => exact ih h.2 (fixed_apply h.1 hr hfixed)

/-- A row after some changes was there before, or is one of theirs. -/
theorem mem_of_foldl (h : r ∈ ws.foldl Change.apply s) : r ∈ s ∨ .add r ∈ ws := by
  induction ws generalizing s with
  | nil => exact .inl h
  | cons w ws ih =>
    rcases ih h with hr | hr
    · cases w with
      | add a =>
        rcases Set.mem_insert_iff.mp hr with rfl | hr
        · exact .inr (List.mem_cons_self ..)
        · exact .inl hr
      | remove gone => exact .inl hr.1
    · exact .inr (List.mem_cons_of_mem _ hr)

/-- A fixed row that a transaction has added is there. -/
theorem mem_foldl_of_add (h : c.AllFit s ws) (hr : .add r ∈ ws) (hfixed : r ∈ c.fixed) :
    r ∈ ws.foldl Change.apply s := by
  induction ws generalizing s with
  | nil => cases hr
  | cons w ws ih =>
    rw [List.foldl_cons]
    rcases List.mem_cons.mp hr with rfl | hr
    · have hnew : r ∈ Change.apply s (.add r) := Set.mem_insert r s
      exact fixed_foldl h.2 hnew hfixed
    · exact ih h.2 hr

/-- The row that a transaction adds clashes with nothing that was there and that is never
removed. -/
theorem not_clash_of_add (h : c.AllFit s ws) (hr : .add r ∈ ws) {a : ρ} (ha : a ∈ s)
    (hfixed : a ∈ c.fixed) : ¬c.clash r a := by
  induction ws generalizing s with
  | nil => cases hr
  | cons w ws ih =>
    rcases List.mem_cons.mp hr with rfl | hr
    · exact h.1.2 a ha
    · exact ih h.2 hr (fixed_apply h.1 ha hfixed)

/-! ## A transaction while another one commits -/

/-- What has been checked on `s` passes its checks on `s'` too, if `s'` has all the fixed rows of
`s`, and has besides the rows of `s` only rows that clash with none of those to be added. -/
theorem AllFit.transport (more : Set ρ) (h : c.AllFit s ws)
    (hfixed : ∀ a ∈ s, a ∈ c.fixed → a ∈ s') (hrows : ∀ a ∈ s', a ∈ s ∨ a ∈ more)
    (hmore : ∀ r, .add r ∈ ws → ∀ a ∈ more, ¬c.clash r a) : c.AllFit s' ws := by
  induction ws generalizing s s' with
  | nil => trivial
  | cons w ws ih =>
    obtain ⟨hw, hrest⟩ := h
    have hfits : c.Fits s' w := by
      cases w with
      | add r =>
        refine ⟨c.needs_mono hfixed hw.1, fun a ha => ?_⟩
        rcases hrows a ha with hold | hnew
        · exact hw.2 a hold
        · exact hmore r (List.mem_cons_self ..) a hnew
      | remove gone => exact hw
    refine ⟨hfits, ih hrest ?_ ?_ fun r hr => hmore r (List.mem_cons_of_mem _ hr)⟩
    · intro a ha hf
      cases w with
      | add r =>
        rcases Set.mem_insert_iff.mp ha with rfl | ha
        · exact Set.mem_insert _ _
        · exact Set.mem_insert_of_mem r (hfixed a ha hf)
      | remove gone => exact ⟨hfixed a ha.1 hf, ha.2⟩
    · intro a ha
      cases w with
      | add r =>
        rcases Set.mem_insert_iff.mp ha with rfl | ha
        · exact .inl (Set.mem_insert _ _)
        · exact (hrows a ha).imp_left (Set.mem_insert_of_mem r)
      | remove gone => exact (hrows a ha.1).imp_left fun hold => ⟨hold, ha.2⟩

end Constraints

/-! ## Any number of transactions -/

/-- What is committed, and what each transaction has changed. -/
structure Transactions (τ ρ : Type) where
  committed : Set ρ
  pending : τ → List (Change ρ)

namespace Transactions

variable {c : Constraints ρ} {t t' : Transactions τ ρ} {i j : τ}

/-- What a transaction sees. -/
def view (t : Transactions τ ρ) (i : τ) : Set ρ := (t.pending i).foldl Change.apply t.committed

/-- From `t` to `t'` one transaction makes a change, commits or is rolled back. -/
inductive Step (c : Constraints ρ) (t t' : Transactions τ ρ) : Prop where
  | still (hc : t'.committed = t.committed) (hp : ∀ j, t'.pending j = t.pending j)
  | change (i : τ) (w : Change ρ) (hc : t'.committed = t.committed)
      (hi : t'.pending i = t.pending i ++ [w]) (hp : ∀ j, j ≠ i → t'.pending j = t.pending j)
      (hfits : c.Fits (t.view i) w)
      (hwaits : ∀ r, w = .add r → ∀ j, j ≠ i → ∀ r', .add r' ∈ t.pending j → ¬c.clash r r')
  | commit (i : τ) (hc : t'.committed = t.view i) (hi : t'.pending i = [])
      (hp : ∀ j, j ≠ i → t'.pending j = t.pending j)
  | rollback (i : τ) (hc : t'.committed = t.committed) (hi : t'.pending i = [])
      (hp : ∀ j, j ≠ i → t'.pending j = t.pending j)

structure Sound (c : Constraints ρ) (t : Transactions τ ρ) : Prop where
  committed : c.Consistent t.committed
  pending : ∀ i, c.AllFit t.committed (t.pending i)
  apart : ∀ i j, i ≠ j → ∀ r r', .add r ∈ t.pending i → .add r' ∈ t.pending j → ¬c.clash r r'

theorem Sound.view (h : t.Sound c) (i : τ) : c.Consistent (t.view i) :=
  h.committed.foldl (h.pending i)

/-- Fewer pending changes, of one transaction, and the same committed rows. -/
theorem Sound.clear (h : t.Sound c) (hfit : ∀ j, j ≠ i → c.AllFit t'.committed (t.pending j))
    (hcommitted : c.Consistent t'.committed) (hi : t'.pending i = [])
    (hp : ∀ j, j ≠ i → t'.pending j = t.pending j) : t'.Sound c where
  committed := hcommitted
  pending := by
    intro j
    by_cases hj : j = i
    · rw [hj, hi]
      trivial
    · rw [hp j hj]
      exact hfit j hj
  apart := by
    intro j k hjk r r' hr hr'
    by_cases hj : j = i
    · rw [hj, hi] at hr
      cases hr
    · by_cases hk : k = i
      · rw [hk, hi] at hr'
        cases hr'
      · rw [hp j hj] at hr
        rw [hp k hk] at hr'
        exact h.apart j k hjk r r' hr hr'

/-- **No interleaving breaks a constraint.** -/
theorem Sound.step (h : t.Sound c) (hs : t.Step c t') : t'.Sound c := by
  cases hs with
  | still hc hp =>
    refine ⟨hc ▸ h.committed, fun i => ?_, fun i j hij r r' hr hr' => ?_⟩
    · rw [hc, hp i]
      exact h.pending i
    · rw [hp i] at hr
      rw [hp j] at hr'
      exact h.apart i j hij r r' hr hr'
  | change i w hc hi hp hfits hwaits =>
    refine ⟨hc ▸ h.committed, fun j => ?_, fun j k hjk r r' hr hr' => ?_⟩
    · rw [hc]
      by_cases hj : j = i
      · rw [hj, hi]
        exact Constraints.allFit_append.mpr ⟨h.pending i, hfits, trivial⟩
      · rw [hp j hj]
        exact h.pending j
    · -- the new row waited for every transaction it could clash with
      by_cases hj : j = i
      · subst hj
        rw [hp k (Ne.symm hjk)] at hr'
        rw [hi] at hr
        rcases List.mem_append.mp hr with hr | hr
        · exact h.apart j k hjk r r' hr hr'
        · exact hwaits r (List.mem_singleton.mp hr).symm k (Ne.symm hjk) r' hr'
      · rw [hp j hj] at hr
        by_cases hk : k = i
        · subst hk
          rw [hi] at hr'
          rcases List.mem_append.mp hr' with hr' | hr'
          · exact h.apart j k hjk r r' hr hr'
          · intro hclash
            exact hwaits r' (List.mem_singleton.mp hr').symm j hj r hr (c.clash_symm hclash)
        · rw [hp k hk] at hr'
          exact h.apart j k hjk r r' hr hr'
  | commit i hc hi hp =>
    refine h.clear (i := i) (fun j hj => ?_) ?_ hi hp
    · rw [hc]
      refine (h.pending j).transport { r | .add r ∈ t.pending i } ?_ ?_ ?_
      · exact fun a ha hfixed => Constraints.fixed_foldl (h.pending i) ha hfixed
      · exact fun a ha => Constraints.mem_of_foldl ha
      · exact fun r hr a ha => h.apart j i hj r a hr ha
    · rw [hc]
      exact h.view i
  | rollback i hc hi hp =>
    exact h.clear (fun j _ => hc ▸ h.pending j) (hc ▸ h.committed) hi hp

end Transactions
