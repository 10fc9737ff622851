import Mathlib.Logic.Basic

/-!
# Programs that fail without a trace

In `EStateM` an exception keeps the state as it was when it was raised. A program is atomic if
whenever it raises it leaves the state as it found it. A loop that catches whatever its body raises
comes to the end of its items; if the body is atomic, it does to the state what it would have done
without the items whose body raised.
-/

set_option autoImplicit false

namespace Isolation

variable {ε σ α β : Type}

/-- Whenever it raises, the state is what it was. -/
def Atomic (x : EStateM ε σ α) : Prop := ∀ s e s', x.run s = .error e s' → s' = s

/-- It raises nothing. -/
def Total (x : EStateM ε σ α) : Prop := ∀ s, ∃ a s', x.run s = .ok a s'

/-- It changes nothing, whether it raises or not. -/
structure Still (x : EStateM ε σ α) : Prop where
  ok : ∀ s a s', x.run s = .ok a s' → s' = s
  error : Atomic x

@[simp] theorem run_get {s : σ} : (get : EStateM ε σ σ).run s = .ok s s := rfl

theorem run_bind {x : EStateM ε σ α} {f : α → EStateM ε σ β} {s : σ} :
    (x >>= f).run s = match x.run s with
      | .ok a s' => (f a).run s'
      | .error e s' => .error e s' := rfl

theorem run_tryCatch {x : EStateM ε σ α} {handler : ε → EStateM ε σ α} {s : σ} :
    (tryCatch x handler).run s = match x.run s with
      | .ok a s' => .ok a s'
      | .error e s' => (handler e).run s' := by
  show EStateM.tryCatch x handler s = _
  unfold EStateM.tryCatch
  cases h : x s with
  | ok a s' =>
    simp only [EStateM.run, h]
  | error e s' =>
    simp only [EStateM.run, h]
    rfl

/-! ## How programs compose -/

section Rules

variable {x : EStateM ε σ α} {f : α → EStateM ε σ β}

theorem Total.atomic (h : Total x) : Atomic x := by
  intro s e s' hx
  obtain ⟨a, s₁, ha⟩ := h s
  rw [ha] at hx
  cases hx

/-- What follows a program that changes nothing need only be atomic. -/
theorem Still.bind (hx : Still x) (hf : ∀ a, Atomic (f a)) : Atomic (x >>= f) := by
  intro s e s' h
  rw [run_bind] at h
  cases hs : x.run s with
  | ok a s₁ =>
    obtain rfl := hx.ok s a s₁ hs
    simp only [hs] at h
    exact hf a s₁ e s' h
  | error e₁ s₁ =>
    simp only [hs] at h
    cases h
    exact hx.error s e s' hs

theorem still_get : Still (get : EStateM ε σ σ) where
  ok := fun _ _ _ h => by cases h; rfl
  error := fun _ _ _ h => by cases h

theorem still_ofExcept {r : Except ε α} : Still (ofExcept r : EStateM ε σ α) := by
  cases r with
  | ok a =>
    constructor
    · intro s b s' h
      cases h
      rfl
    · intro s e s' h
      cases h
  | error e =>
    constructor
    · intro s b s' h
      cases h
    · intro s e' s' h
      cases h
      rfl

theorem Total.bind (hx : Total x) (hf : ∀ a, Total (f a)) : Total (x >>= f) := by
  intro s
  obtain ⟨a, s₁, ha⟩ := hx s
  obtain ⟨b, s₂, hb⟩ := hf a s₁
  refine ⟨b, s₂, ?_⟩
  rw [run_bind]
  simp only [ha, hb]

theorem total_pure {a : α} : Total (pure a : EStateM ε σ α) := fun s => ⟨a, s, rfl⟩

theorem total_modify {f : σ → σ} : Total (modify f : EStateM ε σ Unit) := fun s => ⟨(), f s, rfl⟩

theorem Total.forM {body : α → EStateM ε σ PUnit} (h : ∀ a, Total (body a)) :
    ∀ items : List α, Total (items.forM body)
  | [] => total_pure
  | a :: items => (h a).bind fun _ => Total.forM h items

end Rules

/-! ## Loops that catch -/

/-- `for a in items:`, with the body in a `try` whose `except` drops the exception. -/
def guarded (body : α → EStateM ε σ PUnit) (items : List α) : EStateM ε σ PUnit :=
  items.forM fun a => tryCatch (body a) fun _ => pure ()

/-- The items whose body does not raise when it is their turn. -/
def survivors (body : α → EStateM ε σ PUnit) : List α → σ → List α
  | [], _ => []
  | a :: items, s =>
    match (body a).run s with
    | .ok _ s' => a :: survivors body items s'
    | .error _ s' => survivors body items s'

section Loop

variable {body : α → EStateM ε σ PUnit}

theorem run_guarded_cons {a : α} {items : List α} {s : σ} :
    (guarded body (a :: items)).run s = match (body a).run s with
      | .ok _ s' | .error _ s' => (guarded body items).run s' := by
  show ((tryCatch (body a) fun _ => pure ()) >>= fun _ => guarded body items).run s = _
  rw [run_bind, run_tryCatch]
  cases (body a).run s <;> rfl

theorem total_guarded (items : List α) : Total (guarded body items) := by
  refine Total.forM (fun a s => ?_) items
  rw [run_tryCatch]
  cases (body a).run s with
  | ok u s' => exact ⟨u, s', rfl⟩
  | error e s' => exact ⟨(), s', rfl⟩

/-- **The items whose body raises might as well not be there.** -/
theorem run_guarded_survivors (h : ∀ a, Atomic (body a)) (items : List α) (s : σ) :
    (guarded body (survivors body items s)).run s = (guarded body items).run s := by
  induction items generalizing s with
  | nil => rfl
  | cons a items ih =>
    rw [run_guarded_cons]
    cases hs : (body a).run s with
    | ok u s' =>
      simp only [survivors, hs]
      rw [run_guarded_cons]
      simp only [hs]
      exact ih s'
    | error e s' =>
      obtain rfl := h a s e s' hs
      simp only [survivors, hs]
      exact ih s'

end Loop

end Isolation
