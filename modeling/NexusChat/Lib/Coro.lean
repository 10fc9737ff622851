import Mathlib

/-!
# Coroutines over a shared state

A coroutine is a tree: it returns, raises, or awaits one operation and goes on with what the
operation answered, which may be an exception. The operations are a signature `Sig`; what one
does to a shared state `σ` is an *interpretation*, a partial function because an operation may
have to wait (a lock that is held). Between two operations any other coroutine may run.

The reasoning principle is rely/guarantee, in the shape the tree suggests. `Safe E R G Q p s`
says: whatever the others do within `R` between two operations of `p`, every operation of `p`
moves the state within `G`, and `p` ends in `Q`. It is a structural recursion on the tree, so
its rules are one per constructor, plus `bind`, `tryCatch` and the fact that `R` preserves it
(`Safe.rely`), which is all a scheduler needs: a step of one coroutine re-establishes its own
`Safe` by definition and everyone else's by `Safe.rely`.

`All φ p` is the state-free half: every operation `p` may perform satisfies `φ`.
-/

set_option autoImplicit false

/-- The operations a coroutine may await, each with the type of its answer. -/
structure Sig where
  Op : Type
  Resp : Op → Type

/-- A coroutine raising `ε` and returning `α`. -/
inductive Coro (S : Sig) (ε α : Type) : Type where
  | ret (a : α)
  | raise (e : ε)
  | await (op : S.Op) (k : Except ε (S.Resp op) → Coro S ε α)

namespace Coro

variable {S : Sig} {ε α β : Type}

def bind : Coro S ε α → (α → Coro S ε β) → Coro S ε β
  | .ret a, f => f a
  | .raise e, _ => .raise e
  | .await op k, f => .await op fun r => (k r).bind f

/-- `try: p except e: h(e)` -/
def tryCatch : Coro S ε α → (ε → Coro S ε α) → Coro S ε α
  | .ret a, _ => .ret a
  | .raise e, h => h e
  | .await op k, h => .await op fun r => (k r).tryCatch h

instance : Monad (Coro S ε) where
  pure := .ret
  bind := bind

instance : MonadExceptOf ε (Coro S ε) where
  throw := .raise
  tryCatch := tryCatch

/-- `await op`, an exception propagating. -/
def perform (op : S.Op) : Coro S ε (S.Resp op) :=
  .await op fun
    | .ok a => .ret a
    | .error e => .raise e

/-- A computation that awaits nothing. -/
def ofExcept : Except ε α → Coro S ε α
  | .ok a => .ret a
  | .error e => .raise e

/-- `try: p finally: q` -/
def tryFinally (p : Coro S ε α) (q : Coro S ε Unit) : Coro S ε α :=
  (tryCatch p fun e => q.bind fun _ => .raise e).bind fun a => q.bind fun _ => .ret a

@[simp] theorem pure_bind' (a : α) (f : α → Coro S ε β) : (pure a >>= f : Coro S ε β) = f a := rfl

@[simp] theorem ret_bind (a : α) (f : α → Coro S ε β) : (ret a >>= f : Coro S ε β) = f a := rfl

@[simp] theorem raise_bind (e : ε) (f : α → Coro S ε β) :
    (raise e >>= f : Coro S ε β) = raise e := rfl

@[simp] theorem await_bind (op : S.Op) (k : Except ε (S.Resp op) → Coro S ε α)
    (f : α → Coro S ε β) : (await op k >>= f : Coro S ε β) = await op fun r => k r >>= f := rfl

instance : LawfulMonad (Coro S ε) :=
  LawfulMonad.mk' (Coro S ε)
    (fun p => by
      induction p with
      | ret a => rfl
      | raise e => rfl
      | await op k ih => exact congrArg (await op) (funext ih))
    (fun _ _ => rfl)
    (fun p f g => by
      induction p with
      | ret a => rfl
      | raise e => rfl
      | await op k ih => exact congrArg (await op) (funext ih))

/-- The operation a coroutine is waiting for. -/
def head? : Coro S ε α → Option S.Op
  | .await op _ => some op
  | _ => none

/-! ## Running -/

section Run

variable {σ χ : Type} (exec : (op : S.Op) → χ → σ → Option (Except ε (S.Resp op) × σ))

/-- One operation of the coroutine, with the outcome `c` of everything outside the program. -/
def step (c : χ) : Coro S ε α → σ → Option (Coro S ε α × σ)
  | .await op k, s => (exec op c s).map fun (r, s') => (k r, s')
  | _, _ => none

/-- The coroutine alone, from start to end, with one outcome for all its operations; an
operation that would wait leaves it unfinished. -/
def run (c : χ) : Coro S ε α → σ → Option (Except ε α × σ)
  | .ret a, s => some (.ok a, s)
  | .raise e, s => some (.error e, s)
  | .await op k, s => (exec op c s).bind fun (r, s') => (k r).run c s'

variable {exec}

theorem step_eq_some {c : χ} {p p' : Coro S ε α} {s s' : σ} (h : p.step exec c s = some (p', s')) :
    ∃ op k r, p = .await op k ∧ exec op c s = some (r, s') ∧ p' = k r := by
  cases p with
  | ret a => simp [step] at h
  | raise e => simp [step] at h
  | await op k =>
    simp only [step, Option.map_eq_some_iff] at h
    obtain ⟨⟨r, s₂⟩, hx, hq⟩ := h
    simp only [Prod.mk.injEq] at hq
    obtain ⟨rfl, rfl⟩ := hq
    exact ⟨op, k, r, rfl, hx, rfl⟩

theorem run_bind {c : χ} (p : Coro S ε α) (f : α → Coro S ε β) (s : σ) :
    (p >>= f).run exec c s = (p.run exec c s).bind fun
      | (.ok a, s') => (f a).run exec c s'
      | (.error e, s') => some (.error e, s') := by
  induction p generalizing s with
  | ret a => rfl
  | raise e => rfl
  | await op k ih =>
    simp only [await_bind, run]
    cases exec op c s with
    | none => rfl
    | some x => simpa using ih x.1 x.2

theorem run_tryCatch {c : χ} (p : Coro S ε α) (h : ε → Coro S ε α) (s : σ) :
    (tryCatch p h).run exec c s = (p.run exec c s).bind fun
      | (.ok a, s') => some (.ok a, s')
      | (.error e, s') => (h e).run exec c s' := by
  induction p generalizing s with
  | ret a => rfl
  | raise e => rfl
  | await op k ih =>
    simp only [tryCatch, run]
    cases exec op c s with
    | none => rfl
    | some x => simpa using ih x.1 x.2

@[simp] theorem run_ret (c : χ) (a : α) (s : σ) :
    (ret a : Coro S ε α).run exec c s = some (.ok a, s) := rfl

@[simp] theorem run_pure (c : χ) (a : α) (s : σ) :
    (pure a : Coro S ε α).run exec c s = some (.ok a, s) := rfl

@[simp] theorem run_raise (c : χ) (e : ε) (s : σ) :
    (raise e : Coro S ε α).run exec c s = some (.error e, s) := rfl

theorem run_perform (c : χ) (op : S.Op) (s : σ) :
    (perform op : Coro S ε _).run exec c s = exec op c s := by
  simp only [perform, run]
  cases exec op c s with
  | none => rfl
  | some x => obtain ⟨_ | _, s'⟩ := x <;> rfl

theorem run_perform_bind (c : χ) (op : S.Op) (f : S.Resp op → Coro S ε α) (s : σ) :
    (perform op >>= f).run exec c s = (exec op c s).bind fun
      | (.ok a, s') => (f a).run exec c s'
      | (.error e, s') => some (.error e, s') := by
  rw [run_bind, run_perform]
  refine congrArg _ (funext fun x => ?_)
  obtain ⟨_ | _, s'⟩ := x <;> rfl

end Run

/-! ## Every operation -/

/-- Every operation the coroutine may perform, whatever it is answered, satisfies `φ`. -/
def All (φ : S.Op → Prop) : Coro S ε α → Prop
  | .ret _ => True
  | .raise _ => True
  | .await op k => φ op ∧ ∀ r, (k r).All φ

section All

variable {φ : S.Op → Prop}

@[simp] theorem all_ret (a : α) : (ret a : Coro S ε α).All φ := trivial

@[simp] theorem all_pure (a : α) : (pure a : Coro S ε α).All φ := trivial

theorem all_ofExcept (x : Except ε α) : (ofExcept x : Coro S ε α).All φ := by
  cases x <;> exact trivial

theorem all_perform {op : S.Op} (h : φ op) : (perform op : Coro S ε _).All φ :=
  ⟨h, fun r => by cases r <;> exact trivial⟩

theorem all_bind {p : Coro S ε α} {f : α → Coro S ε β} (hp : p.All φ) (hf : ∀ a, (f a).All φ) :
    (p >>= f).All φ := by
  induction p with
  | ret a => exact hf a
  | raise e => trivial
  | await op k ih => exact ⟨hp.1, fun r => ih r (hp.2 r)⟩

theorem all_tryCatch {p : Coro S ε α} {h : ε → Coro S ε α} (hp : p.All φ)
    (hh : ∀ e, (h e).All φ) : (tryCatch p h).All φ := by
  induction p with
  | ret a => trivial
  | raise e => exact hh e
  | await op k ih => exact ⟨hp.1, fun r => ih r (hp.2 r)⟩

theorem All.imp {ψ : S.Op → Prop} (hi : ∀ op, φ op → ψ op) {p : Coro S ε α} (h : p.All φ) :
    p.All ψ := by
  induction p with
  | ret a => trivial
  | raise e => trivial
  | await op k ih => exact ⟨hi op h.1, fun r => ih r (h.2 r)⟩

end All

/-- Every node, as a pair of its operation and what the coroutine does with the answer. -/
def Nodes (φ : (op : S.Op) → (Except ε (S.Resp op) → Coro S ε α) → Prop) : Coro S ε α → Prop
  | .ret _ => True
  | .raise _ => True
  | .await op k => φ op k ∧ ∀ r, (k r).Nodes φ

/-- Every operation the coroutine performs satisfies `φ` as long as they are all answered, and
then the coroutine returns. -/
def Returns (φ : S.Op → Prop) : Coro S ε α → Prop
  | .ret _ => True
  | .raise _ => False
  | .await op k => φ op ∧ ∀ a, (k (.ok a)).Returns φ

section Returns

variable {φ : S.Op → Prop}

end Returns

/-! ## Rely and guarantee -/

section Safe

variable {σ : Type}

/-- `p`, started in `s`: whatever the others do within `R` before an operation, the operation
is within `G`; and `p` ends in `Q`. `E op s r s'` is one execution of `op` from `s`. -/
def Safe (E : (op : S.Op) → σ → Except ε (S.Resp op) → σ → Prop) (R G : σ → σ → Prop)
    (Q : Except ε α → σ → Prop) : Coro S ε α → σ → Prop
  | .ret a, s => Q (.ok a) s
  | .raise e, s => Q (.error e) s
  | .await op k, s => ∀ s₁, R s s₁ → ∀ r s₂, E op s₁ r s₂ → G s₁ s₂ ∧ Safe E R G Q (k r) s₂

/-- `P` survives what the others do. -/
def Stable (R : σ → σ → Prop) (P : σ → Prop) : Prop := ∀ s s', R s s' → P s → P s'

theorem Stable.reflTransGen {R : σ → σ → Prop} {P : σ → Prop} (h : Stable R P) :
    Stable (Relation.ReflTransGen R) P := by
  intro s s' hr hp
  induction hr with
  | refl => exact hp
  | tail _ hstep ih => exact h _ _ hstep ih

variable {E : (op : S.Op) → σ → Except ε (S.Resp op) → σ → Prop} {R G : σ → σ → Prop}

theorem Safe.rely [IsTrans σ R] {Q : Except ε α → σ → Prop} (hQ : ∀ r, Stable R (Q r))
    {p : Coro S ε α} {s s' : σ} (hr : R s s') (h : Safe E R G Q p s) : Safe E R G Q p s' := by
  cases p with
  | ret a => exact hQ _ s s' hr h
  | raise e => exact hQ _ s s' hr h
  | await op k => exact fun s₁ h₁ => h s₁ (Trans.trans hr h₁)

theorem Safe.mono {Q Q' : Except ε α → σ → Prop} (hQ : ∀ r s, Q r s → Q' r s)
    {p : Coro S ε α} {s : σ} (h : Safe E R G Q p s) : Safe E R G Q' p s := by
  induction p generalizing s with
  | ret a => exact hQ _ s h
  | raise e => exact hQ _ s h
  | await op k ih => exact fun s₁ h₁ r s₂ hx => ⟨(h s₁ h₁ r s₂ hx).1, ih r (h s₁ h₁ r s₂ hx).2⟩

theorem safe_bind {Q : Except ε β → σ → Prop} {p : Coro S ε α} {f : α → Coro S ε β} {s : σ}
    (h : Safe E R G
      (fun r s => match r with
        | .ok a => Safe E R G Q (f a) s
        | .error e => Q (.error e) s) p s) : Safe E R G Q (p >>= f) s := by
  induction p generalizing s with
  | ret a => exact h
  | raise e => exact h
  | await op k ih =>
    exact fun s₁ h₁ r s₂ hx => ⟨(h s₁ h₁ r s₂ hx).1, ih r (h s₁ h₁ r s₂ hx).2⟩

theorem safe_tryCatch {Q : Except ε α → σ → Prop} {p : Coro S ε α} {g : ε → Coro S ε α} {s : σ}
    (h : Safe E R G
      (fun r s => match r with
        | .ok a => Q (.ok a) s
        | .error e => Safe E R G Q (g e) s) p s) : Safe E R G Q (tryCatch p g) s := by
  induction p generalizing s with
  | ret a => exact h
  | raise e => exact h
  | await op k ih =>
    exact fun s₁ h₁ r s₂ hx => ⟨(h s₁ h₁ r s₂ hx).1, ih r (h s₁ h₁ r s₂ hx).2⟩

theorem safe_perform {Q : Except ε α → σ → Prop} {op : S.Op} {f : S.Resp op → Coro S ε α} {s : σ}
    (h : ∀ s₁, R s s₁ → ∀ r s₂, E op s₁ r s₂ → G s₁ s₂ ∧
      match r with
      | .ok a => Safe E R G Q (f a) s₂
      | .error e => Q (.error e) s₂) : Safe E R G Q (perform op >>= f) s := by
  intro s₁ h₁ r s₂ hx
  refine ⟨(h s₁ h₁ r s₂ hx).1, ?_⟩
  have := (h s₁ h₁ r s₂ hx).2
  cases r <;> exact this

/-- A last operation. -/
theorem safe_last {op : S.Op} {Q : Except ε (S.Resp op) → σ → Prop} {s : σ}
    (h : ∀ s₁, R s s₁ → ∀ r s₂, E op s₁ r s₂ → G s₁ s₂ ∧ Q r s₂) :
    Safe E R G Q (perform op) s := by
  intro s₁ h₁ r s₂ hx
  refine ⟨(h s₁ h₁ r s₂ hx).1, ?_⟩
  have := (h s₁ h₁ r s₂ hx).2
  cases r <;> exact this

/-- A coroutine all of whose operations are harmless on their own is safe. -/
theorem Safe.of_all {φ : S.Op → Prop} {Q : Except ε α → σ → Prop} {I : σ → Prop}
    (hR : Stable R I) (hop : ∀ op, φ op → ∀ s r s', I s → E op s r s' → G s s' ∧ I s')
    (hQ : ∀ r s, I s → Q r s) {p : Coro S ε α} (hp : p.All φ) {s : σ} (hs : I s) :
    Safe E R G Q p s := by
  induction p generalizing s with
  | ret a => exact hQ _ s hs
  | raise e => exact hQ _ s hs
  | await op k ih =>
    intro s₁ h₁ r s₂ hx
    obtain ⟨hg, hi⟩ := hop op hp.1 s₁ r s₂ (hR s s₁ h₁ hs) hx
    exact ⟨hg, ih r (hp.2 r) hi⟩

/-- A coroutine that returns when it is answered, all of whose operations are answered. -/
theorem Safe.of_returns {φ : S.Op → Prop} {Q : Except ε α → σ → Prop} {I : σ → Prop}
    (hR : Stable R I) (hop : ∀ op, φ op → ∀ s r s', I s → E op s r s' →
      (∃ a, r = .ok a) ∧ G s s' ∧ I s') (hQ : ∀ a s, I s → Q (.ok a) s) {p : Coro S ε α}
    (hp : p.Returns φ) {s : σ} (hs : I s) : Safe E R G Q p s := by
  induction p generalizing s with
  | ret a => exact hQ a s hs
  | raise e => exact absurd hp id
  | await op k ih =>
    intro s₁ h₁ r s₂ hx
    obtain ⟨⟨a, rfl⟩, hg, hi⟩ := hop op hp.1 s₁ r s₂ (hR s s₁ h₁ hs) hx
    exact ⟨hg, ih (.ok a) (hp.2 a) hi⟩

/-! ### Complete runs -/

/-- The runs of a coroutine from start to end, others moving the state within `R` before each of
its operations. -/
inductive Runs (E : (op : S.Op) → σ → Except ε (S.Resp op) → σ → Prop) (R : σ → σ → Prop) :
    Coro S ε α → σ → Except ε α → σ → Prop where
  | ret {a : α} {s : σ} : Runs E R (.ret a) s (.ok a) s
  | raise {e : ε} {s : σ} : Runs E R (.raise e) s (.error e) s
  | await {op : S.Op} {k : Except ε (S.Resp op) → Coro S ε α} {s s₁ s₂ s' : σ}
      {r : Except ε (S.Resp op)} {q : Except ε α} (hr : R s s₁) (hx : E op s₁ r s₂)
      (h : Runs E R (k r) s₂ q s') : Runs E R (.await op k) s q s'

/-- A safe coroutine ends as it should. -/
theorem Safe.of_runs {Q : Except ε α → σ → Prop} {p : Coro S ε α} {s s' : σ} {r : Except ε α}
    (h : Safe E R G Q p s) (hr : Runs E R p s r s') : Q r s' := by
  induction hr with
  | ret => exact h
  | raise => exact h
  | await hr hx _ ih => exact ih (h _ hr _ _ hx).2

/-- A coroutine that is left alone. -/
theorem runs_of_run {χ : Type} {exec : (op : S.Op) → χ → σ → Option (Except ε (S.Resp op) × σ)}
    {c : χ} (hR : ∀ s, R s s) (hE : ∀ op s r s', exec op c s = some (r, s') → E op s r s')
    {p : Coro S ε α} {s s' : σ} {r : Except ε α} (h : p.run exec c s = some (r, s')) :
    Runs E R p s r s' := by
  induction p generalizing s with
  | ret a =>
    cases h
    exact .ret
  | raise e =>
    cases h
    exact .raise
  | await op k ih =>
    obtain ⟨⟨r₁, s₁⟩, hx, hk⟩ := Option.bind_eq_some_iff.mp h
    exact .await (hR s) (hE op s r₁ s₁ hx) (ih r₁ hk)

end Safe

end Coro
