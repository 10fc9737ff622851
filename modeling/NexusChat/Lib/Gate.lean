import NexusChat.Lib.Promise

/-!
# What a coroutine leads to before a gate

A coroutine that asks before it acts passes a *gate*: an operation whose answer decides what comes
next. `Coro.Leads gate φ p` says that `p` can come to an operation of the kind `φ` without passing a
gate before. As `p` goes on, this can only become false, but for a step that passes a gate
(`Leads.before`). So a condition on whatever a coroutine leads to has to be established at the
gates, and kept by everybody else.
-/

set_option autoImplicit false

namespace Coro

variable {S : Sig} {ε α : Type} {gate φ ψ : S.Op → Prop}

/-- The coroutine can come to an operation of the kind `φ` before it passes a gate. -/
def Leads (gate φ : S.Op → Prop) : Coro S ε α → Prop
  | .ret _ => False
  | .raise _ => False
  | .await op k => φ op ∨ (¬gate op ∧ ∃ r, (k r).Leads gate φ)

/-- A coroutine leads to operations it performs. -/
theorem Leads.of_all {p : Coro S ε α} (h : p.Leads gate φ) (hp : p.All ψ) :
    ∃ op, φ op ∧ ψ op := by
  induction p with
  | ret a => exact absurd h id
  | raise e => exact absurd h id
  | await op k ih =>
    rcases h with hop | ⟨-, r, hr⟩
    · exact ⟨op, hop, hp.1⟩
    · exact ih r hr (hp.2 r)

/-- It leads to the operation it is waiting for. -/
theorem leads_head {p : Coro S ε α} {op : S.Op} (h : p.head? = some op) (hop : φ op) :
    p.Leads gate φ := by
  cases p with
  | ret a => cases h
  | raise e => cases h
  | await op' k =>
    cases h
    exact .inl hop

/-- **What a coroutine leads to after a step, it led to before**, or the step passed a gate. -/
theorem Leads.before {σ χ : Type} {exec : (op : S.Op) → χ → σ → Option (Except ε (S.Resp op) × σ)}
    {c : χ} {p p' : Coro S ε α} {s s' : σ} (hs : p.step exec c s = some (p', s'))
    (h : p'.Leads gate φ) : p.Leads gate φ ∨
      ∃ op k r, p = .await op k ∧ gate op ∧ exec op c s = some (r, s') ∧ p' = k r := by
  obtain ⟨op, k, r, rfl, hx, rfl⟩ := step_eq_some hs
  by_cases hgate : gate op
  · exact .inr ⟨op, k, r, rfl, hgate, hx, rfl⟩
  · exact .inl (.inr ⟨hgate, r, h⟩)

end Coro
