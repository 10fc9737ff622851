import NexusChat.Lib.Coro

/-!
# Coroutines that keep to a protocol

A protocol is an automaton over the operations of a signature: `T m op r m'` is a move from `m` to
`m'`, on an operation `op` that was answered `r`. `Coro.Follows Ok T Q p m` says that `p`, begun in
`m`, performs only operations the protocol has a move for, as long as the answers are among `Ok`,
and that the place `p` ends in satisfies `Q`. The moves are a relation and need not be unique.
-/

set_option autoImplicit false

namespace Coro

variable {S : Sig} {ε α β μ : Type} {Ok : (op : S.Op) → Except ε (S.Resp op) → Prop}
  {T : μ → (op : S.Op) → Except ε (S.Resp op) → μ → Prop}

/-- Every operation of the coroutine is a move of the protocol, and it ends in `Q`. -/
def Follows (Ok : (op : S.Op) → Except ε (S.Resp op) → Prop)
    (T : μ → (op : S.Op) → Except ε (S.Resp op) → μ → Prop) (Q : Except ε α → μ → Prop) :
    Coro S ε α → μ → Prop
  | .ret a, m => Q (.ok a) m
  | .raise e, m => Q (.error e) m
  | .await op k, m => ∀ r, Ok op r → ∃ m', T m op r m' ∧ (k r).Follows Ok T Q m'

theorem follows_bind {Q : Except ε β → μ → Prop} {p : Coro S ε α} {f : α → Coro S ε β} {m : μ}
    (h : p.Follows Ok T
      (fun r m => match r with
        | .ok a => (f a).Follows Ok T Q m
        | .error e => Q (.error e) m) m) : (p >>= f).Follows Ok T Q m := by
  induction p generalizing m with
  | ret a => exact h
  | raise e => exact h
  | await op k ih =>
    intro r hr
    obtain ⟨m', hmove, hk⟩ := h r hr
    exact ⟨m', hmove, ih r hk⟩

theorem follows_tryCatch {Q : Except ε α → μ → Prop} {p : Coro S ε α} {g : ε → Coro S ε α} {m : μ}
    (h : p.Follows Ok T
      (fun r m => match r with
        | .ok a => Q (.ok a) m
        | .error e => (g e).Follows Ok T Q m) m) : (tryCatch p g).Follows Ok T Q m := by
  induction p generalizing m with
  | ret a => exact h
  | raise e => exact h
  | await op k ih =>
    intro r hr
    obtain ⟨m', hmove, hk⟩ := h r hr
    exact ⟨m', hmove, ih r hk⟩

/-- An operation, and what comes after it. -/
theorem follows_perform {Q : Except ε α → μ → Prop} {op : S.Op} {f : S.Resp op → Coro S ε α} {m : μ}
    (h : ∀ r, Ok op r → ∃ m', T m op r m' ∧
      match r with
      | .ok a => (f a).Follows Ok T Q m'
      | .error e => Q (.error e) m') : (perform op >>= f).Follows Ok T Q m := by
  intro r hr
  obtain ⟨m', hmove, hk⟩ := h r hr
  refine ⟨m', hmove, ?_⟩
  cases r with
  | ok a => exact hk
  | error e => exact hk

/-- A last operation. -/
theorem follows_last {op : S.Op} {Q : Except ε (S.Resp op) → μ → Prop} {m : μ}
    (h : ∀ r, Ok op r → ∃ m', T m op r m' ∧ Q r m') : (perform op).Follows Ok T Q m := by
  intro r hr
  obtain ⟨m', hmove, hk⟩ := h r hr
  refine ⟨m', hmove, ?_⟩
  cases r with
  | ok a => exact hk
  | error e => exact hk

/-- A coroutine whose operations all leave the protocol where it is. -/
theorem follows_of_all {φ : S.Op → Prop} {Q : Except ε α → μ → Prop} {m : μ}
    (h : ∀ op, φ op → ∀ r, T m op r m) {p : Coro S ε α} (hp : p.All φ) (hQ : ∀ r, Q r m) :
    p.Follows Ok T Q m := by
  induction p with
  | ret a => exact hQ _
  | raise e => exact hQ _
  | await op k ih => exact fun r _ => ⟨m, h op hp.1 r, ih r (hp.2 r)⟩

theorem follows_bind_of_all {φ : S.Op → Prop} {Q : Except ε β → μ → Prop} {m : μ}
    (h : ∀ op, φ op → ∀ r, T m op r m) {p : Coro S ε α} {f : α → Coro S ε β} (hp : p.All φ)
    (hf : ∀ a, (f a).Follows Ok T Q m) (hQ : ∀ e, Q (.error e) m) :
    (p >>= f).Follows Ok T Q m := by
  refine follows_bind (follows_of_all h hp fun r => ?_)
  cases r with
  | ok a => exact hf a
  | error e => exact hQ e

/-- An operation is a move, and the rest goes on from where it leads. -/
theorem Follows.step {σ χ : Type} {exec : (op : S.Op) → χ → σ → Option (Except ε (S.Resp op) × σ)}
    {c : χ} {p p' : Coro S ε α} {s s' : σ} {Q : Except ε α → μ → Prop} {m : μ}
    (h : p.Follows Ok T Q m) (hs : p.step exec c s = some (p', s'))
    (hok : ∀ op r, p.head? = some op → exec op c s = some (r, s') → Ok op r) :
    ∃ op r m', p.head? = some op ∧ exec op c s = some (r, s') ∧ T m op r m' ∧
      p'.Follows Ok T Q m' := by
  obtain ⟨op, k, r, rfl, hx, rfl⟩ := step_eq_some hs
  obtain ⟨m', hmove, hk⟩ := h r (hok op r rfl hx)
  exact ⟨op, r, m', rfl, hx, hmove, hk⟩

theorem Follows.mono {Q Q' : Except ε α → μ → Prop} (hQ : ∀ r m, Q r m → Q' r m)
    {p : Coro S ε α} {m : μ} (h : p.Follows Ok T Q m) : p.Follows Ok T Q' m := by
  induction p generalizing m with
  | ret a => exact hQ _ m h
  | raise e => exact hQ _ m h
  | await op k ih =>
    intro r hr
    obtain ⟨m', hmove, hk⟩ := h r hr
    exact ⟨m', hmove, ih r hk⟩

end Coro
