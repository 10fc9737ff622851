import NexusChat.Lib.Coro

/-!
# What a coroutine is bound to do

`Coro.All φ p` bounds the operations of `p` from above. `Coro.Surely Ok φ p` bounds them from below:
on every path on which the answers are among `Ok`, `p` performs an operation of the kind `φ`. It is
false of a coroutine that has come to its end, so it holds until the operation is performed.

What comes after the first half of a sequence is only reached if the first half does not raise,
hence `Coro.Ends`.
-/

set_option autoImplicit false

namespace Coro

variable {S : Sig} {ε α β : Type} {Ok : (op : S.Op) → Except ε (S.Resp op) → Prop} {φ : S.Op → Prop}

/-- The coroutine does not raise, on the paths on which the answers are among `Ok`. -/
def Ends (Ok : (op : S.Op) → Except ε (S.Resp op) → Prop) : Coro S ε α → Prop
  | .ret _ => True
  | .raise _ => False
  | .await op k => ∀ r, Ok op r → (k r).Ends Ok

/-- It performs an operation of the kind `φ` on each of these paths. -/
def Surely (Ok : (op : S.Op) → Except ε (S.Resp op) → Prop) (φ : S.Op → Prop) : Coro S ε α → Prop
  | .ret _ => False
  | .raise _ => False
  | .await op k => φ op ∨ ∀ r, Ok op r → (k r).Surely Ok φ

/-! ## The end -/

theorem ends_perform {op : S.Op} (h : ∀ r, Ok op r → ∃ a, r = .ok a) :
    (perform op : Coro S ε _).Ends Ok := by
  intro r hr
  obtain ⟨a, rfl⟩ := h r hr
  trivial

theorem ends_bind {p : Coro S ε α} {f : α → Coro S ε β} (hp : p.Ends Ok)
    (hf : ∀ a, (f a).Ends Ok) : (p >>= f).Ends Ok := by
  induction p with
  | ret a => exact hf a
  | raise e => exact absurd hp id
  | await op k ih => exact fun r hr => ih r (hp r hr)

/-- A `try` that catches everything does not raise. -/
theorem ends_tryCatch {p : Coro S ε α} {h : ε → Coro S ε α} (hh : ∀ e, (h e).Ends Ok) :
    (tryCatch p h).Ends Ok := by
  induction p with
  | ret a => trivial
  | raise e => exact hh e
  | await op k ih => exact fun r _ => ih r

/-! ## What it returns -/

/-- Every value the coroutine may return has the property. -/
def Gives (Q : α → Prop) : Coro S ε α → Prop
  | .ret a => Q a
  | .raise _ => True
  | .await _ k => ∀ r, (k r).Gives Q

section Gives

variable {Q : α → Prop} {R : β → Prop}

theorem gives_all (h : ∀ a, Q a) {p : Coro S ε α} : p.Gives Q := by
  induction p with
  | ret a => exact h a
  | raise e => trivial
  | await op k ih => exact ih

theorem gives_bind {p : Coro S ε α} {f : α → Coro S ε β} (hp : p.Gives Q)
    (hf : ∀ a, Q a → (f a).Gives R) : (p >>= f).Gives R := by
  induction p with
  | ret a => exact hf a hp
  | raise e => trivial
  | await op k ih => exact fun r => ih r (hp r)

/-- The last value of a sequence. -/
theorem gives_after {p : Coro S ε α} {f : α → Coro S ε β} (hf : ∀ a, (f a).Gives R) :
    (p >>= f).Gives R :=
  gives_bind (Q := fun _ => True) (gives_all fun _ => trivial) fun a _ => hf a

theorem gives_tryCatch {p : Coro S ε α} {h : ε → Coro S ε α} (hp : p.Gives Q)
    (hh : ∀ e, (h e).Gives Q) : (tryCatch p h).Gives Q := by
  induction p with
  | ret a => exact hp
  | raise e => exact hh e
  | await op k ih => exact fun r => ih r (hp r)

/-- What comes second depends on what the first has returned. -/
theorem all_bind_of_gives {p : Coro S ε α} {f : α → Coro S ε β} (hp : p.All φ) (hq : p.Gives Q)
    (hf : ∀ a, Q a → (f a).All φ) : (p >>= f).All φ := by
  induction p with
  | ret a => exact hf a hq
  | raise e => trivial
  | await op k ih => exact ⟨hp.1, fun r => ih r (hp.2 r) (hq r)⟩

end Gives

/-! ## On the way -/

theorem surely_perform {op : S.Op} (h : φ op) : (perform op : Coro S ε _).Surely Ok φ := .inl h

theorem surely_bind {p : Coro S ε α} {f : α → Coro S ε β} (h : p.Surely Ok φ) :
    (p >>= f).Surely Ok φ := by
  induction p with
  | ret a => exact absurd h id
  | raise e => exact absurd h id
  | await op k ih =>
    rcases h with hop | hk
    · exact .inl hop
    · exact .inr fun r hr => ih r (hk r hr)

/-- The second half of a sequence. -/
theorem surely_after {p : Coro S ε α} {f : α → Coro S ε β} (hp : p.Ends Ok)
    (hf : ∀ a, (f a).Surely Ok φ) : (p >>= f).Surely Ok φ := by
  induction p with
  | ret a => exact hf a
  | raise e => exact absurd hp id
  | await op k ih => exact .inr fun r hr => ih r (hp r hr)

/-- **It is still bound to after an operation of another kind.** -/
theorem Surely.step {σ χ : Type} {exec : (op : S.Op) → χ → σ → Option (Except ε (S.Resp op) × σ)}
    {c : χ} {p p' : Coro S ε α} {s s' : σ} (h : p.Surely Ok φ)
    (hs : p.step exec c s = some (p', s'))
    (hop : ∀ op r, p.head? = some op → exec op c s = some (r, s') → ¬φ op ∧ Ok op r) :
    p'.Surely Ok φ := by
  obtain ⟨op, k, r, rfl, hx, rfl⟩ := step_eq_some hs
  obtain ⟨hother, hr⟩ := hop op r rfl hx
  rcases h with hφ | hk
  · exact absurd hφ hother
  · exact hk r hr

/-! ## Every node -/

section Nodes

variable {P : (op : S.Op) → (Except ε (S.Resp op) → Coro S ε α) → Prop}
  {Q : (op : S.Op) → (Except ε (S.Resp op) → Coro S ε β) → Prop}

/-- A property of the nodes that is one of the operations. -/
theorem nodes_of_all (h : ∀ op k, φ op → P op k) {p : Coro S ε α} (hp : p.All φ) : p.Nodes P := by
  induction p with
  | ret a => trivial
  | raise e => trivial
  | await op k ih => exact ⟨h op k hp.1, fun r => ih r (hp.2 r)⟩

/-- The first half of a sequence consists of operations. -/
theorem nodes_bind (h : ∀ op k, φ op → Q op k) {p : Coro S ε α} {f : α → Coro S ε β} (hp : p.All φ)
    (hf : ∀ a, (f a).Nodes Q) : (p >>= f).Nodes Q := by
  induction p with
  | ret a => exact hf a
  | raise e => trivial
  | await op k ih => exact ⟨h op _ hp.1, fun r => ih r (hp.2 r)⟩

theorem All.head {p : Coro S ε α} {op : S.Op} (h : p.All φ) (hhead : p.head? = some op) : φ op := by
  cases p with
  | ret a => cases hhead
  | raise e => cases hhead
  | await op' k =>
    cases hhead
    exact h.1

theorem All.step {σ χ : Type} {exec : (op : S.Op) → χ → σ → Option (Except ε (S.Resp op) × σ)}
    {c : χ} {p p' : Coro S ε α} {s s' : σ} (h : p.All φ)
    (hs : p.step exec c s = some (p', s')) : p'.All φ := by
  obtain ⟨op, k, r, rfl, -, rfl⟩ := step_eq_some hs
  exact h.2 r

theorem Nodes.step {σ χ : Type} {exec : (op : S.Op) → χ → σ → Option (Except ε (S.Resp op) × σ)}
    {c : χ} {p p' : Coro S ε α} {s s' : σ} (h : p.Nodes P)
    (hs : p.step exec c s = some (p', s')) : p'.Nodes P := by
  obtain ⟨op, k, r, rfl, -, rfl⟩ := step_eq_some hs
  exact h.2 r

end Nodes

end Coro
