import Mathlib

/-!
# The output of a sequence of events

A machine that reads events one after the other, keeps a state and emits some output for each.
This file compares what it emits for a sequence with what it emits for the same sequence without
the *repeats* of one kind of event, that is with only the first event of the kind kept.

Two ways a kind of event can behave are enough. It may be *rejected*, changing nothing and
emitting nothing, and then repeats do not show. Or it may be *accepted*: it emits one output each
time, and once one of the kind has been handled the others leave the state alone; then the output
has exactly one entry more for each repeat.
-/

set_option autoImplicit false

namespace Stream

variable {τ ε β : Type} (f : τ → ε → τ × List β) (p : ε → Bool)

/-- What is emitted. -/
def emit : τ → List ε → List β
  | _, [] => []
  | t, e :: es => (f t e).2 ++ emit (f t e).1 es

/-- What is emitted for the events of the kind. -/
def emitOf : τ → List ε → List β
  | _, [] => []
  | t, e :: es => (if p e then (f t e).2 else []) ++ emitOf (f t e).1 es

/-- The sequence with the repeats deleted. -/
def dropRepeats : List ε → List ε
  | [] => []
  | e :: es => if p e then e :: es.filter (fun e => !p e) else e :: dropRepeats es

variable {f p}

theorem dropRepeats_of_countP_le {es : List ε} (h : es.countP p ≤ 1) : dropRepeats p es = es := by
  induction es with
  | nil => rfl
  | cons e es ih =>
    by_cases he : p e = true
    · rw [List.countP_cons_of_pos he] at h
      have hnone : es.countP p = 0 := by omega
      rw [dropRepeats, if_pos he, List.filter_eq_self.mpr fun a ha => by
        simpa using List.countP_eq_zero.mp hnone a ha]
    · rw [List.countP_cons_of_neg he] at h
      rw [dropRepeats, if_neg he, ih h]

/-- A kind of event that is rejected whenever `R` holds, and `R` is never lost. -/
structure Rejected (f : τ → ε → τ × List β) (p : ε → Bool) (C : ε → Prop) (R : τ → Prop) :
    Prop where
  keep : ∀ t e, C e → R t → R (f t e).1
  silent : ∀ t e, C e → R t → p e = true → f t e = (t, [])

/-- A kind of event that is accepted whenever `A` holds, and settled once `B` holds. -/
structure Accepted (f : τ → ε → τ × List β) (p : ε → Bool) (C : ε → Prop) (A B : τ → Prop) :
    Prop where
  keep : ∀ t e, C e → A t → A (f t e).1
  settled : ∀ t e, C e → A t → B t → B (f t e).1
  settles : ∀ t e, C e → A t → p e = true → B (f t e).1
  emits : ∀ t e, C e → A t → p e = true → (f t e).2.length = 1
  same : ∀ t e, C e → A t → B t → p e = true → (f t e).1 = t

section Rejected

variable {C : ε → Prop} {R : τ → Prop} (h : Rejected f p C R)
include h

theorem Rejected.emit_filter {t : τ} {es : List ε} (hc : ∀ e ∈ es, C e) (ht : R t) :
    emit f t (es.filter fun e => !p e) = emit f t es := by
  induction es generalizing t with
  | nil => rfl
  | cons e es ih =>
    obtain ⟨he, hes⟩ := List.forall_mem_cons.mp hc
    by_cases hp : p e = true
    · rw [List.filter_cons_of_neg (by simp [hp]), emit, h.silent t e he ht hp, ih hes ht]
      rfl
    · rw [List.filter_cons_of_pos (by simp [hp]), emit, emit, ih hes (h.keep t e he ht)]

theorem Rejected.emit_dropRepeats {t : τ} {es : List ε} (hc : ∀ e ∈ es, C e) (ht : R t) :
    emit f t (dropRepeats p es) = emit f t es := by
  induction es generalizing t with
  | nil => rfl
  | cons e es ih =>
    obtain ⟨he, hes⟩ := List.forall_mem_cons.mp hc
    by_cases hp : p e = true
    · rw [dropRepeats, if_pos hp, emit, emit, h.emit_filter hes (h.keep t e he ht)]
    · rw [dropRepeats, if_neg hp, emit, emit, ih hes (h.keep t e he ht)]

theorem Rejected.emitOf_eq_nil {t : τ} {es : List ε} (hc : ∀ e ∈ es, C e) (ht : R t) :
    emitOf f p t es = [] := by
  induction es generalizing t with
  | nil => rfl
  | cons e es ih =>
    obtain ⟨he, hes⟩ := List.forall_mem_cons.mp hc
    rw [emitOf, ih hes (h.keep t e he ht), List.append_nil]
    split
    · rename_i hp
      rw [h.silent t e he ht hp]
    · rfl

end Rejected

section Accepted

variable {C : ε → Prop} {A B : τ → Prop} (h : Accepted f p C A B)
include h

theorem Accepted.length_emitOf {t : τ} {es : List ε} (hc : ∀ e ∈ es, C e) (ht : A t) :
    (emitOf f p t es).length = es.countP p := by
  induction es generalizing t with
  | nil => rfl
  | cons e es ih =>
    obtain ⟨he, hes⟩ := List.forall_mem_cons.mp hc
    rw [emitOf, List.length_append, ih hes (h.keep t e he ht)]
    by_cases hp : p e = true
    · rw [if_pos hp, h.emits t e he ht hp, List.countP_cons_of_pos hp, Nat.add_comm]
    · rw [if_neg hp, List.countP_cons_of_neg hp, List.length_nil, Nat.zero_add]

/-- Once the kind is settled, each event of it is one more output and nothing else. -/
theorem Accepted.length_emit_filter {t : τ} {es : List ε} (hc : ∀ e ∈ es, C e) (ht : A t)
    (hb : B t) : (emit f t es).length =
      (emit f t (es.filter fun e => !p e)).length + es.countP p := by
  induction es generalizing t with
  | nil => rfl
  | cons e es ih =>
    obtain ⟨he, hes⟩ := List.forall_mem_cons.mp hc
    by_cases hp : p e = true
    · rw [List.filter_cons_of_neg (by simp [hp]), List.countP_cons_of_pos hp, emit,
        List.length_append, h.emits t e he ht hp, h.same t e he ht hb hp, ih hes ht hb]
      omega
    · rw [List.filter_cons_of_pos (by simp [hp]), List.countP_cons_of_neg hp, emit, emit,
        List.length_append, List.length_append,
        ih hes (h.keep t e he ht) (h.settled t e he ht hb)]
      omega

/-- **Each repeat shows**: the output is longer than without repeats by their number. -/
theorem Accepted.length_emit {t : τ} {es : List ε} (hc : ∀ e ∈ es, C e) (ht : A t) :
    (emit f t es).length = (emit f t (dropRepeats p es)).length + (es.countP p - 1) := by
  induction es generalizing t with
  | nil => rfl
  | cons e es ih =>
    obtain ⟨he, hes⟩ := List.forall_mem_cons.mp hc
    by_cases hp : p e = true
    · rw [dropRepeats, if_pos hp, List.countP_cons_of_pos hp, emit, emit, List.length_append,
        List.length_append,
        h.length_emit_filter hes (h.keep t e he ht) (h.settles t e he ht hp)]
      omega
    · rw [dropRepeats, if_neg hp, List.countP_cons_of_neg hp, emit, emit, List.length_append,
        List.length_append, ih hes (h.keep t e he ht)]
      omega

end Accepted

end Stream
