import Mathlib

/-!
# Insertion-ordered dictionaries and sets

The two containers a Python service keeps its bookkeeping in, as lists whose freedom from
repeated keys is a field. A dictionary iterates in insertion order and an assignment to an
existing key keeps the key's position; `pop` of a missing key is the identity. Every fact a
client needs is read through `get?` (for a dictionary) or through membership (for a set), so
that nothing outside this file mentions the underlying list.
-/

set_option autoImplicit false

universe u v

/-- A dictionary with unique keys, in insertion order. -/
structure Dict (κ : Type u) (ν : Type v) where
  entries : List (κ × ν)
  nodup : (entries.map Prod.fst).Nodup

namespace Dict

variable {κ : Type u} {ν : Type v}

/-- `{}` -/
def empty : Dict κ ν := ⟨[], List.nodup_nil⟩

instance : EmptyCollection (Dict κ ν) := ⟨empty⟩

def keys (d : Dict κ ν) : List κ := d.entries.map Prod.fst

/-- `len(d)` -/
def size (d : Dict κ ν) : Nat := d.entries.length

@[simp] theorem keys_empty : (∅ : Dict κ ν).keys = [] := rfl

theorem keys_nodup (d : Dict κ ν) : d.keys.Nodup := d.nodup

@[simp] theorem length_keys (d : Dict κ ν) : d.keys.length = d.size := by
  simp [keys, size]

variable [DecidableEq κ]

def get? (d : Dict κ ν) (k : κ) : Option ν :=
  (d.entries.find? (fun e => e.1 = k)).map Prod.snd

private def assign (k : κ) (v : ν) (e : κ × ν) : κ × ν := if e.1 = k then (k, v) else e

private theorem map_fst_assign (k : κ) (v : ν) (l : List (κ × ν)) :
    (l.map (assign k v)).map Prod.fst = l.map Prod.fst := by
  rw [List.map_map]
  refine List.map_congr_left fun e _ => ?_
  by_cases h : e.1 = k <;> simp [assign, h]

/-- `d[k] = v`: in place when the key is there, at the end otherwise. -/
def set (d : Dict κ ν) (k : κ) (v : ν) : Dict κ ν :=
  if h : k ∈ d.keys then
    ⟨d.entries.map (assign k v), by rw [map_fst_assign]; exact d.nodup⟩
  else
    ⟨d.entries ++ [(k, v)], by
      rw [List.map_append, List.nodup_append]
      refine ⟨d.nodup, by simp, ?_⟩
      rintro a ha b hb rfl
      simp only [List.map_cons, List.map_nil, List.mem_singleton] at hb
      exact h (hb ▸ ha)⟩

/-- `d.pop(k, None)` -/
def pop (d : Dict κ ν) (k : κ) : Dict κ ν :=
  ⟨d.entries.filter (fun e => e.1 ≠ k),
    d.nodup.sublist (List.filter_sublist.map Prod.fst)⟩

@[simp] theorem get?_empty (k : κ) : (∅ : Dict κ ν).get? k = none := rfl

/-- A key is present exactly when it has a value. -/
theorem mem_keys {d : Dict κ ν} {k : κ} : k ∈ d.keys ↔ ∃ v, d.get? k = some v := by
  simp only [keys, get?, List.mem_map]
  constructor
  · rintro ⟨e, he, rfl⟩
    cases hf : d.entries.find? (fun e' => e'.1 = e.1) with
    | none => exact absurd (List.find?_eq_none.mp hf e he) (by simp)
    | some e' => exact ⟨e'.2, rfl⟩
  · rintro ⟨v, hv⟩
    obtain ⟨e, he, -⟩ := Option.map_eq_some_iff.mp hv
    exact ⟨e, List.mem_of_find?_eq_some he, by simpa using List.find?_some he⟩

theorem get?_eq_none {d : Dict κ ν} {k : κ} : d.get? k = none ↔ k ∉ d.keys := by
  rw [mem_keys, Option.eq_none_iff_forall_ne_some]
  exact not_exists.symm

private theorem find?_assign (k k' : κ) (v : ν) (l : List (κ × ν)) :
    (l.map (assign k v)).find? (fun e => e.1 = k') =
      (l.find? (fun e => e.1 = k')).map (assign k v) := by
  rw [List.find?_map]
  congr 2
  funext e
  by_cases h : e.1 = k <;> simp [assign, h, Function.comp]

theorem get?_set (d : Dict κ ν) (k k' : κ) (v : ν) :
    (d.set k v).get? k' = if k' = k then some v else d.get? k' := by
  unfold set
  split
  · rename_i hk
    simp only [get?, find?_assign]
    by_cases h : k' = k
    · subst h
      obtain ⟨w, hw⟩ := mem_keys.mp hk
      obtain ⟨e, he, -⟩ := Option.map_eq_some_iff.mp hw
      have : e.1 = k' := by simpa using List.find?_some he
      simp [he, assign, this]
    · rw [if_neg h]
      cases hf : d.entries.find? (fun e => e.1 = k') with
      | none => rfl
      | some e =>
        have : e.1 = k' := by simpa using List.find?_some hf
        simp [assign, this, h]
  · rename_i hk
    simp only [get?, List.find?_append]
    by_cases h : k' = k
    · subst h
      have hn : d.entries.find? (fun e => e.1 = k') = none := by
        simpa [get?] using get?_eq_none.mpr hk
      simp [hn]
    · simp [h, Ne.symm h]

theorem get?_pop (d : Dict κ ν) (k k' : κ) :
    (d.pop k).get? k' = if k' = k then none else d.get? k' := by
  simp only [get?, pop]
  split
  · rename_i h
    subst h
    simp [List.find?_eq_none]
  · rename_i h
    congr 1
    induction d.entries with
    | nil => rfl
    | cons e l ih =>
      by_cases he : e.1 = k
      · have hne : e.1 ≠ k' := fun hq => h (hq ▸ he)
        simpa [he, hne, Ne.symm h] using ih
      · by_cases hq : e.1 = k'
        · simp [hq, h]
        · simpa [he, hq] using ih

@[simp] theorem get?_set_self (d : Dict κ ν) (k : κ) (v : ν) : (d.set k v).get? k = some v := by
  simp [get?_set]

@[simp] theorem get?_pop_self (d : Dict κ ν) (k : κ) : (d.pop k).get? k = none := by
  simp [get?_pop]

theorem keys_set_of_mem {d : Dict κ ν} {k : κ} (h : k ∈ d.keys) (v : ν) :
    (d.set k v).keys = d.keys := by
  unfold set
  rw [dif_pos h]
  exact map_fst_assign k v d.entries

theorem keys_set_of_not_mem {d : Dict κ ν} {k : κ} (h : k ∉ d.keys) (v : ν) :
    (d.set k v).keys = d.keys ++ [k] := by
  unfold set
  rw [dif_neg h]
  simp [keys]

theorem mem_keys_set {d : Dict κ ν} {k k' : κ} {v : ν} :
    k' ∈ (d.set k v).keys ↔ k' = k ∨ k' ∈ d.keys := by
  simp only [mem_keys, get?_set]
  split <;> simp_all

end Dict

/-- A set, as the list of its elements in insertion order. -/
structure PySet (α : Type u) where
  elems : List α
  nodup : elems.Nodup

namespace PySet

variable {α : Type u}

/-- `set()` -/
def empty : PySet α := ⟨[], List.nodup_nil⟩

instance : EmptyCollection (PySet α) := ⟨empty⟩

instance : Membership α (PySet α) := ⟨fun s a => a ∈ s.elems⟩

theorem mem_def {s : PySet α} {a : α} : a ∈ s ↔ a ∈ s.elems := Iff.rfl

@[simp] theorem not_mem_empty (a : α) : a ∉ (∅ : PySet α) := List.not_mem_nil

/-- `if s:` -/
def isEmpty (s : PySet α) : Bool := s.elems.isEmpty

theorem isEmpty_iff {s : PySet α} : s.isEmpty = true ↔ ∀ a, a ∉ s := by
  simp [isEmpty, mem_def, List.isEmpty_iff, List.eq_nil_iff_forall_not_mem]

variable [DecidableEq α]

instance (a : α) (s : PySet α) : Decidable (a ∈ s) := inferInstanceAs (Decidable (a ∈ s.elems))

def add (s : PySet α) (a : α) : PySet α :=
  if h : a ∈ s.elems then s
  else ⟨s.elems ++ [a], by
    rw [List.nodup_append]
    refine ⟨s.nodup, by simp, ?_⟩
    rintro b hb c hc rfl
    exact h (List.mem_singleton.mp hc ▸ hb)⟩

def discard (s : PySet α) (a : α) : PySet α :=
  ⟨s.elems.filter (· ≠ a), s.nodup.filter _⟩

@[simp] theorem mem_add {s : PySet α} {a b : α} : b ∈ s.add a ↔ b = a ∨ b ∈ s := by
  unfold add
  split
  · rename_i h
    exact ⟨Or.inr, fun hb => hb.elim (fun hq => hq ▸ h) id⟩
  · simp [mem_def, or_comm]

@[simp] theorem mem_discard {s : PySet α} {a b : α} : b ∈ s.discard a ↔ b ∈ s ∧ b ≠ a := by
  simp [mem_def, discard]

end PySet
