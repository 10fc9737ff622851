import Mathlib

/-!
# Tables with a primary key

A table is a list of rows no two of which have the same key. An insertion that would break that
is refused, here by leaving the table alone: whoever inserts has to look first.
-/

set_option autoImplicit false

universe u v

structure Table (ρ : Type u) {κ : Type v} (key : ρ → κ) where
  rows : List ρ
  nodup : (rows.map key).Nodup

namespace Table

variable {ρ : Type u} {κ : Type v} {key : ρ → κ}

def empty : Table ρ key := ⟨[], List.nodup_nil⟩

instance : EmptyCollection (Table ρ key) := ⟨empty⟩

instance : Membership ρ (Table ρ key) := ⟨fun t r => r ∈ t.rows⟩

theorem mem_def {t : Table ρ key} {r : ρ} : r ∈ t ↔ r ∈ t.rows := Iff.rfl

@[simp] theorem not_mem_empty (r : ρ) : r ∉ (∅ : Table ρ key) := List.not_mem_nil

theorem rows_nodup (t : Table ρ key) : t.rows.Nodup := t.nodup.of_map key

/-- Two rows with one key are one row. -/
theorem eq_of_key {t : Table ρ key} {r r' : ρ} (h : r ∈ t) (h' : r' ∈ t)
    (hk : key r = key r') : r = r' :=
  List.inj_on_of_nodup_map t.nodup h h' hk

def delete (t : Table ρ key) (p : ρ → Bool) : Table ρ key :=
  ⟨t.rows.filter (fun r => !p r), t.nodup.sublist (List.filter_sublist.map key)⟩

@[simp] theorem mem_delete {t : Table ρ key} {p : ρ → Bool} {r : ρ} :
    r ∈ t.delete p ↔ r ∈ t ∧ p r = false := by
  simp [mem_def, delete]

theorem delete_eq_self {t : Table ρ key} {p : ρ → Bool} (h : ∀ r ∈ t, p r = false) :
    t.delete p = t := by
  obtain ⟨rows, hnodup⟩ := t
  have hrows : rows.filter (fun r => !p r) = rows :=
    List.filter_eq_self.mpr fun r hr => by simp [h r hr]
  simp only [delete, hrows]

def find? (t : Table ρ key) (p : ρ → Bool) : Option ρ := t.rows.find? p

theorem find?_eq_some {t : Table ρ key} {p : ρ → Bool} {r : ρ} (h : t.find? p = some r) :
    r ∈ t ∧ p r = true :=
  ⟨List.mem_of_find?_eq_some h, List.find?_some h⟩

theorem find?_eq_none {t : Table ρ key} {p : ρ → Bool} :
    t.find? p = none ↔ ∀ r ∈ t, p r = false := by
  simp [find?, mem_def]

variable [DecidableEq κ]

/-- A row that is there is found. -/
theorem exists_find? {t : Table ρ key} {k : κ} (h : ∃ r ∈ t, key r = k) :
    ∃ r, t.find? (fun r => key r = k) = some r := by
  obtain ⟨r, hr, hk⟩ := h
  cases hfind : t.find? fun r => key r = k with
  | some r' => exact ⟨r', rfl⟩
  | none => exact absurd hk (of_decide_eq_false (find?_eq_none.mp hfind r hr))

instance (r : ρ) [DecidableEq ρ] (t : Table ρ key) : Decidable (r ∈ t) :=
  inferInstanceAs (Decidable (r ∈ t.rows))

def insert (t : Table ρ key) (r : ρ) : Table ρ key :=
  if h : key r ∈ t.rows.map key then t
  else ⟨t.rows ++ [r], by
    rw [List.map_append, List.nodup_append]
    refine ⟨t.nodup, by simp, ?_⟩
    rintro a ha b hb rfl
    simp only [List.map_cons, List.map_nil, List.mem_singleton] at hb
    exact h (hb ▸ ha)⟩

theorem mem_insert_of_mem {t : Table ρ key} {r r' : ρ} (h : r ∈ t) : r ∈ t.insert r' := by
  unfold insert
  split
  · exact h
  · exact List.mem_append_left _ h

theorem mem_insert {t : Table ρ key} {r r' : ρ} (h : r ∈ t.insert r') : r ∈ t ∨ r = r' := by
  unfold insert at h
  split at h
  · exact Or.inl h
  · rcases List.mem_append.mp h with h | h
    · exact Or.inl h
    · exact Or.inr (List.mem_singleton.mp h)

theorem mem_insert_self {t : Table ρ key} {r : ρ} (h : ∀ r' ∈ t, key r' ≠ key r) :
    r ∈ t.insert r := by
  unfold insert
  rw [dif_neg]
  · exact List.mem_append_right _ (List.mem_singleton_self r)
  · intro hmem
    obtain ⟨r', hr', hk⟩ := List.mem_map.mp hmem
    exact h r' hr' hk

theorem rows_insert {t : Table ρ key} {r : ρ} (h : ∀ r' ∈ t, key r' ≠ key r) :
    (t.insert r).rows = t.rows ++ [r] := by
  unfold insert
  rw [dif_neg]
  intro hmem
  obtain ⟨r', hr', hk⟩ := List.mem_map.mp hmem
  exact h r' hr' hk

/-- An insertion adds one row at most. -/
theorem countP_insert_le {t : Table ρ key} {r : ρ} {p : ρ → Bool} :
    (t.insert r).rows.countP p ≤ t.rows.countP p + if p r then 1 else 0 := by
  unfold insert
  split
  · exact Nat.le_add_right _ _
  · simp [List.countP_append, List.countP_singleton]

end Table
