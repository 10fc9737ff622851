import NexusChat.Lib.Dict

/-!
# Sorted sets

A sorted set is a dictionary from members to scores. A range of scores is removed by filtering,
or by popping the members of the range one after the other; both are read through `get?`.
-/

set_option autoImplicit false

universe u v

namespace Dict

variable {κ : Type u} {ν : Type v}

/-- The entries with the property. -/
def filter (d : Dict κ ν) (p : κ × ν → Bool) : Dict κ ν :=
  ⟨d.entries.filter p, d.nodup.sublist (List.filter_sublist.map Prod.fst)⟩

variable [DecidableEq κ]

theorem mem_entries {d : Dict κ ν} {k : κ} {v : ν} : (k, v) ∈ d.entries ↔ d.get? k = some v := by
  obtain ⟨entries, hnodup⟩ := d
  show (k, v) ∈ entries ↔ (entries.find? fun e => e.1 = k).map Prod.snd = some v
  induction entries with
  | nil => simp
  | cons e l ih =>
    rw [List.map_cons, List.nodup_cons] at hnodup
    by_cases hk : e.1 = k
    · subst hk
      have hout : (e.1, v) ∉ l := fun hmem => hnodup.1 (List.mem_map.mpr ⟨_, hmem, rfl⟩)
      simp [hout, Prod.ext_iff, eq_comm]
    · have hne : (k, v) ≠ e := fun he => hk (he ▸ rfl)
      simp [hk, hne, ih hnodup.2]

theorem get?_filter {d : Dict κ ν} {p : κ × ν → Bool} {k : κ} :
    (d.filter p).get? k = (d.get? k).filter fun v => p (k, v) := by
  refine Option.ext fun v => ?_
  rw [← mem_entries, Option.filter_eq_some_iff, ← mem_entries]
  exact List.mem_filter

/-- Members popped one after the other. -/
theorem get?_popAll {l : List (κ × ν)} {d : Dict κ ν} {k : κ} :
    (l.foldl (fun d e => d.pop e.1) d).get? k = if k ∈ l.map Prod.fst then none else d.get? k := by
  induction l generalizing d with
  | nil => rfl
  | cons e l ih =>
    rw [List.foldl_cons, ih, get?_pop]
    simp only [List.map_cons, List.mem_cons]
    by_cases hk : k = e.1
    · simp only [hk, true_or, if_true, ite_self]
    · simp only [hk, false_or, if_false]

/-- Popping the entries with a property filters them out. -/
theorem get?_popWhere {d : Dict κ ν} {p : κ × ν → Bool} {k : κ} :
    ((d.entries.filter p).foldl (fun d e => d.pop e.1) d).get? k =
      (d.get? k).filter fun v => !p (k, v) := by
  rw [get?_popAll]
  cases hget : d.get? k with
  | none => simp
  | some v =>
    have hmem : k ∈ (d.entries.filter p).map Prod.fst ↔ p (k, v) = true := by
      constructor
      · intro h
        obtain ⟨⟨k', v'⟩, he, rfl⟩ := List.mem_map.mp h
        obtain ⟨he, hp⟩ := List.mem_filter.mp he
        rw [mem_entries, hget] at he
        cases he
        exact hp
      · intro hp
        exact List.mem_map.mpr ⟨(k, v), List.mem_filter.mpr ⟨mem_entries.mpr hget, hp⟩, rfl⟩
    by_cases hp : p (k, v) = true
    · rw [if_pos (hmem.mpr hp), Option.filter_some, hp]
      rfl
    · rw [if_neg fun h => hp (hmem.mp h), Option.filter_some, Bool.eq_false_iff.mpr hp]
      rfl

/-- Different keys that are present are at most as many as the entries. -/
theorem length_le_size {d : Dict κ ν} {ks : List κ} (hnodup : ks.Nodup)
    (hmem : ∀ k ∈ ks, ∃ v, d.get? k = some v) : ks.length ≤ d.size := by
  rw [← length_keys]
  exact (hnodup.subperm fun k hk => mem_keys.mpr (hmem k hk)).length_le

end Dict
