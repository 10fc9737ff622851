import Mathlib.Data.List.Basic

/-!
# Keyed logs

A log of entries, some with a key. A new entry is put at the end, unless it comes with a key that an
entry already has: then that entry is what one gets, and the log is left alone.
-/

set_option autoImplicit false

namespace KeyedLog

variable {κ ρ : Type} [DecidableEq κ] (keyOf : ρ → Option κ)

/-- The entry with the key. -/
def lookup (log : List ρ) (k : κ) : Option ρ := log.find? fun e => keyOf e = some k

/-- The entry one gets, and the log. -/
def put (log : List ρ) (k : Option κ) (e : ρ) : ρ × List ρ :=
  match k.bind (lookup keyOf log) with
  | some old => (old, log)
  | none => (e, log ++ [e])

variable {keyOf} {log : List ρ} {k : κ} {e old : ρ}

theorem lookup_eq_none : lookup keyOf log k = none ↔ ∀ e ∈ log, keyOf e ≠ some k := by
  simp [lookup]

theorem put_of_lookup (h : lookup keyOf log k = some old) :
    put keyOf log (some k) e = (old, log) := by
  simp [put, h]

theorem put_of_new (h : lookup keyOf log k = none) :
    put keyOf log (some k) e = (e, log ++ [e]) := by
  simp [put, h]

theorem put_none : put keyOf log none e = (e, log ++ [e]) := rfl

end KeyedLog
