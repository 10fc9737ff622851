import Mathlib

/-!
# UTF-8 lengths

A string has at least as many bytes as characters, and as many only if every character is ASCII.
So cutting a string after `n` characters bounds its bytes by `n` for ASCII text alone.
-/

set_option autoImplicit false

namespace Utf8

/-- One byte in UTF-8. -/
def Ascii (c : Char) : Prop := c.val ≤ 127

instance (c : Char) : Decidable (Ascii c) := inferInstanceAs (Decidable (c.val ≤ 127))

theorem utf8ByteSize_ofList (l : List Char) :
    (String.ofList l).utf8ByteSize = (l.map Char.utf8Size).sum := by
  induction l with
  | nil => rfl
  | cons c l ih =>
    have hcons : String.ofList (c :: l) = String.singleton c ++ String.ofList l := by
      apply String.toList_inj.mp
      simp
    rw [hcons, String.utf8ByteSize_append, String.utf8ByteSize_singleton, ih]
    simp

/-- Every character takes a byte. -/
theorem length_le_utf8ByteSize (l : List Char) : l.length ≤ (String.ofList l).utf8ByteSize := by
  rw [utf8ByteSize_ofList]
  have hle := List.length_le_sum_of_one_le (l.map Char.utf8Size) fun n hn => by
    obtain ⟨c, -, rfl⟩ := List.mem_map.mp hn
    exact c.utf8Size_pos
  simpa using hle

/-- **Only ASCII text has no more bytes than characters.** -/
theorem utf8ByteSize_le_length_iff (l : List Char) :
    (String.ofList l).utf8ByteSize ≤ l.length ↔ ∀ c ∈ l, Ascii c := by
  induction l with
  | nil => simp
  | cons c l ih =>
    have hl := length_le_utf8ByteSize l
    have hc := c.utf8Size_pos
    rw [List.forall_mem_cons, ← ih, Ascii, ← Char.utf8Size_eq_one_iff]
    rw [utf8ByteSize_ofList] at hl ⊢
    rw [utf8ByteSize_ofList, List.map_cons, List.sum_cons, List.length_cons]
    omega

end Utf8
