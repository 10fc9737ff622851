import Mathlib

/-!
# Pages stacked by single placements

A list is shown from top to bottom, and grows by pages that are older than what it shows. A page
comes in order, oldest element first, and its elements are placed one by one: in front if the page
is to go in front, but some elements always go to the end. Placing a page in order turns it
round, so the list stays in order only while the pages that go in front have one element or none,
and none that goes to the end (`stacked_eq_iff`).
-/

set_option autoImplicit false

namespace Placement

variable {α : Type} (last : α → Bool)

/-- One element, in front or, as every element that is `last`, at the end. -/
def place (front : Bool) (l : List α) (a : α) : List α :=
  if front && !last a then a :: l else l ++ [a]

variable {last} {l page : List α}

theorem foldl_place_end : page.foldl (place last false) l = l ++ page := by
  induction page generalizing l with
  | nil => simp
  | cons a page ih =>
    rw [List.foldl_cons, ih]
    simp [place]

/-- **A page placed in front is turned round**, and what goes to the end leaves it. -/
theorem foldl_place_front : page.foldl (place last true) l =
    (page.filter fun a => !last a).reverse ++ l ++ page.filter last := by
  induction page generalizing l with
  | nil => simp
  | cons a page ih =>
    rw [List.foldl_cons, ih]
    cases h : last a <;> simp [place, h]

/-- A list without repetitions that is its own reverse has one element at most. -/
theorem length_le_one_of_reverse_eq (hn : page.Nodup) (h : page.reverse = page) :
    page.length ≤ 1 := by
  cases page with
  | nil => simp
  | cons a rest =>
    cases rest with
    | nil => simp
    | cons b rest =>
      -- the first element is also the last one, which is another one
      exfalso
      have hlast : (a :: b :: rest).getLast? = some a := by
        rw [← List.head?_reverse, h]
        rfl
      rw [List.getLast?_cons_cons] at hlast
      exact (List.nodup_cons.mp hn).1 (List.mem_of_getLast? hlast)

/-- **One page in front of a list**, with nothing in common: it ends up in order exactly if the
list was, and the page is a single element that may go in front, or empty. -/
theorem foldl_place_front_eq_iff {want : List α} (hn : (page ++ want).Nodup)
    (hlen : l.length = want.length) (hne : want ≠ []) :
    page.foldl (place last true) l = page ++ want ↔
      l = want ∧ page.length ≤ 1 ∧ ∀ a ∈ page, last a = false := by
  rw [foldl_place_front]
  constructor
  · intro h
    have hend : page.filter last = [] := by
      by_contra hsome
      -- else the last element would be one of the page and one of the list
      have hlast := congrArg List.getLast? h
      rw [List.getLast?_append_of_ne_nil _ hsome, List.getLast?_append_of_ne_nil _ hne] at hlast
      obtain ⟨a, ha⟩ := Option.isSome_iff_exists.mp (List.getLast?_isSome.mpr hne)
      rw [ha] at hlast
      exact (List.nodup_append.mp hn).2.2 a (List.mem_of_mem_filter (List.mem_of_getLast? hlast)) a
        (List.mem_of_getLast? ha) rfl
    have hall : ∀ a ∈ page, last a = false := by
      intro a ha
      simpa using List.filter_eq_nil_iff.mp hend a ha
    have hfront : (page.filter fun a => !last a) = page := by
      apply List.filter_eq_self.mpr
      intro a ha
      rw [hall a ha]
      rfl
    rw [hfront, hend, List.append_nil] at h
    obtain ⟨hrev, hl⟩ := List.append_inj h (List.length_reverse)
    exact ⟨hl, length_le_one_of_reverse_eq (List.nodup_append.mp hn).1 hrev, hall⟩
  · rintro ⟨rfl, hshort, hall⟩
    match page with
    | [] => simp
    | [a] => simp [hall a]
    | _ :: _ :: _ => simp at hshort

/-! ## Page after page -/

variable (last) in
/-- The list after page `0`, and after each of the next `k` pages. -/
def stacked (pages : Nat → List α) : Nat → List α
  | 0 => (pages 0).foldl (place last false) []
  | k + 1 => (pages (k + 1)).foldl (place last true) (stacked pages k)

/-- The list in order: each later page before the earlier ones. -/
def inOrder (pages : Nat → List α) : Nat → List α
  | 0 => pages 0
  | k + 1 => pages (k + 1) ++ inOrder pages k

variable {pages : Nat → List α} {k : Nat}

theorem length_stacked : (stacked last pages k).length = (inOrder pages k).length := by
  induction k with
  | zero => simp [stacked, inOrder, foldl_place_end]
  | succ k ih =>
    have hcount := List.length_eq_length_filter_add (l := pages (k + 1)) last
    simp only [stacked, inOrder, foldl_place_front, List.length_append, List.length_reverse, ih]
    omega

theorem inOrder_ne_nil (hne : pages 0 ≠ []) : inOrder pages k ≠ [] := by
  induction k with
  | zero => exact hne
  | succ k ih =>
    intro h
    exact ih (List.append_eq_nil_iff.mp h).2

/-- **When the stacked pages are in order**: exactly when every page after the first is empty or
a single element that may go in front. -/
theorem stacked_eq_iff (hn : (inOrder pages k).Nodup) (hne : pages 0 ≠ []) :
    stacked last pages k = inOrder pages k ↔
      ∀ i, 0 < i → i ≤ k → (pages i).length ≤ 1 ∧ ∀ a ∈ pages i, last a = false := by
  induction k with
  | zero =>
    refine iff_of_true (by simp [stacked, inOrder, foldl_place_end]) ?_
    intro i hpos hle
    omega
  | succ k ih =>
    have hrest : (inOrder pages k).Nodup := (List.nodup_append.mp hn).2.1
    rw [stacked, inOrder, foldl_place_front_eq_iff hn length_stacked (inOrder_ne_nil hne),
      ih hrest]
    constructor
    · rintro ⟨hbefore, hlast⟩ i hpos hle
      rcases Nat.lt_or_eq_of_le hle with hlt | rfl
      · exact hbefore i hpos (Nat.le_of_lt_succ hlt)
      · exact hlast
    · intro hall
      exact ⟨fun i hpos hle => hall i hpos (Nat.le_succ_of_le hle),
        hall (k + 1) k.succ_pos le_rfl⟩

/-- The page `i` of a list that is read from its end. -/
def chunk (L : Nat) (newest : List α) (i : Nat) : List α := ((newest.drop (i * L)).take L).reverse

/-- The pages of a list in order are its end, in order. -/
theorem inOrder_chunk {L : Nat} {newest : List α} :
    inOrder (chunk L newest) k = (newest.take ((k + 1) * L)).reverse := by
  induction k with
  | zero => simp [inOrder, chunk]
  | succ k ih =>
    rw [inOrder, ih, chunk, ← List.reverse_append, Nat.succ_mul (k + 1) L, List.take_add]

theorem length_chunk {L : Nat} {newest : List α} {i : Nat} :
    (chunk L newest i).length = min L (newest.length - i * L) := by
  rw [chunk, List.length_reverse, List.length_take, List.length_drop]

end Placement
