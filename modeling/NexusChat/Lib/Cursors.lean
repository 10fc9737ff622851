import NexusChat.Lib.Paging

/-!
# Following a cursor through lists that grow

The walk of `Paging.pages` once more, but each query meets a list of its own: between two of them
elements with any keys may have been added. Elements newer than the cursor are missed then, so
nothing is said about completeness. What remains is the order: each page is below the cursor it was
asked for with, its own cursor is below that, and so no element comes twice (`walk_apart`), the
pages follow one another in order, and the walk ends if there are only finitely many elements to
find (`walk_ends`).
-/

set_option autoImplicit false

namespace Paging

variable {α τ : Type}

/-- A page: what it was asked for with, what it shows, newest first, and what comes next. -/
structure Page (α τ : Type) where
  cursor : Option τ
  items : List α
  next : Option τ

variable [LinearOrder τ] (key : α → τ)

/-- The page of at most `L` elements of a list. -/
def page (L : Nat) (order : List α → List α) (l : List α) (c : Option τ) : Page α τ :=
  let s := order (l.filter (below key c))
  { cursor := c
    items := if L < s.length then s.take L else s
    next := if L < s.length then (s.take L).getLast?.map key else none }

/-- The walk from the cursor `c`, where query `i` meets the list `l i`. -/
def walk (L : Nat) (order : Nat → List α → List α) (l : Nat → List α) :
    Nat → Nat → Option τ → Option (List (Page α τ))
  | 0, _, _ => none
  | fuel + 1, i, c =>
    let p := page key L (order i) (l i) c
    match p.next with
    | some next => (walk L order l fuel (i + 1) (some next)).map (p :: ·)
    | none => some [p]

variable {key} {L : Nat} {c : Option τ}

theorem length_below_lt {l : List α} {b : α} {t : τ} (hmem : b ∈ l) (hb : below key c b = true)
    (hkey : key b = t) :
    (l.filter (below key (some t))).length < (l.filter (below key c)).length := by
  subst hkey
  have hsub : l.filter (below key (some (key b))) =
      (l.filter (below key c)).filter (below key (some (key b))) := by
    rw [List.filter_filter]
    refine List.filter_congr fun a _ => ?_
    cases ha : below key (some (key b)) a with
    | false => rfl
    | true => rw [below_of_below hb ha]; rfl
  rw [hsub, List.length_filter_lt_length_iff_exists]
  exact ⟨b, List.mem_filter.mpr ⟨hmem, hb⟩, by simp [below]⟩

theorem mem_of_le {l : Nat → List α} (hkept : ∀ i, ∀ a ∈ l i, a ∈ l (i + 1)) {i j : Nat}
    (hij : i ≤ j) {a : α} (ha : a ∈ l i) : a ∈ l j := by
  induction j, hij using Nat.le_induction with
  | base => exact ha
  | succ j _ ih => exact hkept j a ih

/-! ## One page -/

section Page

variable {l : List α} {order : List α → List α}

theorem page_sublist :
    (page key L order l c).items.Sublist (order (l.filter (below key c))) := by
  simp only [page]
  split
  · exact List.take_sublist L _
  · exact List.Sublist.refl _

variable (ho : IsOrder key (l.filter (below key c)) (order (l.filter (below key c))))
include ho

theorem mem_page {a : α} (h : a ∈ (page key L order l c).items) :
    a ∈ l ∧ below key c a = true :=
  ho.mem_iff.mp (page_sublist.subset h)

theorem page_sorted : (page key L order l c).items.Pairwise fun a b => key b ≤ key a :=
  ho.sorted.sublist (page_sublist)

theorem page_nodup (hn : l.Nodup) : (page key L order l c).items.Nodup :=
  (ho.perm.nodup_iff.mpr (hn.filter _)).sublist (page_sublist)

/-- A page with a next cursor is full, and that cursor is its oldest key. -/
theorem page_next {t : τ} (h : (page key L order l c).next = some t) :
    (page key L order l c).items.length = L ∧
      (∃ a ∈ (page key L order l c).items, key a = t) ∧
      ∀ a ∈ (page key L order l c).items, t ≤ key a := by
  simp only [page] at h ⊢
  split at h
  · rename_i hlong
    obtain ⟨last, hlast, rfl⟩ := Option.map_eq_some_iff.mp h
    rw [if_pos hlong]
    refine ⟨by rw [List.length_take]; omega, ⟨last, List.mem_of_getLast? hlast, rfl⟩, ?_⟩
    exact fun a ha => ho.le_of_mem_take hlast ha
  · cases h

/-- **The next cursor is strictly older than the cursor of the request.** -/
theorem page_next_lt {t t₀ : τ} (h : (page key L order l c).next = some t) (hc : c = some t₀) :
    t < t₀ := by
  obtain ⟨-, ⟨a, ha, rfl⟩, -⟩ := page_next ho h
  have hb := (mem_page ho ha).2
  rw [hc] at hb
  exact lt_of_below hb

end Page

/-! ## The walk -/

section Walk

variable {order : Nat → List α → List α} {l : Nat → List α} {fuel i : Nat}
  {ps : List (Page α τ)}

/-- A walk is a page, and the walk from its next cursor if it has one. -/
theorem walk_cases (h : walk key L order l fuel i c = some ps) : ∃ fuel',
    fuel = fuel' + 1 ∧
      (((page key L (order i) (l i) c).next = none ∧ ps = [page key L (order i) (l i) c]) ∨
        ∃ t rest, (page key L (order i) (l i) c).next = some t ∧
          walk key L order l fuel' (i + 1) (some t) = some rest ∧
          ps = page key L (order i) (l i) c :: rest) := by
  cases fuel with
  | zero => cases h
  | succ fuel =>
    refine ⟨fuel, rfl, ?_⟩
    simp only [walk] at h
    split at h
    · rename_i t ht
      obtain ⟨rest, hrest, rfl⟩ := Option.map_eq_some_iff.mp h
      exact Or.inr ⟨t, rest, ht, hrest, rfl⟩
    · rename_i ht
      cases h
      exact Or.inl ⟨ht, rfl⟩

/-- What holds of every page holds of the pages of a walk. -/
theorem forall_walk {P : Page α τ → Prop} (hP : ∀ i c, P (page key L (order i) (l i) c))
    (h : walk key L order l fuel i c = some ps) : ∀ p ∈ ps, P p := by
  induction fuel generalizing i c ps with
  | zero => cases h
  | succ fuel ih =>
    obtain ⟨_, hfuel, ⟨-, rfl⟩ | ⟨t, rest, -, hrest, rfl⟩⟩ := walk_cases h
    · intro p hp
      rw [List.mem_singleton.mp hp]
      exact hP i c
    · cases hfuel
      intro p hp
      rcases List.mem_cons.mp hp with rfl | hp
      · exact hP i c
      · exact ih hrest p hp

variable (ho : ∀ i l, IsOrder key l (order i l))
include ho

/-- Whatever a walk shows is below the cursor it starts from. -/
theorem below_of_mem_walk (h : walk key L order l fuel i c = some ps) :
    ∀ p ∈ ps, ∀ a ∈ p.items, below key c a = true := by
  induction fuel generalizing i c ps with
  | zero => cases h
  | succ fuel ih =>
    have hpage := fun a => mem_page (L := L) (ho i ((l i).filter (below key c))) (a := a)
    obtain ⟨_, hfuel, ⟨-, rfl⟩ | ⟨t, rest, ht, hrest, rfl⟩⟩ := walk_cases h
    · intro p hp a ha
      rw [List.mem_singleton.mp hp] at ha
      exact (hpage a ha).2
    · cases hfuel
      intro p hp a ha
      rcases List.mem_cons.mp hp with rfl | hp
      · exact (hpage a ha).2
      · obtain ⟨-, ⟨last, hlast, rfl⟩, -⟩ := page_next (ho i _) ht
        exact below_of_below (hpage last hlast).2 (ih hrest p hp a ha)

/-- **Every page is strictly older than the pages before it.** -/
theorem walk_apart (h : walk key L order l fuel i c = some ps) :
    ps.Pairwise fun p q => ∀ a ∈ p.items, ∀ b ∈ q.items, key b < key a := by
  induction fuel generalizing i c ps with
  | zero => cases h
  | succ fuel ih =>
    obtain ⟨_, hfuel, ⟨-, rfl⟩ | ⟨t, rest, ht, hrest, rfl⟩⟩ := walk_cases h
    · exact List.pairwise_singleton _ _
    · cases hfuel
      obtain ⟨-, -, hoff⟩ := page_next (ho i _) ht
      refine List.pairwise_cons.mpr ⟨fun q hq a ha b hb => ?_, ih hrest⟩
      exact (lt_of_below (below_of_mem_walk ho hrest q hq b hb)).trans_le (hoff a ha)

/-- **What a walk shows is in order.** -/
theorem walk_sorted (h : walk key L order l fuel i c = some ps) :
    (ps.flatMap Page.items).Pairwise fun a b => key b ≤ key a := by
  rw [List.pairwise_flatMap]
  refine ⟨forall_walk (fun i c => page_sorted (ho i _)) h, ?_⟩
  exact (walk_apart ho h).imp fun hlt a ha b hb => (hlt a ha b hb).le

/-- **What a walk shows it shows once.** -/
theorem walk_nodup (hn : ∀ i, (l i).Nodup) (h : walk key L order l fuel i c = some ps) :
    (ps.flatMap Page.items).Nodup := by
  rw [List.Nodup, List.pairwise_flatMap]
  refine ⟨forall_walk (fun i c => page_nodup (ho i _) (hn i)) h, ?_⟩
  refine (walk_apart ho h).imp fun hlt a ha b hb hab => ?_
  exact absurd (hlt a ha b hb) (hab ▸ lt_irrefl _)

/-- **A walk ends** if elements are never taken away and only finitely many are ever below its
cursor: each page but the last puts one of them out of reach. -/
theorem walk_ends (hkept : ∀ i, ∀ a ∈ l i, a ∈ l (i + 1)) {n : Nat}
    (hbound : ∀ j, i ≤ j → ((l j).filter (below key c)).length ≤ n) :
    ∃ ps, walk key L order l (n + 1) i c = some ps := by
  induction n generalizing i c with
  | zero =>
    have hnone : (page key L (order i) (l i) c).next = none := by
      have hlen := hbound i (Nat.le_refl i)
      rw [← (ho i _).perm.length_eq] at hlen
      simp only [page]
      rw [if_neg (by omega)]
    exact ⟨[page key L (order i) (l i) c], by rw [walk]; simp only [hnone]⟩
  | succ n ih =>
    cases hnext : (page key L (order i) (l i) c).next with
    | none => exact ⟨[page key L (order i) (l i) c], by rw [walk]; simp only [hnext]⟩
    | some t =>
      obtain ⟨-, ⟨last, hlast, hkey⟩, -⟩ := page_next (ho i _) hnext
      obtain ⟨hmem, hb⟩ := mem_page (ho i _) hlast
      obtain ⟨rest, hrest⟩ := ih (i := i + 1) (c := some t) fun j hj => by
        have hless := length_below_lt (mem_of_le hkept (Nat.le_of_succ_le hj) hmem) hb hkey
        have := hbound j (by omega)
        omega
      exact ⟨page key L (order i) (l i) c :: rest, by
        rw [walk]
        simp only [hnext, hrest, Option.map_some]⟩

end Walk

end Paging
