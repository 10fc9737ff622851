import Mathlib

/-!
# Paging through a list by its keys

A list is read newest first in pages of `L`, and the next page is asked for by the key of the last
element seen: a strict cursor. Elements of one key come in any order, which may differ from query
to query. `pages_complete_iff` says exactly when such a walk shows every element: when no page is
cut between two elements of one key. If one is, the elements behind the cut are skipped for good,
because the cursor already excludes them.

The sorted list of keys does not depend on the order chosen (`IsOrder.keys`), so the condition is
about the list alone.
-/

set_option autoImplicit false

namespace Paging

variable {α τ : Type}

/-- No two elements of one key stand on the two sides of a page boundary. -/
def NoTieAtCut (L : Nat) (ks : List τ) : Prop :=
  ∀ k, 0 < k → k * L < ks.length → ks[k * L - 1]? ≠ ks[k * L]?

theorem noTieAtCut_of_length_le {L : Nat} {ks : List τ} (h : ks.length ≤ L) : NoTieAtCut L ks := by
  intro k hk hlt
  have : 1 * L ≤ k * L := Nat.mul_le_mul_right L hk
  omega

/-- The first cut, and the cuts of what comes after it. -/
theorem noTieAtCut_iff {L : Nat} {ks : List τ} (hL : 0 < L) (h : L < ks.length) :
    NoTieAtCut L ks ↔ ks[L - 1]? ≠ ks[L]? ∧ NoTieAtCut L (ks.drop L) := by
  have hshift : ∀ k, 0 < k → L + (k * L - 1) = (k + 1) * L - 1 ∧ L + k * L = (k + 1) * L :=
    fun k hk => by
      have : 0 < k * L := Nat.mul_pos hk hL
      rw [Nat.succ_mul]
      omega
  constructor
  · intro hn
    refine ⟨by simpa using hn 1 Nat.one_pos (by simpa using h), fun k hk hlt => ?_⟩
    rw [List.getElem?_drop, List.getElem?_drop, (hshift k hk).1, (hshift k hk).2]
    rw [List.length_drop] at hlt
    exact hn (k + 1) k.succ_pos (by have := (hshift k hk).2; omega)
  · rintro ⟨hfirst, hrest⟩ k hk hlt
    obtain ⟨j, rfl⟩ := Nat.exists_eq_succ_of_ne_zero hk.ne'
    rcases Nat.eq_zero_or_pos j with rfl | hj
    · simpa using hfirst
    · have := hrest j hj (by
        rw [List.length_drop]
        have := (hshift j hj).2
        simp only [Nat.succ_eq_add_one] at hlt
        omega)
      rwa [List.getElem?_drop, List.getElem?_drop, (hshift j hj).1, (hshift j hj).2] at this

/-- A page that leaves something out has a last element. -/
theorem exists_getLast?_take {L : Nat} {s : List α} (hL : 0 < L) (hlong : L < s.length) :
    ∃ last, (s.take L).getLast? = some last := by
  cases hq : (s.take L).getLast? with
  | some last => exact ⟨last, rfl⟩
  | none =>
    have := congrArg List.length (List.getLast?_eq_none_iff.mp hq)
    simp only [List.length_take, List.length_nil] at this
    omega

/-- The last element of a full page. -/
theorem getElem?_of_getLast?_take {L : Nat} {s : List α} {last : α} (hlong : L < s.length)
    (hlast : (s.take L).getLast? = some last) : s[L - 1]? = some last := by
  have hL : L ≠ 0 := by
    rintro rfl
    simp at hlast
  rw [List.getLast?_eq_getElem?, List.length_take, Nat.min_eq_left hlong.le,
    List.getElem?_take_of_lt (by omega)] at hlast
  exact hlast

variable [LinearOrder τ] (key : α → τ)

/-- `s` lists the elements of `l`, newest first. -/
structure IsOrder (l s : List α) : Prop where
  perm : s.Perm l
  sorted : s.Pairwise fun a b => key b ≤ key a

/-- What a query with a cursor selects. -/
def below (c : Option τ) (a : α) : Bool := c.all fun c => key a < c

/-- The keys, newest first. -/
def newest (l : List α) : List τ := (l.map key).insertionSort (· ≥ ·)

/-- The walk from the cursor `c`, the `i`-th query being answered in the order `order i`. -/
def pages (L : Nat) (order : Nat → List α → List α) (l : List α) :
    Nat → Nat → Option τ → Option (List (List α))
  | 0, _, _ => none
  | fuel + 1, i, c =>
    let s := order i (l.filter (below key c))
    if L < s.length then
      match (s.take L).getLast? with
      | some last => (pages L order l fuel (i + 1) (some (key last))).map (s.take L :: ·)
      | none => some [s.take L]
    else some [s]

variable {key} {L : Nat} {l s : List α} {c : Option τ}

theorem lt_of_below {a : α} {t : τ} (h : below key (some t) a = true) : key a < t := by
  simpa [below] using h

/-- A key that a cursor lets through is a cursor that lets less through. -/
theorem below_of_below {a b : α} (hb : below key c b = true)
    (ha : below key (some (key b)) a = true) : below key c a = true := by
  cases c with
  | none => rfl
  | some t => simpa [below] using (lt_of_below ha).trans (lt_of_below hb)

theorem IsOrder.keys (h : IsOrder key l s) : s.map key = newest key l := by
  have hperm : (s.map key).Perm (newest key l) :=
    (h.perm.map key).trans (List.perm_insertionSort _ _).symm
  have hanti : ∀ a b : τ, a ∈ s.map key → b ∈ newest key l → a ≥ b → b ≥ a → a = b :=
    fun a b _ _ hab hba => le_antisymm hba hab
  exact hperm.eq_of_pairwise hanti (List.pairwise_map.mpr h.sorted)
    (List.pairwise_insertionSort _ _)

/-- Where no two elements have one key, there is one order. -/
theorem IsOrder.unique {s' : List α} (h : IsOrder key l s) (h' : IsOrder key l s')
    (hd : (l.map key).Nodup) : s = s' := by
  apply (h.perm.trans h'.perm.symm).eq_of_pairwise ?_ h.sorted h'.sorted
  intro a b ha hb hab hba
  have ha : a ∈ l := h.perm.mem_iff.mp ha
  have hb : b ∈ l := h'.perm.mem_iff.mp hb
  exact List.inj_on_of_nodup_map hd ha hb (le_antisymm hba hab)

/-! ## One page -/

section Page

variable (ho : IsOrder key (l.filter (below key c)) s)
include ho

theorem IsOrder.mem_iff {a : α} : a ∈ s ↔ a ∈ l ∧ below key c a = true := by
  rw [ho.perm.mem_iff, List.mem_filter]

/-- A later cursor selects less: it is the key of something the earlier one selected. -/
theorem IsOrder.below_of_below {last a : α} (hlast : last ∈ s)
    (ha : below key (some (key last)) a = true) : below key c a = true :=
  Paging.below_of_below (ho.mem_iff.mp hlast).2 ha

/-- Everything on the page is at least as new as its last element. -/
theorem IsOrder.le_of_mem_take {last a : α} (hlast : (s.take L).getLast? = some last)
    (ha : a ∈ s.take L) : key last ≤ key a := by
  obtain ⟨pre, hpre⟩ := List.getLast?_eq_some_iff.mp hlast
  have hs : (pre ++ [last]).Pairwise fun a b => key b ≤ key a :=
    hpre ▸ ho.sorted.sublist (List.take_sublist L s)
  rw [hpre] at ha
  rcases List.mem_append.mp ha with ha | ha
  · exact (List.pairwise_append.mp hs).2.2 a ha last (List.mem_singleton_self last)
  · exact (List.mem_singleton.mp ha) ▸ le_refl _

/-- If the page is not cut inside a tie, the next query selects exactly what is behind it. -/
theorem IsOrder.rest {last : α} (hn : l.Nodup) (hlong : L < s.length)
    (hlast : (s.take L).getLast? = some last)
    (hcut : (s.map key)[L - 1]? ≠ (s.map key)[L]?) :
    IsOrder key (l.filter (below key (some (key last)))) (s.drop L) := by
  have hmem : last ∈ s := List.mem_of_mem_take (List.mem_of_getLast? hlast)
  have hget : s[L - 1]? = some last := getElem?_of_getLast?_take hlong hlast
  have hhead : key s[L] < key last := by
    obtain ⟨hlt, rfl⟩ := List.getElem?_eq_some_iff.mp hget
    have hL : L - 1 < L := by
      rcases Nat.eq_zero_or_pos L with rfl | hL
      · simp at hlast
      · omega
    refine lt_of_le_of_ne (List.pairwise_iff_getElem.mp ho.sorted _ _ hlt hlong hL) fun he => ?_
    simp only [List.getElem?_map, List.getElem?_eq_getElem hlt, List.getElem?_eq_getElem hlong,
      Option.map_some, ne_eq, Option.some.injEq] at hcut
    exact hcut he.symm
  have hdrop : ∀ a ∈ s.drop L, key a < key last := fun a ha => by
    have hs := ho.sorted.sublist (List.drop_sublist L s)
    rw [List.drop_eq_getElem_cons hlong] at ha hs
    rcases List.mem_cons.mp ha with rfl | ha
    · exact hhead
    · exact lt_of_le_of_lt ((List.pairwise_cons.mp hs).1 a ha) hhead
  refine ⟨(List.perm_ext_iff_of_nodup ?_ (hn.filter _)).mpr fun a => ?_,
    ho.sorted.sublist (List.drop_sublist L s)⟩
  · exact (ho.perm.nodup_iff.mpr (hn.filter _)).sublist (List.drop_sublist L s)
  · rw [List.mem_filter]
    constructor
    · intro ha
      exact ⟨(ho.mem_iff.mp (List.mem_of_mem_drop ha)).1, by
        simpa [below] using hdrop a ha⟩
    · rintro ⟨hal, hab⟩
      have has : a ∈ s := ho.mem_iff.mpr ⟨hal, ho.below_of_below hmem hab⟩
      rw [← List.take_append_drop L s] at has
      refine (List.mem_append.mp has).resolve_left fun ht => ?_
      simp only [below, Option.all_some, decide_eq_true_eq] at hab
      exact absurd hab (not_lt.mpr (ho.le_of_mem_take hlast ht))

end Page

/-- What a walk shows was there to be shown. -/
theorem pages_sound {order : Nat → List α → List α} (ho : ∀ i l, IsOrder key l (order i l))
    {fuel i : Nat} {ps : List (List α)} (h : pages key L order l fuel i c = some ps) :
    ∀ p ∈ ps, ∀ a ∈ p, a ∈ l ∧ below key c a = true := by
  induction fuel generalizing i c ps with
  | zero => simp [pages] at h
  | succ fuel ih =>
    have hs := ho i (l.filter (below key c))
    simp only [pages] at h
    split at h
    · split at h
      · rename_i last hlast
        obtain ⟨rest, hrest, rfl⟩ := Option.map_eq_some_iff.mp h
        have hmem : last ∈ order i (l.filter (below key c)) :=
          List.mem_of_mem_take (List.mem_of_getLast? hlast)
        intro p hp a ha
        rcases List.mem_cons.mp hp with rfl | hp
        · exact hs.mem_iff.mp (List.mem_of_mem_take ha)
        · obtain ⟨hal, hab⟩ := ih hrest p hp a ha
          exact ⟨hal, hs.below_of_below hmem hab⟩
      · cases h
        intro p hp a ha
        rw [List.mem_singleton.mp hp] at ha
        exact hs.mem_iff.mp (List.mem_of_mem_take ha)
    · cases h
      intro p hp a ha
      rw [List.mem_singleton.mp hp] at ha
      exact hs.mem_iff.mp ha

/-- The walk from `c` ends, and shows everything the cursor selects. -/
def Complete (key : α → τ) (L : Nat) (order : Nat → List α → List α) (l : List α) (i : Nat)
    (c : Option τ) : Prop :=
  ∃ fuel ps, pages key L order l fuel i c = some ps ∧
    ∀ a ∈ l, below key c a = true → ∃ p ∈ ps, a ∈ p

/-- **A walk by a strict cursor is complete exactly when no page is cut inside a tie**, whatever
order each query chooses among equal keys. -/
theorem pages_complete_iff {order : Nat → List α → List α} (hL : 0 < L)
    (ho : ∀ i l, IsOrder key l (order i l)) (hn : l.Nodup) (i : Nat) (c : Option τ) :
    Complete key L order l i c ↔ NoTieAtCut L (newest key (l.filter (below key c))) := by
  -- the induction is on how much the cursor still selects
  induction hlen : (l.filter (below key c)).length using Nat.strong_induction_on
    generalizing i c with
  | _ n ih =>
    have hs := ho i (l.filter (below key c))
    have hmap := hs.keys
    generalize hsdef : order i (l.filter (below key c)) = s at hs hmap
    have hslen : s.length = n := by rw [hs.perm.length_eq, hlen]
    have hsn : s.Nodup := hs.perm.nodup_iff.mpr (hn.filter _)
    rw [← hmap]
    by_cases hshort : s.length ≤ L
    · refine iff_of_true ⟨1, [s], ?_, fun a ha hb => ?_⟩
        (noTieAtCut_of_length_le (by simpa using hshort))
      · simp [pages, hsdef, Nat.not_lt.mpr hshort]
      · exact ⟨s, List.mem_singleton_self s, hs.mem_iff.mpr ⟨ha, hb⟩⟩
    · have hlong : L < s.length := Nat.lt_of_not_le hshort
      obtain ⟨last, hlast⟩ := exists_getLast?_take hL hlong
      have hstep : ∀ fuel, pages key L order l (fuel + 1) i c =
          (pages key L order l fuel (i + 1) (some (key last))).map (s.take L :: ·) := fun fuel => by
        simp only [pages, hsdef, hlong, if_true, hlast]
      rw [noTieAtCut_iff hL (by simpa using hlong)]
      by_cases hcut : (s.map key)[L - 1]? ≠ (s.map key)[L]?
      · -- nothing is skipped: what is left is the rest of the page's own order
        have hrest := hs.rest hn hlong hlast hcut
        have hlt : (l.filter (below key (some (key last)))).length < n := by
          rw [← hrest.perm.length_eq, List.length_drop]; omega
        have hih := ih _ hlt (i + 1) (some (key last)) rfl
        rw [← hrest.keys, List.map_drop] at hih
        rw [← hih]
        refine ⟨fun ⟨fuel, ps, hps, hall⟩ => ⟨hcut, ?_⟩, fun ⟨_, fuel, ps, hps, hall⟩ => ?_⟩
        · cases fuel with
          | zero => simp [pages] at hps
          | succ fuel =>
            rw [hstep] at hps
            obtain ⟨rest, hr, rfl⟩ := Option.map_eq_some_iff.mp hps
            refine ⟨fuel, rest, hr, fun a ha hab => ?_⟩
            have has : a ∈ s.drop L := hrest.mem_iff.mpr ⟨ha, hab⟩
            obtain ⟨p, hp, hap⟩ := hall a ha (hs.mem_iff.mp (List.mem_of_mem_drop has)).2
            rcases List.mem_cons.mp hp with rfl | hp
            · exact absurd has (List.disjoint_take_drop hsn le_rfl hap)
            · exact ⟨p, hp, hap⟩
        · refine ⟨fuel + 1, s.take L :: ps, by rw [hstep, hps]; rfl, fun a ha hab => ?_⟩
          have has : a ∈ s := hs.mem_iff.mpr ⟨ha, hab⟩
          rw [← List.take_append_drop L s] at has
          rcases List.mem_append.mp has with ht | hd
          · exact ⟨_, List.mem_cons_self, ht⟩
          · obtain ⟨hal, hb⟩ := hrest.mem_iff.mp hd
            obtain ⟨p, hp, hap⟩ := hall a hal hb
            exact ⟨p, List.mem_cons_of_mem _ hp, hap⟩
      · -- the first element behind the cut has the cursor's own key, and is never shown
        refine iff_of_false ?_ fun h => hcut h.1
        rintro ⟨fuel, ps, hps, hall⟩
        obtain ⟨hlt, hlasteq⟩ := List.getElem?_eq_some_iff.mp (getElem?_of_getLast?_take hlong hlast)
        have hkey : key s[L] = key last := by
          simp only [List.getElem?_map, List.getElem?_eq_getElem hlt,
            List.getElem?_eq_getElem hlong, Option.map_some, ne_eq, Option.some.injEq,
            not_not] at hcut
          rw [← hlasteq, hcut]
        obtain ⟨hmem, hb⟩ := hs.mem_iff.mp (List.getElem_mem hlong)
        cases fuel with
        | zero => simp [pages] at hps
        | succ fuel =>
          rw [hstep] at hps
          obtain ⟨rest, hr, rfl⟩ := Option.map_eq_some_iff.mp hps
          obtain ⟨p, hp, hap⟩ := hall _ hmem hb
          rcases List.mem_cons.mp hp with rfl | hp
          · have hd : s[L] ∈ s.drop L := by
              rw [List.drop_eq_getElem_cons hlong]; exact List.mem_cons_self
            exact List.disjoint_take_drop hsn le_rfl hap hd
          · have := (pages_sound ho hr p hp _ hap).2
            simp [below, hkey] at this

end Paging
