import NexusChat.Core.RateLimiter

/-!
# What the limiter decides

With every time recorded once and Redis on the same clock, the sorted set of a key is the calls on
the key that the last one's window holds (`Mirrors`): a call prunes what is older, an expired key
has nothing younger, and other keys are other sets. So a call counts exactly the earlier calls of
its own window, and `check_rate_limit` is the limiter that `Window.Admits` describes.
-/

set_option autoImplicit false

namespace NexusChat

namespace RateLimiter

/-- The recorded times of the calls on a key, newest first. -/
def State.times (s : State) (key : String) : List ℚ := (s.on key).map fun e => e.1.now

/-- A call after all the others, on one clock with Redis, with the limit and the window of its
key. -/
structure Timed (s : State) (c : Call) : Prop where
  nonneg : 0 ≤ c.now
  clock : c.clock = c.now
  later : ∀ e ∈ s.calls, e.1.now < c.now
  window : 0 < c.windowSeconds
  own : ∀ e ∈ s.on c.key, e.1.limit = c.limit ∧ e.1.windowSeconds = c.windowSeconds

instance (s : State) (c : Call) : Decidable (Timed s c) :=
  decidable_of_iff (0 ≤ c.now ∧ c.clock = c.now ∧ (∀ e ∈ s.calls, e.1.now < c.now) ∧
      0 < c.windowSeconds ∧
      ∀ e ∈ s.on c.key, e.1.limit = c.limit ∧ e.1.windowSeconds = c.windowSeconds)
    ⟨fun h => ⟨h.1, h.2.1, h.2.2.1, h.2.2.2.1, h.2.2.2.2⟩,
      fun h => ⟨h.1, h.2, h.3, h.4, h.5⟩⟩

/-- The set of a key holds the calls on it that are in the window of the last one, and its
deadline is the last one's. -/
structure Mirrors (fmt : FloatFormat) (key : String) (s : State) : Prop where
  nonneg : ∀ y ∈ s.times key, 0 ≤ y
  sorted : (s.times key).Pairwise (· > ·)
  unused : s.on key = [] → s.store.get? key = none
  used : ∀ c ok rest, s.on key = (c, ok) :: rest → ∃ e, s.store.get? key = some e ∧
    e.deadline = c.now + (c.windowSeconds + 1) ∧
    ∀ m y, e.members.get? m = some y ↔ m = fmt.str y ∧ y ∈ s.times key ∧ c.windowStart < y

section Runs

variable {fmt : FloatFormat} {s s' : State} {c : Call} {key : String}

theorem times_step_of_ne (h : s.step fmt c = some s') (hkey : c.key ≠ key) :
    s'.times key = s.times key := by
  rw [State.times, on_step_of_ne h hkey]
  rfl

theorem times_step (h : s.step fmt c = some s') : s'.times c.key = c.now :: s.times c.key := by
  rw [State.times, on_step h]
  rfl

/-- The calls on a key were made before. -/
theorem Timed.lt_now (h : Timed s c) {y : ℚ} (hy : y ∈ s.times key) : y < c.now := by
  obtain ⟨e, he, rfl⟩ := List.mem_map.mp hy
  exact h.later e (List.mem_filter.mp he).1

theorem mirrors_init : Mirrors fmt key .init where
  nonneg := by
    intro y hy
    cases hy
  sorted := .nil
  unused := fun _ => rfl
  used := by
    intro c ok rest h
    cases h

/-- **What a call counts**: the calls on its key that its window holds. -/
theorem Mirrors.get?_pruned (h : Mirrors fmt c.key s) (ht : Timed s c) {m : String} {y : ℚ} :
    (c.pruned s.store).get? m = some y ↔
      m = fmt.str y ∧ y ∈ s.times c.key ∧ c.windowStart < y := by
  cases hon : s.on c.key with
  | nil =>
    have htimes : s.times c.key = [] := by rw [State.times, hon]; rfl
    rw [Call.pruned, Store.members, h.unused hon, htimes]
    simp [zremrangebyscore, Dict.get?_filter]
  | cons e rest =>
    obtain ⟨c₀, ok⟩ := e
    obtain ⟨e, he, hdeadline, hmembers⟩ := h.used c₀ ok rest hon
    have hmem : (c₀, ok) ∈ s.on c.key := by rw [hon]; exact List.mem_cons_self
    have hwindow : c₀.windowSeconds = c.windowSeconds := (ht.own _ hmem).2
    have hbefore : c₀.now < c.now := ht.later _ (List.mem_filter.mp hmem).1
    have hstart : c₀.windowStart < c.windowStart := by
      rw [Call.windowStart, Call.windowStart, hwindow]
      linarith
    rw [Call.pruned, Store.members, he]
    dsimp only
    split
    · rw [zremrangebyscore, Dict.get?_filter, Option.filter_eq_some_iff, hmembers]
      simp only [Bool.not_eq_true', Bool.and_eq_false_iff, decide_eq_false_iff_not, not_le]
      constructor
      · rintro ⟨⟨hm, hy, -⟩, hrange⟩
        exact ⟨hm, hy, hrange.resolve_left (not_lt.mpr (h.nonneg y hy))⟩
      · rintro ⟨hm, hy, hin⟩
        exact ⟨⟨hm, hy, hstart.trans hin⟩, Or.inr hin⟩
    · -- the key has expired, and the last call on it is already too old
      rename_i hexpired
      refine iff_of_false (by simp [zremrangebyscore, Dict.get?_filter]) ?_
      rintro ⟨-, hy, hin⟩
      have hlast : y ≤ c₀.now := by
        have hsorted := h.sorted
        rw [State.times, hon, List.map_cons] at hsorted hy
        rcases List.mem_cons.mp hy with rfl | hy
        · exact le_refl _
        · exact le_of_lt ((List.pairwise_cons.mp hsorted).1 y hy)
      rw [hdeadline, ht.clock, not_lt, hwindow] at hexpired
      rw [Call.windowStart] at hin
      linarith

/-- **How many a call counts.** -/
theorem Mirrors.size_pruned (h : Mirrors fmt c.key s) (ht : Timed s c) :
    (c.pruned s.store).size = (s.times c.key).countP fun y => c.windowStart < y := by
  have hnodup : (((s.times c.key).filter fun y => c.windowStart < y).map fun y =>
      (fmt.str y, y)).Nodup := by
    refine List.Nodup.map (fun x y hxy => (Prod.ext_iff.mp hxy).2) (List.Nodup.filter _ ?_)
    exact h.sorted.imp fun hlt => ne_of_gt hlt
  have hperm : (c.pruned s.store).entries.Perm
      (((s.times c.key).filter fun y => c.windowStart < y).map fun y => (fmt.str y, y)) := by
    refine (List.perm_ext_iff_of_nodup (c.pruned s.store).nodup.of_map hnodup).mpr ?_
    rintro ⟨m, y⟩
    rw [Dict.mem_entries, h.get?_pruned ht, List.mem_map]
    constructor
    · rintro ⟨rfl, hy, hin⟩
      exact ⟨y, List.mem_filter.mpr ⟨hy, by simpa using hin⟩, rfl⟩
    · rintro ⟨y', hy', heq⟩
      cases heq
      obtain ⟨hy, hin⟩ := List.mem_filter.mp hy'
      exact ⟨rfl, hy, by simpa using hin⟩
  have hsize : (c.pruned s.store).size = (c.pruned s.store).entries.length := rfl
  rw [hsize, hperm.length_eq, List.length_map, List.countP_eq_length_filter]

/-- A call on another key. -/
theorem Mirrors.step_of_ne (h : Mirrors fmt key s) (hs : s.step fmt c = some s')
    (hkey : c.key ≠ key) : Mirrors fmt key s' := by
  refine ⟨?_, ?_, ?_, ?_⟩
  · rw [times_step_of_ne hs hkey]
    exact h.nonneg
  · rw [times_step_of_ne hs hkey]
    exact h.sorted
  · rw [on_step_of_ne hs hkey, get?_step_of_ne hs hkey]
    exact h.unused
  · rw [on_step_of_ne hs hkey, get?_step_of_ne hs hkey, times_step_of_ne hs hkey]
    exact h.used

theorem Mirrors.step (h : Mirrors fmt c.key s) (ht : Timed s c) (hs : s.step fmt c = some s') :
    Mirrors fmt c.key s' where
  nonneg := by
    rw [times_step hs]
    exact List.forall_mem_cons.mpr ⟨ht.nonneg, h.nonneg⟩
  sorted := by
    rw [times_step hs]
    exact List.pairwise_cons.mpr ⟨fun y hy => ht.lt_now hy, h.sorted⟩
  unused := by
    rw [on_step hs]
    intro hnil
    cases hnil
  used := by
    rw [on_step hs, get?_step hs, times_step hs]
    intro c' ok rest hcons
    cases hcons
    refine ⟨_, rfl, by rw [ht.clock], fun m y => ?_⟩
    have hnow : c.windowStart < c.now := by
      rw [Call.windowStart]
      exact sub_lt_self _ (by exact_mod_cast ht.window)
    rw [Dict.get?_set, List.mem_cons]
    split
    · rename_i hm
      rw [Option.some.injEq]
      constructor
      · rintro rfl
        exact ⟨hm, Or.inl rfl, hnow⟩
      · rintro ⟨hy, hmem, -⟩
        have hpos : 0 ≤ y := hmem.elim (fun he => he ▸ ht.nonneg) (h.nonneg y)
        exact fmt.inj ht.nonneg hpos (hm.symm.trans hy)
    · rename_i hm
      rw [h.get?_pruned ht]
      constructor
      · rintro ⟨hy, hmem, hin⟩
        exact ⟨hy, Or.inr hmem, hin⟩
      · rintro ⟨hy, hmem, hin⟩
        refine ⟨hy, hmem.resolve_left fun he => hm ?_, hin⟩
        rw [hy, he]

/-- **The set of every key mirrors its calls, throughout.** -/
theorem mirrors (hr : Reach (State.step fmt) Timed .init s) (key : String) :
    Mirrors fmt key s :=
  hr.invariant (I := fun s => Mirrors fmt key s) mirrors_init fun s c s' h ht hs => by
    by_cases hkey : c.key = key
    · subst hkey
      exact h.step ht hs
    · exact h.step_of_ne hs hkey

theorem isOk_checkRateLimit :
    (c.checkRateLimit fmt s.store).1.isOk = decide ((c.pruned s.store).size < c.limit) := by
  rw [Call.checkRateLimit]
  dsimp only
  split
  · rename_i hfull
    rw [decide_eq_false (Nat.not_lt.mpr hfull)]
    rfl
  · rename_i hroom
    rw [decide_eq_true (Nat.lt_of_not_le hroom)]
    rfl

/-- The limiter that is implemented is the one that is meant. -/
theorem admits_of_mirrors (h : Mirrors fmt c.key s) (ht : Timed s c) :
    (c.checkRateLimit fmt s.store).1.isOk = true ↔
      Window.Admits c.limit (c.windowSeconds : ℚ) c.now (s.times c.key) := by
  rw [isOk_checkRateLimit, decide_eq_true_eq, h.size_pruned ht]
  exact Iff.rfl

/-- **The rate limiter is a sliding window**: a call is allowed if and only if fewer than its limit
of the earlier calls on its key, allowed or denied, are later than its window's start. -/
theorem sliding_window (hr : Reach (State.step fmt) Timed .init s) (ht : Timed s c) :
    (c.checkRateLimit fmt s.store).1.isOk = true ↔
      (s.on c.key).countP (fun e => c.now - c.windowSeconds < e.1.now) < c.limit := by
  rw [admits_of_mirrors (mirrors hr c.key) ht, Window.Admits, State.times, List.countP_map]
  exact Iff.rfl

/-! ## When to come back -/

/-- A denied call is told to come back after a second. -/
theorem seconds_eq_one {e : HTTPException} {seconds : Int}
    (hdenied : (c.checkRateLimit fmt s.store).1 = .error e)
    (hheader : e.headers = [("Retry-After", toString seconds)]) : seconds = 1 := by
  rw [Call.checkRateLimit] at hdenied
  dsimp only at hdenied
  split at hdenied
  · cases hdenied
    rw [Call.retryAfter_eq_one] at hheader
    simp only [List.cons.injEq, Prod.mk.injEq, true_and, and_true] at hheader
    exact (Int.repr_injective hheader).symm
  · cases hdenied

/-- The calls on a key, while calls are made on other keys only. -/
theorem on_wait {t : State} (hwait : Reach (State.step fmt)
    (fun s c => Timed s c ∧ c.key ≠ key) s t) : t.on key = s.on key :=
  hwait.invariant (I := fun t => t.on key = s.on key) rfl fun _ _ _ h hc hs =>
    (on_step_of_ne hs hc.2).trans h

/-- **When the time to wait that a denied call is told is long enough**: if the window is a second,
or the rest of the window holds so few of the earlier calls that the denied one still fits. -/
theorem allowed_after_iff {t : State} {c' : Call} {e : HTTPException} {seconds : Int}
    (hr : Reach (State.step fmt) Timed .init s) (hc : Timed s c) (hlimit : 0 < c.limit)
    (hdenied : (c.checkRateLimit fmt s.store).1 = .error e)
    (hheader : e.headers = [("Retry-After", toString seconds)]) (hs : s.step fmt c = some s')
    (hwait : Reach (State.step fmt) (fun s d => Timed s d ∧ d.key ≠ c.key) s' t)
    (hc' : Timed t c') (hkey : c'.key = c.key) (hnow : c'.now = c.now + seconds) :
    (c'.checkRateLimit fmt t.store).1.isOk = true ↔ c.windowSeconds = 1 ∨
      (s.on c.key).countP (fun e => c.now + 1 - c.windowSeconds < e.1.now) + 1 < c.limit := by
  obtain rfl := seconds_eq_one hdenied hheader
  have hreach : Reach (State.step fmt) Timed .init t :=
    hwait.invariant (I := fun t => Reach (State.step fmt) Timed .init t) (hr.tail hc hs)
      fun _ _ _ h hd hs => h.tail hd.1 hs
  -- nothing was called under the key since, so the denied call is the last one on record
  have hon : t.on c'.key = (c, decide ((c.pruned s.store).size < c.limit)) :: s.on c.key := by
    rw [hkey, on_wait hwait, on_step hs]
  have htimes : t.times c'.key = c.now :: s.times c.key := by
    rw [State.times, hon]
    rfl
  obtain ⟨hsame, hwindow⟩ := hc'.own _ (by rw [hon]; exact List.mem_cons_self)
  rw [admits_of_mirrors (mirrors hreach c'.key) hc', htimes, ← hsame, ← hwindow, hnow]
  have hW : 1 ≤ c.windowSeconds := hc.window
  rcases hW.eq_or_lt with hone | hlong
  · -- the window begins with the denied call, and excludes it
    refine iff_of_true (Window.admits_of_le hlimit fun x hx => ?_) (Or.inl hone.symm)
    have hlast : x ≤ c.now := by
      rcases List.mem_cons.mp hx with rfl | hx
      · exact le_refl _
      · exact le_of_lt (hc.lt_now hx)
    rw [← hone]
    linarith
  · have hin : c.now + (1 : Int) - c.windowSeconds < c.now := by
      have hlong : ((1 : Int) : ℚ) < c.windowSeconds := by exact_mod_cast hlong
      linarith
    have hcount : (s.times c.key).countP (fun x => c.now + (1 : Int) - c.windowSeconds < x) =
        (s.on c.key).countP fun e => c.now + 1 - c.windowSeconds < e.1.now := by
      rw [State.times, List.countP_map, Int.cast_one]
      rfl
    rw [Window.admits_cons_of_lt hin, hcount]
    simp only [hlong.ne', false_or]

end Runs

/-! ## Two frames in a minute -/

set_option maxRecDepth 20000 in
/-- A minute after the first of two frames a third is allowed: the first is not in the window. -/
theorem sliding_window_minute : ∃ s, Reach (State.step Sample.format) Timed .init s ∧
    Timed s (Sample.frame 2 60) ∧
    (((Sample.frame 2 60).checkRateLimit Sample.format s.store).1.isOk = true ↔
      (s.on "ratelimit:ws:1").countP (fun e => (60 : ℚ) - ((60 : Int) : ℚ) < e.1.now) < 2) ∧
    (s.on "ratelimit:ws:1").countP (fun e => (60 : ℚ) - ((60 : Int) : ℚ) < e.1.now) = 1 := by
  have hrun : ((replayIf (State.step Sample.format) (fun s c => decide (Timed s c))
      [Sample.frame 2 0, Sample.frame 2 1] .init).any fun s =>
        decide (Timed s (Sample.frame 2 60)) && decide ((s.on "ratelimit:ws:1").countP
          (fun e => (60 : ℚ) - ((60 : Int) : ℚ) < e.1.now) = 1)) = true := by
    decide +kernel
  obtain ⟨s, hs, htest⟩ := (Option.any_eq_true _ _).mp hrun
  obtain ⟨ht, hone⟩ := (Bool.and_eq_true _ _).mp htest
  have hr : Reach (State.step Sample.format) Timed .init s :=
    .of_replayIf (fun _ _ h => of_decide_eq_true h) .init hs
  exact ⟨s, hr, of_decide_eq_true ht, sliding_window hr (of_decide_eq_true ht),
    of_decide_eq_true hone⟩

/-- The call is denied, and told to come back after `seconds`. -/
def denies (seconds : Int) (s : State) (c : Call) : Bool :=
  match (c.checkRateLimit Sample.format s.store).1 with
  | .error e => e.headers = [("Retry-After", toString seconds)]
  | .ok _ => false

theorem exists_of_denies {seconds : Int} {s : State} {c : Call} (h : denies seconds s c = true) :
    ∃ e, (c.checkRateLimit Sample.format s.store).1 = .error e ∧
      e.headers = [("Retry-After", toString seconds)] := by
  unfold denies at h
  split at h
  · rename_i e he
    exact ⟨e, he, of_decide_eq_true h⟩
  · cases h

set_option maxRecDepth 20000 in
/-- With one frame a minute, a second frame is told to wait a second: 59 too few. -/
theorem allowed_after_frame : ∃ s s', Reach (State.step Sample.format) Timed .init s ∧
    denies 1 s (Sample.frame 1 1) = true ∧
    s.step Sample.format (Sample.frame 1 1) = some s' ∧
    (((Sample.frame 1 2).checkRateLimit Sample.format s'.store).1.isOk = true ↔
      (60 : Int) = 1 ∨ (s.on "ratelimit:ws:1").countP
        (fun e => (1 : ℚ) + 1 - ((60 : Int) : ℚ) < e.1.now) + 1 < 1) := by
  have hrun : ((replayIf (State.step Sample.format) (fun s c => decide (Timed s c))
      [Sample.frame 1 0] .init).any fun s =>
        decide (Timed s (Sample.frame 1 1)) && denies 1 s (Sample.frame 1 1) &&
          (s.step Sample.format (Sample.frame 1 1)).any fun s' =>
            decide (Timed s' (Sample.frame 1 2))) = true := by
    decide +kernel
  obtain ⟨s, hs, htest⟩ := (Option.any_eq_true _ _).mp hrun
  simp only [Bool.and_eq_true] at htest
  obtain ⟨⟨ht, hdenies⟩, hnext⟩ := htest
  obtain ⟨s', hs', ht'⟩ := (Option.any_eq_true _ _).mp hnext
  obtain ⟨e, hdenied, hheader⟩ := exists_of_denies hdenies
  have hr : Reach (State.step Sample.format) Timed .init s :=
    .of_replayIf (fun _ _ h => of_decide_eq_true h) .init hs
  exact ⟨s, s', hr, hdenies, hs', allowed_after_iff hr (of_decide_eq_true ht) (by decide) hdenied
    hheader hs' .init (of_decide_eq_true ht') rfl (by decide +kernel)⟩

set_option maxRecDepth 20000 in
/-- **A client that waits as it is told is denied again.** -/
theorem not_allowed_after : ¬∀ (fmt : FloatFormat) (s s' t : State) (c c' : Call)
    (e : HTTPException) (seconds : Int), Reach (State.step fmt) Timed .init s → Timed s c →
    0 < c.limit → (c.checkRateLimit fmt s.store).1 = .error e →
    e.headers = [("Retry-After", toString seconds)] → s.step fmt c = some s' →
    Reach (State.step fmt) (fun s d => Timed s d ∧ d.key ≠ c.key) s' t → Timed t c' →
    c'.key = c.key → c'.now = c.now + seconds →
    (c'.checkRateLimit fmt t.store).1.isOk = true := by
  intro hall
  have hrun : ((replayIf (State.step Sample.format) (fun s c => decide (Timed s c))
      [Sample.frame 1 0] .init).any fun s =>
        decide (Timed s (Sample.frame 1 1)) && denies 1 s (Sample.frame 1 1) &&
          (s.step Sample.format (Sample.frame 1 1)).any fun s' =>
            decide (Timed s' (Sample.frame 1 2)) && denies 1 s' (Sample.frame 1 2)) = true := by
    decide +kernel
  obtain ⟨s, hs, htest⟩ := (Option.any_eq_true _ _).mp hrun
  simp only [Bool.and_eq_true] at htest
  obtain ⟨⟨ht, hdenies⟩, hnext⟩ := htest
  obtain ⟨s', hs', htest'⟩ := (Option.any_eq_true _ _).mp hnext
  obtain ⟨ht', hagain⟩ := (Bool.and_eq_true _ _).mp htest'
  obtain ⟨e, hdenied, hheader⟩ := exists_of_denies hdenies
  obtain ⟨e', hdenied', -⟩ := exists_of_denies hagain
  have hr : Reach (State.step Sample.format) Timed .init s :=
    .of_replayIf (fun _ _ h => of_decide_eq_true h) .init hs
  have hok := hall Sample.format s s' s' (Sample.frame 1 1) (Sample.frame 1 2) e 1 hr
    (of_decide_eq_true ht) (by decide) hdenied hheader hs' .init (of_decide_eq_true ht') rfl
    (by decide +kernel)
  rw [hdenied'] at hok
  cases hok

end RateLimiter

end NexusChat
