import NexusChat.Lib.SortedSet
import NexusChat.Lib.Window
import NexusChat.Lib.Machine

/-!
# The rate limiter (`app/core/rate_limiter.py`)

A call prunes the sorted set of its key, counts it, adds its own entry and sets the key's expiry,
all in one transaction of Redis. The entry's member is the rendered time of the call, so two calls
with the same recorded time are one entry.

Times are the rational values of Python's floats. `now - window_seconds` is exact where it is not
negative, and a negative bound prunes nothing.
-/

set_option autoImplicit false

namespace NexusChat

/-- `f"{x}"` of a float that is not negative. -/
structure FloatFormat where
  str : ℚ → String
  inj : ∀ {x y : ℚ}, 0 ≤ x → 0 ≤ y → str x = str y → x = y

namespace RateLimiter

/-- A sorted set, and the time of Redis' clock at which its key expires. -/
structure Entry where
  members : Dict String ℚ
  deadline : ℚ

abbrev Store := Dict String Entry

/-- The members of a key that has not expired. -/
def Store.members (s : Store) (key : String) (clock : ℚ) : Dict String ℚ :=
  match s.get? key with
  | some e => if clock < e.deadline then e.members else ∅
  | none => ∅

/-- `zremrangebyscore(key, min, max)` -/
def zremrangebyscore (members : Dict String ℚ) (min max : ℚ) : Dict String ℚ :=
  members.filter fun e => !(decide (min ≤ e.2) && decide (e.2 ≤ max))

/-- `HTTPException(status_code, detail, headers)` -/
structure HTTPException where
  statusCode : Nat
  detail : String
  headers : List (String × String)

/-- One call of `check_rate_limit`: its arguments, the time it has recorded, and the time of
Redis' clock when its pipeline is executed. -/
structure Call where
  key : String
  limit : Nat
  windowSeconds : Int
  now : ℚ
  clock : ℚ
  deriving DecidableEq

namespace Call

variable (fmt : FloatFormat) (c : Call) (s : Store)

/-- `window_start` -/
def windowStart : ℚ := c.now - c.windowSeconds

/-- The set after its old entries are removed: what `zcard` counts. -/
def pruned : Dict String ℚ := zremrangebyscore (s.members c.key c.clock) 0 c.windowStart

/-- The store after the pipeline. -/
def executed : Store :=
  s.set c.key
    { members := (c.pruned s).set (fmt.str c.now) c.now
      deadline := c.clock + (c.windowSeconds + 1) }

/-- `int(x)` -/
def truncate (x : ℚ) : Int := if 0 ≤ x then ⌊x⌋ else ⌈x⌉

def retryAfter : Int := max 1 (truncate (c.windowSeconds - (c.now - c.windowStart)))

/-- `check_rate_limit` -/
def checkRateLimit : Except HTTPException Bool × Store :=
  let request_count := (c.pruned s).size
  (if c.limit ≤ request_count then
      .error
        { statusCode := 429
          detail := "Rate limit exceeded. Please slow down."
          headers := [("Retry-After", toString c.retryAfter)] }
    else .ok true,
    c.executed fmt s)

/-- `check_ws_rate_limit` -/
def checkWsRateLimit (user_id : String) (limit : Nat) (window_seconds : Int) (now clock : ℚ) :
    Call where
  key := "ratelimit:ws:" ++ user_id
  limit := limit
  windowSeconds := window_seconds
  now := now
  clock := clock

/-- Whoever is denied is told to come back after a second. -/
theorem retryAfter_eq_one : c.retryAfter = 1 := by
  have hzero : (c.windowSeconds : ℚ) - (c.now - c.windowStart) = 0 := by
    rw [windowStart]
    ring
  rw [retryAfter, hzero]
  rfl

end Call

/-- The keys of Redis, and every call so far with whether it was allowed, newest first. -/
structure State where
  store : Store
  calls : List (Call × Bool)

namespace State

def init : State := { store := ∅, calls := [] }

/-- Redis executes the pipeline of a call. -/
def step (fmt : FloatFormat) (s : State) (c : Call) : Option State :=
  let (r, store) := c.checkRateLimit fmt s.store
  some { store, calls := (c, r.isOk) :: s.calls }

/-- The calls on a key. -/
def on (s : State) (key : String) : List (Call × Bool) := s.calls.filter fun e => e.1.key = key

/-- The recorded times of the calls on a key that were allowed. -/
def allowed (s : State) (key : String) : List ℚ :=
  ((s.on key).filter fun e => e.2).map fun e => e.1.now

/-- The calls on the key all have this limit and this window. -/
def Uniform (s : State) (key : String) (limit : Nat) (window : Int) : Prop :=
  ∀ e ∈ s.on key, e.1.limit = limit ∧ e.1.windowSeconds = window

end State

/-- The recorded times of a key's calls do not decrease, and are not negative. -/
structure Ordered (s : State) (c : Call) : Prop where
  nonneg : 0 ≤ c.now
  recorded : ∀ e ∈ s.on c.key, e.1.now ≤ c.now

/-- The call will be counted by those after it: if its time is an entry already it is going to be
denied, and the key has not expired with an entry that is still in the window. -/
structure Counted (fmt : FloatFormat) (s : State) (c : Call) : Prop where
  entry : fmt.str c.now ∈ (c.pruned s.store).keys → c.limit ≤ (c.pruned s.store).size
  expiry : ∀ e ∈ s.store.get? c.key, e.deadline ≤ c.clock →
    ∀ x ∈ e.members.entries, x.2 ≤ c.windowStart

instance (s : State) (c : Call) : Decidable (Ordered s c) :=
  decidable_of_iff (0 ≤ c.now ∧ ∀ e ∈ s.on c.key, e.1.now ≤ c.now)
    ⟨fun h => ⟨h.1, h.2⟩, fun h => ⟨h.1, h.2⟩⟩

instance (fmt : FloatFormat) (s : State) (c : Call) : Decidable (Counted fmt s c) :=
  decidable_of_iff
    ((fmt.str c.now ∈ (c.pruned s.store).keys → c.limit ≤ (c.pruned s.store).size) ∧
      ∀ e ∈ s.store.get? c.key, e.deadline ≤ c.clock →
        ∀ x ∈ e.members.entries, x.2 ≤ c.windowStart)
    ⟨fun h => ⟨h.1, h.2⟩, fun h => ⟨h.1, h.2⟩⟩

section Runs

variable {fmt : FloatFormat} {s s' : State} {c : Call} {key : String} {limit : Nat} {window : Int}

/-! ### One call -/

theorem step_eq (h : s.step fmt c = some s') :
    s' = { store := c.executed fmt s.store
           calls := (c, decide ((c.pruned s.store).size < c.limit)) :: s.calls } := by
  simp only [State.step, Call.checkRateLimit, Option.some.injEq] at h
  rw [← h]
  by_cases hsize : c.limit ≤ (c.pruned s.store).size
  · rw [if_pos hsize, decide_eq_false (Nat.not_lt.mpr hsize)]
    rfl
  · rw [if_neg hsize, decide_eq_true (Nat.lt_of_not_le hsize)]
    rfl

theorem on_step_of_ne (h : s.step fmt c = some s') (hkey : c.key ≠ key) : s'.on key = s.on key := by
  rw [step_eq h, State.on, List.filter_cons_of_neg (by simpa using hkey)]
  rfl

theorem on_step (h : s.step fmt c = some s') :
    s'.on c.key = (c, decide ((c.pruned s.store).size < c.limit)) :: s.on c.key := by
  rw [step_eq h, State.on, List.filter_cons_of_pos (by simp)]
  rfl

/-- Only a call that is allowed adds to the times that were. -/
theorem allowed_step (h : s.step fmt c = some s') :
    s'.allowed c.key =
      if (c.pruned s.store).size < c.limit then c.now :: s.allowed c.key else s.allowed c.key := by
  rw [State.allowed, on_step h, List.filter_cons]
  by_cases hsize : (c.pruned s.store).size < c.limit
  · simp [hsize, State.allowed]
  · simp [hsize, State.allowed]

theorem get?_step_of_ne (h : s.step fmt c = some s') (hkey : c.key ≠ key) :
    s'.store.get? key = s.store.get? key := by
  rw [step_eq h]
  show (c.executed fmt s.store).get? key = _
  rw [Call.executed, Dict.get?_set, if_neg (Ne.symm hkey)]

theorem get?_step (h : s.step fmt c = some s') : s'.store.get? c.key =
    some { members := (c.pruned s.store).set (fmt.str c.now) c.now
           deadline := c.clock + (c.windowSeconds + 1) } := by
  rw [step_eq h]
  exact Dict.get?_set_self _ _ _

/-- A call that was allowed was made. -/
theorem exists_on_of_allowed {y : ℚ} (hy : y ∈ s.allowed key) : ∃ e ∈ s.on key, e.1.now = y := by
  obtain ⟨e, he, rfl⟩ := List.mem_map.mp hy
  exact ⟨e, (List.mem_filter.mp he).1, rfl⟩

/-! ### The invariant -/

/-- The times of the calls that were allowed are different, and each has its entry in the set, or
is older than the window of a call that has pruned it. -/
structure Tracked (fmt : FloatFormat) (key : String) (window : Int) (s : State) : Prop where
  sorted : (s.allowed key).Pairwise (· > ·)
  nonneg : ∀ y ∈ s.allowed key, 0 ≤ y
  present : ∀ y ∈ s.allowed key,
    (∃ e ∈ s.store.get? key, e.members.get? (fmt.str y) = some y) ∨
      ∃ e ∈ s.on key, y ≤ e.1.now - window

theorem tracked_init : Tracked fmt key window .init where
  sorted := .nil
  nonneg := by
    intro y hy
    cases hy
  present := by
    intro y hy
    cases hy

/-- The entries that a call prunes are those before its window. -/
theorem get?_pruned {e : Entry} {m : String} {y : ℚ} (he : s.store.get? c.key = some e)
    (hlive : c.clock < e.deadline) (hget : e.members.get? m = some y) (hy : c.windowStart < y) :
    (c.pruned s.store).get? m = some y := by
  rw [Call.pruned, Store.members, he]
  simp only [hlive, if_true, zremrangebyscore, Dict.get?_filter, hget, Option.filter_some,
    decide_eq_false (not_le.mpr hy), Bool.and_false, Bool.not_false]

/-- What a call counts holds every time of its window that was allowed. -/
theorem Tracked.counted (h : Tracked fmt c.key c.windowSeconds s) (hord : Ordered s c)
    (hcount : Counted fmt s c) {y : ℚ} (hy : y ∈ s.allowed c.key) (hwindow : c.windowStart < y) :
    (c.pruned s.store).get? (fmt.str y) = some y := by
  rcases h.present y hy with ⟨e, he, hget⟩ | ⟨e, he, hout⟩
  · have he : s.store.get? c.key = some e := he
    rcases lt_or_ge c.clock e.deadline with hlive | hexpired
    · exact get?_pruned he hlive hget hwindow
    · have hold := hcount.expiry e he hexpired _ (Dict.mem_entries.mpr hget)
      exact absurd hwindow (not_lt.mpr hold)
  · have hrec := hord.recorded e he
    rw [Call.windowStart] at hwindow
    linarith

/-- The window of the new call holds no more allowed times than it counts. -/
theorem Tracked.countP_le (h : Tracked fmt c.key c.windowSeconds s) (hord : Ordered s c)
    (hcount : Counted fmt s c) :
    (s.allowed c.key).countP (fun y => c.windowStart < y) ≤ (c.pruned s.store).size := by
  rw [List.countP_eq_length_filter, ← List.length_map (f := fmt.str)]
  refine Dict.length_le_size ?_ ?_
  · have hsorted := h.sorted.sublist (List.filter_sublist (p := fun y => c.windowStart < y))
    refine List.pairwise_map.mpr (List.Pairwise.imp_of_mem ?_ hsorted)
    intro x y hx hy hlt heq
    have hx := h.nonneg x (List.mem_filter.mp hx).1
    have hy := h.nonneg y (List.mem_filter.mp hy).1
    exact absurd (fmt.inj hx hy heq) (ne_of_gt hlt)
  · intro m hm
    obtain ⟨y, hy, rfl⟩ := List.mem_map.mp hm
    obtain ⟨hy, hwindow⟩ := List.mem_filter.mp hy
    exact ⟨y, h.counted hord hcount hy (by simpa using hwindow)⟩

/-- A call that is allowed is later than those before it. -/
theorem Tracked.lt_now (h : Tracked fmt c.key c.windowSeconds s) (hord : Ordered s c)
    (hcount : Counted fmt s c) (hW : 0 < c.windowSeconds)
    (hallowed : (c.pruned s.store).size < c.limit) {y : ℚ} (hy : y ∈ s.allowed c.key) :
    y < c.now := by
  obtain ⟨e, he, hnow⟩ := exists_on_of_allowed hy
  refine lt_of_le_of_ne (hnow ▸ hord.recorded e he) fun heq => ?_
  subst heq
  -- otherwise its time is an entry, and the call is denied
  have hW : (0 : ℚ) < c.windowSeconds := by exact_mod_cast hW
  have hget := h.counted hord hcount hy (by rw [Call.windowStart]; linarith)
  have hdenied := hcount.entry (Dict.mem_keys.mpr ⟨_, hget⟩)
  exact absurd hallowed (Nat.not_lt.mpr hdenied)

theorem Tracked.step_of_ne (h : Tracked fmt key window s) (hs : s.step fmt c = some s')
    (hkey : c.key ≠ key) : Tracked fmt key window s' := by
  have hallowed : s'.allowed key = s.allowed key := by
    rw [State.allowed, on_step_of_ne hs hkey]
    rfl
  refine ⟨?_, ?_, ?_⟩
  · rw [hallowed]
    exact h.sorted
  · rw [hallowed]
    exact h.nonneg
  · rw [hallowed, get?_step_of_ne hs hkey, on_step_of_ne hs hkey]
    exact h.present

theorem Tracked.step (h : Tracked fmt c.key c.windowSeconds s) (hord : Ordered s c)
    (hcount : Counted fmt s c) (hW : 0 < c.windowSeconds) (hs : s.step fmt c = some s') :
    Tracked fmt c.key c.windowSeconds s' := by
  have hold : ∀ y ∈ s.allowed c.key,
      (∃ e ∈ s'.store.get? c.key, e.members.get? (fmt.str y) = some y) ∨
        ∃ e ∈ s'.on c.key, y ≤ e.1.now - c.windowSeconds := by
    intro y hy
    rw [get?_step hs, on_step hs]
    rcases le_or_gt y c.windowStart with hout | hwindow
    · exact Or.inr ⟨_, List.mem_cons_self, hout⟩
    · refine Or.inl ⟨_, rfl, ?_⟩
      rw [Dict.get?_set]
      split
      · rename_i heq
        rw [fmt.inj (h.nonneg y hy) hord.nonneg heq]
      · exact h.counted hord hcount hy hwindow
  rcases Nat.lt_or_ge (c.pruned s.store).size c.limit with hallowed | hdenied
  · have hcons : s'.allowed c.key = c.now :: s.allowed c.key := by
      rw [allowed_step hs, if_pos hallowed]
    refine ⟨?_, ?_, ?_⟩
    · rw [hcons]
      exact List.pairwise_cons.mpr ⟨fun y hy => h.lt_now hord hcount hW hallowed hy, h.sorted⟩
    · rw [hcons]
      exact List.forall_mem_cons.mpr ⟨hord.nonneg, h.nonneg⟩
    · rw [hcons]
      refine List.forall_mem_cons.mpr ⟨Or.inl ?_, hold⟩
      rw [get?_step hs]
      exact ⟨_, rfl, Dict.get?_set_self _ _ _⟩
  · have hsame : s'.allowed c.key = s.allowed c.key := by
      rw [allowed_step hs, if_neg (Nat.not_lt.mpr hdenied)]
    exact ⟨hsame ▸ h.sorted, hsame ▸ h.nonneg, hsame ▸ hold⟩

theorem bounded_step (h : Tracked fmt c.key c.windowSeconds s)
    (hbound : Window.Bounded c.limit (c.windowSeconds : ℚ) (s.allowed c.key)) (hord : Ordered s c)
    (hcount : Counted fmt s c) (hs : s.step fmt c = some s') :
    Window.Bounded c.limit (c.windowSeconds : ℚ) (s'.allowed c.key) := by
  rw [allowed_step hs]
  split
  · rename_i hallowed
    exact hbound.cons (Nat.lt_of_le_of_lt (h.countP_le hord hcount) hallowed)
  · exact hbound

theorem Uniform.of_step (h : s'.Uniform key limit window) (hs : s.step fmt c = some s') :
    s.Uniform key limit window ∧
      (c.key = key → c.limit = limit ∧ c.windowSeconds = window) := by
  by_cases hkey : c.key = key
  · subst hkey
    rw [State.Uniform, on_step hs] at h
    obtain ⟨hc, hrest⟩ := List.forall_mem_cons.mp h
    exact ⟨hrest, fun _ => hc⟩
  · rw [State.Uniform, on_step_of_ne hs hkey] at h
    exact ⟨h, fun hk => absurd hk hkey⟩

/-- **No window holds more calls than the limit**, in every run in which each call is counted by
those after it. -/
theorem at_most_limit
    (hr : Reach (State.step fmt) (fun s c => Ordered s c ∧ Counted fmt s c) .init s)
    (huniform : s.Uniform key limit window) :
    Window.Bounded limit (window : ℚ) (s.allowed key) := by
  rcases le_or_gt window 0 with hW | hW
  · exact Window.bounded_of_nonpos (by exact_mod_cast hW) _
  have hinv : s.Uniform key limit window →
      Tracked fmt key window s ∧ Window.Bounded limit (window : ℚ) (s.allowed key) := by
    refine hr.invariant (I := fun s => s.Uniform key limit window →
      Tracked fmt key window s ∧ Window.Bounded limit (window : ℚ) (s.allowed key)) ?_ ?_
    · intro _
      exact ⟨tracked_init, Window.bounded_nil⟩
    · intro s c s' hI ⟨hord, hcount⟩ hs huniform
      obtain ⟨hbefore, hcall⟩ := Uniform.of_step huniform hs
      obtain ⟨htracked, hbound⟩ := hI hbefore
      by_cases hkey : c.key = key
      · obtain ⟨hlimit, hwindow⟩ := hcall hkey
        subst hkey
        subst hlimit
        subst hwindow
        exact ⟨htracked.step hord hcount hW hs, bounded_step htracked hbound hord hcount hs⟩
      · have hsame : s'.allowed key = s.allowed key := by
          rw [State.allowed, on_step_of_ne hs hkey]
          rfl
        exact ⟨htracked.step_of_ne hs hkey, hsame ▸ hbound⟩
  exact (hinv huniform).2

end Runs

/-! ## Calls at the same time -/

instance (s : State) (key : String) (limit : Nat) (window : Int) :
    Decidable (s.Uniform key limit window) :=
  inferInstanceAs (Decidable (∀ e ∈ s.on key, _))

namespace Sample

/-- A rendering by two counts. -/
def format : FloatFormat where
  str x := String.ofList (List.replicate x.num.natAbs 'n' ++ List.replicate x.den 'd')
  inj := by
    intro x y hx hy h
    have hlist := congrArg String.toList h
    rw [String.toList_ofList, String.toList_ofList] at hlist
    have hn := congrArg (List.count 'n') hlist
    have hd := congrArg (List.count 'd') hlist
    simp only [List.count_append, List.count_replicate] at hn hd
    have hx := Rat.num_nonneg.mpr hx
    have hy := Rat.num_nonneg.mpr hy
    refine Rat.ext ?_ ?_
    · have hn : x.num.natAbs = y.num.natAbs := by simpa using hn
      omega
    · simpa using hd

/-- User 1 sends a frame when it is `now`. -/
def frame (limit : Nat) (now : ℚ) : Call := Call.checkWsRateLimit "1" limit 60 now now

end Sample

/-- One frame is allowed, and a second later the next is not. -/
theorem at_most_limit_one : ∃ s,
    replayIf (State.step Sample.format)
      (fun s c => decide (Ordered s c ∧ Counted Sample.format s c))
      [Sample.frame 1 0, Sample.frame 1 1] .init = some s ∧
    s.allowed "ratelimit:ws:1" = [0] ∧
    Window.Bounded 1 ((60 : Int) : ℚ) (s.allowed "ratelimit:ws:1") := by
  have hrun : (replayIf (State.step Sample.format)
      (fun s c => decide (Ordered s c ∧ Counted Sample.format s c))
      [Sample.frame 1 0, Sample.frame 1 1] .init).any (fun s =>
        decide (s.Uniform "ratelimit:ws:1" 1 60) && decide (s.allowed "ratelimit:ws:1" = [0])) =
      true := by
    decide +kernel
  obtain ⟨s, hs, hv⟩ := Option.any_eq_true _ _ |>.mp hrun
  obtain ⟨huniform, hallowed⟩ := Bool.and_eq_true_iff.mp hv
  have hreach : Reach (State.step Sample.format)
      (fun s c => Ordered s c ∧ Counted Sample.format s c) .init s :=
    .of_replayIf (fun _ _ h => of_decide_eq_true h) .init hs
  exact ⟨s, hs, of_decide_eq_true hallowed, at_most_limit hreach (of_decide_eq_true huniform)⟩

/-- **Three frames of one moment pass a limit of two**: the second has left no entry. -/
theorem not_at_most_limit : ¬∀ (fmt : FloatFormat) (s : State) (key : String) (limit : Nat)
    (window : Int), Reach (State.step fmt) Ordered .init s → s.Uniform key limit window →
      Window.Bounded limit (window : ℚ) (s.allowed key) := by
  intro hall
  have hrun : (replayIf (State.step Sample.format) (fun s c => decide (Ordered s c))
      [Sample.frame 2 0, Sample.frame 2 0, Sample.frame 2 0] .init).any (fun s =>
        decide (s.Uniform "ratelimit:ws:1" 2 60) &&
          decide (2 < (s.allowed "ratelimit:ws:1").countP
            fun x => Window.Within (0 : ℚ) ((60 : Int) : ℚ) x)) = true := by
    decide +kernel
  obtain ⟨s, hs, hv⟩ := Option.any_eq_true _ _ |>.mp hrun
  obtain ⟨huniform, hmany⟩ := Bool.and_eq_true_iff.mp hv
  have hbound := hall Sample.format s "ratelimit:ws:1" 2 60
    (.of_replayIf (fun _ _ h => of_decide_eq_true h) .init hs) (of_decide_eq_true huniform) 0
  exact absurd (of_decide_eq_true hmany) (Nat.not_lt.mpr hbound)

end RateLimiter

end NexusChat
