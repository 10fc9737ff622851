import NexusChat.Api.Atomicity
import NexusChat.App.Integrity

/-!
# Registrations at the same time

`register` looks for the name and the address before it inserts a user, and two requests can both
look before either inserts. The second insert then fails on a unique key, so what the check misses
the key catches: of requests that ask for one name or one address, one at most succeeds, and its
user is there to stay.
-/

set_option autoImplicit false

namespace NexusChat

variable {lib : AuthLib} {t t' : Tables} {rs : List WriteRequest}

/-- Users are never removed. -/
theorem WriteRequest.Effect.users {r : WriteRequest} (h : r.Effect lib t t') {u : User}
    (hu : u ∈ t.users) : u ∈ t'.users := by
  cases r with
  | register data salt =>
    obtain ⟨x, -, rfl⟩ := h
    exact Table.mem_insert_of_mem hu
  | createRoom data user_id =>
    obtain ⟨x, y, -, -, rfl⟩ := h
    exact hu
  | joinRoom room_id user_id =>
    obtain ⟨x, -, rfl⟩ := h
    exact hu
  | leaveRoom room_id user_id =>
    rcases h with rfl | ⟨m, -, -, rfl⟩
    · exact hu
    · exact hu

/-- The user that a registration adds. -/
theorem WriteRequest.Effect.registered {data : UserRegister} {salt : String}
    (h : (WriteRequest.register data salt).Effect lib t t') :
    ∃ u ∈ t'.users, u ∉ t.users ∧ u.username = data.username ∧ u.email = data.email := by
  obtain ⟨x, hx, rfl⟩ := h
  have hnew : ∀ u ∈ t.users, u.id ≠ x.uuid := fun u hu hid =>
    hx (Tables.mem_ids.mpr (.inl ⟨u, hu, hid⟩))
  exact ⟨_, Table.mem_insert_self hnew, fun hold => hnew _ hold rfl, rfl, rfl⟩

/-- Two registrations ask for different names and different addresses. -/
def WriteRequest.Apart : WriteRequest → WriteRequest → Prop
  | .register data _, .register data' _ =>
    data.username ≠ data'.username ∧ data.email ≠ data'.email
  | _, _ => True

instance : Std.Symm WriteRequest.Apart where
  symm r r' h := by
    cases r <;> cases r' <;> first | exact ⟨Ne.symm h.1, Ne.symm h.2⟩ | trivial

theorem Applied.registered (h : Applied lib t rs t') {data : UserRegister} {salt : String}
    (hr : .register data salt ∈ rs) :
    ∃ u ∈ t'.users, u.username = data.username ∧ u.email = data.email := by
  induction h with
  | nil => cases hr
  | snoc _ heffect ih =>
    rcases List.mem_append.mp hr with hold | hnew
    · obtain ⟨u, hu, hnames⟩ := ih hold
      exact ⟨u, heffect.users hu, hnames⟩
    · cases List.mem_singleton.mp hnew
      obtain ⟨u, hu, -, hnames⟩ := heffect.registered
      exact ⟨u, hu, hnames⟩

/-- Where names and addresses are unique in the end, no two that have been registered are one. -/
theorem Applied.apart (h : Applied lib t rs t') (hkeys : ∀ u ∈ t'.users, ∀ u' ∈ t'.users,
      u.username = u'.username ∨ u.email = u'.email → u = u') : rs.Pairwise WriteRequest.Apart := by
  induction h with
  | nil => exact List.Pairwise.nil
  | @snoc rs r t₁ t₂ happlied heffect ih =>
    refine List.pairwise_append.mpr ⟨ih fun u hu u' hu' hsame => ?_, List.pairwise_singleton _ _,
      fun r₁ hr₁ r₂ hr₂ => ?_⟩
    · exact hkeys u (heffect.users hu) u' (heffect.users hu') hsame
    · cases List.mem_singleton.mp hr₂
      cases r₁ with
      | register data salt =>
        cases r with
        | register data' salt' =>
          obtain ⟨u, hu, hname, hemail⟩ := happlied.registered hr₁
          obtain ⟨u', hu', hnew, hname', hemail'⟩ := heffect.registered
          -- a user of both would be new and there before
          have hne : ¬(u.username = u'.username ∨ u.email = u'.email) := fun hsame =>
            hnew (hkeys u (heffect.users hu) u' hu' hsame ▸ hu)
          rw [not_or, hname, hname', hemail, hemail'] at hne
          exact hne
        | createRoom _ _ | joinRoom _ _ | leaveRoom _ _ => trivial
      | createRoom _ _ | joinRoom _ _ | leaveRoom _ _ => trivial

namespace RequestPool

variable {s : RequestPool}

/-- **The keys hold in every run of requests**, in what is committed and in what each sees. -/
theorem keyed_reach (ht : t.Keyed) (hr : Reach (RequestPool.step lib) Always (init t) s) :
    s.db.Sound := by
  refine Reach.invariant (I := fun s => s.db.Sound) (Database.sound_init ht) ?_ hr
  intro s l s' h _ hs
  cases l with
  | start r =>
    cases hs
    exact h
  | run i x =>
    obtain ⟨-, r, op, k, res, d, -, hx, rfl⟩ := step_run hs
    exact h.exec hx

/-- A call that has returned has been carried out. -/
theorem Progress.mem_done {done : List (TaskId × WriteRequest)} (h : Progress lib t s done)
    {i : TaskId} {r : WriteRequest} {a : Response} (hi : s.calls[i]? = some (r, .ret a)) :
    (i, r) ∈ done := by
  obtain ⟨o, -, -, hcount, hended⟩ := h.calls i r _ hi
  have hpos : 0 < (done.map Prod.fst).count i := by
    rw [← hcount, hended.2 a rfl]
    exact Nat.one_pos
  obtain ⟨⟨j, r'⟩, hmem, rfl⟩ := List.mem_map.mp (List.count_pos_iff.mp hpos)
  obtain ⟨p, hp⟩ := h.requests _ hmem
  cases hp.symm.trans hi
  exact hmem

/-- **One name, one user**: however requests interleave, two registrations that have both succeeded
are of different names and different addresses, and the users they have registered are there. -/
theorem registered_apart (ht : t.Keyed) (hr : Reach (RequestPool.step lib) Always (init t) s) :
    s.db.committed.Keyed ∧
    (∀ (i j : TaskId) data salt data' salt' a a', i ≠ j →
      s.calls[i]? = some (.register data salt, .ret a) →
      s.calls[j]? = some (.register data' salt', .ret a') →
      data.username ≠ data'.username ∧ data.email ≠ data'.email) ∧
    ∀ (i : TaskId) data salt a, s.calls[i]? = some (.register data salt, .ret a) →
      ∃ u ∈ s.db.committed.users, u.username = data.username ∧ u.email = data.email := by
  obtain ⟨done, h⟩ := progress_reach hr
  have hkeyed := (keyed_reach ht hr).keyed.1
  have happart : done.Pairwise fun e e' => e.2.Apart e'.2 := by
    refine List.pairwise_map.mp (h.applied.apart fun u hu u' hu' hsame => ?_)
    rcases hsame with hname | hemail
    · exact hkeyed.usernames u hu u' hu' hname
    · exact hkeyed.emails u hu u' hu' hemail
  have hsymm : Std.Symm fun e e' : TaskId × WriteRequest => e.2.Apart e'.2 :=
    ⟨fun e e' h => Std.Symm.symm e.2 e'.2 h⟩
  refine ⟨hkeyed, fun i j data salt data' salt' a a' hij hi hj => ?_, fun i data salt a hi => ?_⟩
  · exact happart.forall (h.mem_done hi) (h.mem_done hj) fun he => hij (Prod.mk.inj he).1
  · exact h.applied.registered (List.mem_map_of_mem (f := Prod.snd) (h.mem_done hi))

/-! ### Two of one name -/

namespace Sample

def signup (username email : String) : WriteRequest :=
  .register { username, email, password := "secret", displayName := none } "salt"

/-- Two requests for one name look before either inserts, and one for another name follows. -/
def signups : List Label :=
  .start (signup "ada" "ada@x.org") :: .start (signup "ada" "ada@y.org") ::
    .start (signup "bob" "bob@x.org") ::
      [0, 1, 0, 0, 0, 0, 1, 1, 2, 2, 2, 2, 2].zipIdx.map fun (i, n) => .run i (outcome true (10 + n))

/-- Call `i` is a registration that has succeeded. -/
def registered (s : RequestPool) (i : TaskId) : Bool :=
  match s.calls[i]? with
  | some (.register _ _, .ret _) => true
  | _ => false

theorem exists_of_registered {s : RequestPool} {i : TaskId} (h : registered s i = true) :
    ∃ data salt a, s.calls[i]? = some (.register data salt, .ret a) := by
  unfold registered at h
  split at h
  · rename_i data salt a hi
    exact ⟨data, salt, a, hi⟩
  · cases h

end Sample

open RequestPool.Sample in
/-- The first and the third succeed; the second does not. -/
theorem registered_apart_three : ∃ (s : RequestPool) (data data' : UserRegister)
    (salt salt' : String) (a a' : Response), Reach (RequestPool.step Security.Sample.plain) Always (init .sample) s ∧
    s.db.committed.users.rows.map User.username = ["u1", "u2", "ada", "bob"] ∧
    s.calls[0]? = some (.register data salt, .ret a) ∧
    s.calls[2]? = some (.register data' salt', .ret a') ∧
    data.username ≠ data'.username ∧ data.email ≠ data'.email := by
  have hrun : ((replay (RequestPool.step Security.Sample.plain) signups (init .sample)).any fun s =>
      registered s 0 && !registered s 1 && registered s 2 &&
        s.db.committed.users.rows.map User.username = ["u1", "u2", "ada", "bob"]) = true := by
    decide +kernel
  obtain ⟨s, hs, htest⟩ := (Option.any_eq_true _ _).mp hrun
  simp only [Bool.and_eq_true, decide_eq_true_eq] at htest
  obtain ⟨⟨⟨hfirst, -⟩, hthird⟩, husers⟩ := htest
  obtain ⟨data, salt, a, hi⟩ := exists_of_registered hfirst
  obtain ⟨data', salt', a', hj⟩ := exists_of_registered hthird
  have hkeyed : Tables.sample.Keyed := by
    refine ⟨⟨by decide, by decide, by decide, by decide, by decide, by decide⟩, ?_, ?_, ?_⟩
    · decide
    · decide
    · decide
  have hr : Reach (RequestPool.step Security.Sample.plain) Always (init .sample) s :=
    .of_replay .init hs
  exact ⟨s, data, data', salt, salt', a, a', hr, husers, hi, hj,
    (registered_apart hkeyed hr).2.1 0 2 data salt data' salt' a a' (by decide) hi hj⟩

end RequestPool

end NexusChat
