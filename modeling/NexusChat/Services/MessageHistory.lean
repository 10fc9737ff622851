import NexusChat.Services.MessageService
import NexusChat.Lib.Paging

/-!
# Walking through the history of a room

A client reads a room's history with `get_room_messages`: first without a cursor, then with the
`next_cursor` of the page before, until `has_more` is false. The query takes `limit + 1` rows to
see whether there are more, and the cursor selects what is *strictly* older than the oldest
message of the page. So the walk is a `Paging` walk by `created_at`, and it is complete exactly
when no page ends between two messages of one timestamp.
-/

set_option autoImplicit false

namespace NexusChat

namespace MessageService

variable {env : Env} {d : Database} {me : TaskId} {room_id : Uuid} {limit : Nat}

/-- The rows of a room. -/
def roomRows (t : Tables) (room_id : Uuid) : List MessageRow :=
  t.messages.rows.filter fun m => m.roomId = room_id

/-- A row as a page shows it. -/
def shown (t : Tables) (m : MessageRow) : MessageResponse :=
  .ofRow (m, t.users.find? fun u => some u.id = m.senderId)

/-- A database that answers, breaking ties of `created_at` as it likes. -/
def answering (ties : NewestFirst) : DbOutcome :=
  { ok := true, executed := true, now := 0, uuid := 0, ties }

/-- The walk from the cursor `before`, query `i` being answered in the order `ties i`. -/
def historyWalk (env : Env) (me : TaskId) (d : Database) (room_id : Uuid) (limit : Nat)
    (ties : Nat → NewestFirst) : Nat → Nat → Option String → Option (List MessageListResponse)
  | 0, _, _ => none
  | fuel + 1, i, before =>
    match (getRoomMessages (F := Coro DbOp.sig Exn) (fun op => Coro.perform (S := DbOp.sig) op)
        env room_id limit before).run (DbOp.exec me) (answering (ties i)) d with
    | some (.ok page, _) =>
      if page.hasMore then
        (historyWalk env me d room_id limit ties fuel (i + 1) page.nextCursor).map (page :: ·)
      else some [page]
    | _ => none

/-- The timestamps of the room survive being rendered as a cursor and parsed again. -/
def CursorsRoundTrip (env : Env) (rows : List MessageRow) : Prop :=
  ∀ m ∈ rows, env.isoformat m.createdAt ≠ "" ∧
    env.fromisoformat (env.isoformat m.createdAt) = some m.createdAt

/-- One call answers with the page its query selects. -/
theorem run_getRoomMessages {ties : NewestFirst} {before : Option String} :
    (getRoomMessages (F := Coro DbOp.sig Exn) (fun op => Coro.perform (S := DbOp.sig) op)
        env room_id limit before).run (DbOp.exec me) (answering ties) d =
      some (.ok (pageResponse env (min limit 100)
        ((DbOp.pageRows (d.view me) ties room_id (cursor env before) (min limit 100 + 1)).map
          fun m => (m, (d.view me).users.find? fun u => some u.id = m.senderId))), d) := rfl

theorem filter_pageRows {t : Tables} {c : Option Time} :
    (t.messages.rows.filter fun m => m.roomId = room_id && (c.all fun c => m.createdAt < c)) =
      (roomRows t room_id).filter (Paging.below MessageRow.createdAt c) := by
  rw [roomRows, List.filter_filter]
  refine List.filter_congr fun m _ => ?_
  rw [Bool.and_comm]
  rfl

/-- The messages of a page are the selected rows, cut at the limit and turned round. -/
theorem messages_pageResponse (env : Env) (limit : Nat)
    (f : MessageRow → MessageRow × Option UserRow) (s : List MessageRow) :
    (pageResponse env limit ((s.take (limit + 1)).map f)).messages =
      ((if limit < s.length then s.take limit else s).map fun m => .ofRow (f m)).reverse := by
  simp only [pageResponse, List.length_map, List.length_take, decide_eq_true_eq]
  by_cases h : limit < s.length
  · rw [if_pos (by omega), if_pos h, ← List.map_take, List.take_take, Nat.min_eq_left (by omega),
      List.map_map]
    rfl
  · rw [if_neg (by omega), if_neg h, List.take_of_length_le (by omega), List.map_map]
    rfl

theorem hasMore_pageResponse {f : MessageRow → MessageRow × Option UserRow}
    {s : List MessageRow} :
    (pageResponse env limit ((s.take (limit + 1)).map f)).hasMore = decide (limit < s.length) := by
  simp only [pageResponse, List.length_map, List.length_take, decide_eq_decide]
  omega

/-- The next cursor is the timestamp of the last row on the page. -/
theorem nextCursor_pageResponse {f : MessageRow → MessageRow × Option UserRow}
    (hf : ∀ m, (f m).1 = m) {s : List MessageRow} (h : limit < s.length) :
    (pageResponse env limit ((s.take (limit + 1)).map f)).nextCursor =
      (s.take limit).getLast?.map fun m => env.isoformat m.createdAt := by
  have hm := messages_pageResponse env limit f s
  simp only [pageResponse, List.length_map, List.length_take, decide_eq_true_eq] at hm ⊢
  rw [if_pos (by omega : limit < min (limit + 1) s.length)] at hm ⊢
  rw [if_pos (by omega), hm, if_pos h, List.head?_reverse, List.getLast?_map, Option.map_map]
  congr 1
  funext m
  simp [MessageResponse.ofRow, hf]

/-- **The walk over HTTP cursors is the abstract walk by `created_at`**, page by page. -/
theorem historyWalk_eq (ties : Nat → NewestFirst) (hpos : 1 ≤ limit) (hmax : limit ≤ 100)
    (hiso : CursorsRoundTrip env (roomRows (d.view me) room_id)) (fuel i : Nat)
    (before : Option String) :
    (historyWalk env me d room_id limit ties fuel i before).map
        (List.map MessageListResponse.messages) =
      (Paging.pages MessageRow.createdAt limit (fun i => (ties i).order)
        (roomRows (d.view me) room_id) fuel i (cursor env before)).map
        (List.map fun p => (p.map (shown (d.view me))).reverse) := by
  induction fuel generalizing i before with
  | zero => rfl
  | succ fuel ih =>
    simp only [historyWalk, run_getRoomMessages, Nat.min_eq_left hmax, DbOp.pageRows,
      filter_pageRows, Paging.pages, hasMore_pageResponse, decide_eq_true_eq]
    generalize hs : (ties i).order
      ((roomRows (d.view me) room_id).filter
        (Paging.below MessageRow.createdAt (cursor env before))) = s
    have hmem : ∀ m ∈ s, m ∈ roomRows (d.view me) room_id := fun m hm => by
      rw [← hs] at hm
      exact List.mem_of_mem_filter (((ties i).perm _).mem_iff.mp hm)
    by_cases hlong : limit < s.length
    · rw [if_pos hlong, if_pos hlong]
      obtain ⟨last, hlast⟩ := Paging.exists_getLast?_take hpos hlong
      -- the cursor the client sends back parses to the timestamp it was made of
      have hcur : cursor env (some (env.isoformat last.createdAt)) = some last.createdAt := by
        obtain ⟨hne, hround⟩ := hiso last (hmem last (List.mem_of_mem_take
          (List.mem_of_getLast? hlast)))
        rw [cursor, if_neg hne, hround]
      have hih := ih (i + 1) (some (env.isoformat last.createdAt))
      rw [hcur] at hih
      rw [nextCursor_pageResponse (fun _ => rfl) hlong, hlast]
      simp only [Option.map_some, Option.map_map]
      have hcons : ∀ (x : MessageListResponse), (List.map MessageListResponse.messages) ∘ (x :: ·) =
          (x.messages :: ·) ∘ (List.map MessageListResponse.messages) := fun _ => rfl
      have hcons' : ∀ (x : List MessageRow),
          (List.map fun p : List MessageRow => (p.map (shown (d.view me))).reverse) ∘ (x :: ·) =
          ((x.map (shown (d.view me))).reverse :: ·) ∘
            (List.map fun p : List MessageRow => (p.map (shown (d.view me))).reverse) :=
        fun _ => rfl
      rw [hcons, hcons', ← Option.map_map, ← Option.map_map, hih, messages_pageResponse,
        if_pos hlong]
      rfl
    · rw [if_neg hlong, if_neg hlong]
      simp only [Option.map_some, List.map_cons, List.map_nil, messages_pageResponse,
        if_neg hlong]
      rfl

/-- Two rows of the table that a page shows alike are one row: the id is shown. -/
theorem shown_inj {t : Tables} {m m' : MessageRow} (hm : m ∈ t.messages) (hm' : m' ∈ t.messages)
    (h : shown t m = shown t m') : m = m' :=
  Table.eq_of_key hm hm' (congrArg MessageResponse.id h)

/-- **Paging through a room's history shows every message exactly when no page ends inside a
tie.** For `limit` from 1 to 100 and whatever the database does about equal timestamps: the walk
from no cursor ends and has every message of the room on some page if and only if, for every
`k ≥ 1` with more than `k * limit` messages, the `k * limit`-th and the next newest timestamp
differ. -/
theorem history_complete_iff {ties : Nat → NewestFirst} (hpos : 1 ≤ limit) (hmax : limit ≤ 100)
    (hiso : CursorsRoundTrip env (roomRows (d.view me) room_id)) :
    (∃ fuel pages, historyWalk env me d room_id limit ties fuel 0 none = some pages ∧
        ∀ m ∈ (d.view me).messages, m.roomId = room_id →
          ∃ p ∈ pages, shown (d.view me) m ∈ p.messages) ↔
      Paging.NoTieAtCut limit
        (Paging.newest MessageRow.createdAt (roomRows (d.view me) room_id)) := by
  have hnodup : (roomRows (d.view me) room_id).Nodup := (Table.rows_nodup _).filter _
  have hall : (roomRows (d.view me) room_id).filter (Paging.below MessageRow.createdAt none) =
      roomRows (d.view me) room_id := List.filter_eq_self.mpr fun _ _ => rfl
  have horder : ∀ i l, Paging.IsOrder MessageRow.createdAt l ((ties i).order l) :=
    fun i l => ⟨(ties i).perm l, (ties i).sorted l⟩
  have habs := Paging.pages_complete_iff (Nat.lt_of_lt_of_le Nat.zero_lt_one hpos) horder hnodup
    0 none
  rw [hall] at habs
  rw [← habs]
  have hwalk := fun fuel => historyWalk_eq ties hpos hmax hiso fuel 0 none
  constructor
  · rintro ⟨fuel, pages, hp, hshow⟩
    have hw := hwalk fuel
    rw [hp] at hw
    obtain ⟨ps, hps, heq⟩ := Option.map_eq_some_iff.mp hw.symm
    refine ⟨fuel, ps, hps, fun m hm _ => ?_⟩
    obtain ⟨hmem, hroom⟩ := List.mem_filter.mp hm
    obtain ⟨p, hpp, hin⟩ := hshow m hmem (of_decide_eq_true hroom)
    have hlist : p.messages ∈ ps.map fun p => (p.map (shown (d.view me))).reverse :=
      heq ▸ List.mem_map_of_mem hpp
    obtain ⟨q, hq, hqp⟩ := List.mem_map.mp hlist
    refine ⟨q, hq, ?_⟩
    rw [← hqp, List.mem_reverse, List.mem_map] at hin
    obtain ⟨m', hm', hsame⟩ := hin
    have hm'' := (Paging.pages_sound horder hps q hq m' hm').1
    rw [← shown_inj (List.mem_of_mem_filter hm'') hmem hsame]
    exact hm'
  · rintro ⟨fuel, ps, hps, hshow⟩
    have hw := hwalk fuel
    rw [show cursor env none = none from rfl, hps] at hw
    obtain ⟨pages, hp, heq⟩ := Option.map_eq_some_iff.mp hw
    refine ⟨fuel, pages, hp, fun m hm hroom => ?_⟩
    obtain ⟨q, hq, hin⟩ := hshow m (List.mem_filter.mpr ⟨hm, decide_eq_true hroom⟩) rfl
    have hlist : (q.map (shown (d.view me))).reverse ∈ pages.map MessageListResponse.messages :=
      heq ▸ List.mem_map_of_mem (f := fun p => (p.map (shown (d.view me))).reverse) hq
    obtain ⟨p, hpp, hpq⟩ := List.mem_map.mp hlist
    refine ⟨p, hpp, ?_⟩
    rw [hpq, List.mem_reverse]
    exact List.mem_map_of_mem hin

/-! ## Two messages, one on a page -/

/-- A room with a message at each of the two times. -/
def twoMessages (first second : Time) : Database where
  committed :=
    { Tables.init with
      messages := (Table.insert ∅ ⟨1, 3, none, "first", .text, none, first⟩).insert
        ⟨2, 3, none, "second", .text, none, second⟩ }
  pending := []

/-- A second apart, both are shown. -/
theorem history_complete_apart : ∃ fuel pages,
    historyWalk .sample 0 (twoMessages Env.newYear (Env.newYear + 1000000)) 3 1
        (fun _ => .stable) fuel 0 none = some pages ∧
      ∀ m ∈ ((twoMessages Env.newYear (Env.newYear + 1000000)).view 0).messages, m.roomId = 3 →
        ∃ p ∈ pages,
          shown ((twoMessages Env.newYear (Env.newYear + 1000000)).view 0) m ∈ p.messages := by
  have hrows : roomRows ((twoMessages Env.newYear (Env.newYear + 1000000)).view 0) 3 =
      [⟨1, 3, none, "first", .text, none, Env.newYear⟩,
        ⟨2, 3, none, "second", .text, none, Env.newYear + 1000000⟩] := by decide +kernel
  refine (history_complete_iff (by decide) (by decide) ?_).mpr ?_
  · rw [hrows]
    unfold CursorsRoundTrip
    decide +kernel
  · rw [hrows]
    intro k hk hlt
    have hlen : k * 1 < 2 := hlt
    obtain rfl : k = 1 := by omega
    decide +kernel

/-- At the same time, the message that is not on the first page is on none. -/
theorem not_history_complete : ¬ ∀ (env : Env) (d : Database) (me : TaskId) (room_id : Uuid)
    (limit : Nat) (ties : Nat → NewestFirst), 1 ≤ limit → limit ≤ 100 →
      CursorsRoundTrip env (roomRows (d.view me) room_id) →
      ∃ fuel pages, historyWalk env me d room_id limit ties fuel 0 none = some pages ∧
        ∀ m ∈ (d.view me).messages, m.roomId = room_id →
          ∃ p ∈ pages, shown (d.view me) m ∈ p.messages := by
  intro hall
  have hiso : CursorsRoundTrip .sample
      (roomRows ((twoMessages Env.newYear Env.newYear).view 0) 3) := by
    unfold CursorsRoundTrip
    decide +kernel
  obtain ⟨fuel, pages, hp, hshow⟩ := hall .sample (twoMessages Env.newYear Env.newYear) 0 3 1
    (fun _ => .stable) (by decide) (by decide) hiso
  have hids : (historyWalk .sample 0 (twoMessages Env.newYear Env.newYear) 3 1
      (fun _ => .stable) fuel 0 none).all (fun pages => pages.all fun p =>
        p.messages.all fun m => m.id ≠ 2) = true :=
    match fuel with
    | 0 => rfl
    | 1 => by rfl
    | n + 2 => by rfl
  rw [hp] at hids
  have hsecond : (⟨2, 3, none, "second", .text, none, Env.newYear⟩ : MessageRow) ∈
      ((twoMessages Env.newYear Env.newYear).view 0).messages := by decide +kernel
  obtain ⟨p, hpp, hin⟩ := hshow _ hsecond rfl
  simp only [Option.all_some, List.all_eq_true, decide_eq_true_eq] at hids
  exact hids p hpp _ hin rfl

end MessageService

end NexusChat
