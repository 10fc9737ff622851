import NexusChat.Services.MessageHistory
import NexusChat.Lib.Cursors

/-!
# Walking through a history that grows

The walk of a client that asks for the next page with the `next_cursor` of the one before, until
there is none. Between two requests messages may be written, with any timestamps, so each request
meets a database of its own. What the client sees of the walk is the `Paging.walk` by `created_at`
(`requests_eq`): the pages it gets never overlap, put together from the last to the first they are
in order, and the walk ends.
-/

set_option autoImplicit false

namespace NexusChat

namespace MessageService

variable {env : Env} {me : TaskId} {room_id : Uuid} {limit : Nat}

/-- The requests of a walk with their responses; request `i` meets the database `d i`, which
breaks ties as `ties i`. -/
def requests (env : Env) (me : TaskId) (d : Nat → Database) (room_id : Uuid) (limit : Nat)
    (ties : Nat → NewestFirst) :
    Nat → Nat → Option String → Option (List (Option String × MessageListResponse))
  | 0, _, _ => none
  | fuel + 1, i, before =>
    match (getRoomMessages (F := Coro DbOp.sig Exn) (fun op => Coro.perform (S := DbOp.sig) op)
        env room_id limit before).run (DbOp.exec me) (answering (ties i)) (d i) with
    | some (.ok page, _) =>
      match page.nextCursor with
      | some next => (requests env me d room_id limit ties fuel (i + 1) (some next)).map
          ((before, page) :: ·)
      | none => some [(before, page)]
    | _ => none

/-- Between two requests messages are only added, and finitely many in all. -/
structure Growing (me : TaskId) (d : Nat → Database) : Prop where
  kept : ∀ i, ∀ m ∈ ((d i).view me).messages, m ∈ ((d (i + 1)).view me).messages
  finite : ∃ n, ∀ i, ((d i).view me).messages.rows.length ≤ n

/-! ## What the client sees -/

/-- The part of a request and its response that the order depends on; a message is its id and its
timestamp. -/
structure Seen where
  cursor : Option Time
  messages : List (Uuid × Time)
  hasMore : Bool
  next : Option String

def Seen.ofRequest (env : Env) (request : Option String × MessageListResponse) : Seen where
  cursor := MessageService.cursor env request.1
  messages := request.2.messages.map fun m => (m.id, m.createdAt)
  hasMore := request.2.hasMore
  next := request.2.nextCursor

def Seen.ofPage (env : Env) (p : Paging.Page MessageRow Time) : Seen where
  cursor := p.cursor
  messages := (p.items.map fun m => (m.id, m.createdAt)).reverse
  hasMore := p.next.isSome
  next := p.next.map env.isoformat

theorem horder (ties : NewestFirst) (l : List MessageRow) :
    Paging.IsOrder MessageRow.createdAt l (ties.order l) :=
  ⟨ties.perm l, ties.sorted l⟩

/-- **A response is the abstract page**, turned round. -/
theorem seen_pageResponse {t : Tables} {ties : NewestFirst} {before : Option String}
    {f : MessageRow → MessageRow × Option UserRow} (hf : ∀ m, (f m).1 = m) (hpos : 1 ≤ limit) :
    Seen.ofRequest env (before, pageResponse env limit
        ((DbOp.pageRows t ties room_id (cursor env before) (limit + 1)).map f)) =
      Seen.ofPage env (Paging.page MessageRow.createdAt limit ties.order (roomRows t room_id)
        (cursor env before)) := by
  have hview : ∀ m, ((MessageResponse.ofRow (f m)).id, (MessageResponse.ofRow (f m)).createdAt) =
      (m.id, m.createdAt) := fun m => by simp only [MessageResponse.ofRow, hf]
  simp only [Seen.ofRequest, Seen.ofPage, Paging.page, DbOp.pageRows, filter_pageRows]
  generalize ties.order ((roomRows t room_id).filter
    (Paging.below MessageRow.createdAt (cursor env before))) = s
  rw [messages_pageResponse, hasMore_pageResponse, List.map_reverse, List.map_map]
  have hmap : ((fun m : MessageResponse => (m.id, m.createdAt)) ∘ fun m => .ofRow (f m)) =
      fun m : MessageRow => (m.id, m.createdAt) := funext hview
  rw [hmap]
  by_cases hlong : limit < s.length
  · obtain ⟨last, hlast⟩ := Paging.exists_getLast?_take hpos hlong
    rw [nextCursor_pageResponse hf hlong, if_pos hlong, if_pos hlong, hlast, decide_eq_true hlong]
    rfl
  · have hnext : (pageResponse env limit ((s.take (limit + 1)).map f)).nextCursor = none := by
      have hmore : (pageResponse env limit ((s.take (limit + 1)).map f)).hasMore =
          decide (limit < s.length) := hasMore_pageResponse
      rw [decide_eq_false hlong] at hmore
      simp only [pageResponse] at hmore ⊢
      rw [hmore]
      rfl
    rw [hnext, if_neg hlong, if_neg hlong, decide_eq_false hlong]
    rfl

/-- **The walk over HTTP is the abstract walk by `created_at`**, page by page. -/
theorem requests_eq {d : Nat → Database} {ties : Nat → NewestFirst} (hpos : 1 ≤ limit)
    (hmax : limit ≤ 100) (hiso : ∀ i, CursorsRoundTrip env (roomRows ((d i).view me) room_id))
    (fuel i : Nat) (before : Option String) :
    (requests env me d room_id limit ties fuel i before).map (List.map (Seen.ofRequest env)) =
      (Paging.walk MessageRow.createdAt limit (fun i => (ties i).order)
        (fun i => roomRows ((d i).view me) room_id) fuel i (cursor env before)).map
        (List.map (Seen.ofPage env)) := by
  induction fuel generalizing i before with
  | zero => rfl
  | succ fuel ih =>
    simp only [requests, run_getRoomMessages, Nat.min_eq_left hmax, Paging.walk]
    have hseen : Seen.ofRequest env (before, pageResponse env limit
        ((DbOp.pageRows ((d i).view me) (ties i) room_id (cursor env before) (limit + 1)).map
          fun m => (m, ((d i).view me).users.find? fun u => some u.id = m.senderId))) =
        Seen.ofPage env (Paging.page MessageRow.createdAt limit (ties i).order
          (roomRows ((d i).view me) room_id) (cursor env before)) :=
      seen_pageResponse (fun _ => rfl) hpos
    have hmem := fun a => Paging.mem_page (L := limit) (a := a) (horder (ties i)
      ((roomRows ((d i).view me) room_id).filter
        (Paging.below MessageRow.createdAt (cursor env before))))
    have hlast := fun t => Paging.page_next (L := limit) (t := t) (horder (ties i)
      ((roomRows ((d i).view me) room_id).filter
        (Paging.below MessageRow.createdAt (cursor env before))))
    generalize pageResponse env limit _ = response at hseen ⊢
    generalize Paging.page MessageRow.createdAt limit (ties i).order
      (roomRows ((d i).view me) room_id) (cursor env before) = p at hseen hmem hlast ⊢
    have hnext : response.nextCursor = p.next.map env.isoformat := congrArg Seen.next hseen
    cases hp : p.next with
    | none =>
      rw [hnext, hp]
      simp only [Option.map_none, Option.map_some, List.map_cons, List.map_nil, hseen]
    | some t =>
      -- the cursor the client sends back parses to the timestamp it was made of
      have hcur : cursor env (some (env.isoformat t)) = some t := by
        obtain ⟨-, ⟨last, hin, rfl⟩, -⟩ := hlast t hp
        obtain ⟨hne, hround⟩ := hiso i last (hmem last hin).1
        rw [cursor, if_neg hne, hround]
      have hih := ih (i + 1) (some (env.isoformat t))
      rw [hcur] at hih
      rw [hnext, hp]
      simp only [Option.map_some, Option.map_map]
      have hcons : List.map (Seen.ofRequest env) ∘ ((before, response) :: ·) =
          (Seen.ofPage env p :: ·) ∘ List.map (Seen.ofRequest env) :=
        funext fun rs => by simp only [Function.comp_apply, List.map_cons, hseen]
      have hcons' : List.map (Seen.ofPage env) ∘ (p :: ·) =
          (Seen.ofPage env p :: ·) ∘ List.map (Seen.ofPage env) := rfl
      rw [hcons, hcons', ← Option.map_map, ← Option.map_map, hih]

/-! ## What a client can rely on -/

/-- What the client has read when the walk is over: each later page placed before the earlier
ones. -/
def assembled (rs : List (Option String × MessageListResponse)) : List MessageResponse :=
  rs.reverse.flatMap fun r => r.2.messages

/-- No message comes twice, what has been read is in order, and a page that has more is full and
has a cursor that is strictly older than its own. -/
structure Orderly (env : Env) (limit : Nat) (rs : List (Option String × MessageListResponse)) :
    Prop where
  once : ((assembled rs).map MessageResponse.id).Nodup
  sorted : (assembled rs).Pairwise fun a b => a.createdAt ≤ b.createdAt
  full : ∀ r ∈ rs, r.2.hasMore = true → r.2.messages.length = limit
  older : ∀ r ∈ rs, r.2.hasMore = true → ∃ next t, r.2.nextCursor = some next ∧
    cursor env (some next) = some t ∧ ∀ t₀, cursor env r.1 = some t₀ → t < t₀

/-- What has been read is what the abstract walk shows, turned round. -/
theorem map_assembled {rs : List (Option String × MessageListResponse)}
    {ps : List (Paging.Page MessageRow Time)}
    (h : rs.map (Seen.ofRequest env) = ps.map (Seen.ofPage env)) :
    (assembled rs).map (fun m => (m.id, m.createdAt)) =
      ((ps.flatMap Paging.Page.items).map fun m => (m.id, m.createdAt)).reverse :=
  calc (assembled rs).map (fun m => (m.id, m.createdAt))
      = (rs.map (Seen.ofRequest env)).reverse.flatMap Seen.messages := by
        rw [assembled, List.map_flatMap, ← List.map_reverse, List.flatMap_map]
        rfl
    _ = ps.reverse.flatMap fun p => (p.items.map fun m => (m.id, m.createdAt)).reverse := by
        rw [h, ← List.map_reverse, List.flatMap_map]
        rfl
    _ = ((ps.flatMap Paging.Page.items).map fun m => (m.id, m.createdAt)).reverse := by
        rw [List.map_flatMap, List.reverse_flatMap]
        rfl

section Client

variable {d : Nat → Database} {ties : Nat → NewestFirst}

theorem kept_roomRows (hgrow : Growing me d) (i : Nat) :
    ∀ m ∈ roomRows ((d i).view me) room_id, m ∈ roomRows ((d (i + 1)).view me) room_id := by
  intro m hm
  obtain ⟨hmem, hroom⟩ := List.mem_filter.mp hm
  exact List.mem_filter.mpr ⟨hgrow.kept i m hmem, hroom⟩

/-- Two rows of one id are one row, whichever databases they were read from. -/
theorem eq_of_id (hgrow : Growing me d) {i j : Nat} {m m' : MessageRow}
    (hm : m ∈ roomRows ((d i).view me) room_id) (hm' : m' ∈ roomRows ((d j).view me) room_id)
    (hid : m.id = m'.id) : m = m' := by
  have hlate := Paging.mem_of_le (kept_roomRows hgrow) (Nat.le_max_left i j) hm
  have hlate' := Paging.mem_of_le (kept_roomRows hgrow) (Nat.le_max_right i j) hm'
  exact Table.eq_of_key (List.mem_of_mem_filter hlate) (List.mem_of_mem_filter hlate') hid

/-- What a page of the abstract walk with a next cursor is like. -/
theorem next_of_walk (ho : ∀ i l, Paging.IsOrder MessageRow.createdAt l ((ties i).order l))
    {fuel i : Nat} {c : Option Time} {ps : List (Paging.Page MessageRow Time)}
    (h : Paging.walk MessageRow.createdAt limit (fun i => (ties i).order)
      (fun i => roomRows ((d i).view me) room_id) fuel i c = some ps) :
    ∀ p ∈ ps, ∀ t, p.next = some t → p.items.length = limit ∧
      (∀ t₀, p.cursor = some t₀ → t < t₀) ∧
      ∃ j, ∃ m ∈ roomRows ((d j).view me) room_id, m.createdAt = t := by
  refine Paging.forall_walk (fun j c t ht => ?_) h
  obtain ⟨hfull, ⟨m, hm, hkey⟩, -⟩ := Paging.page_next (ho j _) ht
  refine ⟨hfull, fun t₀ hc => Paging.page_next_lt (ho j _) ht hc, j, m, ?_, hkey⟩
  exact (Paging.mem_page (ho j _) hm).1

/-- **Following the cursors through a growing history ends, repeats nothing and keeps the
order**, whatever the database does about equal timestamps. -/
theorem paging_orderly (hpos : 1 ≤ limit) (hmax : limit ≤ 100)
    (hiso : ∀ i, CursorsRoundTrip env (roomRows ((d i).view me) room_id))
    (hgrow : Growing me d) :
    ∃ fuel rs, requests env me d room_id limit ties fuel 0 none = some rs ∧
      Orderly env limit rs := by
  have ho : ∀ i l, Paging.IsOrder MessageRow.createdAt l ((ties i).order l) :=
    fun i l => horder (ties i) l
  obtain ⟨n, hn⟩ := hgrow.finite
  obtain ⟨ps, hps⟩ := Paging.walk_ends (L := limit) (c := none) (i := 0) (n := n) ho
    (kept_roomRows hgrow) fun j _ =>
      (List.length_filter_le _ _).trans ((List.length_filter_le _ _).trans (hn j))
  -- the requests are a walk over the pages, seen from the client
  have hwalk : (requests env me d room_id limit ties (n + 1) 0 none).map _ = _ :=
    requests_eq hpos hmax hiso (n + 1) 0 none
  rw [show cursor env none = none from rfl, hps] at hwalk
  obtain ⟨rs, hrs, hseen⟩ := Option.map_eq_some_iff.mp hwalk
  have hview := map_assembled hseen
  have hpage : ∀ r ∈ rs, ∃ p ∈ ps, Seen.ofRequest env r = Seen.ofPage env p := fun r hr => by
    have hmem : Seen.ofRequest env r ∈ ps.map (Seen.ofPage env) :=
      hseen ▸ List.mem_map_of_mem hr
    obtain ⟨p, hp, heq⟩ := List.mem_map.mp hmem
    exact ⟨p, hp, heq.symm⟩
  refine ⟨n + 1, rs, hrs, ?_, ?_, fun r hr hmore => ?_, fun r hr hmore => ?_⟩
  · -- nothing is shown twice: a walk repeats no row, and rows with one id are one row
    have hids : (assembled rs).map MessageResponse.id =
        ((ps.flatMap Paging.Page.items).map MessageRow.id).reverse := by
      have hfst := congrArg (List.map Prod.fst) hview
      rw [List.map_map, List.map_reverse, List.map_map] at hfst
      exact hfst
    have hfrom : ∀ m ∈ ps.flatMap Paging.Page.items, ∃ j, m ∈ roomRows ((d j).view me) room_id := by
      intro m hm
      obtain ⟨p, hp, hmp⟩ := List.mem_flatMap.mp hm
      exact Paging.forall_walk (P := fun p => ∀ m ∈ p.items, ∃ j, m ∈ roomRows ((d j).view me)
        room_id) (fun j _ m hm => ⟨j, (Paging.mem_page (ho j _) hm).1⟩) hps p hp m hmp
    rw [hids, List.nodup_reverse]
    refine List.Nodup.map_on (fun m hm m' hm' hid => ?_)
      (Paging.walk_nodup ho (fun i => (Table.rows_nodup _).filter _) hps)
    obtain ⟨j, hj⟩ := hfrom m hm
    obtain ⟨j', hj'⟩ := hfrom m' hm'
    exact eq_of_id hgrow hj hj' hid
  · -- oldest first
    have htimes : ((assembled rs).map fun m => (m.id, m.createdAt)).Pairwise
        fun a b => a.2 ≤ b.2 := by
      rw [hview, List.pairwise_reverse, List.pairwise_map]
      exact Paging.walk_sorted ho hps
    rw [List.pairwise_map] at htimes
    exact htimes
  · obtain ⟨p, hp, heq⟩ := hpage r hr
    obtain ⟨t, ht⟩ := Option.isSome_iff_exists.mp ((congrArg Seen.hasMore heq).symm.trans hmore)
    have hlen := congrArg (fun s => s.messages.length) heq
    simp only [Seen.ofRequest, Seen.ofPage, List.length_map, List.length_reverse] at hlen
    exact hlen.trans (next_of_walk ho hps p hp t ht).1
  · obtain ⟨p, hp, heq⟩ := hpage r hr
    obtain ⟨t, ht⟩ := Option.isSome_iff_exists.mp ((congrArg Seen.hasMore heq).symm.trans hmore)
    -- the next cursor is the timestamp of a row, so it comes back as it was
    obtain ⟨-, holder, j, m, hm, rfl⟩ := next_of_walk ho hps p hp t ht
    obtain ⟨hne, hround⟩ := hiso j m hm
    have hnext : r.2.nextCursor = some (env.isoformat m.createdAt) := by
      have h := congrArg Seen.next heq
      simp only [Seen.ofPage, ht, Option.map_some] at h
      exact h
    refine ⟨_, m.createdAt, hnext, by rw [cursor, if_neg hne, hround], fun t₀ hc => ?_⟩
    exact holder t₀ ((congrArg Seen.cursor heq).symm.trans hc)

end Client

/-! ## A message that comes late -/

/-- A room with a message at each of two times; after the first request a third one is written,
with the older of the two timestamps. -/
def lateMessage : Nat → Database
  | 0 => twoMessages Env.newYear (Env.newYear + 1000000)
  | _ + 1 =>
    { committed :=
        { Tables.init with
          messages := (twoMessages Env.newYear (Env.newYear + 1000000)).committed.messages.insert
            ⟨3, 3, none, "third", .text, none, Env.newYear⟩ }
      pending := [] }

/-- The walk in pages of one message. -/
theorem paging_orderly_late : ∃ fuel rs,
    requests .sample 0 lateMessage 3 1 (fun _ => .stable) fuel 0 none = some rs ∧
      Orderly .sample 1 rs := by
  refine paging_orderly (by decide) (by decide) (fun i => ?_) ⟨fun i m hm => ?_, 3, fun i => ?_⟩
  · unfold CursorsRoundTrip
    cases i with
    | zero => decide +kernel
    | succ i =>
      show ∀ m ∈ roomRows ((lateMessage 1).view 0) 3, _
      decide +kernel
  · cases i with
    | zero => exact Table.mem_insert_of_mem hm
    | succ i => exact hm
  · cases i with
    | zero => decide +kernel
    | succ i =>
      show ((lateMessage 1).view 0).messages.rows.length ≤ 3
      decide +kernel

end MessageService

end NexusChat
