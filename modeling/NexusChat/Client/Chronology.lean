import NexusChat.Lib.Placement
import NexusChat.Client.Opening

/-!
# Loading older messages

The first page of a room is appended, an older one is put in front, and `renderMessage` places its
messages one at a time. A page comes oldest message first, so in front it is turned round; and a
system message goes to the end whatever `renderMessage` is asked. `Placement` says when the list
is in order all the same. A page that has an older one is full, so that leaves one case: the older
page is the room's very first message.
-/

set_option autoImplicit false

namespace NexusChat

namespace Client

open MessageService (roomRows shown CursorsRoundTrip answering)

/-- The answer to `GET /rooms/{id}/messages`, by a session of its own. -/
def historyPage (env : Env) (json : Time → String) (t : Tables) (room_id : Uuid)
    (ties : NewestFirst) (before : Option String) : Option Page :=
  match (MessageService.getRoomMessages (F := Coro DbOp.sig Exn)
      (fun op => Coro.perform (S := DbOp.sig) op) env room_id messagesPerPage before).run
      (DbOp.exec 0) (answering ties) { committed := t, pending := [] } with
  | some (.ok r, _) => some (.ofResponse env json r)
  | _ => none

/-- What `renderMessage` hands to `renderSystemMessage`. -/
def Message.isSystem (m : Message) : Bool := m.messageType = "system"

/-- The client, and from top to bottom the messages its elements were made of. -/
structure Feed where
  client : Client
  nodes : List Message

/-- The element was made of the message. -/
def Element.Shows : Element → Message → Prop
  | .message m _ _, msg => m = msg ∧ msg.isSystem = false
  | .system roomId content, msg =>
    msg.isSystem = true ∧ roomId = msg.roomId ∧ content = msg.content

namespace Feed

/-- Action `i` goes on with the page it asked for; without a cursor it has asked for none. -/
def answered (answer : Option String → Option Page) (i : Nat) (s : Feed) : Option Feed :=
  match s.client.pending[i]? with
  | none => some s
  | some (.messages _ before) => do
    let page ← answer before
    let client ← s.client.step (.resume i (some (.page page)))
    let above := if before.isNone then [] else s.nodes
    some { client, nodes := page.messages.foldl (Placement.place Message.isSystem before.isSome) above }
  | some _ => none

/-- The room is opened, and its first page is rendered. -/
def opened (answer : Option String → Option Page) (roomId : RoomId) (c : Client) : Option Feed := do
  let client ← c.step (.switchRoom roomId)
  answered answer c.pending.length { client, nodes := [] }

/-- A click on *load more*, and the page it asks for is rendered. -/
def clicked (answer : Option String → Option Page) (s : Feed) : Option Feed := do
  let client ← s.client.step .loadMore
  answered answer s.client.pending.length { s with client }

/-- The room is opened and `k` clicks follow, each after the page before has been rendered. -/
def scrolled (answer : Nat → Option String → Option Page) (roomId : RoomId) (c : Client) :
    Nat → Option Feed
  | 0 => opened (answer 0) roomId c
  | k + 1 => (scrolled answer roomId c k).bind (clicked (answer (k + 1)))

/-- The list shows the messages in this order, and nothing else. -/
def Displays (s : Feed) (msgs : List Message) : Prop :=
  s.nodes = msgs ∧ List.Forall₂ Element.Shows s.client.messages msgs

end Feed

/-! ## Rendering -/

section Render

variable {c : Client} {nodes : List Message}

theorem shows_renderMessage (h : List.Forall₂ Element.Shows c.messages nodes) {msg : Message}
    {prepend : Bool} :
    List.Forall₂ Element.Shows (c.renderMessage msg prepend).messages
      (Placement.place Message.isSystem prepend nodes msg) := by
  unfold renderMessage Placement.place
  by_cases hsys : msg.messageType = "system"
  · have hs : msg.isSystem = true := decide_eq_true hsys
    rw [if_pos hsys, hs, Bool.not_true, Bool.and_false]
    exact List.rel_append h (.cons ⟨hs, rfl, rfl⟩ .nil)
  · have hs : msg.isSystem = false := decide_eq_false hsys
    rw [if_neg hsys, hs, Bool.not_false, Bool.and_true]
    cases prepend with
    | true => exact .cons ⟨rfl, hs⟩ h
    | false => exact List.rel_append h (.cons ⟨rfl, hs⟩ .nil)

theorem shows_foldl (msgs : List Message) {prepend : Bool}
    (h : List.Forall₂ Element.Shows c.messages nodes) :
    List.Forall₂ Element.Shows
      (msgs.foldl (fun c msg => c.renderMessage msg prepend) c).messages
      (msgs.foldl (Placement.place Message.isSystem prepend) nodes) := by
  induction msgs generalizing c nodes with
  | nil => exact h
  | cons msg msgs ih => exact ih (shows_renderMessage h)

theorem shows_showMessages {roomId : RoomId} {before : Option String} {data : Page}
    (h : before.isSome → List.Forall₂ Element.Shows c.messages nodes) :
    List.Forall₂ Element.Shows (c.showMessages roomId before data).messages
      (data.messages.foldl (Placement.place Message.isSystem before.isSome)
        (if before.isNone then [] else nodes)) := by
  unfold showMessages
  apply shows_foldl
  cases before with
  | none => exact .nil
  | some cursor => exact h rfl

theorem messageCursors_showMessages {roomId : RoomId} {before : Option String} {data : Page} :
    (c.showMessages roomId before data).messageCursors =
      c.messageCursors.set roomId data.nextCursor := by
  have hfold : ∀ (msgs : List Message) (prepend : Bool) (c : Client),
      (msgs.foldl (fun c msg => c.renderMessage msg prepend) c).messageCursors =
        c.messageCursors := by
    intro msgs prepend
    induction msgs with
    | nil => intro c; rfl
    | cons msg msgs ih =>
      intro c
      rw [List.foldl_cons, ih, renderMessage]
      split <;> rfl
  rw [showMessages, hfold]
  split <;> rfl

end Render

/-! ## The pages -/

section Pages

variable {env : Env} {json : Time → String} {t : Tables} {room_id : Uuid}

/-- A row of the room, as the client gets it. -/
def listed (env : Env) (json : Time → String) (t : Tables) (m : MessageRow) : Message :=
  .ofResponse env json (shown t m)

/-- What the cursor `before` selects, newest first, is `rest`. -/
def Selects (env : Env) (t : Tables) (room_id : Uuid) (before : Option String)
    (rest : List MessageRow) : Prop :=
  Paging.IsOrder MessageRow.createdAt ((roomRows t room_id).filter
    (Paging.below MessageRow.createdAt (MessageService.cursor env before))) rest

/-- The cursor of a page behind which `rest` remains: there is none if nothing remains. -/
def Continues (env : Env) (t : Tables) (room_id : Uuid) (rest : List MessageRow)
    (next : Option String) : Prop :=
  if rest = [] then next = none
  else ∃ cursor, next = some cursor ∧ cursor ≠ "" ∧ Selects env t room_id (some cursor) rest

/-- **A page is the newest that the cursor selects**, turned round, and its cursor goes on behind
it. -/
theorem historyPage_eq (hiso : CursorsRoundTrip env (roomRows t room_id))
    (hdistinct : ((roomRows t room_id).map MessageRow.createdAt).Nodup) {ties : NewestFirst}
    {before : Option String} {rest : List MessageRow} (h : Selects env t room_id before rest) :
    ∃ page, historyPage env json t room_id ties before = some page ∧
      page.messages = ((rest.take messagesPerPage).map (listed env json t)).reverse ∧
      Continues env t room_id (rest.drop messagesPerPage) page.nextCursor := by
  have hkeys : (((roomRows t room_id).filter (Paging.below MessageRow.createdAt
      (MessageService.cursor env before))).map MessageRow.createdAt).Nodup :=
    hdistinct.sublist (List.filter_sublist.map _)
  -- whatever the database does about ties, there are none
  have horder : ties.order ((roomRows t room_id).filter (Paging.below MessageRow.createdAt
      (MessageService.cursor env before))) = rest :=
    Paging.IsOrder.unique ⟨ties.perm _, ties.sorted _⟩ h hkeys
  have hpage : historyPage env json t room_id ties before =
      some (.ofResponse env json (MessageService.pageResponse env messagesPerPage
        ((rest.take (messagesPerPage + 1)).map fun m =>
          (m, t.users.find? fun u => some u.id = m.senderId)))) := by
    unfold historyPage
    rw [MessageService.run_getRoomMessages]
    simp only [DbOp.pageRows, MessageService.filter_pageRows]
    show some (Page.ofResponse env json (MessageService.pageResponse env messagesPerPage
      (((ties.order _).take (messagesPerPage + 1)).map _))) = _
    rw [← horder]
    rfl
  refine ⟨_, hpage, ?_, ?_⟩
  · show (MessageService.pageResponse _ _ _).messages.map _ = _
    rw [MessageService.messages_pageResponse, List.map_reverse, List.map_map]
    congr 1
    by_cases hlong : messagesPerPage < rest.length
    · rw [if_pos hlong]
      rfl
    · rw [if_neg hlong, List.take_of_length_le (Nat.le_of_not_lt hlong)]
      rfl
  · show Continues _ _ _ _ (MessageService.pageResponse _ _ _).nextCursor
    unfold Continues
    by_cases hlong : messagesPerPage < rest.length
    · obtain ⟨last, hlast⟩ := Paging.exists_getLast?_take (L := messagesPerPage) (by decide) hlong
      have hmem : last ∈ roomRows t room_id :=
        (h.mem_iff.mp (List.mem_of_mem_take (List.mem_of_getLast? hlast))).1
      obtain ⟨hne, hround⟩ := hiso last hmem
      have hcursor : MessageService.cursor env (some (env.isoformat last.createdAt)) =
          some last.createdAt := by
        rw [MessageService.cursor, if_neg hne, hround]
      have hcut : (rest.map MessageRow.createdAt)[messagesPerPage - 1]? ≠
          (rest.map MessageRow.createdAt)[messagesPerPage]? := by
        have hn : (rest.map MessageRow.createdAt).Nodup :=
          (h.perm.map MessageRow.createdAt).nodup_iff.mpr hkeys
        intro heq
        have hidx := (List.getElem?_inj (by simp [messagesPerPage] at hlong ⊢; omega) hn).mp heq
        simp [messagesPerPage] at hidx
      rw [if_neg (by
        rw [List.drop_eq_nil_iff]
        exact Nat.not_le_of_lt hlong), MessageService.nextCursor_pageResponse (fun _ => rfl) hlong,
        hlast]
      refine ⟨_, rfl, hne, ?_⟩
      unfold Selects
      rw [hcursor]
      exact h.rest ((Table.rows_nodup _).filter _) hlong hlast hcut
    · rw [if_pos (List.drop_eq_nil_iff.mpr (Nat.le_of_not_lt hlong))]
      have hmore : (MessageService.pageResponse env messagesPerPage
          ((rest.take (messagesPerPage + 1)).map fun m =>
            (m, t.users.find? fun u => some u.id = m.senderId))).hasMore = false := by
        rw [MessageService.hasMore_pageResponse, decide_eq_false hlong]
      simp only [MessageService.pageResponse] at hmore ⊢
      rw [hmore]
      rfl

end Pages

/-! ## Page after page -/

section Run

variable {env : Env} {json : Time → String} {t : Tables} {room_id : Uuid} {c : Client} {s : Feed}
  {newest : List MessageRow} {i : Nat}

/-- The pages of the room, each oldest message first. -/
def pagesOf (env : Env) (json : Time → String) (t : Tables) (newest : List MessageRow) :
    Nat → List Message :=
  Placement.chunk messagesPerPage (newest.map (listed env json t))

/-- The room's messages as far as page `i` are rendered, and the cursor goes on behind it. -/
structure Scrolled (env : Env) (json : Time → String) (t : Tables) (room_id : Uuid)
    (newest : List MessageRow) (i : Nat) (s : Feed) : Prop where
  room : ∃ room, s.client.currentRoom = some room ∧ room.id = env.uuidStr room_id
  nodes : s.nodes = Placement.stacked Message.isSystem (pagesOf env json t newest) i
  shown : List.Forall₂ Element.Shows s.client.messages s.nodes
  cursor : ∃ next, s.client.messageCursors.get? (env.uuidStr room_id) = some next ∧
    Continues env t room_id (newest.drop ((i + 1) * messagesPerPage)) next

theorem pagesOf_eq : pagesOf env json t newest i =
    (((newest.drop (i * messagesPerPage)).take messagesPerPage).map (listed env json t)).reverse := by
  rw [pagesOf, Placement.chunk, List.map_take, List.map_drop]

/-- **The answer to a request for page `i`**: it is rendered on top of what there is, or alone. -/
theorem answered_eq (hiso : CursorsRoundTrip env (roomRows t room_id))
    (hdistinct : ((roomRows t room_id).map MessageRow.createdAt).Nodup) {ties : NewestFirst}
    {before : Option String} {n : Nat}
    (hroom : ∃ room, s.client.currentRoom = some room ∧ room.id = env.uuidStr room_id)
    (hpending : s.client.pending[n]? = some (.messages (env.uuidStr room_id) before))
    (hshows : before.isSome → List.Forall₂ Element.Shows s.client.messages s.nodes)
    (hsel : Selects env t room_id before (newest.drop (i * messagesPerPage))) :
    ∃ s', Feed.answered (historyPage env json t room_id ties) n s = some s' ∧
      (∃ room, s'.client.currentRoom = some room ∧ room.id = env.uuidStr room_id) ∧
      s'.nodes = (pagesOf env json t newest i).foldl (Placement.place Message.isSystem
        before.isSome) (if before.isNone then [] else s.nodes) ∧
      List.Forall₂ Element.Shows s'.client.messages s'.nodes ∧
      ∃ next, s'.client.messageCursors.get? (env.uuidStr room_id) = some next ∧
        Continues env t room_id (newest.drop ((i + 1) * messagesPerPage)) next := by
  obtain ⟨page, hpage, hmsgs, hnext⟩ : ∃ page,
      historyPage env json t room_id ties before = some page ∧ _ ∧ _ :=
    historyPage_eq hiso hdistinct hsel
  rw [← pagesOf_eq] at hmsgs
  -- every message of the page is one of the room
  have hall : (page.messages.all fun m => m.roomId = env.uuidStr room_id) = true := by
    rw [hmsgs, pagesOf_eq, List.all_eq_true]
    intro m hm
    obtain ⟨row, hrow, rfl⟩ := List.mem_map.mp (List.mem_reverse.mp hm)
    have hin := (hsel.mem_iff.mp (List.mem_of_mem_take hrow)).1
    exact decide_eq_true (congrArg env.uuidStr (of_decide_eq_true (List.mem_filter.mp hin).2))
  let client := { s.client with pending := s.client.pending.eraseIdx n }.showMessages
    (env.uuidStr room_id) before page
  have hstep : s.client.step (.resume n (some (.page page))) = some client := by
    simp only [step, hpending, resume]
    rw [if_pos hall]
  have hans : Feed.answered (historyPage env json t room_id ties) n s = some
      { client, nodes := page.messages.foldl (Placement.place Message.isSystem before.isSome)
          (if before.isNone then [] else s.nodes) } := by
    simp only [Feed.answered, hpending, hpage, hstep, Option.bind_eq_bind, Option.bind_some]
  refine ⟨_, hans, ?_, ?_, shows_showMessages hshows, page.nextCursor, ?_, ?_⟩
  · rw [show client.currentRoom = s.client.currentRoom from quiet_showMessages.currentRoom]
    exact hroom
  · rw [hmsgs]
  · show client.messageCursors.get? _ = _
    rw [messageCursors_showMessages]
    exact Dict.get?_set_self _ _ _
  · rw [Nat.succ_mul, ← List.drop_drop]
    exact hnext

theorem switchRoom_eq {roomId : RoomId} {room : Room}
    (hroom : c.rooms.find? (fun r => r.id = roomId) = some room) :
    (c.switchRoom roomId).currentRoom = some room ∧
      (c.switchRoom roomId).pending = c.pending ++ [.messages roomId none] := by
  unfold switchRoom
  cases c.currentRoom with
  | none => simp [hroom, loadMessages]
  | some old => simp [hroom, loadMessages]

theorem scrolled_opened (hiso : CursorsRoundTrip env (roomRows t room_id))
    (hdistinct : ((roomRows t room_id).map MessageRow.createdAt).Nodup) {ties : NewestFirst}
    (hnewest : Paging.IsOrder MessageRow.createdAt (roomRows t room_id) newest) {room : Room}
    (hroom : c.rooms.find? (fun r => r.id = env.uuidStr room_id) = some room) :
    ∃ s, Feed.opened (historyPage env json t room_id ties) (env.uuidStr room_id) c = some s ∧
      Scrolled env json t room_id newest 0 s := by
  have hid : room.id = env.uuidStr room_id := of_decide_eq_true (List.find?_some hroom :)
  obtain ⟨hcurrent, hpending⟩ := switchRoom_eq hroom
  have hall : (roomRows t room_id).filter (Paging.below MessageRow.createdAt none) =
      roomRows t room_id := List.filter_eq_self.mpr fun _ _ => rfl
  have hsel : Selects env t room_id none (newest.drop (0 * messagesPerPage)) := by
    rw [Nat.zero_mul, List.drop_zero, Selects, MessageService.cursor, hall]
    exact hnewest
  obtain ⟨s, hs, hsroom, hnodes, hshown, hcursor⟩ :
      ∃ s, Feed.answered (historyPage env json t room_id ties) c.pending.length
        { client := c.switchRoom (env.uuidStr room_id), nodes := [] } = some s ∧ _ :=
    answered_eq hiso hdistinct ⟨room, hcurrent, hid⟩ (by simp [hpending]) (fun h => by cases h) hsel
  exact ⟨s, hs, hsroom, hnodes, hshown, hcursor⟩

/-- **A click** renders the next page on top; when there is none it changes nothing. -/
theorem scrolled_clicked (hiso : CursorsRoundTrip env (roomRows t room_id))
    (hdistinct : ((roomRows t room_id).map MessageRow.createdAt).Nodup) {ties : NewestFirst}
    (h : Scrolled env json t room_id newest i s) :
    ∃ s', Feed.clicked (historyPage env json t room_id ties) s = some s' ∧
      Scrolled env json t room_id newest (i + 1) s' := by
  obtain ⟨room, hcurrent, hid⟩ := h.room
  obtain ⟨next, hget, hnext⟩ := h.cursor
  unfold Continues at hnext
  split at hnext
  · -- nothing remains: no cursor, no request
    rename_i hnil
    have hclick : s.client.loadMore = s.client := by
      rw [loadMore, hcurrent]
      simp only [hid, hget, hnext]
    have hdrop : newest.drop ((i + 1 + 1) * messagesPerPage) = [] := by
      rw [Nat.succ_mul, ← List.drop_drop, hnil, List.drop_nil]
    have hpage : pagesOf env json t newest (i + 1) = [] := by
      rw [pagesOf_eq, hnil]
      rfl
    refine ⟨s, ?_, h.room, ?_, h.shown, none, hnext ▸ hget, ?_⟩
    · simp [Feed.clicked, step, hclick, Feed.answered]
    · rw [h.nodes, Placement.stacked, hpage]
      rfl
    · rw [Continues, if_pos hdrop]
  · obtain ⟨cursor, rfl, hne, hsel⟩ := hnext
    have hclick : s.client.loadMore =
        s.client.loadMessages (env.uuidStr room_id) (some cursor) := by
      rw [loadMore, hcurrent]
      simp only [hid, hget, if_neg hne]
    obtain ⟨s', hs, hsroom, hnodes, hshown, hcursor⟩ :
        ∃ s', Feed.answered (historyPage env json t room_id ties) s.client.pending.length
          { s with client := s.client.loadMore } = some s' ∧ _ :=
      answered_eq hiso hdistinct (by rw [hclick]; exact h.room) (by simp [hclick, loadMessages])
        (fun _ => by rw [hclick]; exact h.shown) hsel
    refine ⟨s', hs, hsroom, ?_, hshown, hcursor⟩
    rw [hnodes, Placement.stacked, ← h.nodes]
    rfl

theorem scrolled_run (hiso : CursorsRoundTrip env (roomRows t room_id))
    (hdistinct : ((roomRows t room_id).map MessageRow.createdAt).Nodup) {ties : Nat → NewestFirst}
    (hnewest : Paging.IsOrder MessageRow.createdAt (roomRows t room_id) newest) {room : Room}
    (hroom : c.rooms.find? (fun r => r.id = env.uuidStr room_id) = some room) (k : Nat) :
    ∃ s, Feed.scrolled (fun i => historyPage env json t room_id (ties i)) (env.uuidStr room_id) c
        k = some s ∧ Scrolled env json t room_id newest k s := by
  induction k with
  | zero => exact scrolled_opened hiso hdistinct hnewest hroom
  | succ k ih =>
    obtain ⟨s, hs, hscrolled⟩ := ih
    obtain ⟨s', hs', hscrolled'⟩ : ∃ s', Feed.clicked (historyPage env json t room_id
        (ties (k + 1))) s = some s' ∧ _ := scrolled_clicked hiso hdistinct hscrolled
    refine ⟨s', ?_, hscrolled'⟩
    rw [Feed.scrolled, hs, Option.bind_some]
    exact hs'

/-! ## The order of the list -/

/-- The messages on the first page and the next `k`, in ascending order of `created_at`. -/
def loaded (env : Env) (json : Time → String) (t : Tables) (room_id : Uuid) (k : Nat) :
    List Message :=
  ((NewestFirst.stable.order (roomRows t room_id)).take ((k + 1) * messagesPerPage)).reverse.map
    (listed env json t)

/-- The room has no older message. -/
def IsOldest (t : Tables) (room_id : Uuid) (m : MessageRow) : Prop :=
  m ∈ roomRows t room_id ∧ ∀ m' ∈ roomRows t room_id, m.createdAt ≤ m'.createdAt

theorem inOrder_pagesOf {k : Nat} :
    Placement.inOrder (pagesOf env json t (NewestFirst.stable.order (roomRows t room_id))) k =
      loaded env json t room_id k := by
  rw [pagesOf, Placement.inOrder_chunk, loaded, List.map_reverse, List.map_take]

theorem isSystem_listed {m : MessageRow} :
    (listed env json t m).isSystem = decide (m.messageType = .system) := by
  show decide (messageTypeValue m.messageType = "system") = _
  cases m.messageType <;> rfl

theorem nodup_listed (huuid : ∀ u, env.uuid (env.uuidStr u) = some u) {rows : List MessageRow}
    (hn : rows.Nodup) (hsub : ∀ m ∈ rows, m ∈ roomRows t room_id) :
    (rows.map (listed env json t)).Nodup := by
  apply hn.map_on
  intro a ha b hb hab
  have hstr : env.uuidStr a.id = env.uuidStr b.id := congrArg Message.id hab
  have hid := huuid a.id
  rw [hstr, huuid b.id] at hid
  exact Table.eq_of_key (List.mem_of_mem_filter (hsub a ha)) (List.mem_of_mem_filter (hsub b hb))
    (Option.some.inj hid).symm

theorem IsOldest.unique (hdistinct : ((roomRows t room_id).map MessageRow.createdAt).Nodup)
    {m m' : MessageRow} (h : IsOldest t room_id m) (h' : IsOldest t room_id m') : m = m' :=
  List.inj_on_of_nodup_map hdistinct h.1 h'.1 (le_antisymm (h.2 m' h'.1) (h'.2 m h.1))

/-- One message more than a page: behind the first page there is the oldest message. -/
theorem pagesOf_one (hnewest : Paging.IsOrder MessageRow.createdAt (roomRows t room_id) newest)
    (hlen : (roomRows t room_id).length = messagesPerPage + 1) :
    ∃ m, IsOldest t room_id m ∧ pagesOf env json t newest 1 = [listed env json t m] := by
  have hdrop : (newest.drop messagesPerPage).length = 1 := by
    rw [List.length_drop, hnewest.perm.length_eq, hlen]
    omega
  obtain ⟨m, hm⟩ := List.length_eq_one_iff.mp hdrop
  have hsplit : newest.take messagesPerPage ++ [m] = newest := by
    rw [← hm, List.take_append_drop]
  refine ⟨m, ⟨?_, ?_⟩, ?_⟩
  · apply hnewest.perm.mem_iff.mp
    rw [← hsplit]
    simp
  · intro m' hm'
    have hin : m' ∈ newest := hnewest.perm.mem_iff.mpr hm'
    have hsorted := hnewest.sorted
    rw [← hsplit] at hin hsorted
    rcases List.mem_append.mp hin with hin | hin
    · exact (List.pairwise_append.mp hsorted).2.2 m' hin m (List.mem_singleton_self m)
    · rw [List.mem_singleton.mp hin]
  · rw [pagesOf_eq, Nat.one_mul, hm]
    rfl

/-- **Which older pages keep their order**: those of a room whose only older message is one that
`renderMessage` puts in front. -/
theorem pages_inOrder_iff (hnewest : Paging.IsOrder MessageRow.createdAt (roomRows t room_id) newest)
    (hdistinct : ((roomRows t room_id).map MessageRow.createdAt).Nodup) {k : Nat} :
    (∀ i, 0 < i → i ≤ k → (pagesOf env json t newest i).length ≤ 1 ∧
      ∀ a ∈ pagesOf env json t newest i, a.isSystem = false) ↔
    k = 0 ∨ (roomRows t room_id).length ≤ messagesPerPage ∨
      (roomRows t room_id).length = messagesPerPage + 1 ∧
        ∃ m, IsOldest t room_id m ∧ m.messageType ≠ .system := by
  have hpage : ∀ i, (pagesOf env json t newest i).length =
      min messagesPerPage ((roomRows t room_id).length - i * messagesPerPage) := by
    intro i
    rw [pagesOf, Placement.length_chunk, List.length_map, hnewest.perm.length_eq]
  have hempty : ∀ i, (roomRows t room_id).length ≤ i * messagesPerPage →
      (pagesOf env json t newest i).length ≤ 1 ∧
        ∀ a ∈ pagesOf env json t newest i, a.isSystem = false := by
    intro i hi
    have hnil : pagesOf env json t newest i = [] := by
      apply List.length_eq_zero_iff.mp
      rw [hpage, Nat.sub_eq_zero_of_le hi, Nat.min_zero]
    rw [hnil]
    simp
  constructor
  · intro hall
    by_contra hnot
    simp only [not_or, not_and, not_exists, not_le] at hnot
    obtain ⟨hk, hlong, hsystem⟩ := hnot
    obtain ⟨hshort, htext⟩ := hall 1 (by omega) (by omega)
    have hlen : (roomRows t room_id).length = messagesPerPage + 1 := by
      rw [hpage] at hshort
      simp only [messagesPerPage] at hshort hlong ⊢
      omega
    obtain ⟨m, hold, hone⟩ : ∃ m, IsOldest t room_id m ∧
        pagesOf env json t newest 1 = [listed env json t m] := pagesOf_one hnewest hlen
    have hm := htext (listed env json t m) (hone ▸ List.mem_singleton_self _)
    rw [isSystem_listed, decide_eq_false_iff_not] at hm
    exact hsystem hlen m hold hm
  · rintro (rfl | hshort | ⟨hlen, m, hold, hm⟩) i hpos hle
    · omega
    · apply hempty
      exact hshort.trans (Nat.le_mul_of_pos_left _ hpos)
    · rcases Nat.lt_or_eq_of_le (Nat.succ_le_of_lt hpos) with hlater | rfl
      · apply hempty
        rw [hlen]
        simp only [messagesPerPage]
        omega
      · obtain ⟨m', hold', hone⟩ : ∃ m, IsOldest t room_id m ∧
            pagesOf env json t newest 1 = [listed env json t m] := pagesOf_one hnewest hlen
        obtain rfl := hold.unique hdistinct hold'
        rw [Nat.succ_eq_add_one, Nat.zero_add, hone]
        simp [isSystem_listed, hm]

/-- **When the list is chronological**: after opening a room and `k` clicks on *load more*, the
list shows the loaded messages in ascending order exactly if no older page has been rendered, or
the only older message of the room is its oldest one, and not a system message. -/
theorem chronological_iff (huuid : ∀ u, env.uuid (env.uuidStr u) = some u)
    (hiso : CursorsRoundTrip env (roomRows t room_id))
    (hdistinct : ((roomRows t room_id).map MessageRow.createdAt).Nodup) {ties : Nat → NewestFirst}
    {room : Room} (hroom : c.rooms.find? (fun r => r.id = env.uuidStr room_id) = some room)
    (k : Nat) :
    ∃ s, Feed.scrolled (fun i => historyPage env json t room_id (ties i)) (env.uuidStr room_id) c
        k = some s ∧
      (s.Displays (loaded env json t room_id k) ↔
        k = 0 ∨ (roomRows t room_id).length ≤ messagesPerPage ∨
          (roomRows t room_id).length = messagesPerPage + 1 ∧
            ∃ m, IsOldest t room_id m ∧ m.messageType ≠ .system) := by
  have hnewest : Paging.IsOrder MessageRow.createdAt (roomRows t room_id)
      (NewestFirst.stable.order (roomRows t room_id)) :=
    ⟨NewestFirst.stable.perm _, NewestFirst.stable.sorted _⟩
  obtain ⟨s, hs, hscrolled⟩ : ∃ s, Feed.scrolled (fun i => historyPage env json t room_id (ties i))
      (env.uuidStr room_id) c k = some s ∧ Scrolled env json t room_id _ k s :=
    scrolled_run hiso hdistinct hnewest hroom k
  refine ⟨s, hs, ?_⟩
  -- what is shown is what the placements of the pages make of them
  have hdisplays : s.Displays (loaded env json t room_id k) ↔ Placement.stacked Message.isSystem
      (pagesOf env json t (NewestFirst.stable.order (roomRows t room_id))) k =
        Placement.inOrder (pagesOf env json t
          (NewestFirst.stable.order (roomRows t room_id))) k := by
    rw [inOrder_pagesOf, ← hscrolled.nodes]
    constructor
    · intro h
      exact h.1
    · intro h
      exact ⟨h, h ▸ hscrolled.shown⟩
  rw [hdisplays]
  have hmem : ∀ m ∈ ((NewestFirst.stable.order (roomRows t room_id)).take
      ((k + 1) * messagesPerPage)).reverse, m ∈ roomRows t room_id := by
    intro m hm
    exact hnewest.perm.mem_iff.mp (List.mem_of_mem_take (List.mem_reverse.mp hm))
  by_cases hnone : pagesOf env json t (NewestFirst.stable.order (roomRows t room_id)) 0 = []
  · -- an empty room: nothing is shown, and nothing has been loaded
    have hlen := congrArg List.length hnone
    rw [pagesOf, Placement.length_chunk, List.length_map, hnewest.perm.length_eq, Nat.zero_mul,
      Nat.sub_zero, List.length_nil] at hlen
    have hrows : (roomRows t room_id).length = 0 := by
      simp only [messagesPerPage] at hlen
      omega
    have hloaded : loaded env json t room_id k = [] := by
      rw [loaded, List.eq_nil_of_length_eq_zero (hnewest.perm.length_eq.trans hrows)]
      simp
    refine iff_of_true ?_ (Or.inr (Or.inl (hrows ▸ Nat.zero_le _)))
    rw [inOrder_pagesOf, hloaded]
    apply List.eq_nil_of_length_eq_zero
    rw [Placement.length_stacked, inOrder_pagesOf, hloaded]
    rfl
  · -- no message is on two pages, so the general fact about placements decides
    have hnodup : (Placement.inOrder (pagesOf env json t
        (NewestFirst.stable.order (roomRows t room_id))) k).Nodup := by
      rw [inOrder_pagesOf]
      refine nodup_listed huuid (List.nodup_reverse.mpr ?_) hmem
      have hnewestNodup := hnewest.perm.nodup_iff.mpr ((Table.rows_nodup t.messages).filter _)
      exact hnewestNodup.sublist (List.take_sublist _ _)
    rw [Placement.stacked_eq_iff hnodup hnone]
    exact pages_inOrder_iff hnewest hdistinct

end Run

/-! ## A numbered room -/

/-- Every time has a string. -/
def timedEnv : Env where
  __ := Opening.Sample.env
  isoformat t := String.ofList (List.replicate (t + 1) 't')
  fromisoformat s := some (s.length - 1)

theorem uuid_timedEnv (u : Uuid) : timedEnv.uuid (timedEnv.uuidStr u) = some u :=
  Opening.Sample.uuid_uuidStr u

def numberedRow (n : Nat) : MessageRow where
  id := n
  roomId := 3
  senderId := none
  content := "hello"
  messageType := .text
  idempotencyKey := none
  createdAt := n

/-- A room with `n` messages, at the times `0` to `n - 1`. -/
def numbered (n : Nat) : Tables :=
  { Tables.init with
    messages := ⟨(List.range n).map numberedRow, by
      rw [List.map_map]
      exact (List.map_id (List.range n)).symm ▸ List.nodup_range⟩ }

theorem roomRows_numbered (n : Nat) : roomRows (numbered n) 3 = (List.range n).map numberedRow := by
  apply List.filter_eq_self.mpr
  intro m hm
  obtain ⟨i, -, rfl⟩ := List.mem_map.mp hm
  rfl

theorem cursorsRoundTrip_timedEnv (rows : List MessageRow) : CursorsRoundTrip timedEnv rows := by
  intro m _
  constructor
  · intro h
    have hlist := congrArg String.length h
    simp [timedEnv] at hlist
  · simp [timedEnv]

theorem nodup_numbered (n : Nat) : ((roomRows (numbered n) 3).map MessageRow.createdAt).Nodup := by
  rw [roomRows_numbered, List.map_map]
  exact (List.map_id (List.range n)).symm ▸ List.nodup_range

def numberedRoom : Room where
  id := timedEnv.uuidStr 3
  name := "numbered"
  memberCount := 1

/-- The room is in the sidebar. -/
def reader : Client := { Client.init "u" with rooms := [numberedRoom] }

theorem find?_reader : reader.rooms.find? (fun r => r.id = timedEnv.uuidStr 3) =
    some numberedRoom := by
  simp [reader, numberedRoom]

/-- One message more than a page, all of them text: the click puts it where it belongs. -/
theorem chronological_one_more : ∃ s, Feed.scrolled
    (fun _ => historyPage timedEnv (fun _ => "") (numbered 51) 3 .stable) (timedEnv.uuidStr 3)
      reader 1 = some s ∧ s.Displays (loaded timedEnv (fun _ => "") (numbered 51) 3 1) := by
  obtain ⟨s, hs, hiff⟩ : ∃ s, Feed.scrolled
      (fun _ => historyPage timedEnv (fun _ => "") (numbered 51) 3 .stable) (timedEnv.uuidStr 3)
        reader 1 = some s ∧ _ :=
    chronological_iff uuid_timedEnv (cursorsRoundTrip_timedEnv _)
      (nodup_numbered 51) find?_reader 1
  have holdest : IsOldest (numbered 51) 3 (numberedRow 0) := by
    rw [IsOldest, roomRows_numbered]
    refine ⟨List.mem_map_of_mem (List.mem_range.mpr (by decide)), ?_⟩
    intro m _
    exact Nat.zero_le _
  have hlen : (roomRows (numbered 51) 3).length = messagesPerPage + 1 := by
    rw [roomRows_numbered, List.length_map, List.length_range]
    rfl
  exact ⟨s, hs, hiff.mpr (Or.inr (Or.inr ⟨hlen, numberedRow 0, holdest, by decide⟩))⟩

/-- **Two messages more than a page, and one click**: the two are shown the wrong way round. -/
theorem not_chronological : ¬∀ (env : Env) (json : Time → String) (t : Tables) (room_id : Uuid)
    (ties : Nat → NewestFirst) (c : Client) (room : Room) (k : Nat),
    (∀ u, env.uuid (env.uuidStr u) = some u) → CursorsRoundTrip env (roomRows t room_id) →
    ((roomRows t room_id).map MessageRow.createdAt).Nodup →
    c.rooms.find? (fun r => r.id = env.uuidStr room_id) = some room →
    ∃ s, Feed.scrolled (fun i => historyPage env json t room_id (ties i)) (env.uuidStr room_id) c
        k = some s ∧ s.Displays (loaded env json t room_id k) := by
  intro hall
  obtain ⟨s, hs, hshows⟩ := hall timedEnv (fun _ => "") (numbered 52) 3 (fun _ => .stable) reader
    numberedRoom 1 uuid_timedEnv (cursorsRoundTrip_timedEnv _) (nodup_numbered 52)
    find?_reader
  obtain ⟨s', hs', hiff⟩ : ∃ s, Feed.scrolled
      (fun _ => historyPage timedEnv (fun _ => "") (numbered 52) 3 .stable) (timedEnv.uuidStr 3)
        reader 1 = some s ∧ _ :=
    chronological_iff uuid_timedEnv (cursorsRoundTrip_timedEnv _)
      (nodup_numbered 52) find?_reader 1
  obtain rfl : s = s' := Option.some.inj (hs.symm.trans hs')
  have hlen : (roomRows (numbered 52) 3).length = 52 := by
    rw [roomRows_numbered, List.length_map, List.length_range]
  rcases hiff.mp hshows with h | h | ⟨h, -⟩
  · cases h
  · rw [hlen] at h
    exact absurd h (by decide)
  · rw [hlen] at h
    exact absurd h (by decide)

end Client

end NexusChat
