import NexusChat.Client.Rendering
import NexusChat.Messaging.ManagerFacts

/-!
# The room the server has joined

The client says `leave_room` and `join_room` on the socket and keeps `currentRoom` for itself. The
two are set at different points of an action, so they agree in between only as far as the frames
under way say so: `joined` is what the connection's rooms will be when those have arrived. It is
compared with `currentRoom`, except while the `DELETE` of a room that was left is out.
-/

set_option autoImplicit false

namespace NexusChat

namespace Client

variable {c c' : Client} {rooms : PySet RoomId} {r : RoomId}

/-! ## Frames under way -/

/-- What an accepted frame makes of the connection's rooms. -/
def Frame.applied (rooms : PySet RoomId) (f : Frame) : PySet RoomId :=
  match f.roomId with
  | none => rooms
  | some r =>
    if f.event = "join_room" then rooms.add r
    else if f.event = "leave_room" then rooms.discard r
    else rooms

/-- The connection's rooms once every frame that was sent has been handled. -/
def joined (c : Client) (rooms : PySet RoomId) : PySet RoomId := c.sent.foldl Frame.applied rooms

theorem joined_wsSend {event : String} {roomId : Option RoomId} (h : c.wsOpen = true) :
    (c.wsSend event roomId).joined rooms = Frame.applied (c.joined rooms) ⟨event, roomId⟩ := by
  rw [joined, sent_wsSend h, List.foldl_append]
  rfl

theorem mem_joined_leave {id : RoomId} (h : c.wsOpen = true) :
    r ∈ (c.wsSend "leave_room" (some id)).joined rooms ↔ r ∈ c.joined rooms ∧ r ≠ id := by
  rw [joined_wsSend h]
  exact PySet.mem_discard

theorem mem_joined_join {id : RoomId} (h : c.wsOpen = true) :
    r ∈ (c.wsSend "join_room" (some id)).joined rooms ↔ r = id ∨ r ∈ c.joined rooms := by
  rw [joined_wsSend h]
  exact PySet.mem_add

theorem inRoom_eq_true : c.inRoom r = true ↔ ∃ room, c.currentRoom = some room ∧ room.id = r := by
  rw [inRoom, Option.any_eq_true]
  exact exists_congr fun room => and_congr_right fun _ => decide_eq_true_iff

theorem not_inRoom_of_none (h : c.currentRoom = none) : ¬c.inRoom r = true := by
  rw [inRoom_eq_true, h]
  rintro ⟨room, hroom, -⟩
  cases hroom

/-! ## Functions that send nothing -/

/-- Neither the socket, nor the room, nor the actions that wait. -/
structure Quiet (c c' : Client) : Prop where
  wsOpen : c'.wsOpen = c.wsOpen
  sent : c'.sent = c.sent
  currentRoom : c'.currentRoom = c.currentRoom
  pending : c'.pending = c.pending

theorem Quiet.refl : Quiet c c := ⟨rfl, rfl, rfl, rfl⟩

theorem Quiet.trans {c'' : Client} (h : Quiet c c') (h' : Quiet c' c'') : Quiet c c'' :=
  ⟨h'.wsOpen.trans h.wsOpen, h'.sent.trans h.sent, h'.currentRoom.trans h.currentRoom,
    h'.pending.trans h.pending⟩

theorem quiet_renderMessage {msg : Message} {prepend : Bool} :
    Quiet c (c.renderMessage msg prepend) := by
  unfold renderMessage
  split
  · exact ⟨rfl, rfl, rfl, rfl⟩
  · exact ⟨rfl, rfl, rfl, rfl⟩

theorem quiet_foldl {msgs : List Message} {prepend : Bool} :
    Quiet c (msgs.foldl (fun c msg => c.renderMessage msg prepend) c) := by
  induction msgs generalizing c with
  | nil => exact .refl
  | cons m msgs ih => exact quiet_renderMessage.trans ih

theorem quiet_showMessages {roomId : RoomId} {before : Option String} {data : Page} :
    Quiet c (c.showMessages roomId before data) := by
  unfold showMessages
  refine Quiet.trans ?_ quiet_foldl
  split
  · exact ⟨rfl, rfl, rfl, rfl⟩
  · exact ⟨rfl, rfl, rfl, rfl⟩

/-! ## The invariant -/

/-- The server will be in the current room, or in none while the room is being left. -/
structure Tracks (c : Client) (rooms : PySet RoomId) : Prop where
  wsOpen : c.wsOpen = true
  room : (∀ r, r ∈ c.joined rooms ↔ c.inRoom r = true) ∨
    (∀ r, r ∉ c.joined rooms) ∧ ∃ r, Awaiting.leaveRoom r ∈ c.pending

/-- `switchRoom` finds the room it is to open, or there is none to leave, or a `DELETE` is out that
may still close the room. -/
def Opens (c : Client) (roomId : RoomId) : Prop :=
  (c.rooms.find? fun r => r.id = roomId).isSome = true ∨ c.currentRoom = none ∨
    ∃ r, Awaiting.leaveRoom r ∈ c.pending

/-- Rooms are opened that are listed; a `DELETE` succeeds with no room joined since, and fails with
a room joined since, or with no room open, or with another `DELETE` out. -/
def Heard (c : Client) (rooms : PySet RoomId) : Input → Prop
  | .switchRoom roomId => c.Opens roomId
  | .resume i reply =>
    match c.pending[i]?, reply with
    | some (.switchRoom roomId), some .done => c.Opens roomId
    | some (.leaveRoom _), some .done => ∀ r, r ∉ c.joined rooms
    | some (.leaveRoom _), none => c.currentRoom = none ∨ (∃ r, r ∈ c.joined rooms) ∨
        ∃ r, Awaiting.leaveRoom r ∈ c.pending.eraseIdx i
    | _, _ => True
  | _ => True

theorem Tracks.congr (h : c.Tracks rooms) {rooms' : PySet RoomId} (hopen : c'.wsOpen = c.wsOpen)
    (hjoined : c'.joined rooms' = c.joined rooms) (hroom : c'.currentRoom = c.currentRoom)
    (hpending : ∀ r, Awaiting.leaveRoom r ∈ c.pending → Awaiting.leaveRoom r ∈ c'.pending) :
    c'.Tracks rooms' := by
  refine ⟨hopen.trans h.wsOpen, ?_⟩
  rw [hjoined]
  rcases h.room with hagrees | ⟨hnone, r, hr⟩
  · left
    intro r
    rw [hagrees r, inRoom, inRoom, hroom]
  · exact Or.inr ⟨hnone, r, hpending r hr⟩

theorem Tracks.quiet (h : c.Tracks rooms) (hq : Quiet c c') : c'.Tracks rooms := by
  refine h.congr hq.wsOpen ?_ hq.currentRoom fun r hr => ?_
  · rw [joined, hq.sent]
    rfl
  · rw [hq.pending]
    exact hr

theorem Tracks.await (h : c.Tracks rooms) (a : Awaiting) : (c.await a).Tracks rooms :=
  h.congr rfl rfl rfl fun _ hr => List.mem_append_left _ hr

/-- With no room open, the server has none. -/
theorem Tracks.none_joined (h : c.Tracks rooms) (hroom : c.currentRoom = none) :
    ∀ r, r ∉ c.joined rooms := by
  rcases h.room with hagrees | ⟨hnone, -⟩
  · intro r hr
    exact not_inRoom_of_none hroom ((hagrees r).mp hr)
  · exact hnone

/-- The frame that leaves the current room leaves none behind. -/
theorem Tracks.none_joined_left (h : c.Tracks rooms) {room : Room}
    (hroom : c.currentRoom = some room) :
    ∀ r, r ∉ (c.wsSend "leave_room" (some room.id)).joined rooms := by
  intro r hr
  obtain ⟨hmem, hne⟩ := (mem_joined_leave h.wsOpen).mp hr
  rcases h.room with hagrees | ⟨hnone, -⟩
  · obtain ⟨room', hroom', rfl⟩ := inRoom_eq_true.mp ((hagrees r).mp hmem)
    rw [hroom] at hroom'
    cases hroom'
    exact hne rfl
  · exact hnone r hmem

/-- In no room, as far as the server is concerned. -/
theorem tracks_left (hopen : c.wsOpen = true) (hnone : ∀ r, r ∉ c.joined rooms) :
    c.Tracks rooms ↔ c.currentRoom = none ∨ ∃ r, Awaiting.leaveRoom r ∈ c.pending := by
  constructor
  · intro h
    rcases h.room with hagrees | ⟨-, hleave⟩
    · left
      cases hcur : c.currentRoom with
      | none => rfl
      | some room =>
        have hin := (hagrees room.id).mpr (inRoom_eq_true.mpr ⟨room, hcur, rfl⟩)
        exact absurd hin (hnone room.id)
    · exact Or.inr hleave
  · rintro (hroom | hleave)
    · refine ⟨hopen, Or.inl fun r => ?_⟩
      exact ⟨fun hr => absurd hr (hnone r), fun hin => absurd hin (not_inRoom_of_none hroom)⟩
    · exact ⟨hopen, Or.inr ⟨hnone, hleave⟩⟩

/-- The room is set, and the frame that joins it is sent. -/
theorem tracks_opened {room : Room} (hopen : c.wsOpen = true) (hroom : c.currentRoom = some room)
    (hnone : ∀ r, r ∉ c.joined rooms) :
    ((c.wsSend "join_room" (some room.id)).loadMessages room.id none).Tracks rooms := by
  refine Tracks.await ⟨by simpa using hopen, Or.inl fun r => ?_⟩ _
  rw [mem_joined_join hopen, inRoom_eq_true, currentRoom_wsSend, hroom]
  constructor
  · rintro (rfl | hr)
    · exact ⟨room, rfl, rfl⟩
    · exact absurd hr (hnone r)
  · rintro ⟨room', hroom', rfl⟩
    cases hroom'
    exact Or.inl rfl

/-- **`switchRoom` is heard as it is meant**, unless it leaves a room for one that is not listed. -/
theorem tracks_switchRoom (h : c.Tracks rooms) {roomId : RoomId} :
    (c.switchRoom roomId).Tracks rooms ↔ c.Opens roomId := by
  -- the client after the frame that leaves its room
  have hleft : ∀ left : Client, left.wsOpen = true → left.rooms = c.rooms →
      left.currentRoom = c.currentRoom → left.pending = c.pending →
      (∀ r, r ∉ left.joined rooms) →
      ((left.rooms.find? fun r => r.id = roomId) = none →
        (left.Tracks rooms ↔ c.Opens roomId)) ∧
      ∀ room, (left.rooms.find? fun r => r.id = roomId) = some room →
        ((({ left with currentRoom := some room, messages := [], lastSenders := ∅ }.wsSend
          "join_room" (some roomId)).loadMessages roomId none).Tracks rooms ↔ c.Opens roomId) := by
    intro left hopen hrooms hroom hpending hnone
    rw [hrooms, Opens]
    constructor
    · intro hfind
      rw [tracks_left hopen hnone, hroom, hpending, hfind]
      exact ⟨Or.inr, fun ho => ho.resolve_left fun hsome => by cases hsome⟩
    · intro room hfind
      obtain rfl : room.id = roomId := of_decide_eq_true (List.find?_some hfind :)
      rw [hfind]
      exact ⟨fun _ => Or.inl rfl, fun _ => tracks_opened hopen rfl hnone⟩
  unfold switchRoom
  cases hcur : c.currentRoom with
  | none =>
    obtain ⟨hnoRoom, hopened⟩ := hleft c h.wsOpen rfl rfl rfl (h.none_joined hcur)
    dsimp only
    split
    · rename_i hfind
      exact hnoRoom hfind
    · rename_i room hfind
      exact hopened room hfind
  | some room =>
    obtain ⟨hnoRoom, hopened⟩ := hleft (c.wsSend "leave_room" (some room.id))
      (wsOpen_wsSend.trans h.wsOpen) rooms_wsSend currentRoom_wsSend pending_wsSend
      (h.none_joined_left hcur)
    dsimp only
    split
    · rename_i hfind
      exact hnoRoom hfind
    · rename_i next hfind
      exact hopened next hfind

theorem Tracks.leaveCurrentRoom (h : c.Tracks rooms) : c.leaveCurrentRoom.Tracks rooms := by
  unfold Client.leaveCurrentRoom
  cases hcur : c.currentRoom with
  | none => exact h
  | some room =>
    refine ⟨by simp [h.wsOpen], Or.inr ⟨h.none_joined_left hcur, room.id, ?_⟩⟩
    exact List.mem_append_right _ (List.mem_singleton_self _)

theorem Tracks.handleWSMessage (h : c.Tracks rooms) (event : Event) :
    (c.handleWSMessage event).Tracks rooms := by
  cases event with
  | message m =>
    show (c.handleIncomingMessage m).Tracks rooms
    unfold handleIncomingMessage
    dsimp only
    split
    · refine Tracks.quiet ?_ quiet_renderMessage
      exact h.quiet ⟨rfl, rfl, rfl, rfl⟩
    · exact h.quiet ⟨rfl, rfl, rfl, rfl⟩
  | presence room_id user_id username status => exact h.quiet ⟨rfl, rfl, rfl, rfl⟩
  | onlineUsers room_id users => exact h.quiet ⟨rfl, rfl, rfl, rfl⟩
  | system room_id content =>
    show (c.handleSystemMessage room_id content).Tracks rooms
    unfold handleSystemMessage
    split
    · exact h.quiet ⟨rfl, rfl, rfl, rfl⟩
    · exact h
  | ping =>
    refine h.congr (by simp [Client.handleWSMessage]) (joined_wsSend h.wsOpen)
      (by simp [Client.handleWSMessage]) fun r hr => ?_
    simpa [Client.handleWSMessage] using hr

theorem Tracks.loadMore (h : c.Tracks rooms) : c.loadMore.Tracks rooms := by
  unfold Client.loadMore
  split
  · exact h
  · split
    · split
      · exact h
      · exact h.await _
    · exact h

theorem Tracks.afterRooms (h : c.Tracks rooms) (next : Option RoomId) :
    (resume.afterRooms next c).Tracks rooms := by
  unfold resume.afterRooms
  split
  · exact h.await _
  · exact h

/-! ## One step -/

/-- An action that goes on, and is not leaving a room, leaves every `DELETE` out. -/
theorem leaveRoom_mem_eraseIdx {j : Nat} {a : Awaiting} (ha : c.pending[j]? = some a)
    (hne : ∀ r, a ≠ .leaveRoom r) :
    Awaiting.leaveRoom r ∈ c.pending.eraseIdx j ↔ Awaiting.leaveRoom r ∈ c.pending := by
  constructor
  · exact List.mem_of_mem_eraseIdx
  · intro hr
    obtain ⟨k, hk⟩ := List.mem_iff_getElem?.mp hr
    refine List.mem_eraseIdx_iff_getElem?.mpr ⟨k, ?_, hk⟩
    rintro rfl
    rw [ha] at hk
    exact hne r (Option.some.inj hk)

/-- The action that goes on is not waiting any more. -/
theorem Tracks.resumed (h : c.Tracks rooms) {j : Nat} {a : Awaiting} (ha : c.pending[j]? = some a)
    (hne : ∀ r, a ≠ .leaveRoom r) : { c with pending := c.pending.eraseIdx j }.Tracks rooms :=
  h.congr rfl rfl rfl fun _ hr => (leaveRoom_mem_eraseIdx ha hne).mpr hr

/-- A `DELETE` that fails leaves the client in its room. -/
theorem tracks_not_left (h : c.Tracks rooms) {j : Nat} :
    { c with pending := c.pending.eraseIdx j }.Tracks rooms ↔
      c.currentRoom = none ∨ (∃ r, r ∈ c.joined rooms) ∨
        ∃ r, Awaiting.leaveRoom r ∈ c.pending.eraseIdx j := by
  by_cases hnone : ∀ r, r ∉ c.joined rooms
  · have hleft := tracks_left (c := { c with pending := c.pending.eraseIdx j })
      h.wsOpen hnone
    rw [hleft]
    constructor
    · exact Or.imp_right Or.inr
    · rintro (hroom | ⟨r, hr⟩ | hleave)
      · exact Or.inl hroom
      · exact absurd hr (hnone r)
      · exact Or.inr hleave
  · push Not at hnone
    refine ⟨fun _ => Or.inr (Or.inl hnone), fun _ => ⟨h.wsOpen, Or.inl ?_⟩⟩
    obtain ⟨r, hr⟩ := hnone
    exact h.room.resolve_right fun hleaving => hleaving.1 r hr

/-- **A step keeps the server and the client together exactly if it is heard.** -/
theorem tracks_step_iff (h : c.Tracks rooms) {i : Input} (hs : c.step i = some c') :
    c'.Tracks rooms ↔ c.Heard rooms i := by
  cases i with
  | loadRooms | createRoom | joinRoom =>
    cases hs
    exact ⟨fun _ => trivial, fun _ => h.await _⟩
  | switchRoom roomId =>
    cases hs
    exact tracks_switchRoom h
  | leaveCurrentRoom =>
    cases hs
    exact ⟨fun _ => trivial, fun _ => h.leaveCurrentRoom⟩
  | loadMore =>
    cases hs
    exact ⟨fun _ => trivial, fun _ => h.loadMore⟩
  | event e =>
    cases hs
    exact ⟨fun _ => trivial, fun _ => h.handleWSMessage e⟩
  | resume j reply =>
    simp only [step] at hs
    split at hs
    · cases hs
    · rename_i a ha
      simp only [Heard, ha]
      unfold resume at hs
      split at hs
      · split at hs
        · cases hs
          -- a page of messages is shown, and the rooms stay
          have h₀ := h.resumed ha (by intro r hr; cases hr)
          exact ⟨fun _ => trivial, fun _ => h₀.quiet quiet_showMessages⟩
        · cases hs
      · cases hs
        have h₀ := h.resumed ha (by intro r hr; cases hr)
        exact ⟨fun _ => trivial, fun _ => h₀.await _⟩
      · cases hs
        have h₀ := h.resumed ha (by intro r hr; cases hr)
        exact ⟨fun _ => trivial, fun _ => h₀.await _⟩
      · -- the room was left: the client follows
        cases hs
        constructor
        · intro hafter
          have hnone := hafter.none_joined rfl
          exact hnone
        · intro hnone
          refine Tracks.await ((tracks_left ?_ ?_).mpr (Or.inl rfl)) _
          · exact h.wsOpen
          · exact hnone
      · cases hs
        have h₀ := h.resumed ha (by intro r hr; cases hr)
        refine ⟨fun _ => trivial, fun _ => Tracks.afterRooms ?_ _⟩
        exact h₀.quiet ⟨rfl, rfl, rfl, rfl⟩
      · cases hs
        have h₀ := h.resumed ha (by intro r hr; cases hr)
        -- the room that was joined is opened
        rw [tracks_switchRoom h₀]
        exact or_congr_right (or_congr_right (exists_congr fun r =>
          leaveRoom_mem_eraseIdx ha (by intro r hr; cases hr)))
      · cases hs
        have h₀ := h.resumed ha (by intro r hr; cases hr)
        exact ⟨fun _ => trivial, fun _ => h₀.afterRooms _⟩
      · cases hs
        exact ⟨fun _ => trivial, fun _ => h.resumed ha (by intro r hr; cases hr)⟩
      · cases hs
        exact ⟨fun _ => trivial, fun _ => h.resumed ha (by intro r hr; cases hr)⟩
      · cases hs
        exact ⟨fun _ => trivial, fun _ => h.resumed ha (by intro r hr; cases hr)⟩
      · -- the room was not left: the client stays in it, and the server may have left it
        cases hs
        exact tracks_not_left h
      · cases hs

end Client

/-! ## Client and server -/

/-- A client and the server's side of its connection. -/
structure ClientSession (π : Type) where
  client : Client
  manager : ConnectionManager π
  userId : UserId
  conn : ConnId

namespace ClientSession

open Client

variable {π : Type} {s s' : ClientSession π} {m : ConnectionManager π}

/-- The connection's `rooms`. -/
def serverRooms (s : ClientSession π) : PySet RoomId := (s.manager.heap s.conn).rooms

/-- The user has just been registered. -/
def init (m : ConnectionManager π) (user_id : UserId) (username : String) : ClientSession π where
  client := .init user_id
  manager := m.register user_id username
  userId := user_id
  conn := m.nextConn

/-- The session handles a frame and accepts it. -/
def accept (user_id : UserId) (f : Frame) (m : ConnectionManager π) : ConnectionManager π :=
  match f.roomId with
  | none => m
  | some r =>
    if f.event = "join_room" then m.joinRoom user_id r
    else if f.event = "leave_room" then (m.leaveRoom user_id (.str r)).2
    else m

inductive Label where
  | client (i : Input)
  /-- the oldest frame under way is handled -/
  | serve
  deriving DecidableEq

def step (s : ClientSession π) : Label → Option (ClientSession π)
  | .client i => (s.client.step i).map fun client => { s with client }
  | .serve =>
    match s.client.sent with
    | [] => none
    | f :: sent =>
      some { s with client := { s.client with sent }, manager := accept s.userId f s.manager }

/-- The client's steps are heard. -/
def Heard (s : ClientSession π) : Label → Prop
  | .client i => s.client.Heard s.serverRooms i
  | .serve => True

/-- The connection is registered, and the server follows the client. -/
structure Tracks (s : ClientSession π) : Prop where
  registered : s.manager.connections.get? s.userId = some s.conn
  client : s.client.Tracks s.serverRooms

theorem tracks_init {user_id : UserId} {username : String} :
    (init m user_id username).Tracks := by
  refine ⟨?_, ?_⟩
  · show (m.register user_id username).connections.get? user_id = some m.nextConn
    rw [ConnectionManager.get?_register, if_pos rfl]
  · refine ⟨rfl, Or.inl fun r => ?_⟩
    have hrooms : (init m user_id username).serverRooms = ∅ := by
      show ((m.register user_id username).heap m.nextConn).rooms = ∅
      rw [ConnectionManager.heap_register, if_pos rfl]
      rfl
    rw [hrooms]
    exact ⟨fun hr => absurd hr (PySet.not_mem_empty r), fun hin => by cases hin⟩

theorem connections_accept {user_id : UserId} {f : Frame} :
    (accept user_id f m).connections = m.connections := by
  unfold accept
  split
  · rfl
  · split
    · exact ConnectionManager.connections_joinRoom
    · split
      · exact ConnectionManager.connections_leaveRoom
      · rfl

/-- The manager does with the connection's rooms what the frame says. -/
theorem rooms_accept {user_id : UserId} {c : ConnId} {f : Frame}
    (h : m.connections.get? user_id = some c) :
    ((accept user_id f m).heap c).rooms = f.applied (m.heap c).rooms := by
  unfold accept Frame.applied
  split
  · rfl
  · split
    · rw [ConnectionManager.heap_joinRoom, if_pos h]
    · split
      · rw [ConnectionManager.heap_leaveRoom]
        dsimp only
        rw [if_pos h]
      · rfl

/-- **A step keeps the server and the client together exactly if it is heard.** -/
theorem tracks_step_iff (h : s.Tracks) {l : Label} (hs : s.step l = some s') :
    s'.Tracks ↔ s.Heard l := by
  cases l with
  | client i =>
    obtain ⟨client, hc, rfl⟩ := Option.map_eq_some_iff.mp hs
    have hiff := Client.tracks_step_iff h.client hc
    constructor
    · intro h'
      exact hiff.mp h'.client
    · intro hheard
      exact ⟨h.registered, hiff.mpr hheard⟩
  | serve =>
    simp only [step] at hs
    split at hs
    · cases hs
    · rename_i f sent hsent
      cases hs
      refine ⟨fun _ => trivial, fun _ => ⟨?_, ?_⟩⟩
      · show (accept s.userId f s.manager).connections.get? s.userId = some s.conn
        rw [connections_accept]
        exact h.registered
      · -- what was to come of the frame has come
        refine h.client.congr rfl ?_ rfl fun r hr => hr
        show sent.foldl Frame.applied ((accept s.userId f s.manager).heap s.conn).rooms =
          s.client.sent.foldl Frame.applied s.serverRooms
        rw [rooms_accept h.registered, hsent]
        rfl

/-- **Client and server agree on the joined room** once nothing is pending and nothing is under
way, where every step is heard. -/
theorem serverRooms_currentRoom {user_id : UserId} {username : String}
    (hr : Reach step Heard (init m user_id username) s) (hpending : s.client.pending = [])
    (hsent : s.client.sent = []) (r : RoomId) :
    r ∈ s.serverRooms ↔ s.client.inRoom r = true := by
  have h : s.Tracks :=
    hr.invariant tracks_init fun _ _ _ h hheard hs => (tracks_step_iff h hs).mpr hheard
  have hjoined : s.client.joined s.serverRooms = s.serverRooms := by
    rw [joined, hsent]
    rfl
  rcases h.client.room with hagrees | ⟨-, room_id, hleave⟩
  · rw [← hagrees r, hjoined]
  · rw [hpending] at hleave
    cases hleave

/-! ### Joining a room that is not listed -/

namespace Sample

/-- The lobby is opened, and its page shown. -/
def opened : List Label :=
  (Client.Sample.opened ++ [Input.resume 0 (some (.page Client.Sample.page))]).map .client ++
    [.serve]

/-- `Heard`, on these runs: listed rooms are opened, and no room is left. -/
def heard (s : ClientSession Nat) : Label → Bool
  | .client (.switchRoom roomId) => (s.client.rooms.find? fun r => r.id = roomId).isSome
  | .client (.resume _ (some (.page _))) | .client (.resume _ (some (.rooms _))) => true
  | .client .loadRooms | .serve => true
  | .client _ => false

theorem heard_of_heard (s : ClientSession Nat) (l : Label) (h : heard s l = true) : s.Heard l := by
  unfold heard at h
  split at h
  · exact Or.inl h
  · simp [ClientSession.Heard, Client.Heard]
  · simp [ClientSession.Heard, Client.Heard]
  · trivial
  · trivial
  · cases h

/-- Nothing is pending or under way, and the client is in the lobby. -/
def idle (s : ClientSession Nat) : Bool :=
  s.client.pending = [] && s.client.sent = [] && s.client.inRoom "lobby"

end Sample

open ClientSession.Sample in
/-- The lobby is open in the client, and joined in the server. -/
theorem serverRooms_currentRoom_lobby : ∃ s : ClientSession Nat,
    Reach step Heard (init .init "u" "u") s ∧ s.client.inRoom "lobby" = true ∧
      "lobby" ∈ s.serverRooms := by
  have hrun : ((replayIf step heard opened (init .init "u" "u")).any idle) = true := by
    decide +kernel
  obtain ⟨s, hs, hidle⟩ := (Option.any_eq_true _ _).mp hrun
  have hr := Reach.of_replayIf heard_of_heard .init hs
  simp only [idle, Bool.and_eq_true, decide_eq_true_eq] at hidle
  obtain ⟨⟨hpending, hsent⟩, hroom⟩ := hidle
  exact ⟨s, hr, hroom, (serverRooms_currentRoom hr hpending hsent "lobby").mpr hroom⟩

open ClientSession.Sample in
/-- **Joining a room while the list cannot be loaded leaves the room that stays open.** -/
theorem not_serverRooms_currentRoom : ¬∀ (m : ConnectionManager Nat) (user_id : UserId)
    (username : String) (s : ClientSession Nat), Reach step Always (init m user_id username) s →
    s.client.pending = [] → s.client.sent = [] →
    ∀ r, r ∈ s.serverRooms ↔ s.client.inRoom r = true := by
  intro hall
  have hrun : ((replay step (opened ++ [.client (.joinRoom "attic"),
      .client (.resume 0 (some .done)), .client (.resume 0 none),
      .client (.resume 0 (some .done)), .serve]) (init .init "u" "u")).any
        fun s => idle s && s.serverRooms.isEmpty) = true := by
    decide +kernel
  obtain ⟨s, hs, htest⟩ := (Option.any_eq_true _ _).mp hrun
  simp only [idle, Bool.and_eq_true, decide_eq_true_eq] at htest
  obtain ⟨⟨⟨hpending, hsent⟩, hroom⟩, hempty⟩ := htest
  have hmem := (hall .init "u" "u" s (.of_replay .init hs) hpending hsent "lobby").mpr hroom
  exact PySet.isEmpty_iff.mp hempty "lobby" hmem

end ClientSession

end NexusChat
