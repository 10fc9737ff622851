import NexusChat.Client.App
import NexusChat.Lib.Machine

/-!
# The rendered list and the current room

Every handler of a socket event looks at `state.currentRoom` before it renders. `loadMessages` does
not: it renders what it gets, whichever room is open by then. And `leaveCurrentRoom` drops the
current room without clearing the list.
-/

set_option autoImplicit false

namespace NexusChat

namespace Client

variable {c c' : Client}

/-! ## What is rendered -/

/-- A change of the client that opens no room and renders at most what passes `p`. -/
structure Renders (p : RoomId → Prop) (c c' : Client) : Prop where
  currentRoom : c'.currentRoom = c.currentRoom
  messages : ∀ e ∈ c'.messages, e ∈ c.messages ∨ p e.roomId

/-- The rendered list and the room are left alone. -/
theorem Renders.of_eq {p : RoomId → Prop} (hroom : c'.currentRoom = c.currentRoom)
    (hmessages : c'.messages = c.messages) : Renders p c c' :=
  ⟨hroom, fun _ he => Or.inl (hmessages ▸ he)⟩

theorem Renders.trans {p : RoomId → Prop} {c'' : Client} (h : Renders p c c')
    (h' : Renders p c' c'') : Renders p c c'' := by
  refine ⟨h'.currentRoom.trans h.currentRoom, fun e he => ?_⟩
  rcases h'.messages e he with hold | hp
  · exact h.messages e hold
  · exact Or.inr hp

theorem renders_renderSystemMessage {roomId : RoomId} {content : String} :
    Renders (· = roomId) c (c.renderSystemMessage roomId content) := by
  refine ⟨rfl, fun e he => ?_⟩
  rcases List.mem_append.mp he with hold | hnew
  · exact Or.inl hold
  · rw [List.mem_singleton.mp hnew]
    exact Or.inr rfl

theorem renders_renderMessage {msg : Message} {prepend : Bool} :
    Renders (· = msg.roomId) c (c.renderMessage msg prepend) := by
  unfold renderMessage
  split
  · exact renders_renderSystemMessage
  · refine ⟨rfl, fun e he => ?_⟩
    dsimp only at he
    split at he
    · rcases List.mem_cons.mp he with rfl | hold
      · exact Or.inr rfl
      · exact Or.inl hold
    · rcases List.mem_append.mp he with hold | hnew
      · exact Or.inl hold
      · rw [List.mem_singleton.mp hnew]
        exact Or.inr rfl

section Page

variable {roomId : RoomId} {msgs : List Message} {prepend : Bool}

end Page

/-! ## The invariant -/

/-- Every rendered message belongs to the current room. -/
def RendersCurrentRoom (c : Client) : Prop := ∀ e ∈ c.messages, c.inRoom e.roomId = true

/-- The page of a room arrives while the room is open, or is empty, and leaving a room succeeds
when nothing is rendered. -/
def InOrder (c : Client) : Input → Prop
  | .resume i reply =>
    match c.pending[i]?, reply with
    | some (.messages roomId _), some (.page data) =>
      c.inRoom roomId = true ∨ data.messages = []
    | some (.leaveRoom _), some .done => c.messages = []
    | _, _ => True
  | _ => True

theorem inRoom_congr (h : c'.currentRoom = c.currentRoom) (roomId : RoomId) :
    c'.inRoom roomId = c.inRoom roomId := by
  rw [inRoom, inRoom, h]

theorem RendersCurrentRoom.mono {p : RoomId → Prop} (h : RendersCurrentRoom c)
    (hr : Renders p c c') (hp : ∀ r, p r → c.inRoom r = true) : RendersCurrentRoom c' := by
  intro e he
  rw [inRoom_congr hr.currentRoom]
  rcases hr.messages e he with hold | hnew
  · exact h e hold
  · exact hp _ hnew

/-- Neither the list nor the room changes. -/
theorem RendersCurrentRoom.congr (h : RendersCurrentRoom c) (hroom : c'.currentRoom = c.currentRoom)
    (hmessages : c'.messages = c.messages) : RendersCurrentRoom c' :=
  h.mono (p := fun _ => False) (.of_eq hroom hmessages) fun _ hp => hp.elim

/-- **A socket event never mixes rooms.** -/
theorem RendersCurrentRoom.handleWSMessage (h : RendersCurrentRoom c) (event : Event) :
    RendersCurrentRoom (c.handleWSMessage event) := by
  cases event with
  | message m =>
    show RendersCurrentRoom (c.handleIncomingMessage m)
    unfold handleIncomingMessage
    dsimp only
    split
    · rename_i hin
      refine RendersCurrentRoom.mono ?_ renders_renderMessage ?_
      · exact h.congr rfl rfl
      · rintro r rfl
        exact hin
    · exact h.congr rfl rfl
  | presence room_id user_id username status => exact h.congr rfl rfl
  | onlineUsers room_id users => exact h.congr rfl rfl
  | system room_id content =>
    show RendersCurrentRoom (c.handleSystemMessage room_id content)
    unfold handleSystemMessage
    split
    · rename_i hin
      refine h.mono renders_renderSystemMessage ?_
      rintro r rfl
      exact hin
    · exact h
  | ping => exact h.congr currentRoom_wsSend messages_wsSend

/-- `switchRoom` clears the list when it opens a room. -/
theorem RendersCurrentRoom.switchRoom (h : RendersCurrentRoom c) (roomId : RoomId) :
    RendersCurrentRoom (c.switchRoom roomId) := by
  unfold Client.switchRoom
  dsimp only
  split
  · -- there is no such room
    split
    · exact h.congr currentRoom_wsSend messages_wsSend
    · exact h
  · intro e he
    simp only [loadMessages, messages_await, messages_wsSend] at he
    cases he

theorem RendersCurrentRoom.leaveCurrentRoom (h : RendersCurrentRoom c) :
    RendersCurrentRoom c.leaveCurrentRoom := by
  unfold Client.leaveCurrentRoom
  split
  · exact h
  · exact h.congr (by simp) (by simp)

theorem RendersCurrentRoom.loadMore (h : RendersCurrentRoom c) : RendersCurrentRoom c.loadMore := by
  unfold Client.loadMore
  split
  · exact h
  · split
    · split
      · exact h
      · exact h.congr rfl rfl
    · exact h

namespace Sample

def lobby : Room := { id := "lobby", name := "Lobby", memberCount := 1 }

def games : Room := { id := "games", name := "Games", memberCount := 1 }

def hello : Message where
  id := "1"
  roomId := "lobby"
  senderId := some "u"
  senderUsername := some "u"
  content := "hello"
  messageType := "text"
  createdAt := "2024-01-01T00:00:00+00:00"

def page : Page := { messages := [hello], hasMore := false, nextCursor := none }

/-- The rooms are there, and the lobby is opened. -/
def opened : List Input :=
  [.loadRooms, .resume 0 (some (.rooms [lobby, games])), .switchRoom "lobby"]

/-- `InOrder`, on these runs: pages alone are answered, each in its room. -/
def inOrder (c : Client) : Input → Bool
  | .resume i (some (.page _)) =>
    match c.pending[i]? with
    | some (.messages roomId _) => c.inRoom roomId
    | _ => false
  | .resume _ (some .done) => false
  | _ => true

end Sample

end Client

end NexusChat
