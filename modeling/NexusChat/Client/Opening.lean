import NexusChat.Client.Payloads
import NexusChat.Client.JoinedRoom
import NexusChat.Messaging.SendQueue

/-!
# Opening a room

`switchRoom` joins the room on the socket and asks for its history over HTTP, and the two answers
are not ordered. A message may be on the page, among the payloads of the socket, or both; and the
page clears the list before it is rendered. So a message is seen once where the two complete each
other: a payload that is handled before the page is one the page has, a payload that is handled
after it is one the page has not, and the room's connections miss no payload but of a message the
page has, or will have.
-/

set_option autoImplicit false

namespace NexusChat

open Client

/-- `MESSAGES_PER_PAGE` -/
def messagesPerPage : Nat := 50

/-- What stays the same while a room is opened: the room, and the user's connection. -/
structure Visit where
  env : Env
  /-- how a response renders a timestamp -/
  json : Time → String
  /-- `MAX_SEND_QUEUE_SIZE` -/
  maxsize : Nat
  room : Uuid
  userId : UserId
  conn : ConnId

/-- The client, the server as far as it serves the room to it, and what is under way: the frames
in `client.sent`, the payloads on their way to the room's connections, those of the connection the
client has not handled, and the page. -/
structure Opening where
  client : Client
  manager : ConnectionManager WSOutboundMessage
  tables : Tables
  published : List WSOutboundMessage
  /-- how many payloads of the socket the client has handled -/
  seen : Nat
  page : Option Page

namespace Opening

inductive Label where
  /-- the oldest frame under way is handled -/
  | serve
  /-- a message of the room is stored, and published -/
  | commit (row : MessageRow) (sender_id username : String)
  /-- a published payload reaches the connections of the room -/
  | broadcast (i : Nat)
  /-- the history request is answered -/
  | query (ties : NewestFirst)
  /-- the answer reaches the client -/
  | respond
  | sendTake
  | sendDone
  /-- a payload of the socket reaches the client -/
  | receive

variable (v : Visit)

/-- The room's id in the API. -/
def roomId : RoomId := v.env.uuidStr v.room

/-- What `_handle_message` publishes. -/
def payload (row : MessageRow) (sender_id username : String) : WSOutboundMessage :=
  .chatMessage (v.env.uuidStr row.id) (.str (roomId v)) sender_id username row.content "text"
    (v.env.isoformat row.createdAt)

/-- The row can be stored: it is a text of the room, clashes with no row, and leaves the room with
less than a page. -/
def storable (t : Tables) (row : MessageRow) : Bool :=
  row.roomId = v.room && row.messageType = .text &&
    t.messages.rows.all (fun m => !DbOp.messageClash row m) &&
    (MessageService.roomRows t v.room).length + 1 < messagesPerPage

def step (s : Opening) : Label → Option Opening
  | .serve =>
    match s.client.sent with
    | [] => none
    | f :: sent =>
      some { s with
        client := { s.client with sent }
        manager := ClientSession.accept v.userId f s.manager }
  | .commit row sender_id username =>
    if storable v s.tables row then
      some { s with
        tables := s.tables.apply (.addMessage row)
        published := s.published ++ [payload v row sender_id username] }
    else none
  | .broadcast i =>
    match s.published[i]? with
    | none => none
    | some p =>
      some { s with
        published := s.published.eraseIdx i
        manager := s.manager.broadcastToRoom v.maxsize (roomId v) p none }
  | .query ties =>
    if s.client.pending = [.messages (roomId v) none] ∧ s.page = none then
      (firstPage v.env v.json s.tables ties v.room messagesPerPage).map fun page =>
        { s with page := some page }
    else none
  | .respond =>
    match s.page with
    | none => none
    | some page =>
      (s.client.step (.resume 0 (some (.page page)))).map fun client =>
        { s with client, page := none }
  | .sendTake => (s.manager.sendTake v.conn).map fun manager => { s with manager }
  | .sendDone => (s.manager.sendDone v.conn true true).map fun manager => { s with manager }
  | .receive =>
    match ((s.manager.heap v.conn).sent)[s.seen]? with
    | none => none
    | some p => some { s with client := s.client.receive p, seen := s.seen + 1 }

/-- `id` of a payload. -/
def payloadId (p : WSOutboundMessage) : Option String := field "id" p.data

/-- The messages that are rendered, by their ids. -/
def shown (s : Opening) : List (Option String) := s.client.messages.map Element.messageId

/-- The messages of a page. -/
def pageIds (page : Page) : List (Option String) := page.messages.map fun m => some m.id

/-- The payloads that have not reached the client. -/
def underWay (s : Opening) : List WSOutboundMessage :=
  ((s.manager.heap v.conn).passed).drop s.seen ++ s.published

/-- The messages of the room. -/
def stored (t : Tables) : List (Option String) :=
  (MessageService.roomRows t v.room).map fun m => some (v.env.uuidStr m.id)

/-- **A payload goes where the page does not**: it is handled before the page if the page has its
message or is still to be queried, and after the page if the page has it not; and the user is out
of the room only for messages the client gets otherwise. -/
def Completes (s : Opening) : Label → Prop
  | .broadcast i => ∀ p, s.published[i]? = some p →
      v.userId ∈ s.manager.getRoomUserIds (roomId v) ∨
        match s.page with
        | some page => payloadId p ∈ pageIds page
        | none => s.client.pending ≠ [] ∨ payloadId p ∈ s.shown
  | .receive => ∀ p, ((s.manager.heap v.conn).sent)[s.seen]? = some p →
      match s.page with
      | some page => payloadId p ∈ pageIds page
      | none => s.client.pending ≠ [] ∨ payloadId p ∉ s.shown
  | _ => True

/-- The connection works. -/
structure Working (m : ConnectionManager WSOutboundMessage) : Prop where
  owned : m.Owned
  registered : m.connections.get? v.userId = some v.conn
  connected : (m.heap v.conn).websocket = ⟨.connected, .connected⟩
  live : ¬(m.heap v.conn).Finished

/-- Payloads of the room's messages, one for a message at most. -/
structure Announces (t : Tables) (ps : List WSOutboundMessage) : Prop where
  payloads : ∀ p ∈ ps, ∃ m ∈ MessageService.roomRows t v.room, ∃ sender_id username,
    p = payload v m sender_id username
  nodup : (ps.map payloadId).Nodup

/-- Every stored message is among `ids`, once, or still to come. -/
structure Covers (ids all rest : List (Option String)) : Prop where
  nodup : ids.Nodup
  stored : ∀ x ∈ ids, x ∈ all
  covers : ∀ x ∈ all, x ∈ ids ∨ x ∈ rest

/-- The page was not queried, is under way, or has been rendered. -/
def Phase (s : Opening) : Prop :=
  match s.page with
  | some page => s.client.pending = [.messages (roomId v) none] ∧
      Covers (pageIds page) (stored v s.tables) ((s.underWay v).map payloadId) ∧
      ∀ m ∈ page.messages, m.messageType ≠ "system"
  | none => s.client.pending = [.messages (roomId v) none] ∨
      s.client.pending = [] ∧ Covers s.shown (stored v s.tables) ((s.underWay v).map payloadId)

structure Sound (s : Opening) : Prop where
  inRoom : s.client.inRoom (roomId v) = true
  working : Working v s.manager
  announces : Announces v s.tables (s.underWay v)
  handled : s.seen ≤ (s.manager.heap v.conn).sent.length
  texts : ∀ m ∈ MessageService.roomRows s.tables v.room, m.messageType = .text
  few : (MessageService.roomRows s.tables v.room).length < messagesPerPage
  phase : Phase v s

variable {v} {s s' : Opening}

theorem payloadId_payload {row : MessageRow} {sender_id username : String} :
    payloadId (payload v row sender_id username) = some (v.env.uuidStr row.id) := by
  simp [payloadId, payload, WSOutboundMessage.chatMessage, field, Json.lookup]

/-- What is announced is stored. -/
theorem Announces.mem_stored {t : Tables} {ps : List WSOutboundMessage} (h : Announces v t ps)
    {x : Option String} (hx : x ∈ ps.map payloadId) : x ∈ stored v t := by
  obtain ⟨p, hp, rfl⟩ := List.mem_map.mp hx
  obtain ⟨m, hm, sender_id, username, rfl⟩ := h.payloads p hp
  rw [payloadId_payload]
  exact List.mem_map.mpr ⟨m, hm, rfl⟩

theorem Announces.of_sublist {t : Tables} {ps ps' : List WSOutboundMessage}
    (h : Announces v t ps) (hsub : ps'.Sublist ps) : Announces v t ps' :=
  ⟨fun p hp => h.payloads p (hsub.subset hp), h.nodup.sublist (hsub.map payloadId)⟩

theorem Announces.of_perm {t : Tables} {ps ps' : List WSOutboundMessage}
    (h : Announces v t ps) (hperm : ps'.Perm ps) : Announces v t ps' :=
  ⟨fun p hp => h.payloads p (hperm.mem_iff.mp hp), (hperm.map payloadId).nodup_iff.mpr h.nodup⟩

/-- Fewer payloads are under way than a page has messages. -/
theorem Announces.length_le {t : Tables} {ps : List WSOutboundMessage} (h : Announces v t ps) :
    ps.length ≤ (MessageService.roomRows t v.room).length := by
  have hsub := h.nodup.subperm fun x hx => h.mem_stored hx
  have hlen := hsub.length_le
  rwa [stored, List.length_map, List.length_map] at hlen

theorem Covers.of_perm {ids ids' all rest rest' : List (Option String)}
    (h : Covers ids all rest) (hids : ids'.Perm ids) (hrest : ∀ x ∈ rest, x ∈ rest') :
    Covers ids' all rest' :=
  ⟨hids.nodup_iff.mpr h.nodup, fun x hx => h.stored x (hids.mem_iff.mp hx),
    fun x hx => (h.covers x hx).imp hids.mem_iff.mpr (hrest x)⟩

/-- What is shown already need not come. -/
theorem Covers.drop {ids all rest rest' : List (Option String)} {x : Option String}
    (h : Covers ids all rest) (hx : x ∈ ids) (hrest : ∀ y ∈ rest, y = x ∨ y ∈ rest') :
    Covers ids all rest' := by
  refine ⟨h.nodup, h.stored, fun y hy => ?_⟩
  rcases h.covers y hy with hids | hr
  · exact Or.inl hids
  · rcases hrest y hr with rfl | hr'
    · exact Or.inl hx
    · exact Or.inr hr'

/-- What comes is shown. -/
theorem Covers.append {ids all rest rest' : List (Option String)} {x : Option String}
    (h : Covers ids all rest) (hx : x ∉ ids) (hstored : x ∈ all)
    (hrest : ∀ y ∈ rest, y = x ∨ y ∈ rest') : Covers (ids ++ [x]) all rest' := by
  refine ⟨?_, fun y hy => ?_, fun y hy => ?_⟩
  · rw [List.nodup_append]
    refine ⟨h.nodup, List.nodup_singleton x, ?_⟩
    rintro a ha b hb rfl
    exact hx (List.mem_singleton.mp hb ▸ ha)
  · rcases List.mem_append.mp hy with hold | hnew
    · exact h.stored y hold
    · exact List.mem_singleton.mp hnew ▸ hstored
  · rcases h.covers y hy with hids | hr
    · exact Or.inl (List.mem_append_left _ hids)
    · rcases hrest y hr with rfl | hr'
      · exact Or.inl (List.mem_append_right _ (List.mem_singleton_self _))
      · exact Or.inr hr'

/-! ## The client's steps -/

section ClientSteps

variable {c : Client}

/-- A rendered text is appended. -/
theorem shown_renderMessage {msg : Message} (h : msg.messageType ≠ "system") :
    (c.renderMessage msg false).messages.map Element.messageId =
      c.messages.map Element.messageId ++ [some msg.id] := by
  unfold renderMessage
  rw [if_neg h]
  simp [Element.messageId]

theorem shown_foldl {msgs : List Message} (h : ∀ m ∈ msgs, m.messageType ≠ "system") :
    (msgs.foldl (fun c msg => c.renderMessage msg false) c).messages.map Element.messageId =
      c.messages.map Element.messageId ++ msgs.map fun m => some m.id := by
  induction msgs generalizing c with
  | nil => simp
  | cons m msgs ih =>
    have hm := shown_renderMessage (c := c) (h m List.mem_cons_self)
    rw [List.foldl_cons, ih fun m' hm' => h m' (List.mem_cons_of_mem _ hm'), hm]
    simp

/-- The page takes the place of what was shown. -/
theorem shown_showMessages {room_id : RoomId} {page : Page}
    (h : ∀ m ∈ page.messages, m.messageType ≠ "system") :
    (c.showMessages room_id none page).messages.map Element.messageId = pageIds page := by
  unfold showMessages
  dsimp only [Option.isNone_none, Option.isSome_none]
  rw [if_pos rfl, shown_foldl h]
  rfl

theorem handleIncomingMessage_of_inRoom {m : Message} (hin : c.inRoom m.roomId = true) :
    ∃ cached : Client, c.handleIncomingMessage m = cached.renderMessage m false ∧
      Quiet c cached ∧ cached.messages = c.messages :=
  ⟨_, if_pos hin, ⟨rfl, rfl, rfl, rfl⟩, rfl⟩

/-- A payload of the room is shown at the end. -/
theorem receive_payload {row : MessageRow} {sender_id username : String}
    (hin : c.inRoom (roomId v) = true) :
    Quiet c (c.receive (payload v row sender_id username)) ∧
      (c.receive (payload v row sender_id username)).messages.map Element.messageId =
        c.messages.map Element.messageId ++ [some (v.env.uuidStr row.id)] := by
  unfold receive payload
  rw [decode_chatMessage]
  dsimp only [handleWSMessage]
  obtain ⟨cached, heq, hq, hmessages⟩ := handleIncomingMessage_of_inRoom
    (m := ⟨v.env.uuidStr row.id, roomId v, some sender_id, some username, row.content, "text",
      v.env.isoformat row.createdAt⟩) hin
  rw [heq]
  refine ⟨hq.trans quiet_renderMessage, ?_⟩
  rw [shown_renderMessage (show "text" ≠ "system" by decide), hmessages]

end ClientSteps

/-! ## The server's steps -/

section ServerSteps

variable {m : ConnectionManager WSOutboundMessage} {c : ConnId}

/-- A frame changes the rooms of a connection only. -/
theorem heap_accept {user_id : UserId} {f : Frame} :
    ∃ rooms, (ClientSession.accept user_id f m).heap c = { m.heap c with rooms } := by
  unfold ClientSession.accept
  split
  · exact ⟨_, rfl⟩
  · split
    · rw [ConnectionManager.heap_joinRoom]
      split
      · exact ⟨_, rfl⟩
      · exact ⟨_, rfl⟩
    · split
      · rw [ConnectionManager.heap_leaveRoom]
        dsimp only
        split
        · exact ⟨_, rfl⟩
        · exact ⟨_, rfl⟩
      · exact ⟨_, rfl⟩

theorem owned_accept {user_id : UserId} {f : Frame} (h : m.Owned) :
    (ClientSession.accept user_id f m).Owned := by
  unfold ClientSession.accept
  split
  · exact h
  · rename_i r hr
    split
    · change ((ManagerOp.joinRoom user_id r).after 0 0 m).Owned
      exact ConnectionManager.owned_after h
    · split
      · change ((ManagerOp.leaveRoom user_id (.str r)).after 0 0 m).Owned
        exact ConnectionManager.owned_after h
      · exact h

theorem working_accept {f : Frame} (h : Working v m) :
    Working v (ClientSession.accept v.userId f m) := by
  obtain ⟨rooms, hheap⟩ := heap_accept (m := m) (c := v.conn) (f := f)
  refine ⟨owned_accept h.owned, ?_, ?_, ?_⟩
  · rw [ClientSession.connections_accept]
    exact h.registered
  · rw [hheap]
    exact h.connected
  · rw [hheap]
    exact h.live

/-- The connection of the room's members. -/
theorem addressees_members (h : Working v m) :
    m.addressees (m.getRoomUserIds (roomId v)).elems v.conn =
      decide (v.userId ∈ m.getRoomUserIds (roomId v)) := by
  rw [ConnectionManager.addressees, Bool.eq_iff_iff, List.any_eq_true, decide_eq_true_iff]
  constructor
  · rintro ⟨u, hu, hconn⟩
    have hc := of_decide_eq_true hconn
    have howner := (h.owned u v.conn hc).1
    have howner' := (h.owned v.userId v.conn h.registered).1
    rw [howner] at howner'
    exact howner' ▸ hu
  · intro hmem
    exact ⟨v.userId, hmem, decide_eq_true h.registered⟩

/-- A broadcast with room in the queue reaches the connection if the user is in the room. -/
theorem heap_broadcast (h : Working v m) {p : WSOutboundMessage}
    (hroom : (m.heap v.conn).sendQueue.length < v.maxsize) :
    (m.broadcastToRoom v.maxsize (roomId v) p none).heap v.conn =
      if v.userId ∈ m.getRoomUserIds (roomId v) then
        { m.heap v.conn with sendQueue := (m.heap v.conn).sendQueue ++ [p] }
      else m.heap v.conn := by
  have hall : ((m.getRoomUserIds (roomId v)).elems.filter fun u => some u ≠ none) =
      (m.getRoomUserIds (roomId v)).elems := by
    simp
  rw [ConnectionManager.broadcastToRoom, ConnectionManager.heap_deliverAll h.owned
    ((m.getRoomUserIds _).nodup.filter _), hall, addressees_members h]
  have hfull : ConnectionManager.full v.maxsize (m.heap v.conn).sendQueue = false := by
    simp only [ConnectionManager.full, Bool.and_eq_false_iff, decide_eq_false_iff_not]
    omega
  rw [hfull]
  simp

theorem working_broadcast (h : Working v m) {p : WSOutboundMessage}
    (hroom : (m.heap v.conn).sendQueue.length < v.maxsize) :
    Working v (m.broadcastToRoom v.maxsize (roomId v) p none) := by
  refine ⟨?_, ?_, ?_, ?_⟩
  · exact ConnectionManager.owned_congr h.owned
      (fun _ _ hc => by rwa [ConnectionManager.connections_broadcastToRoom] at hc)
      (fun _ => congrArg Prod.snd ConnectionManager.identity_broadcastToRoom)
      (Nat.le_of_eq ConnectionManager.flags_broadcastToRoom.1.symm)
  · rw [ConnectionManager.connections_broadcastToRoom]
    exact h.registered
  · rw [heap_broadcast h hroom]
    split <;> exact h.connected
  · rw [heap_broadcast h hroom]
    split <;> exact h.live

/-- On a socket that is connected the send task goes on. -/
theorem working_sendTake {m' : ConnectionManager WSOutboundMessage} (h : Working v m)
    (hs : m.sendTake v.conn = some m') : Working v m' := by
  unfold ConnectionManager.sendTake at hs
  split at hs
  · cases hs
    refine ⟨ConnectionManager.owned_modify h.owned fun _ => rfl, h.registered, ?_, ?_⟩
    · rw [ConnectionManager.heap_modify, if_pos rfl]
      exact h.connected
    · rw [ConnectionManager.heap_modify, if_pos rfl]
      intro hfinished
      simp only [WebSocketConnection.Finished, if_pos h.connected] at hfinished
      cases hfinished
  · cases hs

theorem working_sendDone {m' : ConnectionManager WSOutboundMessage} (h : Working v m)
    (hs : m.sendDone v.conn true true = some m') : Working v m' := by
  unfold ConnectionManager.sendDone at hs
  split at hs
  · cases hs
    refine ⟨ConnectionManager.owned_modify h.owned fun _ => rfl, h.registered, ?_, ?_⟩
    · rw [ConnectionManager.heap_modify, if_pos rfl]
      exact h.connected
    · rw [ConnectionManager.heap_modify, if_pos rfl]
      intro hfinished
      cases hfinished
  · cases hs

/-- The send task only appends to what it has written. -/
theorem written_sendTake {m' : ConnectionManager WSOutboundMessage}
    (hs : m.sendTake c = some m') : (m'.heap c).sent = (m.heap c).sent := by
  unfold ConnectionManager.sendTake at hs
  split at hs
  · cases hs
    rw [ConnectionManager.heap_modify, if_pos rfl]
  · cases hs

theorem written_sendDone {m' : ConnectionManager WSOutboundMessage}
    (hs : m.sendDone c true true = some m') :
    (m.heap c).sent.length ≤ (m'.heap c).sent.length := by
  unfold ConnectionManager.sendDone at hs
  split at hs
  · cases hs
    rw [ConnectionManager.heap_modify, if_pos rfl]
    simp
  · cases hs

end ServerSteps

/-! ## One step -/

/-- The phase looks at the client, at what is stored and at what is under way. -/
theorem Phase.congr (h : Phase v s) (hpending : s'.client.pending = s.client.pending)
    (hshown : s'.client.messages = s.client.messages) (htables : s'.tables = s.tables)
    (hway : s'.underWay v = s.underWay v) (hpage : s'.page = s.page) : Phase v s' := by
  unfold Phase shown at h ⊢
  rw [hpage, hpending, hshown, htables, hway]
  exact h

/-- What is under way fits in a queue. -/
theorem Sound.queue_length (h : Sound v s) (hmax : messagesPerPage ≤ v.maxsize) :
    ((s.manager.heap v.conn).sendQueue).length < v.maxsize := by
  have hlen := h.announces.length_le
  have hfew := h.few
  have hhandled := h.handled
  simp only [underWay, WebSocketConnection.passed, List.length_append, List.length_drop] at hlen
  omega

theorem Sound.serve (h : Sound v s) {f : Frame} {sent : List Frame} : Sound v
    { s with
      client := { s.client with sent }
      manager := ClientSession.accept v.userId f s.manager } := by
  obtain ⟨rooms, hheap⟩ := heap_accept (m := s.manager) (c := v.conn) (f := f)
  have hway : underWay v
      { s with
        client := { s.client with sent }
        manager := ClientSession.accept v.userId f s.manager } = s.underWay v := by
    unfold underWay
    dsimp only
    rw [hheap]
    rfl
  refine ⟨h.inRoom, working_accept h.working, ?_, ?_, h.texts, h.few, ?_⟩
  · rw [hway]
    exact h.announces
  · show s.seen ≤ ((ClientSession.accept v.userId f s.manager).heap v.conn).sent.length
    rw [hheap]
    exact h.handled
  · exact h.phase.congr rfl rfl rfl hway rfl

/-- The send task hands on what is queued. -/
theorem Sound.send (h : Sound v s) {m : ConnectionManager WSOutboundMessage} (hw : Working v m)
    (hd : (s.manager.heap v.conn).Drains (m.heap v.conn))
    (hsent : (s.manager.heap v.conn).sent.length ≤ (m.heap v.conn).sent.length) :
    Sound v { s with manager := m } := by
  have hway : underWay v { s with manager := m } = s.underWay v := by
    unfold underWay
    dsimp only
    rw [(hd.live hw.live).2]
  refine ⟨h.inRoom, hw, ?_, Nat.le_trans h.handled hsent, h.texts, h.few, ?_⟩
  · rw [hway]
    exact h.announces
  · exact h.phase.congr rfl rfl rfl hway rfl

/-- The ids that must complete what is under way: those of the page, or those shown. -/
def Displays (s : Opening) (ids : List (Option String)) : Prop :=
  match s.page with
  | some page => ids = pageIds page
  | none => s.client.pending = [] ∧ ids = s.shown

/-- The client stays as it is, and what it displays still completes what is under way. -/
theorem Phase.update (h : Phase v s) (hclient : s'.client = s.client) (hpage : s'.page = s.page)
    (hcovers : ∀ ids, s.Displays ids →
      Covers ids (stored v s.tables) ((s.underWay v).map payloadId) →
      Covers ids (stored v s'.tables) ((s'.underWay v).map payloadId)) : Phase v s' := by
  unfold Phase Displays shown at *
  rw [hpage, hclient]
  split at h
  · rename_i page heq
    rw [heq] at hcovers
    exact ⟨h.1, hcovers _ rfl h.2.1, h.2.2⟩
  · rename_i heq
    rw [heq] at hcovers
    rcases h with hwait | ⟨hdone, hcov⟩
    · exact Or.inl hwait
    · exact Or.inr ⟨hdone, hcovers _ ⟨hdone, rfl⟩ hcov⟩

section

variable (huuid : ∀ u, v.env.uuid (v.env.uuidStr u) = some u)

include huuid

theorem uuidStr_injective : Function.Injective v.env.uuidStr := by
  intro a b hab
  have ha := huuid a
  rw [hab, huuid b] at ha
  exact (Option.some.inj ha).symm

theorem nodup_stored {t : Tables} : (stored v t).Nodup := by
  have hids : ((MessageService.roomRows t v.room).map MessageRow.id).Nodup :=
    t.messages.nodup.sublist (List.filter_sublist.map _)
  have hmap : stored v t = ((MessageService.roomRows t v.room).map MessageRow.id).map
      fun id => some (v.env.uuidStr id) := by
    rw [List.map_map]
    rfl
  rw [hmap]
  refine hids.map fun a b hab => ?_
  exact uuidStr_injective huuid (Option.some.inj hab)

/-- What a row that can be stored adds to the room. -/
theorem stored_commit {t : Tables} {row : MessageRow} (h : storable v t row = true) :
    MessageService.roomRows (t.apply (.addMessage row)) v.room =
        MessageService.roomRows t v.room ++ [row] ∧
      some (v.env.uuidStr row.id) ∉ stored v t := by
  simp only [storable, Bool.and_eq_true, decide_eq_true_eq, List.all_eq_true,
    Bool.not_eq_true'] at h
  obtain ⟨⟨⟨hroom, -⟩, hclash⟩, -⟩ := h
  have hfresh : ∀ m ∈ t.messages, m.id ≠ row.id := by
    intro m hm hid
    have hc := hclash m hm
    simp [DbOp.messageClash, hid] at hc
  constructor
  · show (List.filter _ (t.messages.insert row).rows) = _
    rw [Table.rows_insert hfresh, List.filter_append]
    simp [MessageService.roomRows, hroom]
  · intro hmem
    obtain ⟨m, hm, hid⟩ := List.mem_map.mp hmem
    have hid' := uuidStr_injective huuid (Option.some.inj hid)
    exact hfresh m (List.mem_of_mem_filter hm) hid'

theorem Sound.commit (h : Sound v s) {row : MessageRow} {sender_id username : String}
    (hrow : storable v s.tables row = true) : Sound v
    { s with
      tables := s.tables.apply (.addMessage row)
      published := s.published ++ [payload v row sender_id username] } := by
  obtain ⟨hrows, hnew⟩ := stored_commit huuid hrow
  have hstored : stored v (s.tables.apply (.addMessage row)) =
      stored v s.tables ++ [some (v.env.uuidStr row.id)] := by
    rw [stored, hrows, List.map_append]
    rfl
  have hway : underWay v
      { s with
        tables := s.tables.apply (.addMessage row)
        published := s.published ++ [payload v row sender_id username] } =
      s.underWay v ++ [payload v row sender_id username] := by
    simp only [underWay, List.append_assoc]
  refine ⟨h.inRoom, h.working, ?_, h.handled, ?_, ?_, ?_⟩
  · rw [hway]
    refine ⟨fun p hp => ?_, ?_⟩
    · dsimp only
      rw [hrows]
      rcases List.mem_append.mp hp with hold | hp
      · obtain ⟨m, hm, hpayload⟩ := h.announces.payloads p hold
        exact ⟨m, List.mem_append_left _ hm, hpayload⟩
      · rw [List.mem_singleton.mp hp]
        exact ⟨row, List.mem_append_right _ (List.mem_singleton_self _), sender_id, username, rfl⟩
    · rw [List.map_append, List.map_singleton, payloadId_payload, List.nodup_append]
      refine ⟨h.announces.nodup, List.nodup_singleton _, ?_⟩
      rintro a ha b hb rfl
      rw [List.mem_singleton.mp hb] at ha
      exact hnew (h.announces.mem_stored ha)
  · dsimp only
    rw [hrows]
    intro m hm
    rcases List.mem_append.mp hm with hold | hm
    · exact h.texts m hold
    · rw [List.mem_singleton.mp hm]
      simp only [storable, Bool.and_eq_true, decide_eq_true_eq] at hrow
      exact hrow.1.1.2
  · dsimp only
    rw [hrows, List.length_append, List.length_singleton]
    simp only [storable, Bool.and_eq_true, decide_eq_true_eq] at hrow
    exact hrow.2
  · refine h.phase.update rfl rfl fun ids _ hcov => ?_
    dsimp only
    rw [hway, hstored, List.map_append, List.map_singleton, payloadId_payload]
    refine ⟨hcov.nodup, fun x hx => List.mem_append_left _ (hcov.stored x hx), fun x hx => ?_⟩
    rcases List.mem_append.mp hx with hold | hx
    · exact (hcov.covers x hold).imp_right (List.mem_append_left _)
    · exact Or.inr (List.mem_append_right _ hx)

end

/-- What was under way is the payload and what remains. -/
theorem covers_underWay {p : WSOutboundMessage} {ps ps' : List WSOutboundMessage}
    (hperm : ps.Perm (p :: ps')) {y : Option String} (hy : y ∈ ps.map payloadId) :
    y = payloadId p ∨ y ∈ ps'.map payloadId :=
  List.mem_cons.mp ((hperm.map payloadId).mem_iff.mp hy)

theorem Sound.broadcast (h : Sound v s) (hmax : messagesPerPage ≤ v.maxsize) {i : Nat}
    {p : WSOutboundMessage} (hp : s.published[i]? = some p)
    (hcond : s.Completes v (.broadcast i)) : Sound v
    { s with
      published := s.published.eraseIdx i
      manager := s.manager.broadcastToRoom v.maxsize (roomId v) p none } := by
  have hroom := h.queue_length hmax
  have hheap := heap_broadcast (p := p) h.working hroom
  -- the payload leaves the channel
  have hperm : s.published.Perm (p :: s.published.eraseIdx i) := by
    obtain ⟨hi, rfl⟩ := List.getElem?_eq_some_iff.mp hp
    exact (List.getElem_cons_eraseIdx_perm hi).symm
  have hsent : ((s.manager.broadcastToRoom v.maxsize (roomId v) p none).heap v.conn).sent =
      (s.manager.heap v.conn).sent := by
    rw [hheap]
    split <;> rfl
  have hbase : ∀ way : List WSOutboundMessage, underWay v
        { s with
          published := s.published.eraseIdx i
          manager := s.manager.broadcastToRoom v.maxsize (roomId v) p none } = way →
      Announces v s.tables way →
      (∀ ids, s.Displays ids →
        Covers ids (stored v s.tables) ((s.underWay v).map payloadId) →
        Covers ids (stored v s.tables) (way.map payloadId)) →
      Sound v
        { s with
          published := s.published.eraseIdx i
          manager := s.manager.broadcastToRoom v.maxsize (roomId v) p none } := by
    rintro way rfl hannounces hcovers
    refine ⟨h.inRoom, working_broadcast h.working hroom, hannounces, ?_, h.texts, h.few, ?_⟩
    · dsimp only
      rw [hsent]
      exact h.handled
    · exact h.phase.update rfl rfl hcovers
  by_cases hin : v.userId ∈ s.manager.getRoomUserIds (roomId v)
  · -- it is in the queue of the connection now
    have hlen : s.seen ≤ (s.manager.heap v.conn).passed.length := by
      refine Nat.le_trans h.handled ?_
      simp only [WebSocketConnection.passed, List.length_append]
      omega
    have hway : (((s.manager.heap v.conn).passed).drop s.seen ++ [p] ++
        s.published.eraseIdx i).Perm (s.underWay v) := by
      rw [List.append_assoc]
      exact (hperm.symm.append_left _)
    refine hbase _ ?_ (h.announces.of_perm hway) fun ids _ hcov => ?_
    · unfold underWay
      dsimp only
      rw [hheap, if_pos hin, WebSocketConnection.passed_enqueue,
        List.drop_append_of_le_length hlen]
    · exact hcov.of_perm (.refl _) fun x hx => ((hway.map payloadId).mem_iff.mpr hx)
  · have hway : (s.underWay v).Perm
        (p :: (((s.manager.heap v.conn).passed).drop s.seen ++ s.published.eraseIdx i)) :=
      (hperm.append_left _).trans List.perm_middle
    refine hbase (((s.manager.heap v.conn).passed).drop s.seen ++
      s.published.eraseIdx i) ?_ ?_ fun ids hids hcov => ?_
    · unfold underWay
      dsimp only
      rw [hheap, if_neg hin]
    · exact h.announces.of_sublist ((List.eraseIdx_sublist _ _).append_left _)
    · -- nobody will bring the message: it must be displayed
      refine hcov.drop (x := payloadId p) ?_ fun y hy => covers_underWay hway hy
      have hdisplay := (hcond p hp).resolve_left hin
      unfold Displays at hids
      split at hids
      · rename_i hpage
        rw [hpage] at hdisplay
        exact hids ▸ hdisplay
      · rename_i hpage
        rw [hpage] at hdisplay
        rw [hids.2]
        exact hdisplay.resolve_left fun hne => hne hids.1

/-- A page that is queried has every message of the room. -/
theorem Sound.query (h : Sound v s) (huuid : ∀ u, v.env.uuid (v.env.uuidStr u) = some u)
    {ties : NewestFirst} {page : Page} (hwait : s.client.pending = [.messages (roomId v) none])
    (hpage : firstPage v.env v.json s.tables ties v.room messagesPerPage = some page) :
    Sound v { s with page := some page } := by
  obtain ⟨page', hpage', hperm⟩ := firstPage_eq
    (show messagesPerPage ≤ 100 by decide) (Nat.le_of_lt h.few)
  obtain rfl : page = page' := Option.some.inj (hpage.symm.trans hpage')
  have hids : (pageIds page).Perm (stored v s.tables) := by
    refine (hperm.map fun m => some m.id).trans (List.Perm.of_eq ?_)
    rw [List.map_map]
    rfl
  refine ⟨h.inRoom, h.working, h.announces, h.handled, h.texts, h.few, hwait, ?_, fun m hm => ?_⟩
  · exact ⟨hids.nodup_iff.mpr (nodup_stored huuid), fun x hx => hids.mem_iff.mp hx,
      fun x hx => Or.inl (hids.mem_iff.mpr hx)⟩
  · obtain ⟨row, hrow, rfl⟩ := List.mem_map.mp (hperm.mem_iff.mp hm)
    show messageTypeValue row.messageType ≠ "system"
    rw [h.texts row hrow]
    decide

/-- The page takes the place of what was shown. -/
theorem Sound.respond (h : Sound v s) {page : Page} (hpage : s.page = some page) {client : Client}
    (hs : s.client.step (.resume 0 (some (.page page))) = some client) :
    Sound v { s with client, page := none } := by
  have hphase := h.phase
  unfold Phase at hphase
  rw [hpage] at hphase
  obtain ⟨hwait, hcov, htexts⟩ := hphase
  simp only [Client.step, hwait, List.getElem?_cons_zero, List.eraseIdx_cons_zero, resume] at hs
  split at hs
  · cases hs
    have hq : Client.Quiet ({ s.client with pending := [] } : Client)
        (({ s.client with pending := [] } : Client).showMessages (roomId v) none page) :=
      quiet_showMessages
    refine ⟨?_, h.working, h.announces, h.handled, h.texts, h.few, Or.inr ⟨hq.pending, ?_⟩⟩
    · exact (inRoom_congr hq.currentRoom _).trans h.inRoom
    · unfold shown
      rw [shown_showMessages htexts]
      exact hcov
  · cases hs

/-- A payload of the socket is rendered. -/
theorem Sound.receive (h : Sound v s) {p : WSOutboundMessage}
    (hp : ((s.manager.heap v.conn).sent)[s.seen]? = some p) (hcond : s.Completes v .receive) :
    Sound v { s with client := s.client.receive p, seen := s.seen + 1 } := by
  -- the payload is the first of those under way
  have hdrop : ((s.manager.heap v.conn).passed).drop s.seen =
      p :: ((s.manager.heap v.conn).passed).drop (s.seen + 1) := by
    obtain ⟨hi, hget⟩ := List.getElem?_eq_some_iff.mp hp
    have hi' : s.seen < (s.manager.heap v.conn).passed.length := by
      simp only [WebSocketConnection.passed, List.length_append]
      omega
    have hget' : ((s.manager.heap v.conn).passed)[s.seen] = p := by
      simp only [WebSocketConnection.passed, List.append_assoc]
      rw [List.getElem_append_left hi]
      exact hget
    rw [← hget']
    exact List.drop_eq_getElem_cons hi'
  have hway : s.underWay v = p :: underWay v
      { s with client := s.client.receive p, seen := s.seen + 1 } := by
    unfold underWay
    rw [hdrop]
    rfl
  have hannounced := h.announces
  rw [hway] at hannounced
  obtain ⟨row, hrow, sender_id, username, rfl⟩ := hannounced.payloads p List.mem_cons_self
  obtain ⟨hq, hshown⟩ := receive_payload
    h.inRoom
  refine ⟨?_, h.working, hannounced.of_sublist (List.sublist_cons_self _ _), ?_, h.texts, h.few, ?_⟩
  · exact (inRoom_congr hq.currentRoom _).trans h.inRoom
  · obtain ⟨hi, -⟩ := List.getElem?_eq_some_iff.mp hp
    exact hi
  · have hphase := h.phase
    have hcond' := hcond _ hp
    unfold Phase at hphase ⊢
    dsimp only
    rw [hway] at hphase
    split at hphase
    · rename_i page heq
      rw [heq] at hcond'
      simp only [heq]
      obtain ⟨hwait, hcov, htexts⟩ := hphase
      refine ⟨hq.pending.trans hwait, ?_, htexts⟩
      exact hcov.drop hcond' fun y hy => covers_underWay (.refl _) hy
    · rename_i heq
      rw [heq] at hcond'
      simp only [heq]
      rcases hphase with hwait | ⟨hdone, hcov⟩
      · exact Or.inl (hq.pending.trans hwait)
      · right
        refine ⟨hq.pending.trans hdone, ?_⟩
        have hnew := hcond'.resolve_left fun hne => hne hdone
        unfold shown
        rw [hshown]
        rw [payloadId_payload] at hnew
        refine hcov.append hnew (List.mem_map.mpr ⟨row, hrow, rfl⟩) fun y hy => ?_
        rw [← payloadId_payload (v := v)]
        exact covers_underWay (.refl _) hy

/-- **A step that completes what is under way keeps it complete.** -/
theorem Sound.step (h : Sound v s) (huuid : ∀ u, v.env.uuid (v.env.uuidStr u) = some u)
    (hmax : messagesPerPage ≤ v.maxsize) {l : Label} (hcond : s.Completes v l)
    (hs : s.step v l = some s') : Sound v s' := by
  cases l with
  | serve =>
    simp only [Opening.step] at hs
    split at hs
    · cases hs
    · cases hs
      exact h.serve
  | commit row sender_id username =>
    simp only [Opening.step] at hs
    split at hs
    · rename_i hrow
      cases hs
      exact h.commit huuid hrow
    · cases hs
  | broadcast i =>
    simp only [Opening.step] at hs
    split at hs
    · cases hs
    · rename_i p hp
      cases hs
      exact h.broadcast hmax hp hcond
  | query ties =>
    simp only [Opening.step] at hs
    split at hs
    · rename_i hwait
      obtain ⟨page, hpage, rfl⟩ := Option.map_eq_some_iff.mp hs
      exact h.query huuid hwait.1 hpage
    · cases hs
  | respond =>
    simp only [Opening.step] at hs
    split at hs
    · cases hs
    · rename_i page hpage
      obtain ⟨client, hclient, rfl⟩ := Option.map_eq_some_iff.mp hs
      exact h.respond hpage hclient
  | sendTake =>
    obtain ⟨m, hm, rfl⟩ := Option.map_eq_some_iff.mp hs
    exact h.send (working_sendTake h.working hm) (ConnectionManager.drains_sendTake hm)
      (Nat.le_of_eq (congrArg List.length (written_sendTake hm).symm))
  | sendDone =>
    obtain ⟨m, hm, rfl⟩ := Option.map_eq_some_iff.mp hs
    exact h.send (working_sendDone h.working hm) (ConnectionManager.drains_sendDone hm)
      (written_sendDone hm)
  | receive =>
    simp only [Opening.step] at hs
    split at hs
    · cases hs
    · rename_i p hp
      cases hs
      exact h.receive hp hcond

/-- Nothing is in flight. -/
structure Idle (v : Visit) (s : Opening) : Prop where
  pending : s.client.pending = []
  sent : s.client.sent = []
  published : s.published = []
  socket : s.seen = (s.manager.heap v.conn).passed.length
  page : s.page = none

namespace Sample

/-- Every id has a string: those of the sample their canonical one. -/
def env : Env where
  __ := Env.sample
  uuid s :=
    match Env.sampleUuids.find? fun e => e.1 = s with
    | some e => some e.2
    | none => some s.length
  uuidStr u :=
    match Env.sampleUuids.find? fun e => e.2 = u with
    | some e => e.1
    | none => String.ofList (List.replicate u 'u')

theorem uuid_uuidStr (u : Uuid) : env.uuid (env.uuidStr u) = some u := by
  cases hfind : Env.sampleUuids.find? fun e => e.2 = u with
  | some e =>
    have hid : e.2 = u := of_decide_eq_true (List.find?_some hfind :)
    have hall : ∀ e ∈ Env.sampleUuids, env.uuid (env.uuidStr e.2) = some e.2 := by decide
    exact hid ▸ hall e (List.mem_of_find?_eq_some hfind)
  | none =>
    have hstr : env.uuidStr u = String.ofList (List.replicate u 'u') := by
      simp only [env, hfind]
    -- a canonical string does not start with a 'u'
    have hall : ∀ e ∈ Env.sampleUuids, e.1.toList.head? = some '0' := by decide
    have hnone : (Env.sampleUuids.find? fun e => e.1 = String.ofList (List.replicate u 'u')) =
        none := by
      refine List.find?_eq_none.mpr fun e he heq => ?_
      have hhead := hall e he
      rw [of_decide_eq_true heq, String.toList_ofList, List.head?_replicate] at hhead
      split at hhead
      · cases hhead
      · cases hhead
    rw [hstr]
    simp only [env, hnone, String.length_ofList, List.length_replicate]

def visit : Visit where
  env := env
  json _ := ""
  maxsize := 100
  room := 3
  userId := "u"
  conn := 0

def lobby : Room := { id := roomId visit, name := "r3", memberCount := 1 }

def start : Opening where
  client := switchRoom (roomId visit) { Client.init "u" with rooms := [lobby] }
  manager := ConnectionManager.init.register "u" "u"
  tables := .sample
  published := []
  seen := 0
  page := none

def row (id : Uuid) : MessageRow where
  id := id
  roomId := 3
  senderId := some 1
  content := "hello"
  messageType := .text
  idempotencyKey := none
  createdAt := Env.newYear

/-- The message is stored, and written to the socket of the user. -/
def sends (id : Uuid) : List Label := [.commit (row id) "1" "u1", .broadcast 0, .sendTake, .sendDone]

def idle (s : Opening) : Bool :=
  s.client.pending = [] && s.client.sent = [] && s.published.isEmpty &&
    s.seen = (s.manager.heap 0).passed.length && s.page.isNone

end Sample

end Opening

end NexusChat
