import NexusChat.Lib.Timers
import NexusChat.Client.JoinedRoom

/-!
# The typing indicator (`handleTyping`, `sendMessage`)

One flag and one debounce timer serve all rooms. `typing_start` goes to the room that is open when
the typing begins; `typing_stop` goes to the room that is open when the timer fires or a message is
sent, and the timer's callback fails when no room is open. So an indicator is closed exactly when
the room has not changed by then (`StopsWhereStarted`).
-/

set_option autoImplicit false

namespace NexusChat

open Client

/-- The client with `state.isTyping`, `state.typingTimer`, the timers of the page, and how many
callbacks have failed. -/
structure Typist where
  client : Client
  isTyping : Bool
  typingTimer : Option TimerId
  timers : Timers
  failed : Nat

namespace Typist

/-- After the login, on a socket that is open. -/
def start (user : UserId) : Typist where
  client := .init user
  isTyping := false
  typingTimer := none
  timers := .empty
  failed := 0

/-- `wsSend(event, { room_id })` -/
def wsSend (event : String) (roomId : RoomId) (s : Typist) : Typist :=
  { s with client := s.client.wsSend event (some roomId) }

/-- `handleTyping()` -/
def handleTyping (s : Typist) : Typist :=
  match s.client.currentRoom with
  | none => s
  | some room =>
    let s := if s.isTyping then s else { s with isTyping := true }.wsSend "typing_start" room.id
    let timers := s.timers.clear s.typingTimer
    { s with typingTimer := some timers.next, timers := timers.set }

/-- The callback of the timer; `state.currentRoom.id` is a `TypeError` when no room is open. -/
def stopTyping (s : Typist) : Typist :=
  let s := { s with isTyping := false }
  match s.client.currentRoom with
  | some room => s.wsSend "typing_stop" room.id
  | none => { s with failed := s.failed + 1 }

/-- `sendMessage()`, with the trimmed text of the input. -/
def sendMessage (content : String) (s : Typist) : Typist :=
  match s.client.currentRoom with
  | none => s
  | some room =>
    if content = "" then s
    else
      let s := s.wsSend "message" room.id
      if s.isTyping then
        { s with isTyping := false, timers := s.timers.clear s.typingTimer }.wsSend
          "typing_stop" room.id
      else s

inductive Label where
  | type
  | send (content : String)
  | timer (t : TimerId)
  /-- anything else the client does: rooms are opened and left, events and answers come in -/
  | client (i : Input)
  deriving DecidableEq, Repr

def step (s : Typist) : Label → Option Typist
  | .type => some s.handleTyping
  | .send content => some (s.sendMessage content)
  | .timer t => (s.timers.fire t).map fun timers => { s with timers }.stopTyping
  | .client i => (s.client.step i).map fun client => { s with client }

/-! ## Typing frames -/

/-- A frame of the typing indicator. -/
def isTypingFrame (f : Frame) : Bool := f.event = "typing_start" || f.event = "typing_stop"

/-- The event of the last typing frame for the room. -/
def lastTyping (frames : List Frame) (roomId : RoomId) : Option String :=
  (frames.filter fun f => isTypingFrame f && f.roomId = some roomId).getLast?.map Frame.event

/-- The others in the room see the user typing. -/
def Shown (s : Typist) (roomId : RoomId) : Prop :=
  lastTyping s.client.sent roomId = some "typing_start"

instance (s : Typist) (roomId : RoomId) : Decidable (s.Shown roomId) :=
  inferInstanceAs (Decidable (_ = _))

/-- No callback has failed, and unless a timer is pending the last typing frame of every room, if
there is one, is `typing_stop`. -/
structure Closed (s : Typist) : Prop where
  failed : s.failed = 0
  stopped : s.timers.pending = ∅ → ∀ roomId event,
    lastTyping s.client.sent roomId = some event → event = "typing_stop"

/-- The condition on a step: when the timer fires, or a message is sent while typing, the room that
is open is the one where the typing began. -/
def StopsWhereStarted (s : Typist) : Label → Prop
  | .timer _ => ∃ room, s.client.currentRoom = some room ∧ s.Shown room.id
  | .send content => content ≠ "" → s.isTyping = true →
      ∀ room, s.client.currentRoom = some room → s.Shown room.id
  | .type | .client _ => True

section Frames

variable {frames more : List Frame} {event : String} {r r' : RoomId}

theorem lastTyping_append (h : ∀ f ∈ more, isTypingFrame f = false) :
    lastTyping (frames ++ more) r = lastTyping frames r := by
  have hnone : (more.filter fun f => isTypingFrame f && f.roomId = some r) = [] := by
    apply List.filter_eq_nil_iff.mpr
    intro f hf
    simp [h f hf]
  rw [lastTyping, List.filter_append, hnone, List.append_nil]
  rfl

/-- A typing frame is the last one of its room. -/
theorem lastTyping_concat (he : isTypingFrame ⟨event, some r⟩ = true) :
    lastTyping (frames ++ [⟨event, some r⟩]) r' =
      if r' = r then some event else lastTyping frames r' := by
  unfold lastTyping
  rw [List.filter_append]
  by_cases hr : r' = r
  · subst hr
    simp [he]
  · have hne : r ≠ r' := Ne.symm hr
    simp [hr, hne]

/-- What the last typing frame says is one of the two. -/
theorem lastTyping_cases (h : lastTyping frames r = some event) :
    event = "typing_start" ∨ event = "typing_stop" := by
  obtain ⟨f, hf, rfl⟩ := Option.map_eq_some_iff.mp h
  have hmem := (List.mem_filter.mp (List.mem_of_getLast? hf)).2
  rw [Bool.and_eq_true] at hmem
  simpa [isTypingFrame] using hmem.1

end Frames

/-! ## Functions that send no typing frame -/

/-- The socket stays open, and what is sent is not about typing. -/
structure Mute (c c' : Client) : Prop where
  wsOpen : c'.wsOpen = c.wsOpen
  sent : ∃ more, c'.sent = c.sent ++ more ∧ ∀ f ∈ more, isTypingFrame f = false

section Mute

variable {c c' c'' : Client}

theorem Mute.of_eq (hopen : c'.wsOpen = c.wsOpen) (hsent : c'.sent = c.sent) : Mute c c' :=
  ⟨hopen, [], by rw [hsent, List.append_nil], fun _ hf => absurd hf List.not_mem_nil⟩

theorem Mute.of_quiet (h : Quiet c c') : Mute c c' := .of_eq h.wsOpen h.sent

theorem Mute.trans (h : Mute c c') (h' : Mute c' c'') : Mute c c'' := by
  obtain ⟨more, hsent, hmore⟩ := h.sent
  obtain ⟨more', hsent', hmore'⟩ := h'.sent
  refine ⟨h'.wsOpen.trans h.wsOpen, more ++ more', ?_, ?_⟩
  · rw [hsent', hsent, List.append_assoc]
  · intro f hf
    rcases List.mem_append.mp hf with hf | hf
    · exact hmore f hf
    · exact hmore' f hf

theorem mute_wsSend {event : String} {roomId : Option RoomId}
    (he : isTypingFrame ⟨event, roomId⟩ = false) : Mute c (c.wsSend event roomId) := by
  unfold Client.wsSend
  split
  · refine ⟨rfl, _, rfl, ?_⟩
    intro f hf
    rw [List.mem_singleton.mp hf]
    exact he
  · exact .of_eq rfl rfl

theorem mute_await {a : Awaiting} : Mute c (c.await a) := .of_eq rfl rfl

theorem mute_handleWSMessage {event : Event} : Mute c (c.handleWSMessage event) := by
  cases event with
  | message m =>
    simp only [handleWSMessage, handleIncomingMessage]
    split
    · refine Mute.trans ?_ (.of_quiet quiet_renderMessage)
      exact .of_eq rfl rfl
    · exact .of_eq rfl rfl
  | presence | onlineUsers => exact .of_eq rfl rfl
  | system room_id content =>
    simp only [handleWSMessage, handleSystemMessage]
    split <;> exact .of_eq rfl rfl
  | ping => exact mute_wsSend rfl

/-- The end of `switchRoom`, once the room has been found. -/
theorem mute_enter {roomId : RoomId} {room : Room} :
    Mute c (({ c with currentRoom := some room, messages := [], lastSenders := ∅ }.wsSend
      "join_room" (some roomId)).loadMessages roomId none) := by
  refine Mute.trans ?_ mute_await
  refine Mute.trans ?_ (mute_wsSend rfl)
  exact .of_eq rfl rfl

theorem mute_switchRoom {roomId : RoomId} : Mute c (c.switchRoom roomId) := by
  unfold switchRoom
  cases c.currentRoom with
  | none =>
    dsimp only
    split
    · exact .of_eq rfl rfl
    · exact mute_enter
  | some room =>
    dsimp only
    have hleave : Mute c (c.wsSend "leave_room" (some room.id)) := mute_wsSend rfl
    split
    · exact hleave
    · exact hleave.trans mute_enter

theorem mute_resume {a : Awaiting} {reply : Option Reply} (h : c.resume a reply = some c') :
    Mute c c' := by
  have hafter : ∀ (next : Option RoomId) (c : Client), Mute c (Client.resume.afterRooms next c) := by
    intro next c
    cases next with
    | none => exact .of_eq rfl rfl
    | some roomId => exact mute_await
  unfold Client.resume at h
  split at h
  · split at h
    · cases h
      exact .of_quiet quiet_showMessages
    · cases h
  · cases h
    exact mute_await
  · cases h
    exact mute_await
  · cases h
    exact .of_eq rfl rfl
  · cases h
    refine Mute.trans ?_ (hafter _ _)
    exact .of_eq rfl rfl
  · cases h
    exact mute_switchRoom
  · cases h
    exact hafter _ _
  all_goals cases h
  all_goals exact .of_eq rfl rfl

/-- **No input of the client but typing sends a typing frame.** -/
theorem mute_step {i : Input} (h : c.step i = some c') : Mute c c' := by
  cases i with
  | loadRooms | createRoom | joinRoom =>
    cases h
    exact mute_await
  | switchRoom roomId =>
    cases h
    exact mute_switchRoom
  | leaveCurrentRoom =>
    cases h
    unfold leaveCurrentRoom
    split
    · exact .of_eq rfl rfl
    · exact (mute_wsSend rfl).trans mute_await
  | loadMore =>
    cases h
    unfold loadMore
    split
    · exact .of_eq rfl rfl
    · split
      · split
        · exact .of_eq rfl rfl
        · exact mute_await
      · exact .of_eq rfl rfl
  | event e =>
    cases h
    exact mute_handleWSMessage
  | resume i reply =>
    simp only [Client.step] at h
    split at h
    · cases h
    · refine Mute.trans ?_ (mute_resume h)
      exact .of_eq rfl rfl

end Mute

/-! ## The invariant -/

/-- A timer is pending while the user is typing, and then the indicator is shown in one room; it is
shown in no other. -/
structure Inv (s : Typist) : Prop where
  wsOpen : s.client.wsOpen = true
  failed : s.failed = 0
  only : s.timers.OnlyIn s.typingTimer
  pending : s.isTyping = true ↔ s.timers.pending ≠ ∅
  shown : s.isTyping = true → ∃ r, s.Shown r
  one : ∀ r, s.Shown r → s.isTyping = true ∧ ∀ r', s.Shown r' → r' = r

variable {s s' : Typist}

theorem Inv.closed (h : s.Inv) : s.Closed where
  failed := h.failed
  stopped := by
    intro hnone r event he
    apply (lastTyping_cases he).resolve_left
    rintro rfl
    exact h.pending.mp (h.one r he).1 hnone

theorem inv_start {user : UserId} : (start user).Inv where
  wsOpen := rfl
  failed := rfl
  only := Timers.onlyIn_of_pending rfl
  pending := by simp [start, Timers.empty]
  shown := fun h => by cases h
  one := fun r h => by cases h

/-- A step that sends no typing frame and leaves the typing alone. -/
theorem Inv.mute (h : s.Inv) {client : Client} (hm : Mute s.client client) :
    ({ s with client } : Typist).Inv := by
  obtain ⟨more, hsent, hmore⟩ := hm.sent
  have hshown : ∀ r, ({ s with client } : Typist).Shown r ↔ s.Shown r := by
    intro r
    unfold Shown
    rw [hsent, lastTyping_append hmore]
  refine ⟨hm.wsOpen.trans h.wsOpen, h.failed, h.only, h.pending, ?_, ?_⟩
  · intro htyping
    obtain ⟨r, hr⟩ := h.shown htyping
    exact ⟨r, (hshown r).mpr hr⟩
  · intro r hr
    obtain ⟨htyping, hone⟩ := h.one r ((hshown r).mp hr)
    exact ⟨htyping, fun r' hr' => hone r' ((hshown r').mp hr')⟩

/-- What is shown after a typing frame on an open socket. -/
theorem shown_wsSend (hclient : s'.client = s.client) (hopen : s.client.wsOpen = true)
    {event : String} {r : RoomId} (he : isTypingFrame ⟨event, some r⟩ = true) (r' : RoomId) :
    (s'.wsSend event r).Shown r' ↔ if r' = r then event = "typing_start" else s.Shown r' := by
  unfold Shown wsSend
  rw [hclient, sent_wsSend hopen, lastTyping_concat he]
  split
  · exact Option.some_inj
  · rfl

theorem Inv.handleTyping (h : s.Inv) : s.handleTyping.Inv := by
  unfold Typist.handleTyping
  split
  · exact h
  · rename_i room hroom
    by_cases htyping : s.isTyping = true
    · -- the timer is set anew
      rw [if_pos htyping]
      have hcleared : (s.timers.clear s.typingTimer).pending = ∅ := h.only.clear
      refine ⟨h.wsOpen, h.failed, Timers.onlyIn_set hcleared, ?_, h.shown, h.one⟩
      rw [Timers.pending_set hcleared]
      simp [htyping]
    · -- the typing begins: no room shows it yet
      rw [if_neg htyping]
      have hnone : ∀ r, ¬s.Shown r := fun r hr => htyping (h.one r hr).1
      have hcleared : (s.timers.clear s.typingTimer).pending = ∅ := h.only.clear
      have hshown : ∀ r, ({ s with isTyping := true }.wsSend "typing_start" room.id).Shown r ↔
          r = room.id := by
        intro r
        refine (shown_wsSend (s := s) (by rfl) h.wsOpen (by rfl) r).trans ?_
        split
        · rename_i hr
          simp [hr]
        · rename_i hr
          exact iff_of_false (hnone r) hr
      refine ⟨?_, h.failed, Timers.onlyIn_set hcleared, ?_, ?_, ?_⟩
      · exact wsOpen_wsSend.trans h.wsOpen
      · have hset : (s.timers.clear s.typingTimer).set.pending ≠ ∅ := by
          rw [Timers.pending_set hcleared]
          simp
        exact iff_of_true rfl hset
      · intro _
        exact ⟨room.id, (hshown room.id).mpr rfl⟩
      · intro r hr
        refine ⟨rfl, fun r' hr' => ?_⟩
        rw [(hshown r).mp hr, (hshown r').mp hr']

/-- A `typing_stop` hides the indicator in its own room. -/
theorem shown_stop (h : s.Inv) {timers : Timers} {room : RoomId} (r : RoomId) :
    ({ s with isTyping := false, timers }.wsSend "typing_stop" room).Shown r ↔
      r ≠ room ∧ s.Shown r := by
  refine (shown_wsSend (s := s) (by rfl) h.wsOpen (by rfl) r).trans ?_
  split
  · rename_i hr
    simp [hr]
  · rename_i hr
    exact ⟨fun hs => ⟨hr, hs⟩, fun hs => hs.2⟩

/-- **No indicator is left** exactly if the `typing_stop` goes to the room where one is shown. -/
theorem stopped_iff (h : s.Inv) (htyping : s.isTyping = true) {timers : Timers} {room : RoomId} :
    (∀ r, ¬({ s with isTyping := false, timers }.wsSend "typing_stop" room).Shown r) ↔
      s.Shown room := by
  constructor
  · intro hall
    obtain ⟨r, hr⟩ := h.shown htyping
    have hsame : r = room := by
      by_contra hne
      exact hall r ((shown_stop h r).mpr ⟨hne, hr⟩)
    rw [← hsame]
    exact hr
  · intro hroom r hr
    obtain ⟨hne, hs⟩ := (shown_stop h r).mp hr
    exact hne ((h.one room hroom).2 r hs)

theorem Inv.stop (h : s.Inv) (htyping : s.isTyping = true) {timers : Timers}
    (hnone : timers.pending = ∅) {room : RoomId} (hroom : s.Shown room) :
    ({ s with isTyping := false, timers }.wsSend "typing_stop" room).Inv where
  wsOpen := wsOpen_wsSend.trans h.wsOpen
  failed := h.failed
  only := Timers.onlyIn_of_pending hnone
  pending := iff_of_false (by simp [wsSend]) (fun hne => hne hnone)
  shown := by simp [wsSend]
  one := fun r hr => absurd hr ((stopped_iff h htyping).mpr hroom r)

/-- Without a timer, closed means that no indicator is shown. -/
theorem closed_iff (hfailed : s.failed = 0) (hnone : s.timers.pending = ∅) :
    s.Closed ↔ ∀ r, ¬s.Shown r := by
  constructor
  · intro h r hr
    have hstop := h.stopped hnone r "typing_start" hr
    exact absurd hstop (by decide)
  · intro h
    refine ⟨hfailed, fun _ r event he => (lastTyping_cases he).resolve_left ?_⟩
    rintro rfl
    exact h r he

theorem Inv.message (h : s.Inv) {room : RoomId} : (s.wsSend "message" room).Inv :=
  h.mute (mute_wsSend rfl)

theorem shown_message {room r : RoomId} : (s.wsSend "message" room).Shown r ↔ s.Shown r := by
  obtain ⟨more, hsent, hmore⟩ :=
    (mute_wsSend (c := s.client) (show isTypingFrame ⟨"message", some room⟩ = false from rfl)).sent
  unfold Shown wsSend
  rw [hsent, lastTyping_append hmore]

/-- A timer that fires belongs to somebody typing, and was the only one. -/
theorem Inv.fire (h : s.Inv) {t : TimerId} {timers : Timers} (hf : s.timers.fire t = some timers) :
    s.isTyping = true ∧ timers.pending = ∅ := by
  refine ⟨h.pending.mpr ?_, h.only.fire hf⟩
  exact Finset.ne_empty_of_mem (Timers.fire_eq_some hf).1

/-- **One step**: it keeps the invariant if it stops where the typing began, and closed is all that
can be lost. -/
theorem inv_step (h : s.Inv) {l : Label} (hl : s.StopsWhereStarted l) (hs : s.step l = some s') :
    s'.Inv := by
  cases l with
  | type =>
    cases hs
    exact h.handleTyping
  | client i =>
    obtain ⟨client, hstep, rfl⟩ := Option.map_eq_some_iff.mp hs
    exact h.mute (mute_step hstep)
  | timer t =>
    obtain ⟨timers, hfire, rfl⟩ := Option.map_eq_some_iff.mp hs
    obtain ⟨htyping, hnone⟩ := h.fire hfire
    obtain ⟨room, hcurrent, hshown⟩ := hl
    simp only [stopTyping, hcurrent]
    exact h.stop htyping hnone hshown
  | send content =>
    cases hs
    unfold sendMessage
    split
    · exact h
    · rename_i room hcurrent
      split
      · exact h
      · rename_i hcontent
        dsimp only
        split
        · rename_i htyping
          have hshown : (s.wsSend "message" room.id).Shown room.id :=
            shown_message.mpr (hl hcontent htyping room hcurrent)
          exact h.message.stop htyping h.only.clear hshown
        · exact h.message

/-- **When a step keeps the indicators closed.** -/
theorem closed_step_iff (h : s.Inv) {l : Label} (hs : s.step l = some s') :
    s'.Closed ↔ s.StopsWhereStarted l := by
  refine ⟨?_, fun hl => (inv_step h hl hs).closed⟩
  intro hclosed
  cases l with
  | type | client i => trivial
  | timer t =>
    obtain ⟨timers, hfire, rfl⟩ := Option.map_eq_some_iff.mp hs
    obtain ⟨htyping, hnone⟩ := h.fire hfire
    cases hcurrent : s.client.currentRoom with
    | none =>
      -- the callback has failed
      have hfailed := hclosed.failed
      simp [stopTyping, hcurrent] at hfailed
    | some room =>
      simp only [stopTyping, hcurrent] at hclosed
      have hall := (closed_iff (s := ({ s with isTyping := false, timers }.wsSend "typing_stop"
        room.id)) h.failed hnone).mp hclosed
      exact ⟨room, hcurrent, (stopped_iff h htyping).mp hall⟩
  | send content =>
    intro hcontent htyping room hcurrent
    cases hs
    simp only [sendMessage, hcurrent, if_neg hcontent] at hclosed
    have htyping' : (s.wsSend "message" room.id).isTyping = true := htyping
    rw [if_pos htyping'] at hclosed
    have hall := (closed_iff (s := ({ s.wsSend "message" room.id with
      isTyping := false, timers := s.timers.clear s.typingTimer }.wsSend "typing_stop" room.id))
      h.failed h.only.clear).mp hclosed
    exact shown_message.mp ((stopped_iff h.message htyping).mp hall)

/-- **Typing indicators are closed** in every run that stops where the typing began. -/
theorem indicators_closed {user : UserId} (h : Reach step StopsWhereStarted (start user) s) :
    s.Closed :=
  (h.invariant inv_start fun _ _ _ hi hl hs => inv_step hi hl hs).closed

/-! ## Two rooms -/

namespace Sample

open Client.Sample

/-- Two rooms in the sidebar; the lobby is opened and the user types. -/
def typing : List Label :=
  [.client .loadRooms, .client (.resume 0 (some (.rooms [lobby, games]))),
    .client (.switchRoom "lobby"), .type]

/-- `StopsWhereStarted`, as a test. -/
def stopsTest (s : Typist) : Label → Bool
  | .timer _ => s.client.currentRoom.any fun room => s.Shown room.id
  | .send content => content = "" || !s.isTyping ||
      s.client.currentRoom.all fun room => s.Shown room.id
  | .type | .client _ => true

theorem stops_of_test (s : Typist) (l : Label) (h : stopsTest s l = true) :
    s.StopsWhereStarted l := by
  cases l with
  | timer t =>
    obtain ⟨room, hcurrent, hshown⟩ := (Option.any_eq_true _ _).mp h
    exact ⟨room, hcurrent, of_decide_eq_true hshown⟩
  | send content =>
    intro hcontent htyping room hcurrent
    simp only [stopsTest, htyping, hcurrent, Option.all_some, Bool.not_true, Bool.or_false,
      Bool.or_eq_true, decide_eq_true_eq] at h
    exact h.resolve_left hcontent
  | type | client i => trivial

/-- The debounce ends in the lobby; in the next room a message ends it. -/
def settled : List Label :=
  typing ++ [.type, .timer 1, .client (.switchRoom "games"), .type, .send "hello"]

end Sample

open Sample in
/-- Both rooms have seen the typing begin and end. -/
theorem indicators_closed_settled : ∃ s : Typist, replay step settled (start "u") = some s ∧
    s.timers.pending = ∅ ∧ s.Closed := by
  have hrun : ((replayIf step stopsTest settled (start "u")).any fun s =>
      s.timers.pending = ∅) = true := by
    decide +kernel
  obtain ⟨s, hs, hnone⟩ := (Option.any_eq_true _ _).mp hrun
  exact ⟨s, replay_of_replayIf hs, of_decide_eq_true hnone,
    indicators_closed (.of_replayIf stops_of_test .init hs)⟩

open Sample in
/-- **A switch before the timer fires**: `typing_stop` goes to the new room, and the indicator in
the old one stays. -/
theorem not_indicators_closed : ¬∀ (user : UserId) (s : Typist),
    Reach step Always (start user) s → s.Closed := by
  intro hall
  have hrun : ((replay step (typing ++ [.client (.switchRoom "games"), .timer 0])
      (start "u")).any fun s => s.timers.pending = ∅ && s.Shown "lobby") = true := by
    decide +kernel
  obtain ⟨s, hs, htest⟩ := (Option.any_eq_true _ _).mp hrun
  rw [Bool.and_eq_true, decide_eq_true_eq, decide_eq_true_eq] at htest
  have hstop := (hall "u" s (.of_replay .init hs)).stopped htest.1 "lobby" "typing_start" htest.2
  exact absurd hstop (by decide)

end Typist

end NexusChat
