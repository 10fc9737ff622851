import NexusChat.App.Discipline
import NexusChat.Messaging.SendQueue

/-!
# One live order

Redis executes the publishes of a channel one after the other, and what a connection is written
of the channel is a part of that sequence, in that order and nothing twice. On the way from Redis
to a socket a message waits in the inbox of its instance's PubSub, is handed to the callback, and
passes the send queue. The invariant `InOrder` puts the places together: for each connection, the
positions of what has passed its queue, followed by those of what waits in the inbox, increase.

A new connection starts with nothing, a new PubSub with an empty inbox, and every other step
appends a publish at the end, moves a message from the one list to the other, or loses some.
-/

set_option autoImplicit false

namespace NexusChat

open WebSocketConnection ConnectionManager

/-! ## Positions -/

namespace Delivery

/-- The position of a payload among the publishes of a channel. -/
def position (channel : Channel) (d : Delivery) : Option Nat :=
  d.source.bind fun e => if e.1 = channel then some e.2 else none

theorem position_eq_some {channel : Channel} {d : Delivery} {n : Nat} :
    d.position channel = some n ↔ d.source = some (channel, n) := by
  unfold position
  cases d.source with
  | none => simp
  | some e =>
    obtain ⟨channel', n'⟩ := e
    show (if channel' = channel then some n' else none) = some n ↔ _
    split
    · rename_i h
      simp [h]
    · rename_i h
      simp [h]

/-- The payload is what the callback makes of the message it comes from. -/
def FromLog (log : Channel → List Json) (d : Delivery) : Prop :=
  ∀ channel n, d.source = some (channel, n) →
    ∃ message exclude_user, (log channel)[n]? = some message ∧
      Chat.roomMessageHandler message = .ok (some (d.message, exclude_user))

end Delivery

/-- The positions on a channel of a sequence of payloads. -/
def positions (channel : Channel) (ds : List Delivery) : List Nat :=
  ds.filterMap (Delivery.position channel)

theorem mem_positions {channel : Channel} {ds : List Delivery} {n : Nat} :
    n ∈ positions channel ds ↔ ∃ d ∈ ds, d.source = some (channel, n) := by
  simp only [positions, List.mem_filterMap, Delivery.position_eq_some]

theorem positions_append {channel : Channel} {ds ds' : List Delivery} :
    positions channel (ds ++ ds') = positions channel ds ++ positions channel ds' :=
  List.filterMap_append

/-! ## The inbox -/

namespace RedisBroker

/-- What the listener has still to hand out of a channel. -/
def waiting (b : RedisBroker) (channel : Channel) : List (Nat × Json) :=
  match b.pubsub with
  | some p => (b.heap p).inbox channel
  | none => []

/-- The listener listens to the PubSub there is. -/
def Tuned (b : RedisBroker) : Prop :=
  ∀ p, b.listenerTask = some (.listening p) → b.pubsub = some p

variable {b b' : RedisBroker}

theorem waiting_of_inbox {channel : Channel} (hp : b'.pubsub = b.pubsub)
    (hi : ∀ p, (b'.heap p).inbox = (b.heap p).inbox) :
    b'.waiting channel = b.waiting channel := by
  simp only [waiting, hp]
  split
  · rw [hi]
  · rfl

theorem inbox_addChannel {p q : PubSubId} {channel : Channel} :
    ((b.addChannel p channel).heap q).inbox = (b.heap q).inbox := by
  rw [addChannel, heap_modify]
  split
  · rename_i hq; rw [hq]
  · rfl

theorem inbox_dropChannel {p q : PubSubId} {channel : Channel} :
    ((b.dropChannel p channel).heap q).inbox = (b.heap q).inbox := by
  rw [dropChannel, heap_modify]
  split
  · rename_i hq; rw [hq]
  · rfl

theorem waiting_addChannel {p : PubSubId} {channel other : Channel} :
    (b.addChannel p channel).waiting other = b.waiting other :=
  waiting_of_inbox rfl fun _ => inbox_addChannel

theorem waiting_dropChannel {p : PubSubId} {channel other : Channel} :
    (b.dropChannel p channel).waiting other = b.waiting other :=
  waiting_of_inbox rfl fun _ => inbox_dropChannel

theorem tuned_startListening (h : b.Tuned) : b.startListening.Tuned := by
  unfold startListening
  split
  · exact h
  · rename_i p hp
    intro q hq
    cases hq
    exact hp

theorem waiting_startListening {channel : Channel} :
    b.startListening.waiting channel = b.waiting channel := by
  unfold startListening
  split
  · rfl
  · exact waiting_of_inbox rfl fun _ => rfl

theorem tuned_resubscribeNext {size i : Nat} (h : b.Tuned) : (b.resubscribeNext size i).Tuned := by
  unfold resubscribeNext
  split
  · exact tuned_startListening h
  · split
    · intro q hq
      cases hq
    · exact tuned_startListening h

theorem waiting_resubscribeNext {size i : Nat} {channel : Channel} :
    (b.resubscribeNext size i).waiting channel = b.waiting channel := by
  unfold resubscribeNext
  split
  · exact waiting_startListening
  · split
    · rfl
    · exact waiting_startListening

/-- The PubSub of a `_reconnect` has nothing in its inbox. -/
theorem waiting_newPubsub {channel : Channel} : b.newPubsub.waiting channel = [] := by
  simp [newPubsub, waiting]

/-- What an operation of a task does to the inbox: nothing. -/
theorem waiting_after {op : BrokerOp} {ok : Bool} {channel : Channel}
    (hop : op ≠ .openPubsub) : (op.after ok b).waiting channel = b.waiting channel := by
  cases op with
  | openPubsub => exact absurd rfl hop
  | startListener => rfl
  | setCallback _ _ | popCallback _ =>
    simp only [BrokerOp.after]
    split <;> rfl
  | subscribe p _ =>
    simp only [BrokerOp.after]
    split
    · exact waiting_addChannel
    · rfl
  | unsubscribe p _ =>
    simp only [BrokerOp.after]
    split
    · exact waiting_dropChannel
    · rfl

theorem tuned_after {op : BrokerOp} {ok : Bool} (hop : op ≠ .openPubsub) (h : b.Tuned) :
    (op.after ok b).Tuned := by
  cases op with
  | openPubsub => exact absurd rfl hop
  | startListener =>
    intro q hq
    cases hq
  | setCallback _ _ | popCallback _ | subscribe _ _ | unsubscribe _ _ =>
    simp only [BrokerOp.after]
    split <;> exact h

/-- A step of the listener hands out the first message that waits, or none; what waits then is
what waited behind it, unless it is lost. -/
theorem listenerStep_waiting {e : ListenerEvent} {m : Option (Channel × Nat × Json)} (h : b.Tuned)
    (hs : b.listenerStep e = some (b', m)) : b'.Tuned ∧
      match m with
      | none => ∀ channel, (b'.waiting channel).Sublist (b.waiting channel)
      | some (channel, n, data) => b.waiting channel = (n, data) :: b'.waiting channel ∧
          ∀ other, other ≠ channel → b'.waiting other = b.waiting other := by
  unfold listenerStep at hs
  split at hs
  · cases hs
    exact ⟨tuned_startListening h, fun _ => by rw [waiting_startListening]⟩
  · -- a message comes out of the inbox of the channel
    rename_i p channel htask _
    split at hs
    · cases hs
    · rename_i n data rest hinbox
      cases hs
      have hp : b.pubsub = some p := h p htask
      have hw : ∀ other, (b.takeMessage p channel rest).waiting other =
          if other = channel then rest else b.waiting other := by
        intro other
        simp only [waiting, takeMessage, RedisBroker.modify, hp, Function.update_self,
          Function.update_apply]
      refine ⟨fun q hq => h q hq, ?_, fun other hne => ?_⟩
      · rw [hw, if_pos rfl]
        simp only [waiting, hp, hinbox]
      · rw [hw, if_neg hne]
  · split at hs
    · cases hs
      exact ⟨tuned_startListening h, fun _ => by rw [waiting_startListening]⟩
    · cases hs
  · cases hs
    -- the listener fails: it keeps what waits, for now
    exact ⟨fun q hq => (by cases hq), fun _ => List.Sublist.refl _⟩
  · -- a reconnect: the new pubsub has an empty inbox, and what waited is lost
    rename_i ok htask _
    simp only [Option.some.injEq, Prod.mk.injEq] at hs
    obtain ⟨rfl, rfl⟩ := hs
    have htuned : ∀ b₁ : RedisBroker, b₁.listenerTask = b.listenerTask → b₁.Tuned := by
      intro b₁ hb q hq
      rw [hb, htask] at hq
      cases hq
    split
    · refine ⟨tuned_resubscribeNext (htuned _ rfl), fun channel => ?_⟩
      rw [waiting_resubscribeNext, waiting_newPubsub]
      exact List.nil_sublist _
    · refine ⟨tuned_startListening (htuned _ rfl), fun channel => ?_⟩
      rw [waiting_startListening]
      exact List.Sublist.refl _
  · -- one SUBSCRIBE of the reconnect
    rename_i size i channel ok htask _
    split at hs
    · cases hs
    · rename_i p hp
      simp only [Option.some.injEq, Prod.mk.injEq] at hs
      obtain ⟨rfl, rfl⟩ := hs
      have htuned : ∀ b₁ : RedisBroker, b₁.listenerTask = b.listenerTask → b₁.Tuned := by
        intro b₁ hb q hq
        rw [hb, htask] at hq
        cases hq
      split
      · refine ⟨tuned_resubscribeNext (htuned _ rfl), fun channel' => ?_⟩
        rw [waiting_resubscribeNext, waiting_addChannel]
      · refine ⟨tuned_startListening (htuned _ rfl), fun channel' => ?_⟩
        rw [waiting_startListening]
  · cases hs

end RedisBroker

/-! ## The log -/

theorem World.log_publish {w : World} {received : ServerId → PubSubId → Bool} {channel : Channel}
    {message : Json} (other : Channel) : (w.publish received channel message).redis.log other =
      w.redis.log other ++ if other = channel then [message] else [] := by
  simp only [World.publish, Redis.log, List.filter_append, List.map_append]
  by_cases h : other = channel
  · simp [h]
  · simp [h, Ne.symm h]

theorem World.getElem?_publish {w : World} {received : ServerId → PubSubId → Bool}
    {channel other : Channel} {message m : Json} {n : Nat} (h : (w.redis.log other)[n]? = some m) :
    ((w.publish received channel message).redis.log other)[n]? = some m := by
  rw [World.log_publish, List.getElem?_append_left (List.getElem?_eq_some_iff.mp h).1]
  exact h

/-- A subscriber has the new message behind the others, unless the delivery is lost. -/
theorem RedisBroker.waiting_deliverTo (received : PubSubId → Bool) (b : RedisBroker)
    (channel other : Channel) (n : Nat) (message : Json) :
    (World.deliverTo received channel n message b).waiting other = b.waiting other ∨
      (other = channel ∧ (World.deliverTo received channel n message b).waiting other =
        b.waiting other ++ [(n, message)]) := by
  simp only [RedisBroker.waiting, World.deliverTo]
  split
  · split
    · by_cases h : other = channel
      · exact Or.inr ⟨h, by simp [h]⟩
      · exact Or.inl (Function.update_of_ne h _ _)
    · exact Or.inl rfl
  · exact Or.inl rfl

/-! ## What passes a queue -/

/-- Some payloads are lost, or one that comes from no channel is queued. -/
def Loses (ds ds' : List Delivery) : Prop :=
  ds'.Sublist ds ∨ ∃ d, d.source = none ∧ ds' = ds ++ [d]

theorem Loses.mem {ds ds' : List Delivery} (h : Loses ds ds') {d : Delivery} (hd : d ∈ ds') :
    d ∈ ds ∨ d.source = none := by
  rcases h with hs | ⟨d', hd', rfl⟩
  · exact Or.inl (hs.subset hd)
  · rcases List.mem_append.mp hd with hd | hd
    · exact Or.inl hd
    · rw [List.mem_singleton.mp hd]
      exact Or.inr hd'

theorem Loses.positions {ds ds' : List Delivery} (h : Loses ds ds') (channel : Channel) :
    (positions channel ds').Sublist (positions channel ds) := by
  rcases h with hs | ⟨d, hd, rfl⟩
  · exact hs.filterMap _
  · rw [positions_append]
    simp [NexusChat.positions, Delivery.position, hd]

section Manager

variable {m m' : ConnectionManager Delivery} {c : ConnId}

theorem loses_after {maxsize : Nat} {me : TaskId} {op : ManagerOp Delivery}
    (hop : (Op.manager op).Issued) :
    Loses (m.heap c).passed ((op.after maxsize me m).heap c).passed := by
  by_cases hsend : ∃ u p, op = .sendToUser u p
  · obtain ⟨u, p, rfl⟩ := hsend
    show Loses _ ((m.sendToUser maxsize u p).heap c).passed
    rcases heap_sendToUser (m := m) (u := u) (c := c) (n := maxsize) (p := p) with he | ⟨-, he⟩
    · rw [he]
      exact Or.inl (List.Sublist.refl _)
    · rw [he, passed_enqueue]
      exact Or.inr ⟨p, hop, rfl⟩
  · rcases drains_after (c := c) (m := m) (fun u p he => hsend ⟨u, p, he⟩) with hd | ⟨-, u, name, he⟩
    · exact Or.inl hd.sublist
    · rw [he]
      exact Or.inl (List.nil_sublist _)

theorem loses_event (h : ManagerEvent m m') : Loses (m.heap c).passed (m'.heap c).passed := by
  cases h with
  | force => exact Or.inl (List.Sublist.refl _)
  | clientGone => exact Or.inl drains_clientGone.sublist
  | sendTake h => exact Or.inl (drains_sendTake h).sublist
  | sendDone h => exact Or.inl (drains_sendDone h).sublist

theorem owned_event (h : ManagerEvent m m') (ho : m.Owned) : m'.Owned := by
  cases h with
  | force => exact ho
  | clientGone => exact owned_modify ho fun _ => rfl
  | sendTake h =>
    obtain ⟨f, rfl, hf⟩ := sendTake_eq h
    exact owned_modify ho fun k => congrArg Prod.snd (hf k).2
  | sendDone h =>
    obtain ⟨f, rfl, hf⟩ := sendDone_eq h
    exact owned_modify ho fun k => congrArg Prod.snd (hf k).2

end Manager

/-! ## The invariant -/

/-- What has passed the queue of a connection comes from the log, and before what waits. -/
structure Server.InOrder (log : Channel → List Json) (s : Server) : Prop where
  owned : s.manager.Owned
  tuned : s.broker.Tuned
  inbox : ∀ channel n message, (n, message) ∈ s.broker.waiting channel →
    (log channel)[n]? = some message
  fromLog : ∀ c, ∀ d ∈ (s.manager.heap c).passed, d.FromLog log
  order : ∀ c channel, (positions channel (s.manager.heap c).passed ++
    (s.broker.waiting channel).map Prod.fst).Pairwise (· < ·)

namespace Server.InOrder

variable {log : Channel → List Json} {s s' : Server} (h : s.InOrder log)
include h

/-- Nothing is handed over, but something may be lost on either side. -/
theorem loses (howned : s'.manager.Owned) (htuned : s'.broker.Tuned)
    (hwaiting : ∀ channel, (s'.broker.waiting channel).Sublist (s.broker.waiting channel))
    (hpassed : ∀ c, Loses (s.manager.heap c).passed (s'.manager.heap c).passed) :
    s'.InOrder log where
  owned := howned
  tuned := htuned
  inbox := fun channel n message hm => h.inbox channel n message ((hwaiting channel).subset hm)
  fromLog := fun c d hd channel n hsource => by
    rcases (hpassed c).mem hd with hold | hnone
    · exact h.fromLog c d hold channel n hsource
    · rw [hnone] at hsource
      cases hsource
  order := fun c channel => (h.order c channel).sublist
    (((hpassed c).positions channel).append ((hwaiting channel).map Prod.fst))

/-- The first message that waits passes some of the queues. -/
theorem handOver {channel : Channel} {n : Nat} {data : Json} {outbound : WSOutboundMessage}
    {exclude_user : Option UserId} (howned : s'.manager.Owned) (htuned : s'.broker.Tuned)
    (hhead : s.broker.waiting channel = (n, data) :: s'.broker.waiting channel)
    (hother : ∀ other, other ≠ channel → s'.broker.waiting other = s.broker.waiting other)
    (hhandler : Chat.roomMessageHandler data = .ok (some (outbound, exclude_user)))
    (hpassed : ∀ c, (s'.manager.heap c).passed = (s.manager.heap c).passed ∨
      (s'.manager.heap c).passed = (s.manager.heap c).passed ++
        [{ message := outbound, source := some (channel, n) }]) : s'.InOrder log := by
  have hwaiting : ∀ other, (s'.broker.waiting other).Sublist (s.broker.waiting other) := by
    intro other
    by_cases ho : other = channel
    · rw [ho, hhead]
      exact List.sublist_cons_self ..
    · rw [hother other ho]
  have hlog : (log channel)[n]? = some data :=
    h.inbox channel n data (hhead ▸ List.mem_cons_self ..)
  refine ⟨howned, htuned, fun other k message hm => ?_, fun c d hd => ?_, fun c other => ?_⟩
  · exact h.inbox other k message ((hwaiting other).subset hm)
  · rcases hpassed c with he | he
    · rw [he] at hd
      exact h.fromLog c d hd
    · rw [he] at hd
      rcases List.mem_append.mp hd with hd | hd
      · exact h.fromLog c d hd
      · rw [List.mem_singleton.mp hd]
        intro channel' n' hsource
        cases hsource
        exact ⟨data, exclude_user, hlog, hhandler⟩
  · have hsub : (positions other (s'.manager.heap c).passed ++
        (s'.broker.waiting other).map Prod.fst).Sublist
          (positions other (s.manager.heap c).passed ++
            (s.broker.waiting other).map Prod.fst) := by
      rcases hpassed c with he | he
      · rw [he]
        exact (List.Sublist.refl _).append ((hwaiting other).map Prod.fst)
      · rw [he, positions_append, List.append_assoc]
        refine (List.Sublist.refl _).append ?_
        by_cases ho : other = channel
        · rw [ho, hhead]
          simp [positions, Delivery.position]
        · rw [hother other ho]
          simp [positions, Delivery.position, Ne.symm ho]
    exact (h.order c other).sublist hsub

/-- A publish is appended to the log, and to what waits. -/
theorem publish {w : World} {received : ServerId → PubSubId → Bool} {channel : Channel}
    {message : Json} {srv : ServerId} (hlog : log = w.redis.log) (hs : s = w.servers srv) :
    ((w.publish received channel message).servers srv).InOrder
      (w.publish received channel message).redis.log := by
  subst hlog
  subst hs
  refine ⟨h.owned, h.tuned, fun other n m hm => ?_, fun c d hd => ?_, fun c other => ?_⟩
  · rcases RedisBroker.waiting_deliverTo (received srv) (w.servers srv).broker channel other
      (w.redis.log channel).length message with he | ⟨ho, he⟩
    · exact World.getElem?_publish (h.inbox other n m (he ▸ hm))
    · have hm : (n, m) ∈ (w.servers srv).broker.waiting other ++
          [((w.redis.log channel).length, message)] := he ▸ hm
      rcases List.mem_append.mp hm with hm | hm
      · exact World.getElem?_publish (h.inbox other n m hm)
      · cases List.mem_singleton.mp hm
        rw [World.log_publish, if_pos ho, ho]
        simp
  · intro channel' n hsource
    obtain ⟨m, exclude_user, hm, hhandler⟩ := h.fromLog c d hd channel' n hsource
    exact ⟨m, exclude_user, World.getElem?_publish hm, hhandler⟩
  · rcases RedisBroker.waiting_deliverTo (received srv) (w.servers srv).broker channel other
      (w.redis.log channel).length message with he | ⟨ho, he⟩
    · show (positions other ((w.servers srv).manager.heap c).passed ++
        ((World.deliverTo _ _ _ _ _).waiting other).map Prod.fst).Pairwise (· < ·)
      rw [he]
      exact h.order c other
    · show (positions other ((w.servers srv).manager.heap c).passed ++
        ((World.deliverTo _ _ _ _ _).waiting other).map Prod.fst).Pairwise (· < ·)
      rw [he, List.map_append, ← List.append_assoc]
      refine List.pairwise_append.mpr ⟨h.order c other, List.pairwise_singleton _ _, ?_⟩
      intro n hn k hk
      -- the new position is the length of the log, and every older one is below it
      have hlt : n < (w.redis.log other).length := by
        rcases List.mem_append.mp hn with hn | hn
        · obtain ⟨d, hd, hsource⟩ := mem_positions.mp hn
          obtain ⟨m, -, hm, -⟩ := h.fromLog c d hd other n hsource
          exact (List.getElem?_eq_some_iff.mp hm).1
        · obtain ⟨e, he', rfl⟩ := List.mem_map.mp hn
          exact (List.getElem?_eq_some_iff.mp (h.inbox other e.1 e.2 he')).1
      have hk : k = (w.redis.log channel).length := by simpa using hk
      rw [hk, ← ho]
      exact hlt

end Server.InOrder

/-! ## Every run -/

/-- The invariant of the world. -/
def World.InOrder (w : World) : Prop := ∀ srv, (w.servers srv).InOrder w.redis.log

section Steps

variable {env : Env} {w w' : World} {srv : ServerId}

theorem inOrder_init {t : Tables} : (World.init t).InOrder := by
  intro srv
  have hwaiting : ∀ channel, RedisBroker.connected.waiting channel = [] := fun _ => by
    simp [RedisBroker.connected, RedisBroker.waiting, RedisBroker.addChannel, RedisBroker.modify,
      RedisBroker.newPubsub, RedisBroker.init]
  refine ⟨fun u c hc => ?_, fun p hp => ?_, fun channel n message hm => ?_, fun c d hd => ?_,
    fun c channel => ?_⟩
  · cases hc
  · cases hp
  · have hm : (n, message) ∈ RedisBroker.connected.waiting channel := hm
    rw [hwaiting] at hm
    cases hm
  · cases hd
  · show (_ ++ (RedisBroker.connected.waiting channel).map Prod.fst).Pairwise (· < ·)
    rw [hwaiting]
    exact List.Pairwise.nil

theorem inOrder_setManager {m : ConnectionManager Delivery} (h : w.InOrder) (howned : m.Owned)
    (hpassed : ∀ c, Loses ((w.servers srv).manager.heap c).passed (m.heap c).passed) :
    (w.setManager srv m).InOrder := by
  intro other
  by_cases ho : other = srv
  · subst ho
    refine (h other).loses ?_ ?_ (fun channel => ?_) (fun c => ?_)
    · rw [World.manager_setManager, if_pos rfl]
      exact howned
    · rw [World.broker_setManager]
      exact (h other).tuned
    · rw [World.broker_setManager]
    · rw [World.manager_setManager, if_pos rfl]
      exact hpassed c
  · rw [World.servers_setManager_of_ne ho]
    exact h other

theorem inOrder_setBroker {b : RedisBroker} (h : w.InOrder) (htuned : b.Tuned)
    (hwaiting : ∀ channel, (b.waiting channel).Sublist ((w.servers srv).broker.waiting channel)) :
    (w.setBroker srv b).InOrder := by
  intro other
  by_cases ho : other = srv
  · subst ho
    refine (h other).loses ?_ ?_ (fun channel => ?_) (fun c => ?_)
    · rw [World.manager_setBroker]
      exact (h other).owned
    · rw [World.broker_setBroker, if_pos rfl]
      exact htuned
    · rw [World.broker_setBroker, if_pos rfl]
      exact hwaiting channel
    · rw [World.manager_setBroker]
      exact Or.inl (List.Sublist.refl _)
  · rw [World.servers_setBroker_of_ne ho]
    exact h other

/-- The listener hands the first message that waits to the callback. -/
theorem inOrder_listen {e : RedisBroker.ListenerEvent} (h : w.InOrder)
    (hs : w.listen env srv e = some w') : w'.InOrder := by
  obtain ⟨⟨b, m⟩, hstep, rfl⟩ := Option.map_eq_some_iff.mp hs
  obtain ⟨htuned, hw⟩ := RedisBroker.listenerStep_waiting (h srv).tuned hstep
  cases m with
  | none => exact inOrder_setBroker h htuned hw
  | some m =>
    obtain ⟨channel, n, data⟩ := m
    obtain ⟨hhead, hother⟩ := hw
    have hlost : (w.setBroker srv b).InOrder := by
      refine inOrder_setBroker h htuned fun other => ?_
      by_cases ho : other = channel
      · rw [ho, hhead]
        exact List.sublist_cons_self ..
      · rw [hother other ho]
    show ((w.setBroker srv b).dispatchMessage env srv channel n data).InOrder
    unfold World.dispatchMessage
    split
    · rename_i room_id outbound exclude_user _ hhandler
      intro other
      by_cases ho : other = srv
      · subst ho
        have howned := (hlost other).owned
        refine (h other).handOver (n := n) ?_ ?_ (hhead.trans ?_) (fun other' ho => ?_) hhandler
          fun c => ?_
        · rw [World.manager_setManager, if_pos rfl]
          exact owned_congr howned (fun u c hc => by rwa [connections_broadcastToRoom] at hc)
            (fun c => congrArg Prod.snd identity_broadcastToRoom)
            (Nat.le_of_eq flags_broadcastToRoom.1.symm)
        · rw [World.broker_setManager, World.broker_setBroker, if_pos rfl]
          exact htuned
        · rw [World.broker_setManager, World.broker_setBroker, if_pos rfl]
        · rw [World.broker_setManager, World.broker_setBroker, if_pos rfl]
          exact hother other' ho
        · rw [World.manager_setManager, if_pos rfl]
          rcases passed_broadcastToRoom howned c with he | he
          · rw [he, World.manager_setBroker]
            exact Or.inl rfl
          · rw [he, passed_enqueue, World.manager_setBroker]
            exact Or.inr rfl
      · rw [World.servers_setManager_of_ne ho]
        exact hlost other
    · exact hlost

/-- An operation of a task queues nothing of a channel, and a publish goes to the end. -/
theorem inOrder_exec {me : TaskId} {op : Op} {x : Choice} {r : Except Exn op.Resp}
    (hop : op.Issued) (h : w.InOrder) (hx : op.exec env srv me x w = some (r, w')) :
    w'.InOrder := by
  cases op with
  | manager o =>
    obtain ⟨⟨r', m⟩, ho, heq⟩ := Option.map_eq_some_iff.mp hx
    cases heq
    obtain ⟨-, -, rfl⟩ := ManagerOp.exec_eq_some ho
    exact inOrder_setManager h (owned_after (h srv).owned) fun c => loses_after hop
  | broker o =>
    cases hx
    have hne : o ≠ .openPubsub := fun he => by rw [he] at hop; exact hop
    exact inOrder_setBroker h (RedisBroker.tuned_after hne (h srv).tuned)
      fun channel => by rw [RedisBroker.waiting_after hne]
  | db o =>
    obtain ⟨d, -, rfl⟩ := Op.exec_dbOp hx
    exact h
  | redis o =>
    cases hx
    split
    · intro other
      show (w.servers other).InOrder (w.redis.after o).log
      have hlog : (w.redis.after o).log = w.redis.log := by
        funext channel
        simp only [Redis.log, Redis.published_after]
      rw [hlog]
      exact h other
    · exact h
  | publish channel message =>
    cases hx
    split
    · exact fun other => (h other).publish rfl rfl
    · exact h
  | sleep => cases hx; exact h
  | time => cases hx; exact h

theorem inOrder_env {s s' : System} {l : Label} (hl : ∀ i x, l ≠ .run i x)
    (hs : s.step env l = some s') (h : s.world.InOrder) : s'.world.InOrder := by
  rcases System.env_cases hl hs with he | ⟨srv, m, he, hm⟩ | ⟨srv, e, -, he⟩
  · rw [he]
    exact h
  · rw [he]
    exact inOrder_setManager h (owned_event hm (h srv).owned) fun c => loses_event hm
  · exact inOrder_listen h he

end Steps

theorem inOrder_sound {env : Env} :
    (worldly World.InOrder fun _ _ => True).Sound env Always :=
  worldly_sound (fun hop _ h hx => inOrder_exec hop h hx) (fun _ _ _ => trivial)
    (fun hl _ hs h => inOrder_env hl hs h)

theorem inOrder_reach {env : Env} {t : Tables} {s : System}
    (hr : Reach (System.step env) Always (.init t) s) : s.world.InOrder :=
  (inOrder_sound.inv_reach (Discipline.inv_init inOrder_init fun _ => trivial) hr).good

/-! ## The order in which connections are written -/

/-- The positions on a channel of what has been written to a connection's socket through its
queue. -/
def System.writes (s : System) (srv : ServerId) (c : ConnId) (channel : Channel) : List Nat :=
  positions channel ((s.world.servers srv).manager.heap c).sent

theorem writes_pairwise {env : Env} {t : Tables} {s : System}
    (hr : Reach (System.step env) Always (.init t) s) (srv : ServerId) (c : ConnId)
    (channel : Channel) : (s.writes srv c channel).Pairwise (· < ·) := by
  refine ((inOrder_reach hr srv).order c channel).sublist ?_
  have hsent : ((s.world.servers srv).manager.heap c).sent.Sublist
      ((s.world.servers srv).manager.heap c).passed := by
    rw [passed, List.append_assoc]
    exact List.sublist_append_left ..
  exact (hsent.filterMap _).trans (List.sublist_append_left ..)

/-- In a list ordered by `R`, two elements that are not in the order the other way round. -/
theorem pair_sublist {α : Type} {R : α → α → Prop} {l : List α} (hl : l.Pairwise R) {a b : α}
    (ha : a ∈ l) (hb : b ∈ l) (hne : a ≠ b) (hnot : ¬R b a) : [a, b].Sublist l := by
  obtain ⟨before, after, rfl⟩ := List.append_of_mem ha
  obtain ⟨-, -, hbefore⟩ := List.pairwise_append.mp hl
  have hafter : b ∈ after := by
    rcases List.mem_append.mp hb with hb | hb
    · exact absurd (hbefore b hb a (List.mem_cons_self ..)) hnot
    · rcases List.mem_cons.mp hb with hb | hb
      · exact absurd hb.symm hne
      · exact hb
  exact (List.cons_sublist_cons.mpr (List.singleton_sublist.mpr hafter)).trans
    (List.sublist_append_right ..)

/-- In an increasing list the order of two elements is the order of the numbers. -/
theorem pair_sublist_iff {l : List Nat} (hl : l.Pairwise (· < ·)) {n m : Nat} (hn : n ∈ l)
    (hm : m ∈ l) : [n, m].Sublist l ↔ n < m := by
  constructor
  · intro h
    exact List.rel_of_pairwise_cons (hl.sublist h) (List.mem_singleton_self m)
  · intro h
    apply pair_sublist hl hn hm
    · omega
    · omega

/-- **Connections agree on the order of a channel**, on whichever instances they are: a publish is
written to a socket at most once, as the callback renders it, and two connections that are both
written two publishes are written them in the same order. -/
theorem live_order_agrees {env : Env} {t : Tables} {s : System}
    (hr : Reach (System.step env) Always (.init t) s) (channel : Channel) :
    (∀ srv c n, (s.writes srv c channel).count n ≤ 1) ∧
      (∀ srv c, ∀ d ∈ ((s.world.servers srv).manager.heap c).sent, d.FromLog s.world.redis.log) ∧
      ∀ srv₁ c₁ srv₂ c₂ n m, n ∈ s.writes srv₁ c₁ channel → m ∈ s.writes srv₁ c₁ channel →
        n ∈ s.writes srv₂ c₂ channel → m ∈ s.writes srv₂ c₂ channel →
        ([n, m].Sublist (s.writes srv₁ c₁ channel) ↔ [n, m].Sublist (s.writes srv₂ c₂ channel)) := by
  refine ⟨fun srv c n => ?_, fun srv c d hd => ?_, fun srv₁ c₁ srv₂ c₂ n m hn₁ hm₁ hn₂ hm₂ => ?_⟩
  · have hnodup : (s.writes srv c channel).Nodup :=
      (writes_pairwise hr srv c channel).imp Nat.ne_of_lt
    exact List.nodup_iff_count_le_one.mp hnodup n
  · refine (inOrder_reach hr srv).fromLog c d ?_
    rw [passed, List.append_assoc]
    exact List.mem_append_left _ hd
  · rw [pair_sublist_iff (writes_pairwise hr srv₁ c₁ channel) hn₁ hm₁,
      pair_sublist_iff (writes_pairwise hr srv₂ c₂ channel) hn₂ hm₂]

/-- User 1 has a session on each of two instances, both in room 3, and posts a message from the
first. -/
def System.twoInstances : List Label :=
  enters 0 0 ++ handles 0 (about "join_room" []) 15 ++ enters 1 1 ++
    handles 1 (about "join_room" []) 15 ++ handles 0 (about "message" [("content", .str "hi")]) 6 1 ++
    .listener 0 .begin :: hears 0 3 ++ .listener 1 .begin :: hears 1 2 ++
    drains 0 0 5 ++ drains 1 0 4

set_option maxRecDepth 20000 in
/-- Both are written the second presence and the message, in this order. -/
theorem live_order_agrees_shared : ∃ s, replay (System.step .sample) System.twoInstances
    (.init .sample) = some s ∧ s.writes 0 0 System.roomThree = [0, 1, 2] ∧
      s.writes 1 0 System.roomThree = [1, 2] ∧
      ([1, 2].Sublist (s.writes 0 0 System.roomThree) ↔
        [1, 2].Sublist (s.writes 1 0 System.roomThree)) := by
  have hrun : ((replay (System.step .sample) System.twoInstances (.init .sample)).any fun s =>
      s.writes 0 0 System.roomThree = [0, 1, 2] && s.writes 1 0 System.roomThree = [1, 2]) =
        true := by
    decide +kernel
  obtain ⟨s, hs, hw⟩ := Option.any_eq_true _ _ |>.mp hrun
  simp only [Bool.and_eq_true, decide_eq_true_eq] at hw
  refine ⟨s, hs, hw.1, hw.2, ?_⟩
  apply (live_order_agrees (.of_replay .init hs) System.roomThree).2.2
  · rw [hw.1]; simp
  · rw [hw.1]; simp
  · rw [hw.2]; simp
  · rw [hw.2]; simp

end NexusChat
