import NexusChat.Messaging.RedisBroker
import NexusChat.Lib.Machine

/-!
# Runs of the Redis broker

Any number of calls of `subscribe` and `unsubscribe`, each suspended wherever it awaits, next to
the listener and whatever goes wrong with it. `connect` is one step: the application awaits it
before it serves anything, so nothing runs between its awaits.

The first thing to know about the listener is that it must not iterate `listen()` on a PubSub
without channels, which returns at once: `connect` subscribes a dummy channel to prevent that, but
`_reconnect` makes a new PubSub and does not. `listener_never_spins` says what a run has to
respect for the guard to hold all the same.
-/

set_option autoImplicit false

namespace NexusChat

open RedisBroker

/-- A program over the broker's operations. -/
abbrev BrokerProg (α : Type) := Coro BrokerOp.sig Exn α

def awaitBroker (op : BrokerOp) : BrokerProg op.Resp := Coro.perform (S := BrokerOp.sig) op

inductive BrokerCall where
  | subscribe (channel : Channel) (room_id : RoomId)
  | unsubscribe (channel : Channel)

def BrokerCall.prog : BrokerCall → BrokerProg Unit
  | .subscribe channel room_id => RedisBroker.subscribe awaitBroker channel room_id
  | .unsubscribe channel => RedisBroker.unsubscribe awaitBroker channel

structure BrokerPool where
  broker : RedisBroker
  tasks : List (BrokerProg Unit)

inductive BrokerLabel where
  /-- `connect`, from start to end -/
  | connect (outcome : BrokerOp → Bool)
  | call (c : BrokerCall)
  /-- call `i` performs its next operation -/
  | run (i : Nat) (ok : Bool)
  | listener (e : ListenerEvent)

namespace BrokerPool

def init : BrokerPool := { broker := .init, tasks := [] }

def step (s : BrokerPool) : BrokerLabel → Option BrokerPool
  | .connect outcome =>
    if s.broker.pubsub.isSome then none
    else ((RedisBroker.connect awaitBroker).run (fun (op : BrokerOp) x b => op.exec (x op) b) outcome
      s.broker).map fun (_, b) => { s with broker := b }
  | .call c => some { s with tasks := s.tasks ++ [c.prog] }
  | .run i ok =>
    match s.tasks[i]? with
    | none => none
    | some p => (p.step BrokerOp.exec ok s.broker).map
        fun (p', b) => { broker := b, tasks := s.tasks.set i p' }
  | .listener e => (s.broker.listenerStep e).map fun (b, _) => { s with broker := b }

/-! ## One step

The steps of a call are its operations; the steps of everybody else leave the calls alone. -/

variable {s s' : BrokerPool}

theorem step_run {i : Nat} {ok : Bool} (h : step s (.run i ok) = some s') :
    ∃ (op : BrokerOp) (k : _ → BrokerProg Unit), s.tasks[i]? = some (.await op k) ∧
      s' = { broker := op.after ok s.broker, tasks := s.tasks.set i (k (op.answer ok s.broker)) } := by
  simp only [step] at h
  split at h
  · exact absurd h (by simp)
  · rename_i p hp
    obtain ⟨⟨p', b⟩, hq, rfl⟩ := Option.map_eq_some_iff.mp h
    obtain ⟨op, k, r, rfl, hx, rfl⟩ := Coro.step_eq_some hq
    simp only [BrokerOp.exec, Option.some.injEq, Prod.mk.injEq] at hx
    obtain ⟨rfl, rfl⟩ := hx
    exact ⟨op, k, hp, rfl⟩

/-- The broker as a `connect` that went well leaves it. -/
def connected (b : RedisBroker) : RedisBroker :=
  { b.newPubsub.addChannel b.nextPubsub dummyChannel with
    listenerTask := some .created, reconnectDelay := 1 }

theorem step_connect {x : BrokerOp → Bool} (h : step s (.connect x) = some s') :
    s.broker.pubsub = none ∧ s'.tasks = s.tasks ∧
      (s'.broker = s.broker ∨ s'.broker = s.broker.newPubsub ∨ s'.broker = connected s.broker) := by
  simp only [step] at h
  split at h
  · exact absurd h (by simp)
  · rename_i hn
    refine ⟨by simpa using hn, ?_⟩
    obtain ⟨⟨r, b⟩, hr, rfl⟩ := Option.map_eq_some_iff.mp h
    refine ⟨rfl, ?_⟩
    cases hx : x .openPubsub with
    | false =>
      left
      simp [RedisBroker.connect, awaitBroker, Coro.perform, Coro.run, BrokerOp.exec,
        BrokerOp.answer, BrokerOp.after, hx] at hr
      exact hr.2.symm
    | true =>
      right
      cases hy : x (.subscribe s.broker.nextPubsub dummyChannel) with
      | false =>
        left
        simp [RedisBroker.connect, awaitBroker, Coro.perform, Coro.run, BrokerOp.exec,
          BrokerOp.answer, BrokerOp.after, hx, hy] at hr
        exact hr.2.symm
      | true =>
        right
        simp [RedisBroker.connect, awaitBroker, Coro.perform, Coro.run, BrokerOp.exec,
          BrokerOp.answer, BrokerOp.after, hx, hy] at hr
        exact hr.2.symm

/-! ## Smooth runs

The runs that show the conditions below to be satisfiable: nothing that is awaited raises, a
reconnect finds some callback and no new one, and nothing is unsubscribed. -/

def smooth (s : BrokerPool) : BrokerLabel → Bool
  | .connect _ => true
  | .call (.subscribe _ _) => true
  | .call (.unsubscribe _) => false
  | .run i ok => ok &&
    match s.tasks[i]? with
    | some (.await (.unsubscribe _ _) _) => false
    | _ => true
  | .listener (.wake ok) => ok && s.broker.callbacks.size ≠ 0
  | .listener (.subscribed ok) => ok &&
    match s.broker.listenerTask with
    | some (.subscribing size _ _) => s.broker.callbacks.size = size
    | _ => true
  | .listener _ => true

/-- Two rooms are joined on a fresh broker, and the connection to Redis breaks. -/
def breakdown : List BrokerLabel :=
  [.connect fun _ => true, .listener .begin,
    .call (.subscribe "room:a" "a"), .run 0 true, .run 0 true,
    .call (.subscribe "room:b" "b"), .run 1 true, .run 1 true, .listener .fail]

/-- The reconnect: the first channel is subscribed again, the second one only if `ok`. -/
def reconnection (ok : Bool) : List BrokerLabel :=
  [.listener (.wake true), .listener (.subscribed true), .listener (.subscribed ok)]

/-! ## The listener never spins -/

/-- `self._pubsub` has a subscribed channel. -/
def Subscribed (b : RedisBroker) : Prop :=
  ∃ p, b.pubsub = some p ∧ ∃ channel, channel ∈ (b.heap p).channels

/-- `_listen` is inside `_reconnect`. -/
def Reconnecting (b : RedisBroker) : Prop :=
  ∃ size i channel, b.listenerTask = some (.subscribing size i channel)

/-- The condition on a step. A `_reconnect` that gets a new PubSub finds some callback to
subscribe it for; when one of its subscriptions raises, the PubSub has a channel already; and,
`_reconnect` apart, no `unsubscribe` takes the last channel away. -/
def GuardKept (s : BrokerPool) : BrokerLabel → Prop
  | .listener (.wake true) => s.broker.callbacks.size ≠ 0
  | .listener (.subscribed false) => Subscribed s.broker
  | .run i true => ∀ t p channel, s.tasks[i]? = some t → t.head? = some (.unsubscribe p channel) →
      s.broker.pubsub = some p → channel ∈ (s.broker.heap p).channels →
      Reconnecting s.broker ∨ ∃ other ∈ (s.broker.heap p).channels, other ≠ channel
  | _ => True

/-- Every start of `listen()` so far found a channel, and the next one will. -/
structure Guarded (b : RedisBroker) : Prop where
  starts : ∀ n ∈ b.starts, 0 < n
  active : b.listenerTask ≠ none → Reconnecting b ∨ Subscribed b
  idle : b.pubsub = none → b.listenerTask = none

/-- What the calls of `subscribe` and `unsubscribe` perform. -/
def Serves (op : BrokerOp) : Prop := op ≠ .openPubsub ∧ op ≠ .startListener

theorem all_call (c : BrokerCall) : c.prog.All Serves := by
  cases c with
  | subscribe channel room_id =>
    refine Coro.all_bind (Coro.all_perform (by simp [Serves])) fun p => ?_
    cases p with
    | none => exact Coro.all_pure _
    | some p => exact Coro.all_perform (by simp [Serves])
  | unsubscribe channel =>
    refine Coro.all_bind (Coro.all_perform (by simp [Serves])) fun p => ?_
    cases p with
    | none => exact Coro.all_pure _
    | some p => exact Coro.all_perform (by simp [Serves])

theorem guarded_startListening {b : RedisBroker} (hs : ∀ n ∈ b.starts, 0 < n)
    (hb : Subscribed b) : Guarded b.startListening := by
  obtain ⟨p, hp, channel, hch⟩ := hb
  unfold startListening
  split
  · rename_i hn; rw [hn] at hp; exact absurd hp (by simp)
  · rename_i q hq
    obtain rfl : p = q := Option.some.inj (hp.symm.trans hq)
    refine ⟨fun n hn => ?_, fun _ => Or.inr ⟨p, hp, channel, hch⟩, fun hn => ?_⟩
    · rcases List.mem_append.mp hn with hn | hn
      · exact hs n hn
      · rw [List.mem_singleton.mp hn]
        exact List.length_pos_of_mem hch
    · exact absurd (hp.symm.trans hn) (by simp)

theorem guarded_resubscribeNext {b : RedisBroker} {size i : Nat} (hs : ∀ n ∈ b.starts, 0 < n)
    (hb : Subscribed b) : Guarded (b.resubscribeNext size i) := by
  unfold resubscribeNext
  split
  · exact guarded_startListening hs hb
  · split
    · rename_i channel _
      obtain ⟨p, hp, -⟩ := hb
      exact ⟨hs, fun _ => Or.inl ⟨size, i, channel, rfl⟩,
        fun hn => absurd (hp.symm.trans hn) (by simp)⟩
    · exact guarded_startListening hs hb

/-- A change of the subscriptions that keeps the PubSub, the listener and the history. -/
theorem Guarded.congr {b b' : RedisBroker} (h : Guarded b) (hstarts : b'.starts = b.starts)
    (hpubsub : b'.pubsub = b.pubsub) (htask : b'.listenerTask = b.listenerTask)
    (hsub : Subscribed b → Reconnecting b ∨ Subscribed b') : Guarded b' := by
  have hrec : Reconnecting b → Reconnecting b' := by
    rintro ⟨size, i, channel, hl⟩
    exact ⟨size, i, channel, htask.trans hl⟩
  refine ⟨hstarts ▸ h.starts, fun hne => ?_, fun hn => ?_⟩
  · rcases h.active (htask ▸ hne) with hr | hb
    · exact Or.inl (hrec hr)
    · exact (hsub hb).imp hrec id
  · exact htask.trans (h.idle (hpubsub ▸ hn))

theorem subscribed_addChannel {b : RedisBroker} {p : PubSubId} {channel : Channel}
    (h : b.pubsub = some p ∨ Subscribed b) : Subscribed (b.addChannel p channel) := by
  rcases h with hp | ⟨q, hq, other, ho⟩
  · exact ⟨p, hp, channel, mem_channels_addChannel.mpr (Or.inl ⟨rfl, rfl⟩)⟩
  · exact ⟨q, hq, other, mem_channels_addChannel.mpr (Or.inr ho)⟩

/-- A step of the listener. -/
theorem guarded_listenerStep {b b' : RedisBroker} {e : ListenerEvent}
    {m : Option (Channel × Nat × Json)} (h : Guarded b)
    (hwake : e = .wake true → b.callbacks.size ≠ 0) (hsub : e = .subscribed false → Subscribed b)
    (hs : b.listenerStep e = some (b', m)) : Guarded b' := by
  have hactive : ∀ l, b.listenerTask = some l → (∀ size i ch, l ≠ .subscribing size i ch) →
      Subscribed b := fun l hl hne => (h.active (by simp [hl])).resolve_left (by
    rintro ⟨size, i, ch, hr⟩
    exact hne size i ch (Option.some.inj (hl.symm.trans hr)))
  unfold listenerStep at hs
  split at hs
  · rename_i hl
    cases hs
    exact guarded_startListening h.starts (hactive _ hl (by simp))
  · rename_i p channel hl
    split at hs
    · exact absurd hs (by simp)
    · rename_i n data rest hin
      cases hs
      refine h.congr rfl rfl rfl ?_
      rintro ⟨q, hq, other, ho⟩
      exact Or.inr ⟨q, hq, other, mem_channels_takeMessage.mpr ho⟩
  · rename_i p hl
    split at hs
    · cases hs
      exact guarded_startListening h.starts (hactive _ hl (by simp))
    · exact absurd hs (by simp)
  · rename_i p hl
    cases hs
    have hb := hactive _ hl (by simp)
    obtain ⟨q, hq, -⟩ := id hb
    exact ⟨h.starts, fun _ => Or.inr hb, fun hn => absurd (hq.symm.trans hn) (by simp)⟩
  · rename_i ok hl
    have hb := hactive _ hl (by simp)
    cases hs
    split
    · rename_i hok
      subst hok
      -- the first key of a non-empty dictionary: the listener goes on to subscribe it
      have hpos : 0 < b.callbacks.keys.length := by
        rw [Dict.length_keys]; exact Nat.pos_of_ne_zero (hwake rfl)
      obtain ⟨channel, hch⟩ : ∃ channel, b.callbacks.keys[0]? = some channel :=
        ⟨_, List.getElem?_eq_getElem hpos⟩
      simp only [resubscribeNext, newPubsub, ne_eq, not_true_eq_false, if_false, hch]
      exact ⟨h.starts, fun _ => Or.inl ⟨_, _, channel, rfl⟩, fun hn => absurd hn (by simp)⟩
    · exact guarded_startListening h.starts hb
  · rename_i size i channel ok hl
    split at hs
    · exact absurd hs (by simp)
    · rename_i p hp
      cases hs
      split
      · exact guarded_resubscribeNext h.starts (subscribed_addChannel (Or.inl hp))
      · rename_i hok
        have hok : ok = false := by simpa using hok
        exact guarded_startListening h.starts (hsub (by rw [hok]))
  · exact absurd hs (by simp)

/-- An operation of a call. -/
theorem guarded_after {b : RedisBroker} {op : BrokerOp} {ok : Bool} (h : Guarded b)
    (hop : Serves op)
    (hlast : ok = true → ∀ p channel, op = .unsubscribe p channel → b.pubsub = some p →
      channel ∈ (b.heap p).channels →
      Reconnecting b ∨ ∃ other ∈ (b.heap p).channels, other ≠ channel) :
    Guarded (op.after ok b) := by
  cases op with
  | openPubsub => exact absurd rfl hop.1
  | startListener => exact absurd rfl hop.2
  | setCallback | popCallback =>
    simp only [BrokerOp.after]
    split
    · exact h.congr rfl rfl rfl Or.inr
    · exact h
  | subscribe p channel =>
    simp only [BrokerOp.after]
    split
    · exact h.congr rfl rfl rfl fun hb => Or.inr (subscribed_addChannel (Or.inr hb))
    · exact h
  | unsubscribe p channel =>
    simp only [BrokerOp.after]
    split
    · rename_i hok
      refine h.congr rfl rfl rfl ?_
      rintro ⟨q, hq, other, ho⟩
      by_cases hlost : q = p ∧ other = channel
      · obtain ⟨rfl, rfl⟩ := hlost
        refine (hlast hok q other rfl hq ho).imp id fun ⟨k, hk, hne⟩ => ⟨q, hq, k, ?_⟩
        exact mem_channels_dropChannel.mpr ⟨hk, fun hx => hne hx.2⟩
      · exact Or.inr ⟨q, hq, other, mem_channels_dropChannel.mpr ⟨ho, hlost⟩⟩
    · exact h

theorem guarded_step {l : BrokerLabel} (h : Guarded s.broker)
    (ht : ∀ t ∈ s.tasks, t.All Serves) (hc : GuardKept s l) (hs : step s l = some s') :
    Guarded s'.broker ∧ ∀ t ∈ s'.tasks, t.All Serves := by
  cases l with
  | connect x =>
    obtain ⟨hnone, htasks, hb⟩ := step_connect hs
    have hidle := h.idle hnone
    rw [htasks]
    refine ⟨?_, ht⟩
    rcases hb with hb | hb | hb <;> rw [hb]
    · exact h
    · exact ⟨h.starts, fun hne => absurd hidle hne, fun _ => hidle⟩
    · refine ⟨h.starts, fun _ => Or.inr ?_, fun hn => absurd hn (by simp [connected, newPubsub,
        addChannel, RedisBroker.modify])⟩
      obtain ⟨p, hp, channel, hch⟩ : Subscribed
          (s.broker.newPubsub.addChannel s.broker.nextPubsub dummyChannel) :=
        subscribed_addChannel (Or.inl rfl)
      exact ⟨p, hp, channel, hch⟩
  | call c =>
    cases hs
    refine ⟨h, fun t hm => ?_⟩
    rcases List.mem_append.mp hm with hm | hm
    · exact ht t hm
    · rw [List.mem_singleton.mp hm]; exact all_call c
  | run i ok =>
    obtain ⟨op, k, hi, rfl⟩ := step_run hs
    have hall := ht _ (List.mem_of_getElem? hi)
    refine ⟨guarded_after h hall.1 fun hok p channel hop => ?_, fun t hm => ?_⟩
    · subst hok hop
      exact hc _ p channel hi rfl
    · rcases List.mem_or_eq_of_mem_set hm with hm | rfl
      · exact ht t hm
      · exact hall.2 _
  | listener e =>
    obtain ⟨⟨b', m⟩, hb, rfl⟩ := Option.map_eq_some_iff.mp hs
    refine ⟨guarded_listenerStep h (fun he => ?_) (fun he => ?_) hb, ht⟩
    · subst he; exact hc
    · subst he; exact hc

/-- **The listener never spins** in a run that keeps the guard: each time `_listen` started
iterating `listen()`, its PubSub had a channel. -/
theorem listener_never_spins (h : Reach step GuardKept init s) : ∀ n ∈ s.broker.starts, 0 < n := by
  have hinv : Guarded s.broker ∧ ∀ t ∈ s.tasks, t.All Serves :=
    h.invariant (I := fun s => Guarded s.broker ∧ ∀ t ∈ s.tasks, t.All Serves)
      ⟨⟨fun n hn => by simp [init, RedisBroker.init] at hn,
        fun hne => absurd rfl hne, fun _ => rfl⟩, fun t hm => by simp [init] at hm⟩
      fun _ _ _ hi hc hs => guarded_step hi.1 hi.2 hc hs
  exact hinv.1.starts

theorem guardKept_of_smooth (s : BrokerPool) (l : BrokerLabel) (h : s.smooth l = true) :
    s.GuardKept l := by
  cases l with
  | connect | call => trivial
  | run i ok =>
    cases ok with
    | false => trivial
    | true =>
      intro t p channel hi hh
      cases t with
      | ret | raise => simp [Coro.head?] at hh
      | await op k =>
        obtain rfl : op = .unsubscribe p channel := Option.some.inj hh
        simp [smooth, hi] at h
  | listener e =>
    cases e with
    | wake ok =>
      cases ok with
      | false => trivial
      | true => exact (by simpa [smooth] using h : s.broker.callbacks.size ≠ 0)
    | subscribed ok =>
      cases ok with
      | false => simp [smooth] at h
      | true => trivial
    | _ => trivial

/-- Through a reconnect of two rooms, `listen()` is started with a channel each time. -/
theorem listener_never_spins_reconnection : ∃ s,
    replay step (breakdown ++ reconnection true) init = some s ∧
      ∀ n ∈ s.broker.starts, 0 < n := by
  have hrun : (replayIf step smooth (breakdown ++ reconnection true) init).isSome = true := by
    decide +kernel
  obtain ⟨s, hs⟩ := Option.isSome_iff_exists.mp hrun
  exact ⟨s, replay_of_replayIf hs,
    listener_never_spins (.of_replayIf guardKept_of_smooth .init hs)⟩

/-- With no callback registered, a reconnect forgets the dummy channel and the listener starts
on a PubSub without any. -/
theorem listener_spins : ¬ ∀ s, Reach step Always init s → ∀ n ∈ s.broker.starts, 0 < n := by
  intro hall
  have hrun : (replay step [.connect fun _ => true, .listener .begin, .listener .fail,
      .listener (.wake true)] init).map (fun s => s.broker.starts) = some [1, 0] := by
    decide +kernel
  obtain ⟨s, hs, hstarts⟩ := Option.map_eq_some_iff.mp hrun
  exact absurd (hall s (.of_replay .init hs) 0 (by simp [hstarts])) (by simp)

end BrokerPool

end NexusChat
