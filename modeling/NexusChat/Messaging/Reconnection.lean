import NexusChat.Messaging.BrokerRuns

/-!
# Reconnecting restores every channel

`_reconnect` replaces the PubSub first and subscribes its channels afterwards, one await at a
time, and `_listen` swallows whatever it raises and goes back to listening. So a room can stop
receiving for good: after a failed attempt the current PubSub misses the channels the iterator
had not come to, and nothing subscribes them again until the next error.

The invariant has three phases. While the listener listens, every callback's channel is
subscribed or about to be; while it sleeps, nothing is promised; while it reconnects, what the
iterator over `_callbacks` has visited is subscribed. `reconnect_restores` follows for every run
whose attempts raise only when there was nothing left to do.
-/

set_option autoImplicit false

namespace NexusChat

open RedisBroker

namespace BrokerPool

variable {s s' : BrokerPool}

/-- Call `i` is suspended in `pubsub.subscribe(channel)`. -/
def InFlightAt (s : BrokerPool) (i : Nat) (p : PubSubId) (channel : Channel) : Prop :=
  ∃ t, s.tasks[i]? = some t ∧ t.head? = some (.subscribe p channel)

def InFlight (s : BrokerPool) (p : PubSubId) (channel : Channel) : Prop :=
  ∃ i, s.InFlightAt i p channel

/-- Every channel of `_callbacks` is subscribed on `p`, or a `subscribe` call is about to. -/
def Covered (s : BrokerPool) (p : PubSubId) : Prop :=
  ∀ channel ∈ s.broker.callbacks.keys,
    channel ∈ (s.broker.heap p).channels ∨ s.InFlight p channel

/-- The condition on a step. No channel is unsubscribed. A `_reconnect` attempt raises (its
client cannot be made, a subscription fails, or the dictionary has grown) only when the PubSub it
leaves behind is covered. A `subscribe` call on the current PubSub fails only while a reconnect
is still to come, or for a channel that another call has subscribed or is subscribing. -/
def Restores (s : BrokerPool) : BrokerLabel → Prop
  | .call (.unsubscribe _) => False
  | .run i false => ∀ p channel, s.InFlightAt i p channel → s.broker.pubsub = some p →
      Reconnecting s.broker ∨ s.broker.listenerTask = some .backoff ∨
        channel ∈ (s.broker.heap p).channels ∨ ∃ j, j ≠ i ∧ s.InFlightAt j p channel
  | .listener (.wake false) | .listener (.subscribed false) =>
    ∀ p, s.broker.pubsub = some p → s.Covered p
  | .listener (.subscribed true) => ∀ p size i channel, s.broker.pubsub = some p →
      s.broker.listenerTask = some (.subscribing size i channel) →
      s.broker.callbacks.size ≠ size → ∀ other ∈ s.broker.callbacks.keys, other = channel ∨
        other ∈ (s.broker.heap p).channels ∨ s.InFlight p other
  | _ => True

/-- A call registers a callback and goes on to subscribe its channel. -/
def Registers : (op : BrokerOp) → (Except Exn op.Resp → BrokerProg Unit) → Prop
  | .setCallback channel _, k => ∀ p, (k (.ok (some p))).head? = some (.subscribe p channel)
  | .subscribe _ _, _ => True
  | _, _ => False

theorem nodes_subscribe (channel : Channel) (room_id : RoomId) :
    (BrokerCall.subscribe channel room_id).prog.Nodes Registers := by
  refine ⟨fun p => rfl, fun r => ?_⟩
  rcases r with _ | _ | p
  · trivial
  · trivial
  · exact ⟨trivial, fun r => by cases r <;> trivial⟩

/-- The invariant, by the listener's phase: covered while it listens, and covered as far as the
iterator has come while it reconnects. -/
structure Restoring (s : BrokerPool) : Prop where
  unopened : s.broker.pubsub = none →
    s.broker.callbacks.keys = [] ∧ s.broker.listenerTask = none
  covered : s.broker.listenerTask ≠ none → s.broker.listenerTask ≠ some .backoff →
    ¬Reconnecting s.broker → ∀ p, s.broker.pubsub = some p → s.Covered p
  listening : ∀ p, s.broker.listenerTask = some (.listening p) → s.broker.pubsub = some p
  visited : ∀ p size i channel, s.broker.pubsub = some p →
    s.broker.listenerTask = some (.subscribing size i channel) →
      s.broker.callbacks.keys[i]? = some channel ∧
        ∀ other ∈ s.broker.callbacks.keys.take i, other ∈ (s.broker.heap p).channels
  tasks : ∀ t ∈ s.tasks, t.Nodes Registers

theorem restoring_startListening {b : RedisBroker} {p : PubSubId} (hp : b.pubsub = some p)
    (hc : Covered { s with broker := b } p) (ht : ∀ t ∈ s.tasks, t.Nodes Registers) :
    Restoring { s with broker := b.startListening } := by
  simp only [startListening, hp]
  refine
    { unopened := fun hn => absurd hn (by simp)
      covered := fun _ _ _ q hq => ?_
      listening := fun q hq => ?_
      visited := fun q size i channel _ hl => absurd hl (by simp)
      tasks := ht }
  · obtain rfl : p = q := Option.some.inj hq
    exact hc
  · simpa using hq

/-- Going on with the next key, when the iterator has visited everything before it. -/
theorem restoring_resubscribeNext {b : RedisBroker} {p : PubSubId} {size i : Nat}
    (hp : b.pubsub = some p)
    (hv : ∀ other ∈ b.callbacks.keys.take i, other ∈ (b.heap p).channels)
    (hgrown : b.callbacks.size ≠ size → Covered { s with broker := b } p)
    (ht : ∀ t ∈ s.tasks, t.Nodes Registers) :
    Restoring { s with broker := b.resubscribeNext size i } := by
  unfold resubscribeNext
  split
  · rename_i hne
    exact restoring_startListening hp (hgrown hne) ht
  · split
    · rename_i channel hch
      refine
        { unopened := fun hn => absurd (hp.symm.trans hn) (by simp)
          covered := fun _ _ hr => absurd ⟨size, i, channel, rfl⟩ hr
          listening := fun q hq => absurd hq (by simp)
          visited := fun q size' i' channel' hq hl => ?_
          tasks := ht }
      simp only [Option.some.injEq, Listener.subscribing.injEq] at hl
      obtain ⟨rfl, rfl, rfl⟩ := hl
      obtain rfl : p = q := Option.some.inj (hp.symm.trans hq)
      exact ⟨hch, hv⟩
    · rename_i hend
      -- the iterator is through: everything has been visited
      refine restoring_startListening hp (fun channel hk => Or.inl (hv channel ?_)) ht
      rw [List.take_of_length_le (List.getElem?_eq_none_iff.mp hend)]
      exact hk

/-- A step of the listener. -/
theorem restoring_listenerStep {b : RedisBroker} {e : ListenerEvent}
    {m : Option (Channel × Nat × Json)} (h : Restoring s) (hc : Restores s (.listener e))
    (hs : s.broker.listenerStep e = some (b, m)) : Restoring { s with broker := b } := by
  -- an active listener has a PubSub
  have hopen : s.broker.listenerTask ≠ none → ∃ p, s.broker.pubsub = some p := fun hne => by
    cases hp : s.broker.pubsub with
    | none => exact absurd (h.unopened hp).2 hne
    | some p => exact ⟨p, rfl⟩
  have hcov : ∀ l, s.broker.listenerTask = some l → l ≠ .backoff →
      (∀ size i ch, l ≠ .subscribing size i ch) → ∀ p, s.broker.pubsub = some p →
        s.Covered p := fun l hl hb hne => h.covered (by simp [hl]) (by simpa [hl] using hb) (by
    rintro ⟨size, i, ch, hr⟩
    exact hne size i ch (Option.some.inj (hl.symm.trans hr)))
  unfold listenerStep at hs
  split at hs
  · rename_i hl
    cases hs
    obtain ⟨p, hp⟩ := hopen (by simp [hl])
    exact restoring_startListening hp (hcov _ hl (by simp) (by simp) p hp) h.tasks
  · rename_i p channel hl
    split at hs
    · exact absurd hs (by simp)
    · cases hs
      refine
        { unopened := h.unopened
          covered := fun hn hb hr q hq channel hk => ?_
          listening := h.listening
          visited := fun q size i ch hq hl' => absurd (hl.symm.trans hl') (by simp)
          tasks := h.tasks }
      exact (h.covered hn hb hr q hq channel hk).imp mem_channels_takeMessage.mpr id
  · rename_i p hl
    split at hs
    · cases hs
      exact restoring_startListening (h.listening p hl)
        (hcov _ hl (by simp) (by simp) p (h.listening p hl)) h.tasks
    · exact absurd hs (by simp)
  · rename_i p hl
    cases hs
    exact
      { unopened := fun hn => absurd ((h.unopened hn).2.symm.trans hl) (by simp)
        covered := fun _ hb => absurd rfl hb
        listening := fun q hq => absurd hq (by simp)
        visited := fun q size i ch _ hl' => absurd hl' (by simp)
        tasks := h.tasks }
  · rename_i ok hl
    obtain ⟨p, hp⟩ := hopen (by simp [hl])
    cases hs
    split
    · exact restoring_resubscribeNext (b := (RedisBroker.newPubsub _)) (i := 0) rfl
        (fun other ho => by simp at ho) (fun hne => absurd rfl hne) h.tasks
    · rename_i hok
      have hok : ok = false := by simpa using hok
      subst hok
      exact restoring_startListening (b := { s.broker with reconnectDelay := _ }) hp (hc p hp)
        h.tasks
  · rename_i size i channel ok hl
    split at hs
    · exact absurd hs (by simp)
    · rename_i p hp
      obtain ⟨hch, hv⟩ := h.visited p size i channel hp hl
      cases hs
      split
      · rename_i hok
        subst hok
        refine restoring_resubscribeNext (b := s.broker.addChannel p channel) hp ?_ ?_ h.tasks
        · intro other ho
          obtain ⟨hlt, hget⟩ := List.getElem?_eq_some_iff.mp hch
          rw [show (s.broker.addChannel p channel).callbacks.keys = s.broker.callbacks.keys from rfl,
            List.take_succ_eq_append_getElem hlt, List.mem_append, List.mem_singleton] at ho
          rcases ho with ho | rfl
          · exact mem_channels_addChannel.mpr (Or.inr (hv other ho))
          · exact mem_channels_addChannel.mpr (Or.inl ⟨rfl, hget⟩)
        · intro hne other ho
          rcases hc p size i channel hp hl hne other ho with rfl | ho | ho
          · exact Or.inl (mem_channels_addChannel.mpr (Or.inl ⟨rfl, rfl⟩))
          · exact Or.inl (mem_channels_addChannel.mpr (Or.inr ho))
          · exact Or.inr ho
      · rename_i hok
        have hok : ok = false := by simpa using hok
        subst hok
        exact restoring_startListening hp (hc p hp) h.tasks
  · exact absurd hs (by simp)

/-- What is in flight after call `i` has moved on: what the others had in flight, and what call
`i` has now. -/
theorem inFlightAt_set {i j : Nat} {b : RedisBroker} {t : BrokerProg Unit} {p : PubSubId}
    {channel : Channel} (hji : j ≠ i) (h : s.InFlightAt j p channel) :
    InFlightAt { broker := b, tasks := s.tasks.set i t } j p channel := by
  obtain ⟨u, hu, hh⟩ := h
  exact ⟨u, by rw [List.getElem?_set_ne (Ne.symm hji)]; exact hu, hh⟩

/-- A step of a call after which whatever was covered is covered: the callbacks may have grown
by a channel that is in flight now, and a subscription may be done. -/
theorem Restoring.of_call {b : RedisBroker} {ts : List (BrokerProg Unit)} (h : Restoring s)
    (hpub : b.pubsub = s.broker.pubsub) (htask : b.listenerTask = s.broker.listenerTask)
    (hkeys : ∃ new, b.callbacks.keys = s.broker.callbacks.keys ++ new ∧
      (s.broker.pubsub = none → new = []) ∧
      ∀ p, s.broker.pubsub = some p → ∀ channel ∈ new, InFlight ⟨b, ts⟩ p channel)
    (hheap : ∀ p, ∀ channel ∈ (s.broker.heap p).channels, channel ∈ (b.heap p).channels)
    (hflight : ∀ p channel, s.broker.listenerTask ≠ none → s.broker.listenerTask ≠ some .backoff →
      ¬Reconnecting s.broker → s.broker.pubsub = some p → s.InFlight p channel →
      channel ∈ (b.heap p).channels ∨ InFlight ⟨b, ts⟩ p channel)
    (ht : ∀ t ∈ ts, t.Nodes Registers) : Restoring ⟨b, ts⟩ := by
  obtain ⟨new, hnew, hnone, hsome⟩ := hkeys
  refine
    { unopened := fun hn => ?_
      covered := fun hn hb hr p hp channel hk => ?_
      listening := fun p hl => hpub.trans (h.listening p (htask ▸ hl))
      visited := fun p size i channel hp hl => ?_
      tasks := ht }
  · obtain ⟨hk, hl⟩ := h.unopened (hpub ▸ hn)
    exact ⟨by rw [hnew, hk, hnone (hpub ▸ hn)]; rfl, htask.trans hl⟩
  · have hr' : ¬Reconnecting s.broker := fun ⟨size, i, ch, hl⟩ => hr ⟨size, i, ch, htask.trans hl⟩
    rw [hnew] at hk
    rcases List.mem_append.mp hk with hk | hk
    · rcases h.covered (htask ▸ hn) (htask ▸ hb) hr' p (hpub ▸ hp) channel hk with hc | hc
      · exact Or.inl (hheap p channel hc)
      · exact hflight p channel (htask ▸ hn) (htask ▸ hb) hr' (hpub ▸ hp) hc
    · exact Or.inr (hsome p (hpub ▸ hp) channel hk)
  · obtain ⟨hk, hv⟩ := h.visited p size i channel (hpub ▸ hp) (htask ▸ hl)
    have hlt : i < s.broker.callbacks.keys.length := (List.getElem?_eq_some_iff.mp hk).1
    rw [hnew]
    refine ⟨by rw [List.getElem?_append_left hlt]; exact hk, fun other ho => ?_⟩
    rw [List.take_append_of_le_length hlt.le] at ho
    exact hheap p other (hv other ho)

theorem restoring_run {i : Nat} {ok : Bool} (h : Restoring s) (hc : Restores s (.run i ok))
    (hs : step s (.run i ok) = some s') : Restoring s' := by
  obtain ⟨op, k, hi, rfl⟩ := step_run hs
  obtain ⟨hreg, hk⟩ := h.tasks _ (List.mem_of_getElem? hi)
  have ht : ∀ r, ∀ t ∈ s.tasks.set i (k r), t.Nodes Registers := fun r t hm => by
    rcases List.mem_or_eq_of_mem_set hm with hm | rfl
    · exact h.tasks t hm
    · exact hk r
  have hlt : i < s.tasks.length := (List.getElem?_eq_some_iff.mp hi).1
  cases op with
  | openPubsub | startListener | popCallback | unsubscribe => exact absurd hreg id
  | setCallback channel room_id =>
    -- a callback is set before the call subscribes: no SUBSCRIBE is under way in this task
    have hkeep : ∀ b p ch, s.InFlight p ch →
        InFlight ⟨b, s.tasks.set i (k (.ok s.broker.pubsub))⟩ p ch := by
      rintro b p ch ⟨j, hj⟩
      refine ⟨j, inFlightAt_set (fun hji => ?_) hj⟩
      obtain ⟨t, htj, hh⟩ := hj
      rw [hji, hi] at htj
      cases htj
      simp [Coro.head?] at hh
    simp only [BrokerOp.after, BrokerOp.answer]
    cases hp : s.broker.pubsub with
    | none =>
      rw [hp] at hkeep
      exact h.of_call rfl rfl ⟨[], (List.append_nil _).symm, fun _ => rfl, by simp⟩
        (fun _ _ hm => hm) (fun p ch _ _ _ _ hf => Or.inr (hkeep _ p ch hf)) (ht _)
    | some p =>
      rw [hp] at hkeep
      have hin : ∀ b, InFlight ⟨b, s.tasks.set i (k (.ok (some p)))⟩ p channel := fun b =>
        ⟨i, _, List.getElem?_set_self hlt, hreg p⟩
      refine h.of_call hp.symm rfl ?_ (fun _ _ hm => hm)
        (fun q ch _ _ _ _ hf => Or.inr (hkeep _ q ch hf)) (ht _)
      -- a channel that has had a callback keeps its place in the order
      by_cases hmem : channel ∈ s.broker.callbacks.keys
      · exact ⟨[], by simpa using Dict.keys_set_of_mem hmem room_id, fun _ => rfl, by simp⟩
      · refine ⟨[channel], by simpa using Dict.keys_set_of_not_mem hmem room_id,
          fun hn => absurd (hp.symm.trans hn) (by simp), fun q hq ch hch => ?_⟩
        obtain rfl : p = q := Option.some.inj (hp.symm.trans hq)
        rw [List.mem_singleton.mp hch]
        exact hin _
  | subscribe p channel =>
    -- the task was on its way to subscribe to this channel and to no other
    have hat : ∀ q ch, s.InFlightAt i q ch → q = p ∧ ch = channel := by
      rintro q ch ⟨t, hti, hh⟩
      rw [hi] at hti
      cases hti
      simp only [Coro.head?, Option.some.injEq, BrokerOp.subscribe.injEq] at hh
      exact ⟨hh.1.symm, hh.2.symm⟩
    have hother : ∀ b r q ch j, j ≠ i → s.InFlightAt j q ch →
        InFlight ⟨b, s.tasks.set i (k r)⟩ q ch := fun b r q ch j hji hj =>
      ⟨j, inFlightAt_set hji hj⟩
    cases ok with
    | true =>
      refine h.of_call rfl rfl ⟨[], (List.append_nil _).symm, fun _ => rfl, by simp⟩
        (fun q ch hm => mem_channels_addChannel.mpr (Or.inr hm)) ?_ (ht _)
      rintro q ch - - - hq ⟨j, hj⟩
      by_cases hji : j = i
      · subst hji
        exact Or.inl (mem_channels_addChannel.mpr (Or.inl (hat q ch hj)))
      · exact Or.inr (hother _ _ q ch j hji hj)
    | false =>
      -- Redis has refused: by the condition somebody else restores the channel
      refine h.of_call rfl rfl ⟨[], (List.append_nil _).symm, fun _ => rfl, by simp⟩
        (fun q ch hm => hm) ?_ (ht _)
      rintro q ch - hb hr hq ⟨j, hj⟩
      by_cases hji : j = i
      · subst hji
        rcases hc q ch hj hq with hx | hx | hx | ⟨j', hne, hj'⟩
        · exact absurd hx hr
        · exact absurd hx hb
        · exact Or.inl hx
        · exact Or.inr (hother _ _ q ch j' hne hj')
      · exact Or.inr (hother _ _ q ch j hji hj)

theorem restoring_step {l : BrokerLabel} (h : Restoring s) (hc : Restores s l)
    (hs : step s l = some s') : Restoring s' := by
  cases l with
  | connect x =>
    obtain ⟨hnone, htasks, hb⟩ := step_connect hs
    obtain ⟨hkeys, hidle⟩ := h.unopened hnone
    obtain ⟨b, ts⟩ := s'
    obtain rfl : ts = s.tasks := htasks
    rcases hb with rfl | rfl | rfl
    · exact h
    · exact
        { unopened := fun hn => absurd hn (by simp [newPubsub])
          covered := fun hn => absurd hidle hn
          listening := fun p hl => absurd (hidle.symm.trans hl) (by simp)
          visited := fun p size i channel _ hl => absurd (hidle.symm.trans hl) (by simp)
          tasks := h.tasks }
    · exact
        { unopened := fun hn => absurd hn (by
            simp [connected, newPubsub, addChannel, RedisBroker.modify])
          covered := fun _ _ _ p _ channel hk => by
            rw [show (connected s.broker).callbacks.keys = s.broker.callbacks.keys from rfl,
              hkeys] at hk
            simp at hk
          listening := fun p hl => absurd hl (by simp [connected])
          visited := fun p size i channel _ hl => absurd hl (by simp [connected])
          tasks := h.tasks }
  | call c =>
    cases c with
    | unsubscribe channel => exact absurd hc id
    | subscribe channel room_id =>
      cases hs
      refine h.of_call rfl rfl ⟨[], (List.append_nil _).symm, fun _ => rfl, by simp⟩
        (fun _ _ hm => hm) (fun p ch _ _ _ _ hf => Or.inr ?_) fun t hm => ?_
      · obtain ⟨j, t, hj, hh⟩ := hf
        refine ⟨j, t, ?_, hh⟩
        rw [List.getElem?_append_left (List.getElem?_eq_some_iff.mp hj).1]
        exact hj
      · rcases List.mem_append.mp hm with hm | hm
        · exact h.tasks t hm
        · rw [List.mem_singleton.mp hm]; exact nodes_subscribe channel room_id
  | run i ok => exact restoring_run h hc hs
  | listener e =>
    obtain ⟨⟨b', m⟩, hb, rfl⟩ := Option.map_eq_some_iff.mp hs
    exact restoring_listenerStep h hc hb

/-- **Reconnecting restores every channel.** In a run that meets the condition, whenever
`_listen` consumes from a PubSub, that PubSub is the current one and every channel of
`_callbacks` is subscribed on it, unless the `subscribe` call for it is still suspended. -/
theorem reconnect_restores (h : Reach step Restores init s) {p : PubSubId}
    (hl : s.broker.listenerTask = some (.listening p)) : s.broker.pubsub = some p ∧
      ∀ channel ∈ s.broker.callbacks.keys, ¬s.InFlight p channel →
        channel ∈ (s.broker.heap p).channels := by
  have hinv : Restoring s := h.invariant
    { unopened := fun _ => ⟨rfl, rfl⟩
      covered := fun hn => absurd rfl hn
      listening := fun p hl => absurd hl (by simp [init, RedisBroker.init])
      visited := fun p size i channel hp => absurd hp (by simp [init, RedisBroker.init])
      tasks := fun t hm => by simp [init] at hm }
    fun _ _ _ hi hc hs => restoring_step hi hc hs
  refine ⟨hinv.listening p hl, fun channel hk hf => ?_⟩
  exact (hinv.covered (by simp [hl]) (by simp [hl]) (by
    rintro ⟨size, i, ch, hr⟩
    exact absurd (hl.symm.trans hr) (by simp)) p (hinv.listening p hl) channel hk).resolve_right hf

theorem restores_of_smooth (s : BrokerPool) (l : BrokerLabel) (h : s.smooth l = true) :
    s.Restores l := by
  cases l with
  | connect => trivial
  | call c =>
    cases c with
    | subscribe => trivial
    | unsubscribe => simp [smooth] at h
  | run i ok =>
    cases ok with
    | false => simp [smooth] at h
    | true => trivial
  | listener e =>
    cases e with
    | wake ok =>
      cases ok with
      | false => simp [smooth] at h
      | true => trivial
    | subscribed ok =>
      cases ok with
      | false => simp [smooth] at h
      | true =>
        intro p size i channel _ hl hne
        simp [smooth, hl, hne] at h
    | _ => trivial

/-- Both rooms of `breakdown` are subscribed again. -/
theorem reconnect_restores_reconnection : ∃ s,
    replay step (breakdown ++ reconnection true) init = some s ∧ s.broker.pubsub = some 1 ∧
      ∀ channel ∈ s.broker.callbacks.keys, ¬s.InFlight 1 channel →
        channel ∈ (s.broker.heap 1).channels := by
  have hrun : (replayIf step smooth (breakdown ++ reconnection true) init).any
      (fun s => s.broker.listenerTask = some (.listening 1)) = true := by decide +kernel
  obtain ⟨s, hs, hl⟩ := (Option.any_eq_true _ _).mp hrun
  exact ⟨s, replay_of_replayIf hs,
    reconnect_restores (.of_replayIf restores_of_smooth .init hs) (of_decide_eq_true hl)⟩

/-- When the second subscription of the reconnect raises, `_listen` goes back to listening, with
no error pending and nothing in flight, and the second room is not subscribed. -/
theorem not_reconnect_restores : ¬ ∀ s, Reach step Always init s →
    ∀ p, s.broker.listenerTask = some (.listening p) → s.broker.pubsub = some p →
      (∀ channel, ¬s.InFlight p channel) →
      ∀ channel ∈ s.broker.callbacks.keys, channel ∈ (s.broker.heap p).channels := by
  intro hall
  have hrun : (replay step (breakdown ++ reconnection false) init).any (fun s =>
      s.broker.listenerTask = some (.listening 1) && s.broker.pubsub = some 1 &&
      s.tasks.all (fun t => t.head?.isNone) && decide ("room:b" ∈ s.broker.callbacks.keys) &&
      !decide ("room:b" ∈ (s.broker.heap 1).channels)) = true := by decide +kernel
  obtain ⟨s, hs, hv⟩ := (Option.any_eq_true _ _).mp hrun
  simp only [Bool.and_eq_true, decide_eq_true_eq, List.all_eq_true, Bool.not_eq_true',
    decide_eq_false_iff_not] at hv
  obtain ⟨⟨⟨⟨hl, hp⟩, hquiet⟩, hkey⟩, hout⟩ := hv
  refine hout (hall s (.of_replay .init hs) 1 hl hp ?_ "room:b" hkey)
  rintro channel ⟨i, t, hi, hh⟩
  have := hquiet t (List.mem_of_getElem? hi)
  simp [hh] at this

end BrokerPool

end NexusChat
