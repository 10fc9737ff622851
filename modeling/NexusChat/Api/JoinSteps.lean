import NexusChat.Api.Occupancy
import NexusChat.Lib.Protocol

/-!
# A join, operation by operation

`_handle_join_room` sets the callback of the channel, waits for the SUBSCRIBE and calls `join_room`,
one after the other and with nothing in between, and no other program does any of the three. So a
task that performs one of them is a session in the middle of a join, and goes on with the next one
(`Task.joins_step`).
-/

set_option autoImplicit false

namespace NexusChat

open ConnectionManager

/-! ## The way of a join -/

/-- How far a program has come with a join. -/
inductive JoinStage where
  | away
  /-- the callback is set, and the SUBSCRIBE comes next -/
  | calling (room : RoomId)
  /-- `join_room` comes next -/
  | subscribed (room : RoomId)

/-- The operations that neither subscribe nor bring anybody into a room. -/
def Op.Aside : Op → Prop
  | .broker _ | .manager (.joinRoom _ _) => False
  | _ => True

/-- The channel of a room. -/
abbrev channelOf (env : Env) (room : RoomId) : Channel := Chat.roomChannel env (.str room)

/-- A join, operation by operation; only a session makes one. -/
inductive JoinMoves (env : Env) (o : Option UserId) :
    JoinStage → (op : Op) → Except Exn op.Resp → JoinStage → Prop where
  | aside {op : Op} {r : Except Exn op.Resp} : op.Aside → JoinMoves env o .away op r .away
  | call {u : UserId} {room : RoomId} : o = some u →
      JoinMoves env o .away (.broker (.setCallback (channelOf env room) room)) (.ok (some 0))
        (.calling room)
  | subscribe {room : RoomId} : JoinMoves env o (.calling room)
      (.broker (.subscribe 0 (channelOf env room))) (.ok ()) (.subscribed room)
  | join {u : UserId} {room : RoomId} {r : Except Exn Unit} :
      JoinMoves env o (.subscribed room) (.manager (.joinRoom u room)) r .away

/-- What the broker answers, on its first PubSub, when Redis answers. -/
def Op.Granted : (op : Op) → Except Exn op.Resp → Prop
  | .broker (.setCallback _ _), r => r = .ok (some 0)
  | .broker (.subscribe _ _), r => r = .ok ()
  | _, _ => True

/-- The program is at this stage, and does not end before it has made the join. -/
abbrev Joins (env : Env) (o : Option UserId) (st : JoinStage) {α : Type} (p : Prog α) : Prop :=
  p.Follows (S := Op.sig) Op.Granted (JoinMoves env o) (fun _ st => st = .away) st

section Programs

variable {env : Env} {o : Option UserId} {u : UserId} {username : String} {room : RoomId}
  {α β : Type}

theorem joins_of_all {p : Prog α} (h : p.All Op.Aside) : Joins env o .away p :=
  Coro.follows_of_all (fun _ hop _ => .aside hop) h fun _ => rfl

theorem joins_bind {p : Prog α} {f : α → Prog β} (hp : p.All Op.Aside)
    (hf : ∀ a, Joins env o .away (f a)) : Joins env o .away (p >>= f) :=
  Coro.follows_bind_of_all (S := Op.sig) (fun _ hop _ => .aside hop) hp hf fun _ => rfl

theorem Op.Quiet.aside {op : Op} (h : op.Quiet) : op.Aside := by
  cases op with
  | manager o => cases o <;> first | exact trivial | exact absurd h id
  | broker o => exact absurd h id
  | _ => trivial

theorem joins_enterRoom : Joins env (some u) .away (Chat.enterRoom env u username room) := by
  have hquiet : ∀ op : Op, op.Quiet → op.Aside := fun _ => Op.Quiet.aside
  refine Coro.follows_bind (S := Op.sig) (Coro.follows_perform (S := Op.sig) fun r hr =>
    ⟨.calling room, ?_⟩)
  obtain rfl := hr
  refine ⟨.call rfl, Coro.follows_last (S := Op.sig) fun r hr => ⟨.subscribed room, ?_⟩⟩
  obtain rfl := hr
  refine ⟨.subscribe, Coro.follows_perform (S := Op.sig) fun r _ => ⟨.away, .join, ?_⟩⟩
  cases r with
  | error e => rfl
  | ok _ =>
    have honline : (PresenceService.setOnline env (.str room) u username).All Op.Aside :=
      Coro.all_bind (all_time hquiet) fun _ => Coro.all_bind (all_redisOp hquiet) fun _ =>
        all_redisOp hquiet
    exact joins_of_all (Coro.all_bind honline fun _ => Coro.all_bind (all_publish hquiet trivial)
      fun _ => Coro.all_bind (all_getOnlineUsers hquiet) fun _ => all_sendToUser hquiet)

theorem joins_handleFrame {data : Json} :
    Joins env (some u) .away (Chat.handleFrame env u username data) := by
  have hquiet : ∀ op : Op, op.Quiet → op.Aside := fun _ => Op.Quiet.aside
  rw [Chat.handleFrame_eq]
  refine joins_bind (Coro.all_ofExcept _) fun event => joins_bind (Coro.all_ofExcept _)
    fun event_data => joins_bind (all_rateLimited hquiet) fun limited => ?_
  split
  · exact joins_of_all (all_sendToUser hquiet)
  · apply Chat.dispatch_cases (P := fun p => Joins env (some u) .away p)
    · intro _
      refine joins_bind (Coro.all_ofExcept _) fun room_id => ?_
      split
      · refine joins_bind (all_verifyMembership hquiet (fun _ _ => trivial) trivial) fun ok => ?_
        split
        · exact joins_enterRoom
        · exact (rfl : JoinStage.away = .away)
      · exact joins_of_all (all_sendToUser hquiet)
    · intro _
      exact joins_of_all (all_handleLeaveRoom hquiet (fun _ _ => trivial) fun _ _ => trivial)
    · intro _
      exact joins_of_all (all_handleMessage hquiet (fun _ _ => ⟨trivial, fun _ _ _ _ => trivial,
        trivial, trivial, trivial⟩) fun _ _ _ => trivial)
    · exact fun _ => joins_of_all (all_handleTyping hquiet fun _ _ => trivial)
    · exact fun _ => joins_of_all (all_handleTyping hquiet fun _ _ => trivial)
    · exact fun _ => joins_of_all (all_sendToUser hquiet)

theorem started_joins : Started env fun o {_} p => Joins env o .away p where
  connect _ _ := joins_of_all (all_connect trivial trivial (fun _ => trivial)
    (fun _ _ => trivial) (fun _ => trivial) fun _ => trivial)
  frame _ _ _ := joins_handleFrame
  send _ _ := joins_of_all (all_sendToUser fun _ => Op.Quiet.aside)
  cleanup _ _ _ := joins_of_all (all_cleanup (fun _ => Op.Quiet.aside) (fun _ => trivial) trivial
    (fun _ => trivial) trivial)
  request _ := joins_of_all (all_request fun _ => trivial)
  force _ _ := joins_of_all (all_forceDisconnect trivial (fun _ => trivial) trivial trivial)

/-- Every operation can be answered. -/
theorem Op.exists_granted (op : Op) : ∃ r, op.Granted r := by
  cases op with
  | broker o =>
    cases o with
    | setCallback channel room_id => exact ⟨_, rfl⟩
    | subscribe p channel => exact ⟨_, rfl⟩
    | _ => exact ⟨.error .redisError, trivial⟩
  | _ => exact ⟨.error .redisError, trivial⟩

/-- What a program at a stage of a join does next. -/
def JoinStage.Next (env : Env) : JoinStage → Op → Prop
  | .away, _ => False
  | .calling room, op => op = .broker (.subscribe 0 (channelOf env room))
  | .subscribed room, op => ∃ u, op = .manager (.joinRoom u room)

theorem Joins.next {st : JoinStage} {p : Prog α} (h : Joins env o st p) (hst : st ≠ .away) :
    ∃ op, p.head? = some op ∧ st.Next env op := by
  cases p with
  | ret a => exact absurd h hst
  | raise e => exact absurd h hst
  | await op k =>
    obtain ⟨r, hr⟩ := op.exists_granted
    obtain ⟨st', hmove, -⟩ := h r hr
    cases hmove with
    | aside _ => exact absurd rfl hst
    | call _ => exact absurd rfl hst
    | subscribe => exact ⟨_, rfl, rfl⟩
    | join => exact ⟨_, rfl, _, rfl⟩

end Programs

/-! ## One operation of a join -/

/-- What is known at a stage of a join: a session makes it, and the callback is set. -/
def JoinStage.Called (env : Env) (keys : List Channel) (o : Option UserId) : JoinStage → Prop
  | .away => True
  | .calling room | .subscribed room => o ≠ none ∧ channelOf env room ∈ keys

def AtStage (env : Env) (keys : List Channel) (o : Option UserId) {α : Type} (p : Prog α) : Prop :=
  ∃ st : JoinStage, st.Called env keys o ∧ Joins env o st p

/-- The task is a session of the instance that has called `subscribe` for the channel of a room and
has yet to call `join_room`. -/
def Task.Joining (env : Env) (srv : ServerId) (channel : Channel) : Task → Prop
  | .session ses => ses.server = srv ∧
      ((∃ p, ses.phase.head? = some (.broker (.subscribe p channel))) ∨
        ∃ u room, ses.phase.head? = some (.manager (.joinRoom u room)) ∧
          channel = channelOf env room)
  | .request _ _ | .forced _ _ _ => False

/-- It is waiting for the SUBSCRIBE. -/
def Task.Calling (srv : ServerId) (channel : Channel) : Task → Prop
  | .session ses => ses.server = srv ∧
      ses.phase.head? = some (.broker (.subscribe 0 channel))
  | .request _ _ | .forced _ _ _ => False

section Tasks

variable {env : Env} {srv : ServerId} {me : TaskId} {x : Choice} {w w' : World} {op : Op}
  {keys keys' : List Channel} {channel : Channel} {t t' : Task} {st : JoinStage}

theorem JoinStage.Called.mono {o : Option UserId} (h : st.Called env keys o)
    (hkeys : ∀ ch ∈ keys, ch ∈ keys') : st.Called env keys' o := by
  cases st with
  | away => trivial
  | calling room => exact ⟨h.1, hkeys _ h.2⟩
  | subscribed room => exact ⟨h.1, hkeys _ h.2⟩

theorem Task.Calling.joining (h : t.Calling srv channel) : t.Joining env srv channel := by
  cases t with
  | session ses => exact ⟨h.1, .inl ⟨0, h.2⟩⟩
  | request _ _ => exact absurd h id
  | forced _ _ _ => exact absurd h id

theorem Task.Calling.head (h : t.Calling srv channel) :
    t.head? = some (.broker (.subscribe 0 channel)) := by
  cases t with
  | session ses => exact h.2
  | request _ _ => exact absurd h id
  | forced _ _ _ => exact absurd h id

theorem Task.Joining.head (h : t.Joining env srv channel) :
    (∃ p, t.head? = some (.broker (.subscribe p channel))) ∨
      ∃ u room, t.head? = some (.manager (.joinRoom u room)) ∧ channel = channelOf env room := by
  cases t with
  | request _ _ => exact absurd h id
  | forced _ _ _ => exact absurd h id
  | session ses => exact h.2

theorem Task.Joining.not_aside (h : t.Joining env srv channel) (hhead : t.head? = some op) :
    ¬op.Aside := by
  rcases h.head with ⟨p, hop⟩ | ⟨u, room, hop, -⟩
  · cases hhead.symm.trans hop
    exact id
  · cases hhead.symm.trans hop
    exact id

/-- A session with an operation to perform does not go on in the same step. -/
theorem Phase.settle_of_head {phase : Phase} {u : UserId} {username : String}
    {isOpen : ConnId → Bool} (h : phase.head? = some op) :
    phase.settle env u username isOpen = phase := by
  cases phase with
  | connecting p =>
    cases p with
    | await op k => rfl
    | _ => cases h
  | handling conn frame p =>
    cases p with
    | await op k => rfl
    | _ => cases h
  | cleanup conn p =>
    cases p with
    | await op k => rfl
    | _ => cases h
  | receiving conn => rfl
  | ended => rfl

/-- What an operation does at a stage of a join, by the operation `head?` that was pending before
it and the operation `next?` that is pending after it. -/
def JoinStep (env : Env) (keys : List Channel) (o : Option UserId) (srv : ServerId) (me : TaskId)
    (x : Choice) (w w' : World) (head? next? : Option Op) : Prop :=
  ∃ (op : Op) (r : Except Exn op.Resp) (st st' : JoinStage), head? = some op ∧
    op.exec env srv me x w = some (r, w') ∧ st.Called env keys o ∧ JoinMoves env o st op r st' ∧
      (st' ≠ .away → ∃ op', next? = some op' ∧ st'.Next env op')

theorem AtStage.step {o : Option UserId} {α : Type} {p p' : Prog α} (hP : AtStage env keys o p)
    (hp : p.step (Op.exec env srv me) x w = some (p', w'))
    (hgrant : ∀ op r, p.head? = some op → op.exec env srv me x w = some (r, w') → op.Granted r) :
    JoinStep env keys o srv me x w w' p.head? p'.head? := by
  obtain ⟨st, hcalled, hjoins⟩ := hP
  obtain ⟨op, r, st', hhead, hx, hmove, hjoins'⟩ := Coro.Follows.step hjoins hp hgrant
  exact ⟨op, r, st, st', hhead, hx, hcalled, hmove, Joins.next hjoins'⟩

theorem Phase.joins_step {o : Option UserId} {phase phase' : Phase}
    (hP : phase.Programs (AtStage env keys o))
    (hs : phase.step env srv me x w = some (phase', w'))
    (hgrant : ∀ op r, phase.head? = some op →
      op.exec env srv me x w = some (r, w') → op.Granted r) :
    JoinStep env keys o srv me x w w' phase.head? phase'.head? := by
  cases phase with
  | receiving conn => cases hs
  | ended => cases hs
  | connecting p =>
    obtain ⟨⟨p', w₁⟩, hp, heq⟩ := Option.map_eq_some_iff.mp hs
    cases heq
    exact AtStage.step hP hp hgrant
  | handling conn frame p =>
    obtain ⟨⟨p', w₁⟩, hp, heq⟩ := Option.map_eq_some_iff.mp hs
    cases heq
    exact AtStage.step hP hp hgrant
  | cleanup conn p =>
    obtain ⟨⟨p', w₁⟩, hp, heq⟩ := Option.map_eq_some_iff.mp hs
    cases heq
    exact AtStage.step hP hp hgrant

/-- **A task takes one step of a join at a time**, and in the middle of a join it is a session. -/
theorem Task.joins_step (hP : t.Programs (AtStage env keys))
    (hs : t.step env me x w = some (t', w'))
    (hgrant : ∀ op r, t.head? = some op →
      op.exec env t.activity.server me x w = some (r, w') → op.Granted r) :
    ∃ (op : Op) (r : Except Exn op.Resp) (st st' : JoinStage), t.head? = some op ∧
      op.exec env t.activity.server me x w = some (r, w') ∧ st.Called env keys t.owner ∧
        JoinMoves env t.owner st op r st' ∧
          (st' ≠ .away → ∃ ses', t' = .session ses' ∧ ses'.server = t.activity.server ∧
            ∃ op', ses'.phase.head? = some op' ∧ st'.Next env op') := by
  have hnobody : ∀ {st op r st'}, JoinStage.Called env keys none st →
      JoinMoves env none st op r st' → st' = .away := by
    intro st op r st' hcalled hmove
    cases hmove with
    | aside _ => rfl
    | call ho => cases ho
    | subscribe => exact absurd rfl hcalled.1
    | join => rfl
  cases t with
  | request r p =>
    obtain ⟨⟨p', w₁⟩, hp, heq⟩ := Option.map_eq_some_iff.mp hs
    cases heq
    obtain ⟨op, r, st, st', hhead, hx, hcalled, hmove, -⟩ := AtStage.step hP hp hgrant
    exact ⟨op, r, st, st', hhead, hx, hcalled, hmove, fun hst =>
      absurd (hnobody hcalled hmove) hst⟩
  | forced srv conn p =>
    obtain ⟨⟨p', w₁⟩, hp, heq⟩ := Option.map_eq_some_iff.mp hs
    cases heq
    obtain ⟨op, r, st, st', hhead, hx, hcalled, hmove, -⟩ := AtStage.step hP hp hgrant
    exact ⟨op, r, st, st', hhead, hx, hcalled, hmove, fun hst =>
      absurd (hnobody hcalled hmove) hst⟩
  | session ses =>
    obtain ⟨⟨phase', w₁⟩, hphase, heq⟩ := Option.map_eq_some_iff.mp hs
    cases heq
    obtain ⟨op, r, st, st', hhead, hx, hcalled, hmove, hnext⟩ := Phase.joins_step hP hphase hgrant
    refine ⟨op, r, st, st', hhead, hx, hcalled, hmove, fun hst => ?_⟩
    obtain ⟨op', hop', hnext'⟩ := hnext hst
    refine ⟨_, rfl, rfl, op', ?_, hnext'⟩
    rw [Phase.settle_of_head hop']
    exact hop'

/-- On the first PubSub, and with Redis answering, the broker's answers are the granted ones. -/
theorem granted_exec {r : Except Exn op.Resp} (hpubsub : (w.servers srv).broker.pubsub = some 0)
    (hok : op.CallsRedis → x.ok = true) (h : op.exec env srv me x w = some (r, w')) :
    op.Granted r := by
  cases op with
  | broker o =>
    cases h
    cases o with
    | setCallback channel room_id => exact congrArg Except.ok hpubsub
    | subscribe p channel => exact if_pos (hok trivial)
    | _ => trivial
  | _ => trivial

end Tasks

end NexusChat
