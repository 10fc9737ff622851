import NexusChat.Api.Chat
import NexusChat.Lib.Machine

/-!
# The dead letter queue (`publish`, `publish_dead_letter`)

A message that Redis has not accepted in three attempts is pushed on a list, and the list is then
trimmed: two commands, between which any other call may push or trim. So the list is the newest
part of all that was ever pushed, it is cut only where it is too long, and it is too long only
while somebody has pushed and not trimmed yet.
-/

set_option autoImplicit false

namespace NexusChat

/-! ## A list that is cut to its newest part -/

/-- The list is the newest part of the history, both newest first, and only older entries than the
newest `bound` are missing. -/
structure Recent {α : Type} (bound : Nat) (history stored : List α) : Prop where
  newest : stored <+: history
  enough : min history.length bound ≤ stored.length

namespace Recent

variable {α : Type} {bound : Nat} {history stored : List α}

theorem nil : Recent bound ([] : List α) [] := ⟨List.nil_prefix, Nat.zero_le _⟩

theorem push (h : Recent bound history stored) (a : α) :
    Recent bound (a :: history) (a :: stored) := by
  refine ⟨List.cons_prefix_cons.mpr ⟨rfl, h.newest⟩, ?_⟩
  have := h.enough
  simp only [List.length_cons]
  omega

theorem trim (h : Recent bound history stored) : Recent bound history (stored.take bound) := by
  refine ⟨(List.take_prefix _ _).trans h.newest, ?_⟩
  have := h.enough
  simp only [List.length_take]
  omega

end Recent

/-! ## The calls -/

/-- A call of `publish` or of `publish_dead_letter`, with what has come of it: what Redis has
accepted of its attempts, and what it has pushed. -/
structure PublishCall where
  server : ServerId
  channel : Channel
  message : Json
  prog : Prog Unit
  accepted : List (Channel × Json)
  letters : List DeadLetter

/-- Any number of calls on any number of instances; `pushed` is the history of the pushes, newest
first. -/
structure PublishPool where
  world : World
  calls : List PublishCall
  pushed : List DeadLetter

/-- What Redis executes of an attempt to publish. -/
def Op.accepts (x : Choice) : Op → List (Channel × Json)
  | .publish channel message => if x.ok || x.executed then [(channel, message)] else []
  | _ => []

/-- What an operation pushes on the dead letter queue. -/
def Op.pushes (x : Choice) : Op → List DeadLetter
  | .redis (.lpush entry) => if x.ok || x.executed then [entry] else []
  | _ => []

namespace PublishPool

inductive Label where
  | publish (server : ServerId) (channel : Channel) (message : Json)
  | letter (server : ServerId) (channel : Channel) (message : Json) (error : Exn)
  /-- call `i` performs its next operation -/
  | run (i : TaskId) (x : Choice)

def init (t : Tables) : PublishPool := { world := .init t, calls := [], pushed := [] }

def newCall (server : ServerId) (channel : Channel) (message : Json) (prog : Prog Unit) :
    PublishCall := { server, channel, message, prog, accepted := [], letters := [] }

def step (env : Env) (s : PublishPool) : Label → Option PublishPool
  | .publish server channel message => some { s with calls := s.calls ++
      [newCall server channel message (RedisBroker.publish channel message)] }
  | .letter server channel message error => some { s with calls := s.calls ++
      [newCall server channel message (RedisBroker.publishDeadLetter channel message error)] }
  | .run i x =>
    match s.calls[i]? with
    | none => none
    | some c =>
      match c.prog.head? with
      | none => none
      | some op => (c.prog.step (Op.exec env c.server i) x s.world).map fun (p, w) =>
        { world := w
          calls := s.calls.set i { c with
            prog := p
            accepted := Op.accepts x op ++ c.accepted
            letters := Op.pushes x op ++ c.letters }
          pushed := Op.pushes x op ++ s.pushed }

/-- Redis answers the commands on the dead letter queue. -/
def LettersAnswered (s : PublishPool) : Label → Prop
  | .run i x => ∀ (c : PublishCall), s.calls[i]? = some c →
      ((∃ entry, c.prog.head? = some (.redis (.lpush entry))) ∨
        ∃ stop, c.prog.head? = some (.redis (.ltrim stop))) → x.ok = true
  | _ => True

end PublishPool

/-! ## One call -/

/-- Redis has accepted the message, or it is on the dead letter queue. -/
def Accounted (channel : Channel) (message : Json) (accepted : List (Channel × Json))
    (letters : List DeadLetter) : Prop :=
  (channel, message) ∈ accepted ∨
    ∃ entry ∈ letters, entry.originalChannel = channel ∧ entry.message = message

/-- Where a call is, and what has come of it by then. -/
inductive Stage (channel : Channel) (message : Json) :
    Prog Unit → List (Channel × Json) → List DeadLetter → Prop where
  | attempt {left : Nat} {accepted : List (Channel × Json)} :
      Stage channel message (RedisBroker.publishAttempts channel message (left + 1)) accepted []
  | sleep {left : Nat} {accepted : List (Channel × Json)} :
      Stage channel message
        (await .sleep >>= fun _ => RedisBroker.publishAttempts channel message (left + 1)) accepted []
  | letter {error : Exn} {accepted : List (Channel × Json)} :
      Stage channel message (RedisBroker.publishDeadLetter channel message error) accepted []
  | push {entry : DeadLetter} {accepted : List (Channel × Json)}
      (hentry : entry.originalChannel = channel ∧ entry.message = message) :
      Stage channel message (tryCatchThe Exn
        (redisOp (.lpush entry) >>= fun _ => redisOp (.ltrim 9999)) fun _ => pure ()) accepted []
  | trim {entry : DeadLetter} {accepted : List (Channel × Json)}
      (hentry : entry.originalChannel = channel ∧ entry.message = message) :
      Stage channel message (tryCatchThe Exn (redisOp (.ltrim 9999)) fun _ => pure ()) accepted
        [entry]
  | ended {accepted : List (Channel × Json)} {letters : List DeadLetter}
      (h : Accounted channel message accepted letters) :
      Stage channel message (pure ()) accepted letters

/-- What an operation does to the dead letter queue. -/
def Op.requeue (x : Choice) (queue : List DeadLetter) : Op → List DeadLetter
  | .redis (.lpush entry) => if x.ok || x.executed then entry :: queue else queue
  | .redis (.ltrim stop) => if x.ok || x.executed then queue.take (stop + 1) else queue
  | _ => queue

section Call

variable {env : Env} {srv : ServerId} {me : TaskId} {x : Choice} {w w' : World} {op : Op}
  {channel : Channel} {message : Json} {p p' : Prog Unit} {accepted : List (Channel × Json)}
  {letters : List DeadLetter}

theorem Op.exec_deadLetters {r : Except Exn op.Resp} (h : op.exec env srv me x w = some (r, w')) :
    w'.redis.deadLetters = op.requeue x w.redis.deadLetters := by
  cases op with
  | redis o =>
    cases h
    cases o with
    | lpush | ltrim =>
      simp only [requeue]
      split <;> rfl
    | _ =>
      simp only [requeue]
      split <;> rfl
  | publish channel message =>
    cases h
    split <;> rfl
  | manager o =>
    obtain ⟨⟨r', m⟩, -, heq⟩ := Option.map_eq_some_iff.mp h
    cases heq
    rfl
  | db o =>
    obtain ⟨⟨r', d⟩, -, heq⟩ := Option.map_eq_some_iff.mp h
    cases heq
    rfl
  | broker o => cases h; rfl
  | sleep => cases h; rfl
  | time => cases h; rfl

/-- **A call goes on to its end**: an attempt is accepted, or the message is pushed. -/
theorem Stage.step (h : Stage channel message p accepted letters)
    (hs : p.step (Op.exec env srv me) x w = some (p', w')) (hhead : p.head? = some op)
    (hok : ((∃ entry, op = .redis (.lpush entry)) ∨ ∃ stop, op = .redis (.ltrim stop)) →
      x.ok = true) :
    Stage channel message p' (op.accepts x ++ accepted) (op.pushes x ++ letters) ∧
      (∀ entry, op = .redis (.lpush entry) → p'.head? = some (.redis (.ltrim 9999))) ∧
      ∀ stop, op = .redis (.ltrim stop) → stop = 9999 := by
  cases h with
  | @attempt left accepted =>
    cases hhead
    refine ⟨?_, (fun _ he => by cases he), (fun _ he => by cases he)⟩
    cases hs
    by_cases hanswer : x.ok = true
    · simp only [hanswer, if_true, Op.accepts, Bool.true_or]
      exact .ended (.inl (List.mem_cons_self ..))
    · simp only [hanswer, Bool.false_eq_true, if_false]
      cases left with
      | zero => exact .letter
      | succ left => exact .sleep
  | sleep =>
    cases hhead
    cases hs
    exact ⟨.attempt, (fun _ he => by cases he), (fun _ he => by cases he)⟩
  | letter =>
    cases hhead
    cases hs
    exact ⟨.push ⟨rfl, rfl⟩, (fun _ he => by cases he), (fun _ he => by cases he)⟩
  | @push entry accepted hentry =>
    cases hhead
    have hanswer := hok (.inl ⟨_, rfl⟩)
    cases hs
    simp only [hanswer, if_true, Op.pushes, Bool.true_or]
    exact ⟨.trim hentry, (fun _ _ => rfl), (fun _ he => by cases he)⟩
  | @trim entry accepted hentry =>
    cases hhead
    have hanswer := hok (.inr ⟨_, rfl⟩)
    cases hs
    simp only [hanswer, if_true]
    refine ⟨.ended (.inr ⟨entry, List.mem_singleton_self _, hentry⟩),
      (fun _ he => by cases he), fun stop he => ?_⟩
    cases he
    rfl
  | ended h => cases hhead

/-- A call that has ended is accounted for. -/
theorem Stage.accounted (h : Stage channel message p accepted letters) (hended : p.head? = none) :
    Accounted channel message accepted letters := by
  cases h with
  | ended haccounted => exact haccounted
  | _ => cases hended

end Call

/-! ## All calls -/

namespace PublishPool

/-- The dead letter queue holds the newest of what was pushed, and too much of it only while a call
has pushed and not trimmed yet; and each call that has ended is accounted for. -/
structure Kept (s : PublishPool) : Prop where
  recent : Recent 10000 s.pushed s.world.redis.deadLetters
  bounded : (∀ c ∈ s.calls, c.prog.head? ≠ some (.redis (.ltrim 9999))) →
    s.world.redis.deadLetters.length ≤ 10000
  returned : ∀ c ∈ s.calls, c.prog.head? = none →
    Accounted c.channel c.message c.accepted c.letters ∧ ∀ entry ∈ c.letters, entry ∈ s.pushed

structure Inv (s : PublishPool) : Prop where
  recent : Recent 10000 s.pushed s.world.redis.deadLetters
  bounded : s.world.redis.deadLetters.length ≤ 10000 ∨ ∃ (i : TaskId) (c : PublishCall),
    s.calls[i]? = some c ∧ c.prog.head? = some (.redis (.ltrim 9999))
  stages : ∀ (i : TaskId) (c : PublishCall), s.calls[i]? = some c →
    Stage c.channel c.message c.prog c.accepted c.letters
  letters : ∀ (i : TaskId) (c : PublishCall), s.calls[i]? = some c →
    ∀ entry ∈ c.letters, entry ∈ s.pushed

section Runs

variable {env : Env} {s s' : PublishPool}

/-- An operation of a call. -/
theorem run_eq_some {i : TaskId} {x : Choice} (hs : s.step env (.run i x) = some s') :
    ∃ c op r p, s.calls[i]? = some c ∧ c.prog.head? = some op ∧
      c.prog.step (Op.exec env c.server i) x s.world = some (p, s'.world) ∧
      op.exec env c.server i x s.world = some (r, s'.world) ∧
      s'.calls = s.calls.set i { c with
        prog := p, accepted := op.accepts x ++ c.accepted, letters := op.pushes x ++ c.letters } ∧
      s'.pushed = op.pushes x ++ s.pushed := by
  simp only [step] at hs
  split at hs
  · cases hs
  · rename_i c hi
    split at hs
    · cases hs
    · rename_i op hhead
      obtain ⟨⟨p, w⟩, hp, rfl⟩ := Option.map_eq_some_iff.mp hs
      obtain ⟨op', k, r, hprog, hx, -⟩ := Coro.step_eq_some hp
      rw [hprog] at hhead
      cases hhead
      exact ⟨c, op, r, p, hi, by rw [hprog]; rfl, hp, hx, rfl, rfl⟩

/-- What an operation does to the queue and to the history. -/
theorem recent_requeue {op : Op} {x : Choice} {pushed queue : List DeadLetter}
    (h : Recent 10000 pushed queue) (htrim : ∀ stop, op = .redis (.ltrim stop) → stop = 9999) :
    Recent 10000 (op.pushes x ++ pushed) (op.requeue x queue) := by
  cases op with
  | redis o =>
    cases o with
    | lpush entry =>
      simp only [Op.pushes, Op.requeue]
      split
      · exact h.push entry
      · exact h
    | ltrim stop =>
      obtain rfl := htrim stop rfl
      simp only [Op.pushes, Op.requeue]
      split
      · exact h.trim
      · exact h
    | _ => exact h
  | _ => exact h

theorem requeue_other {op : Op} {x : Choice} {queue : List DeadLetter}
    (hpush : ∀ entry, op ≠ .redis (.lpush entry)) (htrim : ∀ stop, op ≠ .redis (.ltrim stop)) :
    op.requeue x queue = queue := by
  cases op with
  | redis o =>
    cases o with
    | lpush entry => exact absurd rfl (hpush entry)
    | ltrim stop => exact absurd rfl (htrim stop)
    | _ => rfl
  | _ => rfl

/-- A new call changes nothing for the others. -/
theorem Inv.call (h : s.Inv) {server : ServerId} {channel : Channel} {message : Json}
    {prog : Prog Unit} (hprog : Stage channel message prog [] []) :
    Inv { s with calls := s.calls ++ [newCall server channel message prog] } := by
  have hcalls : ∀ {i : TaskId} {c : PublishCall},
      (s.calls ++ [newCall server channel message prog])[i]? = some c →
        s.calls[i]? = some c ∨ c = newCall server channel message prog := by
    intro i c hi
    rcases List.mem_append.mp (List.mem_of_getElem? hi) with hold | hnew
    · rw [List.getElem?_append] at hi
      split at hi
      · exact .inl hi
      · have hmem := List.mem_of_getElem? hi
        exact .inr (List.mem_singleton.mp hmem)
    · exact .inr (List.mem_singleton.mp hnew)
  refine ⟨h.recent, ?_, fun i c hi => ?_, fun i c hi => ?_⟩
  · refine h.bounded.imp_right ?_
    rintro ⟨i, c, hi, htrims⟩
    refine ⟨i, c, ?_, htrims⟩
    rw [List.getElem?_append_left (List.getElem?_eq_some_iff.mp hi).1]
    exact hi
  · rcases hcalls hi with hi | rfl
    · exact h.stages i c hi
    · exact hprog
  · rcases hcalls hi with hi | rfl
    · exact h.letters i c hi
    · intro entry hentry
      cases hentry

theorem inv_step {l : Label} (h : s.Inv) (hC : s.LettersAnswered l)
    (hs : s.step env l = some s') : s'.Inv := by
  cases l with
  | publish server channel message =>
    cases hs
    exact h.call .attempt
  | letter server channel message error =>
    cases hs
    exact h.call .letter
  | run i x =>
    obtain ⟨c, op, r, p, hi, hhead, hp, hx, hcalls, hpushed⟩ := run_eq_some hs
    obtain ⟨hstage, hlpush, hltrim⟩ := (h.stages i c hi).step hp hhead fun hop => by
      refine hC c hi ?_
      rw [hhead]
      rcases hop with ⟨entry, rfl⟩ | ⟨stop, rfl⟩
      · exact .inl ⟨entry, rfl⟩
      · exact .inr ⟨stop, rfl⟩
    have hqueue := Op.exec_deadLetters hx
    have hself : s'.calls[i]? = some { c with
        prog := p, accepted := op.accepts x ++ c.accepted, letters := op.pushes x ++ c.letters } := by
      rw [hcalls]
      exact List.getElem?_set_self (List.getElem?_eq_some_iff.mp hi).1
    -- the queue is recent and bounded, and the calls are at their stages with their letters in it
    refine ⟨?_, ?_, fun j c' hj => ?_, fun j c' hj => ?_⟩
    · rw [hqueue, hpushed]
      exact recent_requeue h.recent hltrim
    · by_cases hpush : ∃ entry, op = .redis (.lpush entry)
      · obtain ⟨entry, hop⟩ := hpush
        -- after the LPUSH this call is the one that is about to trim
        exact .inr ⟨i, _, hself, hlpush entry hop⟩
      · by_cases hcut : op = .redis (.ltrim 9999)
        · subst hcut
          have hok : x.ok = true := hC c hi (.inr ⟨9999, hhead⟩)
          refine .inl ?_
          rw [hqueue]
          simp only [Op.requeue, hok, Bool.true_or, if_true]
          exact List.length_take_le _ _
        · -- the queue is as it was, and whoever was about to trim still is
          rw [hqueue, requeue_other (fun entry he => hpush ⟨entry, he⟩) fun stop he =>
            hcut (hltrim stop he ▸ he)]
          refine h.bounded.imp_right ?_
          rintro ⟨j, c', hj, htrims⟩
          refine ⟨j, c', ?_, htrims⟩
          rw [hcalls, List.getElem?_set_ne ?_]
          · exact hj
          · rintro rfl
            rw [hi] at hj
            cases hj
            rw [hhead] at htrims
            exact hcut (Option.some.inj htrims)
    · rw [hcalls] at hj
      rcases getElem?_replace hj with ⟨-, hj⟩ | ⟨-, rfl⟩
      · exact h.stages j c' hj
      · exact hstage
    · rw [hcalls] at hj
      intro entry hentry
      rw [hpushed]
      rcases getElem?_replace hj with ⟨-, hj⟩ | ⟨-, rfl⟩
      · exact List.mem_append_right _ (h.letters j c' hj entry hentry)
      · rcases List.mem_append.mp hentry with hnew | hold
        · exact List.mem_append_left _ hnew
        · exact List.mem_append_right _ (h.letters i c hi entry hold)

theorem inv_init {t : Tables} : (PublishPool.init t).Inv :=
  ⟨.nil, .inl (Nat.zero_le _), (fun _ _ hi => by cases hi), (fun _ _ hi => by cases hi)⟩

/-- **The newest failures are kept, and every message is accounted for**, however the calls
interleave, as long as Redis answers the commands on the queue. -/
theorem dead_letters_kept {t : Tables}
    (hr : Reach (step env) LettersAnswered (.init t) s) : s.Kept := by
  have h : s.Inv := hr.invariant inv_init fun _ _ _ h hC hs => inv_step h hC hs
  refine ⟨h.recent, fun htrims => ?_, fun c hc hended => ?_⟩
  · rcases h.bounded with hle | ⟨i, c, hi, htrim⟩
    · exact hle
    · exact absurd htrim (htrims c (List.mem_of_getElem? hi))
  · obtain ⟨i, hi⟩ := List.mem_iff_getElem?.mp hc
    exact ⟨(h.stages i c hi).accounted hended, h.letters i c hi⟩

end Runs

/-! ### A message that fails three times -/

namespace Sample

def choice (ok : Bool) : Choice where
  ok := ok
  executed := false
  order := []
  now := Env.newYear
  uuid := 0
  ties := .stable
  received := fun _ _ => false

/-- Three attempts fail; the push and the trim are answered. -/
def fails : List Label :=
  .publish 0 "room:1" .null :: (List.replicate 5 (.run 0 (choice false)) ++
    List.replicate 3 (.run 0 (choice true)))

def answered (s : PublishPool) : Label → Bool
  | .run i x => x.ok || match (s.calls[i]?).bind fun c => c.prog.head? with
    | some (.redis _) => false
    | _ => true
  | _ => true

theorem answered_iff (s : PublishPool) (l : Label) (h : answered s l = true) :
    s.LettersAnswered l := by
  cases l with
  | run i x =>
    intro c hi hop
    rcases Bool.or_eq_true_iff.mp h with hok | hother
    · exact hok
    · rw [hi] at hother
      rcases hop with ⟨entry, hhead⟩ | ⟨stop, hhead⟩
      · simp only [Option.bind_some, hhead] at hother
        cases hother
      · simp only [Option.bind_some, hhead] at hother
        cases hother
  | _ => trivial

end Sample

set_option maxRecDepth 20000 in
open PublishPool.Sample in
/-- One message is on the queue. -/
theorem dead_letters_kept_one : ∃ s : PublishPool,
    Reach (step .sample) LettersAnswered (.init .sample) s ∧ s.pushed.length = 1 ∧ s.Kept := by
  have hrun : ((replayIf (step .sample) answered fails (.init .sample)).any fun s =>
      s.pushed.length = 1) = true := by
    decide +kernel
  obtain ⟨s, hs, hpushed⟩ := (Option.any_eq_true _ _).mp hrun
  have hr := Reach.of_replayIf answered_iff .init hs
  exact ⟨s, hr, of_decide_eq_true hpushed, dead_letters_kept hr⟩

end PublishPool

end NexusChat
