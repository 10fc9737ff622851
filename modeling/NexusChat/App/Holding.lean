import NexusChat.App.Moves
import NexusChat.Lib.Protocol

/-!
# What a task holds

Two things make a task wait for another one: the lock of a connection manager, and a row that a
transaction has flushed and not yet committed. `Hold` says which of them a task holds, and
`Hold.Moves` how an operation changes that. Every program of the application follows these moves:
whoever holds the lock goes on to give it back without asking for anything, whoever has flushed a
row that another transaction may clash with has nothing left to do in the database but end, and no
program ends with anything in its hands (`started_bound`).
-/

set_option autoImplicit false

namespace NexusChat

/-- What a task holds that another one may wait for. -/
inductive Hold where
  | nothing
  /-- the lock of its instance's connection manager -/
  | lock
  /-- a transaction that has flushed a new room, and nothing else -/
  | room
  /-- a transaction that has flushed rows, or deletions, that others may clash with -/
  | rows
  deriving DecidableEq

/-! ## The operations, by what they do to it -/

/-- The operations that take nothing and give nothing back. -/
def Op.Loose : Op → Prop
  | .manager (.connectLocked _ _) | .manager (.disconnectLocked _) | .manager (.replace _ _ _)
  | .manager .unlock => False
  | .db (.insertUser _ _ _ _) | .db (.insertRoom _ _ _ _) | .db (.insertMember _ _ _)
  | .db (.insertMessage _ _ _ _ _) | .db (.deleteMember _) => False
  | _ => True

/-- What the manager does with the lock held, on the old socket. -/
def Op.OnSocket : Op → Prop
  | .manager (.clientState _) | .manager (.sendText _ _) | .manager (.close _) => True
  | _ => False

/-- The operations that give the lock back. -/
def Op.Unlocks : Op → Prop
  | .manager (.replace _ _ _) | .manager .unlock => True
  | _ => False

/-- The statements that leave a row or a deletion another transaction may clash with. -/
def Op.Flushes : Op → Prop
  | .db (.insertUser _ _ _ _) | .db (.insertMember _ _ _) | .db (.insertMessage _ _ _ _ _)
  | .db (.deleteMember _) => True
  | _ => False

/-- The operations that end a transaction. -/
def Op.EndsTransaction : Op → Prop
  | .db .commit | .db .rollback => True
  | _ => False

/-- How an operation, answered `r`, changes what its task holds. -/
inductive Hold.Moves : Hold → (op : Op) → Except Exn op.Resp → Hold → Prop where
  | loose {op : Op} {r : Except Exn op.Resp} : op.Loose → Hold.Moves .nothing op r .nothing
  | lockToReplace {u : UserId} {name : String} {old : ConnId} :
      Hold.Moves .nothing (.manager (.connectLocked u name)) (.ok (.inl old)) .lock
  | connected {u : UserId} {name : String} {conn : ConnId} :
      Hold.Moves .nothing (.manager (.connectLocked u name)) (.ok (.inr conn)) .nothing
  | lockToClose {u : UserId} {conn : ConnId} :
      Hold.Moves .nothing (.manager (.disconnectLocked u)) (.ok (some conn)) .lock
  | disconnected {u : UserId} :
      Hold.Moves .nothing (.manager (.disconnectLocked u)) (.ok none) .nothing
  | onSocket {op : Op} {r : Except Exn op.Resp} : op.OnSocket → Hold.Moves .lock op r .lock
  | unlocks {op : Op} {r : Except Exn op.Resp} : op.Unlocks → Hold.Moves .lock op r .nothing
  | insertRoom {name : String} {description : Option String} {is_private : Bool}
      {created_by : Uuid} {row : RoomRow} : Hold.Moves .nothing
        (.db (.insertRoom name description is_private created_by)) (.ok row) .room
  | noRoom {name : String} {description : Option String} {is_private : Bool}
      {created_by : Uuid} {e : Exn} : Hold.Moves .nothing
        (.db (.insertRoom name description is_private created_by)) (.error e) .nothing
  | flushes {h : Hold} {op : Op} {a : op.Resp} : h = .nothing ∨ h = .room → op.Flushes →
      Hold.Moves h op (.ok a) .rows
  | refused {h : Hold} {op : Op} {e : Exn} : h = .nothing ∨ h = .room → op.Flushes →
      Hold.Moves h op (.error e) h
  | refresh {r : Except Exn Unit} : Hold.Moves .rows (.db .refresh) r .rows
  | ends {h : Hold} {op : Op} {r : Except Exn op.Resp} : h ≠ .lock → op.EndsTransaction →
      Hold.Moves h op r .nothing

/-- What the application's operations are answered: the manager takes the lock or does not. -/
def Op.Settled : (op : Op) → Except Exn op.Resp → Prop
  | .manager (.connectLocked _ _), r => ∃ a, r = .ok a
  | .manager (.disconnectLocked _), r => ∃ a, r = .ok a
  | _, _ => True

/-- The program is part of a transaction, which is ended outside it. -/
abbrev Within (h : Hold) {α : Type} (p : Prog α) : Prop :=
  p.Follows (S := Op.sig) Op.Settled Hold.Moves (fun _ h => h ≠ .lock) h

section Programs

variable {α β : Type} {h : Hold} {env : Env} {u : UserId} {username : String}

theorem Op.Quiet.loose {op : Op} (hop : op.Quiet) : op.Loose := by
  cases op with
  | manager o => cases o <;> first | exact trivial | exact absurd hop id
  | db o => exact absurd hop id
  | _ => trivial

theorem ne_lock (hh : h = .nothing ∨ h = .room) : h ≠ .lock := by
  rcases hh with rfl | rfl <;> decide

end Programs

end NexusChat
