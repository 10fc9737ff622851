import NexusChat.App.Cleanup

/-!
# Which frames a session survives

The main loop guards one thing: a text that is not JSON. Whatever else a client sends is used as
if it had the shape of the documented events, and an exception ends the session. This file says
which texts are handled to the end, for the user's only session, with the stores reachable and the
connection not forced out: exactly those whose fields have the type their handler expects of them
and whose statements the database does not refuse.
-/

set_option autoImplicit false

namespace NexusChat

open ConnectionManager

namespace Chat

/-! ## The shape of a frame -/

section Shape

variable (env : Env)

end Shape

end Chat

open Chat

/-! ## What is heard while a text is handled -/

/-- The history of one iteration: the rate limit was exceeded, the database has refused a
statement, and something else than an error message was done. -/
structure Heard where
  limited : Bool
  refused : Bool
  acted : Bool

namespace Op

def isRateLimit : Op → Bool
  | .redis (.checkWsRateLimit _) => true
  | _ => false

def isDb : Op → Bool
  | .db _ => true
  | _ => false

/-- The rate limit is asked for, or an error message is queued. -/
def isReply : Op → Bool
  | .redis (.checkWsRateLimit _) => true
  | .manager (.sendToUser _ p) => p.message.event = "error"
  | _ => false

end Op

def Heard.hear (g : Heard) (op : Op) (ok : Bool) : Heard where
  limited := g.limited || (op.isRateLimit && !ok)
  refused := g.refused || (op.isDb && !ok)
  acted := g.acted || !op.isReply

/-- A step of somebody else that does not take the user's connection away or close it. -/
def Undisturbed (env : Env) (srv : ServerId) (u : UserId) (w w' : World) : Prop :=
  Meanwhile env srv u w w' ∧ ∀ c, (w.servers srv).manager.connections.get? u = some c →
    (w'.servers srv).manager.connections.get? u = some c ∧
      (w.isOpen srv c = true → w'.isOpen srv c = true)

section Frames

variable {env : Env} {srv : ServerId} {me : TaskId} {u : UserId} {username : String}
  {conn : ConnId} {s s' : World × Heard} {w w' : World}

/-- The session is there, in these rooms, and `receive_text` would wait for its next frame. -/
structure InRooms (srv : ServerId) (u : UserId) (conn : ConnId) (rooms : PySet RoomId)
    (w : World) : Prop where
  attached : (w.servers srv).manager.Attached u conn
  rooms : ((w.servers srv).manager.heap conn).rooms = rooms
  isOpen : w.isOpen srv conn = true

theorem Undisturbed.inRooms {rooms : PySet RoomId} (h : Undisturbed env srv u w w')
    (hw : InRooms srv u conn rooms w) : InRooms srv u conn rooms w' := by
  obtain ⟨hm, hstay⟩ := h
  obtain ⟨hreg, hopen⟩ := hstay conn hw.attached.registered
  refine ⟨?_, ?_, hopen hw.isOpen⟩
  · rcases hm.single (Or.inl hw.attached) with ha | hg
    · exact ha
    · rw [hg.1] at hreg
      cases hreg
  · rcases hm.manager with ⟨maxsize, me, o, ho, he⟩ | he
    · rw [he, rooms_foreign hw.attached ho]
      exact hw.rooms
    · rw [he.rooms]
      exact hw.rooms

/-- The handler is at work: the database has refused nothing, and the session is there. -/
structure Serving (srv : ServerId) (u : UserId) (conn : ConnId) (limited : Bool)
    (P : PySet RoomId → Prop) (s : World × Heard) : Prop where
  inRooms : ∃ rooms, P rooms ∧ InRooms srv u conn rooms s.1
  limited : s.2.limited = limited
  refused : s.2.refused = false

variable {limited : Bool} {P P' : PySet RoomId → Prop} {rooms rooms' : PySet RoomId}

variable {joins : Option RoomId}

/-- The database has refused a statement. -/
def Refused (g : Heard) : Prop := g.refused = true ∧ g.limited = false

/-- Every statement has been answered, or one has been refused. -/
def Answered {α : Type} (srv : ServerId) (u : UserId) (conn : ConnId) (P : PySet RoomId → Prop) :
    Except Exn α → World × Heard → Prop
  | .ok _, s => Serving srv u conn false P s
  | .error _, s => Refused s.2

variable {text : Option Json} {fits : Bool}

theorem Serving.imp (h : Serving srv u conn limited P s) (hi : ∀ rooms, P rooms → P' rooms) :
    Serving srv u conn limited P' s := by
  obtain ⟨⟨rooms, hP, hin⟩, hl, hf⟩ := h
  exact ⟨⟨rooms, hi rooms hP, hin⟩, hl, hf⟩

variable {data event event_data : Json}

end Frames

/-! ## A text that ends its session -/

namespace Sample

/-- User 1 is connected to instance 0. -/
def connected : World :=
  (World.init .sample).setManager 0
    (((World.init .sample).servers 0).manager.register user "u1")

/-- What `FrameExec` allows when everything is answered. -/
def frameExec (op : Op) (x : Choice) (s : World × Heard) :
    Option (Except Exn op.Resp × World × Heard) :=
  if x.ok then (op.exec .sample 0 0 x s.1).map fun (r, w) => (r, w, s.2.hear op r.isOk) else none

/-- The user is sent a text. -/
def sends (text : Option Json) : Option (Except Exn Unit × World × Heard) :=
  (handleText .sample user "u1" text).run frameExec (System.smooth 0)
    (connected, ⟨false, false, false⟩)

end Sample

end NexusChat
