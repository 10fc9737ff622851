import Mathlib

/-!
# Frames and outbound messages (`app/schemas/ws.py`)

What a client sends is a JSON value of any shape, so every access is checked the way Python
checks it: `.get` on something that is not an object and `.strip` on something that is not a
string are an `AttributeError`, not a default. What the server sends is a
`WSOutboundMessage`, an event name and a dictionary; its six constructors are the class methods
of the source.
-/

set_option autoImplicit false

namespace NexusChat

abbrev UserId := String
abbrev RoomId := String
/-- A running task: a session, a request, or one the service has created. -/
abbrev TaskId := Nat

/-- The exceptions the handlers can meet. -/
inductive Exn where
  | attributeError
  | typeError
  | valueError
  | runtimeError
  | webSocketDisconnect
  | redisError
  | dbError
  | integrityError
  | httpException (status : Nat) (detail : String)
  deriving DecidableEq, Repr

/-- What `json.loads` returns. A number is kept by its Python rendering, which is all that
`str()` and truthiness look at. -/
inductive Json where
  | null
  | bool (b : Bool)
  | num (text : String)
  | str (s : String)
  | arr (items : List Json)
  | obj (fields : List (String × Json))

namespace Json

/-- `bool(x)` -/
def truthy : Json → Bool
  | .null => false
  | .bool b => b
  | .num t => t != "0" && t != "0.0" && t != "-0.0"
  | .str s => s != ""
  | .arr items => !items.isEmpty
  | .obj fields => !fields.isEmpty

def lookup (key : String) (fields : List (String × Json)) : Option Json :=
  (fields.find? (fun f => f.1 = key)).map Prod.snd

/-- `x.get(key, default)` -/
def get (x : Json) (key : String) (default : Json) : Except Exn Json :=
  match x with
  | .obj fields => .ok ((lookup key fields).getD default)
  | _ => .error .attributeError

/-- `f"{x}"`; `repr` renders what is not a string. -/
def format (repr : Json → String) : Json → String
  | .str s => s
  | x => repr x

/-! ### Comparing values -/

mutual

def same : Json → Json → Bool
  | .null, .null => true
  | .bool a, .bool b => a = b
  | .num a, .num b => a = b
  | .str a, .str b => a = b
  | .arr xs, .arr ys => sameItems xs ys
  | .obj xs, .obj ys => sameFields xs ys
  | _, _ => false

def sameItems : List Json → List Json → Bool
  | [], [] => true
  | x :: xs, y :: ys => same x y && sameItems xs ys
  | _, _ => false

def sameFields : List (String × Json) → List (String × Json) → Bool
  | [], [] => true
  | (k, x) :: xs, (l, y) :: ys => k = l && same x y && sameFields xs ys
  | _, _ => false

end

mutual

theorem eq_of_same : ∀ {x y : Json}, same x y = true → x = y
  | .null, .null, _ => rfl
  | .bool a, .bool b, h => by simpa [same] using h
  | .num a, .num b, h => by simpa [same] using h
  | .str a, .str b, h => by simpa [same] using h
  | .arr xs, .arr ys, h => congrArg arr (eq_of_sameItems (by simpa [same] using h))
  | .obj xs, .obj ys, h => congrArg obj (eq_of_sameFields (by simpa [same] using h))

theorem eq_of_sameItems : ∀ {xs ys : List Json}, sameItems xs ys = true → xs = ys
  | [], [], _ => rfl
  | x :: xs, y :: ys, h => by
    simp only [sameItems, Bool.and_eq_true] at h
    rw [eq_of_same h.1, eq_of_sameItems h.2]

theorem eq_of_sameFields :
    ∀ {xs ys : List (String × Json)}, sameFields xs ys = true → xs = ys
  | [], [], _ => rfl
  | (k, x) :: xs, (l, y) :: ys, h => by
    simp only [sameFields, Bool.and_eq_true, decide_eq_true_eq] at h
    rw [h.1.1, eq_of_same h.1.2, eq_of_sameFields h.2]

end

end Json

/-- `WSOutboundMessage`: what is put on a send queue (as `model_dump_json()`). -/
structure WSOutboundMessage where
  event : String
  data : List (String × Json)

namespace WSOutboundMessage

def chatMessage (message_id : String) (room_id : Json) (sender_id sender_username content
    message_type created_at : String) : WSOutboundMessage where
  event := "message"
  data := [("id", .str message_id), ("room_id", room_id), ("sender_id", .str sender_id),
    ("sender_username", .str sender_username), ("content", .str content),
    ("message_type", .str message_type), ("created_at", .str created_at)]

def presenceUpdate (room_id : Json) (user_id username status : String) : WSOutboundMessage where
  event := "presence"
  data := [("room_id", room_id), ("user_id", .str user_id), ("username", .str username),
    ("status", .str status)]

def typingIndicator (room_id : Json) (user_id username : String) (is_typing : Bool) :
    WSOutboundMessage where
  event := "typing"
  data := [("room_id", room_id), ("user_id", .str user_id), ("username", .str username),
    ("is_typing", .bool is_typing)]

def systemMessage (room_id content : String) : WSOutboundMessage where
  event := "system"
  data := [("room_id", .str room_id), ("content", .str content)]

def errorMessage (detail : String) (code : String := "error") : WSOutboundMessage where
  event := "error"
  data := [("detail", .str detail), ("code", .str code)]

def pong : WSOutboundMessage := { event := "pong", data := [] }

/-- `model_dump()` -/
def modelDump (m : WSOutboundMessage) : Json :=
  .obj [("event", .str m.event), ("data", .obj m.data)]

/-- `WSOutboundMessage(**payload)`: the payload is a mapping with a string `event` and a mapping
`data`; further keys are ignored. -/
def ofPayload : Json → Except Exn WSOutboundMessage
  | .obj fields =>
    match Json.lookup "event" fields, Json.lookup "data" fields with
    | some (.str event), some (.obj data) => .ok { event, data }
    | _, _ => .error .valueError
  | _ => .error .typeError

@[simp] theorem ofPayload_modelDump (m : WSOutboundMessage) : ofPayload m.modelDump = .ok m := by
  simp [ofPayload, modelDump, Json.lookup]

end WSOutboundMessage

/-- `{"type": kind, "payload": payload.model_dump()}`, the messages on a room's channel. -/
def envelope (kind : String) (payload : WSOutboundMessage) : Json :=
  .obj [("type", .str kind), ("payload", payload.modelDump)]

theorem envelope_inj {kind kind' : String} {payload payload' : WSOutboundMessage} :
    envelope kind payload = envelope kind' payload' ↔ kind = kind' ∧ payload = payload' := by
  constructor
  · intro h
    simp only [envelope, WSOutboundMessage.modelDump, Json.obj.injEq, List.cons.injEq,
      Prod.mk.injEq, Json.str.injEq, true_and, and_true] at h
    obtain ⟨hkind, hevent, hdata⟩ := h
    refine ⟨hkind, ?_⟩
    cases payload
    cases payload'
    exact congr (congrArg _ hevent) hdata
  · rintro ⟨rfl, rfl⟩
    rfl

end NexusChat
