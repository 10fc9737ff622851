import NexusChat.Schemas.Ws

/-!
# What the service takes from Python and from its settings

The handlers parse and render with the standard library. Nothing in this development depends on
how: the functions are the fields of `Env`, and a result that needs a law of one of them (that
`fromisoformat` undoes `isoformat`, say) says so.
-/

set_option autoImplicit false

namespace NexusChat

/-- A UUID, by its integer value. -/
abbrev Uuid := Nat

/-- A point in time, in microseconds. -/
abbrev Time := Nat

structure Env where
  /-- `UUID(s)`; `none` where it raises `ValueError` -/
  uuid : String → Option Uuid
  /-- `str(u)` -/
  uuidStr : Uuid → String
  /-- `dt.isoformat()` -/
  isoformat : Time → String
  /-- `datetime.fromisoformat(s)`; `none` where it raises `ValueError` -/
  fromisoformat : String → Option Time
  /-- `s.strip()` -/
  strip : String → String
  /-- `repr(x)` -/
  repr : Json → String
  /-- `settings.MAX_SEND_QUEUE_SIZE` -/
  maxSendQueueSize : Nat
  /-- `settings.PRESENCE_TIMEOUT_SECONDS`, in microseconds -/
  presenceTimeout : Time

namespace Env

variable (env : Env)

/-- `UUID(x)` for a JSON value: anything but a string has no `replace` method. -/
def parseUuid : Json → Except Exn Uuid
  | .str s =>
    match env.uuid s with
    | some u => .ok u
    | none => .error .valueError
  | _ => .error .attributeError

/-! ## A sample

Enough of Python for concrete runs: four UUIDs in canonical form, two timestamps, and strings
without blanks around them. -/

def sampleUuids : List (String × Uuid) :=
  [("00000000-0000-0000-0000-000000000001", 1), ("00000000-0000-0000-0000-000000000002", 2),
    ("00000000-0000-0000-0000-000000000003", 3), ("00000000-0000-0000-0000-000000000004", 4)]

/-- Midnight at the start of 2024, UTC. -/
def newYear : Time := 63839664000000000

def sampleTimes : List (String × Time) :=
  [("2024-01-01T00:00:00+00:00", newYear), ("2024-01-01T00:00:01+00:00", newYear + 1000000)]

def sample : Env where
  uuid s := (sampleUuids.find? fun e => e.1 = s).map Prod.snd
  uuidStr u := ((sampleUuids.find? fun e => e.2 = u).map Prod.fst).getD ""
  isoformat t := ((sampleTimes.find? fun e => e.2 = t).map Prod.fst).getD ""
  fromisoformat s := (sampleTimes.find? fun e => e.1 = s).map Prod.snd
  strip s := s
  repr _ := "None"
  maxSendQueueSize := 100
  presenceTimeout := 60000000

end Env

end NexusChat
