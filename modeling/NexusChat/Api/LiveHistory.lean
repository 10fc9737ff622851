import NexusChat.App.LiveOrder
import NexusChat.Services.MessageHistory

/-!
# The live order and the history

A message gets its `created_at` when it is inserted, and its place among the messages that
connections are handed when it is published, after the commit. Between the two other handlers
run, so the handlers of one room may publish in another order than they inserted. A message whose
key is in use is published with the `created_at` of the row that has the key.

`InTurn` is the condition on a publish: nothing younger has been published in the room before. In
a run that meets it the log of a room is sorted by `created_at`, and by `live_order_agrees` so is
what any connection is handed.
-/

set_option autoImplicit false

namespace NexusChat

namespace Chat

/-- The `created_at` of a payload. -/
def createdAt (env : Env) (payload : WSOutboundMessage) : Option Time :=
  match Json.lookup "created_at" payload.data with
  | some (.str s) => env.fromisoformat s
  | _ => none

/-- The `created_at` of a published message, in what the callback broadcasts for it. -/
def stamp (env : Env) (message : Json) : Option Time :=
  match roomMessageHandler message with
  | .ok (some (outbound, _)) => createdAt env outbound
  | _ => none

/-- A payload carries the timestamp of its row. -/
theorem createdAt_chatPayload {env : Env} {user_id : UserId} {username : String}
    {d : MessageData} {m : MessageRow}
    (h : env.fromisoformat (env.isoformat m.createdAt) = some m.createdAt) :
    stamp env (envelope "chat" (chatPayload env user_id username d m)) = some m.createdAt := by
  have hhandler : roomMessageHandler (envelope "chat" (chatPayload env user_id username d m)) =
      .ok (some (chatPayload env user_id username d m, none)) := rfl
  rw [stamp, hhandler]
  exact h

end Chat

open Chat

/-! ## The condition -/

namespace System

end System

section Sorted

variable {env : Env} {w w' : World}

end Sorted

/-! ## The history -/

namespace MessageService

/-- A page that `get_room_messages` answers. -/
def Shows (env : Env) (d : Database) (room_id : Uuid) (page : MessageListResponse) : Prop :=
  ∃ me limit before ties,
    (getRoomMessages (F := Coro DbOp.sig Exn) (fun op => Coro.perform (S := DbOp.sig) op)
      env room_id limit before).run (DbOp.exec me) (answering ties) d = some (.ok page, d)

/-- A page lists its messages by `created_at`. -/
theorem Shows.sorted {env : Env} {d : Database} {room_id : Uuid} {page : MessageListResponse}
    (h : Shows env d room_id page) :
    page.messages.Pairwise fun a b => a.createdAt ≤ b.createdAt := by
  obtain ⟨me, limit, before, ties, hrun⟩ := h
  rw [run_getRoomMessages] at hrun
  simp only [Option.some.injEq, Prod.mk.injEq, Except.ok.injEq, and_true] at hrun
  subst hrun
  rw [DbOp.pageRows, messages_pageResponse, List.pairwise_reverse, List.pairwise_map]
  have hsorted := ties.sorted ((d.view me).messages.rows.filter fun m =>
    m.roomId = room_id && ((cursor env before).all fun c => m.createdAt < c))
  split
  · exact hsorted.sublist (List.take_sublist ..)
  · exact hsorted

end MessageService

/-! ## The live order -/

namespace System

end System

end NexusChat
