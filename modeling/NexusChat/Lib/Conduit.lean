import Mathlib

/-!
# Conduits

Items go in at one end of a conduit, wait there in the order in which they came, and come out at
the other end as what a rendering makes of them, which may be nothing. A conduit that only moves
in these ways neither loses an item, nor repeats one, nor changes their order: what has come out,
followed by the rendering of what waits, is at all times the rendering of what went in.
-/

set_option autoImplicit false

structure Conduit (α β : Type) where
  waiting : List α
  out : List β

namespace Conduit

variable {α β : Type} {render : α → Option β} {k k' : Conduit α β} {as bs : List α}

/-- What has come out, and what is to come out of what waits. -/
def content (k : Conduit α β) (render : α → Option β) : List β :=
  k.out ++ k.waiting.filterMap render

/-- One move, and what goes in. -/
inductive Moves (render : α → Option β) (k : Conduit α β) : List α → Conduit α β → Prop where
  | still : Moves render k [] k
  | put (a : α) : Moves render k [a] { k with waiting := k.waiting ++ [a] }
  | take {a : α} {rest : List α} (h : k.waiting = a :: rest) :
      Moves render k [] { waiting := rest, out := k.out ++ (render a).toList }

/-- Any number of moves, and all that goes in. -/
inductive Runs (render : α → Option β) (k : Conduit α β) : List α → Conduit α β → Prop where
  | refl : Runs render k [] k
  | tail {as bs : List α} {k' k'' : Conduit α β} : Runs render k as k' → Moves render k' bs k'' →
      Runs render k (as ++ bs) k''

theorem Moves.content (h : Moves render k as k') :
    k'.content render = k.content render ++ as.filterMap render := by
  cases h with
  | still => simp
  | put a => simp only [Conduit.content, List.filterMap_append, List.append_assoc]
  | take htaken =>
    rename_i a rest
    have hhead : (a :: rest).filterMap render = (render a).toList ++ rest.filterMap render := by
      rw [List.filterMap_cons]
      cases render a <;> rfl
    simp only [Conduit.content, htaken, hhead, List.filterMap_nil, List.append_nil,
      List.append_assoc]

/-- **Nothing is lost, repeated or overtaken.** -/
theorem Runs.content (h : Runs render k as k') :
    k'.content render = k.content render ++ as.filterMap render := by
  induction h with
  | refl => simp
  | tail _ hmove ih => rw [hmove.content, ih, List.append_assoc, List.filterMap_append]

end Conduit
