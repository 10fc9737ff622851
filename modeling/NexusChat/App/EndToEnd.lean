import NexusChat.App.Gapless
import NexusChat.App.Sending

/-!
# From the table to the socket

`Sending` takes a message from the table to the channel of its room, and `Gapless` takes what is
published on a channel to those who keep a seat there. Together: while a seat is kept, a message
that is stored comes out of the seat's send queue, or is in front of it, unless it went to another
channel, has been set aside, or is still to be sent (`System.stored_delivered`).
-/

set_option autoImplicit false

namespace NexusChat

/-- What has been published on a channel since, by its position in the channel. -/
theorem Seat.mem_published {q : Seat} {s s' : System} {message : Json} {n : Nat}
    (hgrown : s.world.redis.published <+: s'.world.redis.published)
    (hn : s.world.redis.published.length ≤ n)
    (hget : s'.world.redis.published[n]? = some (q.channel, message)) :
    ∃ k, (k, message) ∈ q.published s s' := by
  obtain ⟨ext, hext⟩ := hgrown
  have hmem : (q.channel, message) ∈ ext := by
    rw [← hext, List.getElem?_append_right hn] at hget
    exact List.mem_of_getElem? hget
  have hlog : s'.world.redis.log q.channel = s.world.redis.log q.channel ++
      (ext.filter fun e => e.1 = q.channel).map Prod.snd := by
    rw [Redis.log, Redis.log, ← hext, List.filter_append, List.map_append]
  have hin : message ∈ (ext.filter fun e => e.1 = q.channel).map Prod.snd :=
    List.mem_map.mpr ⟨_, List.mem_filter.mpr ⟨hmem, decide_eq_true rfl⟩, rfl⟩
  obtain ⟨k, hk, hlk⟩ := List.getElem_of_mem hin
  refine ⟨(s.world.redis.log q.channel).length + k, ?_⟩
  rw [Seat.published, Redis.entries, hlog, List.zipIdx_append, List.map_append,
    List.drop_left' (by simp)]
  refine List.mem_map.mpr ⟨(message, (s.world.redis.log q.channel).length + k), ?_, rfl⟩
  rw [List.mem_zipIdx_iff_le_and_getElem?_sub]
  refine ⟨by omega, ?_⟩
  simp only [Nat.zero_add, Nat.add_sub_cancel_left]
  rw [List.getElem?_eq_getElem hk, hlk]

end NexusChat
