import NexusChat.Api.Idempotency
import NexusChat.Lib.KeyedLog

/-!
# The messages as a keyed log (`save_message`)

Calls of `save_message`, each committed before the next. The table of the messages is meant to be a
`KeyedLog` by `idempotency_key`, the empty key being none. The lookup and the unique key do not
agree on the empty key: the lookup takes it for none, the column for a key like any other. So the
second message with an empty key is neither found nor stored.
-/

set_option autoImplicit false

namespace NexusChat.Chat

/-- What `save_message` is called with. -/
structure Save where
  roomId : Uuid
  senderId : Uuid
  content : String
  idempotencyKey : Option String

namespace Save

/-- `idempotency_key`, as it is passed -/
def key (c : Save) : Json :=
  match c.idempotencyKey with
  | some k => .str k
  | none => .null

/-- `save_message`, then `commit`, in a session of its own. -/
def prog (c : Save) : Prog MessageRow :=
  withSession dbOp do
    let message ← MessageService.saveMessage dbOp c.roomId c.senderId c.content .text c.key
    dbOp .commit
    pure message

/-- The key the message is meant to have: an empty one is none. -/
def meant (c : Save) : Option String := c.idempotencyKey.filter (· ≠ "")

/-- The row is the call's own. -/
structure Owns (c : Save) (m : MessageRow) : Prop where
  room : m.roomId = c.roomId
  sender : m.senderId = some c.senderId
  content : m.content = c.content
  key : m.idempotencyKey = c.idempotencyKey

end Save

variable {env : Env} {srv : ServerId} {me : TaskId}

/-- The next call is carried out. -/
def saveStep (env : Env) (srv : ServerId) (me : TaskId) (w : World) (e : Save × Choice) :
    Option World :=
  (e.1.prog.run (Op.exec env srv me) e.2 w).map Prod.snd

/-- The room and the sender exist, the key fits its column, and the database answers and draws a new
id. -/
structure Proper (w : World) (e : Save × Choice) : Prop where
  ok : e.2.ok = true
  fresh : ∀ m ∈ w.db.committed.messages, m.id ≠ e.2.uuid
  room : ∃ r ∈ w.db.committed.rooms, r.id = e.1.roomId
  sender : ∃ u ∈ w.db.committed.users, u.id = e.1.senderId
  key : ∀ k, e.1.idempotencyKey = some k → k.length ≤ 100

/-- **The call does what a keyed log does**: it succeeds, with the entry and the log of
`KeyedLog.put`, where the new entry is the call's own. -/
def Refines (env : Env) (srv : ServerId) (me : TaskId) (w : World) (e : Save × Choice) : Prop :=
  ∃ row, e.1.Owns row ∧ ∃ m w', e.1.prog.run (Op.exec env srv me) e.2 w = some (.ok m, w') ∧
    (m, w'.db.committed.messages.rows) =
      KeyedLog.put MessageRow.idempotencyKey w.db.committed.messages.rows e.1.meant row ∧
    w'.db.committed.users = w.db.committed.users ∧ w'.db.committed.rooms = w.db.committed.rooms ∧
    w'.db.committed.roomMembers = w.db.committed.roomMembers

/-- The key is text, and it is one that is stored already; or the content is text and the key is not
a second empty one. -/
def Fits (c : Save) (t : Tables) : Prop :=
  (∀ k, c.idempotencyKey = some k → DbOp.storable k = true) ∧
    ((∃ k, c.meant = some k ∧ KeyStored k t) ∨
      DbOp.storable c.content = true ∧ ¬(c.idempotencyKey = some "" ∧ KeyStored "" t))

section Calls

variable {w : World} {c : Save} {x : Choice}

/-- What a call does, as a function of the tables. -/
theorem run_prog (hx : x.ok = true) (hw : w.db.pending = []) :
    c.prog.run (Op.exec env srv me) x w =
      match saved x.db w.db.committed c.roomId c.senderId c.content c.key with
      | .ok (m, t) => some (.ok m, { w with db := { committed := t, pending := [] } })
      | .error e => some (.error e, w) := by
  have hbody := run_saveMessage env srv me c.roomId c.senderId c.content c.key
    (fun m => (pure m : Prog _)) hx hw
  cases hs : saved x.db w.db.committed c.roomId c.senderId c.content c.key with
  | error e =>
    rw [hs] at hbody
    exact (run_withSession hbody).trans (by rw [forget_idle hw])
  | ok r =>
    rw [hs] at hbody
    exact run_withSession hbody

/-- With nothing pending, nothing is pending after a call. -/
theorem pending_saveStep {w' : World} (hx : x.ok = true) (hw : w.db.pending = [])
    (hs : saveStep env srv me w (c, x) = some w') : w'.db.pending = [] := by
  obtain ⟨⟨r, w₁⟩, hrun, rfl⟩ := Option.map_eq_some_iff.mp hs
  rw [run_prog hx hw] at hrun
  split at hrun
  · cases hrun
    rfl
  · cases hrun
    exact hw

theorem pending_reach {t : Tables} (hr : Reach (saveStep env srv me) Proper (.init t) w) :
    w.db.pending = [] :=
  hr.invariant (I := fun w => w.db.pending = []) rfl fun _ _ _ hw hc hs =>
    pending_saveStep hc.ok hw hs

/-- **A call refines the log if its message is saved as the log has it.** -/
theorem refines_iff_saved (hx : x.ok = true) (hw : w.db.pending = []) :
    Refines env srv me w (c, x) ↔ ∃ row, c.Owns row ∧ ∃ m t,
      saved x.db w.db.committed c.roomId c.senderId c.content c.key = .ok (m, t) ∧
      (m, t.messages.rows) =
        KeyedLog.put MessageRow.idempotencyKey w.db.committed.messages.rows c.meant row ∧
      t.users = w.db.committed.users ∧ t.rooms = w.db.committed.rooms ∧
      t.roomMembers = w.db.committed.roomMembers := by
  unfold Refines
  dsimp only
  rw [run_prog hx hw]
  cases saved x.db w.db.committed c.roomId c.senderId c.content c.key with
  | error e => simp
  | ok r =>
    obtain ⟨m, t⟩ := r
    simp

end Calls

section Rows

variable {w : World} {c : Save} {x : DbOutcome} {t : Tables}

theorem keyColumn_key (hkey : ∀ k, c.idempotencyKey = some k → k.length ≤ 100)
    (hs : ∀ k, c.idempotencyKey = some k → DbOp.storable k = true) :
    DbOp.keyColumn c.key = .ok c.idempotencyKey := by
  unfold Save.key
  split
  · rename_i k hk
    rw [hk]
    exact keyColumn_str_eq_ok.mpr ⟨rfl, hs k hk, hkey k hk⟩
  · rename_i hk
    rw [hk]
    rfl

theorem storable_of_keyColumn {o : Option String} (h : DbOp.keyColumn c.key = .ok o) :
    ∀ k, c.idempotencyKey = some k → DbOp.storable k = true := by
  intro k hk
  rw [Save.key, hk] at h
  exact (keyColumn_str_eq_ok.mp h).2.1

/-- The insertion of a call whose key clashes with none gives its own row. -/
theorem inserted_ok (hx : x.ok = true) (hfresh : ∀ m ∈ t.messages, m.id ≠ x.uuid)
    (hroom : ∃ r ∈ t.rooms, r.id = c.roomId) (hsender : ∃ u ∈ t.users, u.id = c.senderId)
    (hkey : DbOp.keyColumn c.key = .ok c.idempotencyKey)
    (hcontent : DbOp.storable c.content = true)
    (hnew : ∀ k, c.idempotencyKey = some k → ¬KeyStored k t) :
    ∃ row, c.Owns row ∧ saved.inserted x t c.roomId c.senderId c.content c.key =
      .ok (row, t.apply (.addMessage row)) ∧
      (t.apply (.addMessage row)).messages.rows = t.messages.rows ++ [row] := by
  refine ⟨DbOp.newMessage x c.roomId c.senderId c.content .text c.idempotencyKey,
    ⟨rfl, rfl, rfl, rfl⟩, (inserted_eq_ok hx).mpr ⟨?_, rfl⟩, Table.rows_insert hfresh⟩
  refine DbOp.messageRow_eq_ok.mpr ⟨_, hkey, hcontent, rfl, hsender, hroom, fun m hm => ?_⟩
  have hid := hfresh m hm
  have hclash : c.idempotencyKey.isSome = true → c.idempotencyKey ≠ m.idempotencyKey := by
    intro hsome heq
    obtain ⟨k, hk⟩ := Option.isSome_iff_exists.mp hsome
    exact hnew k hk ⟨m, hm, heq.symm.trans hk⟩
  simp only [DbOp.messageClash, DbOp.newMessage, Bool.or_eq_false_iff, Bool.and_eq_false_imp]
  exact ⟨decide_eq_false hid.symm, fun hsome => decide_eq_false (hclash hsome)⟩

/-- What an insertion that succeeds says of its call. -/
theorem of_inserted {m : MessageRow} {t' : Tables} (hx : x.ok = true)
    (h : saved.inserted x t c.roomId c.senderId c.content c.key = .ok (m, t')) :
    (∀ k, c.idempotencyKey = some k → DbOp.storable k = true) ∧
      DbOp.storable c.content = true ∧ ∀ k, c.idempotencyKey = some k → ¬KeyStored k t := by
  obtain ⟨hrow, -⟩ := (inserted_eq_ok hx).mp h
  obtain ⟨o, hkey, hcontent, rfl, -, -, hclash⟩ := DbOp.messageRow_eq_ok.mp hrow
  refine ⟨storable_of_keyColumn hkey, hcontent, fun k hk => ?_⟩
  rintro ⟨m', hm', hsame⟩
  have hfalse := hclash m' hm'
  rw [Save.key, hk] at hkey
  obtain ⟨rfl, -, -⟩ := keyColumn_str_eq_ok.mp hkey
  simp [DbOp.messageClash, DbOp.newMessage, hsame] at hfalse

/-- A call without a key, or with an empty one, does not look anything up. -/
theorem saved_of_meant_none (h : c.meant = none) :
    saved x t c.roomId c.senderId c.content c.key =
      saved.inserted x t c.roomId c.senderId c.content c.key := by
  have htruthy : c.key.truthy = false := by
    unfold Save.key
    split
    · rename_i k hk
      rw [Save.meant, hk, Option.filter_some] at h
      by_cases hempty : k = ""
      · subst hempty
        rfl
      · simp [hempty] at h
    · rfl
  rw [saved, if_neg (by simp [htruthy])]

theorem of_meant_some {k : String} (h : c.meant = some k) :
    c.idempotencyKey = some k ∧ k ≠ "" ∧ c.key = .str k := by
  obtain ⟨hkey, hne⟩ := Option.filter_eq_some_iff.mp h
  refine ⟨hkey, of_decide_eq_true hne, ?_⟩
  rw [Save.key, hkey]

/-- A call with a key looks it up, and inserts when there is no entry. -/
theorem saved_of_meant_some {k : String} (hx : x.ok = true) (h : c.meant = some k)
    (hs : DbOp.storable k = true) :
    saved x t c.roomId c.senderId c.content c.key =
      match KeyedLog.lookup MessageRow.idempotencyKey t.messages.rows k with
      | some old => .ok (old, t)
      | none => saved.inserted x t c.roomId c.senderId c.content c.key := by
  obtain ⟨-, hne, hkey⟩ := of_meant_some h
  rw [saved, hkey, if_pos (by simpa [Json.truthy] using hne), answer_selectMessageByKey hx,
    if_pos hs]
  have hfind : t.messages.find? (fun m => m.idempotencyKey = some k) =
      KeyedLog.lookup MessageRow.idempotencyKey t.messages.rows k := rfl
  rw [hfind]
  cases KeyedLog.lookup MessageRow.idempotencyKey t.messages.rows k with
  | some old => rfl
  | none => rfl

theorem lookup_eq_none_iff {k : String} :
    KeyedLog.lookup MessageRow.idempotencyKey t.messages.rows k = none ↔ ¬KeyStored k t := by
  rw [KeyedLog.lookup_eq_none]
  constructor
  · rintro h ⟨m, hm, hk⟩
    exact h m hm hk
  · intro h m hm hk
    exact h ⟨m, hm, hk⟩

/-- The message of a call without a key that it is meant to have. -/
theorem saved_as_put_of_none (hx : x.ok = true) (hfresh : ∀ m ∈ t.messages, m.id ≠ x.uuid)
    (hroom : ∃ r ∈ t.rooms, r.id = c.roomId) (hsender : ∃ u ∈ t.users, u.id = c.senderId)
    (hlen : ∀ k, c.idempotencyKey = some k → k.length ≤ 100) (h : c.meant = none) :
    (∃ row, c.Owns row ∧ ∃ m t', saved x t c.roomId c.senderId c.content c.key = .ok (m, t') ∧
      (m, t'.messages.rows) =
        KeyedLog.put MessageRow.idempotencyKey t.messages.rows c.meant row ∧
      t'.users = t.users ∧ t'.rooms = t.rooms ∧ t'.roomMembers = t.roomMembers) ↔ Fits c t := by
  rw [saved_of_meant_none h, h]
  -- the empty key is written to the column but never looked up
  have hempty : ∀ k, c.idempotencyKey = some k → k = "" := by
    intro k hk
    by_contra hne
    rw [Save.meant, hk, Option.filter_some] at h
    simp [hne] at h
  constructor
  · rintro ⟨row, -, m, t', hins, -⟩
    obtain ⟨hkey, hcontent, hnew⟩ := of_inserted hx hins
    exact ⟨hkey, Or.inr ⟨hcontent, fun hsecond => hnew "" hsecond.1 hsecond.2⟩⟩
  · rintro ⟨hkey, ⟨k, hk, -⟩ | ⟨hcontent, hfirst⟩⟩
    · rw [h] at hk
      cases hk
    · have hnew : ∀ k, c.idempotencyKey = some k → ¬KeyStored k t := fun k hk hstored => by
        obtain rfl := hempty k hk
        exact hfirst ⟨hk, hstored⟩
      obtain ⟨row, howns, hins, hrows⟩ := inserted_ok hx hfresh hroom hsender
        (keyColumn_key hlen hkey) hcontent hnew
      refine ⟨row, howns, row, _, hins, ?_, rfl, rfl, rfl⟩
      rw [hrows, KeyedLog.put_none]

/-- The message of a call with a key. -/
theorem saved_as_put_of_some {k : String} (hx : x.ok = true)
    (hfresh : ∀ m ∈ t.messages, m.id ≠ x.uuid)
    (hroom : ∃ r ∈ t.rooms, r.id = c.roomId) (hsender : ∃ u ∈ t.users, u.id = c.senderId)
    (hlen : ∀ k, c.idempotencyKey = some k → k.length ≤ 100) (h : c.meant = some k) :
    (∃ row, c.Owns row ∧ ∃ m t', saved x t c.roomId c.senderId c.content c.key = .ok (m, t') ∧
      (m, t'.messages.rows) =
        KeyedLog.put MessageRow.idempotencyKey t.messages.rows c.meant row ∧
      t'.users = t.users ∧ t'.rooms = t.rooms ∧ t'.roomMembers = t.roomMembers) ↔ Fits c t := by
  obtain ⟨hidem, hne, hkey⟩ := of_meant_some h
  rw [h]
  cases hs : DbOp.storable k with
  | false =>
    rw [hkey, saved_of_not_storable hx hne hs]
    -- the key cannot be stored, and the call raises
    refine iff_of_false (by rintro ⟨row, -, m, t', hins, -⟩; cases hins) fun hfits => ?_
    rw [hfits.1 k hidem] at hs
    cases hs
  | true =>
    have hkeys : ∀ k', c.idempotencyKey = some k' → DbOp.storable k' = true := fun k' hk' => by
      obtain rfl : k = k' := Option.some.inj (hidem.symm.trans hk')
      exact hs
    rw [saved_of_meant_some hx h hs]
    cases hlookup : KeyedLog.lookup MessageRow.idempotencyKey t.messages.rows k with
    | some old =>
      have hstored : KeyStored k t := by
        by_contra hnot
        rw [lookup_eq_none_iff.mpr hnot] at hlookup
        cases hlookup
      refine iff_of_true ?_ ⟨hkeys, Or.inl ⟨k, h, hstored⟩⟩
      refine ⟨DbOp.newMessage x c.roomId c.senderId c.content .text c.idempotencyKey,
        ⟨rfl, rfl, rfl, rfl⟩, old, t, rfl, ?_, rfl, rfl, rfl⟩
      rw [KeyedLog.put_of_lookup hlookup]
    | none =>
      have hnot := lookup_eq_none_iff.mp hlookup
      constructor
      · rintro ⟨row, -, m, t', hins, -⟩
        obtain ⟨-, hcontent, -⟩ := of_inserted hx hins
        refine ⟨hkeys, Or.inr ⟨hcontent, fun hsecond => hne ?_⟩⟩
        exact Option.some.inj (hidem.symm.trans hsecond.1)
      · rintro ⟨-, ⟨k', hk', hstored⟩ | ⟨hcontent, -⟩⟩
        · obtain rfl : k = k' := Option.some.inj (h.symm.trans hk')
          exact absurd hstored hnot
        · have hnew : ∀ k', c.idempotencyKey = some k' → ¬KeyStored k' t := fun k' hk' => by
            obtain rfl : k = k' := Option.some.inj (hidem.symm.trans hk')
            exact hnot
          obtain ⟨row, howns, hins, hrows⟩ := inserted_ok hx hfresh hroom hsender
            (keyColumn_key hlen hkeys) hcontent hnew
          refine ⟨row, howns, row, _, hins, ?_, rfl, rfl, rfl⟩
          rw [hrows, KeyedLog.put_of_new hlookup]

end Rows

/-- **`save_message` refines a keyed log exactly when no second empty key comes**, and no text that
cannot be stored. -/
theorem refines_iff {w : World} {c : Save} {x : Choice} {t : Tables}
    (hr : Reach (saveStep env srv me) Proper (.init t) w) (hc : Proper w (c, x)) :
    Refines env srv me w (c, x) ↔ Fits c w.db.committed := by
  obtain ⟨hx, hfresh, hroom, hsender, hlen⟩ := hc
  rw [refines_iff_saved hx (pending_reach hr)]
  cases hmeant : c.meant with
  | none =>
    rw [← hmeant]
    exact saved_as_put_of_none hx hfresh hroom hsender hlen hmeant
  | some k =>
    rw [← hmeant]
    exact saved_as_put_of_some hx hfresh hroom hsender hlen hmeant

namespace Sample

/-- User 1 saves "hi" in room 3, as row `uuid`. -/
def save (key : String) (uuid : Uuid) : Save × Choice :=
  ({ roomId := 3, senderId := 1, content := "hi", idempotencyKey := some key },
    System.smooth uuid)

def proper (w : World) (e : Save × Choice) : Bool :=
  e.2.ok && (w.db.committed.messages.rows.all fun m => m.id ≠ e.2.uuid) &&
    (w.db.committed.rooms.rows.any fun r => r.id = e.1.roomId) &&
    (w.db.committed.users.rows.any fun u => u.id = e.1.senderId) &&
    e.1.idempotencyKey.all fun k => k.length ≤ 100

theorem proper_of_test {w : World} {e : Save × Choice} (h : proper w e = true) : Proper w e := by
  simp only [proper, Bool.and_eq_true] at h
  obtain ⟨⟨⟨⟨hok, hfresh⟩, hroom⟩, hsender⟩, hkey⟩ := h
  refine ⟨hok, fun m hm => of_decide_eq_true (List.all_eq_true.mp hfresh m hm), ?_, ?_, ?_⟩
  · obtain ⟨r, hr, hid⟩ := List.any_eq_true.mp hroom
    exact ⟨r, hr, of_decide_eq_true hid⟩
  · obtain ⟨u, hu, hid⟩ := List.any_eq_true.mp hsender
    exact ⟨u, hu, of_decide_eq_true hid⟩
  · exact fun k hk => of_decide_eq_true ((Option.all_eq_true _ _).mp hkey k hk)

/-- A row with the key is stored. -/
def stores (k : String) (w : World) : Bool :=
  w.db.committed.messages.rows.any fun m => m.idempotencyKey = some k

/-- The call raises. -/
def fails (w : World) (e : Save × Choice) : Bool :=
  (e.1.prog.run (Op.exec .sample 0 0) e.2 w).any fun r => !r.1.isOk

end Sample

set_option maxRecDepth 20000 in
open Sample in
/-- A message is saved twice with one key, and the second call gets the stored row. -/
theorem refines_twice : ∃ w, Reach (saveStep .sample 0 0) Proper (.init .sample) w ∧
    Proper w (save "k" 2) ∧
    (Refines .sample 0 0 w (save "k" 2) ↔ Fits (save "k" 2).1 w.db.committed) ∧
    Fits (save "k" 2).1 w.db.committed := by
  have hrun : ((replayIf (saveStep .sample 0 0) proper [save "k" 1] (.init .sample)).any fun w =>
      proper w (save "k" 2) && stores "k" w) = true := by
    decide +kernel
  obtain ⟨w, hw, htest⟩ := (Option.any_eq_true _ _).mp hrun
  obtain ⟨hproper, hstores⟩ := (Bool.and_eq_true _ _).mp htest
  have hr := Reach.of_replayIf (fun _ _ => proper_of_test) .init hw
  have hp := proper_of_test hproper
  refine ⟨w, hr, hp, refines_iff hr hp, ?_, Or.inl ⟨"k", rfl, ?_⟩⟩
  · intro k hk
    obtain rfl : "k" = k := Option.some.inj hk
    decide
  · obtain ⟨m, hm, hkey⟩ := List.any_eq_true.mp hstores
    exact ⟨m, hm, of_decide_eq_true hkey⟩

set_option maxRecDepth 20000 in
open Sample in
/-- **The second message with an empty key is lost**: it is neither found nor stored. -/
theorem not_refines : ¬∀ (env : Env) (srv : ServerId) (me : TaskId) (t : Tables) (w : World)
    (e : Save × Choice), Reach (saveStep env srv me) Proper (.init t) w → Proper w e →
    Refines env srv me w e := by
  intro hall
  have hrun : ((replayIf (saveStep .sample 0 0) proper [save "" 1] (.init .sample)).any fun w =>
      proper w (save "" 2) && fails w (save "" 2)) = true := by
    decide +kernel
  obtain ⟨w, hw, htest⟩ := (Option.any_eq_true _ _).mp hrun
  obtain ⟨hproper, hfails⟩ := (Bool.and_eq_true _ _).mp htest
  have hr := Reach.of_replayIf (fun _ _ => proper_of_test) .init hw
  obtain ⟨row, -, m, w', hok, -⟩ := hall .sample 0 0 .sample w (save "" 2) hr
    (proper_of_test hproper)
  rw [fails, hok] at hfails
  cases hfails

end NexusChat.Chat
