import EasyDocket.Sync.Cycle
import EasyDocket.Sync.NameText

/-!
# Batches of a push

`push` reads the first operations that are pending, and puts them in batches, each marked once it is put.  What was put and
what is pending make up the queue at any end of a push (`push_batches`).
-/

namespace EasyDocket

open SyncService

open Prog (Ends)

variable {β : Type}

/-! ## The query -/

namespace Ledger

/-- The index `synced`: entries with equal keys are in the order of primary keys. -/
def syncedIndex (L : Ledger β) : List (LocalOperation β) :=
  L.oplog.rows.insertionSort (fun a b => toLex (a.synced, a.hlc) ≤ toLex (b.synced, b.hlc))

/-- `where('synced').equals(0).limit(limit).sortBy('hlc')`. -/
def queryPending (limit : ℕ) (L : Ledger β) : List (LocalOperation β) :=
  ((L.syncedIndex.filter (fun op => !op.synced)).take limit).insertionSort (fun a b => a.hlc ≤ b.hlc)

theorem filter_syncedIndex (L : Ledger β) : L.syncedIndex.filter (fun op => !op.synced) = L.unsynced := by
  have hperm : L.syncedIndex.Perm L.oplog.rows := List.perm_insertionSort _ _
  have hsorted : L.syncedIndex.Pairwise (fun a b => toLex (a.synced, a.hlc) ≤ toLex (b.synced, b.hlc)) :=
    List.pairwise_insertionSort _ _
  have hne : L.syncedIndex.Pairwise (fun a b => a.hlc ≠ b.hlc) :=
    hperm.symm.pairwise (L.oplog.sorted.imp (fun h => h.ne)) (fun h => h.symm)
  refine Table.eq_of_mem_iff ?_ L.unsynced_sorted (fun o => ?_)
  · refine List.pairwise_filter.mpr (((hsorted.and hne)).imp (fun {a b} h ha hb => ?_))
    have hkey : a.synced = b.synced := by
      rw [Bool.not_eq_true'] at ha hb
      rw [ha, hb]
    rcases Prod.Lex.le_iff.mp h.1 with hlt | ⟨-, hle⟩
    · exact absurd hkey hlt.ne
    · exact lt_of_le_of_ne hle h.2
  · unfold unsynced
    rw [List.mem_filter, List.mem_filter, hperm.mem_iff]

/-- The first entries of the index are the first operations in stamp order, and sorting leaves them so. -/
theorem queryPending_eq (limit : ℕ) (L : Ledger β) : L.queryPending limit = L.unsynced.take limit := by
  unfold queryPending
  rw [filter_syncedIndex]
  exact List.Pairwise.insertionSort_eq ((L.unsynced_sorted.sublist (List.take_sublist _ _)).imp (fun h => h.le))

/-- The query is what `pendingOperations` takes it for. -/
theorem queryPending_pendingOperations (L : Ledger β) : L.queryPending PENDING_LIMIT = L.pendingOperations :=
  queryPending_eq PENDING_LIMIT L

end Ledger

/-! ## Slices -/

section Slices

variable {α : Type} {n : ℕ}

theorem flatten_slices (hn : 0 < n) : ∀ {fuel : ℕ} {l : List α}, l.length ≤ fuel → (slices n fuel l).flatten = l
  | 0, l, h => by
    rw [List.length_eq_zero_iff.mp (Nat.le_zero.mp h)]
    rfl
  | _ + 1, [], _ => rfl
  | fuel + 1, a :: l, h => by
    show ((a :: l).take n :: slices n fuel ((a :: l).drop n)).flatten = a :: l
    rw [List.flatten_cons, flatten_slices hn, List.take_append_drop]
    rw [List.length_drop, List.length_cons] at *
    omega

/-- A slice has an element, and no more than a batch. -/
theorem length_of_mem_slices (hn : 0 < n) : ∀ {fuel : ℕ} {l slice : List α}, slice ∈ slices n fuel l →
    slice ≠ [] ∧ slice.length ≤ n
  | 0, _, _, h => absurd h List.not_mem_nil
  | _ + 1, [], _, h => absurd h List.not_mem_nil
  | fuel + 1, a :: l, slice, h => by
    rcases List.mem_cons.mp h with rfl | h
    · refine ⟨?_, List.length_take_le _ _⟩
      rw [Ne, List.take_eq_nil_iff]
      rintro (h | h)
      · omega
      · cases h
    · exact length_of_mem_slices hn h

end Slices

/-! ## One device and its adapter -/

/-- A device that pushes. -/
structure Outbox (β : Type) where
  ledger : Ledger β
  /-- The objects that were put, in order. -/
  sent : List (ObjectName × Envelope β)
  /-- The operations of local edits, in order. -/
  edited : List (Operation β)

/-- How a request of a push is served.  A `put` may fail; whatever the destination then holds, the object does not count as
put. -/
inductive Posts : (q : Request β) → Outbox β → Except SyncError q.Reply → Outbox β → Prop
  | put (s : Outbox β) (name : ObjectName) (bytes : Envelope β) :
      Posts (.call (.put name bytes)) s (.ok ()) { s with sent := s.sent ++ [(name, bytes)] }
  | failed (s : Outbox β) (name : ObjectName) (bytes : Envelope β) (e : SyncError) :
      Posts (.call (.put name bytes)) s (.error e) s
  | pending (s : Outbox β) : Posts (.query .pendingOperations) s (.ok (s.ledger.queryPending PENDING_LIMIT)) s
  | randomIv (s : Outbox β) (iv : ℕ) : Posts (.query .randomIv) s (.ok iv) s
  | record (s : Outbox β) (reason : Reason) (names : List ObjectName) : Posts (.query (.record reason names)) s (.ok ()) s
  | markSynced (s : Outbox β) (stamps : List Stamp) :
      Posts (.query (.markSynced stamps)) s (.ok ()) { s with ledger := s.ledger.markSynced stamps }

/-- A local edit; its stamp is past everything that is logged. -/
inductive EditsOutbox (device : JsString) : Outbox β → Outbox β → Prop
  | put (s : Outbox β) (wall : ℕ) (e : EntityName) (id : JsString) (body : β) (L : Ledger β) (op : Operation β)
      (h : s.ledger.put device wall e id body = .ok (L, op)) (hlast : ∀ o ∈ s.ledger.oplog, o.hlc < op.hlc) :
      EditsOutbox device s { s with ledger := L, edited := s.edited ++ [op] }
  | remove (s : Outbox β) (wall : ℕ) (e : EntityName) (id : JsString) (L : Ledger β) (op : Operation β)
      (h : s.ledger.remove device wall e id = .ok (L, op)) (hlast : ∀ o ∈ s.ledger.oplog, o.hlc < op.hlc) :
      EditsOutbox device s { s with ledger := L, edited := s.edited ++ [op] }

/-- So many pushes that succeed, one after the other. -/
inductive Pushes (session : Session) : ℕ → Outbox β → Outbox β → Prop
  | nil (s : Outbox β) : Pushes session 0 s s
  | push {k n : ℕ} {s s' s'' : Outbox β} (h : Pushes session k s s')
      (hp : Ends Posts (EditsOutbox session.device) (push session) s' (.ok n) s'') : Pushes session (k + 1) s s''

/-! ## What happens meanwhile -/

/-- An operation in the log that was not sent. -/
def unsent (op : Operation β) : LocalOperation β := ⟨op, false⟩

/-- Operations of local edits have come to the end of the queue. -/
structure Waited (s s' : Outbox β) (ops : List (Operation β)) : Prop where
  queue : s'.ledger.unsynced = s.ledger.unsynced ++ ops.map unsent
  sent : s'.sent = s.sent
  edited : s'.edited = s.edited ++ ops
  kept : ∀ o ∈ s.ledger.oplog, o ∈ s'.ledger.oplog

variable {s s' s'' : Outbox β} {session : Session} {slice done left : List (LocalOperation β)} {objects : List (ObjectName × Envelope β)}
  {before after ops ops' : List (Operation β)}

theorem Waited.refl (s : Outbox β) : Waited s s [] :=
  ⟨(List.append_nil _).symm, rfl, (List.append_nil _).symm, fun _ ho => ho⟩

theorem Waited.trans (h : Waited s s' ops) (h' : Waited s' s'' ops') : Waited s s'' (ops ++ ops') where
  queue := by rw [h'.queue, h.queue, List.map_append, List.append_assoc]
  sent := h'.sent.trans h.sent
  edited := by rw [h'.edited, h.edited, List.append_assoc]
  kept o ho := h'.kept o (h.kept o ho)

theorem waited_of_edited {device : JsString} {L : Ledger β} {op : Operation β} (h : Ledger.Edited device s.ledger L op)
    (hlast : ∀ o ∈ s.ledger.oplog, o.hlc < op.hlc) : Waited s { s with ledger := L, edited := s.edited ++ [op] } [op] where
  queue := h.unsynced (fun o ho => hlast o (Ledger.mem_unsynced.mp ho).1)
  sent := rfl
  edited := rfl
  kept o ho := by
    show o ∈ L.oplog
    rw [h.oplog, Table.mem_put]
    exact Or.inr ⟨ho, (hlast o ho).ne⟩

theorem waited_of_edits {device : JsString} (h : EditsOutbox device s s') : ∃ ops, Waited s s' ops := by
  cases h with
  | put _ _ _ _ _ _ h hlast => exact ⟨_, waited_of_edited (Ledger.put_edited h) hlast⟩
  | remove _ _ _ _ _ h hlast => exact ⟨_, waited_of_edited (Ledger.remove_edited h) hlast⟩

/-- A push among local edits. -/
def posting : Protocol (Request β) Request.Reply SyncError (Outbox β) where
  step := Posts
  rely s s' := ∃ ops, Waited s s' ops
  rely_refl s := ⟨[], Waited.refl s⟩
  rely_trans := fun ⟨_, h⟩ ⟨_, h'⟩ => ⟨_, h.trans h'⟩
  pre _ _ := True

/-! ## What was put -/

/-- An object's name and header carry the greatest stamp in it. -/
structure Headed (session : Session) (object : ObjectName × Envelope β) : Prop where
  name : object.1 = opsObjectName session.vault object.2.header.h
  header : object.2.header.v = session.vault ∧ object.2.header.d = session.device ∧ object.2.header.t = .ops
  payload : object.2.payload = .ops ⟨session.vault, session.device, object.2.header.h, object.2.operations⟩
  small : object.2.operations.length ≤ MAX_OPS_PER_BATCH
  head : ∃ x ∈ object.2.operations, x.hlc = object.2.header.h
  greatest : ∀ x ∈ object.2.operations, x.hlc ≤ object.2.header.h

/-- Objects that carry operations in order. -/
structure Carry (session : Session) (ops : List (LocalOperation β)) (objects : List (ObjectName × Envelope β)) : Prop where
  operations : objects.flatMap (fun object => object.2.operations) = ops.map LocalOperation.toOperation
  headed : ∀ object ∈ objects, Headed session object

theorem Carry.append {ops ops' : List (LocalOperation β)} {objects objects' : List (ObjectName × Envelope β)}
    (h : Carry session ops objects) (h' : Carry session ops' objects') : Carry session (ops ++ ops') (objects ++ objects') where
  operations := by rw [List.flatMap_append, h.operations, h'.operations, List.map_append]
  headed object ho := (List.mem_append.mp ho).elim (h.headed object) (h'.headed object)

/-- Objects that carry operations in stamp order have increasing names. -/
theorem Carry.increasing {ops : List (LocalOperation β)} (h : Carry session ops objects)
    (hsorted : ops.Pairwise (fun a b => a.hlc < b.hlc)) : (objects.map Prod.fst).Pairwise (· < ·) := by
  have hflat : (objects.flatMap (fun object => object.2.operations)).Pairwise (fun a b => a.hlc < b.hlc) := by
    rw [h.operations, List.pairwise_map]
    exact hsorted
  rw [List.pairwise_flatMap] at hflat
  rw [List.pairwise_map]
  refine hflat.2.imp_of_mem (fun {a b} ha hb hlt => ?_)
  obtain ⟨x, hx, hxa⟩ := (h.headed a ha).head
  obtain ⟨y, hy, hyb⟩ := (h.headed b hb).head
  have hstamps := hlt x hx y hy
  rw [hxa, hyb] at hstamps
  rw [(h.headed a ha).name, (h.headed b hb).name]
  exact Prod.Lex.toLex_lt_toLex.mpr (Or.inr ⟨rfl, Prod.Lex.toLex_lt_toLex.mpr (Or.inr ⟨rfl, hstamps⟩)⟩)

/-- How far a push has come: some operations of the queue are put and marked, the others are left. -/
structure Stage (start : Outbox β) (before after : List (Operation β)) (done left : List (LocalOperation β))
    (objects : List (ObjectName × Envelope β)) (s : Outbox β) : Prop where
  sent : s.sent = start.sent ++ objects
  edited : s.edited = start.edited ++ (before ++ after)
  queue : s.ledger.unsynced = left ++ after.map unsent
  marked : ∀ o ∈ done, { o with synced := true } ∈ s.ledger.oplog

variable {start : Outbox β}

theorem Stage.waited (h : Stage start before after done left objects s) (hw : Waited s s' ops) :
    Stage start before (after ++ ops) done left objects s' where
  sent := hw.sent.trans h.sent
  edited := by rw [hw.edited, h.edited, List.append_assoc, List.append_assoc]
  queue := by rw [hw.queue, h.queue, List.map_append, List.append_assoc]
  marked o ho := hw.kept _ (h.marked o ho)

theorem Stage.put (h : Stage start before after done left objects s) (object : ObjectName × Envelope β) :
    Stage start before after done left (objects ++ [object]) { s with sent := s.sent ++ [object] } where
  sent := by
    show s.sent ++ [object] = _
    rw [h.sent, List.append_assoc]
  edited := h.edited
  queue := h.queue
  marked := h.marked

/-- Marking the next operations of the queue. -/
theorem Stage.mark (h : Stage start before after done (slice ++ left) objects s) : Stage start before after (done ++ slice)
    left objects { s with ledger := s.ledger.markSynced (slice.map (fun op => op.hlc)) } where
  sent := h.sent
  edited := h.edited
  queue := Ledger.unsynced_markSynced (by rw [h.queue, List.append_assoc])
  marked o ho := by
    rw [Ledger.mem_markSynced]
    rcases List.mem_append.mp ho with ho | ho
    · exact ⟨_, h.marked o ho, rfl⟩
    · have hmem : o ∈ s.ledger.unsynced := h.queue ▸ List.mem_append_left _ (List.mem_append_left _ ho)
      have hstamp : o.hlc ∈ slice.map (fun op => op.hlc) := List.mem_map_of_mem ho
      exact ⟨o, (Ledger.mem_unsynced.mp hmem).1, by rw [decide_eq_true hstamp, Bool.or_true]⟩

/-- The stage is reached, whatever has been edited since. -/
def Reached (start : Outbox β) (before : List (Operation β)) (done left : List (LocalOperation β))
    (objects : List (ObjectName × Envelope β)) (s : Outbox β) : Prop := ∃ after, Stage start before after done left objects s

theorem stable_reached : posting.Stable (Reached start before done left objects) :=
  fun _ _ ⟨_, h⟩ ⟨_, hw⟩ => ⟨_, h.waited hw⟩

/-- What was put carries the operations that are done. -/
def Ended (session : Session) (start : Outbox β) (before : List (Operation β)) (done left : List (LocalOperation β))
    (s : Outbox β) : Prop := ∃ objects, Reached start before done left objects s ∧ Carry session done objects

theorem stable_ended : posting.Stable (Ended session start before done left) :=
  fun s s' ⟨objects, h, hc⟩ hw => ⟨objects, stable_reached s s' h hw, hc⟩

/-- The object of a slice. -/
theorem carry_slice (session : Session) {last : LocalOperation β} (hsorted : slice.Pairwise (fun a b => a.hlc < b.hlc))
    (hsmall : slice.length ≤ MAX_OPS_PER_BATCH) (hlast : slice.getLast? = some last) (iv : ℕ) :
    Carry session slice [(opsObjectName session.vault last.hlc, ⟨⟨session.vault, session.device, last.hlc, .ops⟩, iv,
      .ops ⟨session.vault, session.device, last.hlc, slice.map LocalOperation.toOperation⟩⟩)] := by
  obtain ⟨hmem, hle⟩ := hlc_le_of_getLast hsorted hlast
  refine ⟨List.append_nil _, fun object ho => ?_⟩
  rw [List.mem_singleton.mp ho]
  refine ⟨rfl, ⟨rfl, rfl, rfl⟩, rfl, ?_, ⟨last.toOperation, List.mem_map_of_mem hmem, rfl⟩, fun x hx => ?_⟩
  · show (slice.map LocalOperation.toOperation).length ≤ _
    rwa [List.length_map]
  · obtain ⟨o, ho, rfl⟩ := List.mem_map.mp hx
    exact hle o ho

/-- One slice: it is put and marked, or left. -/
theorem wp_pushSlice (h : Ended session start before done (slice ++ left) s) (hne : slice ≠ [])
    (hsmall : slice.length ≤ MAX_OPS_PER_BATCH) (hsorted : slice.Pairwise (fun a b => a.hlc < b.hlc)) (pushed : ℕ) :
    posting.wp (fun n s' => n = pushed + slice.length ∧ Ended session start before (done ++ slice) left s')
      (fun _ s' => Ended session start before done (slice ++ left) s') (pushSlice session pushed slice) s := by
  obtain ⟨last, hlast⟩ : ∃ last, slice.getLast? = some last := ⟨_, List.getLast?_eq_some_getLast hne⟩
  unfold pushSlice sealJson
  simp only [hlast]
  refine Protocol.wp_bind (Protocol.wp_request_served stable_ended h (fun _ _ => trivial) ?_)
  intro s r s' h hs
  cases hs with
  | randomIv _ iv =>
    refine ⟨iv, rfl, Protocol.wp_pure stable_ended h ?_⟩
    rintro s ⟨objects, h, hcarry⟩
    have hslice := carry_slice session hsorted hsmall hlast iv
    intro s₁ hw
    refine ⟨trivial, ?_⟩
    obtain ⟨after, hstage⟩ := stable_reached s s₁ h hw
    intro r s₂ hs
    cases hs with
    | failed _ _ _ e => exact fun s₃ hw => stable_ended _ s₃ ⟨objects, ⟨after, hstage⟩, hcarry⟩ hw
    | put =>
      refine Protocol.wp_request_served stable_reached ⟨after, hstage.put _⟩ (fun _ _ => trivial) ?_
      intro s r s' h hs
      cases hs
      refine ⟨(), rfl, Protocol.wp_request_served stable_reached h (fun _ _ => trivial) ?_⟩
      rintro s r s' ⟨after, hstage⟩ hs
      cases hs
      refine ⟨(), rfl, Protocol.wp_pure stable_ended ⟨_, ⟨after, hstage.mark⟩, hcarry.append hslice⟩ (fun s h => ?_)⟩
      rw [List.length_map]
      exact ⟨rfl, h⟩

/-- How a push may end: the queue was read after some edits, and is put from its start on. -/
def Broken (session : Session) (start s : Outbox β) : Prop :=
  ∃ before done left, start.ledger.unsynced ++ before.map unsent = done ++ left ∧
    done.Pairwise (fun a b => a.hlc < b.hlc) ∧ Ended session start before done left s

/-- How a push ends that succeeds: as much is put as one push reads. -/
def Completed (session : Session) (start : Outbox β) (n : ℕ) (s : Outbox β) : Prop :=
  ∃ before, n = ((start.ledger.unsynced ++ before.map unsent).take PENDING_LIMIT).length ∧
    ((start.ledger.unsynced ++ before.map unsent).take PENDING_LIMIT).Pairwise (fun a b => a.hlc < b.hlc) ∧
    Ended session start before ((start.ledger.unsynced ++ before.map unsent).take PENDING_LIMIT)
      ((start.ledger.unsynced ++ before.map unsent).drop PENDING_LIMIT) s

/-- The slices, one after the other. -/
theorem wp_slices {queue : List (LocalOperation β)} (hqueue : queue = start.ledger.unsynced ++ before.map unsent)
    (hsorted : queue.Pairwise (fun a b => a.hlc < b.hlc)) (h : Reached start before [] queue [] s) :
    posting.wp (Completed session start) (fun _ s => Broken session start s)
      ((slices MAX_OPS_PER_BATCH (queue.take PENDING_LIMIT).length (queue.take PENDING_LIMIT)).foldlM (pushSlice session) 0) s := by
  refine Protocol.wp_foldlM (fun pushed rest s => ∃ done, queue.take PENDING_LIMIT = done ++ rest.flatten ∧ pushed = done.length ∧
    (∀ slice ∈ rest, slice ≠ [] ∧ slice.length ≤ MAX_OPS_PER_BATCH) ∧
    Ended session start before done (rest.flatten ++ queue.drop PENDING_LIMIT) s) ?_ ?_ _ _ _ ?_
  · rintro pushed slice rest s ⟨done, htake, rfl, hrest, h⟩
    obtain ⟨hne, hsmall⟩ := hrest slice List.mem_cons_self
    rw [List.flatten_cons] at htake h
    rw [List.append_assoc] at h
    have hpart := hsorted.sublist (List.take_sublist PENDING_LIMIT queue)
    rw [htake] at hpart
    obtain ⟨hdone, hleft, -⟩ := List.pairwise_append.mp hpart
    have hslice : slice.Pairwise (fun a b => a.hlc < b.hlc) := (List.pairwise_append.mp hleft).1
    refine Protocol.wp_mono (wp_pushSlice h hne hsmall hslice done.length) ?_ ?_
    · rintro n s' ⟨rfl, h⟩
      exact ⟨done ++ slice, by rw [htake, List.append_assoc], by rw [List.length_append],
        fun slice hs => hrest slice (List.mem_cons_of_mem _ hs), h⟩
    · intro _ s' h
      refine ⟨before, done, _, ?_, hdone, h⟩
      rw [← hqueue, ← List.append_assoc, ← List.append_assoc, List.append_assoc done, ← htake, List.take_append_drop]
  · rintro pushed s ⟨done, htake, rfl, -, h⟩
    rw [List.flatten_nil, List.append_nil] at htake
    refine Protocol.wp_pure stable_ended h (fun s h => ⟨before, ?_, ?_, ?_⟩)
    · rw [← hqueue, htake]
    · rw [← hqueue]
      exact hsorted.sublist (List.take_sublist PENDING_LIMIT queue)
    · rw [← hqueue, htake]
      exact h
  · refine ⟨[], ?_, rfl, fun slice hs => length_of_mem_slices (by decide) hs, ?_⟩
    · rw [flatten_slices (by decide) le_rfl, List.nil_append]
    · rw [flatten_slices (by decide) le_rfl, List.take_append_drop]
      exact ⟨[], h, ⟨rfl, fun object ho => absurd ho List.not_mem_nil⟩⟩

theorem wp_push : posting.wp (Completed session start) (fun _ s => Broken session start s) (push session) start := by
  unfold push
  have hstable : posting.Stable (fun s => ∃ before, Waited start s before) := fun _ _ ⟨_, h⟩ ⟨_, h'⟩ => ⟨_, h.trans h'⟩
  refine Protocol.wp_request_served hstable ⟨[], Waited.refl start⟩ (fun _ _ => trivial) ?_
  rintro s r s' ⟨before, hw⟩ hs
  cases hs with
  | pending =>
    refine ⟨_, rfl, ?_⟩
    rw [Ledger.queryPending_pendingOperations]
    refine wp_slices hw.queue s.ledger.unsynced_sorted ⟨[], ⟨?_, ?_, ?_, fun o ho => absurd ho List.not_mem_nil⟩⟩
    · rw [hw.sent, List.append_nil]
    · rw [hw.edited, List.append_nil]
    · exact (List.append_nil _).symm

/-! ## Names as texts -/

/-- A stamp of the device, as the clock gives it. -/
def OwnStamp (session : Session) (stamp : Stamp) : Prop :=
  stamp.device = session.device ∧ Clock.Fits ⟨stamp.physical, stamp.counter⟩

theorem OwnStamp.text_eq {a : Stamp} (h : OwnStamp session a) : a.text = physicalText ⟨a.physical, a.counter⟩ ++
    hyphen :: (counterText ⟨a.physical, a.counter⟩ ++ hyphen :: session.device) := by
  rw [← h.1]
  exact encodeHlc_ofClock h.2 a.device

theorem OwnStamp.length_text {a : Stamp} (h : OwnStamp session a) :
    a.text.length = PHYSICAL_WIDTH + (COUNTER_WIDTH + (session.device.length + 1) + 1) := by
  rw [h.text_eq]
  simp only [List.length_append, List.length_cons, physicalText_length, counterText_length]

/-- The names of a device's objects compare as their stamps do. -/
theorem text_opsObjectName_lt {a b : Stamp} (ha : OwnStamp session a) (hb : OwnStamp session b) (hlt : a < b) :
    (opsObjectName session.vault a).text < (opsObjectName session.vault b).text := by
  have htext : a.text < b.text := (encodeHlc_lt_iff ha.2 hb.2).mpr hlt
  have hlen : (objectPrefix session.vault .ops ++ a.text).length = (objectPrefix session.vault .ops ++ b.text).length := by
    rw [List.length_append, List.length_append, ha.length_text, hb.length_text]
  exact (Numeral.lt_append_iff hlen).mpr (Or.inl ((Numeral.lt_append_iff rfl).mpr (Or.inr ⟨rfl, htext⟩)))

theorem Carry.increasing_text {ops : List (LocalOperation β)} (h : Carry session ops objects)
    (hown : ∀ o ∈ ops, OwnStamp session o.hlc) (hsorted : ops.Pairwise (fun a b => a.hlc < b.hlc)) :
    (objects.map (fun object => object.1.text)).Pairwise (· < ·) := by
  have hstamp : ∀ object ∈ objects, ∃ stamp, OwnStamp session stamp ∧ object.1 = opsObjectName session.vault stamp := by
    intro object ho
    obtain ⟨x, hx, hhead⟩ := (h.headed object ho).head
    have hmem : x ∈ ops.map LocalOperation.toOperation := h.operations ▸ List.mem_flatMap.mpr ⟨object, ho, hx⟩
    obtain ⟨o, ho', rfl⟩ := List.mem_map.mp hmem
    exact ⟨_, hhead ▸ hown o ho', (h.headed object ho).name⟩
  have hnames := h.increasing hsorted
  rw [List.pairwise_map] at hnames ⊢
  refine hnames.imp_of_mem (fun {a b} ha hb hlt => ?_)
  obtain ⟨x, hx, hax⟩ := hstamp a ha
  obtain ⟨y, hy, hby⟩ := hstamp b hb
  rw [hax, hby] at hlt ⊢
  refine text_opsObjectName_lt hx hy ?_
  rcases Prod.Lex.toLex_lt_toLex.mp hlt with hlt | ⟨-, hlt⟩
  · exact absurd hlt (lt_irrefl _)
  · rcases Prod.Lex.toLex_lt_toLex.mp hlt with hlt | ⟨-, hlt⟩
    · exact absurd hlt (lt_irrefl _)
    · exact hlt

/-! ## What a push comes to -/

/-- Operations in order, and the objects that they were put in. -/
structure Batched (session : Session) (ops : List (LocalOperation β)) (objects : List (ObjectName × Envelope β)) : Prop where
  carry : Carry session ops objects
  increasing : (objects.map Prod.fst).Pairwise (· < ·)
  increasing_text : (∀ o ∈ ops, OwnStamp session o.hlc) → (objects.map (fun object => object.1.text)).Pairwise (· < ·)

/-- A push that has ended, with edits before and after it read the queue. -/
structure PushEnded (session : Session) (start s : Outbox β) (before after : List (Operation β))
    (done left : List (LocalOperation β)) (objects : List (ObjectName × Envelope β)) : Prop where
  queue : start.ledger.unsynced ++ before.map unsent = done ++ left
  edited : s.edited = start.edited ++ (before ++ after)
  sent : s.sent = start.sent ++ objects
  batched : Batched session done objects
  pending : s.ledger.unsynced = left ++ after.map unsent
  marked : ∀ o ∈ done ++ left, { o with synced := true } ∈ s.ledger.oplog ↔
    ∃ object ∈ objects, o.toOperation ∈ object.2.operations

/-- What is marked has been put, and what has been put is marked. -/
theorem marked_iff {o : LocalOperation β} (h : Stage start before after done left objects s) (hc : Carry session done objects)
    (ho : o ∈ done ++ left) : { o with synced := true } ∈ s.ledger.oplog ↔
      ∃ object ∈ objects, o.toOperation ∈ object.2.operations := by
  rw [← List.mem_flatMap, hc.operations]
  constructor
  · intro hmarked
    rcases List.mem_append.mp ho with ho | ho
    · exact List.mem_map_of_mem ho
    · have hmem : o ∈ s.ledger.unsynced := h.queue ▸ List.mem_append_left _ ho
      obtain ⟨holog, hsynced⟩ := Ledger.mem_unsynced.mp hmem
      have heq : ({ o with synced := true } : LocalOperation β) = o := Table.eq_of_key_eq hmarked holog rfl
      rw [← heq] at hsynced
      cases hsynced
  · intro hput
    obtain ⟨o', ho', heq⟩ := List.mem_map.mp hput
    have hmarked := h.marked o' ho'
    have hsame : ({ o' with synced := true } : LocalOperation β) = { o with synced := true } := by rw [heq]
    rwa [hsame] at hmarked

theorem Carry.batched {ops : List (LocalOperation β)} (h : Carry session ops objects)
    (hsorted : ops.Pairwise (fun a b => a.hlc < b.hlc)) : Batched session ops objects :=
  ⟨h, h.increasing hsorted, fun hown => h.increasing_text hown hsorted⟩

/-- Pushes drain the queue from its start on. -/
structure Drained (session : Session) (k : ℕ) (start s : Outbox β) (objects : List (ObjectName × Envelope β)) : Prop where
  sent : s.sent = start.sent ++ objects
  batched : Batched session (start.ledger.unsynced.take (k * PENDING_LIMIT)) objects
  pending : s.ledger.unsynced = start.ledger.unsynced.drop (k * PENDING_LIMIT)
  once : (objects.flatMap (fun object => object.2.operations)).Nodup
  all : start.ledger.unsynced.length ≤ k * PENDING_LIMIT → s.ledger.unsynced = [] ∧
    objects.flatMap (fun object => object.2.operations) = start.ledger.unsynced.map LocalOperation.toOperation

theorem Ended.pushEnded (h : Ended session start before done left s)
    (hqueue : start.ledger.unsynced ++ before.map unsent = done ++ left) (hsorted : done.Pairwise (fun a b => a.hlc < b.hlc)) :
    ∃ after objects, PushEnded session start s before after done left objects := by
  obtain ⟨objects, ⟨after, hstage⟩, hcarry⟩ := h
  exact ⟨after, objects, hqueue, hstage.edited, hstage.sent, hcarry.batched hsorted, hstage.queue,
    fun o ho => marked_iff hstage hcarry ho⟩

/-- A push that succeeds, among edits. -/
theorem ends_ok {n : ℕ} (h : Ends Posts (EditsOutbox session.device) (push session) start (.ok n) s) :
    ∃ before after done left objects, PushEnded session start s before after done left objects ∧ n = done.length ∧
      done = (start.ledger.unsynced ++ before.map unsent).take PENDING_LIMIT := by
  obtain ⟨before, hn, hsorted, hended⟩ :=
    (Protocol.wp_ends (P := posting) (fun _ _ he => waited_of_edits he) h wp_push).1 n rfl
  obtain ⟨after, objects, hpushed⟩ := hended.pushEnded (List.take_append_drop _ _).symm hsorted
  exact ⟨before, after, _, _, objects, hpushed, hn, rfl⟩

theorem ends_error {e : SyncError} (h : Ends Posts (EditsOutbox session.device) (push session) start (.error e) s) :
    ∃ before after done left objects, PushEnded session start s before after done left objects := by
  obtain ⟨before, done, left, hqueue, hsorted, hended⟩ :=
    (Protocol.wp_ends (P := posting) (fun _ _ he => waited_of_edits he) h wp_push).2 e rfl
  obtain ⟨after, objects, hpushed⟩ := hended.pushEnded hqueue hsorted
  exact ⟨before, after, done, left, objects, hpushed⟩

theorem Pushes.edited {k : ℕ} (h : Pushes session k start s) : start.edited <+: s.edited := by
  induction h with
  | nil s => exact List.prefix_refl _
  | push _ hp ih =>
    obtain ⟨before, after, _, _, _, hpushed, -⟩ := ends_ok hp
    rw [hpushed.edited]
    exact ih.trans (List.prefix_append _ _)

/-- Without edits, one push takes its share from the start of the queue. -/
theorem PushEnded.without_edits (h : PushEnded session start s before after done left objects) (hedited : s.edited = start.edited) :
    before = [] ∧ after = [] := by
  have hnone := h.edited
  rw [hedited] at hnone
  exact List.append_eq_nil_iff.mp (List.self_eq_append_right.mp hnone)

/-- So many pushes take as many shares; by induction on them. -/
theorem Pushes.drained {k : ℕ} (h : Pushes session k start s) : s.edited = start.edited →
    ∃ objects, s.sent = start.sent ++ objects ∧ Carry session (start.ledger.unsynced.take (k * PENDING_LIMIT)) objects ∧
      s.ledger.unsynced = start.ledger.unsynced.drop (k * PENDING_LIMIT) := by
  induction h with
  | nil s =>
    intro _
    rw [Nat.zero_mul]
    exact ⟨[], (List.append_nil _).symm, ⟨rfl, fun object ho => absurd ho List.not_mem_nil⟩, rfl⟩
  | @push k n start s s' hpushes hp ih =>
    intro hedited
    obtain ⟨before, after, done, left, objects', hpushed, -, hdone⟩ := ends_ok hp
    have hle := hpushes.edited
    have hle' : s.edited <+: s'.edited := by
      rw [hpushed.edited]
      exact List.prefix_append _ _
    rw [hedited] at hle'
    have hsame : s.edited = start.edited := hle'.eq_of_length (le_antisymm hle'.length_le hle.length_le)
    obtain ⟨objects, hsent, hcarry, hqueue⟩ := ih hsame
    obtain ⟨rfl, rfl⟩ := hpushed.without_edits (hedited.trans hsame.symm)
    have hall : s.ledger.unsynced = done ++ left := (List.append_nil _).symm.trans hpushed.queue
    rw [List.map_nil, List.append_nil, hqueue] at hdone
    have hleft : left = start.ledger.unsynced.drop ((k + 1) * PENDING_LIMIT) := by
      have hsplit : s.ledger.unsynced = done ++ start.ledger.unsynced.drop ((k + 1) * PENDING_LIMIT) := by
        rw [hdone, hqueue, Nat.succ_mul, ← List.drop_drop, List.take_append_drop]
      exact List.append_cancel_left (hall.symm.trans hsplit)
    refine ⟨objects ++ objects', ?_, ?_, ?_⟩
    · rw [hpushed.sent, hsent, List.append_assoc]
    · rw [Nat.succ_mul, List.take_add, ← hdone]
      exact hcarry.append hpushed.batched.carry
    · rw [hpushed.pending, List.map_nil, List.append_nil, hleft]

/-- A push puts the first operations that are pending, in stamp order and in batches named after their last operations, and
marks just what it has put; repeated, it leaves nothing pending and puts every operation once. -/
theorem push_batches (session : Session) :
    (∀ (start s : Outbox β) (result : Except SyncError ℕ),
      Ends Posts (EditsOutbox session.device) (push session) start result s →
      ∃ before after done left objects, PushEnded session start s before after done left objects ∧
        ∀ n, result = .ok n → n = done.length ∧ done = (start.ledger.unsynced ++ before.map unsent).take PENDING_LIMIT) ∧
    ∀ (k : ℕ) (start s : Outbox β), Pushes session k start s → s.edited = start.edited →
      ∃ objects, Drained session k start s objects := by
  refine ⟨fun start s result h => ?_, fun k start s h hedited => ?_⟩
  · cases result with
    | ok n =>
      obtain ⟨before, after, done, left, objects, hpushed, hn, hdone⟩ := ends_ok h
      refine ⟨before, after, done, left, objects, hpushed, fun m hm => ?_⟩
      cases hm
      exact ⟨hn, hdone⟩
    | error e =>
      obtain ⟨before, after, done, left, objects, hpushed⟩ := ends_error h
      exact ⟨before, after, done, left, objects, hpushed, nofun⟩
  · obtain ⟨objects, hsent, hcarry, hqueue⟩ := h.drained hedited
    have hsorted := start.ledger.unsynced_sorted
    have htaken := hsorted.sublist (List.take_sublist (k * PENDING_LIMIT) start.ledger.unsynced)
    refine ⟨objects, hsent, hcarry.batched htaken, hqueue, ?_, fun hlen => ⟨?_, ?_⟩⟩
    · rw [hcarry.operations]
      refine List.Nodup.map_on ?_ (htaken.imp (fun h heq => absurd (congrArg (fun o => o.hlc) heq) h.ne))
      intro a ha b hb heq
      have hlog := Table.eq_of_key_eq (Ledger.mem_unsynced.mp (List.mem_of_mem_take ha)).1
        (Ledger.mem_unsynced.mp (List.mem_of_mem_take hb)).1
      exact hlog (congrArg (fun o => o.hlc) heq)
    · rw [hqueue]
      exact List.drop_eq_nil_of_le hlen
    · rw [hcarry.operations, List.take_of_length_le hlen]

/-! ## A run -/

/-- Serve a request; `up` is whether the destination takes what is put. -/
def post (up : Bool) : (q : Request β) → Outbox β → Except SyncError q.Reply × Outbox β
  | .call (.put name bytes), s => if up then (.ok (), { s with sent := s.sent ++ [(name, bytes)] }) else (.error (.transport true), s)
  | .query .pendingOperations, s => (.ok (s.ledger.queryPending PENDING_LIMIT), s)
  | .query .randomIv, s => (.ok (0 : ℕ), s)
  | .query (.record _ _), s => (.ok (), s)
  | .query (.markSynced stamps), s => (.ok (), { s with ledger := s.ledger.markSynced stamps })
  | _, s => (.error .malformed, s)

/-- Whether a request is one of a push. -/
def ofPush : Request β → Outbox β → Outbox β → Bool
  | .call (.put _ _), _, _ => true
  | .query .pendingOperations, _, _ => true
  | .query .randomIv, _, _ => true
  | .query (.record _ _), _, _ => true
  | .query (.markSynced _), _, _ => true
  | _, _, _ => false

theorem posts_post {up : Bool} (q : Request β) (s : Outbox β) (h : ofPush q s (post up q s).2 = true) :
    Posts q s (post up q s).1 (post up q s).2 := by
  rcases q with c | q
  · cases c with
    | put name bytes =>
      cases up
      · exact Posts.failed s name bytes _
      · exact Posts.put s name bytes
    | _ => cases h
  · cases q with
    | pendingOperations => exact Posts.pending s
    | randomIv => exact Posts.randomIv s 0
    | record reason names => exact Posts.record s reason names
    | markSynced stamps => exact Posts.markSynced s stamps
    | _ => cases h

theorem ends_post {α : Type} {device : JsString} {up : Bool} (p : Sync β α) (s : Outbox β) (h : p.meets ofPush (post up) s = true) :
    Ends Posts (EditsOutbox device) p s (p.run (post up) s).1 (p.run (post up) s).2 :=
  Prog.ends_run posts_post p s h

/-- The device after a row was put. -/
def Outbox.afterPut (s : Outbox β) (device : JsString) (wall : ℕ) (e : EntityName) (id : JsString) (body : β) : Outbox β :=
  match s.ledger.put device wall e id body with
  | .ok (L, op) => { s with ledger := L, edited := s.edited ++ [op] }
  | .error _ => s

/-- The device after a row was removed. -/
def Outbox.afterRemove (s : Outbox β) (device : JsString) (wall : ℕ) (e : EntityName) (id : JsString) : Outbox β :=
  match s.ledger.remove device wall e id with
  | .ok (L, op) => { s with ledger := L, edited := s.edited ++ [op] }
  | .error _ => s

abbrev ownSession : Session := ⟨js "v", js "a"⟩

/-- A device that has put two rows and removed one of them. -/
def threeWrites : Outbox JsString :=
  ((Outbox.afterPut ⟨Ledger.empty, [], []⟩ (js "a") 5 .accounts (js "x") (js "Cash")).afterPut (js "a") 6 .accounts (js "y")
    (js "Card")).afterRemove (js "a") 7 .accounts (js "x")

def brokenOff : Outbox JsString := ((push ownSession).run (post false) threeWrites).2

def pushedOnce : Outbox JsString := ((push ownSession).run (post true) brokenOff).2

def pushedTwice : Outbox JsString := ((push ownSession).run (post true) pushedOnce).2

/-- A push fails, and what it read stays; the next one puts all of it, and the one after that has nothing to put. -/
theorem push_batches_threeWrites :
    (∃ before after done left objects, PushEnded ownSession threeWrites brokenOff before after done left objects) ∧
    brokenOff.sent = [] ∧ brokenOff.ledger.unsynced.length = 3 ∧
    (∃ objects, Drained ownSession 2 brokenOff pushedTwice objects) ∧
    pushedTwice.sent.length = 1 ∧ pushedTwice.ledger.unsynced.length = 0 := by
  have hbroken : Ends Posts (EditsOutbox (js "a")) (push ownSession) threeWrites (.error (.transport true)) brokenOff := by
    have hends := @ends_post _ _ (js "a") false (push ownSession) threeWrites (by decide +kernel)
    rwa [show ((push ownSession).run (post false) threeWrites).1 = .error (.transport true) by decide +kernel] at hends
  have hfirst : Ends Posts (EditsOutbox (js "a")) (push ownSession) brokenOff (.ok 3) pushedOnce := by
    have hends := @ends_post _ _ (js "a") true (push ownSession) brokenOff (by decide +kernel)
    rwa [show ((push ownSession).run (post true) brokenOff).1 = .ok 3 by decide +kernel] at hends
  have hsecond : Ends Posts (EditsOutbox (js "a")) (push ownSession) pushedOnce (.ok 0) pushedTwice := by
    have hends := @ends_post _ _ (js "a") true (push ownSession) pushedOnce (by decide +kernel)
    rwa [show ((push ownSession).run (post true) pushedOnce).1 = .ok 0 by decide +kernel] at hends
  obtain ⟨hone, hall⟩ := push_batches (β := JsString) ownSession
  obtain ⟨before, after, done, left, objects, hended, -⟩ := hone _ _ _ hbroken
  exact ⟨⟨before, after, done, left, objects, hended⟩, by decide +kernel, by decide +kernel,
    hall 2 _ _ (((Pushes.nil _).push hfirst).push hsecond) rfl, by decide +kernel, by decide +kernel⟩

end EasyDocket
