import EasyDocket.Sync.ServerSite
import EasyDocket.Sync.Script
import EasyDocket.Sync.Naming
import EasyDocket.Sync.Batching

/-!
# The cycle after a push

What the next cycle of a device comes to, with the server as destination, over a transport that works and with nobody else at
work.  A push that stored its object and lost the response leaves an object under the name of the first unsent batch; the
next cycle seals the batch again, and the server sees other bytes.
-/

namespace EasyDocket

open SyncService

variable {D β : Type}

/-! ## Batches at the server -/

/-- The header of a batch with its newest stamp. -/
def batchHeader (session : Session) (head : Stamp) : EnvelopeHeader := ⟨session.vault, session.device, head, .ops⟩

/-- What is sealed in a batch. -/
def batchPayload (session : Session) (head : Stamp) (slice : List (LocalOperation β)) : Payload β :=
  .ops ⟨session.vault, session.device, head, slice.map LocalOperation.toOperation⟩

/-- The size of the object of a batch. -/
def batchSize (limits : ServerLimits β) (session : Session) (slice : List (LocalOperation β)) : ℕ :=
  match slice.getLast? with
  | none => 0
  | some last => limits.size (batchHeader session last.hlc) (batchPayload session last.hlc slice)

/-- The sealed object of a batch. -/
def batchObject (session : Session) (head : Stamp) (slice : List (LocalOperation β)) (iv : ℕ) : Envelope β :=
  ⟨batchHeader session head, iv, batchPayload session head slice⟩

theorem batchSize_eq (limits : ServerLimits β) (session : Session) {slice : List (LocalOperation β)} {last : LocalOperation β}
    (hlast : slice.getLast? = some last) (iv : ℕ) :
    batchSize limits session slice = limits.sizeOf (batchObject session last.hlc slice iv) := by
  unfold batchSize
  rw [hlast]
  rfl

/-- The batches the queue is sent in. -/
def Ledger.batches (L : Ledger β) : List (List (LocalOperation β)) := slices MAX_OPS_PER_BATCH L.unsynced.length L.unsynced

theorem batches_cons {L : Ledger β} (h : L.unsynced ≠ []) : ∃ fuel, L.batches =
    L.unsynced.take MAX_OPS_PER_BATCH :: slices MAX_OPS_PER_BATCH fuel (L.unsynced.drop MAX_OPS_PER_BATCH) := by
  unfold Ledger.batches
  cases hq : L.unsynced with
  | nil => exact absurd hq h
  | cons o rest => exact ⟨rest.length, rfl⟩

/-- A batch the server takes, if its name is unused and there is room. -/
structure Acceptable (limits : ServerLimits β) (session : Session) (slice : List (LocalOperation β)) : Prop where
  named : ∀ last, slice.getLast? = some last → takes (opsObjectName session.vault last.hlc) = true
  positive : 0 < batchSize limits session slice
  small : batchSize limits session slice ≤ limits.maxObjectSize

section Accepted

variable {limits : ServerLimits β} {session : Session} {slice : List (LocalOperation β)} {last : LocalOperation β}

/-- A server takes batches, one after the other. -/
structure Accepted (limits : ServerLimits β) (session : Session) (m : ObjectMap β) (batches : List (List (LocalOperation β))) :
    Prop where
  acceptable : ∀ slice ∈ batches, Acceptable limits session slice
  unused : ∀ slice ∈ batches, ∀ last, slice.getLast? = some last → m.get? (opsObjectName session.vault last.hlc) = none
  room : batches ≠ [] → limits.quota = 0 ∨ limits.usage m + (batches.map (batchSize limits session)).sum ≤ limits.quota

theorem Accepted.stores {m : ObjectMap β} {rest : List (List (LocalOperation β))} (h : Accepted limits session m (slice :: rest))
    (hlast : slice.getLast? = some last) (drawn : ℕ) :
    limits.Stores (opsObjectName session.vault last.hlc) (batchObject session last.hlc slice drawn) m := by
  obtain ⟨hnamed, hpositive, hsmall⟩ := h.acceptable slice List.mem_cons_self
  rw [batchSize_eq limits session hlast drawn] at hpositive hsmall
  refine ⟨hsmall, hpositive, hnamed last hlast, h.unused slice List.mem_cons_self last hlast,
    (h.room (List.cons_ne_nil _ _)).imp_right (fun hroom => ?_)⟩
  rw [List.map_cons, List.sum_cons, batchSize_eq limits session hlast drawn] at hroom
  omega

/-- One batch stored, the others are taken as before: their names are others. -/
theorem accepted_cons {m : ObjectMap β} {rest : List (List (LocalOperation β))} (hlast : slice.getLast? = some last)
    (hnames : ∀ other ∈ rest, ∀ l, other.getLast? = some l → l.hlc ≠ last.hlc) {drawn : ℕ}
    (h : limits.Stores (opsObjectName session.vault last.hlc) (batchObject session last.hlc slice drawn) m) :
    Accepted limits session m (slice :: rest) ↔
      Accepted limits session (m.put (opsObjectName session.vault last.hlc, batchObject session last.hlc slice drawn)) rest := by
  have hname : ∀ other ∈ rest, ∀ l, other.getLast? = some l →
      (m.put (opsObjectName session.vault last.hlc, batchObject session last.hlc slice drawn)).get?
        (opsObjectName session.vault l.hlc) = m.get? (opsObjectName session.vault l.hlc) := by
    intro other ho l hl
    rw [Table.get?_put, if_neg (fun heq => hnames other ho l hl (congrArg ObjectName.stamp heq))]
  have husage := ServerLimits.usage_put h
  have hsize := batchSize_eq limits session hlast drawn
  constructor
  · intro ha
    refine ⟨fun other ho => ha.acceptable other (List.mem_cons_of_mem _ ho), fun other ho l hl => ?_, ?_⟩
    · rw [hname other ho l hl]
      exact ha.unused other (List.mem_cons_of_mem _ ho) l hl
    · intro _
      have hroom := ha.room (List.cons_ne_nil _ _)
      rw [List.map_cons, List.sum_cons, hsize] at hroom
      rw [husage]
      omega
  · intro ha
    refine ⟨fun other ho => ?_, fun other ho l hl => ?_, ?_⟩
    · rcases List.mem_cons.mp ho with rfl | ho
      · refine ⟨fun l hl => ?_, hsize ▸ h.positive, hsize ▸ h.small⟩
        cases hlast.symm.trans hl
        exact h.taken
      · exact ha.acceptable other ho
    · rcases List.mem_cons.mp ho with rfl | ho
      · cases hlast.symm.trans hl
        exact h.unused
      · rw [← hname other ho l hl]
        exact ha.unused other ho l hl
    · intro _
      rw [List.map_cons, List.sum_cons, hsize, ← Nat.add_assoc, ← husage]
      cases rest with
      | nil =>
        rw [husage]
        exact h.room
      | cons other rest => exact ha.room (List.cons_ne_nil _ _)

end Accepted

/-! ## A device and the server -/

/-- A device and the objects at the server. -/
structure Desk (β : Type) where
  device : Device β
  objects : ObjectMap β

section Desk

variable [DecidableEq β] (limits : ServerLimits β) (wall : ℕ → ℕ) (iv : ObjectMap β → ℕ)

/-- Serve a request; `iv` draws the initialisation vectors. -/
def Desk.serve : (q : Request β) → Desk β → Except SyncError q.Reply × Desk β
  | .call c, k => ((limits.serve c k.objects).1, { k with objects := (limits.serve c k.objects).2 })
  | .query q, k => ((k.device.answer wall (iv k.objects) q).1, { k with device := (k.device.answer wall (iv k.objects) q).2 })

variable (session : Session) (k : Desk β)

/-- The objects of operations that a device has not applied yet. -/
def Desk.unapplied : List (ObjectName × Envelope β) :=
  k.objects.rows.filter (fun p => (p.1.vault = session.vault ∧ p.1.kind = .ops) ∧ p.1 ∉ k.device.remoteObjects)

/-- The objects of other devices among some. -/
def foreign (objects : List (ObjectName × Envelope β)) : List (ObjectName × Envelope β) :=
  objects.filter (fun p => p.2.header.d ≠ session.device)

/-- The heads a pull observes, and the operations it merges. -/
def Desk.heads : List Stamp := (foreign session (k.unapplied session)).map (fun p => p.2.header.h)

def Desk.incoming : List (Operation β) := (foreign session (k.unapplied session)).flatMap (fun p => p.2.operations)

/-- What a pull makes of the ledger. -/
def Desk.received : Except ClockError Unit × Ledger β :=
  ((k.device.ledger.observeStamps wall (k.heads session)).1,
    ((k.device.ledger.observeStamps wall (k.heads session)).2.merge (k.incoming session)).1)

end Desk

/-- Nothing keeps a device from sending all it has. -/
structure Unblocked [DecidableEq β] (limits : ServerLimits β) (session : Session) (wall : ℕ → ℕ) (k : Desk β) : Prop where
  /-- The clock accepts what others have written. -/
  clock : (k.received wall session).1 = .ok ()
  /-- One push is enough for the queue. -/
  short : k.device.ledger.unsynced.length ≤ PENDING_LIMIT
  /-- Nothing is stored under the name of the first batch. -/
  unused : ∀ last, (k.device.ledger.unsynced.take MAX_OPS_PER_BATCH).getLast? = some last →
    k.objects.get? (opsObjectName session.vault last.hlc) = none
  acceptable : ∀ slice ∈ k.device.ledger.batches, Acceptable limits session slice
  room : k.device.ledger.unsynced ≠ [] → limits.quota = 0 ∨
    limits.usage k.objects + (k.device.ledger.batches.map (batchSize limits session)).sum ≤ limits.quota
  /-- No snapshot is due; the server would not take it. -/
  few : ({ k.device with ledger := (k.received wall session).2 } : Device β).countSince k.device.lastSnapshot <
    SNAPSHOT_AFTER_OPERATIONS

/-- Every initialisation vector drawn is a new one. -/
def Fresh (iv : ObjectMap β → ℕ) : Prop := ∀ m : ObjectMap β, ∀ p ∈ m, p.2.iv ≠ iv m

/-! ## Pulling -/

/-- The objects of a vault at the server: names it has taken, and operations where the name says so. -/
structure Stocked (session : Session) (m : ObjectMap β) : Prop where
  uuid : IsUuid session.vault
  taken : Taken m
  batch : ∀ p ∈ m, p.1.kind = .ops → p.2.header.v = session.vault ∧ ∃ batch, p.2.payload = .ops batch

/-- There is no snapshot at the server. -/
theorem list_snapshot {session : Session} {m : ObjectMap β} (h : Stocked session m) : m.list session.vault .snapshot = [] := by
  refine List.eq_nil_iff_forall_not_mem.mpr (fun n hn => ?_)
  obtain ⟨⟨e, he⟩, hv, hk⟩ := ObjectMap.mem_list.mp hn
  have htaken := h.taken _ he
  rw [not_takes_snapshot (hv ▸ h.uuid) hk] at htaken
  cases htaken

/-- The names that a pull downloads. -/
theorem filter_list (session : Session) (k : Desk β) : (k.objects.list session.vault .ops).filter (· ∉ k.device.remoteObjects) =
    (k.unapplied session).map Prod.fst := by
  unfold ObjectMap.list Desk.unapplied
  rw [List.filter_map, List.filter_map, List.filter_filter]
  refine congrArg (List.map Prod.fst) (List.filter_congr (fun p _ => ?_))
  simp [and_comm]

theorem answer_observe (device : Device β) (wall : ℕ → ℕ) (coin : ℕ) (stamps : List Stamp) :
    device.answer wall coin (.observeStamps stamps) = ((device.ledger.observeStamps wall stamps).1.mapError .clock,
      { device with ledger := (device.ledger.observeStamps wall stamps).2 }) := by
  refine Prod.ext ?_ rfl
  unfold Device.answer
  cases h : (device.ledger.observeStamps wall stamps).1 with
  | ok u => simp only [h]; rfl
  | error e => simp only [h]; rfl

/-- A count depends on the stamps alone. -/
theorem countSince_congr {device device' : Device β}
    (h : device'.ledger.oplog.rows.map (fun o => o.hlc) = device.ledger.oplog.rows.map (fun o => o.hlc)) (last : Option Stamp) :
    device'.countSince last = device.countSince last := by
  have hcount : ∀ (p : Stamp → Bool) (rows : List (LocalOperation β)),
      (rows.filter (fun o => p o.hlc)).length = ((rows.map (fun o => o.hlc)).filter p).length := by
    intro p rows
    rw [List.filter_map, List.length_map]
    rfl
  have hsame : ∀ p : Stamp → Bool, (device'.ledger.oplog.rows.filter (fun o => p o.hlc)).length =
      (device.ledger.oplog.rows.filter (fun o => p o.hlc)).length := by
    intro p
    rw [hcount, hcount, h]
  unfold Device.countSince
  cases last with
  | some s => exact hsame (fun x => decide (s < x))
  | none => exact hsame (fun _ => true)

section Runs

variable [DecidableEq β] {limits : ServerLimits β} {wall : ℕ → ℕ} {iv : ObjectMap β → ℕ} {session : Session} {k : Desk β}

theorem serve_call {c : Call β} {r : Except SyncError c.Reply} {m : ObjectMap β} (h : limits.serve c k.objects = (r, m)) :
    k.serve limits wall iv (.call c) = (r, { k with objects := m }) :=
  congrArg (fun x => (x.1, { k with objects := x.2 })) h

theorem serve_list (h : Stocked session k.objects) (kind : ObjectKind) :
    k.serve limits wall iv (.call (.list session.vault kind)) = (.ok (k.objects.list session.vault kind), k) :=
  serve_call (ServerLimits.serve_list_of_lists (lists_of_uuid h.uuid kind))

theorem serve_get (h : Stocked session k.objects) {p : ObjectName × Envelope β} (hp : p ∈ k.objects) :
    k.serve limits wall iv (.call (.get p.1)) = (.ok p.2, k) :=
  serve_call (ServerLimits.serve_get_of_mem (h.taken p hp) hp)

theorem run_applySnapshot (h : Stocked session k.objects) (seen : Finset ObjectName) :
    (applySnapshot session seen).run (Desk.serve limits wall iv) k = (.ok (none, seen), k) := by
  unfold applySnapshot
  refine (Prog.run_request_bind (serve_list h .snapshot)).trans ?_
  rw [list_snapshot h]
  rfl

theorem serve_put {name : ObjectName} {bytes : Envelope β} {r : Except SyncError Unit} {m : ObjectMap β}
    (h : limits.put name bytes k.objects = (r, m)) :
    k.serve limits wall iv (.call (.put name bytes)) = (r, { k with objects := m }) :=
  congrArg (fun x => (x.1, { k with objects := x.2 })) h

/-- The download of objects that are there. -/
theorem run_download (h : Stocked session k.objects) : ∀ (objects : List (ObjectName × Envelope β)) (acc : Download β),
    (∀ p ∈ objects, p ∈ k.objects ∧ p.1.kind = .ops) →
      ((objects.map Prod.fst).foldlM (download session) acc).run (Desk.serve limits wall iv) k =
        (.ok ⟨acc.ops ++ (foreign session objects).flatMap (fun p => p.2.operations), acc.applied ++ objects.map Prod.fst,
          acc.heads ++ (foreign session objects).map (fun p => p.2.header.h)⟩, k)
  | [], acc, _ => by
    show (Except.ok acc, k) = _
    simp [foreign]
  | p :: objects, acc, hall => by
    obtain ⟨hp, hkind⟩ := hall p List.mem_cons_self
    obtain ⟨hv, batch, hbatch⟩ := h.batch p hp hkind
    have hops : p.2.operations = batch.ops := by
      unfold Envelope.operations
      rw [hbatch]
    have hopen : (openBatch p.2 : Sync β (OperationBatch β)) = .pure batch := by
      unfold openBatch
      rw [hbatch]
      rfl
    have hbody : (download session acc p.1).run (Desk.serve limits wall iv) k =
        (.ok (if p.2.header.d = session.device then { acc with applied := acc.applied ++ [p.1] }
          else ⟨acc.ops ++ batch.ops, acc.applied ++ [p.1], acc.heads ++ [p.2.header.h]⟩), k) := by
      unfold download
      refine (Prog.run_request_bind (serve_get h hp)).trans ?_
      rw [hopen, Prog.bind_def, Prog.pure_bind, if_neg (not_not.mpr hv)]
      split_ifs <;> rfl
    have hrest := fun acc => run_download h objects acc (fun p hp => hall p (List.mem_cons_of_mem _ hp))
    rw [List.map_cons, List.foldlM_cons, Prog.bind_def, Prog.run_bind, hbody]
    dsimp only
    rw [hrest]
    unfold foreign
    by_cases hown : p.2.header.d = session.device
    · rw [if_pos hown, List.filter_cons_of_neg (by simpa using hown)]
      simp only [List.append_assoc, List.singleton_append]
    · rw [if_neg hown, List.filter_cons_of_pos (by simpa using hown)]
      simp only [List.append_assoc, List.singleton_append, List.flatMap_cons, List.map_cons, hops]

theorem serve_query {q : Query β} {r : Except SyncError q.Reply} {device : Device β}
    (h : k.device.answer wall (iv k.objects) q = (r, device)) :
    k.serve limits wall iv (.query q) = (r, { k with device }) :=
  congrArg (fun x => (x.1, { k with device := x.2 })) h

/-- What a pull of some names comes to: the clock takes the heads, or the cycle ends there. -/
structure Pulled (session : Session) (wall : ℕ → ℕ) (k : Desk β) (r : Except SyncError ℕ) (device : Device β) : Prop where
  received : (k.received wall session).1 = .ok () → (∃ n, r = .ok n) ∧ device.ledger = (k.received wall session).2 ∧
    device.lastSnapshot = k.device.lastSnapshot
  refused : (k.received wall session).1 ≠ .ok () → ∃ e, r = .error e

theorem run_pullFresh (h : Stocked session k.objects) : ∃ r device, Pulled session wall k r device ∧
    (pullFresh session ((k.unapplied session).map Prod.fst)).run (Desk.serve limits wall iv) k =
      (r, { k with device }) := by
  by_cases hnil : k.unapplied session = []
  · have hreceived : k.received wall session = (.ok (), k.device.ledger) := by
      unfold Desk.received Desk.heads Desk.incoming
      rw [hnil]
      rfl
    refine ⟨.ok 0, k.device, ⟨fun _ => ⟨⟨0, rfl⟩, by rw [hreceived], rfl⟩, fun hne => absurd (by rw [hreceived]) hne⟩, ?_⟩
    rw [hnil]
    rfl
  · have hmem : ∀ p ∈ k.unapplied session, p ∈ k.objects ∧ p.1.kind = .ops := by
      intro p hp
      obtain ⟨hrow, hcond⟩ := List.mem_filter.mp hp
      have hcond := of_decide_eq_true hcond
      exact ⟨hrow, hcond.1.2⟩
    unfold pullFresh
    rw [if_neg (fun hmap => hnil (List.map_eq_nil_iff.mp hmap)), Prog.bind_def, Prog.run_bind, run_download h _ _ hmem]
    simp only [List.nil_append]
    have hanswer := answer_observe k.device wall (iv k.objects) (k.heads session)
    cases hobserved : (k.device.ledger.observeStamps wall (k.heads session)).1 with
    | ok u =>
      rw [hobserved] at hanswer
      refine ⟨.ok ((k.device.ledger.observeStamps wall (k.heads session)).2.merge (k.incoming session)).2, { k.device with
        ledger := (k.received wall session).2
        remoteObjects := k.device.remoteObjects ∪ ((k.unapplied session).map Prod.fst).toFinset }, ?_, ?_⟩
      · exact ⟨fun _ => ⟨⟨_, rfl⟩, rfl, rfl⟩, fun hne => absurd hobserved hne⟩
      · exact (Prog.run_request_bind (serve_query hanswer)).trans rfl
    | error e =>
      rw [hobserved] at hanswer
      exact ⟨.error (.clock e), _, ⟨fun hok => absurd (hobserved.symm.trans hok) nofun, fun _ => ⟨_, rfl⟩⟩,
        Prog.run_request_fails (serve_query hanswer)⟩

theorem run_pull (h : Stocked session k.objects) : ∃ r device, Pulled session wall k r device ∧
    (pull session).run (Desk.serve limits wall iv) k = (r, { k with device }) := by
  obtain ⟨r, device, hpulled, hrun⟩ := @run_pullFresh β _ limits wall iv session k h
  refine ⟨r, device, hpulled, ?_⟩
  unfold pull
  refine (Prog.run_request_bind (serve_query rfl)).trans ?_
  rw [Prog.bind_def, Prog.run_bind, run_applySnapshot h]
  unfold pullOps
  refine (Prog.run_request_bind (serve_list h .ops)).trans ?_
  have hcovered : ((k.unapplied session).map Prod.fst).filter (skipped none) = [] :=
    List.filter_eq_nil_iff.mpr (fun _ _ => Bool.false_ne_true)
  have hfresh : ((k.unapplied session).map Prod.fst).filter (fun name => !skipped none name) = (k.unapplied session).map Prod.fst :=
    List.filter_eq_self.mpr (fun _ _ => rfl)
  dsimp only
  rw [filter_list, hcovered, hfresh, if_neg (not_not.mpr rfl)]
  exact hrun

/-! ## Pushing -/

/-- What a device has once a batch is sent. -/
def Desk.sent (k : Desk β) (name : ObjectName) (bytes : Envelope β) (slice : List (LocalOperation β)) : Desk β :=
  ⟨{ k.device with
      ledger := k.device.ledger.markSynced (slice.map (fun op => op.hlc))
      remoteObjects := k.device.remoteObjects ∪ [name].toFinset }, k.objects.put (name, bytes)⟩

theorem run_sealJson (header : EnvelopeHeader) (payload : Payload β) :
    (sealJson header payload).run (Desk.serve limits wall iv) k = (.ok ⟨header, iv k.objects, payload⟩, k) :=
  (Prog.run_request_bind (serve_query rfl)).trans rfl

section Slice

variable {slice : List (LocalOperation β)} {last : LocalOperation β}

theorem run_pushSlice_ok (hlast : slice.getLast? = some last) (pushed : ℕ)
    (h : limits.Stores (opsObjectName session.vault last.hlc) (batchObject session last.hlc slice (iv k.objects)) k.objects) :
    (pushSlice session pushed slice).run (Desk.serve limits wall iv) k =
      (.ok (pushed + slice.length), k.sent (opsObjectName session.vault last.hlc)
        (batchObject session last.hlc slice (iv k.objects)) slice) := by
  unfold pushSlice
  rw [hlast]
  dsimp only
  rw [Prog.bind_def, Prog.run_bind, run_sealJson]
  dsimp only
  refine (Prog.run_request_bind (serve_put (ServerLimits.put_of_stores h))).trans ?_
  refine (Prog.run_request_bind (serve_query rfl)).trans ?_
  refine (Prog.run_request_bind (serve_query rfl)).trans ?_
  rw [List.length_map]
  rfl

theorem run_pushSlice_error (hlast : slice.getLast? = some last) (pushed : ℕ) {e : SyncError}
    (h : limits.put (opsObjectName session.vault last.hlc) (batchObject session last.hlc slice (iv k.objects)) k.objects =
      (.error e, k.objects)) :
    (pushSlice session pushed slice).run (Desk.serve limits wall iv) k = (.error e, k) := by
  unfold pushSlice
  rw [hlast]
  dsimp only
  rw [Prog.bind_def, Prog.run_bind, run_sealJson]
  dsimp only
  exact Prog.run_request_fails (serve_put h)

/-- What a device has left once its batches are sent. -/
structure Sent (k k' : Desk β) (left : List (LocalOperation β)) : Prop where
  unsynced : k'.device.ledger.unsynced = left
  lastSnapshot : k'.device.lastSnapshot = k.device.lastSnapshot
  stamps : k'.device.ledger.oplog.rows.map (fun o => o.hlc) = k.device.ledger.oplog.rows.map (fun o => o.hlc)

end Slice

/-- Batches the server takes are sent; if it does not take them all, the push ends with an error.  By induction on the batches. -/
theorem run_slices (hiv : Fresh iv) : ∀ (batches : List (List (LocalOperation β))) (pushed : ℕ) (k : Desk β)
    (left : List (LocalOperation β)), (∀ slice ∈ batches, slice ≠ []) → k.device.ledger.unsynced = batches.flatten ++ left →
    (Accepted limits session k.objects batches → ∃ n k', Sent k k' left ∧
      (batches.foldlM (pushSlice session) pushed).run (Desk.serve limits wall iv) k = (.ok n, k')) ∧
    (¬ Accepted limits session k.objects batches → ∃ e k',
      (batches.foldlM (pushSlice session) pushed).run (Desk.serve limits wall iv) k = (.error e, k'))
  | [], pushed, k, left, _, hqueue => by
    refine ⟨fun _ => ⟨pushed, k, ⟨hqueue, rfl, rfl⟩, rfl⟩, fun hno => absurd ?_ hno⟩
    exact ⟨fun slice hs => absurd hs List.not_mem_nil, fun slice hs => absurd hs List.not_mem_nil, fun hne => absurd rfl hne⟩
  | slice :: rest, pushed, k, left, hne, hqueue => by
    obtain ⟨last, hlast⟩ := List.getLast?_isSome.mpr (hne slice List.mem_cons_self) |> Option.isSome_iff_exists.mp
    rw [List.flatten_cons, List.append_assoc] at hqueue
    have hsorted := k.device.ledger.unsynced_sorted
    rw [hqueue] at hsorted
    have hnames : ∀ other ∈ rest, ∀ l, other.getLast? = some l → l.hlc ≠ last.hlc := by
      intro other ho l hl
      have hmem : l ∈ rest.flatten ++ left := List.mem_append_left _ (List.mem_flatten.mpr ⟨other, ho, List.mem_of_getLast? hl⟩)
      exact ((List.pairwise_append.mp hsorted).2.2 last (List.mem_of_getLast? hlast) l hmem).ne'
    rw [List.foldlM_cons, Prog.bind_def]
    rcases ServerLimits.put_cases limits (opsObjectName session.vault last.hlc)
      (batchObject session last.hlc slice (iv k.objects)) k.objects with ⟨hstores, -⟩ | ⟨-, hmem, -⟩ | ⟨e, hput⟩
    · have hnext := run_slices hiv rest (pushed + slice.length) (k.sent (opsObjectName session.vault last.hlc)
        (batchObject session last.hlc slice (iv k.objects)) slice) left (fun slice hs => hne slice (List.mem_cons_of_mem _ hs))
        (Ledger.unsynced_markSynced hqueue)
      rw [Prog.run_bind, run_pushSlice_ok hlast pushed hstores, accepted_cons hlast hnames hstores]
      refine ⟨fun h => ?_, hnext.2⟩
      obtain ⟨n, k', hsent, hrun⟩ := hnext.1 h
      refine ⟨n, k', ⟨hsent.unsynced, hsent.lastSnapshot, hsent.stamps.trans ?_⟩, hrun⟩
      exact Ledger.stamps_markSynced _
    · exact absurd rfl (hiv k.objects _ hmem)
    · refine ⟨fun h => ?_, fun _ => ⟨e, k, ?_⟩⟩
      · rw [ServerLimits.put_of_stores (h.stores hlast (iv k.objects))] at hput
        cases hput
      · rw [Prog.run_bind, run_pushSlice_error hlast pushed hput]

/-! ## Snapshots -/

theorem run_readTables : ∀ (names : List EntityName) (entities : EntityName → List (Row β)),
    ∃ read, (names.foldlM readInto entities).run (Desk.serve limits wall iv) k = (.ok read, k)
  | [], entities => ⟨entities, rfl⟩
  | e :: names, entities => by
    obtain ⟨read, hrun⟩ := run_readTables names (Function.update entities e (k.device.ledger.tables e).rows)
    refine ⟨read, ?_⟩
    rw [List.foldlM_cons, Prog.bind_def, Prog.run_bind]
    exact hrun

/-- The server takes no snapshot: a cycle that is to write one ends with an error. -/
theorem run_maybeSnapshot (hv : IsUuid session.vault) :
    (k.device.countSince k.device.lastSnapshot < SNAPSHOT_AFTER_OPERATIONS →
      (maybeSnapshot session).run (Desk.serve limits wall iv) k = (.ok (), k)) ∧
    (¬ k.device.countSince k.device.lastSnapshot < SNAPSHOT_AFTER_OPERATIONS →
      ∃ e, (maybeSnapshot session).run (Desk.serve limits wall iv) k = (.error e, k)) := by
  have hstart : (maybeSnapshot session).run (Desk.serve limits wall iv) k =
      (if k.device.countSince k.device.lastSnapshot < SNAPSHOT_AFTER_OPERATIONS then pure () else writeSnapshot session).run
        (Desk.serve limits wall iv) k := by
    unfold maybeSnapshot
    refine (Prog.run_request_bind (serve_query rfl)).trans ?_
    exact (Prog.run_request_bind (serve_query rfl)).trans rfl
  rw [hstart]
  refine ⟨fun h => by rw [if_pos h]; rfl, fun h => ?_⟩
  rw [if_neg h]
  unfold writeSnapshot
  cases hlast : k.device.ledger.oplog.rows.getLast? with
  | none =>
    have hcount : k.device.countSince k.device.lastSnapshot = 0 := by
      unfold Device.countSince
      rw [List.getLast?_eq_none_iff.mp hlast]
      rfl
    rw [hcount] at h
    exact absurd (by decide) h
  | some last =>
    obtain ⟨read, hread⟩ := @run_readTables β _ limits wall iv k ENTITY_NAMES (fun _ => [])
    have hno : takes (snapshotObjectName session.vault last.hlc) = false := not_takes_snapshot hv rfl
    have hput : ∀ bytes, ∃ e, limits.put (snapshotObjectName session.vault last.hlc) bytes k.objects = (.error e, k.objects) := by
      intro bytes
      rcases ServerLimits.put_cases limits (snapshotObjectName session.vault last.hlc) bytes k.objects with
        ⟨hstores, -⟩ | ⟨htaken, -⟩ | herror
      · exact absurd (hstores.taken.symm.trans hno) Bool.noConfusion
      · exact absurd (htaken.symm.trans hno) Bool.noConfusion
      · exact herror
    obtain ⟨e, herror⟩ := hput ⟨⟨session.vault, session.device, last.hlc, .snapshot⟩, iv k.objects,
      .snapshot ⟨session.vault, session.device, last.hlc, read, k.device.ledger.oplog.rows.length⟩⟩
    refine ⟨e, (Prog.run_request_bind (serve_query rfl)).trans ?_⟩
    rw [hlast]
    dsimp only
    rw [Prog.bind_def, Prog.run_bind, hread]
    dsimp only
    rw [Prog.bind_def, Prog.run_bind, run_sealJson]
    exact Prog.run_request_fails (serve_put herror)

/-! ## The whole cycle -/

theorem run_push (hiv : Fresh iv) :
    (Accepted limits session k.objects (slices MAX_OPS_PER_BATCH k.device.ledger.pendingOperations.length k.device.ledger.pendingOperations) →
      ∃ n k', Sent k k' (k.device.ledger.unsynced.drop PENDING_LIMIT) ∧
        (push session).run (Desk.serve limits wall iv) k = (.ok n, k')) ∧
    (¬ Accepted limits session k.objects (slices MAX_OPS_PER_BATCH k.device.ledger.pendingOperations.length k.device.ledger.pendingOperations) →
      ∃ e k', (push session).run (Desk.serve limits wall iv) k = (.error e, k')) := by
  have hstart : (push session).run (Desk.serve limits wall iv) k =
      ((slices MAX_OPS_PER_BATCH k.device.ledger.pendingOperations.length k.device.ledger.pendingOperations).foldlM
        (pushSlice session) 0).run (Desk.serve limits wall iv) k := by
    unfold push
    exact (Prog.run_request_bind (serve_query rfl)).trans rfl
  rw [hstart]
  refine run_slices hiv _ 0 k _ (fun slice hs => (length_of_mem_slices (by decide) hs).1) ?_
  rw [flatten_slices (by decide) le_rfl]
  exact (List.take_append_drop _ _).symm

/-- A cycle ends without error and with nothing pending if the clock takes the heads, the server the batches, one push is
enough and no snapshot is due. -/
theorem run_runCycle (h : Stocked session k.objects) (hiv : Fresh iv)
    (hqueue : (k.received wall session).2.unsynced = k.device.ledger.unsynced) :
    (((runCycle session).run (Desk.serve limits wall iv) k).1 = .ok () ∧
      ((runCycle session).run (Desk.serve limits wall iv) k).2.device.ledger.pendingOperations = []) ↔
    (k.received wall session).1 = .ok () ∧
      Accepted limits session k.objects (slices MAX_OPS_PER_BATCH k.device.ledger.pendingOperations.length k.device.ledger.pendingOperations) ∧
      ({ k.device with ledger := (k.received wall session).2 } : Device β).countSince k.device.lastSnapshot <
        SNAPSHOT_AFTER_OPERATIONS ∧
      k.device.ledger.unsynced.length ≤ PENDING_LIMIT := by
  obtain ⟨r, device, hpulled, hpull⟩ := @run_pull β _ limits wall iv session k h
  unfold runCycle
  simp only [Prog.bind_def]
  rw [Prog.run_bind, hpull]
  by_cases hclock : (k.received wall session).1 = .ok ()
  · obtain ⟨⟨n, rfl⟩, hledger, hlast⟩ := hpulled.received hclock
    have hqueue' : device.ledger.unsynced = k.device.ledger.unsynced := by rw [hledger, hqueue]
    have hpending : device.ledger.pendingOperations = k.device.ledger.pendingOperations := by
      unfold Ledger.pendingOperations
      rw [hqueue']
    have hpush := @run_push β _ limits wall iv session { k with device } hiv
    dsimp only at hpush ⊢
    rw [hpending, hqueue'] at hpush
    rw [Prog.run_bind]
    by_cases haccepted : Accepted limits session k.objects
        (slices MAX_OPS_PER_BATCH k.device.ledger.pendingOperations.length k.device.ledger.pendingOperations)
    · obtain ⟨n', k', hsent, hrun⟩ := hpush.1 haccepted
      have hcount : k'.device.countSince k'.device.lastSnapshot =
          ({ k.device with ledger := (k.received wall session).2 } : Device β).countSince k.device.lastSnapshot := by
        rw [hsent.lastSnapshot, hlast]
        refine countSince_congr (hsent.stamps.trans ?_) _
        show device.ledger.oplog.rows.map (fun o => o.hlc) = _
        rw [hledger]
      have hleft : k'.device.ledger.pendingOperations = [] ↔ k.device.ledger.unsynced.length ≤ PENDING_LIMIT := by
        unfold Ledger.pendingOperations
        rw [hsent.unsynced, List.take_eq_nil_iff, List.drop_eq_nil_iff]
        exact or_iff_right (by decide)
      have hsnapshot := @run_maybeSnapshot β _ limits wall iv session k' h.uuid
      rw [hcount] at hsnapshot
      rw [hrun]
      dsimp only
      rw [Prog.run_bind]
      by_cases hfew : ({ k.device with ledger := (k.received wall session).2 } : Device β).countSince k.device.lastSnapshot <
          SNAPSHOT_AFTER_OPERATIONS
      · rw [hsnapshot.1 hfew]
        exact ⟨fun hok => ⟨hclock, haccepted, hfew, hleft.mp hok.2⟩, fun hok => ⟨rfl, hleft.mpr hok.2.2.2⟩⟩
      · obtain ⟨e, herror⟩ := hsnapshot.2 hfew
        rw [herror]
        refine ⟨fun hok => ?_, fun hok => absurd hok.2.2.1 hfew⟩
        cases hok.1
    · obtain ⟨e, k', hrun⟩ := hpush.2 haccepted
      rw [hrun]
      refine ⟨fun hok => ?_, fun hok => absurd hok.2.1 haccepted⟩
      cases hok.1
  · obtain ⟨e, rfl⟩ := hpulled.refused hclock
    refine ⟨fun hok => ?_, fun hok => absurd hok.1 hclock⟩
    cases hok.1

end Runs

/-! ## After any run -/

section World

variable [DecidableEq β] {V : Vault D} {limits : ServerLimits β} {d : D} {wall : ℕ → ℕ} {iv : ObjectMap β → ℕ}
  {s : Store D β (ObjectMap β)}

/-- What a device sees of the system. -/
def deskOf (d : D) (s : Store D β (ObjectMap β)) : Desk β := ⟨s.device d, s.dest⟩

theorem stocked_of_sound (hv : IsUuid V.vaultId) (hs : Sound V (serverSite D limits) s) (ht : Taken s.dest) :
    Stocked (V.session d) s.dest := by
  refine ⟨hv, ht, fun p hp hk => ?_⟩
  obtain ⟨a, ops, hobj⟩ := (hs.made p.1 p.2 (hs.held hp)).ops_of_kind hk
  exact ⟨by rw [hobj.header]; rfl, _, hobj.payload⟩

/-- A pull leaves what is unsent alone. -/
theorem unsynced_received (hs : Sound V (serverSite D limits) s) :
    ((deskOf d s).received wall (V.session d)).2.unsynced = (s.device d).ledger.unsynced := by
  have hops : ∀ op ∈ (deskOf d s).incoming (V.session d), Authored s.ghost.authored op := by
    intro op hop
    obtain ⟨p, hp, hop⟩ := List.mem_flatMap.mp hop
    have hstored := hs.held (List.mem_of_mem_filter (List.mem_of_mem_filter hp))
    exact (hs.made p.1 p.2 hstored).authored op hop
  have hcoherent := hs.writes.coherent (L := ((s.device d).ledger.observeStamps wall ((deskOf d s).heads (V.session d))).2)
    (hs.devices d).logged hops
  exact (Ledger.merge_merged (fun op hop => hs.writes.carries_of (hops op hop)) hcoherent).unsynced

/-- A stored object under the name of a batch is an earlier try to send the first batch. -/
theorem mem_take_of_used (hs : Sound V (serverSite D limits) s) {last : LocalOperation β}
    (hlast : last ∈ (s.device d).ledger.unsynced) {bytes : Envelope β}
    (hused : (opsObjectName V.vaultId last.hlc, bytes) ∈ s.dest) :
    last ∈ (s.device d).ledger.unsynced.take MAX_OPS_PER_BATCH := by
  have hstored := hs.held hused
  have hfront := hs.front d _ bytes ⟨hstored, rfl, last, hlast, rfl⟩
  obtain ⟨a, ops, hobj⟩ := (hs.made _ bytes hstored).ops_of_kind rfl
  obtain ⟨x, hx, hhead⟩ := hobj.head
  rw [hobj.operations, List.prefix_iff_eq_take] at hfront
  have hmem : x ∈ ((s.device d).ledger.unsynced.map LocalOperation.toOperation).take MAX_OPS_PER_BATCH := by
    rw [hfront] at hx
    exact List.take_subset_take_left _ hobj.small hx
  rw [← List.map_take] at hmem
  obtain ⟨o, ho, rfl⟩ := List.mem_map.mp hmem
  have hsame := Table.eq_of_key_eq (Ledger.mem_unsynced.mp (List.mem_of_mem_take ho)).1 (Ledger.mem_unsynced.mp hlast).1 hhead
  exact hsame ▸ ho

/-- With the name of the first batch unused, the names of all are. -/
theorem unused_of_first (hs : Sound V (serverSite D limits) s)
    (hfirst : ∀ last, ((s.device d).ledger.unsynced.take MAX_OPS_PER_BATCH).getLast? = some last →
      s.dest.get? (opsObjectName V.vaultId last.hlc) = none) :
    ∀ slice ∈ (s.device d).ledger.batches, ∀ last, slice.getLast? = some last →
      s.dest.get? (opsObjectName V.vaultId last.hlc) = none := by
  intro slice hslice last hlast
  cases hget : s.dest.get? (opsObjectName V.vaultId last.hlc) with
  | none => rfl
  | some p =>
    obtain ⟨hp, hname⟩ := Table.get?_eq_some.mp hget
    have hmem : last ∈ (s.device d).ledger.unsynced := mem_of_mem_slices hslice last (List.mem_of_getLast? hlast)
    have hused : (opsObjectName V.vaultId last.hlc, p.2) ∈ s.dest := hname ▸ hp
    have htake := mem_take_of_used hs hmem hused
    obtain ⟨fuel, hbatches⟩ := batches_cons (List.ne_nil_of_mem hmem)
    rw [hbatches] at hslice
    rcases List.mem_cons.mp hslice with rfl | hslice
    · rw [hfirst last hlast] at hget
      cases hget
    · have hdrop := mem_of_mem_slices hslice last (List.mem_of_getLast? hlast)
      have hsorted := (s.device d).ledger.unsynced_sorted
      rw [← List.take_append_drop MAX_OPS_PER_BATCH (s.device d).ledger.unsynced] at hsorted
      exact absurd ((List.pairwise_append.mp hsorted).2.2 last htake last hdrop) (lt_irrefl _)

/-- One push is enough, and the server takes all its batches. -/
theorem accepted_iff (hs : Sound V (serverSite D limits) s) :
    Accepted limits (V.session d) s.dest (s.device d).ledger.batches ↔
      (∀ last, ((s.device d).ledger.unsynced.take MAX_OPS_PER_BATCH).getLast? = some last →
        s.dest.get? (opsObjectName V.vaultId last.hlc) = none) ∧
      (∀ slice ∈ (s.device d).ledger.batches, Acceptable limits (V.session d) slice) ∧
      ((s.device d).ledger.unsynced ≠ [] → limits.quota = 0 ∨
        limits.usage s.dest + ((s.device d).ledger.batches.map (batchSize limits (V.session d))).sum ≤ limits.quota) := by
  have hnil : (s.device d).ledger.batches ≠ [] ↔ (s.device d).ledger.unsynced ≠ [] := by
    refine ⟨fun h hq => h ?_, fun h => ?_⟩
    · unfold Ledger.batches
      rw [hq]
      rfl
    · obtain ⟨fuel, hbatches⟩ := batches_cons h
      rw [hbatches]
      exact List.cons_ne_nil _ _
  constructor
  · intro h
    refine ⟨fun last hlast => ?_, h.acceptable, fun hne => h.room (hnil.mpr hne)⟩
    have hne : (s.device d).ledger.unsynced ≠ [] := by
      rintro hq
      rw [hq] at hlast
      cases hlast
    obtain ⟨fuel, hbatches⟩ := batches_cons hne
    exact h.unused _ (hbatches ▸ List.mem_cons_self) last hlast
  · rintro ⟨hfirst, hacceptable, hroom⟩
    exact ⟨hacceptable, unused_of_first hs hfirst, fun hne => hroom (hnil.mp hne)⟩

variable [DecidableEq D]

/-- The next cycle of a device. -/
def nextCycle (V : Vault D) (limits : ServerLimits β) (d : D) (wall : ℕ → ℕ)
    (iv : ObjectMap β → ℕ) (s : Store D β (ObjectMap β)) : Except SyncError Unit × Store D β (ObjectMap β) :=
  (runCycle (V.session d)).run (fun q s => serve (serverSite D limits) d wall (iv s.dest) q s)
    ((world V (serverSite D limits)).enter d s)

/-- The next cycle ends without error and leaves nothing pending. -/
def Drains (V : Vault D) (limits : ServerLimits β) (d : D) (wall : ℕ → ℕ)
    (iv : ObjectMap β → ℕ) (s : Store D β (ObjectMap β)) : Prop :=
  (nextCycle V limits d wall iv s).1 = .ok () ∧
    ((nextCycle V limits d wall iv s).2.device d).ledger.pendingOperations = []

theorem desk_serve (q : Request β) : Desk.serve limits wall iv q (deskOf d s) =
    ((serve (serverSite D limits) d wall (iv s.dest) q s).1, deskOf d (serve (serverSite D limits) d wall (iv s.dest) q s).2) := by
  cases q with
  | call c => rfl
  | query q => exact Prod.ext rfl (congrArg (fun device => Desk.mk device s.dest) afterQuery_device.symm)

theorem nextCycle_desk :
    (runCycle (V.session d)).run (Desk.serve limits wall iv) (deskOf d s) =
      ((nextCycle V limits d wall iv s).1, deskOf d (nextCycle V limits d wall iv s).2) := by
  have hstep : ∀ (q : Request β) (s : Store D β (ObjectMap β)), Desk.serve limits wall iv q (deskOf d s) =
      ((serve (serverSite D limits) d wall (iv s.dest) q s).1,
        deskOf d (serve (serverSite D limits) d wall (iv s.dest) q s).2) := fun q s => desk_serve q
  exact Prog.run_map hstep (runCycle (V.session d)) ((world V (serverSite D limits)).enter d s)

/-- In every state the system reaches, the next cycle of a device finishes without error and leaves nothing pending if and only
if nothing blocks it. -/
theorem drains_iff (hv : IsUuid V.vaultId) (hiv : Fresh iv) {c : State D β (ObjectMap β)}
    (h : (world V (serverSite D limits)).Reach (start Table.empty) c) :
    Drains V limits d wall iv c.store ↔ Unblocked limits (V.session d) wall (deskOf d c.store) := by
  have hempty : (serverSite D limits).holds (Table.empty : ObjectMap β) = ∅ := mapSite_empty (D := D)
  have hs := ((soundRuns V (serverSite D limits)).reach (Threads.kept_of_idle (sound_initial hempty) (fun _ => rfl)) h).1
  have hstocked := stocked_of_sound (d := d) hv hs (taken_reach h)
  have hrun := @run_runCycle β _ limits wall iv (V.session d) (deskOf d c.store) hstocked hiv (unsynced_received hs)
  have haccepted := @accepted_iff D β _ V limits d c.store hs
  rw [nextCycle_desk] at hrun
  have hpending : (c.store.device d).ledger.unsynced.length ≤ PENDING_LIMIT →
      (c.store.device d).ledger.pendingOperations = (c.store.device d).ledger.unsynced := List.take_of_length_le
  constructor
  · intro hdrains
    obtain ⟨hclock, htaken, hfew, hshort⟩ := hrun.mp hdrains
    rw [show (deskOf d c.store).device.ledger.pendingOperations = _ from hpending hshort] at htaken
    obtain ⟨hunused, hacceptable, hroom⟩ := haccepted.mp htaken
    exact ⟨hclock, hshort, hunused, hacceptable, hroom, hfew⟩
  · rintro ⟨hclock, hshort, hunused, hacceptable, hroom, hfew⟩
    refine hrun.mpr ⟨hclock, ?_, hfew, hshort⟩
    rw [show (deskOf d c.store).device.ledger.pendingOperations = _ from hpending hshort]
    exact haccepted.mpr ⟨hunused, hacceptable, hroom⟩

end World

/-! ## A lost response -/

/-- The put a device is about to ask is served, and its response is lost. -/
def loseResponse {S : Type} [DecidableEq D] (site : Site D β S) (d : D) (c : State D β S) : State D β S :=
  match c.running d with
  | some (.ask (.call (.put name bytes)) k) =>
    ⟨c.store.afterCall site d (.put name bytes) (site.serve d (.put name bytes) c.store.dest).2,
      Function.update c.running d (some (k (.error (.transport true))))⟩
  | _ => c

theorem reach_loseResponse [DecidableEq D] [DecidableEq β] {V : Vault D} {limits : ServerLimits β} (d : D)
    (c : State D β (ObjectMap β)) :
    (world V (serverSite D limits)).Reach c (loseResponse (serverSite D limits) d c) := by
  unfold loseResponse
  split
  · rename_i name bytes k h
    exact Relation.ReflTransGen.single (Threads.Step.ask c d _ k _ _ h (Or.inr (Mishap.failed _ c.store _ true (Or.inr rfl))))
  · exact Relation.ReflTransGen.refl

/-- A vector greater than all that were drawn. -/
def nextIv (m : ObjectMap β) : ℕ := (m.rows.map (fun p => p.2.iv)).sum + 1

theorem fresh_nextIv : Fresh (nextIv (β := β)) := by
  intro m p hp
  have hle : p.2.iv ≤ (m.rows.map (fun p => p.2.iv)).sum := List.le_sum_of_mem (List.mem_map_of_mem hp)
  exact (Nat.lt_succ_of_le hle).ne

/-- Limits nothing here comes near to. -/
def roomy : ServerLimits Unit := ⟨fun _ _ => 400, 8388608, 0⟩

/-- One edit, and a push that was stored; its response was lost. -/
def lostResponse : State Unit Unit (ObjectMap Unit) :=
  play lone (serverSite Unit roomy) (loseResponse (serverSite Unit roomy) ()
    ([.put () 1700000000000 .accounts (js "x") (), .begin (), .ask () 1700000000000 5].foldl
      (play lone (serverSite Unit roomy)) (start Table.empty))) (.finish () 1700000000000)

theorem reach_lostResponse : (world lone (serverSite Unit roomy)).Reach (start Table.empty) lostResponse :=
  ((reach_play _).trans (reach_loseResponse () _)).trans (reach_play [.finish () 1700000000000])

theorem drains_iff_lostResponse : Drains lone roomy () (fun _ => 1700000000000) nextIv lostResponse.store ↔
    Unblocked roomy (lone.session ()) (fun _ => 1700000000000) (deskOf () lostResponse.store) :=
  drains_iff (by decide +kernel) fresh_nextIv reach_lostResponse

/-- The next cycle fails: the server has the operation already, sealed under another vector. -/
theorem exists_not_drains : ∃ c, (world lone (serverSite Unit roomy)).Reach (start Table.empty) c ∧ c.running () = none ∧
    ¬ Drains lone roomy () (fun _ => 1700000000000) nextIv c.store := by
  refine ⟨lostResponse, reach_lostResponse, by decide +kernel, fun h => ?_⟩
  have hfails : (nextCycle lone roomy () (fun _ => 1700000000000) nextIv lostResponse.store).1.toBool = false := by
    decide +kernel
  rw [h.1] at hfails
  cases hfails

end EasyDocket
