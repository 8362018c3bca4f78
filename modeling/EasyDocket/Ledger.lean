import EasyDocket.Oplog
import EasyDocket.Lib.Table
import Mathlib.Data.List.Sort
import Mathlib.Logic.Function.Basic

/-!
# The ledger

`LedgerService` over the tables of one device.  A write goes to its entity table and to the operation log in one
transaction, together with the clock; operations of other devices are merged by last writer wins.
-/

namespace EasyDocket

variable {β : Type}

/-- The tables of one device that the ledger works on, and its clock. -/
@[ext] structure Ledger (β : Type) where
  /-- The entity tables, keyed by `id`. -/
  tables : EntityName → Table (Row.id (β := β))
  /-- The operation log, keyed by `hlc`. -/
  oplog : Table (fun op : LocalOperation β => op.hlc)
  /-- The clock state kept under `hlc.state`. -/
  clockState : Option Clock
  /-- The clock in memory. -/
  clock : Clock

/-- How many unsent operations `pendingOperations` gives out at most. -/
def PENDING_LIMIT : ℕ := 5000

namespace Ledger

/-- A database nothing has been written to. -/
def empty : Ledger β := ⟨fun _ => Table.empty, Table.empty, none, Clock.zero⟩

/-- `initialise`: the clock is restored from disk. -/
def initialise (L : Ledger β) : Ledger β := { L with clock := L.clockState.getD Clock.zero }

/-- Write a row to the table of its entity. -/
def putRow (L : Ledger β) (e : EntityName) (r : Row β) : Ledger β :=
  { L with tables := Function.update L.tables e ((L.tables e).put r) }

/-- Remove a row from the table of its entity. -/
def deleteRow (L : Ledger β) (e : EntityName) (id : JsString) : Ledger β :=
  { L with tables := Function.update L.tables e ((L.tables e).delete id) }

/-- Write an operation to the log. -/
def log (L : Ledger β) (op : LocalOperation β) : Ledger β := { L with oplog := L.oplog.put op }

def persistClock (L : Ledger β) : Ledger β := { L with clockState := some L.clock }

/-- `put`: create or replace an entity, recording the operation. -/
def put (device : JsString) (wall : ℕ) (e : EntityName) (id : JsString) (body : β) (L : Ledger β) :
    Except ClockError (Ledger β × Operation β) := do
  let clock ← L.clock.tick wall
  let stamped : Row β := ⟨id, clock.stamp device, body⟩
  let op : Operation β := ⟨stamped.updatedAt, e, stamped.id, .put, some stamped, device⟩
  .ok ((({ L with clock }.putRow e stamped).log ⟨op, false⟩).persistClock, op)

/-- `remove`: the row goes, a tombstone stays in the log. -/
def remove (device : JsString) (wall : ℕ) (e : EntityName) (id : JsString) (L : Ledger β) :
    Except ClockError (Ledger β × Operation β) := do
  let clock ← L.clock.tick wall
  let op : Operation β := ⟨clock.stamp device, e, id, .delete, none, device⟩
  .ok ((({ L with clock }.deleteRow e id).log ⟨op, false⟩).persistClock, op)

/-- The greater of the stamps seen so far and the next one. -/
def newer (max : Option Stamp) (stamp : Stamp) : Option Stamp :=
  match max with
  | none => some stamp
  | some m => if m < stamp then some stamp else some m

/-- `latestStampFor`: the greatest stamp the log holds for an entity. -/
def latestStampFor (L : Ledger β) (e : EntityName) (id : JsString) : Option Stamp :=
  ((L.oplog.rows.filter (fun op => op.entity = e ∧ op.entityId = id)).map (fun op => op.hlc)).foldl newer none

/-- What merging one operation does to the tables; a `put` without a value is malformed and gives `none`. -/
def applyOperation (L : Ledger β) (op : Operation β) : Option (Ledger β) :=
  match op.op, op.value with
  | .delete, _ => some (L.deleteRow op.entity op.entityId)
  | .put, some r => some (L.putRow op.entity r)
  | .put, none => none

/-- Merge one operation, counting it if it was applied. -/
def mergeOne (acc : Ledger β × ℕ) (op : Operation β) : Ledger β × ℕ :=
  match acc.1.latestStampFor op.entity op.entityId with
  | some latest => if op.hlc ≤ latest then acc else apply acc op
  | none => apply acc op
where
  apply (acc : Ledger β × ℕ) (op : Operation β) : Ledger β × ℕ :=
    match acc.1.applyOperation op with
    | some L => (L.log ⟨op, true⟩, acc.2 + 1)
    | none => acc

/-- Operations in causal order. -/
def ordered (ops : List (Operation β)) : List (Operation β) := ops.insertionSort (fun a b => a.hlc ≤ b.hlc)

/-- `merge`: apply operations received from another device; the number applied. -/
def merge (ops : List (Operation β)) (L : Ledger β) : Ledger β × ℕ :=
  if ops = [] then (L, 0)
  else
    let (L', applied) := (ordered ops).foldl mergeOne (L, 0)
    (L'.persistClock, applied)

/-- `observe` one stamp after the other; `wall` gives the clock readings. -/
def observeAll (wall : ℕ → ℕ) : List Stamp → Clock → Except ClockError Unit × Clock
  | [], c => (.ok (), c)
  | s :: ss, c =>
    match c.observe (wall 0) s with
    | .ok c' => observeAll (fun n => wall (n + 1)) ss c'
    | .error e => (.error e, c)

/-- `observeStamps`: fold remote stamps into the clock. -/
def observeStamps (wall : ℕ → ℕ) (stamps : List Stamp) (L : Ledger β) : Except ClockError Unit × Ledger β :=
  ((observeAll wall stamps L.clock).1, { L with clock := (observeAll wall stamps L.clock).2 })

/-- The operations authored here that the remote has not seen, in stamp order. -/
def unsynced (L : Ledger β) : List (LocalOperation β) := L.oplog.rows.filter (fun op => !op.synced)

/-- `pendingOperations`: the first unsent operations; the index gives them in stamp order already. -/
def pendingOperations (L : Ledger β) : List (LocalOperation β) := L.unsynced.take PENDING_LIMIT

/-- The row of an operation after `{ synced: 1 }` has been written to the row `hlc`. -/
def setSynced (hlc : Stamp) (op : LocalOperation β) : LocalOperation β :=
  if op.hlc = hlc then { op with synced := true } else op

@[simp] theorem setSynced_hlc (hlc : Stamp) (op : LocalOperation β) : (setSynced hlc op).hlc = op.hlc := by
  unfold setSynced
  split_ifs <;> rfl

/-- One `oplog.update(hlc, { synced: 1 })`. -/
def markOne (L : Ledger β) (hlc : Stamp) : Ledger β :=
  { L with oplog := L.oplog.update (setSynced hlc) (setSynced_hlc hlc) }

/-- `markSynced`. -/
def markSynced (stamps : List Stamp) (L : Ledger β) : Ledger β := stamps.foldl markOne L

end Ledger

end EasyDocket
