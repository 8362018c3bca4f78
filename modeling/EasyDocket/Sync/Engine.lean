import EasyDocket.Sync.Objects
import EasyDocket.Ledger
import EasyDocket.Lib.Prog
import Mathlib.Data.Finset.Insert

/-!
# The sync engine

`SyncService` as a program that asks requests: calls of the adapter and queries on the tables of its own device.
Each request is answered at once; between two requests the user may edit and other devices may run.
-/

namespace EasyDocket

/-- Why a cycle ended early. -/
inductive SyncError
  | transport (retryable : Bool)
  | clock (e : ClockError)
  | malformed
  deriving DecidableEq

variable {β : Type}

/-! ## Requests -/

/-- A call of a `SyncAdapter`. -/
inductive Call (β : Type)
  | list (vault : JsString) (kind : ObjectKind)
  | get (name : ObjectName)
  | put (name : ObjectName) (bytes : Envelope β)
  | remove (name : ObjectName)
  | flush

/-- Why an object is recorded as applied. -/
inductive Reason
  | covered
  | applied
  | pushed
  | snapshot
  deriving DecidableEq

/-- A query on the tables of the device, or on its clock and random source. -/
inductive Query (β : Type)
  | remoteNames
  | record (reason : Reason) (names : List ObjectName)
  | forget (name : ObjectName)
  | observeStamps (stamps : List Stamp)
  | merge (ops : List (Operation β))
  | pendingOperations
  | markSynced (stamps : List Stamp)
  | getLastSnapshot
  | setLastSnapshot (watermark : Stamp)
  | countSince (last : Option Stamp)
  | readOplog
  | readTable (e : EntityName)
  | randomIv
  /-- Which of two calls in flight the destination serves first. -/
  | race

inductive Request (β : Type)
  | call (c : Call β)
  | query (q : Query β)

def Call.Reply : Call β → Type
  | .list _ _ => List ObjectName
  | .get _ => Envelope β
  | .put _ _ => Unit
  | .remove _ => Unit
  | .flush => Unit

def Query.Reply : Query β → Type
  | .remoteNames => Finset ObjectName
  | .record _ _ => Unit
  | .forget _ => Unit
  | .observeStamps _ => Unit
  | .merge _ => ℕ
  | .pendingOperations => List (LocalOperation β)
  | .markSynced _ => Unit
  | .getLastSnapshot => Option Stamp
  | .setLastSnapshot _ => Unit
  | .countSince _ => ℕ
  | .readOplog => List (LocalOperation β)
  | .readTable _ => List (Row β)
  | .randomIv => ℕ
  | .race => Bool

def Request.Reply : Request β → Type
  | .call c => c.Reply
  | .query q => q.Reply

/-- A program of the engine. -/
abbrev Sync (β α : Type) := Prog (Request β) Request.Reply SyncError α

namespace Sync

def call (c : Call β) : Sync β c.Reply := Prog.request (Q := Request β) (.call c)
def query (q : Query β) : Sync β q.Reply := Prog.request (Q := Request β) (.query q)

def list (vault : JsString) (kind : ObjectKind) : Sync β (List ObjectName) := call (.list vault kind)
def get (name : ObjectName) : Sync β (Envelope β) := call (.get name)
def put (name : ObjectName) (bytes : Envelope β) : Sync β Unit := call (.put name bytes)
def remove (name : ObjectName) : Sync β Unit := call (.remove name)
def flush : Sync β Unit := call .flush
def remoteNames : Sync β (Finset ObjectName) := query .remoteNames
def record (reason : Reason) (names : List ObjectName) : Sync β Unit := query (.record reason names)
def forget (name : ObjectName) : Sync β Unit := query (.forget name)
def observeStamps (stamps : List Stamp) : Sync β Unit := query (.observeStamps stamps)
def merge (ops : List (Operation β)) : Sync β ℕ := query (.merge ops)
def pendingOperations : Sync β (List (LocalOperation β)) := query .pendingOperations
def markSynced (stamps : List Stamp) : Sync β Unit := query (.markSynced stamps)
def getLastSnapshot : Sync β (Option Stamp) := query .getLastSnapshot
def setLastSnapshot (watermark : Stamp) : Sync β Unit := query (.setLastSnapshot watermark)
def countSince (last : Option Stamp) : Sync β ℕ := query (.countSince last)
def readOplog : Sync β (List (LocalOperation β)) := query .readOplog
def readTable (e : EntityName) : Sync β (List (Row β)) := query (.readTable e)
def randomIv : Sync β ℕ := query .randomIv
def race : Sync β Bool := query .race

end Sync

/-! ## One cycle -/

/-- The largest number of operations in one batch. -/
def MAX_OPS_PER_BATCH : ℕ := 500

/-- How many operations may accumulate past the newest snapshot before another is written. -/
def SNAPSHOT_AFTER_OPERATIONS : ℕ := 200

/-- The vault and the device a cycle runs for. -/
structure Session where
  vault : JsString
  device : JsString

namespace SyncService

open Sync

variable (session : Session)

/-- `sealJson`: the content under a fresh initialisation vector. -/
def sealJson (header : EnvelopeHeader) (payload : Payload β) : Sync β (Envelope β) := do
  let iv ← randomIv
  pure ⟨header, iv, payload⟩

/-- `openJson<OperationBatch>`. -/
def openBatch (bytes : Envelope β) : Sync β (OperationBatch β) :=
  match bytes.payload with
  | .ops batch => pure batch
  | .snapshot _ => throw .malformed

/-- `openJson<LedgerSnapshot>`. -/
def openSnapshot (bytes : Envelope β) : Sync β (LedgerSnapshot β) :=
  match bytes.payload with
  | .snapshot snapshot => pure snapshot
  | .ops _ => throw .malformed

/-- `applySnapshot`: the watermark of the snapshot that was applied, and the names seen after it. -/
def applySnapshot (seen : Finset ObjectName) : Sync β (Option Stamp × Finset ObjectName) := do
  let snapshots ← list session.vault .snapshot
  match snapshots.getLast? with
  | none => pure (none, seen)
  | some newest =>
    if newest ∈ seen then pure (none, seen)
    else do
      let bytes ← get newest
      let value ← openSnapshot bytes
      if bytes.header.v ≠ session.vault then pure (none, seen)
      else do
        observeStamps [value.watermark]
        let _ ← merge value.operations
        record .snapshot [newest]
        setLastSnapshot value.watermark
        pure (some value.watermark, insert newest seen)

/-- What a pull has downloaded so far. -/
structure Download (β : Type) where
  ops : List (Operation β)
  applied : List ObjectName
  heads : List Stamp

/-- The body of the download loop of `pull`. -/
def download (acc : Download β) (name : ObjectName) : Sync β (Download β) := do
  let bytes ← get name
  let value ← openBatch bytes
  if bytes.header.v ≠ session.vault then pure acc
  else if bytes.header.d = session.device then pure { acc with applied := acc.applied ++ [name] }
  else pure ⟨acc.ops ++ value.ops, acc.applied ++ [name], acc.heads ++ [bytes.header.h]⟩

/-- Whether an unseen object is skipped, because the watermark of an applied snapshot covers its name. -/
def skipped (watermark : Option Stamp) (name : ObjectName) : Bool :=
  match watermark with
  | some w => coveredBy name w
  | none => false

/-- `pull` once the objects to download are known. -/
def pullFresh (fresh : List ObjectName) : Sync β ℕ :=
  if fresh = [] then pure 0
  else do
    let got ← fresh.foldlM (download session) ⟨[], [], []⟩
    observeStamps got.heads
    let count ← merge got.ops
    record .applied got.applied
    pure count

/-- `pull` from the listing of the operation objects on. -/
def pullOps (watermark : Option Stamp) (seen : Finset ObjectName) : Sync β ℕ := do
  let remote ← list session.vault .ops
  let unseen := remote.filter (· ∉ seen)
  let covered := unseen.filter (skipped watermark)
  let fresh := unseen.filter (fun name => !skipped watermark name)
  if covered ≠ [] then record .covered covered
  pullFresh session fresh

/-- `pull`: download and merge every object this device has not applied yet. -/
def pull : Sync β ℕ := do
  let seen ← remoteNames
  let (watermark, seen) ← applySnapshot session seen
  pullOps session watermark seen

/-- `slice(i, i + n)` for `i = 0, n, 2n, …`; `fuel` is at least the number of slices. -/
def slices {α : Type} (n : ℕ) : ℕ → List α → List (List α)
  | 0, _ => []
  | _ + 1, [] => []
  | fuel + 1, l => l.take n :: slices n fuel (l.drop n)

theorem mem_of_mem_slices {α : Type} {n : ℕ} : ∀ {fuel : ℕ} {l slice : List α}, slice ∈ slices n fuel l →
    ∀ x ∈ slice, x ∈ l
  | 0, _, _, h => absurd h List.not_mem_nil
  | _ + 1, [], _, h => absurd h List.not_mem_nil
  | fuel + 1, a :: l, slice, h => by
    intro x hx
    rcases List.mem_cons.mp h with rfl | h
    · exact List.mem_of_mem_take hx
    · exact List.mem_of_mem_drop (mem_of_mem_slices h x hx)

/-- The body of the loop of `push`. -/
def pushSlice (pushed : ℕ) (slice : List (LocalOperation β)) : Sync β ℕ :=
  match slice.getLast? with
  | none => pure pushed
  | some last => do
    let ops := slice.map LocalOperation.toOperation
    let head := last.hlc
    let sealed ← sealJson ⟨session.vault, session.device, head, .ops⟩
      (.ops ⟨session.vault, session.device, head, ops⟩)
    let name := opsObjectName session.vault head
    put name sealed
    record .pushed [name]
    markSynced (slice.map (fun op => op.hlc))
    pure (pushed + ops.length)

/-- `push`: seal and upload local operations the remote has not seen. -/
def push : Sync β ℕ := do
  let pending ← pendingOperations
  (slices MAX_OPS_PER_BATCH pending.length pending).foldlM (pushSlice session) 0

/-- Which objects a snapshot at `watermark` has made redundant. -/
def superseded (watermark : Stamp) (ops snapshots : List ObjectName) : List ObjectName :=
  ops.filter (coveredBy · watermark) ++
    snapshots.filter (fun name => match stampFromObjectName name with
      | some stamp => stamp < watermark
      | none => false)

/-- The two listings of `prune`, which are in flight together. -/
def listBoth : Sync β (List ObjectName × List ObjectName) := do
  if ← race then
    let ops ← list session.vault .ops
    let snapshots ← list session.vault .snapshot
    pure (ops, snapshots)
  else
    let snapshots ← list session.vault .snapshot
    let ops ← list session.vault .ops
    pure (ops, snapshots)

/-- The body of the loop of `prune`. -/
def removeOne (_ : Unit) (name : ObjectName) : Sync β Unit := do
  remove name
  forget name

/-- `prune`: remove what the new snapshot has made redundant; failures are swallowed. -/
def prune (watermark : Stamp) : Sync β Unit :=
  tryCatch (do
    let (ops, snapshots) ← listBoth session
    (superseded watermark ops snapshots).foldlM removeOne ()) (fun _ => pure ())

/-- The body of the loop over the tables in `maybeSnapshot`. -/
def readInto (entities : EntityName → List (Row β)) (e : EntityName) : Sync β (EntityName → List (Row β)) := do
  let rows ← readTable e
  pure (Function.update entities e rows)

/-- `maybeSnapshot` once the snapshot is sealed. -/
def putSnapshot (watermark : Stamp) (sealed : Envelope β) : Sync β Unit := do
  let name := snapshotObjectName session.vault watermark
  put name sealed
  record .pushed [name]
  setLastSnapshot watermark
  prune session watermark

/-- `maybeSnapshot` once enough operations have accumulated. -/
def writeSnapshot : Sync β Unit := do
  let operations ← readOplog
  match operations.getLast? with
  | none => pure ()
  | some last => do
    let watermark := last.hlc
    let entities ← ENTITY_NAMES.foldlM readInto (fun _ => [])
    let snapshot : LedgerSnapshot β := ⟨session.vault, session.device, watermark, entities, operations.length⟩
    let sealed ← sealJson ⟨session.vault, session.device, watermark, .snapshot⟩ (.snapshot snapshot)
    putSnapshot session watermark sealed

/-- `maybeSnapshot`: write a snapshot once enough operations have accumulated past the last one. -/
def maybeSnapshot : Sync β Unit := do
  let last ← getLastSnapshot
  let since ← countSince last
  if since < SNAPSHOT_AFTER_OPERATIONS then pure () else writeSnapshot session

/-- `runCycle`, for an unlocked vault with a destination. -/
def runCycle : Sync β Unit := do
  let _ ← pull session
  let _ ← push session
  maybeSnapshot session
  flush

end SyncService

end EasyDocket
