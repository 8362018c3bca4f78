import EasyDocket.Oplog
import Mathlib.Data.Prod.Lex

/-!
# Remote objects

What a vault keeps at a destination: sealed envelopes under names made from a vault id, a kind and a clock stamp.
A name is modelled by these parts; `EasyDocket.Sync.NameText` writes it out as a text, and reads the stamp back.
-/

namespace EasyDocket

/-- The two directories of a vault: `ops/` and `snapshots/`. -/
inductive ObjectKind
  | ops
  | snapshot
  deriving DecidableEq

/-- The name of a remote object. -/
structure ObjectName where
  vault : JsString
  kind : ObjectKind
  stamp : Stamp
  deriving DecidableEq

namespace ObjectKind

/-- `ops/` comes before `snapshots/`. -/
def rank : ObjectKind → ℕ
  | .ops => 0
  | .snapshot => 1

theorem rank_injective : Function.Injective rank := by
  intro a b h
  cases a <;> cases b <;> first | rfl | cases h

end ObjectKind

namespace ObjectName

def key (n : ObjectName) : JsString ×ₗ ℕ ×ₗ Stamp := toLex (n.vault, toLex (n.kind.rank, n.stamp))

theorem key_injective : Function.Injective key := by
  rintro ⟨v, k, s⟩ ⟨v', k', s'⟩ h
  have h1 : v = v' := congrArg (fun x => (ofLex x).1) h
  have h2 : k.rank = k'.rank := congrArg (fun x => (ofLex (ofLex x).2).1) h
  have h3 : s = s' := congrArg (fun x => (ofLex (ofLex x).2).2) h
  rw [h1, ObjectKind.rank_injective h2, h3]

/-- Names in the order a listing gives them. -/
instance : LinearOrder ObjectName := LinearOrder.lift' key key_injective

end ObjectName

/-- `[A-Za-z0-9]`. -/
def isAlnum (c : CodeUnit) : Bool :=
  (unit '0' ≤ c && c ≤ unit '9') || (unit 'A' ≤ c && c ≤ unit 'Z') || (unit 'a' ≤ c && c ≤ unit 'z')

/-- `opsObjectName`. -/
def opsObjectName (vault : JsString) (head : Stamp) : ObjectName := ⟨vault, .ops, head⟩

/-- `snapshotObjectName`. -/
def snapshotObjectName (vault : JsString) (watermark : Stamp) : ObjectName := ⟨vault, .snapshot, watermark⟩

/-- `stampFromObjectName`: the stamp in a name, if its device part is `[A-Za-z0-9]+`. -/
def stampFromObjectName (n : ObjectName) : Option Stamp :=
  if n.stamp.device ≠ [] ∧ n.stamp.device.all isAlnum then some n.stamp else none

/-- `coveredBy`: whether an object falls at or below a watermark. -/
def coveredBy (n : ObjectName) (watermark : Stamp) : Bool :=
  match stampFromObjectName n with
  | some stamp => stamp ≤ watermark
  | none => false

theorem stampFromObjectName_eq {n : ObjectName} {s : Stamp} (h : stampFromObjectName n = some s) : s = n.stamp := by
  unfold stampFromObjectName at h
  split_ifs at h
  exact (Option.some.inj h).symm

theorem le_of_coveredBy {n : ObjectName} {w : Stamp} (h : coveredBy n w = true) : n.stamp ≤ w := by
  unfold coveredBy at h
  cases hs : stampFromObjectName n with
  | none => rw [hs] at h; cases h
  | some s =>
    rw [hs] at h
    rw [← stampFromObjectName_eq hs]
    exact of_decide_eq_true h

/-! ## Envelopes -/

/-- The clear part of an envelope. -/
structure EnvelopeHeader where
  v : JsString
  d : JsString
  h : Stamp
  t : ObjectKind
  deriving DecidableEq

/-- What is sealed in an envelope. -/
inductive Payload (β : Type)
  | ops (batch : OperationBatch β)
  | snapshot (snapshot : LedgerSnapshot β)

/-- A sealed object: its bytes are determined by header, initialisation vector and content. -/
structure Envelope (β : Type) where
  header : EnvelopeHeader
  iv : ℕ
  payload : Payload β

namespace Envelope

variable {β : Type}

/-- The operations applying an object merges. -/
def operations (e : Envelope β) : List (Operation β) :=
  match e.payload with
  | .ops batch => batch.ops
  | .snapshot snapshot => snapshot.operations

end Envelope

end EasyDocket
