import EasyDocket.Stamp

/-!
# Operations, batches and snapshots

The data a vault replicates.  A row is what the ledger needs of an entity: its id, the stamp of its last change, and
everything else as a body of type `β`.
-/

namespace EasyDocket

/-- The entity tables of the ledger. -/
inductive EntityName
  | accountGroups
  | accounts
  | categories
  | transactions
  | budgets
  | recurringRules
  | rates
  | vaultSettings
  deriving DecidableEq

/-- Every entity the ledger stores and replicates, in the source's order. -/
def ENTITY_NAMES : List EntityName :=
  [.accountGroups, .accounts, .categories, .transactions, .budgets, .recurringRules, .rates, .vaultSettings]

theorem mem_entityNames (e : EntityName) : e ∈ ENTITY_NAMES := by cases e <;> decide

/-- An entity as a row of its table. -/
structure Row (β : Type) where
  id : JsString
  updatedAt : Stamp
  body : β

inductive OpKind
  | put
  | delete
  deriving DecidableEq

/-- One write, as it travels between devices. -/
structure Operation (β : Type) where
  hlc : Stamp
  entity : EntityName
  entityId : JsString
  op : OpKind
  /-- The entity written by a `put`; a `delete` has none. -/
  value : Option (Row β)
  /-- Device that authored the operation. -/
  device : JsString

/-- An operation in the local log, with its bookkeeping. -/
structure LocalOperation (β : Type) extends Operation β where
  synced : Bool

variable {β : Type}

namespace Operation

/-- What an operation is about. -/
def target (op : Operation β) : EntityName × JsString := (op.entity, op.entityId)

/-- The row an operation leaves behind. -/
def row (op : Operation β) : Option (Row β) :=
  match op.op with
  | .put => op.value
  | .delete => none

/-- The same write, whoever it was received from. -/
def SameWrite (a b : Operation β) : Prop :=
  a.hlc = b.hlc ∧ a.target = b.target ∧ a.op = b.op ∧ a.value = b.value

/-- A `put` carries a row with the operation's id. -/
def Carries (op : Operation β) : Prop := op.op = .put → ∃ r, op.value = some r ∧ r.id = op.entityId

/-- The row of a `put` carries the operation's stamp. -/
def Stamped (op : Operation β) : Prop := ∀ r, op.row = some r → r.updatedAt = op.hlc

theorem row_put {op : Operation β} (h : op.op = .put) : op.row = op.value := by unfold row; rw [h]

theorem row_delete {op : Operation β} (h : op.op = .delete) : op.row = none := by unfold row; rw [h]

namespace SameWrite

variable {a b c : Operation β}

theorem refl (a : Operation β) : a.SameWrite a := ⟨rfl, rfl, rfl, rfl⟩

theorem symm (h : a.SameWrite b) : b.SameWrite a := ⟨h.1.symm, h.2.1.symm, h.2.2.1.symm, h.2.2.2.symm⟩

theorem trans (h : a.SameWrite b) (h' : b.SameWrite c) : a.SameWrite c :=
  ⟨h.1.trans h'.1, h.2.1.trans h'.2.1, h.2.2.1.trans h'.2.2.1, h.2.2.2.trans h'.2.2.2⟩

theorem hlc (h : a.SameWrite b) : a.hlc = b.hlc := h.1

theorem target (h : a.SameWrite b) : a.target = b.target := h.2.1

theorem row (h : a.SameWrite b) : a.row = b.row := by
  unfold Operation.row
  rw [h.2.2.1, h.2.2.2]

theorem carries (h : a.SameWrite b) (hb : b.Carries) : a.Carries := by
  intro hp
  obtain ⟨r, hr, hid⟩ := hb (h.2.2.1 ▸ hp)
  exact ⟨r, h.2.2.2.trans hr, hid.trans (congrArg Prod.snd h.target).symm⟩

theorem stamped (h : a.SameWrite b) (hb : b.Stamped) : a.Stamped := by
  intro r hr
  exact (hb r (h.row ▸ hr)).trans h.hlc.symm

end SameWrite

end Operation

/-- A batch of operations, the unit that is sealed and uploaded. -/
structure OperationBatch (β : Type) where
  vaultId : JsString
  device : JsString
  /-- Stamp of the newest operation in the batch. -/
  head : Stamp
  ops : List (Operation β)

/-- The whole ledger at a point in the clock. -/
structure LedgerSnapshot (β : Type) where
  vaultId : JsString
  device : JsString
  /-- Operations at or before this stamp are meant to be represented here. -/
  watermark : Stamp
  /-- Current state, by entity name. -/
  entities : EntityName → List (Row β)
  operationCount : ℕ

/-- The operation a row of a snapshot stands for. -/
def rowOperation (device : JsString) (e : EntityName) (r : Row β) : Operation β :=
  ⟨r.updatedAt, e, r.id, .put, some r, device⟩

/-- A snapshot as operations carrying each entity's own stamp. -/
def LedgerSnapshot.operations (s : LedgerSnapshot β) : List (Operation β) :=
  ENTITY_NAMES.flatMap (fun e => (s.entities e).map (rowOperation s.device e))

theorem LedgerSnapshot.mem_operations {s : LedgerSnapshot β} {op : Operation β} :
    op ∈ s.operations ↔ ∃ e, ∃ r ∈ s.entities e, rowOperation s.device e r = op := by
  simp [LedgerSnapshot.operations, mem_entityNames]

end EasyDocket
