import EasyDocket.Sync.World
import EasyDocket.LedgerFacts

/-!
# What holds in every run

`Sound` is the invariant of all runs, at any destination: operations have unique stamps and keep their author, logs
and tables hold nothing else, and every object ever stored is one some device made from its own unsent operations or
from its tables.  `Requested` says when a cycle asks what, and `Rely` what the others leave alone meanwhile.
-/

namespace EasyDocket

variable {D β S : Type}

/-! ## Operations of a vault -/

/-- The same write as an authored operation. -/
def Authored (A : Set (Operation β)) (op : Operation β) : Prop := ∃ x ∈ A, op.SameWrite x

/-- The operations authored in a vault. -/
structure Writes (V : Vault D) (A : Set (Operation β)) : Prop where
  author : ∀ x ∈ A, ∃ d, x.device = V.deviceId d ∧ x.hlc.device = V.deviceId d
  carries : ∀ x ∈ A, x.Carries
  stamped : ∀ x ∈ A, x.Stamped
  unique : ∀ x ∈ A, ∀ y ∈ A, x.hlc = y.hlc → x = y

theorem Authored.mono {A A' : Set (Operation β)} {op : Operation β} (h : Authored A op) (hA : ∀ x ∈ A, x ∈ A') :
    Authored A' op := by
  obtain ⟨x, hx, hs⟩ := h
  exact ⟨x, hA x hx, hs⟩

theorem authored_self {A : Set (Operation β)} {op : Operation β} (h : op ∈ A) : Authored A op :=
  ⟨op, h, Operation.SameWrite.refl op⟩

section Writes

variable {V : Vault D} {A : Set (Operation β)} {a b : Operation β}

theorem Writes.carries_of (hA : Writes V A) (h : Authored A a) : a.Carries := by
  obtain ⟨x, hx, hs⟩ := h
  exact hs.carries (hA.carries x hx)

theorem Writes.stamped_of (hA : Writes V A) (h : Authored A a) : a.Stamped := by
  obtain ⟨x, hx, hs⟩ := h
  exact hs.stamped (hA.stamped x hx)

/-- Authored operations with equal stamps are the same write. -/
theorem Writes.sameWrite (hA : Writes V A) (ha : Authored A a) (hb : Authored A b) (h : a.hlc = b.hlc) :
    a.SameWrite b := by
  obtain ⟨x, hx, hax⟩ := ha
  obtain ⟨y, hy, hby⟩ := hb
  have hxy : x = y := hA.unique x hx y hy (hax.hlc.symm.trans (h.trans hby.hlc))
  exact hax.trans (hxy ▸ hby.symm)

theorem Writes.coherent (hA : Writes V A) {L : Ledger β} {ops : List (Operation β)}
    (hlog : ∀ o ∈ L.oplog, Authored A o.toOperation) (hops : ∀ op ∈ ops, Authored A op) : L.Coherent ops :=
  ⟨fun x hx y hy h => (hA.sameWrite (hops x hx) (hops y hy) h).target,
    fun x hx o ho h => (hA.sameWrite (hlog o ho) (hops x hx) h).target⟩

theorem put_of_row {op : Operation β} {r : Row β} (h : op.row = some r) : op.op = .put ∧ op.value = some r := by
  unfold Operation.row at h
  cases hop : op.op with
  | put => rw [hop] at h; exact ⟨rfl, h⟩
  | delete => rw [hop] at h; cases h

/-- The row an authored operation left, sent in a snapshot, is that operation again. -/
theorem Writes.row (hA : Writes V A) {x : Operation β} (hx : x ∈ A) {e : EntityName} {r : Row β}
    (ht : x.target = (e, r.id)) (hrow : x.row = some r) (device : JsString) :
    (rowOperation device e r).SameWrite x :=
  ⟨hA.stamped x hx r hrow, ht.symm, (put_of_row hrow).1.symm, (put_of_row hrow).2.symm⟩

end Writes

/-! ## Stored objects -/

/-- An object of operations, put by device `a`. -/
structure OpsObject (V : Vault D) (A : Set (Operation β)) (n : ObjectName) (env : Envelope β) (a : D)
    (ops : List (Operation β)) : Prop where
  payload : env.payload = .ops ⟨V.vaultId, V.deviceId a, n.stamp, ops⟩
  name : n = opsObjectName V.vaultId n.stamp
  header : env.header = ⟨V.vaultId, V.deviceId a, n.stamp, .ops⟩
  authored : ∀ x ∈ ops, x ∈ A ∧ x.device = V.deviceId a
  sorted : ops.Pairwise (fun x y => x.hlc < y.hlc)
  le : ∀ x ∈ ops, x.hlc ≤ n.stamp
  head : ∃ x ∈ ops, x.hlc = n.stamp
  small : ops.length ≤ MAX_OPS_PER_BATCH

/-- A snapshot object, put by device `a`. -/
structure SnapshotObject (V : Vault D) (A : Set (Operation β)) (n : ObjectName) (env : Envelope β) (a : D)
    (value : LedgerSnapshot β) : Prop where
  payload : env.payload = .snapshot value
  name : n = snapshotObjectName V.vaultId value.watermark
  header : env.header = ⟨V.vaultId, V.deviceId a, value.watermark, .snapshot⟩
  rows : ∀ op ∈ value.operations, Authored A op

/-- An object some device of the vault made. -/
def Made (V : Vault D) (A : Set (Operation β)) (n : ObjectName) (env : Envelope β) : Prop :=
  (∃ a ops, OpsObject V A n env a ops) ∨ ∃ a value, SnapshotObject V A n env a value

section Objects

variable {V : Vault D} {A A' : Set (Operation β)} {n : ObjectName} {env : Envelope β} {a : D}
  {ops : List (Operation β)} {value : LedgerSnapshot β}

theorem OpsObject.operations (h : OpsObject V A n env a ops) : env.operations = ops := by
  unfold Envelope.operations
  rw [h.payload]

theorem OpsObject.kind (h : OpsObject V A n env a ops) : n.kind = .ops := by rw [h.name]; rfl

theorem SnapshotObject.operations (h : SnapshotObject V A n env a value) : env.operations = value.operations := by
  unfold Envelope.operations
  rw [h.payload]

theorem SnapshotObject.kind (h : SnapshotObject V A n env a value) : n.kind = .snapshot := by rw [h.name]; rfl

theorem SnapshotObject.stamp (h : SnapshotObject V A n env a value) : n.stamp = value.watermark := by rw [h.name]; rfl

theorem Made.authored (h : Made V A n env) : ∀ op ∈ env.operations, Authored A op := by
  rcases h with ⟨a, ops, h⟩ | ⟨a, value, h⟩
  · rw [h.operations]
    exact fun x hx => authored_self (h.authored x hx).1
  · rw [h.operations]
    exact h.rows

theorem Made.mono (h : Made V A n env) (hA : ∀ x ∈ A, x ∈ A') : Made V A' n env := by
  rcases h with ⟨a, ops, h⟩ | ⟨a, value, h⟩
  · exact Or.inl ⟨a, ops, { h with authored := fun x hx => ⟨hA x (h.authored x hx).1, (h.authored x hx).2⟩ }⟩
  · exact Or.inr ⟨a, value, { h with rows := fun op hop => (h.rows op hop).mono hA }⟩

theorem Made.vault (h : Made V A n env) : n.vault = V.vaultId ∧ env.header.v = V.vaultId := by
  rcases h with ⟨a, ops, h⟩ | ⟨a, value, h⟩
  · exact ⟨by rw [h.name]; rfl, by rw [h.header]⟩
  · exact ⟨by rw [h.name]; rfl, by rw [h.header]⟩

theorem Made.ops_of_kind (h : Made V A n env) (hk : n.kind = .ops) : ∃ a ops, OpsObject V A n env a ops := by
  rcases h with h | ⟨a, value, h⟩
  · exact h
  · exact absurd (hk.symm.trans h.kind) (by decide)

theorem Made.snapshot_of_kind (h : Made V A n env) (hk : n.kind = .snapshot) :
    ∃ a value, SnapshotObject V A n env a value := by
  rcases h with ⟨a, ops, h⟩ | h
  · exact absurd (hk.symm.trans h.kind) (by decide)
  · exact h

end Objects

/-! ## The invariant -/

/-- What holds of one device. -/
structure DeviceOk (V : Vault D) (A : Set (Operation β)) (d : D) (L : Ledger β) : Prop where
  logged : ∀ o ∈ L.oplog, Authored A o.toOperation
  unsent : ∀ o ∈ L.oplog, o.synced = false → o.toOperation ∈ A ∧ o.device = V.deviceId d
  own : ∀ x ∈ A, x.device = V.deviceId d → ∃ o ∈ L.oplog, o.toOperation = x
  past : ∀ x ∈ A, x.device = V.deviceId d → L.clock.Past x.hlc
  pastState : ∀ x ∈ A, x.device = V.deviceId d → (L.clockState.getD Clock.zero).Past x.hlc
  rows : ∀ e, ∀ r ∈ L.tables e, ∃ x ∈ A, x.target = (e, r.id) ∧ x.row = some r

/-- A stored object of operations whose newest operation still counts as unsent at `d`. -/
def Unmarked (s : Store D β S) (d : D) (n : ObjectName) (env : Envelope β) : Prop :=
  (n, env) ∈ s.ghost.stored ∧ n.kind = .ops ∧ ∃ o ∈ (s.device d).ledger.unsynced, o.hlc = n.stamp

/-- What holds in every run. -/
structure Sound (V : Vault D) (site : Site D β S) (s : Store D β S) : Prop where
  writes : Writes V s.ghost.authored
  devices : ∀ d, DeviceOk V s.ghost.authored d (s.device d).ledger
  held : site.holds s.dest ⊆ s.ghost.stored
  made : ∀ n env, (n, env) ∈ s.ghost.stored → Made V s.ghost.authored n env
  /-- Objects of operations are immutable: a name always stood for the same operations. -/
  same : ∀ n env env', (n, env) ∈ s.ghost.stored → (n, env') ∈ s.ghost.stored → n.kind = .ops →
    env.operations = env'.operations
  /-- An object that was stored, and not marked, holds the first of the unsent operations. -/
  front : ∀ d n env, Unmarked s d n env →
    env.operations <+: (s.device d).ledger.unsynced.map LocalOperation.toOperation
  recorded : ∀ d, ∀ n ∈ (s.device d).remoteObjects, ∃ env, (n, env) ∈ s.ghost.stored

/-! ## What others leave alone, and what is asked when -/

/-- What a device's cycle may rely on while others, its own user among them, take steps. -/
structure Rely (d : D) (s s' : Store D β S) : Prop where
  remoteObjects : (s'.device d).remoteObjects = (s.device d).remoteObjects
  lastSnapshot : (s'.device d).lastSnapshot = (s.device d).lastSnapshot
  oplog : ∀ o ∈ (s.device d).ledger.oplog, o ∈ (s'.device d).ledger.oplog
  unsynced : (s.device d).ledger.unsynced <+: (s'.device d).ledger.unsynced
  unmarked : ∀ n env, Unmarked s' d n env → Unmarked s d n env
  clock : (s.device d).ledger.clock.time ≤ (s'.device d).ledger.clock.time
  authored : ∀ x ∈ s.ghost.authored, x ∈ s'.ghost.authored
  stored : ∀ p ∈ s.ghost.stored, p ∈ s'.ghost.stored
  readAt : s'.ghost.readAt d = s.ghost.readAt d
  written : s'.ghost.written d = s.ghost.written d
  lastMerge : s'.ghost.lastMerge d = s.ghost.lastMerge d
  pulling : s'.ghost.pulling d = s.ghost.pulling d
  started : s'.ghost.started d = s.ghost.started d

theorem Rely.refl (d : D) (s : Store D β S) : Rely d s s :=
  ⟨rfl, rfl, fun _ h => h, List.prefix_refl _, fun _ _ h => h, le_refl _, fun _ h => h, fun _ h => h, rfl, rfl, rfl,
    rfl, rfl⟩

theorem Rely.trans {d : D} {s₁ s₂ s₃ : Store D β S} (h : Rely d s₁ s₂) (h' : Rely d s₂ s₃) : Rely d s₁ s₃ :=
  ⟨h'.remoteObjects.trans h.remoteObjects, h'.lastSnapshot.trans h.lastSnapshot,
    fun o ho => h'.oplog o (h.oplog o ho), h.unsynced.trans h'.unsynced,
    fun n env hu => h.unmarked n env (h'.unmarked n env hu), h.clock.trans h'.clock,
    fun x hx => h'.authored x (h.authored x hx), fun p hp => h'.stored p (h.stored p hp),
    h'.readAt.trans h.readAt, h'.written.trans h.written, h'.lastMerge.trans h.lastMerge,
    h'.pulling.trans h.pulling, h'.started.trans h.started⟩

/-- Every operation of `ops` is in the log of the device, or something newer on its entity is. -/
def Known (L : Ledger β) (ops : List (Operation β)) : Prop := ∀ x ∈ ops, L.Dominates x.target x.hlc

section Requests

variable (V : Vault D) (d : D)

/-- `slice` is the next slice of unsent operations to be sent, under the name `n`. -/
structure Slice (n : ObjectName) (slice : List (LocalOperation β)) (s : Store D β S) : Prop where
  front : slice <+: (s.device d).ledger.unsynced
  name : n = opsObjectName V.vaultId n.stamp
  last : ∃ o, slice.getLast? = some o ∧ o.hlc = n.stamp
  small : slice.length ≤ MAX_OPS_PER_BATCH
  /-- No stored object has more of the unsent operations. -/
  longest : ∀ n' env', Unmarked s d n' env' → env'.operations.length ≤ slice.length

/-- `env` is a snapshot made from the tables as they were read. -/
structure Snapshotted (n : ObjectName) (env : Envelope β) (value : LedgerSnapshot β) (s : Store D β S) : Prop where
  object : SnapshotObject V s.ghost.authored n env d value
  tables : ∀ e, value.entities e = ((s.ghost.readAt d e).tables e).rows

/-- Operations to be merged: those of objects whose heads have been observed, or a snapshot whose watermark was. -/
def Mergeable (ops : List (Operation β)) (s : Store D β S) : Prop :=
  (∀ x ∈ ops, x ∈ s.ghost.authored ∧ (s.device d).ledger.clock.Past x.hlc) ∨
  ∃ n env a value, (n, env) ∈ s.ghost.stored ∧ SnapshotObject V s.ghost.authored n env a value ∧
    ops = value.operations ∧ (s.device d).ledger.clock.Past value.watermark

/-- An object whose name may be recorded. -/
def Recordable (reason : Reason) (n : ObjectName) (s : Store D β S) : Prop :=
  ∃ env, (n, env) ∈ s.ghost.stored ∧ match reason with
    | .covered => n.kind = .ops ∧ Known (s.device d).ledger (s.ghost.lastMerge d)
    | .applied => n.kind = .ops ∧ Known (s.device d).ledger env.operations
    | .pushed => n.kind = .ops → Known (s.device d).ledger env.operations
    | .snapshot => n.kind = .snapshot ∧ Known (s.device d).ledger env.operations

/-- When a cycle of device `d` asks a request. -/
def Requested : Request β → Store D β S → Prop
  | .call (.put n env), s =>
    (∃ slice, Slice V d n slice s ∧ OpsObject V s.ghost.authored n env d (slice.map LocalOperation.toOperation)) ∨
    ∃ value, Snapshotted V d n env value s
  | .call (.remove n), s => ∃ w env value, s.ghost.written d = some (w, env) ∧ Snapshotted V d w env value s ∧
    (n.kind = .ops ∧ n.stamp ≤ w.stamp ∨ n.kind = .snapshot ∧ n.stamp < w.stamp)
  | .query (.record reason names), s => ∀ n ∈ names, Recordable d reason n s
  | .query (.merge ops), s => Mergeable V d ops s
  | .query (.markSynced stamps), s => ∃ n env slice, stamps = slice.map (fun o => o.hlc) ∧ Slice V d n slice s ∧
    (n, env) ∈ s.ghost.stored ∧ OpsObject V s.ghost.authored n env d (slice.map LocalOperation.toOperation)
  | _, _ => True

/-- The protocol a cycle keeps to. -/
def protocol [DecidableEq D] (site : Site D β S) : Protocol (Request β) Request.Reply SyncError (Store D β S) where
  step := fun q s r s' => Sound V site s ∧ Served site d q s r s' ∧ Sound V site s'
  rely := fun s s' => Rely d s s' ∧ (Sound V site s → Sound V site s')
  rely_refl := fun s => ⟨Rely.refl d s, fun h => h⟩
  rely_trans := fun h h' => ⟨h.1.trans h'.1, fun hs => h'.2 (h.2 hs)⟩
  pre := Requested V d

end Requests

end EasyDocket
