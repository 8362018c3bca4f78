import EasyDocket.Tenancy.Guard
import EasyDocket.Sync.MapSite
import EasyDocket.Keys.Lifecycle
import EasyDocket.LedgerFacts

/-!
# Vaults that share a device

One installation over its whole life: its vault service, its tables, and the cycles it runs, with every request of a
cycle a step of its own.  The tables have no vault of their own.  As long as the service does not take up a vault after
the tables were written for another, all that a vault shows and uploads is its own.
-/

namespace EasyDocket

variable {β S : Type}

/-- One installation, its tables, its destination, and the cycle it is in the middle of. -/
structure Tenancy (β S : Type) where
  inst : Installation
  device : Device β
  dest : S
  cycle : Option (Session × Sync β Unit)
  /-- Every local edit, with the vault id of the service at the time. -/
  authored : Set (Option JsString × Operation β)
  /-- Every object that others have put. -/
  arrived : Set (ObjectName × Envelope β)
  /-- Every object this installation has put. -/
  uploads : Set (ObjectName × Envelope β)
  /-- The vault the tables were last written for. -/
  tenant : Option JsString
  /-- The vault the last snapshot was noted for. -/
  marked : Option JsString

/-! ## What is promised -/

namespace Operation

/-- The same write, or the same row of the same table. -/
def Copies (a b : Operation β) : Prop := a = b ∨ ∃ r, a.value = some r ∧ b.value = some r ∧ a.entity = b.entity

theorem Copies.refl (a : Operation β) : a.Copies a := Or.inl rfl

theorem Copies.trans {a b c : Operation β} (h : a.Copies b) (h' : b.Copies c) : a.Copies c := by
  rcases h with rfl | ⟨r, har, hbr, he⟩
  · exact h'
  · rcases h' with rfl | ⟨r', hbr', hcr', he'⟩
    · exact Or.inr ⟨r, har, hbr, he⟩
    · cases hbr.symm.trans hbr'
      exact Or.inr ⟨r, har, hcr', he.trans he'⟩

end Operation

namespace Tenancy

/-- A write belongs to the vault `V`: it was authored under `V`, or under no vault, or came in an object of `V`. -/
def Own (s : Tenancy β S) (V : JsString) (op : Operation β) : Prop :=
  ∃ src, op.Copies src ∧ (((some V, src) ∈ s.authored ∨ (none, src) ∈ s.authored) ∨
    ∃ p ∈ s.arrived, p.2.header.v = V ∧ src ∈ p.2.operations)

/-- Nothing on the device belongs to another vault than `V`. -/
structure HoldsOnly (s : Tenancy β S) (V : JsString) : Prop where
  log : ∀ o ∈ s.device.ledger.oplog, s.Own V o.toOperation
  rows : ∀ t r, s.device.ledger.rowAt t = some r → RowOf (s.Own V) t.1 r
  names : ∀ n ∈ s.device.remoteObjects, n.vault = V
  mark : s.device.lastSnapshot ≠ none → s.marked = some V

/-- Uploads carry the vault of all that is in them, and the vault that is open finds only what is its own. -/
structure Separate (s : Tenancy β S) : Prop where
  uploads : ∀ p ∈ s.uploads, p.1.vault = p.2.header.v ∧ ∀ op ∈ p.2.operations, s.Own p.2.header.v op
  tables : ∀ V, s.inst.vault.vaultId = some V → s.HoldsOnly V

/-! ## Steps -/

variable (nfkc : JsString → JsString) (site : Site Unit β S)

/-- After an operation of the vault service.  When the app is started again, its cycle is lost and the clock read
from disk. -/
def commanded (c : VaultCommand) (s : Tenancy β S) : Tenancy β S :=
  let s' := { s with inst := (c.exec nfkc s.inst).2 }
  match c with
  | .restart => { s' with device := { s.device with ledger := s.device.ledger.initialise }, cycle := none }
  | _ => s'

/-- After the device check was switched. -/
def switched (s : Tenancy β S) (fails enabled : Bool) : Tenancy β S :=
  { s with inst := (BiometricService.setEnabled fails enabled s.inst).2 }

/-- After a local edit. -/
def edited (s : Tenancy β S) (L : Ledger β) (op : Operation β) : Tenancy β S :=
  { s with
    device := { s.device with ledger := L }
    authored := insert (s.inst.vault.vaultId, op) s.authored
    tenant := match s.inst.vault.vaultId with
      | some V => some V
      | none => s.tenant }

/-- A cycle begins. -/
def begun (s : Tenancy β S) (σ : Session) : Tenancy β S :=
  { s with dest := site.connect () s.dest, cycle := some (σ, SyncService.runCycle σ) }

/-- Whether a query writes to the tables what a vault can tell. -/
def writes : Query β → Bool
  | .record _ names => !names.isEmpty
  | .merge ops => !ops.isEmpty
  | .setLastSnapshot _ => true
  | _ => false

/-- After a query of a cycle. -/
def queried (s : Tenancy β S) (σ : Session) (q : Query β) (k : Except SyncError q.Reply → Sync β Unit)
    (wall : ℕ → ℕ) (coin : ℕ) : Tenancy β S :=
  { s with
    device := (s.device.answer wall coin q).2
    cycle := some (σ, k (s.device.answer wall coin q).1)
    tenant := if writes q then some σ.vault else s.tenant
    marked := match q with
      | .setLastSnapshot _ => some σ.vault
      | _ => s.marked }

/-- After a call of a cycle. -/
def called (s : Tenancy β S) (σ : Session) (c : Call β) (p : Sync β Unit) (dest : S) : Tenancy β S :=
  { s with
    dest
    cycle := some (σ, p)
    uploads := match c with
      | .put n e => insert (n, e) s.uploads
      | _ => s.uploads }

/-- One step; operations of the vault service are kept to a condition. -/
inductive Step (ok : VaultCommand → Tenancy β S → Prop) : Tenancy β S → Tenancy β S → Prop
  | command (s : Tenancy β S) (c : VaultCommand) (h : ok c s) : Step ok s (s.commanded nfkc c)
  | switch (s : Tenancy β S) (fails enabled : Bool) : Step ok s (s.switched fails enabled)
  | put (s : Tenancy β S) (device : JsString) (wall : ℕ) (e : EntityName) (id : JsString) (body : β) (L : Ledger β)
      (op : Operation β) (hd : s.inst.vault.deviceId = some device)
      (h : s.device.ledger.put device wall e id body = .ok (L, op)) : Step ok s (s.edited L op)
  | remove (s : Tenancy β S) (device : JsString) (wall : ℕ) (e : EntityName) (id : JsString) (L : Ledger β)
      (op : Operation β) (hd : s.inst.vault.deviceId = some device)
      (h : s.device.ledger.remove device wall e id = .ok (L, op)) : Step ok s (s.edited L op)
  | begin (s : Tenancy β S) (σ : Session) (hc : s.cycle = none) (hu : s.inst.vault.state = .unlocked)
      (hk : s.inst.vault.masterKey.isSome = true) (hv : s.inst.vault.vaultId = some σ.vault) (hv' : σ.vault ≠ [])
      (hd : s.inst.vault.deviceId = some σ.device) (hd' : σ.device ≠ []) : Step ok s (s.begun site σ)
  | query (s : Tenancy β S) (σ : Session) (q : Query β) (k : Except SyncError q.Reply → Sync β Unit)
      (wall : ℕ → ℕ) (coin : ℕ) (h : s.cycle = some (σ, .ask (.query q) k)) : Step ok s (s.queried σ q k wall coin)
  | call (s : Tenancy β S) (σ : Session) (c : Call β) (k : Except SyncError c.Reply → Sync β Unit)
      (h : s.cycle = some (σ, .ask (.call c) k)) :
      Step ok s (s.called σ c (k (site.serve () c s.dest).1) (site.serve () c s.dest).2)
  | mishap (s : Tenancy β S) (σ : Session) (c : Call β) (k : Except SyncError c.Reply → Sync β Unit)
      (retryable : Bool) (dest : S) (h : s.cycle = some (σ, .ask (.call c) k)) (hm : site.mishap () c s.dest dest) :
      Step ok s (s.called σ c (k (.error (.transport retryable))) dest)
  | finish (s : Tenancy β S) (σ : Session) (p : Sync β Unit) (h : s.cycle = some (σ, p))
      (hp : ∀ q k, p ≠ .ask q k) : Step ok s { s with cycle := none }
  | arrive (s : Tenancy β S) (dest : S) (objects : Set (ObjectName × Envelope β))
      (h : ∀ p ∈ site.holds dest, p ∈ site.holds s.dest ∨ p ∈ objects) :
      Step ok s { s with dest, arrived := s.arrived ∪ objects }

/-- A new installation; others may have put objects at its destination already. -/
def new (durable : Bool) (dest : S) : Tenancy β S :=
  ⟨(Tracked.new durable).inst, Device.empty, dest, none, ∅, site.holds dest, ∅, none, none⟩

/-- Everything an installation can come to. -/
inductive Reaches (ok : VaultCommand → Tenancy β S → Prop) : Tenancy β S → Prop
  | new (durable : Bool) (dest : S) : Reaches ok (new site durable dest)
  | step {s s' : Tenancy β S} (hs : Reaches ok s) (h : Step nfkc site ok s s') : Reaches ok s'

/-! ## The condition -/

/-- The tables may be used for the vault `V`: they have not been written for another. -/
def LetTo (s : Tenancy β S) (V : JsString) : Prop := s.tenant = none ∨ s.tenant = some V

/-- A vault that is taken up is the one the tables were written for, and the one a cycle is under way for. -/
def Unshared (c : VaultCommand) (s : Tenancy β S) : Prop :=
  ∀ V, c.takesUp nfkc s.inst = some V → s.LetTo V ∧ ∀ σ p, s.cycle = some (σ, p) → σ.vault = V

/-! ## Ledgers of one owner -/

section Ledger

variable {Q : Operation β → Prop} {L : Ledger β}

/-- Log and tables satisfy a predicate on operations. -/
structure LedgerOf (Q : Operation β → Prop) (L : Ledger β) : Prop where
  log : ∀ o ∈ L.oplog, Q o.toOperation
  rows : ∀ t r, L.rowAt t = some r → RowOf Q t.1 r

theorem LedgerOf.logged (h : LedgerOf Q L) {op : Operation β} (hop : Q op) (b : Bool) : LedgerOf Q (L.log ⟨op, b⟩) := by
  refine ⟨fun o ho => ?_, h.rows⟩
  rw [Ledger.oplog_log] at ho
  rcases Table.mem_put.mp ho with rfl | ⟨ho, -⟩
  · exact hop
  · exact h.log o ho

theorem LedgerOf.putRow (h : LedgerOf Q L) {e : EntityName} {r : Row β} (hr : RowOf Q e r) :
    LedgerOf Q (L.putRow e r) := by
  refine ⟨h.log, fun t r' hr' => ?_⟩
  rw [Ledger.rowAt_putRow] at hr'
  split_ifs at hr' with ht
  · cases hr'
    rw [ht]
    exact hr
  · exact h.rows t r' hr'

theorem LedgerOf.deleteRow (h : LedgerOf Q L) (e : EntityName) (id : JsString) : LedgerOf Q (L.deleteRow e id) := by
  refine ⟨h.log, fun t r hr => ?_⟩
  rw [Ledger.rowAt_deleteRow] at hr
  split_ifs at hr
  exact h.rows t r hr

/-- A row that an operation writes satisfies what all its copies satisfy. -/
theorem rowOf_copies {op : Operation β} (hop : ∀ x, Operation.Copies x op → Q x) {r : Row β} (hr : op.value = some r) :
    RowOf Q op.entity r := fun x hx he => hop x (Or.inr ⟨r, hx, hr, he⟩)

theorem LedgerOf.edited {device : JsString} {L' : Ledger β} {op : Operation β} (h : LedgerOf Q L)
    (hop : ∀ x, Operation.Copies x op → Q x) (he : Ledger.Edited device L L' op) : LedgerOf Q L' := by
  refine ⟨fun o ho => ?_, fun t r hr => ?_⟩
  · rw [he.oplog] at ho
    rcases Table.mem_put.mp ho with rfl | ⟨ho, -⟩
    · exact hop op (.refl op)
    · exact h.log o ho
  · rw [he.rows] at hr
    split_ifs at hr with ht
    · have hv : op.value = some r := by
        unfold Operation.row at hr
        split at hr
        · exact hr
        · cases hr
      rw [ht]
      exact rowOf_copies hop hv
    · exact h.rows t r hr

theorem LedgerOf.mergeOne {acc : Ledger β × ℕ} {op : Operation β} (h : LedgerOf Q acc.1)
    (hop : ∀ x, Operation.Copies x op → Q x) : LedgerOf Q (Ledger.mergeOne acc op).1 := by
  have happly : LedgerOf Q (Ledger.mergeOne.apply acc op).1 := by
    unfold Ledger.mergeOne.apply Ledger.applyOperation
    cases hk : op.op with
    | delete => exact (h.deleteRow _ _).logged (hop op (.refl op)) true
    | put =>
      cases hv : op.value with
      | none => exact h
      | some r => exact (h.putRow (rowOf_copies hop hv)).logged (hop op (.refl op)) true
  unfold Ledger.mergeOne
  split
  · split_ifs
    · exact h
    · exact happly
  · exact happly

theorem LedgerOf.merge {ops : List (Operation β)} (h : LedgerOf Q L)
    (hops : ∀ op ∈ ops, ∀ x, Operation.Copies x op → Q x) : LedgerOf Q (L.merge ops).1 := by
  have fold : ∀ (l : List (Operation β)) (acc : Ledger β × ℕ), (∀ op ∈ l, ∀ x, Operation.Copies x op → Q x) →
      LedgerOf Q acc.1 → LedgerOf Q (l.foldl Ledger.mergeOne acc).1 := by
    intro l
    induction l with
    | nil => exact fun acc _ hacc => hacc
    | cons op l ih =>
      exact fun acc hl hacc => ih _ (fun x hx => hl x (List.mem_cons_of_mem _ hx))
        (hacc.mergeOne (hl op List.mem_cons_self))
  unfold Ledger.merge
  split_ifs with hnil
  · exact h
  · have := fold (Ledger.ordered ops) (L, 0) (fun op hop => hops op (Ledger.mem_ordered.mp hop)) h
    exact ⟨this.log, this.rows⟩

theorem LedgerOf.markSynced (h : LedgerOf Q L) (stamps : List Stamp) : LedgerOf Q (L.markSynced stamps) := by
  refine ⟨fun o ho => ?_, fun t r hr => ?_⟩
  · obtain ⟨o', ho', rfl⟩ := Ledger.mem_markSynced.mp ho
    exact h.log o' ho'
  · refine h.rows t r ?_
    unfold Ledger.rowAt at hr ⊢
    rw [Ledger.markSynced_tables] at hr
    exact hr

end Ledger

/-! ## The invariant -/

section Invariant

variable {nfkc} {site} {s s' : Tenancy β S} {V : JsString}

theorem own_of_copies {op x : Operation β} (h : s.Own V op) (hx : x.Copies op) : s.Own V x := by
  obtain ⟨src, hs, hsrc⟩ := h
  exact ⟨src, hx.trans hs, hsrc⟩

theorem Own.mono {op : Operation β} (h : s.Own V op) (ha : s.authored ⊆ s'.authored) (hr : s.arrived ⊆ s'.arrived) :
    s'.Own V op := by
  obtain ⟨src, hs, hsrc⟩ := h
  refine ⟨src, hs, ?_⟩
  rcases hsrc with hsrc | ⟨p, hp, hv, hop⟩
  · exact Or.inl (hsrc.imp (fun h => ha h) (fun h => ha h))
  · exact Or.inr ⟨p, hr hp, hv, hop⟩

theorem LedgerOf.mono {Q Q' : Operation β → Prop} (hq : ∀ op, Q op → Q' op) {L : Ledger β} (h : LedgerOf Q L) :
    LedgerOf Q' L := ⟨fun o ho => hq _ (h.log o ho), fun t r hr => RowOf.mono hq (h.rows t r hr)⟩

/-- What the device holds does not depend on the rest of the installation. -/
theorem HoldsOnly.of_same (h : s.HoldsOnly V) (hd : s'.device = s.device) (hm : s'.marked = s.marked)
    (ha : s.authored ⊆ s'.authored) (hr : s.arrived ⊆ s'.arrived) : s'.HoldsOnly V := by
  refine ⟨fun o ho => ?_, fun t r ht => ?_, fun n hn => ?_, fun hne => ?_⟩
  · rw [hd] at ho
    exact (h.log o ho).mono ha hr
  · rw [hd] at ht
    exact RowOf.mono (fun op hop => hop.mono ha hr) (h.rows t r ht)
  · rw [hd] at hn
    exact h.names n hn
  · rw [hd] at hne
    rw [hm]
    exact h.mark hne

theorem HoldsOnly.ledger (h : s.HoldsOnly V) : LedgerOf (s.Own V) s.device.ledger := ⟨h.log, h.rows⟩

/-- What holds in every state as long as the tables are not let to a second vault. -/
structure Tidy (site : Site Unit β S) (s : Tenancy β S) : Prop where
  uploads : ∀ p ∈ s.uploads, p.1.vault = p.2.header.v ∧ ∀ op ∈ p.2.operations, s.Own p.2.header.v op
  held : ∀ p ∈ site.holds s.dest, ∀ op ∈ p.2.operations, s.Own p.2.header.v op
  tables : ∀ V, s.LetTo V → s.HoldsOnly V
  current : ∀ V, s.inst.vault.vaultId = some V → s.LetTo V
  /-- A cycle under way is for the vault that is open, if one is, and keeps to what is the vault's own. -/
  cycle : ∀ σ p, s.cycle = some (σ, p) → s.LetTo σ.vault ∧ (∀ V, s.inst.vault.vaultId = some V → V = σ.vault) ∧
    ∀ Q : Operation β → Prop, (∀ op, s.Own σ.vault op → Q op) → Guards σ.vault Q (fun _ => True) p

theorem Tidy.separate (h : Tidy site s) : s.Separate := ⟨h.uploads, fun V hV => h.tables V (h.current V hV)⟩

theorem tidy_new (durable : Bool) (dest : S) : Tidy site (new site durable dest) where
  uploads := fun p hp => absurd hp (Set.notMem_empty p)
  held := fun p hp op hop => ⟨op, .refl op, Or.inr ⟨p, hp, rfl, hop⟩⟩
  tables := fun V _ => by
    refine ⟨fun o ho => absurd ho (Table.not_mem_empty o), ?_, fun n hn => ?_, fun h => ?_⟩
    · intro t r hr
      cases hr
    · exact absurd hn (Finset.notMem_empty n)
    · exact absurd rfl h
  current := fun V _ => Or.inl rfl
  cycle := fun σ p h => by cases h

/-- Restarting loses nothing but the cycle; any other operation of the vault service leaves the tables alone. -/
theorem commanded_cases (nfkc : JsString → JsString) (c : VaultCommand) (s : Tenancy β S) :
    ((s.commanded nfkc c).cycle = none ∨ (s.commanded nfkc c).cycle = s.cycle) ∧
    (s.commanded nfkc c).device.ledger.oplog = s.device.ledger.oplog ∧
    (∀ t, (s.commanded nfkc c).device.ledger.rowAt t = s.device.ledger.rowAt t) ∧
    (s.commanded nfkc c).device.remoteObjects = s.device.remoteObjects ∧
    (s.commanded nfkc c).device.lastSnapshot = s.device.lastSnapshot := by
  cases c with
  | restart => exact ⟨Or.inl rfl, rfl, fun _ => rfl, rfl, rfl⟩
  | _ => exact ⟨Or.inr rfl, rfl, fun _ => rfl, rfl, rfl⟩

/-- What an operation of the vault service leaves as it was. -/
theorem commanded_same (nfkc : JsString → JsString) (c : VaultCommand) (s : Tenancy β S) :
    (s.commanded nfkc c).dest = s.dest ∧ (s.commanded nfkc c).authored = s.authored ∧
    (s.commanded nfkc c).arrived = s.arrived ∧ (s.commanded nfkc c).uploads = s.uploads ∧
    (s.commanded nfkc c).tenant = s.tenant ∧ (s.commanded nfkc c).marked = s.marked := by
  cases c <;> exact ⟨rfl, rfl, rfl, rfl, rfl, rfl⟩

/-- The vault that is open after an operation of the vault service was taken up by it, or was open before. -/
theorem commanded_vaultId {c : VaultCommand} (h : (s.commanded nfkc c).inst.vault.vaultId = some V) :
    c.takesUp nfkc s.inst = some V ∨ s.inst.vault.vaultId = some V := by
  cases c <;> exact vaultId_exec _ h

theorem Tidy.commanded (h : Tidy site s) {c : VaultCommand} (hc : Unshared nfkc c s) :
    Tidy site (s.commanded nfkc c) := by
  obtain ⟨hcycle, hlog, hrows, hnames, hlast⟩ := commanded_cases nfkc c s
  obtain ⟨hdest, ha, hr, hu, ht, hm⟩ := commanded_same nfkc c s
  have hown : ∀ V op, s.Own V op → (s.commanded nfkc c).Own V op :=
    fun V op hop => hop.mono (by rw [ha]) (by rw [hr])
  have hown' : ∀ V op, (s.commanded nfkc c).Own V op → s.Own V op :=
    fun V op hop => hop.mono (by rw [ha]) (by rw [hr])
  have hlet : ∀ V, (s.commanded nfkc c).LetTo V ↔ s.LetTo V := fun V => by unfold LetTo; rw [ht]
  refine ⟨fun p hp => ?_, fun p hp op hop => ?_, fun V hV => ?_, fun V hV => ?_, fun σ p hp => ?_⟩
  · rw [hu] at hp
    exact ⟨(h.uploads p hp).1, fun op hop => hown _ op ((h.uploads p hp).2 op hop)⟩
  · rw [hdest] at hp
    exact hown _ op (h.held p hp op hop)
  · have hV' := h.tables V ((hlet V).mp hV)
    refine ⟨fun o ho => ?_, fun t r ht' => ?_, fun n hn => ?_, fun hne => ?_⟩
    · rw [hlog] at ho
      exact hown V _ (hV'.log o ho)
    · rw [hrows] at ht'
      exact RowOf.mono (hown V) (hV'.rows t r ht')
    · rw [hnames] at hn
      exact hV'.names n hn
    · rw [hlast] at hne
      rw [hm]
      exact hV'.mark hne
  · exact (hlet V).mpr ((commanded_vaultId hV).elim (fun ht' => (hc V ht').1) (h.current V))
  · rcases hcycle with hn | hsame
    · rw [hn] at hp
      cases hp
    · have hp' := hsame ▸ hp
      obtain ⟨h1, h2, h3⟩ := h.cycle σ p hp'
      exact ⟨(hlet _).mpr h1, fun V hV => (commanded_vaultId hV).elim (fun ht' => ((hc V ht').2 σ p hp').symm) (h2 V),
        fun Q hQ => h3 Q (fun op hop => hQ op (hown _ op hop))⟩

theorem Tidy.switched (h : Tidy site s) (fails enabled : Bool) : Tidy site (s.switched fails enabled) := by
  have hid : (s.switched fails enabled).inst.vault.vaultId = s.inst.vault.vaultId := by cases fails <;> rfl
  exact ⟨h.uploads, h.held, fun V hV => (h.tables V hV).of_same rfl rfl (fun _ h => h) (fun _ h => h),
    fun V hV => h.current V (hid ▸ hV), fun σ p hp => by
      obtain ⟨h1, h2, h3⟩ := h.cycle σ p hp
      exact ⟨h1, fun V hV => h2 V (hid ▸ hV), h3⟩⟩

theorem letTo_edited {L : Ledger β} {op : Operation β} (h : Tidy site s) {W : JsString}
    (hW : (s.edited L op).LetTo W) : s.LetTo W ∧ (s.edited L op).Own W op := by
  have hins : (s.inst.vault.vaultId, op) ∈ (s.edited L op).authored := Set.mem_insert _ _
  cases hid : s.inst.vault.vaultId with
  | none =>
    rw [hid] at hins
    refine ⟨?_, op, .refl op, Or.inl (Or.inr hins)⟩
    have ht : (s.edited L op).tenant = s.tenant := by
      show (match s.inst.vault.vaultId with | some V => some V | none => s.tenant) = s.tenant
      rw [hid]
    unfold LetTo at hW ⊢
    rwa [ht] at hW
  | some V =>
    rw [hid] at hins
    have ht : (s.edited L op).tenant = some V := by
      show (match s.inst.vault.vaultId with | some V => some V | none => s.tenant) = some V
      rw [hid]
    have hVW : V = W := by
      unfold LetTo at hW
      rw [ht] at hW
      exact hW.elim (fun h => by cases h) (fun h => Option.some.inj h)
    subst hVW
    exact ⟨h.current V hid, op, .refl op, Or.inl (Or.inl hins)⟩

theorem Tidy.edited (h : Tidy site s) {device : JsString} {L : Ledger β} {op : Operation β}
    (he : Ledger.Edited device s.device.ledger L op) : Tidy site (s.edited L op) := by
  have hown : ∀ V x, s.Own V x → (s.edited L op).Own V x :=
    fun V x hx => hx.mono (Set.subset_insert _ _) (Set.Subset.refl _)
  have hlet : ∀ V, s.inst.vault.vaultId = some V → (s.edited L op).LetTo V := by
    intro V hid
    refine Or.inr ?_
    show (match s.inst.vault.vaultId with | some V => some V | none => s.tenant) = some V
    rw [hid]
  refine ⟨fun p hp => ?_, fun p hp x hx => ?_, fun W hW => ?_, fun V hid => hlet V hid, fun σ p hp => ?_⟩
  · exact ⟨(h.uploads p hp).1, fun x hx => hown _ x ((h.uploads p hp).2 x hx)⟩
  · exact hown _ x (h.held p hp x hx)
  · obtain ⟨hW', hop⟩ := letTo_edited h hW
    have hold := h.tables W hW'
    have hL : LedgerOf ((s.edited L op).Own W) L :=
      (hold.ledger.mono (hown W)).edited (fun x hx => own_of_copies hop hx) he
    exact ⟨hL.log, hL.rows, hold.names, hold.mark⟩
  · obtain ⟨h1, h2, h3⟩ := h.cycle σ p hp
    refine ⟨?_, h2, fun Q hQ => h3 Q (fun x hx => hQ x (hown _ x hx))⟩
    cases hid : s.inst.vault.vaultId with
    | none =>
      have ht : (s.edited L op).tenant = s.tenant := by
        show (match s.inst.vault.vaultId with | some V => some V | none => s.tenant) = s.tenant
        rw [hid]
      unfold LetTo at h1 ⊢
      rwa [ht]
    | some V =>
      rw [← h2 V hid]
      exact hlet V hid

theorem Tidy.begun (h : Tidy site s) {σ : Session} (hv : s.inst.vault.vaultId = some σ.vault) :
    Tidy site (s.begun site σ) := by
  refine ⟨h.uploads, fun p hp => h.held p (site.connect_holds () s.dest hp),
    fun V hV => (h.tables V hV).of_same rfl rfl (fun _ h => h) (fun _ h => h), h.current, fun τ p hp => ?_⟩
  cases hp
  refine ⟨h.current _ hv, fun V hV => ?_, fun Q _ => runCycle_guards _⟩
  exact Option.some.inj (hV.symm.trans hv)

/-- A query changes the tables within what the vault may hold. -/
theorem HoldsOnly.queried (h : s.HoldsOnly V) {σ : Session} {q : Query β} {k : Except SyncError q.Reply → Sync β Unit}
    {wall : ℕ → ℕ} {coin : ℕ} (hw : writes q = true → σ.vault = V ∧ MayAsk V (s.Own V) (.query q)) :
    (s.queried σ q k wall coin).HoldsOnly V := by
  cases q with
  | record reason names =>
    refine ⟨h.log, h.rows, fun n hn => ?_, h.mark⟩
    rcases Finset.mem_union.mp hn with hn | hn
    · exact h.names n hn
    · have hmem := List.mem_toFinset.mp hn
      refine (hw ?_).2 n hmem
      cases names with
      | nil => exact absurd hmem List.not_mem_nil
      | cons _ _ => rfl
  | forget name => exact ⟨h.log, h.rows, fun n hn => h.names n (Finset.mem_of_mem_erase hn), h.mark⟩
  | observeStamps stamps => exact ⟨h.log, h.rows, h.names, h.mark⟩
  | merge ops =>
    have hops : ∀ op ∈ ops, ∀ x, Operation.Copies x op → s.Own V x := by
      intro op hop x hx
      refine own_of_copies ((hw ?_).2 op hop) hx
      cases ops with
      | nil => exact absurd hop List.not_mem_nil
      | cons _ _ => rfl
    have hL := h.ledger.merge hops
    exact ⟨hL.log, hL.rows, h.names, h.mark⟩
  | markSynced stamps =>
    have hL := h.ledger.markSynced stamps
    exact ⟨hL.log, hL.rows, h.names, h.mark⟩
  | setLastSnapshot w => exact ⟨h.log, h.rows, h.names, fun _ => congrArg some (hw rfl).1⟩
  | _ => exact ⟨h.log, h.rows, h.names, h.mark⟩

/-- What a device answers is the vault's own when its tables are. -/
theorem gets_answer (h : s.HoldsOnly V) {Q : Operation β → Prop} (hQ : ∀ op, s.Own V op → Q op) (q : Query β)
    (wall : ℕ → ℕ) (coin : ℕ) : Gets V Q (.query q) (s.device.answer wall coin q).1 := by
  cases q with
  | pendingOperations =>
    intro o ho
    exact hQ _ (h.log o (Ledger.mem_unsynced.mp (List.mem_of_mem_take ho)).1)
  | readTable e =>
    intro r hr
    refine RowOf.mono hQ (h.rows (e, r.id) r ?_)
    exact Table.get?_eq_some.mpr ⟨hr, rfl⟩
  | observeStamps stamps =>
    cases (s.device.answer wall coin (.observeStamps stamps)).1 <;> trivial
  | _ => trivial

theorem Tidy.queried (h : Tidy site s) {σ : Session} {q : Query β} {k : Except SyncError q.Reply → Sync β Unit}
    {wall : ℕ → ℕ} {coin : ℕ} (hc : s.cycle = some (σ, .ask (.query q) k)) :
    Tidy site (s.queried σ q k wall coin) := by
  obtain ⟨hσ, hid, hg⟩ := h.cycle σ _ hc
  have hmay : MayAsk σ.vault (s.Own σ.vault) (.query q) := (hg (s.Own σ.vault) (fun _ h => h)).1
  have hlet : (s.queried σ q k wall coin).LetTo σ.vault := by
    unfold LetTo Tenancy.queried
    simp only
    split_ifs
    · exact Or.inr rfl
    · exact hσ
  refine ⟨h.uploads, h.held, fun W hW => ?_, fun V hV => ?_, fun τ p hp => ?_⟩
  · -- either the query writes, and then for the vault of the cycle, or the tables are let to the same as before
    have hW' : s.LetTo W ∧ (writes q = true → σ.vault = W) := by
      unfold LetTo Tenancy.queried at hW
      simp only at hW
      split_ifs at hW with hq
      · have hσW : σ.vault = W := hW.elim (fun h => by cases h) (fun h => Option.some.inj h)
        exact ⟨hσW ▸ hσ, fun _ => hσW⟩
      · exact ⟨hW, fun hq' => absurd hq' hq⟩
    refine (h.tables W hW'.1).queried (fun hq => ?_)
    have hσW := hW'.2 hq
    exact ⟨hσW, hσW ▸ hmay⟩
  · rw [hid V hV]
    exact hlet
  · cases hp
    exact ⟨hlet, hid, fun Q hQ => (hg Q hQ).2 _ (gets_answer (h.tables _ hσ) hQ q wall coin)⟩

theorem Tidy.called (h : Tidy site s) {σ : Session} {c : Call β} {k : Except SyncError c.Reply → Sync β Unit}
    {r : Except SyncError c.Reply} {dest : S} (hc : s.cycle = some (σ, .ask (.call c) k))
    (hdest : ∀ p ∈ site.holds dest, p ∈ site.holds s.dest ∨ c = .put p.1 p.2)
    (hr : ∀ Q : Operation β → Prop, (∀ op, s.Own σ.vault op → Q op) → Gets σ.vault Q (.call c) r) :
    Tidy site (s.called σ c (k r) dest) := by
  obtain ⟨hσ, hid, hg⟩ := h.cycle σ _ hc
  have hmay : MayAsk σ.vault (s.Own σ.vault) (.call c) := (hg (s.Own σ.vault) (fun _ h => h)).1
  -- what is put is the vault's own
  have hput : ∀ n e, c = .put n e → n.vault = e.header.v ∧ ∀ op ∈ e.operations, s.Own e.header.v op := by
    rintro n e rfl
    obtain ⟨hn, he, hops⟩ := hmay
    rw [he]
    exact ⟨hn, hops⟩
  refine ⟨fun p hp => ?_, fun p hp op hop => ?_,
    fun V hV => (h.tables V hV).of_same rfl rfl (fun _ h => h) (fun _ h => h), h.current, fun τ p hp => ?_⟩
  · have hp' : p ∈ s.uploads ∨ c = .put p.1 p.2 := by
      cases c with
      | put n e =>
        rcases hp with rfl | hp
        · exact Or.inr rfl
        · exact Or.inl hp
      | _ => exact Or.inl hp
    exact hp'.elim (h.uploads p) (hput p.1 p.2)
  · rcases hdest p hp with hp | hp
    · exact h.held p hp op hop
    · exact (hput p.1 p.2 hp).2 op hop
  · cases hp
    exact ⟨hσ, hid, fun Q hQ => (hg Q hQ).2 r (hr Q hQ)⟩

theorem gets_serve (h : Tidy site s) {Q : Operation β → Prop} (hQ : ∀ op, s.Own V op → Q op) (c : Call β) :
    Gets V Q (.call c) (site.serve () c s.dest).1 := by
  cases c with
  | list v kind =>
    cases hr : (site.serve () (.list v kind) s.dest).1 with
    | ok names => exact fun n hn => (site.list_holds () v kind s.dest names hr n hn).1
    | error e => trivial
  | get n =>
    cases hr : (site.serve () (.get n) s.dest).1 with
    | ok e =>
      intro hv op hop
      refine hQ op ?_
      rw [← hv]
      exact h.held (n, e) (site.get_holds () n s.dest e hr) op hop
    | error e => trivial
  | _ => trivial

/-- The step lemma of `Tidy`. -/
theorem Tidy.step (h : Tidy site s) (hs : Step nfkc site (Unshared nfkc) s s') : Tidy site s' := by
  cases hs with
  | command c hc => exact h.commanded hc
  | switch fails enabled => exact h.switched fails enabled
  | put device wall e id body L op hd hput => exact h.edited (Ledger.put_edited hput)
  | remove device wall e id L op hd hrem => exact h.edited (Ledger.remove_edited hrem)
  | begin σ hc hu hk hv hv' hd hd' => exact h.begun hv
  | query σ q k wall coin hc => exact h.queried hc
  | call σ c k hc => exact h.called hc (fun p hp => site.serve_holds () c s.dest p hp) (fun Q hQ => gets_serve h hQ c)
  | mishap σ c k retryable dest hc hm =>
    refine h.called hc (fun p hp => site.mishap_holds () c s.dest dest hm p hp) (fun Q _ => ?_)
    cases c <;> trivial
  | finish σ p hc hp => exact ⟨h.uploads, h.held,
      fun V hV => (h.tables V hV).of_same rfl rfl (fun _ h => h) (fun _ h => h), h.current, fun τ p hp => by cases hp⟩
  | arrive dest objects hd =>
    have hown : ∀ V x, s.Own V x → ({ s with dest, arrived := s.arrived ∪ objects } : Tenancy β S).Own V x :=
      fun V x hx => hx.mono (Set.Subset.refl _) Set.subset_union_left
    refine ⟨fun p hp => ⟨(h.uploads p hp).1, fun x hx => hown _ x ((h.uploads p hp).2 x hx)⟩, fun p hp x hx => ?_,
      fun V hV => (h.tables V hV).of_same rfl rfl (fun _ h => h) Set.subset_union_left, h.current, fun σ p hp => ?_⟩
    · rcases hd p hp with hp | hp
      · exact hown _ x (h.held p hp x hx)
      · exact ⟨x, .refl x, Or.inr ⟨p, Or.inr hp, rfl, hx⟩⟩
    · obtain ⟨h1, h2, h3⟩ := h.cycle σ p hp
      exact ⟨h1, h2, fun Q hQ => h3 Q (fun x hx => hQ x (hown _ x hx))⟩

/-- The run lemma of `Tidy`. -/
theorem tidy_of_reaches (h : Reaches nfkc site (Unshared nfkc) s) : Tidy site s := by
  induction h with
  | new durable dest => exact tidy_new durable dest
  | step _ hs ih => exact ih.step hs

/-- As long as the tables are not used for a second vault, no vault leaks into another. -/
theorem separate_of_unshared (nfkc : JsString → JsString) (site : Site Unit β S) (s : Tenancy β S)
    (h : Reaches nfkc site (Unshared nfkc) s) : s.Separate := (tidy_of_reaches h).separate

end Invariant

/-! ## Two vaults on one device -/

section Script

variable {nfkc : JsString → JsString} {ok : VaultCommand → Tenancy Unit (ObjectMap Unit) → Prop}
  {s : Tenancy Unit (ObjectMap Unit)}

/-- Put an entity, if the clock allows. -/
def editPut (wall : ℕ) (e : EntityName) (id : JsString) (s : Tenancy Unit (ObjectMap Unit)) :
    Tenancy Unit (ObjectMap Unit) :=
  match s.inst.vault.deviceId with
  | none => s
  | some device =>
    match s.device.ledger.put device wall e id () with
    | .ok (L, op) => s.edited L op
    | .error _ => s

/-- Serve the next request of the cycle under way. -/
def serveNext (s : Tenancy Unit (ObjectMap Unit)) : Tenancy Unit (ObjectMap Unit) :=
  match s.cycle with
  | some (σ, .ask (.query q) k) => s.queried σ q k (fun _ => 0) 0
  | some (σ, .ask (.call c) k) =>
    s.called σ c (k ((mapSite Unit Unit).serve () c s.dest).1) ((mapSite Unit Unit).serve () c s.dest).2
  | _ => s

/-- Remove an entity, if the clock allows. -/
def editRemove (wall : ℕ) (e : EntityName) (id : JsString) (s : Tenancy Unit (ObjectMap Unit)) :
    Tenancy Unit (ObjectMap Unit) :=
  match s.inst.vault.deviceId with
  | none => s
  | some device =>
    match s.device.ledger.remove device wall e id with
    | .ok (L, op) => s.edited L op
    | .error _ => s

/-- Serve the next requests of the cycle under way, as many as are asked for. -/
def serveMany : ℕ → Tenancy Unit (ObjectMap Unit) → Tenancy Unit (ObjectMap Unit)
  | 0, s => s
  | n + 1, s => serveMany n s.serveNext

/-- Another device puts an object. -/
def visited (n : ObjectName) (e : Envelope Unit) (s : Tenancy Unit (ObjectMap Unit)) : Tenancy Unit (ObjectMap Unit) :=
  { s with dest := s.dest.put (n, e), arrived := s.arrived ∪ {(n, e)} }

/-- The cycle under way is left, if it has come to its end. -/
def ended (s : Tenancy Unit (ObjectMap Unit)) : Tenancy Unit (ObjectMap Unit) :=
  match s.cycle with
  | some (_, .pure _) => { s with cycle := none }
  | _ => s

theorem reaches_editPut (h : Reaches nfkc (mapSite Unit Unit) ok s) (wall : ℕ) (e : EntityName) (id : JsString) :
    Reaches nfkc (mapSite Unit Unit) ok (s.editPut wall e id) := by
  unfold editPut
  split
  · exact h
  · next device hd =>
    split
    · next L op hput => exact h.step (.put s device wall e id () L op hd hput)
    · exact h

theorem reaches_serveNext (h : Reaches nfkc (mapSite Unit Unit) ok s) :
    Reaches nfkc (mapSite Unit Unit) ok s.serveNext := by
  unfold serveNext
  split
  · next σ q k hc => exact h.step (.query s σ q k _ 0 hc)
  · next σ c k hc => exact h.step (.call s σ c k hc)
  · exact h

theorem reaches_editRemove (h : Reaches nfkc (mapSite Unit Unit) ok s) (wall : ℕ) (e : EntityName) (id : JsString) :
    Reaches nfkc (mapSite Unit Unit) ok (s.editRemove wall e id) := by
  unfold editRemove
  split
  · exact h
  · next device hd =>
    split
    · next L op hrem => exact h.step (.remove s device wall e id L op hd hrem)
    · exact h

theorem reaches_serveMany (n : ℕ) (h : Reaches nfkc (mapSite Unit Unit) ok s) :
    Reaches nfkc (mapSite Unit Unit) ok (serveMany n s) := by
  induction n generalizing s with
  | zero => exact h
  | succ n ih => exact ih (reaches_serveNext h)

theorem reaches_visited (h : Reaches nfkc (mapSite Unit Unit) ok s) (n : ObjectName) (e : Envelope Unit) :
    Reaches nfkc (mapSite Unit Unit) ok (s.visited n e) := by
  refine h.step (.arrive s _ {(n, e)} fun p hp => ?_)
  rcases Table.mem_put.mp hp with rfl | ⟨hp, -⟩
  · exact Or.inr rfl
  · exact Or.inl hp

theorem reaches_ended (h : Reaches nfkc (mapSite Unit Unit) ok s) : Reaches nfkc (mapSite Unit Unit) ok s.ended := by
  unfold ended
  split
  · next σ a hc => exact h.step (.finish s σ _ hc (fun q k hq => by cases hq))
  · exact h

/-- The random draws of a vault with the given id. -/
def randomFor (uuid : JsString) : VaultService.Random := { someRandom with uuid := uuid }

/-- A new installation on which a vault is created and an account put. -/
def oneVault : Tenancy Unit (ObjectMap Unit) :=
  editPut 10 .accounts (js "x")
    ((new (mapSite Unit Unit) false Table.empty).commanded id (.initialise noFaults [0, 0, 0, 0, 0, 0] true)
      |>.commanded id (.create noFaults (js "passphrase") (randomFor (js "v"))))

theorem reaches_oneVault (h : ok (.initialise noFaults [0, 0, 0, 0, 0, 0] true)
      (new (mapSite Unit Unit) false Table.empty) ∧
    ok (.create noFaults (js "passphrase") (randomFor (js "v")))
      ((new (mapSite Unit Unit) false Table.empty).commanded id (.initialise noFaults [0, 0, 0, 0, 0, 0] true))) :
    Reaches id (mapSite Unit Unit) ok oneVault := by
  refine reaches_editPut (.step (.step (.new false Table.empty) (.command _ _ ?_)) (.command _ _ ?_)) 10 .accounts _
  · exact h.1
  · exact h.2

/-- Another account as another device put it, in an object of the vault. -/
def visitor : Envelope Unit :=
  ⟨⟨js "v", js "BBBBBBBB", ⟨11, 0, js "BBBBBBBB"⟩, .ops⟩, 0, .ops ⟨js "v", js "BBBBBBBB", ⟨11, 0, js "BBBBBBBB"⟩,
    [⟨⟨11, 0, js "BBBBBBBB"⟩, .accounts, js "z", .put, some ⟨js "z", ⟨11, 0, js "BBBBBBBB"⟩, ()⟩, js "BBBBBBBB"⟩]⟩⟩

/-- The vault is locked and opened again, its account removed and another put. -/
def reopened : Tenancy Unit (ObjectMap Unit) :=
  editPut 13 .accounts (js "y") (editRemove 12 .accounts (js "x")
    ((oneVault.commanded id (.lock false)).commanded id (.unlock noFaults (js "passphrase"))))

/-- The vault syncs, with another device's object to merge. -/
def syncedOnce : Tenancy Unit (ObjectMap Unit) :=
  ended (serveMany 16 ((visited (opsObjectName (js "v") ⟨11, 0, js "BBBBBBBB"⟩) visitor reopened).begun
    (mapSite Unit Unit) ⟨js "v", js "AAAAAAAA"⟩))

/-- The key of the vault, as it is exported. -/
def exported : WrappedMasterKey :=
  wrapMasterKey id (randomFor (js "v")).key (js "passphrase") (randomFor (js "v")).salt (randomFor (js "v")).iv

/-- The vault is destroyed and restored from its exported key, and the merged account put again. -/
def restored : Tenancy Unit (ObjectMap Unit) :=
  editPut 20 .accounts (js "z") ((syncedOnce.commanded id (.destroy noFaults)).commanded id
    (.restore noFaults (js "v") exported (js "passphrase")))

/-- It syncs once more. -/
def movedBack : Tenancy Unit (ObjectMap Unit) :=
  serveMany 16 (restored.begun (mapSite Unit Unit) ⟨js "v", js "AAAAAAAA"⟩)

theorem reaches_reopened : Reaches id (mapSite Unit Unit) (Unshared id) reopened := by
  refine reaches_editPut (reaches_editRemove (.step (.step (reaches_oneVault ⟨fun V h => ?_, fun V h => ?_⟩)
    (.command _ _ fun V h => ?_)) (.command _ _ fun V h => ?_)) 12 .accounts _) 13 .accounts _
  · cases h
  · exact ⟨Or.inl rfl, fun σ p h => by cases h⟩
  · cases h
  · cases h

theorem reaches_syncedOnce : Reaches id (mapSite Unit Unit) (Unshared id) syncedOnce :=
  reaches_ended (reaches_serveMany 16 (.step (reaches_visited reaches_reopened _ visitor)
    (.begin _ ⟨js "v", js "AAAAAAAA"⟩ rfl (by decide +kernel) (by decide +kernel) (by decide +kernel) (by decide)
      (by decide +kernel) (by decide))))

/-- The vault that is restored is the one the tables were written for. -/
theorem unshared_restore : Unshared id (.restore noFaults (js "v") exported (js "passphrase"))
    (syncedOnce.commanded id (.destroy noFaults)) := by
  intro V h
  have hup : VaultCommand.takesUp id (.restore noFaults (js "v") exported (js "passphrase"))
      (syncedOnce.commanded id (.destroy noFaults)).inst = some (js "v") := by decide +kernel
  cases hup.symm.trans h
  have htenant : (syncedOnce.commanded id (.destroy noFaults)).tenant = some (js "v") := by decide +kernel
  have hcycle : (syncedOnce.commanded id (.destroy noFaults)).cycle.isNone = true := by decide +kernel
  refine ⟨Or.inr htenant, fun σ p hp => ?_⟩
  rw [Option.isNone_iff_eq_none.mp hcycle] at hp
  cases hp

theorem reaches_movedBack : Reaches id (mapSite Unit Unit) (Unshared id) movedBack := by
  have hcycle : restored.cycle.isNone = true := by decide +kernel
  refine reaches_serveMany 16 (.step (reaches_editPut (.step (.step reaches_syncedOnce (.command _ _ fun V h => ?_))
    (.command _ _ unshared_restore)) 20 .accounts _)
      (.begin restored ⟨js "v", js "AAAAAAAA"⟩ (Option.isNone_iff_eq_none.mp hcycle) (by decide +kernel)
        (by decide +kernel) (by decide +kernel) (by decide) (by decide +kernel) (by decide)))
  cases h

/-- Both uploads and the other device's object are the vault's own. -/
theorem separate_movedBack : movedBack.dest.rows.map (fun p => (p.1.vault, p.2.operations.length)) =
    [(js "v", 1), (js "v", 3), (js "v", 1)] ∧ movedBack.Separate :=
  ⟨by decide +kernel, separate_of_unshared id (mapSite Unit Unit) movedBack reaches_movedBack⟩

/-- The vault is destroyed and another one created. -/
def secondVault : Tenancy Unit (ObjectMap Unit) :=
  (oneVault.commanded id (.destroy noFaults)).commanded id
    (.create noFaults (js "passphrase") (randomFor (js "w")))

/-- The second vault syncs, as far as its first upload. -/
def secondUpload : Tenancy Unit (ObjectMap Unit) :=
  (secondVault.begun (mapSite Unit Unit) ⟨js "w", js "AAAAAAAA"⟩).serveNext.serveNext.serveNext.serveNext.serveNext.serveNext

/-- The account of the first vault, as it was written. -/
def firstWrite : Operation Unit :=
  ⟨⟨10, 0, js "AAAAAAAA"⟩, .accounts, js "x", .put, some ⟨js "x", ⟨10, 0, js "AAAAAAAA"⟩, ()⟩, js "AAAAAAAA"⟩

theorem secondUpload_authored : secondUpload.authored = insert (some (js "v"), firstWrite) ∅ := rfl

theorem secondUpload_arrived : secondUpload.arrived = (mapSite Unit Unit).holds Table.empty := rfl

/-- A vault uploads what was written for the vault before it. -/
theorem exists_not_separate : ¬ ∀ s : Tenancy Unit (ObjectMap Unit),
    Reaches id (mapSite Unit Unit) (fun _ _ => True) s → s.Separate := by
  intro h
  have hreach : Reaches id (mapSite Unit Unit) (fun _ _ => True) secondUpload := by
    have h1 := @reaches_oneVault (fun _ _ => True) ⟨trivial, trivial⟩
    have h2 : Reaches id (mapSite Unit Unit) (fun _ _ => True) secondVault :=
      (h1.step (.command _ _ trivial)).step (.command _ _ trivial)
    have h3 := h2.step (.begin _ ⟨js "w", js "AAAAAAAA"⟩ rfl rfl rfl rfl (by decide) rfl (by decide))
    exact reaches_serveNext (reaches_serveNext (reaches_serveNext (reaches_serveNext (reaches_serveNext
      (reaches_serveNext h3)))))
  have hmem : (opsObjectName (js "w") ⟨10, 0, js "AAAAAAAA"⟩,
      (⟨⟨js "w", js "AAAAAAAA", ⟨10, 0, js "AAAAAAAA"⟩, .ops⟩, 0,
        .ops ⟨js "w", js "AAAAAAAA", ⟨10, 0, js "AAAAAAAA"⟩, [firstWrite]⟩⟩ : Envelope Unit)) ∈
      secondUpload.uploads := Or.inl rfl
  obtain ⟨src, -, hsrc⟩ := ((h secondUpload hreach).uploads _ hmem).2 firstWrite List.mem_cons_self
  rw [secondUpload_authored, secondUpload_arrived, mapSite_empty] at hsrc
  rcases hsrc with (hs | hs) | ⟨p, hp, -⟩
  · rcases hs with hs | hs
    · have hv : some (js "w") = some (js "v") := congrArg Prod.fst hs
      exact absurd hv (by decide)
    · exact hs
  · rcases hs with hs | hs
    · have hv : (none : Option JsString) = some (js "v") := congrArg Prod.fst hs
      cases hv
    · exact hs
  · exact hp

end Script

end Tenancy

end EasyDocket
