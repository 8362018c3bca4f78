import EasyDocket.LedgerFacts
import EasyDocket.Lib.Folding

/-!
# Backups

A backup is a snapshot of every entity.  It is restored through the ledger, row by row, and a row that the tables have a
newer one of is left alone.
-/

namespace EasyDocket

namespace Backup

variable {β : Type}

/-! ## Payloads -/

def BACKUP_FORMAT : ℤ := 1

/-- An item of a section: a row, or something without an `id`. -/
inductive Item (β : Type)
  | row (r : Row β)
  | malformed

structure BackupPayload (β : Type) where
  takenAt : ℤ
  /-- The vault the backup came from; a restore into another vault is refused. -/
  vaultId : JsString
  /-- Every entity, keyed by name; a section that is not there is empty. -/
  entities : EntityName → List (Item β)

/-- The `format` of a decrypted value. -/
inductive Format
  | missing
  | number (n : ℤ)
  | other (text : JsString)
  deriving DecidableEq

/-- A decrypted value, as far as it is checked: fields that do not have their type are `none`, and so is a section that is
not an array. -/
inductive Value (β : Type)
  | other
  | object (format : Format) (takenAt : Option ℤ) (vaultId : Option JsString)
      (entities : Option (List (JsString × Option (List (Item β)))))

/-- An entity as it is named in a payload. -/
def nameOf : EntityName → JsString
  | .accountGroups => js "accountGroups"
  | .accounts => js "accounts"
  | .categories => js "categories"
  | .transactions => js "transactions"
  | .budgets => js "budgets"
  | .recurringRules => js "recurringRules"
  | .rates => js "rates"
  | .vaultSettings => js "vaultSettings"

/-- Why a backup is refused, with the message of the error. -/
structure BackupFormatError where
  message : JsString
  deriving DecidableEq

/-- The message for a format that is not the current one. -/
def formatMessage : Format → JsString
  | .missing => js "That file does not contain a backup"
  | .number n => js "This backup was written by a newer version of Easy Docket (format " ++ js (toString n) ++ js ")"
  | .other text => js "This backup was written by a newer version of Easy Docket (format " ++ text ++ js ")"

/-- The check of one section. -/
def checkSection (entry : JsString × Option (List (Item β))) : Except BackupFormatError Unit :=
  if entry.1 ∉ ENTITY_NAMES.map nameOf then .error ⟨js "The backup contains unknown data (\"" ++ entry.1 ++ js "\")"⟩
  else if entry.2.isNone then .error ⟨js "The backup's \"" ++ entry.1 ++ js "\" section is malformed"⟩
  else .ok ()

/-- `validateBackup`: check a decrypted payload before anything is written. -/
def validateBackup : Value β → Except BackupFormatError (BackupPayload β)
  | .other => .error ⟨js "That file does not contain a backup"⟩
  | .object format takenAt vaultId entities =>
    if format ≠ .number BACKUP_FORMAT then .error ⟨formatMessage format⟩
    else
      match vaultId.filter (fun id => id ≠ []), entities with
      | none, _ => .error ⟨js "The backup does not say which vault it came from"⟩
      | some _, none => .error ⟨js "The backup contains no entities"⟩
      | some vaultId, some entities => do
        entities.forM checkSection
        .ok ⟨takenAt.getD 0, vaultId, fun e => ((entities.lookup (nameOf e)).join).getD []⟩

/-- `inspect`, once the file is decrypted. -/
def inspect (vaultId : JsString) (value : Value β) : Except BackupFormatError (BackupPayload β) := do
  let payload ← validateBackup value
  if payload.vaultId ≠ vaultId then .error ⟨js "That backup belongs to a different vault"⟩ else .ok payload

/-- `build`: the payload for the current vault. -/
def build (takenAt : ℤ) (vaultId : JsString) (L : Ledger β) : BackupPayload β :=
  ⟨takenAt, vaultId, fun e => (L.tables e).rows.map Item.row⟩

/-! ## Restoring -/

structure RestoreResult where
  /-- Rows written into the ledger. -/
  restored : ℕ
  /-- Rows already present and newer, so left alone. -/
  skipped : ℕ
  deriving DecidableEq

/-- `isNewerLocally`: whether what is on this device already supersedes the backed-up row. -/
def isNewerLocally (L : Ledger β) (e : EntityName) (r : Row β) : Bool :=
  match (L.tables e).get? r.id with
  | none => false
  | some existing => r.updatedAt < existing.updatedAt

/-- The body of the loop of `restore`; `wall` gives the clock reading of each write. -/
def restoreItem (device : JsString) (wall : ℕ → ℕ) (acc : Ledger β × RestoreResult) (item : EntityName × Item β) :
    Except ClockError (Ledger β × RestoreResult) :=
  match item.2 with
  | .malformed => .ok (acc.1, { acc.2 with skipped := acc.2.skipped + 1 })
  | .row r =>
    if isNewerLocally acc.1 item.1 r then .ok (acc.1, { acc.2 with skipped := acc.2.skipped + 1 })
    else
      match acc.1.put device (wall acc.2.restored) item.1 r.id r.body with
      | .error e => .error e
      | .ok (L, _) => .ok (L, { acc.2 with restored := acc.2.restored + 1 })

/-- `restore`: restore a backup into the current vault. -/
def restore (device : JsString) (wall : ℕ → ℕ) (payload : BackupPayload β) (L : Ledger β) :
    Except ClockError (Ledger β × RestoreResult) :=
  ENTITY_NAMES.foldlM (fun acc e =>
    (payload.entities e).foldlM (fun acc item => restoreItem device wall acc (e, item)) acc) (L, ⟨0, 0⟩)

/-! ## Backed-up rows -/

/-- All items of a payload, in the order in which they are restored. -/
def items (payload : BackupPayload β) : List (EntityName × Item β) :=
  ENTITY_NAMES.flatMap (fun e => (payload.entities e).map (fun item => (e, item)))

/-- The rows among some items. -/
def rowsOf (l : List (EntityName × Item β)) : List (EntityName × Row β) :=
  l.filterMap (fun item => match item.2 with
    | .row r => some (item.1, r)
    | .malformed => none)

/-- What a backed-up row is about. -/
def targetOf (p : EntityName × Row β) : EntityName × JsString := (p.1, p.2.id)

/-- The well-formed rows of a payload. -/
def backedUp (payload : BackupPayload β) : List (EntityName × Row β) := rowsOf (items payload)

variable {device : JsString} {wall : ℕ → ℕ} {payload : BackupPayload β} {L L' : Ledger β} {e : EntityName} {r : Row β}
  {l : List (EntityName × Item β)} {acc acc' : Ledger β × RestoreResult} {p : EntityName × Row β}

theorem restore_eq : restore device wall payload L = (items payload).foldlM (restoreItem device wall) (L, ⟨0, 0⟩) := by
  unfold restore items
  rw [foldlM_flatMap]
  refine congrArg (fun f => ENTITY_NAMES.foldlM f (L, (⟨0, 0⟩ : RestoreResult))) (funext (fun acc => funext (fun e => ?_)))
  rw [List.foldlM_map]

theorem rowsOf_row : rowsOf ((e, .row r) :: l) = (e, r) :: rowsOf l := rfl

theorem isNewerLocally_iff : isNewerLocally L e r = true ↔ ∃ x, L.rowAt (e, r.id) = some x ∧ r.updatedAt < x.updatedAt := by
  unfold isNewerLocally Ledger.rowAt
  cases hget : (L.tables e).get? r.id with
  | none => simp
  | some x => simp

/-- Whether a row is older than one in its table depends on the row of that entity only. -/
theorem isNewerLocally_congr (h : L'.rowAt (targetOf p) = L.rowAt (targetOf p)) :
    isNewerLocally L' p.1 p.2 = isNewerLocally L p.1 p.2 := by
  rw [Bool.eq_iff_iff, isNewerLocally_iff, isNewerLocally_iff]
  unfold targetOf at h
  rw [h]

/-! ## One row -/

/-- What writing one backed-up row does. -/
structure Written (device : JsString) (L L' : Ledger β) (p : EntityName × Row β) (c : Clock) : Prop where
  clock : L'.clock = c
  later : L.clock.time < c.time
  rows : ∀ t, L'.rowAt t = if t = targetOf p then some ⟨p.2.id, c.stamp device, p.2.body⟩ else L.rowAt t
  oplog : ∃ op : Operation β, op.target = targetOf p ∧ op.hlc = c.stamp device ∧ L'.oplog = L.oplog.put ⟨op, false⟩

variable (device p) in
theorem written_of_put {wall : ℕ} {c : Clock} (h : L.clock.tick wall = .ok c) :
    ∃ L' op, L.put device wall p.1 p.2.id p.2.body = .ok (L', op) ∧ Written device L L' p c := by
  obtain ⟨L', op, hput⟩ : ∃ L' op, L.put device wall p.1 p.2.id p.2.body = .ok (L', op) :=
    ⟨_, _, Ledger.put_of_tick h⟩
  have heq := (Ledger.put_of_tick h).symm.trans hput
  cases heq
  have hedited := Ledger.put_edited hput
  exact ⟨_, _, hput, rfl, Clock.time_lt_tick h, hedited.rows, _, rfl, rfl, hedited.oplog⟩

theorem restoreItem_newer (h : isNewerLocally acc.1 e r = true) :
    restoreItem device wall acc (e, .row r) = .ok (acc.1, { acc.2 with skipped := acc.2.skipped + 1 }) := if_pos h

theorem restoreItem_ok (h : ¬ isNewerLocally acc.1 e r = true)
    (hok : restoreItem device wall acc (e, .row r) = .ok acc') :
    ∃ c, acc.1.clock.tick (wall acc.2.restored) = .ok c ∧ Written device acc.1 acc'.1 (e, r) c ∧
      acc'.2 = { acc.2 with restored := acc.2.restored + 1 } := by
  unfold restoreItem at hok
  dsimp only at hok
  rw [if_neg h] at hok
  cases htick : acc.1.clock.tick (wall acc.2.restored) with
  | error x =>
    have hput : acc.1.put device (wall acc.2.restored) e r.id r.body = .error x := by
      unfold Ledger.put
      rw [htick]
      rfl
    rw [hput] at hok
    cases hok
  | ok c =>
    obtain ⟨L', op, hput, hwritten⟩ := written_of_put device (e, r) htick
    rw [hput] at hok
    have hacc := Except.ok.inj hok
    exact ⟨c, rfl, hacc ▸ hwritten, hacc ▸ rfl⟩

/-! ## A second run -/

/-- The rows that a run writes are all stamped after they were backed up. -/
def stampsPast (device : JsString) (wall : ℕ → ℕ) : ℕ → Clock → List (EntityName × Row β) → Bool
  | _, _, [] => true
  | k, c, p :: ps =>
    match c.tick (wall k) with
    | .error _ => false
    | .ok c' => decide (p.2.updatedAt < c'.stamp device) && stampsPast device wall (k + 1) c' ps

theorem stampsPast_cons {k : ℕ} {c c' : Clock} {ps : List (EntityName × Row β)} (h : c.tick (wall k) = .ok c') :
    stampsPast device wall k c (p :: ps) = true ↔
      p.2.updatedAt < c'.stamp device ∧ stampsPast device wall (k + 1) c' ps = true := by
  rw [stampsPast, h]
  simp

/-- The rows that a run writes. -/
def toWrite (L : Ledger β) (rows : List (EntityName × Row β)) : List (EntityName × Row β) :=
  rows.filter (fun p => !isNewerLocally L p.1 p.2)

theorem toWrite_congr {rows : List (EntityName × Row β)} (h : ∀ p ∈ rows, L'.rowAt (targetOf p) = L.rowAt (targetOf p)) :
    toWrite L' rows = toWrite L rows :=
  List.filter_congr (fun p hp => by rw [isNewerLocally_congr (h p hp)])

/-- A run leaves every other entity alone; by induction on the items. -/
theorem rowAt_of_run : ∀ (l : List (EntityName × Item β)) {acc acc' : Ledger β × RestoreResult} {t : EntityName × JsString},
    l.foldlM (restoreItem device wall) acc = .ok acc' → (∀ p ∈ rowsOf l, targetOf p ≠ t) → acc'.1.rowAt t = acc.1.rowAt t
  | [], acc, acc', t, h, _ => by rw [← Except.ok.inj h]
  | (e, .malformed) :: l, acc, acc', t, h, ht => by
    obtain ⟨mid, hstep, hrest⟩ := foldlM_cons_ok h
    rw [rowAt_of_run l hrest ht, ← Except.ok.inj hstep]
  | (e, .row r) :: l, acc, acc', t, h, ht => by
    obtain ⟨mid, hstep, hrest⟩ := foldlM_cons_ok h
    rw [rowAt_of_run l hrest (fun p hp => ht p (List.mem_cons_of_mem _ hp))]
    by_cases hnewer : isNewerLocally acc.1 e r = true
    · rw [restoreItem_newer hnewer] at hstep
      rw [← Except.ok.inj hstep]
    · obtain ⟨c, -, hwritten, -⟩ := restoreItem_ok hnewer hstep
      rw [hwritten.rows t, if_neg (fun he => ht (e, r) List.mem_cons_self he.symm)]

/-- After a run, the tables have newer rows of all if and only if what was written is stamped after it was backed up. -/
theorem newer_after_run : ∀ (l : List (EntityName × Item β)) {acc acc' : Ledger β × RestoreResult},
    ((rowsOf l).map targetOf).Nodup → l.foldlM (restoreItem device wall) acc = .ok acc' →
    ((∀ p ∈ rowsOf l, isNewerLocally acc'.1 p.1 p.2 = true) ↔
      stampsPast device wall acc.2.restored acc.1.clock (toWrite acc.1 (rowsOf l)) = true)
  | [], acc, acc', _, h => ⟨fun _ => rfl, fun _ p hp => absurd hp List.not_mem_nil⟩
  | (e, .malformed) :: l, acc, acc', hn, h => by
    obtain ⟨mid, hstep, hrest⟩ := foldlM_cons_ok h
    have hmid := Except.ok.inj hstep
    have ih := newer_after_run l hn hrest
    rw [← hmid] at ih
    exact ih
  | (e, .row r) :: l, acc, acc', hn, h => by
    obtain ⟨mid, hstep, hrest⟩ := foldlM_cons_ok h
    rw [rowsOf_row, List.map_cons, List.nodup_cons] at hn
    have hothers : ∀ p ∈ rowsOf l, targetOf p ≠ targetOf (e, r) :=
      fun p hp he => hn.1 (List.mem_map.mpr ⟨p, hp, he⟩)
    have hkept : acc'.1.rowAt (targetOf (e, r)) = mid.1.rowAt (targetOf (e, r)) := rowAt_of_run l hrest hothers
    have ih := newer_after_run l hn.2 hrest
    rw [rowsOf_row, List.forall_mem_cons, ih]
    have hhead : isNewerLocally acc'.1 e r = isNewerLocally mid.1 e r := isNewerLocally_congr (p := (e, r)) hkept
    by_cases hnewer : isNewerLocally acc.1 e r = true
    · rw [restoreItem_newer hnewer] at hstep
      have hmid := Except.ok.inj hstep
      have hfilter : toWrite acc.1 ((e, r) :: rowsOf l) = toWrite acc.1 (rowsOf l) :=
        List.filter_cons_of_neg (by simp [hnewer])
      rw [hhead, hfilter, ← hmid]
      exact and_iff_right hnewer
    · obtain ⟨c, htick, hwritten, hcount⟩ := restoreItem_ok hnewer hstep
      have hrest' : toWrite mid.1 (rowsOf l) = toWrite acc.1 (rowsOf l) :=
        toWrite_congr (fun p hp => by rw [hwritten.rows, if_neg (hothers p hp)])
      have hfilter : toWrite acc.1 ((e, r) :: rowsOf l) = (e, r) :: toWrite acc.1 (rowsOf l) :=
        List.filter_cons_of_pos (by simp [hnewer])
      have hstamp : isNewerLocally mid.1 e r = true ↔ r.updatedAt < c.stamp device := by
        rw [isNewerLocally_iff, hwritten.rows, if_pos (show (e, r.id) = targetOf (e, r) from rfl)]
        constructor
        · rintro ⟨x, hx, hlt⟩
          rwa [← Option.some.inj hx] at hlt
        · exact fun hlt => ⟨_, rfl, hlt⟩
      rw [hhead, hstamp, hfilter, hrest', hwritten.clock, hcount, stampsPast_cons htick]

/-- A run that finds newer rows of all leaves the ledger as it is. -/
theorem idle_run : ∀ (l : List (EntityName × Item β)) (acc : Ledger β × RestoreResult),
    (∀ p ∈ rowsOf l, isNewerLocally acc.1 p.1 p.2 = true) →
    l.foldlM (restoreItem device wall) acc = .ok (acc.1, { acc.2 with skipped := acc.2.skipped + l.length })
  | [], acc, _ => rfl
  | (e, .malformed) :: l, acc, h => by
    refine (idle_run l (acc.1, { acc.2 with skipped := acc.2.skipped + 1 }) h).trans ?_
    simp [Nat.add_assoc, Nat.add_comm]
  | (e, .row r) :: l, acc, h => by
    rw [List.foldlM_cons, restoreItem_newer (h (e, r) List.mem_cons_self)]
    refine (idle_run l (acc.1, { acc.2 with skipped := acc.2.skipped + 1 })
      (fun p hp => h p (List.mem_cons_of_mem _ hp))).trans ?_
    simp [Nat.add_assoc, Nat.add_comm]

theorem restored_le : ∀ (l : List (EntityName × Item β)) {acc acc' : Ledger β × RestoreResult},
    l.foldlM (restoreItem device wall) acc = .ok acc' → acc.2.restored ≤ acc'.2.restored
  | [], acc, acc', h => by rw [← Except.ok.inj h]
  | (e, .malformed) :: l, acc, acc', h => by
    obtain ⟨mid, hstep, hrest⟩ := foldlM_cons_ok h
    have hmid := Except.ok.inj hstep
    have hle := restored_le l hrest
    rw [← hmid] at hle
    exact hle
  | (e, .row r) :: l, acc, acc', h => by
    obtain ⟨mid, hstep, hrest⟩ := foldlM_cons_ok h
    have hle := restored_le l hrest
    by_cases hnewer : isNewerLocally acc.1 e r = true
    · rw [restoreItem_newer hnewer] at hstep
      rw [← Except.ok.inj hstep] at hle
      exact hle
    · obtain ⟨c, -, -, hcount⟩ := restoreItem_ok hnewer hstep
      rw [hcount] at hle
      exact Nat.le_of_succ_le hle

/-- A run that writes nothing has found newer rows of all. -/
theorem newer_of_idle : ∀ (l : List (EntityName × Item β)) {acc acc' : Ledger β × RestoreResult},
    l.foldlM (restoreItem device wall) acc = .ok acc' → acc'.2.restored = acc.2.restored →
    ∀ p ∈ rowsOf l, isNewerLocally acc.1 p.1 p.2 = true
  | [], _, _, _, _, _, hp => absurd hp List.not_mem_nil
  | (e, .malformed) :: l, acc, acc', h, hidle, p, hp => by
    obtain ⟨mid, hstep, hrest⟩ := foldlM_cons_ok h
    have hmid := Except.ok.inj hstep
    have ih := newer_of_idle l hrest (by rw [hidle, ← hmid]) p hp
    rw [← hmid] at ih
    exact ih
  | (e, .row r) :: l, acc, acc', h, hidle, p, hp => by
    obtain ⟨mid, hstep, hrest⟩ := foldlM_cons_ok h
    by_cases hnewer : isNewerLocally acc.1 e r = true
    · rw [restoreItem_newer hnewer] at hstep
      have hmid := Except.ok.inj hstep
      rcases List.mem_cons.mp hp with rfl | hp
      · exact hnewer
      · have ih := newer_of_idle l hrest (by rw [hidle, ← hmid]) p hp
        rw [← hmid] at ih
        exact ih
    · obtain ⟨c, -, -, hcount⟩ := restoreItem_ok hnewer hstep
      have hle := restored_le l hrest
      rw [hcount, hidle] at hle
      exact absurd hle (Nat.not_succ_le_self _)

/-! ## Restoring twice -/

theorem entityNames_nodup : ENTITY_NAMES.Nodup := by decide

theorem rowsOf_map (e : EntityName) (rows : List (Row β)) :
    rowsOf ((rows.map Item.row).map (fun item => (e, item))) = rows.map (fun r => (e, r)) := by
  induction rows with
  | nil => rfl
  | cons r rows ih =>
    rw [List.map_cons, List.map_cons, rowsOf_row, ih, List.map_cons]

theorem rowsOf_append (l l' : List (EntityName × Item β)) : rowsOf (l ++ l') = rowsOf l ++ rowsOf l' :=
  List.filterMap_append

/-- The rows of some sections of a ledger. -/
theorem rowsOf_build (L : Ledger β) (names : List EntityName) :
    rowsOf (names.flatMap (fun e => ((L.tables e).rows.map Item.row).map (fun item => (e, item)))) =
      names.flatMap (fun e => (L.tables e).rows.map (fun r => (e, r))) := by
  induction names with
  | nil => rfl
  | cons e names ih => rw [List.flatMap_cons, rowsOf_append, rowsOf_map, ih, List.flatMap_cons]

/-- A backup of a ledger has one row for each entity at most. -/
theorem build_nodup (takenAt : ℤ) (vaultId : JsString) (L : Ledger β) :
    ((backedUp (build takenAt vaultId L)).map targetOf).Nodup := by
  have hsection : ∀ e, (((L.tables e).rows.map (fun r => (e, r))).map targetOf).Nodup := by
    intro e
    rw [List.map_map, List.Nodup, List.pairwise_map]
    exact (L.tables e).sorted.imp (fun hlt heq => hlt.ne (Prod.mk.inj heq).2)
  have hrows : backedUp (build takenAt vaultId L) = ENTITY_NAMES.flatMap (fun e => (L.tables e).rows.map (fun r => (e, r))) :=
    rowsOf_build L ENTITY_NAMES
  rw [hrows, List.map_flatMap, List.nodup_flatMap]
  refine ⟨fun e _ => hsection e, entityNames_nodup.imp (fun {e e'} hne => ?_)⟩
  intro t ht ht'
  simp only [List.map_map, List.mem_map, Function.comp_apply, targetOf] at ht ht'
  obtain ⟨r, -, rfl⟩ := ht
  obtain ⟨r', -, heq⟩ := ht'
  exact hne (Prod.mk.inj heq).1.symm

theorem restore_idle_iff : (∃ result, restore device wall payload L = .ok (L, result) ∧ result.restored = 0) ↔
    ∀ p ∈ backedUp payload, isNewerLocally L p.1 p.2 = true := by
  rw [restore_eq]
  constructor
  · rintro ⟨result, hrun, hzero⟩
    exact newer_of_idle (items payload) hrun hzero
  · intro h
    exact ⟨_, idle_run (items payload) (L, ⟨0, 0⟩) h, rfl⟩

/-- After a restore, a second one finds nothing to do if and only if every row that the first one wrote was stamped after
it was backed up. -/
theorem restore_twice_iff {wall' : ℕ → ℕ} {takenAt : ℤ} {vaultId : JsString} {L₀ L₁ : Ledger β} {result : RestoreResult}
    (h : restore device wall (build takenAt vaultId L₀) L = .ok (L₁, result)) :
    (∃ again, restore device wall' (build takenAt vaultId L₀) L₁ = .ok (L₁, again) ∧ again.restored = 0) ↔
      stampsPast device wall 0 L.clock (toWrite L (backedUp (build takenAt vaultId L₀))) = true := by
  rw [restore_idle_iff]
  rw [restore_eq] at h
  exact newer_after_run _ (build_nodup takenAt vaultId L₀) h

/-- A ledger with one account, written at the given time. -/
def oneAccount (device : JsString) (wall : ℕ) : Ledger Unit :=
  match Ledger.empty.put device wall .accounts (js "x") () with
  | .ok (L, _) => L
  | .error _ => Ledger.empty

/-- A device whose clock is ahead of the backup restores it once. -/
theorem restore_twice_ahead : ∃ L₁ : Ledger Unit, ∃ result again : RestoreResult,
    restore (js "b") (fun _ => 200) (build 100 (js "v") (oneAccount (js "a") 100)) Ledger.empty = .ok (L₁, result) ∧
    result.restored = 1 ∧
    restore (js "b") (fun _ => 201) (build 100 (js "v") (oneAccount (js "a") 100)) L₁ = .ok (L₁, again) ∧
    again.restored = 0 := by
  have h : restore (js "b") (fun _ => 200) (build 100 (js "v") (oneAccount (js "a") 100)) Ledger.empty =
      .ok (oneAccount (js "b") 200, ⟨1, 0⟩) := rfl
  have hagain : ∃ again, restore (js "b") (fun _ => 201) (build 100 (js "v") (oneAccount (js "a") 100))
      (oneAccount (js "b") 200) = .ok (oneAccount (js "b") 200, again) ∧ again.restored = 0 :=
    (restore_twice_iff h).mpr (by decide)
  obtain ⟨again, hagain, hzero⟩ := hagain
  exact ⟨_, _, again, h, rfl, hagain, hzero⟩

/-- A device whose clock is behind the backup writes its rows every time. -/
theorem restore_twice_behind : ∃ L₁ L₂ : Ledger Unit, ∃ result again : RestoreResult,
    restore (js "b") (fun _ => 5) (build 100 (js "v") (oneAccount (js "a") 100)) Ledger.empty = .ok (L₁, result) ∧
    restore (js "b") (fun _ => 6) (build 100 (js "v") (oneAccount (js "a") 100)) L₁ = .ok (L₂, again) ∧
    again.restored = 1 ∧ L₂.oplog.rows.length = L₁.oplog.rows.length + 1 :=
  ⟨_, _, _, _, rfl, rfl, rfl, rfl⟩

end Backup

end EasyDocket
