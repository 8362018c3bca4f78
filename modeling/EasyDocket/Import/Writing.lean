import EasyDocket.Books.Quotes
import EasyDocket.Import.Plan
import EasyDocket.LedgerFacts
import EasyDocket.Lib.OrderedMap
import EasyDocket.Lib.Prog

/-!
# Writing an import

`ImportService` writes the rows that a plan marked ready.  Every row that could be resolved then has its key in the ledger,
so that a second import of the same rows finds nothing to write (`second_import_idle`).
-/

namespace EasyDocket

namespace Import

open Books

open Prog (request Ends)

/-! ## The ledger -/

/-- A transaction without its id. -/
structure TransactionBody where
  kind : TransactionKind
  amount : Rounded
  currency : JsString
  accountId : JsString
  counterAccountId : Option JsString
  categoryId : Option JsString
  date : JsString
  payee : JsString
  note : JsString
  tags : List JsString
  cleared : Bool
  rate : Option ℚ
  rateDate : Option JsString
  createdAt : ℕ

/-- A category without its id. -/
structure CategoryBody where
  name : JsString
  kind : CategoryKind
  parentId : Option JsString
  archived : Bool
  createdAt : ℕ

/-- What rows are of: transactions, categories, and all else. -/
inductive Entity
  | transaction (t : TransactionBody)
  | category (c : CategoryBody)
  | other (value : JsString)

/-- The key of a row, if it is a transaction. -/
def Entity.key? (L : Language) : Entity → Option JsString
  | .transaction t => some (duplicateKey L t.date t.amount t.payee)
  | _ => none

/-- `existingKeys`, of the table of transactions: keys for everything already recorded. -/
def recordedKeys (L : Language) (ledger : Ledger Entity) : Finset JsString :=
  ((ledger.tables .transactions).rows.filterMap (fun row => row.body.key? L)).toFinset

/-- The plan of rows against what is recorded. -/
def planOf (L : Language) (T : Text) (ledger : Ledger Entity) (rows : List (List JsString)) (mapping : ColumnMapping)
    (options : ImportOptions) : ImportPlan :=
  planImport L T rows mapping { options with existing := some (recordedKeys L ledger) }

/-! ## Applying a plan -/

inductive Ask
  /-- The categories that the screen has loaded. -/
  | categories
  | reportingCurrency
  | rates
  | randomUUID
  | now
  | put (e : EntityName) (id : JsString) (body : Entity)

@[reducible] def Reply : Ask → Type
  | .categories => List Category
  | .reportingCurrency => JsString
  | .rates => List ExchangeRate
  | .randomUUID => JsString
  | .now => ℕ
  | .put _ _ _ => Unit

structure ImportResult where
  imported : ℕ
  skipped : ℕ
  /-- Categories created because the file named ones the ledger did not have. -/
  categoriesCreated : List JsString

/-- The result so far, and the ids of categories by their names in lower case. -/
structure Applying where
  result : ImportResult
  categoriesByName : OrderedMap JsString JsString

/-- Where the rows go. -/
structure Destination where
  accountId : JsString
  currency : JsString

abbrev ApplyProg := Prog Ask Reply ClockError

/-- `shouldImport`. -/
def shouldImport (row : PlannedRow) (includeDuplicates : Bool) : Bool :=
  row.transaction.isSome && (row.duplicate ≠ some true || includeDuplicates)

section Definitions

variable (L : Language) (T : Text)

/-- `save` of a category that the file names, which is created if the ledger does not have it. -/
def saveCategory (id name : JsString) (kind : CategoryKind) : ApplyProg Category := do
  let now ← request .now
  request (Ask.put .categories id (.category ⟨name, kind, none, false, now⟩))
  pure ⟨id, name, kind, none⟩

/-- The category of a planned transaction. -/
def categoryFor (acc : Applying) (planned : PlannedTransaction) : ApplyProg (Option JsString × Applying) :=
  if planned.categoryName = [] then pure (none, acc)
  else
    match acc.categoriesByName.get? (L.toLowerCase planned.categoryName) with
    | some id => pure (some id, acc)
    | none => do
      let id ← request .randomUUID
      let category ← saveCategory id planned.categoryName (if planned.kind = .income then .income else .expense)
      pure (some category.id,
        { result := { acc.result with categoriesCreated := acc.result.categoriesCreated ++ [category.name] }
          categoriesByName := acc.categoriesByName.set (L.toLowerCase planned.categoryName) category.id })

/-- The transaction that a planned transaction becomes. -/
def PlannedTransaction.body (planned : PlannedTransaction) (categoryId : Option JsString) (dest : Destination)
    (rate : Option ℚ) (now : ℕ) : TransactionBody where
  kind := planned.kind
  amount := planned.amount
  currency := dest.currency
  accountId := dest.accountId
  counterAccountId := none
  categoryId := categoryId
  date := planned.date
  payee := planned.payee
  note := planned.note
  tags := []
  -- Imported from a statement, so it has already happened.
  cleared := true
  rate := rate
  rateDate := rate.map (fun _ => planned.date)
  createdAt := now

/-- The rate of `toTransaction`, which is null in the reporting currency. -/
def rateOn (currency date : JsString) : ApplyProg (Option ℚ) := do
  let reporting ← request .reportingCurrency
  if sameCurrency T currency reporting then pure none
  else do
    let rates ← request .rates
    pure (rateToReporting T rates reporting currency date)

/-- `toTransaction`, with the id that is drawn. -/
def toTransaction (planned : PlannedTransaction) (categoryId : Option JsString) (dest : Destination) :
    ApplyProg (JsString × TransactionBody) := do
  let rate ← rateOn T dest.currency planned.date
  let id ← request .randomUUID
  let now ← request .now
  pure (id, planned.body categoryId dest rate now)

/-- The body of the loop of `apply`, for a row that is imported. -/
def writeOne (dest : Destination) (acc : Applying) (planned : PlannedTransaction) : ApplyProg Applying := do
  let (categoryId, acc) ← categoryFor L acc planned
  let (id, body) ← toTransaction T planned categoryId dest
  request (Ask.put .transactions id (.transaction body))
  pure { acc with result := { acc.result with imported := acc.result.imported + 1 } }

/-- The body of the loop of `apply`. -/
def applyOne (dest : Destination) (includeDuplicates : Bool) (acc : Applying) (row : PlannedRow) : ApplyProg Applying :=
  match shouldImport row includeDuplicates, row.transaction with
  | true, some planned => writeOne L T dest acc planned
  | _, _ => pure { acc with result := { acc.result with skipped := acc.result.skipped + 1 } }

/-- `apply`: write the rows a plan marked ready. -/
def apply (plan : ImportPlan) (dest : Destination) (includeDuplicates : Bool) : ApplyProg ImportResult := do
  let categories ← (request Ask.categories : ApplyProg (List Category))
  let acc ← List.foldlM (applyOne L T dest includeDuplicates)
    ⟨⟨0, 0, []⟩, OrderedMap.ofList (categories.map (fun category => (L.toLowerCase category.name, category.id)))⟩ plan.rows
  pure acc.result

end Definitions

/-! ## One device -/

/-- No row has the id. -/
def Fresh (ledger : Ledger Entity) (id : JsString) : Prop := ∀ e, ∀ row ∈ (ledger.tables e).rows, row.id ≠ id

/-- How a request is served: what screens have loaded may lag behind, ids that are drawn are new, and a clock that has no
stamp left refuses a `put`. -/
inductive Serves (device : JsString) : (q : Ask) → Ledger Entity → Except ClockError (Reply q) → Ledger Entity → Prop
  | categories (s : Ledger Entity) (categories : List Category) : Serves device .categories s (.ok categories) s
  | reportingCurrency (s : Ledger Entity) (currency : JsString) : Serves device .reportingCurrency s (.ok currency) s
  | rates (s : Ledger Entity) (rates : List ExchangeRate) : Serves device .rates s (.ok rates) s
  | randomUUID (s : Ledger Entity) (id : JsString) (h : Fresh s id) : Serves device .randomUUID s (.ok id) s
  | now (s : Ledger Entity) (n : ℕ) : Serves device .now s (.ok n) s
  | put (s : Ledger Entity) (e : EntityName) (id : JsString) (body : Entity) (wall : ℕ) (s' : Ledger Entity)
      (op : Operation Entity) (h : s.put device wall e id body = .ok (s', op)) : Serves device (.put e id body) s (.ok ()) s'
  | refused (s : Ledger Entity) (e : EntityName) (id : JsString) (body : Entity) (wall : ℕ) (x : ClockError)
      (h : s.put device wall e id body = .error x) : Serves device (.put e id body) s (.error x) s

/-- Nothing else is written meanwhile. -/
def Alone : Ledger Entity → Ledger Entity → Prop := fun _ _ => False

variable {L : Language} {T : Text} {device : JsString} {mapping : ColumnMapping} {options : ImportOptions}
  {rows : List (List JsString)} {ledger s s' : Ledger Entity} {keys : Finset JsString} {k : JsString} {p : PlannedRow}

/-! ## Keys of the ledger -/

theorem mem_recordedKeys : k ∈ recordedKeys L ledger ↔ ∃ row ∈ ledger.tables .transactions, row.body.key? L = some k := by
  unfold recordedKeys
  rw [List.mem_toFinset, List.mem_filterMap]
  rfl

/-- A transaction under a new id adds its key and takes none away. -/
theorem recordedKeys_put_transaction {wall : ℕ} {id : JsString} {t : TransactionBody} {op : Operation Entity}
    (h : s.put device wall .transactions id (.transaction t) = .ok (s', op)) (hfresh : Fresh s id) :
    recordedKeys L s' = insert (duplicateKey L t.date t.amount t.payee) (recordedKeys L s) := by
  cases htick : s.clock.tick wall with
  | error x =>
    unfold Ledger.put at h
    rw [htick] at h
    cases h
  | ok c =>
    rw [Ledger.put_of_tick htick] at h
    cases h
    ext k
    rw [Finset.mem_insert, mem_recordedKeys, mem_recordedKeys]
    simp only [Function.update_self, Table.mem_put]
    constructor
    · rintro ⟨row, rfl | ⟨hrow, -⟩, hkey⟩
      · exact Or.inl (Option.some.inj hkey).symm
      · exact Or.inr ⟨row, hrow, hkey⟩
    · rintro (rfl | ⟨row, hrow, hkey⟩)
      · exact ⟨_, Or.inl rfl, rfl⟩
      · exact ⟨row, Or.inr ⟨hrow, hfresh .transactions row hrow⟩, hkey⟩

/-- Rows of other tables have no keys. -/
theorem recordedKeys_put_other {wall : ℕ} {e : EntityName} {id : JsString} {body : Entity} {op : Operation Entity}
    (he : e ≠ .transactions) (h : s.put device wall e id body = .ok (s', op)) : recordedKeys L s' = recordedKeys L s := by
  cases htick : s.clock.tick wall with
  | error x =>
    unfold Ledger.put at h
    rw [htick] at h
    cases h
  | ok c =>
    rw [Ledger.put_of_tick htick] at h
    cases h
    unfold recordedKeys
    dsimp only
    rw [Function.update_of_ne he.symm]

/-! ## What applying a plan writes -/

/-- One device at a time. -/
def importing (device : JsString) : Protocol Ask Reply ClockError (Ledger Entity) where
  step := Serves device
  rely := Eq
  rely_refl _ := rfl
  rely_trans h h' := h.trans h'
  pre _ _ := True

/-- A ready row's key is recorded. -/
def Recorded (L : Language) (s : Ledger Entity) (row : PlannedRow) : Prop :=
  row.isReady = true → ∀ planned, row.transaction = some planned → keyOf L planned ∈ recordedKeys L s

theorem stable (I : Ledger Entity → Prop) : (importing device).Stable I := fun _ _ h heq => heq ▸ h

/-- A request of one device, in a state of which `I` holds. -/
theorem wp_request {α : Type} {q : Ask} {f : Reply q → ApplyProg α} {post : α → Ledger Entity → Prop}
    (I : Ledger Entity → Prop) (h : I s)
    (hok : ∀ s a s', I s → Serves device q s (.ok a) s' → (importing device).wp post (fun _ _ => True) (f a) s') :
    (importing device).wp post (fun _ _ => True) ((request q).bind f) s :=
  Protocol.wp_request (stable I) h (fun _ _ => trivial) (fun _ _ => trivial) hok

theorem wp_pure {α : Type} {a : α} {post : α → Ledger Entity → Prop} (h : post a s) :
    (importing device).wp post (fun _ _ => True) (.pure a) s := fun _ heq => heq ▸ h

/-- The category may be written, the keys stay. -/
theorem wp_categoryFor (acc : Applying) (planned : PlannedTransaction) (h : keys ⊆ recordedKeys L s) :
    (importing device).wp (fun _ s' => keys ⊆ recordedKeys L s') (fun _ _ => True) (categoryFor L acc planned) s := by
  unfold categoryFor
  by_cases hname : planned.categoryName = []
  · rw [if_pos hname]
    exact wp_pure h
  · rw [if_neg hname]
    cases acc.categoriesByName.get? (L.toLowerCase planned.categoryName) with
    | some id => exact wp_pure h
    | none =>
      refine wp_request (fun s => keys ⊆ recordedKeys L s) h (fun s id s' h hs => ?_)
      cases hs
      refine Protocol.wp_bind ?_
      unfold saveCategory
      refine wp_request (fun s => keys ⊆ recordedKeys L s) h (fun s now s' h hs => ?_)
      cases hs
      refine wp_request (fun s => keys ⊆ recordedKeys L s) h (fun s _ s' h hs => ?_)
      cases hs with
      | put _ _ _ _ _ _ _ hput =>
        rw [← recordedKeys_put_other (by decide) hput] at h
        exact wp_pure (wp_pure h)

theorem wp_rateOn (currency date : JsString) (h : keys ⊆ recordedKeys L s) :
    (importing device).wp (fun _ s' => keys ⊆ recordedKeys L s') (fun _ _ => True) (rateOn T currency date) s := by
  unfold rateOn
  refine wp_request (fun s => keys ⊆ recordedKeys L s) h (fun s reporting s' h hs => ?_)
  cases hs
  split
  · exact wp_pure h
  · refine wp_request (fun s => keys ⊆ recordedKeys L s) h (fun s rates s' h hs => ?_)
    cases hs
    exact wp_pure h

/-- What is made of a planned transaction has its key, and an id that is new. -/
structure Made (L : Language) (planned : PlannedTransaction) (made : JsString × TransactionBody) (s : Ledger Entity) : Prop where
  fresh : Fresh s made.1
  key : duplicateKey L made.2.date made.2.amount made.2.payee = keyOf L planned

theorem wp_toTransaction (planned : PlannedTransaction) (categoryId : Option JsString) (dest : Destination)
    (h : keys ⊆ recordedKeys L s) : (importing device).wp (fun made s' => keys ⊆ recordedKeys L s' ∧ Made L planned made s')
      (fun _ _ => True) (toTransaction T planned categoryId dest) s := by
  unfold toTransaction
  refine Protocol.wp_bind (Protocol.wp_mono (wp_rateOn dest.currency planned.date h) (fun rate s h => ?_) (fun _ _ h => h))
  refine wp_request (fun s => keys ⊆ recordedKeys L s) h (fun s id s' h hs => ?_)
  cases hs with
  | randomUUID _ _ hfresh =>
    refine wp_request (fun s => keys ⊆ recordedKeys L s ∧ Fresh s id) ⟨h, hfresh⟩ (fun s now s' h hs => ?_)
    cases hs
    exact wp_pure ⟨h.1, h.2, rfl⟩

/-- One row: the keys stay, and its own is recorded. -/
theorem wp_writeOne (dest : Destination) (acc : Applying) (planned : PlannedTransaction) (h : keys ⊆ recordedKeys L s) :
    (importing device).wp (fun _ s' => keys ⊆ recordedKeys L s' ∧ keyOf L planned ∈ recordedKeys L s') (fun _ _ => True)
      (writeOne L T dest acc planned) s := by
  unfold writeOne
  refine Protocol.wp_bind (Protocol.wp_mono (wp_categoryFor acc planned h) ?_ (fun _ _ h => h))
  rintro ⟨categoryId, acc⟩ s h
  refine Protocol.wp_bind (Protocol.wp_mono (wp_toTransaction planned categoryId dest h) ?_ (fun _ _ h => h))
  rintro ⟨id, body⟩ s h
  refine wp_request (fun s => keys ⊆ recordedKeys L s ∧ Made L planned (id, body) s) h (fun s _ s' h hs => ?_)
  cases hs with
  | put _ _ _ _ _ _ _ hput =>
    have hkeys := recordedKeys_put_transaction (L := L) hput h.2.fresh
    refine wp_pure ⟨?_, ?_⟩
    · rw [hkeys]
      exact h.1.trans (Finset.subset_insert _ _)
    · rw [hkeys, Finset.mem_insert]
      exact Or.inl h.2.key.symm

theorem shouldImport_eq (row : PlannedRow) : shouldImport row false = row.isReady := by
  unfold shouldImport PlannedRow.isReady
  rw [Bool.or_false]

theorem wp_applyOne (dest : Destination) (acc : Applying) (row : PlannedRow) (h : keys ⊆ recordedKeys L s) :
    (importing device).wp (fun _ s' => keys ⊆ recordedKeys L s' ∧ Recorded L s' row) (fun _ _ => True)
      (applyOne L T dest false acc row) s := by
  unfold applyOne
  rw [shouldImport_eq]
  cases hready : row.isReady with
  | false => exact wp_pure ⟨h, fun hr => absurd (hready.symm.trans hr) Bool.false_ne_true⟩
  | true =>
    cases hrow : row.transaction with
    | none => exact wp_pure ⟨h, fun _ planned hp => nomatch hrow.symm.trans hp⟩
    | some planned =>
      refine Protocol.wp_mono (wp_writeOne dest acc planned h) (fun _ s' h => ⟨h.1, fun _ planned' hp => ?_⟩) (fun _ _ h => h)
      obtain rfl := Option.some.inj (hrow.symm.trans hp)
      exact h.2

/-- All rows: what was recorded stays so, and every ready row is recorded or still to come. -/
theorem wp_apply (plan : ImportPlan) (dest : Destination) (h : keys ⊆ recordedKeys L s) :
    (importing device).wp (fun _ s' => keys ⊆ recordedKeys L s' ∧ ∀ row ∈ plan.rows, Recorded L s' row) (fun _ _ => True)
      (apply L T plan dest false) s := by
  unfold apply
  refine wp_request (fun s => keys ⊆ recordedKeys L s) h (fun s categories s' h hs => ?_)
  cases hs
  refine Protocol.wp_bind ?_
  refine Protocol.wp_foldlM (fun _ left s => keys ⊆ recordedKeys L s ∧ ∀ row ∈ plan.rows, row ∈ left ∨ Recorded L s row) ?_ ?_
    plan.rows _ s ⟨h, fun row hrow => Or.inl hrow⟩
  · rintro acc row left s ⟨h, hrows⟩
    have hall : recordedKeys L s ⊆ recordedKeys L s := subset_rfl
    refine Protocol.wp_mono (wp_applyOne dest acc row hall) (fun acc' s' h' => ⟨h.trans h'.1, fun row' hrow' => ?_⟩)
      (fun _ _ h => h)
    rcases hrows row' hrow' with hleft | hdone
    · rcases List.mem_cons.mp hleft with rfl | hleft
      · exact Or.inr h'.2
      · exact Or.inl hleft
    · exact Or.inr (fun hready planned hp => h'.1 (hdone hready planned hp))
  · rintro acc s ⟨h, hrows⟩
    exact wp_pure (wp_pure ⟨h, fun row hrow => (hrows row hrow).resolve_left List.not_mem_nil⟩)

/-! ## Planning the rows again -/

/-- The keys that a plan has seen are recorded if its ready rows are; by induction on the rows, the last one first. -/
theorem seen_subset (hexisting : options.existing.getD ∅ ⊆ keys)
    (hready : ∀ p ∈ (planning L T mapping options rows).plan, p.isReady = true →
      ∀ planned, p.transaction = some planned → keyOf L planned ∈ keys) : (planning L T mapping options rows).seen ⊆ keys := by
  induction rows using List.reverseRecOn with
  | nil => exact hexisting
  | append_singleton rows row ih =>
    rw [planning_append, next_plan] at hready
    have hbefore := ih (fun p hp => hready p (List.mem_append_left _ hp))
    rw [planning_append]
    unfold Planning.next
    by_cases hblank : isBlank mapping row = true
    · rw [if_pos hblank]
      exact hbefore
    · have hlast := hready (plannedRow L T mapping options (planning L T mapping options rows).seen row rows.length)
        (List.mem_append_right _ (by rw [if_neg hblank]; exact List.mem_singleton_self _))
      rw [if_neg hblank]
      unfold plannedRow at hlast
      cases hr : resolve L T mapping options row with
      | error e => exact hbefore
      | ok r =>
        rw [hr] at hlast
        refine Finset.insert_subset ?_ hbefore
        by_cases hseen : keyOf L r ∈ (planning L T mapping options rows).seen
        · exact hbefore hseen
        · exact hlast (by simp [PlannedRow.isReady, hseen]) r rfl

/-- Which rows fail does not hang on what is recorded. -/
theorem filter_failed (existing existing' : Option (Finset JsString)) :
    (planning L T mapping { options with existing := existing } rows).plan.filter PlannedRow.isFailed =
      (planning L T mapping { options with existing := existing' } rows).plan.filter PlannedRow.isFailed := by
  induction rows using List.reverseRecOn with
  | nil => rfl
  | append_singleton rows row ih =>
    rw [planning_append, planning_append, next_plan, next_plan, List.filter_append, List.filter_append, ih]
    refine congrArg (List.append _) ?_
    by_cases hblank : isBlank mapping row = true
    · rw [if_pos hblank, if_pos hblank]
    · have hsame : resolve L T mapping { options with existing := existing } row =
          resolve L T mapping { options with existing := existing' } row := rfl
      rw [if_neg hblank, if_neg hblank]
      unfold plannedRow
      rw [hsame]
      cases resolve L T mapping { options with existing := existing' } row <;> rfl

/-- No row is ready whose key was there before. -/
theorem not_ready (hrows : ∀ row ∈ rows, ∀ r, resolved L T mapping options row = some r → keyOf L r ∈ options.existing.getD ∅)
    (hp : p ∈ (planning L T mapping options rows).plan) : p.isReady = false := by
  obtain ⟨i, row, hi, hblank, rfl⟩ := mem_plan hp
  unfold plannedRow
  cases hr : resolve L T mapping options row with
  | error e => rfl
  | ok r =>
    have hresolved : resolved L T mapping options row = some r := by
      unfold resolved
      rw [if_neg (by rw [hblank]; exact Bool.false_ne_true), hr]
      rfl
    have hseen : keyOf L r ∈ (planning L T mapping options (rows.take i)).seen :=
      mem_seen.mpr (Or.inl (hrows row (List.mem_of_getElem? hi) r hresolved))
    simp [PlannedRow.isReady, hseen]

/-- After the ready rows are recorded, no row is ready. -/
theorem planOf_not_ready (hkept : recordedKeys L s ⊆ recordedKeys L s')
    (hrecorded : ∀ p ∈ (planOf L T s rows mapping options).rows, Recorded L s' p)
    (hp : p ∈ (planOf L T s' rows mapping options).rows) : p.isReady = false := by
  have hseen : (planning L T mapping { options with existing := some (recordedKeys L s) } rows).seen ⊆ recordedKeys L s' :=
    seen_subset hkept hrecorded
  refine not_ready (fun row hrow r hr => ?_)
    (show p ∈ (planning L T mapping { options with existing := some (recordedKeys L s') } rows).plan from hp)
  exact hseen (mem_seen.mpr (Or.inr ⟨row, hrow, r, hr, rfl⟩))

/-- A plan without ready rows skips them all, and asks for nothing but the categories. -/
theorem apply_of_not_ready {plan : ImportPlan} (dest : Destination) (h : ∀ p ∈ plan.rows, p.isReady = false) :
    apply L T plan dest false = (request Ask.categories).bind (fun _ => .pure ⟨0, plan.rows.length, []⟩) := by
  have hloop : ∀ (l : List PlannedRow) (acc : Applying), (∀ p ∈ l, p.isReady = false) →
      l.foldlM (applyOne L T dest false) acc =
        (.pure { acc with result := { acc.result with skipped := acc.result.skipped + l.length } } : ApplyProg Applying) := by
    intro l
    induction l with
    | nil => exact fun acc _ => rfl
    | cons row l ih =>
      intro acc hl
      have hskip : applyOne L T dest false acc row =
          .pure { acc with result := { acc.result with skipped := acc.result.skipped + 1 } } := by
        unfold applyOne
        rw [shouldImport_eq, hl row List.mem_cons_self]
        rfl
      rw [List.foldlM_cons, hskip, List.length_cons, Nat.add_comm l.length, ← Nat.add_assoc]
      exact ih _ (fun p hp => hl p (List.mem_cons_of_mem _ hp))
  unfold apply
  refine congrArg (Prog.bind (request Ask.categories)) (funext (fun categories => ?_))
  have hrun := hloop plan.rows
    ⟨⟨0, 0, []⟩, OrderedMap.ofList (categories.map (fun category => (L.toLowerCase category.name, category.id)))⟩ h
  dsimp only [Prog.bind_def]
  rw [hrun, Nat.zero_add]
  rfl

/-- Applying such a plan ends, with every row skipped and the ledger as it was. -/
theorem ends_of_not_ready {plan : ImportPlan} (dest : Destination) (h : ∀ p ∈ plan.rows, p.isReady = false)
    {outcome : Except ClockError ImportResult} : Ends (Serves device) Alone (apply L T plan dest false) s outcome s' ↔
      outcome = .ok ⟨0, plan.rows.length, []⟩ ∧ s' = s := by
  rw [apply_of_not_ready dest h]
  constructor
  · intro hends
    cases hends with
    | other henv _ => exact henv.elim
    | ask hserved hrest =>
      cases hserved
      cases hrest with
      | pure => exact ⟨rfl, rfl⟩
      | other henv _ => exact henv.elim
  · rintro ⟨rfl, rfl⟩
    exact Ends.ask (Serves.categories s' []) (Ends.pure _ s')

/-- A second import of the same rows: it fails in the same rows, has none that is ready, and writes nothing. -/
structure SecondIdle (L : Language) (T : Text) (device : JsString) (dest : Destination) (plan again : ImportPlan)
    (ledger : Ledger Entity) : Prop where
  ready : again.ready = 0
  failed : again.rows.filter PlannedRow.isFailed = plan.rows.filter PlannedRow.isFailed
  idle : ∀ outcome after, Ends (Serves device) Alone (apply L T again dest false) ledger outcome after ↔
    outcome = .ok ⟨0, again.rows.length, []⟩ ∧ after = ledger

/-- Importing the same rows a second time does nothing. -/
theorem second_import_idle (L : Language) (T : Text) (device : JsString) (ledger ledger' : Ledger Entity)
    (rows : List (List JsString)) (mapping : ColumnMapping) (options : ImportOptions) (dest : Destination) (result : ImportResult)
    (h : Ends (Serves device) Alone (apply L T (planOf L T ledger rows mapping options) dest false) ledger (.ok result) ledger') :
    SecondIdle L T device dest (planOf L T ledger rows mapping options) (planOf L T ledger' rows mapping options) ledger' := by
  have hall : recordedKeys L ledger ⊆ recordedKeys L ledger := subset_rfl
  obtain ⟨hkept, hrecorded⟩ := (Protocol.wp_ends (P := importing device) (fun _ _ henv => henv.elim) h
    (wp_apply (planOf L T ledger rows mapping options) dest hall)).1 result rfl
  have hready : ∀ p ∈ (planOf L T ledger' rows mapping options).rows, p.isReady = false :=
    fun p hp => planOf_not_ready hkept hrecorded hp
  refine ⟨?_, filter_failed _ _, fun outcome after => ends_of_not_ready dest hready⟩
  refine List.length_eq_zero_iff.mpr (List.filter_eq_nil_iff.mpr (fun p hp => ?_))
  rw [hready p hp]
  exact Bool.false_ne_true

/-- A purchase, and a row that cannot be read. -/
def statement : List (List JsString) := [[js "2024-05-01", js "-10.00", js "Shop"], [js "2024-05-02", js "n/a", js "Shop"]]

theorem second_import_idle_statement : ∃ ledger' : Ledger Entity,
    SecondIdle exactly ascii (js "pixel8") ⟨js "a1", js "EUR"⟩ (planOf exactly ascii Ledger.empty statement columns euros)
      (planOf exactly ascii ledger' statement columns euros) ledger' := by
  have hrows : (planOf exactly ascii Ledger.empty statement columns euros).rows =
      [⟨2, some ⟨js "2024-05-01", .exact 1000, .expense, js "Shop", [], []⟩, none, some false⟩,
        ⟨3, none, some (js "Could not read the amount \"n/a\""), none⟩] := by decide +kernel
  have hfresh : Fresh Ledger.empty (js "t1") := fun e row hrow => absurd hrow List.not_mem_nil
  obtain ⟨result, ledger', h⟩ : ∃ result ledger', Ends (Serves (js "pixel8")) Alone
      (apply exactly ascii (planOf exactly ascii Ledger.empty statement columns euros) ⟨js "a1", js "EUR"⟩ false)
      Ledger.empty (.ok result) ledger' := by
    unfold apply
    rw [hrows]
    exact ⟨_, _, Ends.ask (Serves.categories _ []) (Ends.ask (Serves.reportingCurrency _ (js "EUR"))
      (Ends.ask (Serves.randomUUID _ (js "t1") hfresh) (Ends.ask (Serves.now _ 0)
        (Ends.ask (Serves.put _ _ _ _ 0 _ _ rfl) (Ends.pure _ _)))))⟩
  exact ⟨ledger', second_import_idle _ _ _ _ _ _ _ _ _ result h⟩

end Import

end EasyDocket
