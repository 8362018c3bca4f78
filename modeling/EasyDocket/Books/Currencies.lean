import EasyDocket.Books.Recording
import EasyDocket.Books.Sums

/-!
# Currencies in totals

A total is in one currency, and a stored rate was quoted for one pair of currencies.  Totals mix currencies as soon as one
meets the other without looking, and a run avoids that exactly if each of its steps does.
-/

namespace EasyDocket

namespace Books

section Definitions

variable (T : Text) (covered : BudgetRow → Option (Finset JsString))

/-- Whether a rate was quoted from the currency of a transaction to another. -/
def quotedFor (pair : Option Pair) (t : Transaction) (dest : JsString) : Bool :=
  pair.any (fun pair => sameCurrency T pair.base t.currency && sameCurrency T pair.quote dest)

/-- A transaction that is in a currency, or has no rate, or whose rate was quoted for that currency. -/
def Converts (pair : Option Pair) (t : Transaction) (dest : JsString) : Prop :=
  sameCurrency T t.currency dest = true ∨ t.rate = none ∨ quotedFor T pair t dest = true

/-- A transaction with its rate, provided that it was quoted for a currency. -/
def App.toward (s : App) (dest : JsString) (t : Transaction) : Transaction :=
  if quotedFor T (s.pairs t.id) t dest then t else { t with rate := none }

/-- What a transaction is worth in a currency is told by its amount, or by a rate that was quoted for that currency. -/
def App.Fair (s : App) (dest : JsString) (t : Transaction) : Prop :=
  t.inReporting T dest = (s.toward T dest t).inReporting T dest

/-- No total mixes currencies: every figure is the one that comes of rates used only for what they were quoted for, and
what cannot be converted so is left out and counted. -/
structure App.Unmixed (s : App) : Prop where
  reported : ∀ t ∈ s.transactions, t.kind ≠ .transfer → s.Fair T s.reporting t
  budgeted : ∀ b ∈ s.budgets, ∀ t ∈ s.transactions, countsTowards b.toBudget t (covered b) = true → s.Fair T b.currency t
  totals : ∀ range, totalsFor T s.transactions.rows range s.reporting =
    totalsFor T (s.transactions.rows.map (s.toward T s.reporting)) range s.reporting
  categories : ∀ range roots, spendByCategory T s.transactions.rows range s.reporting roots =
    spendByCategory T (s.transactions.rows.map (s.toward T s.reporting)) range s.reporting roots
  flow : ∀ range, flowByMonth T s.transactions.rows range s.reporting =
    flowByMonth T (s.transactions.rows.map (s.toward T s.reporting)) range s.reporting
  netWorth : ∀ range rateForCurrency, netWorthOver T s.accounts.rows s.transactions.rows range s.reporting rateForCurrency =
    netWorthOver T s.accounts.rows (s.transactions.rows.map (s.toward T s.reporting)) range s.reporting rateForCurrency
  openings : ∀ currency today rate, s.rateToReporting T currency today = some rate →
    sameCurrency T currency s.reporting = true ∨ Quoted T s.rates.rows ⟨currency, s.reporting⟩ rate
  spent : ∀ b ∈ s.budgets, ∀ window, spendDetail T b.toBudget window s.transactions.rows (covered b) =
    .ok ⟨((s.transactions.rows.map (s.toward T b.currency)).map (spentBy T b.toBudget window (covered b))).sum,
      s.transactions.rows.countP (fun t => countsTowards b.toBudget t (covered b) && within t.date window &&
        ((s.toward T b.currency t).worth T b.currency).isNone)⟩
  unconverted : ∀ range, unconvertedIn T s.transactions.rows range s.reporting =
    .ok ((s.transactions.rows.map (s.toward T s.reporting)).countP (isUnconverted T range s.reporting))

/-! ## The condition -/

/-- A transaction that can join a ledger: its rate was quoted for the currency of every total it is counted in. -/
structure App.Joins (s : App) (r : Transaction × Option Pair) : Prop where
  reported : r.1.kind ≠ .transfer → Converts T r.2 r.1 s.reporting
  budgeted : ∀ b ∈ s.budgets, countsTowards b.toBudget r.1 (covered b) = true → Converts T r.2 r.1 b.currency

/-- The condition on a step: a currency of totals meets only rates that were quoted for it. -/
def App.Meets (s : App) : Action → Prop
  | .setReportingCurrency currency => ∀ code, T.toUpperCase (JsNumber.trim currency) = code → assertCurrency code = .ok () →
    ∀ t ∈ s.transactions, t.kind ≠ .transfer → Converts T (s.pairs t.id) t code
  | .saveBudget draft => ∀ b, draft.save = .ok b → ∀ t ∈ s.transactions,
    countsTowards b.toBudget t (covered b) = true → Converts T (s.pairs t.id) t b.currency
  | .saveEditor fields => ∀ r, s.edited T fields = some r → s.Joins T covered r
  | .importRow row => ∀ b ∈ s.budgets, countsTowards b.toBudget (s.imported T row).1 (covered b) = true →
    Converts T (s.imported T row).2 (s.imported T row).1 b.currency
  | _ => True

end Definitions

/-! ## Fair figures -/

section Figures

variable {T : Text} {s : App} {dest reporting : JsString} {t : Transaction} {range : DateRange} {pair : Option Pair}

@[simp] theorem App.toward_kind : (s.toward T dest t).kind = t.kind := by
  unfold toward
  split_ifs <;> rfl

@[simp] theorem App.toward_date : (s.toward T dest t).date = t.date := by
  unfold toward
  split_ifs <;> rfl

@[simp] theorem App.toward_categoryId : (s.toward T dest t).categoryId = t.categoryId := by
  unfold toward
  split_ifs <;> rfl

theorem App.toward_priced (h : t.Priced) : (s.toward T dest t).Priced := by
  unfold toward
  split_ifs
  · exact h
  · exact fun rate hrate => nomatch hrate

/-- A figure is fair exactly if the transaction converts. -/
theorem App.fair_iff (h : t.Priced) : s.Fair T dest t ↔ Converts T (s.pairs t.id) t dest := by
  unfold Fair toward Converts
  by_cases hquoted : quotedFor T (s.pairs t.id) t dest = true
  · rw [if_pos hquoted]
    exact ⟨fun _ => Or.inr (Or.inr hquoted), fun _ => rfl⟩
  · rw [if_neg hquoted]
    have hnone : ∀ r, (none : Option ℚ) = some r → 0 < r := fun r hr => nomatch hr
    unfold Transaction.inReporting
    rw [inReporting_eq h, inReporting_eq hnone]
    unfold worth
    by_cases hsame : sameCurrency T t.currency dest = true
    · simp [hsame]
    · cases hrate : t.rate with
      | none => simp
      | some rate => simp [hsame, hquoted]

variable {σ : Type} {missing : σ} {add : Minor → σ}

theorem App.Fair.added (h : s.Fair T dest t) : t.added T dest missing add = (s.toward T dest t).added T dest missing add := by
  unfold Transaction.added
  rw [h]

theorem Transaction.Priced.added_const (h : t.Priced) : t.added T dest missing (fun _ => missing) = .ok missing := by
  rw [h.added]
  cases t.worth T dest <;> rfl

theorem App.totalsStep_toward (h : t.Priced) (hfair : t.kind ≠ .transfer → s.Fair T reporting t) (acc : Minor × Minor) :
    totalsStep T range reporting acc t = totalsStep T range reporting acc (s.toward T reporting t) := by
  unfold totalsStep
  rw [toward_date, toward_kind]
  by_cases hkind : t.kind = .transfer
  · rw [hkind]
    simp only [h.added_const, (toward_priced h).added_const]
  · rw [(hfair hkind).added]

theorem App.categoryStep_toward (hfair : t.kind ≠ .transfer → s.Fair T reporting t)
    (roots : Option (OrderedMap JsString JsString)) (totals : OrderedMap (Option JsString) Entry) :
    categoryStep T range reporting roots totals t = categoryStep T range reporting roots totals (s.toward T reporting t) := by
  unfold categoryStep
  rw [toward_date, toward_kind, toward_categoryId]
  by_cases hkind : t.kind = .expense
  · have hnot : t.kind ≠ .transfer := by rw [hkind]; decide
    rw [(hfair hnot).added]
  · rw [if_pos (Or.inl hkind), if_pos (Or.inl hkind)]

theorem App.flowStep_toward (h : t.Priced) (hfair : t.kind ≠ .transfer → s.Fair T reporting t)
    (buckets : OrderedMap JsString MonthlyFlow) :
    flowStep T range reporting buckets t = flowStep T range reporting buckets (s.toward T reporting t) := by
  unfold flowStep
  rw [toward_date, toward_kind]
  cases hbucket : buckets.get? (monthKey t.date) with
  | none => rfl
  | some bucket =>
    by_cases hkind : t.kind = .transfer
    · have hsame : buckets.set (monthKey t.date) bucket = buckets := OrderedMap.set_of_get? hbucket
      simp only [hkind, MonthlyFlow.add, hsame, h.added_const, (toward_priced h).added_const]
    · dsimp only
      rw [(hfair hkind).added]

theorem App.delta_toward (hfair : t.kind ≠ .transfer → s.Fair T reporting t) :
    delta T t reporting = delta T (s.toward T reporting t) reporting := by
  unfold delta
  rw [toward_kind]
  by_cases hkind : t.kind = .transfer
  · rw [if_pos hkind, if_pos hkind]
  · rw [(hfair hkind).added]

/-! ### Net worth -/

/-- The loops of `netWorthOver` cannot tell transactions from others on the same dates with the same effects. -/
theorem advance_map {f : Transaction → Transaction} (cutoff : JsString) : ∀ {ordered : List Transaction} {running : Minor},
    (∀ t ∈ ordered, (f t).date = t.date ∧ delta T t reporting = delta T (f t) reporting) →
    advance T reporting cutoff (ordered.map f) running =
      (advance T reporting cutoff ordered running).map (fun acc => (acc.1, acc.2.map f))
  | [], _, _ => rfl
  | t :: ordered, running, h => by
    obtain ⟨hdate, hdelta⟩ := h t List.mem_cons_self
    rw [List.map_cons]
    unfold advance
    rw [hdate, ← hdelta]
    split_ifs
    · cases delta T t reporting with
      | error e => rfl
      | ok x => exact advance_map cutoff (fun u hu => h u (List.mem_cons_of_mem _ hu))
    · rfl

theorem mem_of_advance {cutoff : JsString} : ∀ {ordered rest : List Transaction} {running total : Minor},
    advance T reporting cutoff ordered running = .ok (total, rest) → ∀ t ∈ rest, t ∈ ordered
  | [], rest, running, total, h, t, ht => by
    obtain ⟨-, rfl⟩ := Prod.mk.inj (Except.ok.inj h)
    exact ht
  | u :: ordered, rest, running, total, h, t, ht => by
    unfold advance at h
    split_ifs at h
    · cases hdelta : delta T u reporting with
      | error e =>
        rw [hdelta] at h
        cases h
      | ok x =>
        rw [hdelta] at h
        exact List.mem_cons_of_mem _ (mem_of_advance h t ht)
    · obtain ⟨-, rfl⟩ := Prod.mk.inj (Except.ok.inj h)
      exact ht

theorem pointsFrom_map {f : Transaction → Transaction} : ∀ (months : List JsString) {ordered : List Transaction}
    {running : Minor}, (∀ t ∈ ordered, (f t).date = t.date ∧ delta T t reporting = delta T (f t) reporting) →
    pointsFrom T range reporting months ordered running = pointsFrom T range reporting months (ordered.map f) running
  | [], _, _, _ => rfl
  | month :: months, ordered, running, h => by
    unfold pointsFrom
    rw [advance_map _ h]
    cases hadvance : advance T reporting (lastDayOf month range) ordered running with
    | error e => rfl
    | ok acc =>
      obtain ⟨total, rest⟩ := acc
      show (pointsFrom T range reporting months rest total).map _ =
        (pointsFrom T range reporting months (rest.map f) total).map _
      rw [pointsFrom_map months (fun t ht => h t (mem_of_advance hadvance t ht))]

theorem netWorthOver_map {f : Transaction → Transaction} {accounts : List Account} {transactions : List Transaction}
    {rateForCurrency : JsString → Option ℚ}
    (h : ∀ t ∈ transactions, (f t).date = t.date ∧ delta T t reporting = delta T (f t) reporting) :
    netWorthOver T accounts transactions range reporting rateForCurrency =
      netWorthOver T accounts (transactions.map f) range reporting rateForCurrency := by
  have hsort : (transactions.insertionSort (fun a b => a.date ≤ b.date)).map f =
      (transactions.map f).insertionSort (fun a b => a.date ≤ b.date) :=
    List.map_insertionSort _ _ f transactions (fun a ha b hb => by rw [(h a ha).1, (h b hb).1])
  unfold netWorthOver
  rw [← hsort]
  cases accounts.foldlM (openingStep T reporting rateForCurrency) 0 with
  | error e => rfl
  | ok opening =>
    exact pointsFrom_map _ (fun t ht => h t ((List.perm_insertionSort _ _).mem_iff.mp ht))

end Figures

/-! ## Sound ledgers -/

section Ledgers

variable (T : Text) (covered : BudgetRow → Option (Finset JsString))

/-- Rates that are stored are positive. -/
def App.Priced (s : App) : Prop := ∀ t ∈ s.transactions, t.Priced

/-- Every transaction converts to the currency of each total that it counts in. -/
structure App.Sound (s : App) : Prop where
  reported : ∀ t ∈ s.transactions, t.kind ≠ .transfer → Converts T (s.pairs t.id) t s.reporting
  budgeted : ∀ b ∈ s.budgets, ∀ t ∈ s.transactions, countsTowards b.toBudget t (covered b) = true →
    Converts T (s.pairs t.id) t b.currency

variable {T covered} {s s' : App} {a : Action} {t : Transaction}

theorem App.mem_quotes {q : ExchangeRate} : q ∈ s.quotes ↔ q ∈ s.rates.rows := by
  unfold quotes
  rw [List.mem_reverse]
  exact (List.perm_insertionSort _ _).mem_iff

theorem Quoted.mono {rates rates' : List ExchangeRate} {pair : Pair} {rate : ℚ} (h : Quoted T rates pair rate)
    (hsub : ∀ q ∈ rates, q ∈ rates') : Quoted T rates' pair rate := by
  obtain ⟨q, hq, hpair⟩ := h
  exact ⟨q, hsub q hq, hpair⟩

theorem App.Fair.worth {dest : JsString} (h : s.Fair T dest t) (hpriced : t.Priced) :
    t.worth T dest = (s.toward T dest t).worth T dest := by
  have hsame : (Except.ok (t.worth T dest) : Except RateError (Option Minor)) = .ok ((s.toward T dest t).worth T dest) := by
    unfold Transaction.worth
    rw [← inReporting_eq hpriced, ← inReporting_eq (toward_priced hpriced)]
    exact h
  exact Except.ok.inj hsame

theorem countsTowards_toward {dest : JsString} {b : Budget} {covers : Option (Finset JsString)} :
    countsTowards b (s.toward T dest t) covers = countsTowards b t covers := by
  unfold countsTowards
  rw [App.toward_kind, App.toward_categoryId]

/-- In a sound ledger no total mixes currencies, and in no other. -/
theorem App.unmixed_iff_sound (h : s.Priced) : s.Unmixed T covered ↔ s.Sound T covered := by
  constructor
  · intro hu
    exact ⟨fun t ht hkind => (fair_iff (h t ht)).mp (hu.reported t ht hkind),
      fun b hb t ht hcounts => (fair_iff (h t ht)).mp (hu.budgeted b hb t ht hcounts)⟩
  · intro hs
    have hfair : ∀ t ∈ s.transactions.rows, t.kind ≠ .transfer → s.Fair T s.reporting t :=
      fun t ht hkind => (fair_iff (h t ht)).mpr (hs.reported t ht hkind)
    have hbudgeted : ∀ b ∈ s.budgets, ∀ t ∈ s.transactions.rows, countsTowards b.toBudget t (covered b) = true →
        s.Fair T b.currency t := fun b hb t ht hcounts => (fair_iff (h t ht)).mpr (hs.budgeted b hb t ht hcounts)
    refine ⟨hfair, hbudgeted, fun range => ?_, fun range roots => ?_, fun range => ?_, fun range rateForCurrency => ?_,
      fun currency today rate hrate => ?_, fun b hb window => ?_, fun range => ?_⟩
    · unfold totalsFor
      rw [foldlM_map_of_eq (fun t ht acc => totalsStep_toward (h t ht) (hfair t ht) acc)]
    · unfold spendByCategory
      rw [foldlM_map_of_eq (fun t ht totals => categoryStep_toward (hfair t ht) roots totals)]
    · unfold flowByMonth
      dsimp only
      rw [foldlM_map_of_eq (fun t ht buckets => flowStep_toward (h t ht) (hfair t ht) buckets)]
    · exact netWorthOver_map (fun t ht => ⟨toward_date, delta_toward (hfair t ht)⟩)
    · exact (rateToReporting_quoted hrate).imp_right (fun hq => hq.mono (fun q hin => mem_quotes.mp hin))
    · rw [spendDetail_eq h, List.map_map]
      have hspent : ∀ t ∈ s.transactions.rows, spentBy T b.toBudget window (covered b) t =
          (spentBy T b.toBudget window (covered b) ∘ s.toward T b.currency) t := by
        intro t ht
        unfold spentBy Transaction.amountIn
        rw [Function.comp_apply, countsTowards_toward, toward_date]
        by_cases hcounts : countsTowards b.toBudget t (covered b) = true
        · rw [(hbudgeted b hb t ht hcounts).worth (h t ht)]
        · simp [hcounts]
      rw [List.map_congr_left hspent]
      refine congrArg (fun n => Except.ok (SpendDetail.mk _ n)) (List.countP_congr (fun t ht => ?_))
      by_cases hcounts : countsTowards b.toBudget t (covered b) = true
      · rw [(hbudgeted b hb t ht hcounts).worth (h t ht)]
      · simp [hcounts]
    · rw [unconvertedIn_eq h, List.countP_map]
      refine congrArg Except.ok (List.countP_congr (fun t ht => ?_))
      unfold isUnconverted
      rw [Function.comp_apply, toward_date, toward_kind]
      by_cases hkind : t.kind = .transfer
      · simp [hkind]
      · rw [(hfair t ht hkind).worth (h t ht)]

/-! ## Steps -/

/-- Nothing is recorded, and nothing that totals depend on is changed, but for what is removed. -/
structure App.Shrinks (s s' : App) : Prop where
  settings : s'.settings = s.settings
  pairs : s'.pairs = s.pairs
  transactions : ∀ t ∈ s'.transactions, t ∈ s.transactions
  budgets : ∀ b ∈ s'.budgets, b ∈ s.budgets

theorem App.Shrinks.refl (s : App) : s.Shrinks s := ⟨rfl, rfl, fun _ h => h, fun _ h => h⟩

theorem App.shrinks_suggestRate (h : s.Shrinks s') : s.Shrinks (s'.suggestRate T) := by
  unfold suggestRate
  split_ifs
  · exact h
  · cases s'.rateToReporting T s'.currency s'.editor.date with
    | none => exact h
    | some rate => exact ⟨h.settings, h.pairs, h.transactions, h.budgets⟩

/-- What a step can do, and what its condition comes to. -/
inductive App.Did (T : Text) (covered : BudgetRow → Option (Finset JsString)) (s : App) (condition : Prop) : App → Prop
  | shrank {s' : App} : s.Shrinks s' → condition → Did T covered s condition s'
  | switched {code : JsString} : (condition ↔ ∀ t ∈ s.transactions, t.kind ≠ .transfer → Converts T (s.pairs t.id) t code) →
    Did T covered s condition { s with settings := some code }
  | budgeted {b : BudgetRow} : (condition ↔ ∀ t ∈ s.transactions, countsTowards b.toBudget t (covered b) = true →
      Converts T (s.pairs t.id) t b.currency) → Did T covered s condition { s with budgets := s.budgets.put b }
  | recorded {r : Transaction × Option Pair} : r.1.Priced → (condition ↔ s.Joins T covered r) →
    Did T covered s condition (s.record r)

theorem rate_of_save {draft t : Transaction} (h : (save draft).toOption = some t) : t.rate = draft.rate := by
  cases hsave : save draft with
  | error e =>
    rw [hsave] at h
    cases h
  | ok saved =>
    rw [hsave] at h
    rw [← Option.some.inj h, (save_ok hsave).2]

/-- What the editor stores has a positive rate, or none. -/
theorem App.edited_priced {fields : EditorFields} {r : Transaction × Option Pair} (h : s.edited T fields = some r) :
    r.1.Priced := by
  unfold edited at h
  obtain ⟨account, -, h⟩ := Option.bind_eq_some_iff.mp h
  obtain ⟨t, hsave, rfl⟩ := Option.map_eq_some_iff.mp h
  have hstored := rate_of_save hsave
  intro rate hrate
  rw [hstored] at hrate
  obtain ⟨rated, hrated, rfl⟩ := Option.map_eq_some_iff.mp hrate
  unfold storedRate at hrated
  split_ifs at hrated
  simpa using (Option.filter_eq_some_iff.mp hrated).2

theorem App.imported_priced (row : PlannedRow) : (s.imported T row).1.Priced := by
  intro rate hrate
  unfold imported at hrate
  dsimp only at hrate
  split_ifs at hrate
  exact rateToReporting_pos hrate

/-- An import looks its rates up for the reporting currency. -/
theorem App.imported_converts (row : PlannedRow) : Converts T (s.imported T row).2 (s.imported T row).1 s.reporting := by
  right; right
  unfold imported quotedFor
  simp

theorem App.step_did (s : App) (a : Action) : App.Did T covered s (s.Meets T covered a) (s.step T a) := by
  cases a with
  | setReportingCurrency currency =>
    unfold step Meets
    dsimp only
    cases hcode : assertCurrency (T.toUpperCase (JsNumber.trim currency)) with
    | error e =>
      refine .shrank (.refl s) (fun code heq hok => ?_)
      rw [heq, hok] at hcode
      cases hcode
    | ok u =>
      refine .switched ⟨fun h => h _ rfl hcode, fun h code heq _ => ?_⟩
      rw [← heq]
      exact h
  | saveRate draft =>
    unfold step Meets
    dsimp only
    cases draft.save T with
    | error e => exact .shrank (.refl s) trivial
    | ok rate => exact .shrank ⟨rfl, rfl, fun _ h => h, fun _ h => h⟩ trivial
  | removeRate id => exact .shrank ⟨rfl, rfl, fun _ h => h, fun _ h => h⟩ trivial
  | saveAccount account => exact .shrank ⟨rfl, rfl, fun _ h => h, fun _ h => h⟩ trivial
  | removeAccount id => exact .shrank ⟨rfl, rfl, fun _ h => h, fun _ h => h⟩ trivial
  | saveBudget draft =>
    unfold step Meets
    dsimp only
    cases hsave : draft.save with
    | error e => exact .shrank (.refl s) (fun b hb => nomatch hb)
    | ok b => exact .budgeted ⟨fun h => h b rfl, fun h b' hb' => Except.ok.inj hb' ▸ h⟩
  | removeBudget id => exact .shrank ⟨rfl, rfl, fun _ h => h, fun _ h => (Table.mem_delete.mp h).1⟩ trivial
  | openEditor existing first today =>
    exact .shrank (shrinks_suggestRate ⟨rfl, rfl, fun _ h => h, fun _ h => h⟩) trivial
  | setAccount accountId => exact .shrank (shrinks_suggestRate ⟨rfl, rfl, fun _ h => h, fun _ h => h⟩) trivial
  | setDate date => exact .shrank (shrinks_suggestRate ⟨rfl, rfl, fun _ h => h, fun _ h => h⟩) trivial
  | setRate rate => exact .shrank ⟨rfl, rfl, fun _ h => h, fun _ h => h⟩ trivial
  | saveEditor fields =>
    unfold step Meets
    dsimp only
    cases hedited : s.edited T fields with
    | none => exact .shrank (.refl s) (fun r hr => nomatch hr)
    | some r => exact .recorded (edited_priced hedited) ⟨fun h => h r rfl, fun h r' hr' => Option.some.inj hr' ▸ h⟩
  | saveUnrated draft =>
    unfold step Meets
    dsimp only
    cases hsave : save { draft with rate := none } with
    | error e => exact .shrank (.refl s) trivial
    | ok t =>
      have hrate : t.rate = none := by rw [(save_ok hsave).2]
      have hpriced : t.Priced := fun rate h => nomatch hrate.symm.trans h
      exact .recorded (r := (t, none)) hpriced
        (iff_of_true trivial ⟨fun _ => Or.inr (Or.inl hrate), fun _ _ _ => Or.inr (Or.inl hrate)⟩)
  | removeTransaction id => exact .shrank ⟨rfl, rfl, fun _ h => (Table.mem_delete.mp h).1, fun _ h => h⟩ trivial
  | importRow row =>
    refine .recorded (imported_priced row) ⟨fun h => ⟨fun _ => imported_converts row, h⟩, fun h => h.budgeted⟩

/-! ## What a step keeps -/

theorem App.priced_record {r : Transaction × Option Pair} (h : s.Priced) (hr : r.1.Priced) : (s.record r).Priced := by
  intro t ht
  rcases Table.mem_put.mp ht with rfl | ⟨ht, -⟩
  · exact hr
  · exact h t ht

theorem App.Priced.step (h : s.Priced) : (s.step T a).Priced := by
  have hdid : App.Did T (fun _ => none) s _ (s.step T a) := s.step_did a
  revert hdid
  generalize s.step T a = s'
  rintro (⟨hshrinks, -⟩ | - | - | ⟨hr, -⟩)
  · exact fun t ht => h t (hshrinks.transactions t ht)
  · exact h
  · exact h
  · exact priced_record h hr

/-- A transaction joins a sound ledger exactly if the ledger stays sound. -/
theorem App.sound_record {r : Transaction × Option Pair} (h : s.Sound T covered) :
    (s.record r).Sound T covered ↔ s.Joins T covered r := by
  have hself : (s.record r).pairs r.1.id = r.2 := Function.update_self _ _ _
  have hother : ∀ t : Transaction, t.id ≠ r.1.id → (s.record r).pairs t.id = s.pairs t.id :=
    fun t ht => Function.update_of_ne ht _ _
  have hmem : r.1 ∈ (s.record r).transactions := Table.mem_put_self _ _
  constructor
  · intro hs
    refine ⟨fun hkind => ?_, fun b hb hcounts => ?_⟩
    · rw [← hself]
      exact hs.reported r.1 hmem hkind
    · rw [← hself]
      exact hs.budgeted b hb r.1 hmem hcounts
  · intro hj
    refine ⟨fun t ht hkind => ?_, fun b hb t ht hcounts => ?_⟩
    · rcases Table.mem_put.mp ht with rfl | ⟨ht, hne⟩
      · rw [hself]
        exact hj.reported hkind
      · rw [hother t hne]
        exact h.reported t ht hkind
    · rcases Table.mem_put.mp ht with rfl | ⟨ht, hne⟩
      · rw [hself]
        exact hj.budgeted b hb hcounts
      · rw [hother t hne]
        exact h.budgeted b hb t ht hcounts

/-- A step keeps a sound ledger sound exactly if it meets its condition. -/
theorem App.sound_step (h : s.Sound T covered) : (s.step T a).Sound T covered ↔ s.Meets T covered a := by
  have hdid : App.Did T covered s (s.Meets T covered a) (s.step T a) := s.step_did a
  revert hdid
  generalize s.step T a = s'
  rintro (⟨hshrinks, hmeets⟩ | hmeets | hmeets | ⟨-, hmeets⟩)
  · refine iff_of_true ⟨fun t ht hkind => ?_, fun b hb t ht hcounts => ?_⟩ hmeets
    · rw [hshrinks.pairs, reporting, hshrinks.settings]
      exact h.reported t (hshrinks.transactions t ht) hkind
    · rw [hshrinks.pairs]
      exact h.budgeted b (hshrinks.budgets b hb) t (hshrinks.transactions t ht) hcounts
  · rw [hmeets]
    exact ⟨fun hs => hs.reported, fun hs => ⟨hs, h.budgeted⟩⟩
  · rw [hmeets]
    refine ⟨fun hs => hs.budgeted _ (Table.mem_put_self _ _), fun hs => ⟨h.reported, fun b hb => ?_⟩⟩
    rcases Table.mem_put.mp hb with rfl | ⟨hb, -⟩
    · exact hs
    · exact h.budgeted b hb
  · rw [hmeets]
    exact sound_record h

end Ledgers

/-! ## Runs -/

variable (T : Text) (covered : BudgetRow → Option (Finset JsString))

/-- No total mixes currencies in any state of a run, exactly if every step of the run meets its condition. -/
theorem never_mixes_iff (actions : List Action) : (∀ past, past <+: actions → (App.run T past).Unmixed T covered) ↔
    ∀ past a, past ++ [a] <+: actions → (App.run T past).Meets T covered a := by
  have hstep : ∀ (s : App) a, s.Priced → s.Unmixed T covered →
      ((s.step T a).Unmixed T covered ↔ s.Meets T covered a) := by
    intro s a hpriced hunmixed
    rw [App.unmixed_iff_sound hpriced.step]
    exact App.sound_step ((App.unmixed_iff_sound hpriced).mp hunmixed)
  have hpriced : App.fresh.Priced := fun t ht => absurd ht (Table.not_mem_empty t)
  have hsound : App.fresh.Sound T covered :=
    ⟨fun t ht => absurd ht (Table.not_mem_empty t), fun b hb => absurd hb (Table.not_mem_empty b)⟩
  exact foldl_throughout_iff (fun s a hs => hs.step) hstep actions App.fresh hpriced
    ((App.unmixed_iff_sound hpriced).mpr hsound)

/-- An account in euros; an income of 100.00 on it, at 1.1 dollars for a euro; and then the reporting currency is pounds. -/
def relabelled : List Action := [
  .saveAccount ⟨js "a", js "EUR", 0, false, none, none⟩,
  .openEditor none (some (js "a")) (js "2026-03-14"),
  .setRate (some (11 / 10)),
  .saveEditor ⟨js "t", .income, 10000, none, none⟩,
  .setReportingCurrency (js "gbp")]

/-- A hundred euros are reported as 110.00 pounds, though nobody quoted euros in pounds. -/
theorem euros_counted_as_pounds : (App.run ascii relabelled).reporting = js "GBP" ∧
    (App.run ascii relabelled).rates.rows = [] ∧
    (App.run ascii relabelled).pairs (js "t") = some ⟨js "EUR", js "USD"⟩ ∧
    totalsFor ascii (App.run ascii relabelled).transactions.rows ⟨js "2026-01-01", js "2026-12-31"⟩ (js "GBP") =
      .ok ⟨11000, 0, 11000⟩ ∧
    ¬ (App.run ascii relabelled).Unmixed ascii (fun _ => none) := by
  have hreporting : (App.run ascii relabelled).reporting = js "GBP" := by decide +kernel
  have htotals : totalsFor ascii (App.run ascii relabelled).transactions.rows ⟨js "2026-01-01", js "2026-12-31"⟩ (js "GBP") =
      .ok ⟨11000, 0, 11000⟩ := by decide +kernel
  have hfair : totalsFor ascii ((App.run ascii relabelled).transactions.rows.map
      ((App.run ascii relabelled).toward ascii (js "GBP"))) ⟨js "2026-01-01", js "2026-12-31"⟩ (js "GBP") =
      .ok ⟨0, 0, 0⟩ := by decide +kernel
  refine ⟨hreporting, by rfl, by decide +kernel, htotals, fun h => ?_⟩
  have hsame := h.totals ⟨js "2026-01-01", js "2026-12-31"⟩
  rw [hreporting, htotals, hfair] at hsame
  exact absurd (congrArg Totals.income (Except.ok.inj hsame)) (by decide)

end Books

end EasyDocket
