import EasyDocket.Books.Spend
import Mathlib.Data.List.Sort
import Mathlib.Data.List.Nodup

/-!
# Reporting aggregations

The sums that charts and totals show, over plain lists.  Each loop has a closed form: a sum over the transactions of what
one transaction adds.
-/

namespace EasyDocket

namespace Books

section Definitions

variable (T : Text)

/-! ## Categories -/

structure CategoryTotal where
  /-- Null for spending with no category assigned. -/
  categoryId : Option JsString
  amount : Minor
  /-- Share of the period's total spend, 0-100, rounded. -/
  share : ℤ
  count : ℕ

structure Entry where
  amount : Minor
  count : ℕ

/-- The category that a row is for. -/
def rollUp (roots : Option (OrderedMap JsString JsString)) (categoryId : Option JsString) : Option JsString :=
  categoryId.map (fun id => (roots.bind (fun roots => roots.get? id)).getD id)

/-- Add to the entry of a category. -/
def addTo (totals : OrderedMap (Option JsString) Entry) (key : Option JsString) (amount : Minor) :
    OrderedMap (Option JsString) Entry :=
  let entry := (totals.get? key).getD ⟨0, 0⟩
  totals.set key ⟨entry.amount + amount, entry.count + 1⟩

/-- The body of the loop of `spendByCategory`. -/
def categoryStep (range : DateRange) (reporting : JsString) (roots : Option (OrderedMap JsString JsString))
    (totals : OrderedMap (Option JsString) Entry) (t : Transaction) :
    Except RateError (OrderedMap (Option JsString) Entry) :=
  if t.kind ≠ .expense ∨ within t.date range = false then .ok totals
  else t.added T reporting totals (fun amount => addTo totals (rollUp roots t.categoryId) amount)

/-- `collate`: stable ordering for equal amounts, with uncategorised last. -/
def collate (a b : Option JsString) : ℤ :=
  if a = b then 0
  else
    match a, b with
    | none, _ => 1
    | _, none => -1
    | some a, some b => T.localeCompare a b

def compareTotals (a b : CategoryTotal) : ℤ :=
  if b.amount - a.amount ≠ 0 then b.amount - a.amount else collate T a.categoryId b.categoryId

/-- The row of an entry. -/
def rowOf (total : Minor) (e : Option JsString × Entry) : CategoryTotal where
  categoryId := e.1
  amount := e.2.amount
  share := if 0 < total then mathRound (e.2.amount / total * 100) else 0
  count := e.2.count

/-- The rows of the entries, largest first. -/
def rowsOf (totals : OrderedMap (Option JsString) Entry) : List CategoryTotal :=
  let total := (totals.values.map Entry.amount).sum
  (totals.entries.map (rowOf total)).insertionSort (fun a b => compareTotals T a b ≤ 0)

/-- `spendByCategory`: spending per category over a range, largest first. -/
def spendByCategory (transactions : List Transaction) (range : DateRange) (reporting : JsString)
    (roots : Option (OrderedMap JsString JsString)) : Except RateError (List CategoryTotal) :=
  (transactions.foldlM (categoryStep T range reporting roots) .empty).map (rowsOf T)

/-! ## Months -/

structure MonthlyFlow where
  month : JsString
  income : Minor
  expense : Minor
  net : Minor

/-- Add to one side of a bucket; transfers are on neither. -/
def MonthlyFlow.add (bucket : MonthlyFlow) (kind : TransactionKind) (amount : Minor) : MonthlyFlow :=
  match kind with
  | .income => { bucket with income := bucket.income + amount }
  | .expense => { bucket with expense := bucket.expense + amount }
  | .transfer => bucket

/-- The body of the loop of `flowByMonth`. -/
def flowStep (range : DateRange) (reporting : JsString) (buckets : OrderedMap JsString MonthlyFlow) (t : Transaction) :
    Except RateError (OrderedMap JsString MonthlyFlow) :=
  if within t.date range = false then .ok buckets
  else
    match buckets.get? (monthKey t.date) with
    | none => .ok buckets
    | some bucket =>
      t.added T reporting buckets (fun amount => buckets.set (monthKey t.date) (bucket.add t.kind amount))

/-- `flowByMonth`: income and expense per month across a range. -/
def flowByMonth (transactions : List Transaction) (range : DateRange) (reporting : JsString) :
    Except RateError (List MonthlyFlow) :=
  let buckets : OrderedMap JsString MonthlyFlow := .ofList ((monthsIn range).map (fun month => (month, ⟨month, 0, 0, 0⟩)))
  (transactions.foldlM (flowStep T range reporting) buckets).map (fun buckets =>
    buckets.values.map (fun bucket => { bucket with net := bucket.income - bucket.expense }))

/-! ## Totals -/

structure Totals where
  income : Minor
  expense : Minor
  net : Minor
  deriving DecidableEq

/-- The body of the loop of `totalsFor`, on both sides. -/
def totalsStep (range : DateRange) (reporting : JsString) (acc : Minor × Minor) (t : Transaction) :
    Except RateError (Minor × Minor) :=
  if within t.date range = false then .ok acc
  else t.added T reporting acc (fun amount =>
    match t.kind with
    | .income => (acc.1 + amount, acc.2)
    | .expense => (acc.1, acc.2 + amount)
    | .transfer => acc)

/-- `totalsFor`: totals for a range, with transfers excluded from both sides. -/
def totalsFor (transactions : List Transaction) (range : DateRange) (reporting : JsString) : Except RateError Totals :=
  (transactions.foldlM (totalsStep T range reporting) (0, 0)).map (fun acc => ⟨acc.1, acc.2, acc.1 - acc.2⟩)

/-- The body of the loop of `unconvertedIn`. -/
def unconvertedStep (range : DateRange) (reporting : JsString) (count : ℕ) (t : Transaction) : Except RateError ℕ :=
  if within t.date range = false then .ok count
  else if t.kind = .transfer then .ok count
  else t.added T reporting (count + 1) (fun _ => count)

/-- `unconvertedIn`: how many transactions in a range could not be converted. -/
def unconvertedIn (transactions : List Transaction) (range : DateRange) (reporting : JsString) : Except RateError ℕ :=
  transactions.foldlM (unconvertedStep T range reporting) 0

/-! ## Net worth -/

structure NetWorthPoint where
  /-- Last day of the month, or the range's end for the final point. -/
  date : JsString
  amount : Minor

/-- A standing figure converted at the latest known rate: `convertOpening` and `convertBalance`. -/
def convertStanding (amount : Minor) (rate : ℚ) (src dest : JsString) : Except RateError Minor :=
  (inReporting T amount src (some rate) dest).map (fun x => x.getD 0)

/-- The body of the sum of opening balances. -/
def openingStep (reporting : JsString) (rateForCurrency : JsString → Option ℚ) (sum : Minor) (account : Account) :
    Except RateError Minor :=
  if sameCurrency T account.currency reporting then .ok (sum + account.openingBalance)
  else
    match rateForCurrency account.currency with
    | none => .ok sum
    | some rate => (convertStanding T account.openingBalance rate account.currency reporting).map (fun x => sum + x)

/-- `delta`: effect of one transaction on total net worth. -/
def delta (t : Transaction) (reporting : JsString) : Except RateError Minor :=
  if t.kind = .transfer then .ok 0
  else t.added T reporting 0 (fun amount => if t.kind = .income then amount else -amount)

/-- The inner loop of `netWorthOver`: the running total, and the transactions that are left. -/
def advance (reporting cutoff : JsString) : List Transaction → Minor → Except RateError (Minor × List Transaction)
  | [], running => .ok (running, [])
  | t :: rest, running =>
    if t.date ≤ cutoff then
      match delta T t reporting with
      | .error e => .error e
      | .ok x => advance reporting cutoff rest (running + x)
    else .ok (running, t :: rest)

/-- The loop of `netWorthOver` over the months. -/
def pointsFrom (range : DateRange) (reporting : JsString) : List JsString → List Transaction → Minor →
    Except RateError (List NetWorthPoint)
  | [], _, _ => .ok []
  | month :: months, ordered, running =>
    match advance T reporting (lastDayOf month range) ordered running with
    | .error e => .error e
    | .ok (running, rest) =>
      (pointsFrom range reporting months rest running).map (fun points => ⟨lastDayOf month range, running⟩ :: points)

/-- `netWorthOver`: net worth at the end of each month in a range. -/
def netWorthOver (accounts : List Account) (transactions : List Transaction) (range : DateRange) (reporting : JsString)
    (rateForCurrency : JsString → Option ℚ) : Except RateError (List NetWorthPoint) :=
  match accounts.foldlM (openingStep T reporting rateForCurrency) 0 with
  | .error e => .error e
  | .ok opening =>
    pointsFrom T range reporting (monthsIn range) (transactions.insertionSort (fun a b => a.date ≤ b.date)) opening

end Definitions

/-! ## Rows of categories -/

section Categories

variable {T : Text} {range : DateRange} {reporting : JsString} {roots : Option (OrderedMap JsString JsString)}
  {totals totals' : OrderedMap (Option JsString) Entry} {t : Transaction} {transactions : List Transaction}
  {key : Option JsString}

/-- Whether a transaction is counted in a row. -/
def Spends (T : Text) (range : DateRange) (reporting : JsString) (t : Transaction) : Bool :=
  t.kind = .expense && within t.date range && (t.worth T reporting).isSome

/-- The body of the loop of `spendByCategory`, when nothing fails. -/
def categoryPure (T : Text) (range : DateRange) (reporting : JsString) (roots : Option (OrderedMap JsString JsString))
    (totals : OrderedMap (Option JsString) Entry) (t : Transaction) : OrderedMap (Option JsString) Entry :=
  if Spends T range reporting t then addTo totals (rollUp roots t.categoryId) (t.amountIn T reporting) else totals

theorem categoryPure_eq (h : t.kind = .expense) (hw : within t.date range = true) :
    categoryPure T range reporting roots totals t =
      (t.worth T reporting).elim totals (fun amount => addTo totals (rollUp roots t.categoryId) amount) := by
  unfold categoryPure Spends Transaction.amountIn
  rw [h, hw]
  cases t.worth T reporting <;> rfl

theorem categoryStep_skip (h : ¬ (t.kind = .expense ∧ within t.date range = true)) :
    categoryStep T range reporting roots totals t = .ok totals ∧ categoryPure T range reporting roots totals t = totals := by
  have hskip : t.kind ≠ .expense ∨ within t.date range = false := by
    by_cases hk : t.kind = .expense
    · exact Or.inr (Bool.eq_false_iff.mpr (fun hw => h ⟨hk, hw⟩))
    · exact Or.inl hk
  have hnot : ¬ Spends T range reporting t = true := by
    unfold Spends
    rw [Bool.and_eq_true, Bool.and_eq_true, decide_eq_true_eq]
    exact fun hs => h hs.1
  unfold categoryStep categoryPure
  rw [if_pos hskip, if_neg hnot]
  exact ⟨rfl, rfl⟩

theorem categoryStep_count (h : t.kind = .expense) (hw : within t.date range = true) :
    categoryStep T range reporting roots totals t =
      t.added T reporting totals (fun amount => addTo totals (rollUp roots t.categoryId) amount) := by
  unfold categoryStep
  rw [if_neg]
  rintro (hk | hn)
  · exact hk h
  · rw [hw] at hn
    cases hn

theorem categoryStep_eq_ok (h : categoryStep T range reporting roots totals t = .ok totals') :
    totals' = categoryPure T range reporting roots totals t ∧
      (t.kind = .expense → within t.date range = true → ∃ x, t.inReporting T reporting = .ok x) := by
  by_cases hc : t.kind = .expense ∧ within t.date range = true
  · rw [categoryStep_count hc.1 hc.2] at h
    obtain ⟨heq, hx⟩ := Transaction.added_eq_ok h
    rw [categoryPure_eq hc.1 hc.2]
    exact ⟨heq, fun _ _ => hx⟩
  · have hskip : categoryStep T range reporting roots totals t = .ok totals ∧
        categoryPure T range reporting roots totals t = totals := categoryStep_skip hc
    obtain ⟨hstep, hpure⟩ := hskip
    rw [hstep] at h
    exact ⟨(Except.ok.inj h).symm.trans hpure.symm, fun hk hw => absurd ⟨hk, hw⟩ hc⟩

theorem categoryStep_ok (h : t.Priced) (totals : OrderedMap (Option JsString) Entry) :
    categoryStep T range reporting roots totals t = .ok (categoryPure T range reporting roots totals t) := by
  by_cases hc : t.kind = .expense ∧ within t.date range = true
  · rw [categoryStep_count hc.1 hc.2, categoryPure_eq hc.1 hc.2, h.added]
  · have hskip : categoryStep T range reporting roots totals t = .ok totals ∧
        categoryPure T range reporting roots totals t = totals := categoryStep_skip hc
    obtain ⟨hstep, hpure⟩ := hskip
    rw [hstep, hpure]

/-! ### Entries -/

/-- What a map has for a category. -/
def amountAt (totals : OrderedMap (Option JsString) Entry) (key : Option JsString) : Minor :=
  (totals.get? key).elim 0 Entry.amount

def countAt (totals : OrderedMap (Option JsString) Entry) (key : Option JsString) : ℕ :=
  (totals.get? key).elim 0 Entry.count

/-- What a transaction adds to a row. -/
def spends (T : Text) (range : DateRange) (reporting : JsString) (t : Transaction) : Minor :=
  if Spends T range reporting t then t.amountIn T reporting else 0

def spendCount (T : Text) (range : DateRange) (reporting : JsString) (t : Transaction) : ℕ :=
  if Spends T range reporting t then 1 else 0

theorem get?_addTo {amount : Minor} {k : Option JsString} : (addTo totals key amount).get? k =
    if k = key then some ⟨amountAt totals key + amount, countAt totals key + 1⟩ else totals.get? k := by
  unfold addTo amountAt countAt
  rw [OrderedMap.get?_set]
  cases totals.get? key <;> rfl

theorem amountAt_categoryPure (key : Option JsString) (totals : OrderedMap (Option JsString) Entry) (t : Transaction) :
    amountAt (categoryPure T range reporting roots totals t) key =
      amountAt totals key + if rollUp roots t.categoryId = key then spends T range reporting t else 0 := by
  unfold categoryPure spends
  by_cases hs : Spends T range reporting t
  · rw [if_pos hs, if_pos hs]
    unfold amountAt
    rw [get?_addTo]
    by_cases hk : key = rollUp roots t.categoryId
    · rw [if_pos hk, if_pos hk.symm, hk]
      rfl
    · rw [if_neg hk, if_neg (fun h => hk h.symm), Int.add_zero]
  · rw [if_neg hs, if_neg hs, ite_self, Int.add_zero]

theorem countAt_categoryPure (key : Option JsString) (totals : OrderedMap (Option JsString) Entry) (t : Transaction) :
    countAt (categoryPure T range reporting roots totals t) key =
      countAt totals key + if rollUp roots t.categoryId = key then spendCount T range reporting t else 0 := by
  unfold categoryPure spendCount
  by_cases hs : Spends T range reporting t
  · rw [if_pos hs, if_pos hs]
    unfold countAt
    rw [get?_addTo]
    by_cases hk : key = rollUp roots t.categoryId
    · rw [if_pos hk, if_pos hk.symm, hk]
      rfl
    · rw [if_neg hk, if_neg (fun h => hk h.symm), Nat.add_zero]
  · rw [if_neg hs, if_neg hs, ite_self, Nat.add_zero]

/-- The amount of a category once all transactions are counted. -/
theorem amountAt_foldl (key : Option JsString) (transactions : List Transaction)
    (totals : OrderedMap (Option JsString) Entry) :
    amountAt (transactions.foldl (categoryPure T range reporting roots) totals) key = amountAt totals key +
      (transactions.map (fun t => if rollUp roots t.categoryId = key then spends T range reporting t else 0)).sum :=
  foldl_measure (φ := fun totals => amountAt totals key) (amountAt_categoryPure key) transactions totals

theorem countAt_foldl (key : Option JsString) (transactions : List Transaction)
    (totals : OrderedMap (Option JsString) Entry) :
    countAt (transactions.foldl (categoryPure T range reporting roots) totals) key = countAt totals key +
      (transactions.map (fun t => if rollUp roots t.categoryId = key then spendCount T range reporting t else 0)).sum :=
  foldl_measure (φ := fun totals => countAt totals key) (countAt_categoryPure key) transactions totals

/-! ### Sorted rows -/

theorem rowsOf_perm (T : Text) (totals : OrderedMap (Option JsString) Entry) :
    (rowsOf T totals).Perm (totals.entries.map (rowOf (totals.values.map Entry.amount).sum)) :=
  List.perm_insertionSort _ _

/-- The amount shown for a category, if it has a row. -/
def shownFor (rows : List CategoryTotal) (key : Option JsString) : Minor :=
  ((rows.find? (fun r => r.categoryId = key)).map CategoryTotal.amount).getD 0

theorem shownFor_rowsOf (key : Option JsString) : shownFor (rowsOf T totals) key = amountAt totals key := by
  have hmem : ∀ r, r ∈ rowsOf T totals ↔ ∃ e ∈ totals.entries, rowOf (totals.values.map Entry.amount).sum e = r := by
    intro r
    rw [(rowsOf_perm T totals).mem_iff, List.mem_map]
  unfold shownFor amountAt
  cases hf : (rowsOf T totals).find? (fun r => decide (r.categoryId = key)) with
  | none =>
    have hnone : totals.get? key = none := by
      by_contra hsome
      obtain ⟨entry, hget⟩ := Option.ne_none_iff_exists'.mp hsome
      have hin := (hmem _).mpr ⟨(key, entry), OrderedMap.get?_eq_some.mp hget, rfl⟩
      exact List.find?_eq_none.mp hf _ hin (decide_eq_true rfl)
    rw [hnone]
    rfl
  | some r =>
    obtain ⟨⟨k, entry⟩, he, rfl⟩ := (hmem r).mp (List.mem_of_find?_eq_some hf)
    have hk : k = key := by simpa [rowOf] using List.find?_some hf
    rw [← hk, OrderedMap.get?_eq_some.mpr he]
    rfl

end Categories

end Books

end EasyDocket
