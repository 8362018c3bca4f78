import EasyDocket.Books.Tree
import EasyDocket.Books.Dates
import EasyDocket.Lib.Folding

/-!
# What a budget counts

A budget sums what was spent on the categories it covers in a window, in its own currency.
-/

namespace EasyDocket

namespace Books

section Worth

variable (T : Text)

/-- Add what a transaction is worth, or do without it. -/
def Transaction.added {σ : Type} (t : Transaction) (reporting : JsString) (missing : σ) (add : Minor → σ) :
    Except RateError σ := (t.inReporting T reporting).map (fun amount => amount.elim missing add)

variable {T} {σ : Type} {t : Transaction} {reporting : JsString} {missing s : σ} {add : Minor → σ}

/-- A transaction whose rate, if it has one, is positive. -/
def Transaction.Priced (t : Transaction) : Prop := ∀ rate, t.rate = some rate → 0 < rate

theorem Transaction.Priced.added (h : t.Priced) :
    t.added T reporting missing add = .ok ((t.worth T reporting).elim missing add) := by
  unfold Transaction.added Transaction.inReporting Transaction.worth
  rw [inReporting_eq h]
  rfl

theorem Transaction.added_eq_ok (h : t.added T reporting missing add = .ok s) :
    s = (t.worth T reporting).elim missing add ∧ ∃ x, t.inReporting T reporting = .ok x := by
  unfold Transaction.added at h
  cases hx : t.inReporting T reporting with
  | error e =>
    rw [hx] at h
    cases h
  | ok x =>
    rw [hx] at h
    have hworth : x = t.worth T reporting := worth_of_inReporting hx
    exact ⟨hworth ▸ (Except.ok.inj h).symm, x, rfl⟩

theorem Transaction.added_of_ok {x : Option Minor} (h : t.inReporting T reporting = .ok x) :
    t.added T reporting missing add = .ok ((t.worth T reporting).elim missing add) := by
  have hworth : x = t.worth T reporting := worth_of_inReporting h
  unfold Transaction.added
  rw [h, ← hworth]
  rfl

variable (T) in
/-- What a transaction adds to a total in a currency. -/
def Transaction.amountIn (t : Transaction) (reporting : JsString) : Minor := (t.worth T reporting).getD 0

theorem Transaction.elim_worth (x : Minor) :
    (t.worth T reporting).elim x (fun amount => x + amount) = x + t.amountIn T reporting := by
  unfold amountIn
  cases t.worth T reporting with
  | none => exact (Int.add_zero x).symm
  | some amount => rfl

end Worth

/-! ## Budgets -/

section Budget

variable (T : Text)

/-- `countsTowards`: does this transaction count against this budget? -/
def countsTowards (budget : Budget) (t : Transaction) (covered : Option (Finset JsString)) : Bool :=
  match t.kind, t.categoryId with
  | .expense, some categoryId =>
    match covered with
    | some covered => categoryId ∈ covered
    | none => categoryId ∈ budget.categoryIds
  | _, _ => false

structure SpendDetail where
  spent : Minor
  unconverted : ℕ

/-- The body of the loop of `spendDetail`. -/
def spendStep (budget : Budget) (window : DateRange) (covered : Option (Finset JsString)) (acc : SpendDetail)
    (t : Transaction) : Except RateError SpendDetail :=
  if !countsTowards budget t covered then .ok acc
  else if t.date < window.first ∨ window.last < t.date then .ok acc
  else t.added T budget.currency { acc with unconverted := acc.unconverted + 1 }
    (fun amount => { acc with spent := acc.spent + amount })

/-- `spendDetail`: spend in a period, with a count of what could not be converted. -/
def spendDetail (budget : Budget) (window : DateRange) (transactions : List Transaction)
    (covered : Option (Finset JsString)) : Except RateError SpendDetail :=
  transactions.foldlM (spendStep T budget window covered) ⟨0, 0⟩

/-- What a transaction adds to what is spent. -/
def spentBy (budget : Budget) (window : DateRange) (covered : Option (Finset JsString)) (t : Transaction) : Minor :=
  if countsTowards budget t covered && within t.date window then t.amountIn T budget.currency else 0

variable {T} {budget : Budget} {window : DateRange} {covered : Option (Finset JsString)} {acc : SpendDetail}
  {t : Transaction} {transactions : List Transaction}

theorem within_iff {date : JsString} : within date window = true ↔ ¬ (date < window.first ∨ window.last < date) := by
  unfold within
  rw [Bool.and_eq_true, decide_eq_true_eq, decide_eq_true_eq, not_or, not_lt, not_lt]

/-- A step counts a transaction in the window, if what it is worth can be told. -/
theorem spendStep_eq (h : countsTowards budget t covered = true → within t.date window = true →
      ∃ x, t.inReporting T budget.currency = .ok x) (acc : SpendDetail) :
    ∃ acc', spendStep T budget window covered acc t = .ok acc' ∧ acc'.spent = acc.spent + spentBy T budget window covered t := by
  unfold spendStep spentBy
  by_cases hc : countsTowards budget t covered = true
  · by_cases hw : within t.date window = true
    · obtain ⟨x, hx⟩ := h hc hw
      rw [hc, hw, if_neg (by decide), if_neg (within_iff.mp hw), if_pos (by decide), Transaction.added_of_ok hx]
      refine ⟨_, rfl, ?_⟩
      rw [← Transaction.elim_worth]
      cases t.worth T budget.currency <;> rfl
    · rw [hc, if_neg (by decide), if_pos (not_not.mp (fun hn => hw (within_iff.mpr hn))), if_neg (by simpa using hw)]
      exact ⟨acc, rfl, (Int.add_zero _).symm⟩
  · rw [if_pos (by simpa using hc), if_neg (by simp [hc])]
    exact ⟨acc, rfl, (Int.add_zero _).symm⟩

/-- What is spent, by induction on the transactions. -/
theorem spent_foldlM : ∀ (transactions : List Transaction) (acc : SpendDetail),
    (∀ t ∈ transactions, countsTowards budget t covered = true → within t.date window = true →
      ∃ x, t.inReporting T budget.currency = .ok x) →
    ∃ acc', transactions.foldlM (spendStep T budget window covered) acc = .ok acc' ∧
      acc'.spent = acc.spent + (transactions.map (spentBy T budget window covered)).sum
  | [], acc, _ => ⟨acc, rfl, (Int.add_zero _).symm⟩
  | t :: transactions, acc, h => by
    obtain ⟨next, hstep, hspent⟩ := spendStep_eq (h t List.mem_cons_self) acc
    obtain ⟨last, hrest, hsum⟩ := spent_foldlM transactions next (fun u hu => h u (List.mem_cons_of_mem _ hu))
    refine ⟨last, ?_, ?_⟩
    · rw [List.foldlM_cons, hstep]
      exact hrest
    · rw [hsum, hspent, List.map_cons, List.sum_cons, Int.add_assoc]

/-- The body of the loop of `spendDetail`, when nothing fails. -/
def spendPure (T : Text) (budget : Budget) (window : DateRange) (covered : Option (Finset JsString)) (acc : SpendDetail)
    (t : Transaction) : SpendDetail where
  spent := acc.spent + spentBy T budget window covered t
  unconverted := acc.unconverted +
    if countsTowards budget t covered && within t.date window && (t.worth T budget.currency).isNone then 1 else 0

theorem spendStep_ok (h : t.Priced) (acc : SpendDetail) :
    spendStep T budget window covered acc t = .ok (spendPure T budget window covered acc t) := by
  unfold spendStep spendPure spentBy
  by_cases hc : countsTowards budget t covered = true
  · by_cases hw : within t.date window = true
    · rw [hc, hw, if_neg (by decide), if_neg (within_iff.mp hw), h.added]
      unfold Transaction.amountIn
      cases t.worth T budget.currency <;> simp
    · rw [hc, if_neg (by decide), if_pos (not_not.mp (fun hn => hw (within_iff.mpr hn)))]
      simp [hw]
  · simp [hc]

/-- What a budget counts, in closed form. -/
theorem spendDetail_eq (h : ∀ t ∈ transactions, t.Priced) : spendDetail T budget window transactions covered =
    .ok ⟨(transactions.map (spentBy T budget window covered)).sum, transactions.countP (fun t =>
      countsTowards budget t covered && within t.date window && (t.worth T budget.currency).isNone)⟩ := by
  unfold spendDetail
  rw [foldlM_ok (fun t ht acc => spendStep_ok (h t ht) acc), ← sum_map_ite_one]
  have hspent := @foldl_measure _ _ _ _ (spendPure T budget window covered) SpendDetail.spent _ (fun _ _ => rfl)
    transactions ⟨0, 0⟩
  have hmissing := @foldl_measure _ _ _ _ (spendPure T budget window covered) SpendDetail.unconverted _ (fun _ _ => rfl)
    transactions ⟨0, 0⟩
  rw [Int.zero_add] at hspent
  rw [Nat.zero_add] at hmissing
  rw [← hspent, ← hmissing]

end Budget

end Books

end EasyDocket
