import EasyDocket.Books.Aggregate

/-!
# Balances and net worth

The balances of accounts, from their opening balances and all transactions, and what the accounts that count come to in
the reporting currency.
-/

namespace EasyDocket

namespace Books

section Definitions

/-- `signedFor`: signed effect of a transaction on a given account's balance. -/
def signedFor (accountId : JsString) (t : Transaction) : Minor :=
  match t.kind with
  | .income => if t.accountId = accountId then t.amount else 0
  | .expense => if t.accountId = accountId then -t.amount else 0
  | .transfer =>
    if t.accountId = accountId then -t.amount
    else if t.counterAccountId = some accountId then t.amount
    else 0

/-- The body of the inner loop of `balances`. -/
def balanceStep (t : Transaction) (totals : OrderedMap JsString Minor) (id : Option JsString) : OrderedMap JsString Minor :=
  match truthy id with
  | none => totals
  | some id =>
    match totals.get? id with
    | none => totals
    | some balance => totals.set id (balance + signedFor id t)

/-- The body of the loop of `balances`. -/
def balancesStep (totals : OrderedMap JsString Minor) (t : Transaction) : OrderedMap JsString Minor :=
  balanceStep t (balanceStep t totals (some t.accountId)) t.counterAccountId

/-- `balances`: current balance per account id. -/
def balances (accounts : List Account) (transactions : List Transaction) : OrderedMap JsString Minor :=
  transactions.foldl balancesStep (.ofList (accounts.map (fun account => (account.id, account.openingBalance))))

def active (accounts : List Account) : List Account := accounts.filter (fun account => !account.archived)

/-- `counted`: the accounts that count towards net worth. -/
def counted (accounts : List Account) : List Account := (active accounts).filter countsInTotals

/-- `[...new Set(items)]`. -/
def distinct (items : List JsString) : List JsString := (OrderedMap.ofList (items.map (fun item => (item, ())))).keys

structure NetWorthDetail where
  total : Minor
  unconverted : List JsString
  currency : JsString
  excluded : ℕ
  deriving DecidableEq

variable (T : Text)

/-- The body of the loop of `netWorthDetail`: the total, and the currencies left out. -/
def detailStep (balances : OrderedMap JsString Minor) (reporting : JsString) (rateToReporting : JsString → Option ℚ)
    (acc : Minor × List JsString) (account : Account) : Except RateError (Minor × List JsString) :=
  let balance := (balances.get? account.id).getD 0
  if sameCurrency T account.currency reporting then .ok (acc.1 + balance, acc.2)
  else
    match rateToReporting account.currency with
    | none => .ok (acc.1, acc.2 ++ [account.currency])
    | some rate => (convertStanding T balance rate account.currency reporting).map (fun x => (acc.1 + x, acc.2))

/-- `netWorthDetail`: total across non-archived accounts, in the reporting currency. -/
def netWorthDetail (accounts : List Account) (balances : OrderedMap JsString Minor) (reporting : JsString)
    (rateToReporting : JsString → Option ℚ) : Except RateError NetWorthDetail :=
  ((counted accounts).foldlM (detailStep T balances reporting rateToReporting) (0, [])).map (fun acc =>
    ⟨acc.1, distinct acc.2, reporting, (active accounts).length - (counted accounts).length⟩)

end Definitions

/-! ## Balances -/

section Balances

variable {accounts : List Account} {transactions : List Transaction} {totals : OrderedMap JsString Minor} {t : Transaction}
  {id : JsString}

/-- What a transaction does to the balance of an account. -/
def effectOn (id : JsString) (t : Transaction) : Minor :=
  (if truthy (some t.accountId) = some id then signedFor id t else 0) +
    if truthy t.counterAccountId = some id then signedFor id t else 0

theorem get?_balanceStep (account : Option JsString) : (balanceStep t totals account).get? id =
    (totals.get? id).map (fun balance => balance + if truthy account = some id then signedFor id t else 0) := by
  unfold balanceStep
  cases haccount : truthy account with
  | none => simp
  | some other =>
    simp only [Option.some_inj]
    by_cases hid : other = id
    · subst hid
      cases hget : totals.get? other with
      | none => simp [hget]
      | some balance => simp
    · have hne : id ≠ other := fun h => hid h.symm
      cases hget : totals.get? other with
      | none => simp [hid]
      | some balance => simp [hid, OrderedMap.get?_set_ne hne]

theorem get?_balancesStep : (balancesStep totals t).get? id =
    (totals.get? id).map (fun balance => balance + effectOn id t) := by
  unfold balancesStep effectOn
  rw [get?_balanceStep, get?_balanceStep, Option.map_map]
  refine congrArg (fun f => Option.map f (totals.get? id)) (funext (fun balance => ?_))
  exact Int.add_assoc _ _ _

theorem get?_foldl_balances : ∀ (transactions : List Transaction) (totals : OrderedMap JsString Minor),
    (transactions.foldl balancesStep totals).get? id =
      (totals.get? id).map (fun balance => balance + (transactions.map (effectOn id)).sum)
  | [], totals => by simp
  | t :: transactions, totals => by
    rw [List.foldl_cons, get?_foldl_balances transactions, get?_balancesStep, Option.map_map]
    refine congrArg (fun f => Option.map f (totals.get? id)) (funext (fun balance => ?_))
    rw [List.map_cons, List.sum_cons]
    exact Int.add_assoc _ _ _

/-- The balance of an account. -/
theorem get?_balances (h : (accounts.map Account.id).Nodup) {account : Account} (ha : account ∈ accounts) :
    (balances accounts transactions).get? account.id =
      some (account.openingBalance + (transactions.map (effectOn account.id)).sum) := by
  have hkeys : ((accounts.map (fun account => (account.id, account.openingBalance))).map Prod.fst).Nodup := by
    rw [List.map_map]
    exact h
  unfold balances
  rw [get?_foldl_balances, (OrderedMap.get?_ofList hkeys).mpr (List.mem_map.mpr ⟨account, ha, rfl⟩)]
  rfl

end Balances

/-! ## Net worth -/

section NetWorth

variable {T : Text} {accounts : List Account} {balances : OrderedMap JsString Minor} {reporting : JsString}
  {rateToReporting : JsString → Option ℚ} {account : Account}

theorem mem_distinct {items : List JsString} {item : JsString} : item ∈ distinct items ↔ item ∈ items := by
  unfold distinct
  rw [← not_iff_not, ← OrderedMap.get?_eq_none, OrderedMap.get?_ofList_eq_none, List.map_map]
  exact not_congr (by rw [show Prod.fst ∘ (fun item : JsString => (item, ())) = id from rfl, List.map_id])

/-- Whether an account can be told in the reporting currency. -/
def convertible (T : Text) (reporting : JsString) (rateToReporting : JsString → Option ℚ) (account : Account) : Bool :=
  sameCurrency T account.currency reporting || (rateToReporting account.currency).isSome

/-- What an account is worth in the reporting currency. -/
def standing (T : Text) (balances : OrderedMap JsString Minor) (reporting : JsString) (rateToReporting : JsString → Option ℚ)
    (account : Account) : Minor :=
  (Books.worth T ((balances.get? account.id).getD 0) account.currency (rateToReporting account.currency) reporting).getD 0

/-- What an account adds to net worth. -/
def addsTo (T : Text) (balances : OrderedMap JsString Minor) (reporting : JsString) (rateToReporting : JsString → Option ℚ)
    (account : Account) : Minor :=
  if countsInTotals account then standing T balances reporting rateToReporting account else 0

theorem detailStep_ok (h : ∀ currency rate, rateToReporting currency = some rate → 0 < rate) (acc : Minor × List JsString)
    (account : Account) : detailStep T balances reporting rateToReporting acc account =
      .ok (acc.1 + standing T balances reporting rateToReporting account,
        acc.2 ++ if convertible T reporting rateToReporting account then [] else [account.currency]) := by
  unfold detailStep standing convertible convertStanding worth
  dsimp only
  by_cases hs : sameCurrency T account.currency reporting = true
  · simp [hs]
  · rw [if_neg hs, if_neg hs, Bool.eq_false_iff.mpr hs]
    cases hrate : rateToReporting account.currency with
    | none => simp
    | some rate =>
      simp only
      rw [inReporting_eq (fun r hr => Option.some.inj hr ▸ h _ _ hrate)]
      unfold worth
      rw [if_neg hs]
      simp [Except.map]

theorem detail_foldlM (h : ∀ currency rate, rateToReporting currency = some rate → 0 < rate) :
    ∀ (accounts : List Account) (acc : Minor × List JsString),
      accounts.foldlM (detailStep T balances reporting rateToReporting) acc =
        .ok (acc.1 + (accounts.map (standing T balances reporting rateToReporting)).sum,
          acc.2 ++ (accounts.filter (fun account => !convertible T reporting rateToReporting account)).map Account.currency)
  | [], acc => by simp [pure, Except.pure]
  | account :: accounts, acc => by
    rw [List.foldlM_cons, detailStep_ok h]
    refine (detail_foldlM h accounts _).trans (congrArg Except.ok (Prod.ext ?_ ?_))
    · rw [List.map_cons, List.sum_cons]
      exact Int.add_assoc _ _ _
    · by_cases hc : convertible T reporting rateToReporting account = true
      · simp [hc]
      · simp [hc]

theorem sum_counted (f : Account → Minor) :
    ((accounts.filter countsInTotals).map f).sum = (accounts.map (fun a => if countsInTotals a then f a else 0)).sum := by
  induction accounts with
  | nil => rfl
  | cons account accounts ih =>
    by_cases hc : countsInTotals account = true
    · rw [List.filter_cons_of_pos hc, List.map_cons, List.sum_cons, ih, List.map_cons, List.sum_cons, if_pos hc]
    · rw [List.filter_cons_of_neg hc, ih, List.map_cons, List.sum_cons, if_neg hc, Int.zero_add]

/-- Net worth is what the accounts add, one by one. -/
theorem netWorthDetail_eq (h : ∀ currency rate, rateToReporting currency = some rate → 0 < rate) :
    netWorthDetail T accounts balances reporting rateToReporting =
      .ok ⟨((active accounts).map (addsTo T balances reporting rateToReporting)).sum,
        distinct (((counted accounts).filter (fun account => !convertible T reporting rateToReporting account)).map
          Account.currency),
        reporting, (active accounts).length - (counted accounts).length⟩ := by
  unfold netWorthDetail
  rw [detail_foldlM h, Except.map, Int.zero_add, List.nil_append]
  unfold counted addsTo
  rw [sum_counted]

end NetWorth

end Books

end EasyDocket
