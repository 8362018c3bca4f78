import EasyDocket.Books.Aggregate

/-!
# What the aggregations come to

Closed forms of the loops: totals, the flow of a month and the net worth of a date are sums, over all transactions, of what
one of them adds.
-/

namespace EasyDocket

namespace Books

variable {T : Text} {range : DateRange} {reporting : JsString} {t : Transaction} {transactions : List Transaction}

/-- What a transaction adds to the total of a kind. -/
def sideOf (T : Text) (range : DateRange) (reporting : JsString) (kind : TransactionKind) (t : Transaction) : Minor :=
  if t.kind = kind ∧ within t.date range = true then t.amountIn T reporting else 0

/-- What a transaction adds to the total of a kind in a month. -/
def monthSide (T : Text) (range : DateRange) (reporting : JsString) (kind : TransactionKind) (month : JsString)
    (t : Transaction) : Minor :=
  if monthKey t.date = month then sideOf T range reporting kind t else 0

/-- What a transaction adds to net worth. -/
def deltaOf (T : Text) (reporting : JsString) (t : Transaction) : Minor :=
  match t.kind with
  | .transfer => 0
  | .income => t.amountIn T reporting
  | .expense => -t.amountIn T reporting

def total (T : Text) (range : DateRange) (reporting : JsString) (kind : TransactionKind) (transactions : List Transaction) :
    Minor := (transactions.map (sideOf T range reporting kind)).sum

def monthTotal (T : Text) (range : DateRange) (reporting : JsString) (kind : TransactionKind) (month : JsString)
    (transactions : List Transaction) : Minor := (transactions.map (monthSide T range reporting kind month)).sum

/-- What transactions up to a date add to net worth. -/
def changeUpTo (T : Text) (reporting date : JsString) (transactions : List Transaction) : Minor :=
  (transactions.map (fun t => if t.date ≤ date then deltaOf T reporting t else 0)).sum

/-! ## Totals -/

/-- The body of the loop of `totalsFor`, when nothing fails. -/
def totalsPure (T : Text) (range : DateRange) (reporting : JsString) (acc : Minor × Minor) (t : Transaction) : Minor × Minor :=
  (acc.1 + sideOf T range reporting .income t, acc.2 + sideOf T range reporting .expense t)

theorem totalsStep_ok (h : t.Priced) (acc : Minor × Minor) :
    totalsStep T range reporting acc t = .ok (totalsPure T range reporting acc t) := by
  unfold totalsStep totalsPure sideOf Transaction.amountIn
  by_cases hw : within t.date range = true
  · rw [hw, if_neg (by decide), h.added]
    cases t.kind <;> cases t.worth T reporting <;> simp
  · simp [hw]

theorem totalsFor_eq (h : ∀ t ∈ transactions, t.Priced) : totalsFor T transactions range reporting =
    .ok ⟨total T range reporting .income transactions, total T range reporting .expense transactions,
      total T range reporting .income transactions - total T range reporting .expense transactions⟩ := by
  unfold totalsFor
  rw [foldlM_ok (fun t ht acc => totalsStep_ok (h t ht) acc)]
  have hfst := @foldl_measure _ _ _ _ (totalsPure T range reporting) Prod.fst _ (fun _ _ => rfl) transactions (0, 0)
  have hsnd := @foldl_measure _ _ _ _ (totalsPure T range reporting) Prod.snd _ (fun _ _ => rfl) transactions (0, 0)
  rw [Except.map, hfst, hsnd, Int.zero_add, Int.zero_add]
  rfl

/-- Whether a transaction is counted as one that could not be converted. -/
def isUnconverted (T : Text) (range : DateRange) (reporting : JsString) (t : Transaction) : Bool :=
  within t.date range && t.kind ≠ .transfer && (t.worth T reporting).isNone

theorem unconvertedStep_ok (h : t.Priced) (count : ℕ) :
    unconvertedStep T range reporting count t = .ok (count + if isUnconverted T range reporting t then 1 else 0) := by
  unfold unconvertedStep isUnconverted
  by_cases hw : within t.date range = true
  · rw [hw, if_neg (by decide), h.added]
    by_cases hk : t.kind = .transfer
    · simp [hk]
    · cases t.worth T reporting <;> simp [hk]
  · simp [hw]

theorem unconvertedIn_eq (h : ∀ t ∈ transactions, t.Priced) :
    unconvertedIn T transactions range reporting = .ok (transactions.countP (isUnconverted T range reporting)) := by
  unfold unconvertedIn
  rw [foldlM_ok (fun t ht count => unconvertedStep_ok (h t ht) count), ← sum_map_ite_one]
  have hcount := @foldl_measure _ _ _ _ (fun (count : ℕ) t => count + if isUnconverted T range reporting t then 1 else 0) id _
    (fun _ _ => rfl) transactions 0
  rw [id, id, Nat.zero_add] at hcount
  rw [hcount]

/-! ## Months -/

/-- The buckets of the months, with what is in them so far. -/
structure Buckets (months : List JsString) (income expense : JsString → Minor) (buckets : OrderedMap JsString MonthlyFlow) :
    Prop where
  keys : buckets.keys = months
  get : ∀ month ∈ months, buckets.get? month = some ⟨month, income month, expense month, 0⟩

variable (T range reporting) in
theorem flowStep_ok {months : List JsString} {income expense : JsString → Minor} {buckets : OrderedMap JsString MonthlyFlow}
    (h : t.Priced) (hb : Buckets months income expense buckets) : ∃ buckets', flowStep T range reporting buckets t = .ok buckets' ∧
    Buckets months (fun month => income month + monthSide T range reporting .income month t)
      (fun month => expense month + monthSide T range reporting .expense month t) buckets' := by
  by_cases hcounts : within t.date range = true ∧ monthKey t.date ∈ months ∧ (t.worth T reporting).isSome = true
  · obtain ⟨hw, hmonth, hworth⟩ := hcounts
    obtain ⟨amount, hamount⟩ := Option.isSome_iff_exists.mp hworth
    refine ⟨buckets.set (monthKey t.date) ((⟨monthKey t.date, income (monthKey t.date), expense (monthKey t.date), 0⟩ :
      MonthlyFlow).add t.kind amount), ?_, ?_, ?_⟩
    · unfold flowStep
      simp only [hw, hb.get _ hmonth, h.added, hamount]
      rfl
    · rw [OrderedMap.keys_set_of_mem (hb.keys ▸ hmonth), hb.keys]
    · intro month hin
      unfold monthSide sideOf Transaction.amountIn
      rw [OrderedMap.get?_set, hamount, hw]
      by_cases hm : month = monthKey t.date
      · subst hm
        cases t.kind <;> simp [MonthlyFlow.add]
      · rw [if_neg hm, if_neg (fun h => hm h.symm), if_neg (fun h => hm h.symm), Int.add_zero, Int.add_zero]
        exact hb.get month hin
  · refine ⟨buckets, ?_, hb.keys, fun month hin => ?_⟩
    · unfold flowStep
      by_cases hw : within t.date range = true
      · by_cases hmonth : monthKey t.date ∈ months
        · have hworth : t.worth T reporting = none := by
            rw [← Option.not_isSome_iff_eq_none]
            exact fun hs => hcounts ⟨hw, hmonth, hs⟩
          simp only [hw, hb.get _ hmonth, h.added, hworth]
          rfl
        · have hnone : buckets.get? (monthKey t.date) = none := OrderedMap.get?_eq_none.mpr (hb.keys ▸ hmonth)
          simp only [hw, hnone]
          rfl
      · rw [if_pos (Bool.eq_false_iff.mpr hw)]
    · have hzero : ∀ kind, monthSide T range reporting kind month t = 0 := by
        intro kind
        unfold monthSide sideOf Transaction.amountIn
        split_ifs with hm hk
        · have hworth : t.worth T reporting = none := by
            rw [← Option.not_isSome_iff_eq_none]
            exact fun hs => hcounts ⟨hk.2, hm ▸ hin, hs⟩
          rw [hworth]
          rfl
        · rfl
        · rfl
      rw [hzero, hzero, Int.add_zero, Int.add_zero]
      exact hb.get month hin

theorem flow_foldlM {months : List JsString} : ∀ (transactions : List Transaction) (income expense : JsString → Minor)
    (buckets : OrderedMap JsString MonthlyFlow), (∀ t ∈ transactions, t.Priced) → Buckets months income expense buckets →
    ∃ buckets', transactions.foldlM (flowStep T range reporting) buckets = .ok buckets' ∧
      Buckets months (fun month => income month + monthTotal T range reporting .income month transactions)
        (fun month => expense month + monthTotal T range reporting .expense month transactions) buckets'
  | [], income, expense, buckets, _, hb => by
    refine ⟨buckets, rfl, ?_⟩
    simpa [monthTotal] using hb
  | t :: transactions, income, expense, buckets, h, hb => by
    obtain ⟨next, hstep, hnext⟩ := flowStep_ok T range reporting (h t List.mem_cons_self) hb
    obtain ⟨last, hrest, hlast⟩ := flow_foldlM transactions _ _ next (fun u hu => h u (List.mem_cons_of_mem _ hu)) hnext
    refine ⟨last, ?_, ?_⟩
    · rw [List.foldlM_cons, hstep]
      exact hrest
    · simpa only [monthTotal, List.map_cons, List.sum_cons, Int.add_assoc] using hlast

/-- The flow of a month. -/
def flowOf (T : Text) (range : DateRange) (reporting : JsString) (transactions : List Transaction) (month : JsString) :
    MonthlyFlow :=
  ⟨month, monthTotal T range reporting .income month transactions, monthTotal T range reporting .expense month transactions,
    monthTotal T range reporting .income month transactions - monthTotal T range reporting .expense month transactions⟩

theorem flowByMonth_eq (h : ∀ t ∈ transactions, t.Priced) (hmonths : (monthsIn range).Nodup) :
    flowByMonth T transactions range reporting = .ok ((monthsIn range).map (flowOf T range reporting transactions)) := by
  have hkeys : ((monthsIn range).map (fun month => (month, (⟨month, 0, 0, 0⟩ : MonthlyFlow)))).map Prod.fst = monthsIn range := by
    rw [List.map_map]
    exact List.map_id _
  have hstart : Buckets (monthsIn range) (fun _ => 0) (fun _ => 0)
      (.ofList ((monthsIn range).map (fun month => (month, ⟨month, 0, 0, 0⟩)))) := by
    refine ⟨?_, fun month hin => ?_⟩
    · rw [OrderedMap.keys_ofList (by rw [hkeys]; exact hmonths), hkeys]
    · exact (OrderedMap.get?_ofList (by rw [hkeys]; exact hmonths)).mpr (List.mem_map.mpr ⟨month, hin, rfl⟩)
  obtain ⟨buckets, hfold, hb⟩ := flow_foldlM transactions _ _ _ h hstart
  unfold flowByMonth
  dsimp only
  rw [hfold]
  simp only [Int.zero_add] at hb
  have hentries := OrderedMap.entries_eq (m := buckets) (fun month hin => hb.get month (hb.keys ▸ hin))
  show Except.ok (buckets.values.map _) = _
  unfold OrderedMap.values
  rw [hentries, hb.keys, List.map_map, List.map_map]
  rfl

/-! ## Net worth -/

theorem delta_ok (h : t.Priced) : delta T t reporting = .ok (deltaOf T reporting t) := by
  unfold delta deltaOf Transaction.amountIn
  rw [h.added]
  cases t.kind <;> cases t.worth T reporting <;> rfl

variable (T reporting) in
/-- The inner loop takes the transactions up to the cutoff; by induction on those that are left. -/
theorem advance_ok (cutoff : JsString) : ∀ (ordered : List Transaction) (running : Minor),
    (∀ t ∈ ordered, delta T t reporting = .ok (deltaOf T reporting t)) →
    ordered.Pairwise (fun a b => a.date ≤ b.date) →
    ∃ rest, advance T reporting cutoff ordered running = .ok (running + changeUpTo T reporting cutoff ordered, rest) ∧
      rest.Pairwise (fun a b => a.date ≤ b.date) ∧ (∀ t ∈ rest, t ∈ ordered) ∧
      ∀ date, cutoff ≤ date →
        changeUpTo T reporting date ordered = changeUpTo T reporting cutoff ordered + changeUpTo T reporting date rest
  | [], running, _, _ => by
    refine ⟨[], ?_, List.Pairwise.nil, fun _ h => h, fun _ _ => rfl⟩
    unfold changeUpTo
    rw [List.map_nil, List.sum_nil, Int.add_zero]
    rfl
  | t :: ordered, running, h, hs => by
    obtain ⟨hfirst, hs⟩ := List.pairwise_cons.mp hs
    have hcons : ∀ date, changeUpTo T reporting date (t :: ordered) =
        (if t.date ≤ date then deltaOf T reporting t else 0) + changeUpTo T reporting date ordered := fun _ => rfl
    unfold advance
    by_cases ht : t.date ≤ cutoff
    · obtain ⟨rest, hrun, hrest, hsub, hsplit⟩ := advance_ok cutoff ordered (running + deltaOf T reporting t)
        (fun u hu => h u (List.mem_cons_of_mem _ hu)) hs
      refine ⟨rest, ?_, hrest, fun u hu => List.mem_cons_of_mem _ (hsub u hu), fun date hdate => ?_⟩
      · rw [if_pos ht, h t List.mem_cons_self, hcons, if_pos ht, ← Int.add_assoc]
        exact hrun
      · rw [hcons, hcons, if_pos ht, if_pos (ht.trans hdate), hsplit date hdate, Int.add_assoc]
    · have hnone : changeUpTo T reporting cutoff (t :: ordered) = 0 := by
        refine sum_map_eq_zero (fun u hu => if_neg (fun hle => ht ?_))
        rcases List.mem_cons.mp hu with rfl | hu
        · exact hle
        · exact (hfirst u hu).trans hle
      refine ⟨t :: ordered, ?_, List.pairwise_cons.mpr ⟨hfirst, hs⟩, fun _ hu => hu, fun date _ => ?_⟩
      · rw [if_neg ht, hnone, Int.add_zero]
      · rw [hnone, Int.zero_add]

/-- The points of months whose last days do not go back; by induction on the months. -/
theorem pointsFrom_ok : ∀ (months : List JsString) (ordered : List Transaction) (running : Minor),
    (∀ t ∈ ordered, delta T t reporting = .ok (deltaOf T reporting t)) →
    ordered.Pairwise (fun a b => a.date ≤ b.date) →
    (months.map (fun month => lastDayOf month range)).Pairwise (· ≤ ·) →
    pointsFrom T range reporting months ordered running = .ok (months.map (fun month =>
      ⟨lastDayOf month range, running + changeUpTo T reporting (lastDayOf month range) ordered⟩))
  | [], _, _, _, _, _ => rfl
  | month :: months, ordered, running, h, hs, hmonths => by
    obtain ⟨hfirst, hmonths⟩ := List.pairwise_cons.mp hmonths
    obtain ⟨rest, hrun, hrest, hsub, hsplit⟩ := advance_ok T reporting (lastDayOf month range) ordered running h hs
    have ih := pointsFrom_ok months rest (running + changeUpTo T reporting (lastDayOf month range) ordered)
      (fun t ht => h t (hsub t ht)) hrest hmonths
    unfold pointsFrom
    rw [hrun]
    dsimp only
    rw [ih, Except.map, List.map_cons]
    congr 2
    refine List.map_congr_left (fun later hin => ?_)
    rw [hsplit _ (hfirst _ (List.mem_map_of_mem hin)), Int.add_assoc]

theorem changeUpTo_perm {transactions' : List Transaction} (h : transactions.Perm transactions') (date : JsString) :
    changeUpTo T reporting date transactions = changeUpTo T reporting date transactions' :=
  (h.map _).sum_eq

/-- A point of net worth. -/
def pointOf (T : Text) (range : DateRange) (reporting : JsString) (opening : Minor) (transactions : List Transaction)
    (month : JsString) : NetWorthPoint :=
  ⟨lastDayOf month range, opening + changeUpTo T reporting (lastDayOf month range) transactions⟩

theorem sorted_by_date (transactions : List Transaction) :
    (transactions.insertionSort (fun a b => a.date ≤ b.date)).Pairwise (fun a b => a.date ≤ b.date) := by
  have : Std.Total (fun a b : Transaction => a.date ≤ b.date) := ⟨fun a b => le_total a.date b.date⟩
  have : IsTrans Transaction (fun a b => a.date ≤ b.date) := ⟨fun _ _ _ h h' => le_trans h h'⟩
  exact List.pairwise_insertionSort _ _

theorem netWorthOver_eq {accounts : List Account} {rateForCurrency : JsString → Option ℚ} {opening : Minor}
    (h : ∀ t ∈ transactions, delta T t reporting = .ok (deltaOf T reporting t))
    (hopening : accounts.foldlM (openingStep T reporting rateForCurrency) 0 = .ok opening)
    (hmonths : ((monthsIn range).map (fun month => lastDayOf month range)).Pairwise (· ≤ ·)) :
    netWorthOver T accounts transactions range reporting rateForCurrency =
      .ok ((monthsIn range).map (pointOf T range reporting opening transactions)) := by
  have hperm := List.perm_insertionSort (fun a b : Transaction => a.date ≤ b.date) transactions
  unfold netWorthOver
  rw [hopening]
  dsimp only
  rw [pointsFrom_ok (monthsIn range) _ opening (fun t ht => h t (hperm.mem_iff.mp ht)) (sorted_by_date transactions) hmonths]
  refine congrArg Except.ok (List.map_congr_left (fun month _ => ?_))
  rw [changeUpTo_perm hperm]
  rfl

variable (T reporting) in
/-- Positive rates let every opening balance be converted. -/
theorem opening_ok {rateForCurrency : JsString → Option ℚ} (h : ∀ currency rate, rateForCurrency currency = some rate → 0 < rate) :
    ∀ (accounts : List Account) (sum : Minor), ∃ opening,
      accounts.foldlM (openingStep T reporting rateForCurrency) sum = .ok opening
  | [], sum => ⟨sum, rfl⟩
  | account :: accounts, sum => by
    have hstep : ∃ next, openingStep T reporting rateForCurrency sum account = .ok next := by
      unfold openingStep convertStanding
      by_cases hc : sameCurrency T account.currency reporting = true
      · exact ⟨_, if_pos hc⟩
      · rw [if_neg hc]
        cases hrate : rateForCurrency account.currency with
        | none => exact ⟨sum, rfl⟩
        | some rate =>
          dsimp only
          rw [inReporting_eq (fun r hr => Option.some.inj hr ▸ h _ _ hrate)]
          exact ⟨_, rfl⟩
    obtain ⟨next, hnext⟩ := hstep
    obtain ⟨opening, hrest⟩ := opening_ok h accounts next
    exact ⟨opening, by rw [List.foldlM_cons, hnext]; exact hrest⟩

end Books

end EasyDocket
