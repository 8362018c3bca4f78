import EasyDocket.Books.Rows
import EasyDocket.Books.Sums

/-!
# Identities of reports

Months split totals, categories split what is spent, and the points of net worth are apart by what flows in a month.  None
of it depends on the order of transactions.
-/

namespace EasyDocket

namespace Books

variable {T : Text} {range : DateRange} {reporting : JsString} {m d m' d' k : ℕ} {t : Transaction}
  {transactions transactions' : List Transaction} {roots : Option (OrderedMap JsString JsString)}

/-- A transaction on a date of the calendar. -/
def Transaction.Dated (t : Transaction) : Prop := ∃ m d, DayOf m d ∧ t.date = iso m d

/-! ## Months of a range -/

/-- The months of a range, by their numbers. -/
structure Months (range : DateRange) (m' first n : ℕ) : Prop where
  eq : monthsIn range = (List.range' first n).map monthText
  le : first + n ≤ m' + 1 ∨ n = 0
  stop : m' < 120000
  within : ∀ m d, DayOf m d → within (iso m d) range = true → first ≤ m ∧ m < first + n
  start : ∀ m d, DayOf m d → first < m → range.first ≤ iso m d

theorem months_exist (h : Spans range m d m' d') (hlen : m' < m + 1200) : ∃ n, Months range m' m n := by
  have hstart : ∀ k e, DayOf k e → m < k → range.first ≤ iso k e := by
    intro k e hk hlt
    rw [h.first, iso_le_iff h.start.month hk.month h.start.lt hk.lt]
    exact Or.inl hlt
  by_cases hempty : range.last < range.first
  · refine ⟨0, ?_, Or.inr rfl, h.stop.month, fun k e _ hw => ?_, hstart⟩
    · unfold monthsIn
      rw [if_pos hempty]
      rfl
    · unfold Books.within at hw
      rw [Bool.and_eq_true, decide_eq_true_eq, decide_eq_true_eq] at hw
      exact absurd (hw.1.trans hw.2) (not_le.mpr hempty)
  · obtain ⟨hle, heq⟩ := monthsIn_eq h hempty hlen
    refine ⟨m' + 1 - m, heq, Or.inl (by omega), h.stop.month, fun k e hk hw => ?_, hstart⟩
    unfold Books.within at hw
    rw [Bool.and_eq_true, decide_eq_true_eq, decide_eq_true_eq, h.first, h.last,
      iso_le_iff h.start.month hk.month h.start.lt hk.lt, iso_le_iff hk.month h.stop.month hk.lt h.stop.lt] at hw
    omega

variable {first n : ℕ}

theorem Months.lt (h : Months range m' first n) (hk : k ∈ List.range' first n) : k ≤ m' := by
  have hmem := List.mem_range'_1.mp hk
  have hle := h.le
  omega

theorem Months.nodup (h : Months range m' first n) : (monthsIn range).Nodup := by
  rw [h.eq]
  refine List.Nodup.map_on (fun a ha b hb hab => ?_) (List.nodup_range' ..)
  exact monthText_inj (lt_of_le_of_lt (h.lt ha) h.stop) (lt_of_le_of_lt (h.lt hb) h.stop) hab

theorem Months.mem (h : Months range m' first n) (hk : DayOf m d) (hw : Books.within (iso m d) range = true) :
    monthText m ∈ monthsIn range := by
  rw [h.eq]
  obtain ⟨hfirst, hlast⟩ := h.within m d hk hw
  exact List.mem_map_of_mem (List.mem_range'_1.mpr ⟨hfirst, hlast⟩)

/-- The dates up to the last day of a month are those of the month or before, up to the end of the range. -/
theorem le_lastDayOf_iff (h : Spans range m d m' d') {j e : ℕ} (hj : DayOf j e) (hk : k ≤ m') :
    iso j e ≤ lastDayOf (monthText k) range ↔ j ≤ k ∧ iso j e ≤ range.last := by
  have hmonth : k < 120000 := lt_of_le_of_lt hk h.stop.month
  rw [lastDayOf_eq h hk, h.last]
  rw [iso_le_iff hj.month h.stop.month hj.lt h.stop.lt]
  by_cases hlt : k < m'
  · have hdays : daysOf k < 10 ^ 2 := by
      have h31 := (daysInMonth_le (k / 12) (k % 12 + 1)).2
      unfold daysOf
      omega
    have hle := hj.le
    rw [if_pos hlt, iso_le_iff hj.month hmonth hj.lt hdays]
    constructor
    · rintro (hl | ⟨rfl, _⟩) <;> omega
    · rintro ⟨hl, _⟩
      rcases Nat.lt_or_eq_of_le hl with hl | rfl
      · exact Or.inl hl
      · exact Or.inr ⟨rfl, hle⟩
  · rw [if_neg hlt, iso_le_iff hj.month h.stop.month hj.lt h.stop.lt]
    omega

theorem lastDays_sorted (h : Spans range m d m' d') (hm : Months range m' first n) :
    ((monthsIn range).map (fun month => lastDayOf month range)).Pairwise (· ≤ ·) := by
  rw [hm.eq, List.map_map, List.pairwise_map]
  refine List.Pairwise.imp_of_mem (fun {a b} ha hb hab => ?_) (List.pairwise_lt_range' ..)
  have hb' := hm.lt hb
  have hmonth : a < 120000 := lt_of_le_of_lt (hm.lt ha) h.stop.month
  have hdays : ∀ k, daysOf k < 10 ^ 2 := by
    intro k
    have h31 := (daysInMonth_le (k / 12) (k % 12 + 1)).2
    unfold daysOf
    omega
  show lastDayOf (monthText a) range ≤ lastDayOf (monthText b) range
  rw [lastDayOf_eq h (hm.lt ha), lastDayOf_eq h hb', if_pos (by omega)]
  by_cases hlt : b < m'
  · rw [if_pos hlt, iso_le_iff hmonth (hlt.trans h.stop.month) (hdays a) (hdays b)]
    exact Or.inl hab
  · rw [if_neg hlt, h.last, iso_le_iff hmonth h.stop.month (hdays a) h.stop.lt]
    exact Or.inl (by omega)

/-! ## Months split totals -/

theorem monthSide_sum (hm : Months range m' first n) (ht : t.Dated) (kind : TransactionKind) :
    ((monthsIn range).map (fun month => monthSide T range reporting kind month t)).sum = sideOf T range reporting kind t := by
  obtain ⟨j, e, hj, hdate⟩ := ht
  unfold monthSide
  rw [sum_map_ite hm.nodup]
  by_cases hw : Books.within t.date range = true
  · rw [hdate] at hw ⊢
    rw [monthKey_iso, if_pos (hm.mem hj hw)]
  · have hzero : sideOf T range reporting kind t = 0 := if_neg (fun hc => hw hc.2)
    rw [hzero, ite_self]

theorem monthTotal_sum (hm : Months range m' first n) (hdated : ∀ t ∈ transactions, t.Dated) (kind : TransactionKind) :
    ((monthsIn range).map (fun month => monthTotal T range reporting kind month transactions)).sum =
      total T range reporting kind transactions := by
  unfold monthTotal total
  rw [sum_swap (fun t month => monthSide T range reporting kind month t)]
  exact congrArg List.sum (List.map_congr_left (fun t ht => monthSide_sum hm (hdated t ht) kind))

/-! ## Months split net worth -/

/-- What a transaction adds up to a month is what it adds up to the month before, and what it adds in the month. -/
theorem delta_split (h : Spans range m d m' d') (hm : Months range m' m n) (ht : t.Dated) (hk : m ≤ k) (hk' : k + 1 ≤ m') :
    (if t.date ≤ lastDayOf (monthText (k + 1)) range then deltaOf T reporting t else 0) =
      (if t.date ≤ lastDayOf (monthText k) range then deltaOf T reporting t else 0) +
        (monthSide T range reporting .income (monthText (k + 1)) t -
          monthSide T range reporting .expense (monthText (k + 1)) t) := by
  obtain ⟨j, e, hj, hdate⟩ := ht
  have hmonth : k + 1 < 120000 := lt_of_le_of_lt hk' h.stop.month
  have hkey : monthKey t.date = monthText (k + 1) ↔ j = k + 1 := by
    rw [hdate, monthKey_iso]
    exact ⟨monthText_inj hj.month hmonth, fun he => by rw [he]⟩
  have hlater := le_lastDayOf_iff h hj hk'
  have hsooner := le_lastDayOf_iff h hj (show k ≤ m' by omega)
  unfold monthSide
  by_cases hin : j = k + 1
  · have hnot : ¬ t.date ≤ lastDayOf (monthText k) range := fun hle => by
      rw [hdate, hsooner] at hle
      omega
    rw [if_neg hnot, if_pos (hkey.mpr hin), if_pos (hkey.mpr hin), Int.zero_add]
    have hstart : range.first ≤ t.date := by
      rw [hdate]
      exact hm.start j e hj (by omega)
    have hwithin : Books.within t.date range = true ↔ t.date ≤ lastDayOf (monthText (k + 1)) range := by
      unfold Books.within
      rw [Bool.and_eq_true, decide_eq_true_eq, decide_eq_true_eq, hdate, hlater, ← hdate]
      exact ⟨fun hw => ⟨by omega, hw.2⟩, fun hle => ⟨hstart, hle.2⟩⟩
    unfold sideOf deltaOf
    by_cases hle : t.date ≤ lastDayOf (monthText (k + 1)) range
    · rw [if_pos hle, hwithin.mpr hle]
      cases t.kind <;> simp
    · rw [if_neg hle, if_neg (fun hc => hle (hwithin.mp hc.2)), if_neg (fun hc => hle (hwithin.mp hc.2)), Int.sub_zero]
  · rw [if_neg (fun hc => hin (hkey.mp hc)), if_neg (fun hc => hin (hkey.mp hc)), Int.sub_zero, Int.add_zero]
    have hsame : t.date ≤ lastDayOf (monthText (k + 1)) range ↔ t.date ≤ lastDayOf (monthText k) range := by
      rw [hdate, hlater, hsooner]
      constructor
      · rintro ⟨hle, hlast⟩
        exact ⟨by omega, hlast⟩
      · rintro ⟨hle, hlast⟩
        exact ⟨by omega, hlast⟩
    by_cases hle : t.date ≤ lastDayOf (monthText k) range
    · rw [if_pos hle, if_pos (hsame.mpr hle)]
    · rw [if_neg hle, if_neg (fun hc => hle (hsame.mp hc))]

theorem changeUpTo_succ (h : Spans range m d m' d') (hm : Months range m' m n) (hdated : ∀ t ∈ transactions, t.Dated)
    (hk : m ≤ k) (hk' : k + 1 ≤ m') :
    changeUpTo T reporting (lastDayOf (monthText (k + 1)) range) transactions =
      changeUpTo T reporting (lastDayOf (monthText k) range) transactions +
        (flowOf T range reporting transactions (monthText (k + 1))).net := by
  unfold changeUpTo
  rw [List.map_congr_left (fun t ht => delta_split h hm (hdated t ht) hk hk'), List.sum_map_add]
  congr 1
  unfold flowOf monthTotal
  exact sum_map_sub _ _ transactions

theorem points_step (h : Spans range m d m' d') (hm : Months range m' m n) (hdated : ∀ t ∈ transactions, t.Dated)
    (opening : Minor) (i : ℕ) (hi : i + 1 < n) :
    ((pointOf T range reporting opening transactions) (monthText (m + (i + 1)))).amount =
      ((pointOf T range reporting opening transactions) (monthText (m + i))).amount +
        (flowOf T range reporting transactions (monthText (m + (i + 1)))).net := by
  have hle := hm.le
  unfold pointOf
  dsimp only
  rw [← Nat.add_assoc, changeUpTo_succ h hm hdated (Nat.le_add_right m i) (by omega), Int.add_assoc]

/-! ## What is spent -/

theorem spends_eq (t : Transaction) : spends T range reporting t = sideOf T range reporting .expense t := by
  unfold spends sideOf Spends Transaction.amountIn
  cases t.worth T reporting with
  | none => simp
  | some amount => simp

theorem amounts_eq_total : amounts (entriesFor T range reporting roots transactions) =
    total T range reporting .expense transactions := by
  rw [amounts_entriesFor]
  exact congrArg List.sum (List.map_congr_left (fun t _ => spends_eq t))

/-! ## Order of transactions -/

theorem total_perm (h : transactions.Perm transactions') (kind : TransactionKind) :
    total T range reporting kind transactions = total T range reporting kind transactions' := (h.map _).sum_eq

theorem flowOf_perm (h : transactions.Perm transactions') (month : JsString) :
    flowOf T range reporting transactions month = flowOf T range reporting transactions' month := by
  unfold flowOf monthTotal
  rw [(h.map (monthSide T range reporting .income month)).sum_eq, (h.map (monthSide T range reporting .expense month)).sum_eq]

theorem pointOf_perm (h : transactions.Perm transactions') (opening : Minor) (month : JsString) :
    pointOf T range reporting opening transactions month = pointOf T range reporting opening transactions' month := by
  unfold pointOf
  rw [changeUpTo_perm h]

/-! ## Identities -/

/-- What reports show of a ledger. -/
structure Reported (T : Text) (accounts : List Account) (transactions : List Transaction) (range : DateRange)
    (reporting : JsString) (rateForCurrency : JsString → Option ℚ) (roots : Option (OrderedMap JsString JsString))
    (totals : Totals) (flow : List MonthlyFlow) (rows own : List CategoryTotal) (points : List NetWorthPoint) : Prop where
  totals : totalsFor T transactions range reporting = .ok totals
  flow : flowByMonth T transactions range reporting = .ok flow
  rows : spendByCategory T transactions range reporting roots = .ok rows
  own : spendByCategory T transactions range reporting none = .ok own
  points : netWorthOver T accounts transactions range reporting rateForCurrency = .ok points

/-- What holds between the parts of a report; `own` has the rows that are not rolled up. -/
structure Consistent (totals : Totals) (flow : List MonthlyFlow) (rows own : List CategoryTotal)
    (points : List NetWorthPoint) : Prop where
  income : (flow.map MonthlyFlow.income).sum = totals.income
  expense : (flow.map MonthlyFlow.expense).sum = totals.expense
  net : (flow.map MonthlyFlow.net).sum = totals.net
  spent : (rows.map CategoryTotal.amount).sum = totals.expense
  amount : (rows.map CategoryTotal.amount).sum = (own.map CategoryTotal.amount).sum
  count : (rows.map CategoryTotal.count).sum = (own.map CategoryTotal.count).sum
  length : points.length = flow.length
  step : ∀ i bucket point point', flow[i + 1]? = some bucket → points[i]? = some point → points[i + 1]? = some point' →
    point'.amount = point.amount + bucket.net

section Closed

variable (T range reporting roots) in
theorem reported_of_priced {accounts : List Account} {rateForCurrency : JsString → Option ℚ} {opening : Minor}
    (h : Spans range m d m' d') (hm : Months range m' m n) (hpriced : ∀ t ∈ transactions, t.Priced)
    (hopening : accounts.foldlM (openingStep T reporting rateForCurrency) 0 = .ok opening) :
    Reported T accounts transactions range reporting rateForCurrency roots
      ⟨total T range reporting .income transactions, total T range reporting .expense transactions,
        total T range reporting .income transactions - total T range reporting .expense transactions⟩
      ((monthsIn range).map (flowOf T range reporting transactions))
      (rowsOf T (entriesFor T range reporting roots transactions))
      (rowsOf T (entriesFor T range reporting none transactions))
      ((monthsIn range).map (pointOf T range reporting opening transactions)) where
  totals := totalsFor_eq hpriced
  flow := flowByMonth_eq hpriced hm.nodup
  rows := spendByCategory_eq hpriced
  own := spendByCategory_eq hpriced
  points := netWorthOver_eq (fun t ht => delta_ok (hpriced t ht)) hopening (lastDays_sorted h hm)

variable (T range reporting roots) in
theorem consistent_of_dated (h : Spans range m d m' d') (hm : Months range m' m n) (hdated : ∀ t ∈ transactions, t.Dated)
    (opening : Minor) :
    Consistent ⟨total T range reporting .income transactions, total T range reporting .expense transactions,
        total T range reporting .income transactions - total T range reporting .expense transactions⟩
      ((monthsIn range).map (flowOf T range reporting transactions))
      (rowsOf T (entriesFor T range reporting roots transactions))
      (rowsOf T (entriesFor T range reporting none transactions))
      ((monthsIn range).map (pointOf T range reporting opening transactions)) where
  income := by
    rw [List.map_map]
    exact monthTotal_sum hm hdated .income
  expense := by
    rw [List.map_map]
    exact monthTotal_sum hm hdated .expense
  net := by
    rw [List.map_map]
    refine (sum_map_sub _ _ (monthsIn range)).trans ?_
    rw [monthTotal_sum hm hdated .income, monthTotal_sum hm hdated .expense]
  spent := by rw [rowsOf_amount_sum, amounts_eq_total]
  amount := by rw [rowsOf_amount_sum, rowsOf_amount_sum, amounts_eq_total, amounts_eq_total]
  count := by rw [rowsOf_count_sum, rowsOf_count_sum, counts_entriesFor, counts_entriesFor]
  length := by rw [List.length_map, List.length_map]
  step := by
    intro i bucket point point' hbucket hpoint hpoint'
    rw [hm.eq, List.map_map, List.getElem?_map, Option.map_eq_some_iff] at hbucket hpoint hpoint'
    obtain ⟨a, ha, rfl⟩ := hbucket
    obtain ⟨b, hb, rfl⟩ := hpoint
    obtain ⟨c, hc, rfl⟩ := hpoint'
    have hca : c = a := Option.some.inj (hc.symm.trans ha)
    obtain ⟨hlt, rfl⟩ := List.getElem?_eq_some_iff.mp ha
    obtain ⟨hlt', rfl⟩ := List.getElem?_eq_some_iff.mp hb
    rw [hca, List.getElem_range', List.getElem_range', Nat.one_mul, Nat.one_mul]
    rw [List.length_range'] at hlt
    exact points_step h hm hdated opening i hlt

end Closed

/-- Reports agree with each other, and with themselves on transactions in another order. -/
theorem reports_consistent {accounts : List Account} {rateForCurrency : JsString → Option ℚ}
    (hrange : Spans range m d m' d') (hlen : m' < m + 1200) (hdated : ∀ t ∈ transactions, t.Dated)
    (hpriced : ∀ t ∈ transactions, t.Priced) (hrates : ∀ currency rate, rateForCurrency currency = some rate → 0 < rate) :
    ∃ totals flow rows own points,
      Reported T accounts transactions range reporting rateForCurrency roots totals flow rows own points ∧
      Consistent totals flow rows own points ∧
      ∀ transactions', transactions.Perm transactions' → ∃ rows' own',
        Reported T accounts transactions' range reporting rateForCurrency roots totals flow rows' own' points ∧
        rows'.Perm rows ∧ own'.Perm own ∧ (T.Orders → rows' = rows ∧ own' = own) := by
  obtain ⟨n, hm⟩ := months_exist hrange hlen
  obtain ⟨opening, hopening⟩ := opening_ok T reporting hrates accounts 0
  refine ⟨_, _, _, _, _, reported_of_priced T range reporting roots hrange hm hpriced hopening,
    consistent_of_dated T range reporting roots hrange hm hdated opening, fun transactions' hperm => ?_⟩
  have hpriced' : ∀ t ∈ transactions', t.Priced := fun t ht => hpriced t (hperm.mem_iff.mpr ht)
  have hreported := reported_of_priced T range reporting roots hrange hm hpriced' hopening
  have hflow : flowOf T range reporting transactions' = flowOf T range reporting transactions :=
    funext (fun month => (flowOf_perm hperm month).symm)
  have hpoint : pointOf T range reporting opening transactions' = pointOf T range reporting opening transactions :=
    funext (fun month => (pointOf_perm hperm opening month).symm)
  rw [← total_perm hperm, ← total_perm hperm, hflow, hpoint] at hreported
  exact ⟨_, _, hreported, rowsOf_perm_of_entries (entriesFor_perm hperm.symm),
    rowsOf_perm_of_entries (entriesFor_perm hperm.symm),
    fun hT => ⟨rowsOf_eq hT (entriesFor_perm hperm.symm), rowsOf_eq hT (entriesFor_perm hperm.symm)⟩⟩

/-! ### A quarter -/

def quarter : DateRange := ⟨iso 24312 15, iso 24314 10⟩

/-- From 15 January 2026 to 10 March 2026. -/
theorem quarter_spans : Spans quarter 24312 15 24314 10 := ⟨rfl, rfl, ⟨by decide, by decide, by decide⟩, ⟨by decide, by decide, by decide⟩⟩

def wages : Transaction := ⟨js "t1", .income, 300000, js "EUR", js "a1", none, none, iso 24313 28, none⟩

/-- Paid in dollars, the day before the range begins. -/
def rent : Transaction := ⟨js "t2", .expense, 90000, js "USD", js "a1", none, some (js "c1"), iso 24312 14, some (9 / 10)⟩

theorem reports_consistent_quarter : ∃ totals flow rows own points,
    Reported ascii [] [wages, rent] quarter (js "EUR") (fun _ => none) none totals flow rows own points ∧
    Consistent totals flow rows own points := by
  have hdated : ∀ t ∈ [wages, rent], t.Dated := by
    intro t ht
    rcases List.mem_pair.mp ht with rfl | rfl
    · exact ⟨24313, 28, ⟨by decide, by decide, by decide⟩, rfl⟩
    · exact ⟨24312, 14, ⟨by decide, by decide, by decide⟩, rfl⟩
  have hpriced : ∀ t ∈ [wages, rent], t.Priced := by
    intro t ht rate hrate
    rcases List.mem_pair.mp ht with rfl | rfl
    · cases hrate
    · rw [← Option.some.inj hrate]
      exact div_pos (by decide) (by decide)
  have hnone : ∀ currency rate, (fun _ : JsString => (none : Option ℚ)) currency = some rate → 0 < rate :=
    fun _ _ h => nomatch h
  obtain ⟨totals, flow, rows, own, points, hreported, hconsistent, -⟩ :=
    reports_consistent quarter_spans (by decide) hdated hpriced hnone
  exact ⟨totals, flow, rows, own, points, hreported, hconsistent⟩

end Books

end EasyDocket
