import EasyDocket.Books.Periods
import EasyDocket.Books.Spend
import EasyDocket.Books.Transactions

/-!
# Rollover

How a budget is doing: what is spent in its window, against its amount and what earlier windows left over.  The windows
tile the calendar, so what is carried is what was granted less all that was spent since the budget began.
-/

namespace EasyDocket

namespace Books

open Tiling

/-- A budget with its windows, the limit for one of them, and whether what is left is carried on. -/
structure RollingBudget extends Budget, Anchor where
  amount : Minor
  rollover : Bool

inductive ProgressError
  | window (e : WindowError)
  | rate (e : RateError)

structure BudgetProgress where
  budget : RollingBudget
  unconverted : ℕ
  window : BudgetWindow
  limit : Minor
  carried : Minor
  allowance : Minor
  spent : Minor
  remaining : Minor
  share : ℤ
  «over» : Bool

section Progress

variable (T : Text)

/-- `spendIn`. -/
def spendIn (budget : RollingBudget) (window : BudgetWindow) (transactions : List Transaction)
    (covered : Option (Finset JsString)) : Except ProgressError Minor :=
  ((spendDetail T budget.toBudget window.toDateRange transactions covered).map SpendDetail.spent).mapError .rate

/-- The body of the loop of `carriedInto`. -/
def carryStep (budget : RollingBudget) (transactions : List Transaction) (covered : Option (Finset JsString))
    (carry : Minor) (period : ℕ) : Except ProgressError Minor := do
  let window ← (windowByIndex budget.toAnchor period).mapError (fun e => .window (.date e))
  let spent ← spendIn T budget window transactions covered
  pure (carry + (budget.amount - spent))

/-- `carriedInto`: what carries into a period from everything before it. -/
def carriedInto (budget : RollingBudget) (index : ℤ) (transactions : List Transaction)
    (covered : Option (Finset JsString)) : Except ProgressError Minor :=
  if !budget.rollover || index ≤ 0 then pure 0
  else (List.range index.toNat).foldlM (carryStep T budget transactions covered) 0

/-- The record that `progressFor` makes. -/
def progressOf (budget : RollingBudget) (window : BudgetWindow) (carried : Minor) (detail : SpendDetail) : BudgetProgress :=
  let allowance := budget.amount + carried
  let remaining := allowance - detail.spent
  { budget
    unconverted := detail.unconverted
    window
    limit := budget.amount
    carried
    allowance
    spent := detail.spent
    remaining
    share := if 0 < allowance then min 100 (mathRound (detail.spent / allowance * 100)) else 100
    «over» := remaining < 0 }

/-- `progressFor`: progress for the period that contains a date, or none before the budget begins. -/
def progressFor (fuel : ℕ) (budget : RollingBudget) (transactions : List Transaction) (asOf : JsString)
    (covered : Option (Finset JsString)) : Except ProgressError (Option BudgetProgress) := do
  match ← (windowFor fuel budget.toAnchor asOf).mapError .window with
  | none => pure none
  | some window =>
    let carried ← carriedInto T budget window.index transactions covered
    let detail ← (spendDetail T budget.toBudget window.toDateRange transactions covered).mapError .rate
    pure (some (progressOf budget window carried detail))

end Progress

/-! ## What is spent in the windows -/

/-- The days of a window. -/
def windowRange (period : BudgetPeriod) (c : CalendarDate) (i : ℤ) : DateRange :=
  ⟨(startOf period c i).text, (stopOf period c i).text⟩

/-- The days from the start of the budget up to the day before a window. -/
def spanBefore (period : BudgetPeriod) (c : CalendarDate) (i : ℤ) : DateRange := ⟨c.text, (stopOf period c (i - 1)).text⟩

/-- A budget that begins on a date of the calendar, and a ledger as it is recorded: rates are positive, and the dates of
what counts are dates of the calendar. -/
structure Recorded (budget : RollingBudget) (c : CalendarDate) (transactions : List Transaction)
    (covered : Option (Finset JsString)) : Prop where
  starts : budget.startDate = c.text
  plain : c.Plain
  priced : ∀ t ∈ transactions, t.Priced
  dated : ∀ t ∈ transactions, countsTowards budget.toBudget t covered = true →
    ∃ q : CalendarDate, q.month < 120000 ∧ t.date = q.text

variable {T : Text} {budget : RollingBudget} {period : BudgetPeriod} {c q : CalendarDate} {transactions : List Transaction}
  {covered : Option (Finset JsString)} {t : Transaction} {i j : ℕ}

theorem within_text {a b : CalendarDate} (hq : q.month < 120000) (ha : a.month < 120000) (hb : b.month < 120000) :
    within q.text ⟨a.text, b.text⟩ = true ↔ a ≤ q ∧ q ≤ b := by
  unfold within
  rw [Bool.and_eq_true, decide_eq_true_iff, decide_eq_true_iff, CalendarDate.text_le_iff ha hq,
    CalendarDate.text_le_iff hq hb]

theorem startOf_mono (hc : 1200 ≤ c.month) (h : j ≤ i) : startOf period c j ≤ startOf period c i :=
  (startOf_strictMono hc).monotone h

theorem le_startOf_start (hc : 1200 ≤ c.month) (i : ℕ) : c ≤ startOf period c i := by
  have hle : startOf period c (0 : ℕ) ≤ startOf period c i := startOf_mono hc (Nat.zero_le i)
  rwa [startOf_zero] at hle

theorem startOf_month_le_succ (hc : 1200 ≤ c.month) (i : ℕ) :
    (startOf period c i).month ≤ (startOf period c (i + 1 : ℕ)).month :=
  CalendarDate.month_mono (startOf_mono hc (Nat.le_succ i))

theorem stopOf_month_le (hc : 1200 ≤ c.month) (i : ℕ) : (stopOf period c i).month ≤ (startOf period c (i + 1 : ℕ)).month := by
  have hcast : (i : ℤ) + 1 = (i + 1 : ℕ) := by omega
  have hlast : stopOf period c i < startOf period c (i + 1) := (le_stopOf_iff (le_startOf hc i)).mp le_rfl
  rw [hcast] at hlast
  exact CalendarDate.month_mono (le_of_lt hlast)

/-- A date is in a window if it is between two starts. -/
theorem within_windowRange (hc : 1200 ≤ c.month) (hq : q.month < 120000)
    (hi : (startOf period c (i + 1 : ℕ)).month < 120000) :
    within q.text (windowRange period c i) = true ↔ startOf period c i ≤ q ∧ q < startOf period c (i + 1 : ℕ) := by
  have hcast : (i : ℤ) + 1 = (i + 1 : ℕ) := by omega
  have hstart := @startOf_month_le_succ period c hc i
  unfold windowRange
  rw [within_text hq (by omega) (lt_of_le_of_lt (stopOf_month_le hc i) hi), le_stopOf_iff (le_startOf hc i), hcast]

/-- A date is before a window if it is before its start. -/
theorem within_spanBefore (hc : 1200 ≤ c.month) (hq : q.month < 120000) (hi : (startOf period c i).month < 120000) :
    within q.text (spanBefore period c i) = true ↔ c ≤ q ∧ q < startOf period c i := by
  have hback : (i : ℤ) - 1 + 1 = i := by omega
  have hmonth := CalendarDate.month_mono (@le_startOf_start period c hc i)
  have hpos : 0 < (startOf period c i).ordinal :=
    lt_of_lt_of_le (CalendarDate.daysBefore_pos (le_startOf hc i)) (Nat.le_add_right _ _)
  have hstop : (stopOf period c ((i : ℤ) - 1)).ordinal = (startOf period c i).ordinal - 1 := by
    rw [ordinal_stopOf, hback]
  have hlt : stopOf period c ((i : ℤ) - 1) < startOf period c i := by
    rw [CalendarDate.lt_iff, hstop]
    omega
  have hle : q ≤ stopOf period c ((i : ℤ) - 1) ↔ q < startOf period c i := by
    rw [CalendarDate.le_iff, CalendarDate.lt_iff, hstop]
    omega
  unfold spanBefore
  rw [within_text hq (by omega) (lt_of_le_of_lt (CalendarDate.month_mono (le_of_lt hlt)) hi), hle]

/-- What counts up to the end of a window counts before it or in it, and not twice. -/
theorem spentBy_span_succ (h : Recorded budget c transactions covered) (ht : t ∈ transactions)
    (hi : (startOf period c (i + 1 : ℕ)).month < 120000) :
    spentBy T budget.toBudget (spanBefore period c (i + 1 : ℕ)) covered t =
      spentBy T budget.toBudget (spanBefore period c i) covered t +
        spentBy T budget.toBudget (windowRange period c i) covered t := by
  unfold spentBy
  by_cases hcounts : countsTowards budget.toBudget t covered = true
  · obtain ⟨q, hq, hdate⟩ := h.dated t ht hcounts
    have hge := h.plain.ge
    have hupto := within_spanBefore hge hq hi
    have hbefore := within_spanBefore hge hq (lt_of_le_of_lt (startOf_month_le_succ hge i) hi)
    have hin := within_windowRange hge hq hi
    have hfirst := @le_startOf_start period c hge i
    have hnext : startOf period c i < startOf period c (i + 1 : ℕ) := startOf_strictMono hge (Nat.lt_succ_self i)
    rw [hcounts, hdate, Bool.true_and, Bool.true_and, Bool.true_and]
    rcases lt_or_ge q (startOf period c i) with hlt | hge'
    · have hnot : ¬ within q.text (windowRange period c i) = true := fun hw => absurd (hin.mp hw).1 (not_le.mpr hlt)
      have hiff : within q.text (spanBefore period c (i + 1 : ℕ)) = true ↔
          within q.text (spanBefore period c i) = true := by
        rw [hupto, hbefore]
        exact and_congr_right (fun _ => iff_of_true (hlt.trans hnext) hlt)
      rw [if_neg hnot, Int.add_zero]
      exact if_congr hiff rfl rfl
    · have hnot : ¬ within q.text (spanBefore period c i) = true := fun hw => absurd (hbefore.mp hw).2 (not_lt.mpr hge')
      have hiff : within q.text (spanBefore period c (i + 1 : ℕ)) = true ↔
          within q.text (windowRange period c i) = true := by
        rw [hupto, hin]
        exact and_congr_left (fun _ => iff_of_true (hfirst.trans hge') hge')
      rw [if_neg hnot, Int.zero_add]
      exact if_congr hiff rfl rfl
  · have hfalse : countsTowards budget.toBudget t covered = false := by simpa using hcounts
    simp [hfalse]

theorem sum_span_succ (h : Recorded budget c transactions covered) (hi : (startOf period c (i + 1 : ℕ)).month < 120000) :
    (transactions.map (spentBy T budget.toBudget (spanBefore period c (i + 1 : ℕ)) covered)).sum =
      (transactions.map (spentBy T budget.toBudget (spanBefore period c i) covered)).sum +
        (transactions.map (spentBy T budget.toBudget (windowRange period c i) covered)).sum := by
  rw [← List.sum_map_add]
  exact congrArg List.sum (List.map_congr_left (fun t ht => spentBy_span_succ h ht hi))

theorem sum_span_zero (h : Recorded budget c transactions covered) :
    (transactions.map (spentBy T budget.toBudget (spanBefore period c (0 : ℕ)) covered)).sum = 0 := by
  refine List.sum_eq_zero (fun x hx => ?_)
  obtain ⟨t, ht, rfl⟩ := List.mem_map.mp hx
  unfold spentBy
  refine if_neg (fun hand => ?_)
  obtain ⟨hcounts, hwithin⟩ := Bool.and_eq_true_iff.mp hand
  obtain ⟨q, hq, hdate⟩ := h.dated t ht hcounts
  have hzero : (startOf period c (0 : ℕ)).month < 120000 := by
    rw [startOf_zero]
    exact h.plain.lt
  rw [hdate, within_spanBefore h.plain.ge hq hzero, startOf_zero] at hwithin
  exact absurd hwithin.1 (not_le.mpr hwithin.2)

/-! ## What is carried -/

theorem spendIn_eq (h : Recorded budget c transactions covered) (window : BudgetWindow) :
    spendIn T budget window transactions covered =
      .ok (transactions.map (spentBy T budget.toBudget window.toDateRange covered)).sum := by
  unfold spendIn
  rw [spendDetail_eq h.priced]
  rfl

/-- The window of a budget, as its functions find it. -/
theorem windowByIndex_budget (h : Recorded budget c transactions covered)
    (hi : (startOf budget.period c (i + 1 : ℕ)).month < 120000) :
    windowByIndex budget.toAnchor i = .ok ⟨windowRange budget.period c i, i⟩ := by
  have hcast : (i : ℤ) + 1 = (i + 1 : ℕ) := by omega
  have hanchor : budget.toAnchor = ⟨budget.period, c.text⟩ := by rw [← h.starts]
  rw [hanchor]
  refine windowByIndex_text h.plain (le_startOf h.plain.ge i) ?_
  rw [hcast]
  exact ⟨le_startOf h.plain.ge (i + 1), hi⟩

theorem carryStep_eq (h : Recorded budget c transactions covered)
    (hi : (startOf budget.period c (i + 1 : ℕ)).month < 120000) (carry : Minor) :
    carryStep T budget transactions covered carry i = .ok (carry + (budget.amount -
      (transactions.map (spentBy T budget.toBudget (windowRange budget.period c i) covered)).sum)) := by
  unfold carryStep
  rw [windowByIndex_budget h hi]
  show (do let spent ← spendIn _ _ _ _ _; pure _) = _
  rw [spendIn_eq h]
  rfl

/-- The periods before a window leave over what they were granted less all that was spent in them; by induction on the
window. -/
theorem carry_foldlM (h : Recorded budget c transactions covered) : ∀ i : ℕ,
    (startOf budget.period c i).month < 120000 →
    (List.range i).foldlM (carryStep T budget transactions covered) 0 = .ok (i * budget.amount -
      (transactions.map (spentBy T budget.toBudget (spanBefore budget.period c i) covered)).sum)
  | 0, _ => by
    rw [sum_span_zero h, Int.natCast_zero, Int.zero_mul]
    rfl
  | i + 1, hi => by
    have ih := carry_foldlM h i (lt_of_le_of_lt (startOf_month_le_succ h.plain.ge i) hi)
    rw [List.range_succ, List.foldlM_append, ih]
    simp only [List.foldlM_cons, List.foldlM_nil, bind_pure]
    show carryStep T budget transactions covered _ i = _
    rw [carryStep_eq h hi, sum_span_succ h hi]
    congr 1
    push_cast
    ring

theorem carriedInto_eq (h : Recorded budget c transactions covered) (hroll : budget.rollover = true)
    (hi : (startOf budget.period c i).month < 120000) :
    carriedInto T budget i transactions covered = .ok (i * budget.amount -
      (transactions.map (spentBy T budget.toBudget (spanBefore budget.period c i) covered)).sum) := by
  unfold carriedInto
  rw [hroll]
  cases i with
  | zero =>
    rw [sum_span_zero h, Int.natCast_zero, Int.zero_mul]
    rfl
  | succ i =>
    rw [if_neg (by simp), Int.toNat_natCast]
    exact carry_foldlM h (i + 1) hi

/-- A date up to the end of a window is in one window only, of those up to it. -/
theorem existsUnique_within (h : Recorded budget c transactions covered) (ht : t ∈ transactions)
    (hcounts : countsTowards budget.toBudget t covered = true) (hi : (startOf budget.period c (i + 1 : ℕ)).month < 120000)
    (hspan : within t.date (spanBefore budget.period c (i + 1 : ℕ)) = true) :
    ∃! j : ℕ, j ≤ i ∧ within t.date (windowRange budget.period c j) = true := by
  obtain ⟨q, hq, hdate⟩ := h.dated t ht hcounts
  have hge := h.plain.ge
  have hmonth : ∀ j ≤ i, (startOf budget.period c (j + 1 : ℕ)).month < 120000 := fun j hj =>
    lt_of_le_of_lt (CalendarDate.month_mono (startOf_mono hge (Nat.succ_le_succ hj))) hi
  rw [hdate, within_spanBefore hge hq hi] at hspan
  have hfirst : startOf budget.period c (0 : ℕ) ≤ q := by
    rw [startOf_zero]
    exact hspan.1
  obtain ⟨j, hj, hblock⟩ := exists_inBlock (f := fun i : ℕ => startOf budget.period c i) hfirst hspan.2
  have hle := Nat.le_of_lt_succ hj
  refine ⟨j, ⟨hle, ?_⟩, fun k ⟨hk, hwithin⟩ => ?_⟩
  · rw [hdate]
    exact (within_windowRange hge hq (hmonth j hle)).mpr ⟨hblock.start, hblock.stop⟩
  · rw [hdate, within_windowRange hge hq (hmonth k hk)] at hwithin
    have hblock' : InBlock (fun i : ℕ => startOf budget.period c i) k q := ⟨hwithin.1, hwithin.2⟩
    exact hblock'.unique (startOf_strictMono hge) hblock

theorem spanBefore_succ (i : ℕ) : spanBefore period c (i + 1 : ℕ) = ⟨c.text, (stopOf period c i).text⟩ := by
  have hback : ((i + 1 : ℕ) : ℤ) - 1 = i := by omega
  unfold spanBefore
  rw [hback]

/-- How the budget is doing on a date of one of its windows. -/
theorem progressFor_eq (h : Recorded budget c transactions covered) (hroll : budget.rollover = true)
    (hq : q.month < 119988) (hi : InBlock (fun i : ℕ => startOf budget.period c i) i q) :
    ∃ p : BudgetProgress,
      (∀ fuel, 2 ≤ fuel → progressFor T fuel budget transactions q.text covered = .ok (some p)) ∧
        p.window = ⟨windowRange budget.period c i, i⟩ ∧
        p.remaining = (i + 1) * budget.amount -
          (transactions.map (spentBy T budget.toBudget ⟨c.text, p.window.last⟩ covered)).sum := by
  obtain ⟨hstart, hnext⟩ := startOf_plain h.plain hq hi
  have hanchor : budget.toAnchor = ⟨budget.period, c.text⟩ := by rw [← h.starts]
  obtain ⟨carried, hcarried, hleft⟩ : ∃ carried, carriedInto T budget i transactions covered = .ok carried ∧
      carried = _ := ⟨_, carriedInto_eq h hroll hstart.lt, rfl⟩
  obtain ⟨detail, hdetail, hspent⟩ : ∃ detail, spendDetail T budget.toBudget (windowRange budget.period c i) transactions
      covered = .ok detail ∧
        detail.spent = (transactions.map (spentBy T budget.toBudget (windowRange budget.period c i) covered)).sum :=
    ⟨_, spendDetail_eq h.priced, rfl⟩
  have hspan := sum_span_succ (T := T) h hnext.lt
  rw [spanBefore_succ] at hspan
  refine ⟨progressOf budget ⟨windowRange budget.period c i, i⟩ carried detail, fun fuel hfuel => ?_, rfl, ?_⟩
  · unfold progressFor
    rw [hanchor, windowFor_eq h.plain hq hi hfuel]
    show (do let carried ← carriedInto T budget (i : ℤ) transactions covered; _) = _
    rw [hcarried]
    show (do
      let detail ← (spendDetail T budget.toBudget (windowRange budget.period c i) transactions covered).mapError _
      _) = _
    rw [hdetail]
    rfl
  · show budget.amount + carried - detail.spent =
      _ - (transactions.map (spentBy T _ ⟨c.text, (stopOf budget.period c i).text⟩ _)).sum
    rw [hspan, hspent, hleft]
    ring

/-- Rollover conserves money.  What carries into a window is what was granted before it less all that was spent since the
budget began; what is left on a date is what was granted up to its window less all that was spent up to the window's end;
and what counts and can be converted is spent in one window, whole. -/
theorem rollover_conserves (h : Recorded budget c transactions covered) (hroll : budget.rollover = true) :
    (∀ i : ℕ, (startOf budget.period c i).month < 120000 →
      carriedInto T budget i transactions covered = .ok (i * budget.amount -
        (transactions.map (spentBy T budget.toBudget (spanBefore budget.period c i) covered)).sum)) ∧
      (∀ q : CalendarDate, c ≤ q → q.month < 119988 → ∃ (i : ℕ) (p : BudgetProgress),
        (∀ fuel, 2 ≤ fuel → progressFor T fuel budget transactions q.text covered = .ok (some p)) ∧
          p.window.index = i ∧ within q.text p.window.toDateRange = true ∧
          windowByIndex budget.toAnchor i = .ok p.window ∧
          p.remaining = (i + 1) * budget.amount -
            (transactions.map (spentBy T budget.toBudget ⟨c.text, p.window.last⟩ covered)).sum) ∧
      ∀ (i : ℕ) (t : Transaction) (amount : Minor), (startOf budget.period c (i + 1 : ℕ)).month < 120000 →
        t ∈ transactions → countsTowards budget.toBudget t covered = true → t.worth T budget.currency = some amount →
        within t.date (spanBefore budget.period c (i + 1 : ℕ)) = true →
        ∃ j ≤ i, spentBy T budget.toBudget (windowRange budget.period c j) covered t = amount ∧
          within t.date (windowRange budget.period c j) = true ∧
          ∀ k ≤ i, spendIn T budget ⟨windowRange budget.period c k, k⟩ transactions covered =
              .ok (transactions.map (spentBy T budget.toBudget (windowRange budget.period c k) covered)).sum ∧
            (k ≠ j → within t.date (windowRange budget.period c k) = false ∧
              spentBy T budget.toBudget (windowRange budget.period c k) covered t = 0) := by
  refine ⟨fun i hi => carriedInto_eq h hroll hi, fun q hcq hq => ?_, fun i t amount hi ht hcounts hworth hspan => ?_⟩
  · obtain ⟨i, hi⟩ := CalendarDate.exists_after budget.period.pace_size h.plain.ge hcq
    obtain ⟨hstart, hnext⟩ := startOf_plain h.plain hq hi
    obtain ⟨p, hp, hwindow, hremaining⟩ := progressFor_eq (T := T) h hroll hq hi
    refine ⟨i, p, hp, by rw [hwindow], ?_, ?_, hremaining⟩
    · rw [hwindow]
      exact (within_windowRange h.plain.ge (by omega) hnext.lt).mpr ⟨hi.start, hi.stop⟩
    · rw [hwindow]
      exact windowByIndex_budget h hnext.lt
  · obtain ⟨j, ⟨hj, hwithin⟩, hunique⟩ := existsUnique_within h ht hcounts hi hspan
    refine ⟨j, hj, ?_, hwithin, fun k hk => ⟨spendIn_eq h _, fun hne => ?_⟩⟩
    · unfold spentBy Transaction.amountIn
      rw [hcounts, hwithin, hworth]
      rfl
    · have hout : within t.date (windowRange budget.period c k) = false :=
        Bool.eq_false_iff.mpr (fun hw => hne (hunique k ⟨hk, hw⟩))
      refine ⟨hout, ?_⟩
      unfold spentBy
      rw [hout, Bool.and_false]
      rfl

/-- A monthly budget from the last of January on. -/
def foodBudget : RollingBudget where
  categoryIds := [js "food"]
  currency := js "EUR"
  period := .monthly
  startDate := (CalendarDate.clamped 24288 31).text
  amount := 10000
  rollover := true

/-- A purchase on the day before the second window. -/
def weekShop : Transaction where
  id := js "t"
  kind := .expense
  amount := 1200
  currency := js "EUR"
  accountId := js "a"
  counterAccountId := none
  categoryId := some (js "food")
  date := (CalendarDate.clamped 24289 28).text
  rate := none

/-- The purchases of the first two windows: one abroad, and one that overspends. -/
def shops : List Transaction :=
  [{ weekShop with id := js "t1", amount := 900, currency := js "USD", date := (CalendarDate.clamped 24288 31).text, rate := some 2 },
    weekShop,
    { weekShop with id := js "t2", amount := 11500, date := (CalendarDate.clamped 24289 29).text },
    { weekShop with id := js "t3", kind := .income, date := (CalendarDate.clamped 24289 29).text }]

theorem recorded_shops : Recorded foodBudget (CalendarDate.clamped 24288 31) shops none where
  starts := rfl
  plain := ⟨by decide, by decide⟩
  priced := by
    unfold shops Transaction.Priced
    simp only [List.forall_mem_cons]
    refine ⟨fun rate hrate => ?_, nofun, nofun, nofun, fun t ht => absurd ht List.not_mem_nil⟩
    cases hrate
    exact two_pos
  dated := by
    unfold shops
    simp only [List.forall_mem_cons]
    exact ⟨fun _ => ⟨CalendarDate.clamped 24288 31, by decide, rfl⟩, fun _ => ⟨CalendarDate.clamped 24289 28, by decide, rfl⟩,
      fun _ => ⟨CalendarDate.clamped 24289 29, by decide, rfl⟩, fun hcounts => absurd hcounts (by decide),
      fun t ht => absurd ht List.not_mem_nil⟩

/-- The first window leaves 7000 over, and the second is overspent by 1500. -/
theorem rollover_conserves_shop : carriedInto ascii foodBudget (2 : ℕ) shops none = .ok 5500 ∧
    (2 : ℕ) * foodBudget.amount -
      (shops.map (spentBy ascii foodBudget.toBudget (spanBefore .monthly (CalendarDate.clamped 24288 31) (2 : ℕ)) none)).sum =
        5500 := by
  have hcarried := (rollover_conserves (T := ascii) recorded_shops rfl).1 2 (by decide)
  have hfigure : (2 : ℕ) * foodBudget.amount -
      (shops.map (spentBy ascii foodBudget.toBudget (spanBefore .monthly (CalendarDate.clamped 24288 31) (2 : ℕ)) none)).sum =
        5500 := by
    decide +kernel
  exact ⟨hcarried.trans (congrArg Except.ok hfigure), hfigure⟩

/-! ### Ledgers that pass the check all the same -/

/-- A monthly budget from the first of January on. -/
def monthBudget : RollingBudget := { foodBudget with startDate := (CalendarDate.clamped 24288 1).text }

/-- A purchase on the 35th of January. -/
def strayShop : Transaction := { weekShop with date := js "2024-01-35" }

/-- A purchase abroad at a rate of zero. -/
def freeShop : Transaction := { weekShop with currency := js "USD", rate := some 0 }

theorem stray_outside {j : ℕ} (hj : (startOf .monthly (CalendarDate.clamped 24288 1) j).month < 120000) :
    within strayShop.date (windowRange .monthly (CalendarDate.clamped 24288 1) j) = false := by
  rcases Nat.lt_or_ge j 1 with hfirst | hlater
  · obtain rfl : j = 0 := by omega
    decide +kernel
  · have hge : 1200 ≤ (CalendarDate.clamped 24288 1).month := by decide
    have hone : startOf .monthly (CalendarDate.clamped 24288 1) (1 : ℕ) ≤ startOf .monthly (CalendarDate.clamped 24288 1) j :=
      startOf_mono hge hlater
    have hbefore : strayShop.date < (startOf .monthly (CalendarDate.clamped 24288 1) (1 : ℕ)).text := by decide +kernel
    have hafter : strayShop.date < (startOf .monthly (CalendarDate.clamped 24288 1) j).text :=
      hbefore.trans_le ((CalendarDate.text_le_iff (by decide) hj).mpr hone)
    unfold within
    exact Bool.and_eq_false_imp.mpr (fun hle => absurd (of_decide_eq_true hle) (not_le.mpr hafter))

/-- Money is lost at a date that is none, which counts in a span but in no window; and nothing can be told at a rate that is
none. -/
theorem exists_not_conserved :
    (assertValid strayShop = .ok () ∧ countsTowards monthBudget.toBudget strayShop none = true ∧
      within strayShop.date (spanBefore .monthly (CalendarDate.clamped 24288 1) (2 : ℕ)) = true ∧
      (∀ j : ℕ, (startOf .monthly (CalendarDate.clamped 24288 1) j).month < 120000 →
        within strayShop.date (windowRange .monthly (CalendarDate.clamped 24288 1) j) = false) ∧
      carriedInto ascii monthBudget (2 : ℕ) [strayShop] none = .ok 20000 ∧
      (2 : ℕ) * monthBudget.amount - ([strayShop].map (spentBy ascii monthBudget.toBudget
        (spanBefore .monthly (CalendarDate.clamped 24288 1) (2 : ℕ)) none)).sum = 18800 ∧
      ∃ p, progressFor ascii 2 monthBudget [strayShop] (js "2024-02-10") none = .ok (some p) ∧ p.window.index = 1 ∧
        p.remaining = 20000 ∧ (1 + 1) * monthBudget.amount - ([strayShop].map (spentBy ascii monthBudget.toBudget
          ⟨monthBudget.startDate, p.window.last⟩ none)).sum = 18800) ∧
    assertValid freeShop = .ok () ∧ carriedInto ascii monthBudget (2 : ℕ) [freeShop] none = .error (.rate ⟨0⟩) := by
  refine ⟨⟨by decide +kernel, by decide, by decide +kernel, fun j hj => stray_outside hj, ?_, by decide +kernel, ?_⟩,
    by decide +kernel, ?_⟩
  · rfl
  · exact ⟨_, rfl, rfl, by decide +kernel, by decide +kernel⟩
  · rfl

end Books

end EasyDocket
