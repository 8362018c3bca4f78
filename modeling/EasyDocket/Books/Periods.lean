import EasyDocket.Books.Calendar

/-!
# Budget periods

Every window is anchored to the start of the budget, and ends on the day before the next one begins.  `windowFor` estimates
the window of a date and corrects the estimate in two loops, which are given a bound here.
-/

namespace EasyDocket

namespace Books

open Tiling

inductive BudgetPeriod
  | weekly
  | monthly
  | yearly
  deriving DecidableEq

structure Anchor where
  period : BudgetPeriod
  startDate : JsString

/-- The inclusive days of a window, and 0 for the first period, 1 for the next, and so on. -/
@[ext] structure BudgetWindow extends DateRange where
  index : ℤ

/-- `parseDate`. -/
def parseDate (date : JsString) : Except DateError Ymd := parts date

/-- `windowStart`: the day a period begins. -/
def windowStart (anchor : Anchor) (index : ℤ) : Except DateError JsString :=
  if anchor.period = .weekly then addDays anchor.startDate (index * 7)
  else addMonths anchor.startDate (if anchor.period = .monthly then index else index * 12)

/-- `dayBefore`. -/
def dayBefore (date : JsString) : Except DateError JsString := addDays date (-1)

/-- `windowByIndex`. -/
def windowByIndex (anchor : Anchor) (index : ℤ) : Except DateError BudgetWindow := do
  let first ← windowStart anchor index
  let next ← windowStart anchor (index + 1)
  let last ← dayBefore next
  pure ⟨⟨first, last⟩, index⟩

/-- `utc`: the milliseconds of a date, from 1970 on. -/
def utc (p : Ymd) : ℤ :=
  86400000 * (daysBefore ((utcYear p.year * 12 + p.month : ℤ) - 1).toNat + p.day - 1 - 719528)

/-- `estimateIndex`. -/
def estimateIndex (anchor : Anchor) (date : JsString) : Except DateError ℤ := do
  let start ← parseDate anchor.startDate
  let target ← parseDate date
  if anchor.period = .weekly then
    let days := (utc target - utc start) / 86400000
    pure (days / 7)
  else
    let months : ℤ := (target.year - start.year) * 12 + (target.month - start.month)
    pure (if anchor.period = .monthly then months else months / 12)

inductive WindowError
  | date (e : DateError)
  | outOfFuel

/-- The first loop of `windowFor`. -/
def retreatIndex (anchor : Anchor) (date : JsString) : ℕ → ℤ → Except WindowError ℤ
  | 0, _ => .error .outOfFuel
  | fuel + 1, index =>
    if 0 < index then do
      let start ← (windowStart anchor index).mapError .date
      if date < start then retreatIndex anchor date fuel (index - 1) else pure index
    else pure index

/-- The second loop of `windowFor`. -/
def advanceIndex (anchor : Anchor) (date : JsString) : ℕ → ℤ → Except WindowError ℤ
  | 0, _ => .error .outOfFuel
  | fuel + 1, index => do
    let start ← (windowStart anchor (index + 1)).mapError .date
    if start ≤ date then advanceIndex anchor date fuel (index + 1) else pure index

/-- `windowFor`: the window containing a date, or none when the budget had not started yet. -/
def windowFor (fuel : ℕ) (anchor : Anchor) (date : JsString) : Except WindowError (Option BudgetWindow) :=
  if date < anchor.startDate then pure none
  else do
    let index ← (estimateIndex anchor date).mapError .date
    let index ← retreatIndex anchor date fuel index
    let index ← advanceIndex anchor date fuel index
    let window ← (windowByIndex anchor index).mapError .date
    pure (some window)

/-! ## Windows in the calendar -/

def BudgetPeriod.pace : BudgetPeriod → Pace
  | .weekly => .days 7
  | .monthly => .months 1
  | .yearly => .months 12

variable {period : BudgetPeriod} {c q : CalendarDate} {i j : ℕ}

theorem BudgetPeriod.pace_size (period : BudgetPeriod) : 1 ≤ period.pace.size := by
  cases period <;> decide

/-- The first day of a window. -/
def startOf (period : BudgetPeriod) (c : CalendarDate) (i : ℤ) : CalendarDate := c.after period.pace i

theorem windowStart_eq (period : BudgetPeriod) (date : JsString) (i : ℤ) :
    windowStart ⟨period, date⟩ i = period.pace.move date i := by
  cases period with
  | weekly => exact congrArg (addDays date) (Int.mul_comm i 7)
  | monthly => exact congrArg (addMonths date) (Int.one_mul i).symm
  | yearly => exact congrArg (addMonths date) (Int.mul_comm i 12)

/-- A window begins as many periods after the start as its index says. -/
theorem windowStart_text (hc : c.Plain) {i : ℤ} (h : 1200 ≤ (startOf period c i).month) :
    windowStart ⟨period, c.text⟩ i = .ok (startOf period c i).text := by
  rw [windowStart_eq]
  exact Pace.move_text hc h

theorem startOf_strictMono (hc : 1200 ≤ c.month) : StrictMono (fun i : ℕ => startOf period c i) :=
  CalendarDate.after_strictMono period.pace_size hc

theorem startOf_zero (period : BudgetPeriod) (c : CalendarDate) : startOf period c (0 : ℕ) = c :=
  CalendarDate.after_zero c period.pace

theorem le_startOf (hc : 1200 ≤ c.month) (i : ℕ) : 1200 ≤ (startOf period c i).month := by
  have hle : startOf period c (0 : ℕ) ≤ startOf period c i := (startOf_strictMono hc).monotone (Nat.zero_le i)
  rw [startOf_zero] at hle
  exact hc.trans (CalendarDate.month_mono hle)

theorem utc_text (hc : c.Plain) : utc ⟨c.month / 12, c.month % 12 + 1, c.day⟩ = 86400000 * (c.ordinal - 719528) := by
  have hge := hc.ge
  have hpos := c.pos
  have hyear : utcYear (c.month / 12) = c.month / 12 := if_neg (by omega)
  have hmonth : ((c.month / 12 * 12 + (c.month % 12 + 1) : ℤ) - 1).toNat = c.month := by omega
  unfold utc CalendarDate.ordinal
  dsimp only
  rw [hyear]
  push_cast
  rw [hmonth]
  omega

/-- A period is a year at most. -/
theorem startOf_succ_month (hi : InBlock (fun i : ℕ => startOf period c i) i q) :
    (startOf period c (i + 1 : ℕ)).month ≤ q.month + 12 := by
  have hle : startOf period c i ≤ q := hi.start
  have hmonth := CalendarDate.month_mono hle
  cases period with
  | weekly =>
    have hq : (startOf .weekly c i).ordinal ≤ q.ordinal := CalendarDate.le_iff.mp hle
    have hnext : (startOf .weekly c (i + 1 : ℕ)).ordinal ≤ q.ordinal + 28 := by
      unfold startOf BudgetPeriod.pace at hq ⊢
      rw [CalendarDate.ordinal_after_days] at hq ⊢
      omega
    exact (CalendarDate.month_le_succ hnext).trans (by omega)
  | monthly =>
    unfold startOf BudgetPeriod.pace at hmonth ⊢
    rw [CalendarDate.month_after_months] at hmonth ⊢
    omega
  | yearly =>
    unfold startOf BudgetPeriod.pace at hmonth ⊢
    rw [CalendarDate.month_after_months] at hmonth ⊢
    omega

/-- The estimate is the index of the window, or the one after it. -/
theorem estimateIndex_eq (hc : c.Plain) (hq : q.Plain) (hi : InBlock (fun i : ℕ => startOf period c i) i q) :
    ∃ e : ℕ, estimateIndex ⟨period, c.text⟩ q.text = .ok e ∧ (e = i ∨ e = i + 1) := by
  have hge := hc.ge
  have hgeq := hq.ge
  have hstart : startOf period c i ≤ q := hi.start
  have hstop : q < startOf period c (i + 1 : ℕ) := hi.stop
  unfold estimateIndex parseDate
  rw [parts_text hc.lt, parts_text hq.lt]
  cases period with
  | weekly =>
    have hlow : (startOf .weekly c i).ordinal ≤ q.ordinal := CalendarDate.le_iff.mp hstart
    have hhigh : q.ordinal < (startOf .weekly c (i + 1 : ℕ)).ordinal := CalendarDate.lt_iff.mp hstop
    unfold startOf BudgetPeriod.pace at hlow hhigh
    rw [CalendarDate.ordinal_after_days] at hlow hhigh
    refine ⟨i, ?_, Or.inl rfl⟩
    show Except.ok ((utc _ - utc _) / 86400000 / 7) = _
    rw [utc_text hc, utc_text hq]
    congr 1
    omega
  | monthly =>
    have hlow := CalendarDate.month_mono hstart
    have hhigh := CalendarDate.month_mono (le_of_lt hstop)
    unfold startOf BudgetPeriod.pace at hlow hhigh
    rw [CalendarDate.month_after_months] at hlow hhigh
    refine ⟨q.month - c.month, ?_, by omega⟩
    show Except.ok _ = _
    congr 1
    dsimp only
    rw [if_pos rfl]
    omega
  | yearly =>
    have hlow := CalendarDate.month_mono hstart
    have hhigh := CalendarDate.month_mono (le_of_lt hstop)
    unfold startOf BudgetPeriod.pace at hlow hhigh
    rw [CalendarDate.month_after_months] at hlow hhigh
    refine ⟨(q.month - c.month) / 12, ?_, by omega⟩
    show Except.ok _ = _
    congr 1
    dsimp only
    rw [if_neg (by decide)]
    omega

/-! ## The window of a date -/

/-- The dates that a date has to do with here are written with four digits. -/
theorem startOf_plain (hc : c.Plain) (hq : q.month < 119988) (hi : InBlock (fun i : ℕ => startOf period c i) i q) :
    (startOf period c i).Plain ∧ (startOf period c (i + 1 : ℕ)).Plain := by
  have hmonth := CalendarDate.month_mono (show startOf period c i ≤ q from hi.start)
  have hnext := startOf_succ_month hi
  exact ⟨⟨le_startOf hc.ge i, by omega⟩, ⟨le_startOf hc.ge (i + 1), by omega⟩⟩

theorem retreatIndex_succ (hc : c.Plain) (hq : q.month < 119988) (hi : InBlock (fun i : ℕ => startOf period c i) i q)
    (fuel : ℕ) : retreatIndex ⟨period, c.text⟩ q.text (fuel + 1) i = .ok i := by
  obtain ⟨hplain, -⟩ := startOf_plain hc hq hi
  have hnot : ¬ q.text < (startOf period c i).text := by
    rw [CalendarDate.text_lt_iff (by omega) hplain.lt]
    exact not_lt.mpr hi.start
  unfold retreatIndex
  rw [windowStart_text hc hplain.ge]
  show (if 0 < (i : ℤ) then (if q.text < _ then _ else Except.ok (i : ℤ)) else Except.ok (i : ℤ)) = _
  rw [if_neg hnot, ite_self]

/-- The first loop ends at the window of the date. -/
theorem retreatIndex_eq (hc : c.Plain) (hq : q.month < 119988) (hi : InBlock (fun i : ℕ => startOf period c i) i q) {e : ℕ}
    (he : e = i ∨ e = i + 1) {fuel : ℕ} (hfuel : 2 ≤ fuel) : retreatIndex ⟨period, c.text⟩ q.text fuel e = .ok i := by
  obtain ⟨fuel, rfl⟩ := Nat.exists_eq_add_of_le' hfuel
  rcases he with rfl | rfl
  · exact retreatIndex_succ hc hq hi (fuel + 1)
  · obtain ⟨-, hplain⟩ := startOf_plain hc hq hi
    have hlt : q.text < (startOf period c (i + 1 : ℕ)).text := by
      rw [CalendarDate.text_lt_iff (by omega) hplain.lt]
      exact hi.stop
    have hpos : 0 < ((i + 1 : ℕ) : ℤ) := by omega
    have hback : ((i + 1 : ℕ) : ℤ) - 1 = i := by omega
    rw [← retreatIndex_succ hc hq hi fuel, ← hback]
    conv_lhs => unfold retreatIndex
    rw [if_pos hpos, windowStart_text hc hplain.ge]
    show (if q.text < _ then _ else _) = _
    rw [if_pos hlt]

/-- The second loop stays there. -/
theorem advanceIndex_eq (hc : c.Plain) (hq : q.month < 119988) (hi : InBlock (fun i : ℕ => startOf period c i) i q)
    {fuel : ℕ} (hfuel : 1 ≤ fuel) : advanceIndex ⟨period, c.text⟩ q.text fuel i = .ok i := by
  obtain ⟨fuel, rfl⟩ := Nat.exists_eq_add_of_le' hfuel
  obtain ⟨-, hplain⟩ := startOf_plain hc hq hi
  have hnot : ¬ (startOf period c (i + 1 : ℕ)).text ≤ q.text := by
    rw [CalendarDate.text_le_iff hplain.lt (by omega)]
    exact not_le.mpr hi.stop
  have hcast : (i : ℤ) + 1 = (i + 1 : ℕ) := by omega
  unfold advanceIndex
  rw [hcast, windowStart_text hc hplain.ge]
  show (if _ ≤ q.text then _ else _) = _
  rw [if_neg hnot]
  rfl

/-- The last day of a window. -/
def stopOf (period : BudgetPeriod) (c : CalendarDate) (i : ℤ) : CalendarDate := (startOf period c (i + 1)).addDays (-1)

theorem ordinal_stopOf (i : ℤ) : (stopOf period c i).ordinal = (startOf period c (i + 1)).ordinal - 1 := by
  unfold stopOf
  rw [CalendarDate.ordinal_addDays]
  omega

theorem windowByIndex_text (hc : c.Plain) {i : ℤ} (h : 1200 ≤ (startOf period c i).month)
    (h' : (startOf period c (i + 1)).Plain) :
    windowByIndex ⟨period, c.text⟩ i = .ok ⟨⟨(startOf period c i).text, (stopOf period c i).text⟩, i⟩ := by
  unfold windowByIndex dayBefore
  rw [windowStart_text hc h, windowStart_text hc h'.ge]
  show (do let last ← addDays _ _; pure _) = _
  rw [addDays_text h']
  rfl

theorem startOf_lt_succ {i : ℤ} (h : 1200 ≤ (startOf period c i).month) :
    startOf period c i < startOf period c (i + 1) :=
  CalendarDate.after_lt_after period.pace_size (lt_add_one i) h

/-- A window ends on the day before the next one begins. -/
theorem le_stopOf_iff {i : ℤ} (h : 1200 ≤ (startOf period c i).month) :
    q ≤ stopOf period c i ↔ q < startOf period c (i + 1) := by
  have hpos : (startOf period c i).ordinal < (startOf period c (i + 1)).ordinal := CalendarDate.lt_iff.mp (startOf_lt_succ h)
  rw [CalendarDate.le_iff, CalendarDate.lt_iff, ordinal_stopOf]
  omega

theorem stopOf_succ {i : ℤ} (h : 1200 ≤ (startOf period c i).month) :
    (stopOf period c i).addDays 1 = startOf period c (i + 1) := by
  have hpos : (startOf period c i).ordinal < (startOf period c (i + 1)).ordinal := CalendarDate.lt_iff.mp (startOf_lt_succ h)
  refine CalendarDate.ordinal_injective ?_
  rw [CalendarDate.ordinal_addDays, ordinal_stopOf]
  omega

theorem startOf_le_stopOf {i : ℤ} (h : 1200 ≤ (startOf period c i).month) : startOf period c i ≤ stopOf period c i :=
  (le_stopOf_iff h).mpr (startOf_lt_succ h)

theorem stopOf_plain (hc : c.Plain) (hq : q.month < 119988) (hi : InBlock (fun i : ℕ => startOf period c i) i q) :
    (stopOf period c i).Plain := by
  obtain ⟨hstart, hnext⟩ := startOf_plain hc hq hi
  have hcast : (i : ℤ) + 1 = (i + 1 : ℕ) := by omega
  have hlast : stopOf period c i < startOf period c (i + 1) := (le_stopOf_iff hstart.ge).mp le_rfl
  rw [hcast] at hlast
  exact ⟨hstart.ge.trans (CalendarDate.month_mono (startOf_le_stopOf hstart.ge)),
    lt_of_le_of_lt (CalendarDate.month_mono (le_of_lt hlast)) hnext.lt⟩

/-- The window of a date, if the loops may take two turns. -/
theorem windowFor_eq (hc : c.Plain) (hq : q.month < 119988) (hi : InBlock (fun i : ℕ => startOf period c i) i q)
    {fuel : ℕ} (hfuel : 2 ≤ fuel) : windowFor fuel ⟨period, c.text⟩ q.text =
      .ok (some ⟨⟨(startOf period c i).text, (stopOf period c i).text⟩, i⟩) := by
  obtain ⟨hstart, hnext⟩ := startOf_plain hc hq hi
  have hcq : c ≤ q := by
    have hfirst : startOf period c (0 : ℕ) ≤ startOf period c i := (startOf_strictMono hc.ge).monotone (Nat.zero_le i)
    rw [startOf_zero] at hfirst
    exact hfirst.trans hi.start
  have hplain : q.Plain := ⟨hc.ge.trans (CalendarDate.month_mono hcq), by omega⟩
  have hnot : ¬ q.text < c.text := by
    rw [CalendarDate.text_lt_iff hplain.lt hc.lt]
    exact not_lt.mpr hcq
  have hcast : (i : ℤ) + 1 = (i + 1 : ℕ) := by omega
  obtain ⟨e, hestimate, he⟩ := estimateIndex_eq hc hplain hi
  unfold windowFor
  rw [if_neg hnot, hestimate]
  show (do let index ← retreatIndex _ _ fuel (e : ℤ); _) = _
  rw [retreatIndex_eq hc hq hi he hfuel]
  show (do let index ← advanceIndex _ _ fuel (i : ℤ); _) = _
  rw [advanceIndex_eq hc hq hi (Nat.le_of_succ_le hfuel)]
  show (do let window ← (windowByIndex _ (i : ℤ)).mapError _; _) = _
  rw [windowByIndex_text hc hstart.ge (hcast ▸ hnext)]
  rfl

/-- The day is in a window. -/
def InWindow (period : BudgetPeriod) (c : CalendarDate) (i : ℤ) (q : CalendarDate) : Prop :=
  startOf period c i ≤ q ∧ q ≤ stopOf period c i

/-- Windows of different indices share no day. -/
theorem InWindow.lt_of_lt {q' : CalendarDate} {i j : ℤ} (h : InWindow period c i q) (hi : 1200 ≤ (startOf period c i).month)
    (h' : InWindow period c j q') (hj : i < j) : q < q' := by
  have hnext : q < startOf period c (i + 1) := (le_stopOf_iff hi).mp h.2
  have hge : 1200 ≤ (startOf period c (i + 1)).month := hi.trans (CalendarDate.month_mono (le_of_lt (startOf_lt_succ hi)))
  rcases lt_or_eq_of_le (Int.add_one_le_of_lt hj) with hlt | heq
  · exact lt_of_lt_of_le hnext ((le_of_lt (CalendarDate.after_lt_after period.pace_size hlt hge)).trans h'.1)
  · exact lt_of_lt_of_le hnext (heq ▸ h'.1)

theorem InWindow.unique {i j : ℤ} (h : InWindow period c i q) (hi : 1200 ≤ (startOf period c i).month)
    (h' : InWindow period c j q) (hj : 1200 ≤ (startOf period c j).month) : i = j := by
  rcases lt_trichotomy i j with hlt | heq | hlt
  · exact absurd (h.lt_of_lt hi h' hlt) (lt_irrefl q)
  · exact heq
  · exact absurd (h'.lt_of_lt hj h hlt) (lt_irrefl q)

theorem inWindow_of_inBlock (hc : 1200 ≤ c.month) (h : InBlock (fun i : ℕ => startOf period c i) i q) :
    InWindow period c i q := by
  have hcast : (i : ℤ) + 1 = (i + 1 : ℕ) := by omega
  refine ⟨h.start, (le_stopOf_iff (le_startOf hc i)).mpr ?_⟩
  rw [hcast]
  exact h.stop

/-- A window of months begins on the day of the first one, or on the last day of a month that has no such day. -/
theorem startOf_months (i : ℕ) :
    startOf .monthly c i = CalendarDate.clamped (c.month + i) c.day ∧
      startOf .yearly c i = CalendarDate.clamped (c.month + 12 * i) c.day ∧
      (startOf .weekly c i).ordinal = c.ordinal + 7 * i := by
  have hmonth : ((c.month : ℤ) + (1 : ℕ) * i).toNat = c.month + i := by omega
  have hyear : ((c.month : ℤ) + (12 : ℕ) * i).toNat = c.month + 12 * i := by omega
  refine ⟨?_, ?_, CalendarDate.ordinal_after_days⟩
  · show CalendarDate.clamped _ _ = _
    rw [hmonth]
  · show CalendarDate.clamped _ _ = _
    rw [hyear]

/-- The windows of a budget tile the calendar from its start on.  A window begins at its number of periods after the start,
whatever the months before it were like; the next one begins on the day after its last; and every date up to the year
9998 is in one window, which is the one that is found for it. -/
theorem windowFor_tiles (period : BudgetPeriod) {c : CalendarDate} (hc : c.Plain) :
    (∀ i : ℤ, (startOf period c i).Plain → windowStart ⟨period, c.text⟩ i = .ok (startOf period c i).text) ∧
      (∀ i j : ℤ, i < j → 1200 ≤ (startOf period c i).month → startOf period c i < startOf period c j) ∧
      (∀ i j : ℤ, i < j → (startOf period c i).Plain → (startOf period c j).Plain →
        (startOf period c i).text < (startOf period c j).text) ∧
      (∀ i : ℤ, (startOf period c i).Plain → (startOf period c (i + 1)).Plain →
        windowByIndex ⟨period, c.text⟩ i = .ok ⟨⟨(startOf period c i).text, (stopOf period c i).text⟩, i⟩ ∧
          (stopOf period c i).addDays 1 = startOf period c (i + 1)) ∧
      (∀ i : ℕ, startOf .monthly c i = CalendarDate.clamped (c.month + i) c.day ∧
        startOf .yearly c i = CalendarDate.clamped (c.month + 12 * i) c.day ∧
        (startOf .weekly c i).ordinal = c.ordinal + 7 * i) ∧
      (∀ i : ℕ, period ≠ .weekly → c.day ≤ monthDays (startOf period c i).month → (startOf period c i).day = c.day) ∧
      ∀ q : CalendarDate, c ≤ q → q.month < 119988 → ∃ (i : ℕ) (w : BudgetWindow),
        windowByIndex ⟨period, c.text⟩ i = .ok w ∧
          (∀ fuel, 2 ≤ fuel → windowFor fuel ⟨period, c.text⟩ q.text = .ok (some w)) ∧
          w.first ≤ q.text ∧ q.text ≤ w.last ∧ InWindow period c i q ∧
          ∀ j : ℤ, 1200 ≤ (startOf period c j).month → InWindow period c j q → j = i := by
  refine ⟨fun i hi => windowStart_text hc hi.ge, fun i j hij hi => CalendarDate.after_lt_after period.pace_size hij hi,
    fun i j hij hi hj => ?_, fun i hi hi' => ⟨windowByIndex_text hc hi.ge hi', stopOf_succ hi.ge⟩, startOf_months,
    fun i hweekly hday => ?_, fun q hcq hq => ?_⟩
  · exact (CalendarDate.text_lt_iff hi.lt hj.lt).mpr (CalendarDate.after_lt_after period.pace_size hij hi.ge)
  · obtain ⟨hmonthly, hyearly, -⟩ := startOf_months (c := c) i
    cases period with
    | weekly => exact absurd rfl hweekly
    | monthly =>
      rw [hmonthly] at hday ⊢
      exact CalendarDate.day_clamped c.pos hday
    | yearly =>
      rw [hyearly] at hday ⊢
      exact CalendarDate.day_clamped c.pos hday
  · obtain ⟨i, hi⟩ := CalendarDate.exists_after period.pace_size hc.ge hcq
    have hcast : (i : ℤ) + 1 = (i + 1 : ℕ) := by omega
    have hin := inWindow_of_inBlock hc.ge hi
    obtain ⟨hstart, hnext⟩ := startOf_plain hc hq hi
    have hlast := stopOf_plain hc hq hi
    refine ⟨i, _, windowByIndex_text hc hstart.ge (hcast ▸ hnext), fun fuel hfuel => windowFor_eq hc hq hi hfuel, ?_, ?_,
      hin, fun j hj h => h.unique hj hin hstart.ge⟩
    · exact (CalendarDate.text_le_iff hstart.lt (by omega)).mpr hin.1
    · exact (CalendarDate.text_le_iff (by omega) hlast.lt).mpr hin.2

theorem windowFor_tiles_january :
    ∃ (i : ℕ) (w : BudgetWindow),
      windowByIndex ⟨.monthly, (CalendarDate.clamped 24288 31).text⟩ i = .ok w ∧
        (∀ fuel, 2 ≤ fuel → windowFor fuel ⟨.monthly, (CalendarDate.clamped 24288 31).text⟩
          (CalendarDate.clamped 24289 29).text = .ok (some w)) ∧
        w.first ≤ (CalendarDate.clamped 24289 29).text ∧ (CalendarDate.clamped 24289 29).text ≤ w.last ∧
        InWindow .monthly (CalendarDate.clamped 24288 31) i (CalendarDate.clamped 24289 29) ∧
        ∀ j : ℤ, 1200 ≤ (startOf .monthly (CalendarDate.clamped 24288 31) j).month →
          InWindow .monthly (CalendarDate.clamped 24288 31) j (CalendarDate.clamped 24289 29) → j = i :=
  (windowFor_tiles .monthly (c := CalendarDate.clamped 24288 31) ⟨by decide, by decide⟩).2.2.2.2.2.2
    (CalendarDate.clamped 24289 29) (le_of_lt (CalendarDate.lt_iff_month.mpr (Or.inl (by decide)))) (by decide)

end Books

end EasyDocket
