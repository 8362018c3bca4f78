import EasyDocket.Books.Calendar
import Mathlib.Order.Bounds.Basic

/-!
# Statement and due dates

When a card's statement closes and when its bill falls due.  A day of the month is clamped to the month, here and in the
step to the month before or after.
-/

namespace EasyDocket

namespace Cards

open Books

/-- `dayOfMonth`: a day of the month, clamped to a month that may be shorter than it. -/
def dayOfMonth (year month day : ℕ) : JsString := format year month (min (max day 1) (daysInMonth year month))

/-- `statementClose`: the statement closing in the month containing `date`. -/
def statementClose (statementDay : ℕ) (date : JsString) : Except DateError JsString := do
  let p ← parts date
  pure (dayOfMonth p.year p.month statementDay)

/-- `lastStatementDate`: the most recent statement to have closed on or before `asOf`. -/
def lastStatementDate (statementDay : ℕ) (asOf : JsString) : Except DateError JsString := do
  let p ← parts asOf
  let thisMonth := dayOfMonth p.year p.month statementDay
  if thisMonth ≤ asOf then pure thisMonth
  else do
    let before ← addMonths thisMonth (-1)
    statementClose statementDay before

/-- `dueDateFor`: when a statement that closed on a date must be paid. -/
def dueDateFor (dueDay : ℕ) (statementDate : JsString) : Except DateError JsString := do
  let p ← parts statementDate
  let sameMonth := dayOfMonth p.year p.month dueDay
  if statementDate < sameMonth then pure sameMonth
  else do
    let next ← addMonths statementDate 1
    let p ← parts next
    pure (dayOfMonth p.year p.month dueDay)

/-! ## In the calendar -/

open CalendarDate

variable {D E : ℕ} {c q q' : CalendarDate}

/-- The last closing date up to a day. -/
def closeOf (D : ℕ) (q : CalendarDate) : CalendarDate :=
  if clamped q.month D ≤ q then clamped q.month D else clamped (q.month - 1) D

/-- The first due date after a day. -/
def dueOf (E : ℕ) (c : CalendarDate) : CalendarDate :=
  if c < clamped c.month E then clamped c.month E else clamped (c.month + 1) E

theorem isGreatest_closeOf (hq : 1 ≤ q.month) :
    IsGreatest {d : CalendarDate | d ≤ q ∧ d = clamped d.month D} (closeOf D q) := by
  unfold closeOf
  by_cases h : clamped q.month D ≤ q
  · rw [if_pos h]
    refine ⟨⟨h, rfl⟩, fun d ⟨hle, hd⟩ => ?_⟩
    rcases Nat.lt_or_eq_of_le (month_mono hle) with hlt | heq
    · exact le_of_lt (lt_iff_month.mpr (Or.inl hlt))
    · rw [hd, heq]
  · rw [if_neg h]
    refine ⟨⟨le_of_lt (lt_iff_month.mpr (Or.inl ?_)), rfl⟩, fun d ⟨hle, hd⟩ => ?_⟩
    · show q.month - 1 < q.month
      omega
    · have hne : d.month ≠ q.month := fun heq => h (heq ▸ hd ▸ hle)
      have hmonth := month_mono hle
      rcases Nat.lt_or_eq_of_le (show d.month ≤ q.month - 1 by omega) with hlt | heq
      · exact le_of_lt (lt_iff_month.mpr (Or.inl hlt))
      · rw [hd, heq]

theorem isLeast_dueOf : IsLeast {d : CalendarDate | c < d ∧ d = clamped d.month E} (dueOf E c) := by
  unfold dueOf
  by_cases h : c < clamped c.month E
  · rw [if_pos h]
    refine ⟨⟨h, rfl⟩, fun d ⟨hlt, hd⟩ => ?_⟩
    rcases Nat.lt_or_eq_of_le (month_mono (le_of_lt hlt)) with hlt | heq
    · exact le_of_lt (lt_iff_month.mpr (Or.inl hlt))
    · rw [hd, heq]
  · rw [if_neg h]
    refine ⟨⟨lt_iff_month.mpr (Or.inl (Nat.lt_succ_self _)), rfl⟩, fun d ⟨hlt, hd⟩ => ?_⟩
    have hne : c.month ≠ d.month := by
      intro heq
      rw [hd, ← heq] at hlt
      exact h hlt
    have hmonth := month_mono (le_of_lt hlt)
    rcases Nat.lt_or_eq_of_le (show c.month + 1 ≤ d.month by omega) with hlt | heq
    · exact le_of_lt (lt_iff_month.mpr (Or.inl hlt))
    · rw [hd, heq]

theorem dueOf_month (E : ℕ) (c : CalendarDate) : (dueOf E c).month ≤ c.month + 1 := by
  unfold dueOf
  split_ifs
  · exact Nat.le_succ _
  · exact Nat.le_refl _

/-- The last close moves on with the day. -/
theorem closeOf_mono (hq : 1 ≤ q.month) (h : q ≤ q') : closeOf D q ≤ closeOf D q' := by
  have hlast := isGreatest_closeOf (D := D) hq
  have hlast' := isGreatest_closeOf (D := D) (hq.trans (month_mono h))
  exact hlast'.2 ⟨hlast.1.1.trans h, hlast.1.2⟩

/-- The first due date moves on with the close. -/
theorem dueOf_mono (h : q ≤ q') : dueOf E q ≤ dueOf E q' := by
  have hnext := isLeast_dueOf (E := E) (c := q)
  have hnext' := isLeast_dueOf (E := E) (c := q')
  exact hnext.2 ⟨lt_of_le_of_lt h hnext'.1.1, hnext'.1.2⟩

theorem closeOf_month (D : ℕ) (q : CalendarDate) : (closeOf D q).month ≤ q.month ∧ q.month ≤ (closeOf D q).month + 1 := by
  unfold closeOf
  split_ifs
  · exact ⟨Nat.le_refl _, Nat.le_succ _⟩
  · show q.month - 1 ≤ q.month ∧ q.month ≤ q.month - 1 + 1
    omega

/-! ## As strings -/

/-- The day of a month that a day of the month is clamped to. -/
def dayIn (D m : ℕ) : ℕ := min (max D 1) (daysOf m)

theorem dayIn_lt (D m : ℕ) : dayIn D m < 10 ^ 2 := by
  have hdays := (daysInMonth_le (m / 12) (m % 12 + 1)).2
  unfold dayIn daysOf
  omega

theorem dayOfMonth_eq {m : ℕ} (hm : m < 120000) (D : ℕ) : dayOfMonth (m / 12) (m % 12 + 1) D = iso m (dayIn D m) :=
  format_eq hm (dayIn_lt D m)

/-- From the year 100 on, a day of the month is clamped to the calendar. -/
theorem clamped_text_eq {m : ℕ} (hm : 1200 ≤ m) (hm' : m < 120000) (D : ℕ) : (clamped m D).text = iso m (dayIn D m) := by
  rw [text_eq hm']
  unfold dayIn
  rw [daysOf_eq hm]
  rfl

/-- The last closing date is in the month of `asOf` or in the month before it. -/
theorem lastStatementDate_iso {m d : ℕ} (hm : 1 ≤ m) (hm' : m < 120000) (hd : d < 10 ^ 2) :
    lastStatementDate D (iso m d) =
      .ok (if iso m (dayIn D m) ≤ iso m d then iso m (dayIn D m) else iso (m - 1) (dayIn D (m - 1))) := by
  have hback : (m : ℤ) + -1 = (m - 1 : ℕ) := by omega
  have hlt : m - 1 < 120000 := by omega
  have hday : min (dayIn D m) (daysOf (m - 1)) < 10 ^ 2 := lt_of_le_of_lt (min_le_left _ _) (dayIn_lt D m)
  unfold lastStatementDate
  rw [parts_iso hm' hd]
  show (if dayOfMonth (m / 12) (m % 12 + 1) D ≤ iso m d then _ else _) = _
  rw [dayOfMonth_eq hm']
  by_cases h : iso m (dayIn D m) ≤ iso m d
  · rw [if_pos h, if_pos h]
    rfl
  · rw [if_neg h, if_neg h, addMonths_iso hm' (dayIn_lt D m) hback, format_eq hlt hday]
    show statementClose D _ = _
    unfold statementClose
    rw [parts_iso hlt hday]
    exact congrArg Except.ok (dayOfMonth_eq hlt D)

/-- The first due date is in the month of the close or in the month after it. -/
theorem dueDateFor_iso {m d : ℕ} (hm : m + 1 < 120000) (hd : d < 10 ^ 2) :
    dueDateFor E (iso m d) =
      .ok (if iso m d < iso m (dayIn E m) then iso m (dayIn E m) else iso (m + 1) (dayIn E (m + 1))) := by
  have hnext : (m : ℤ) + 1 = (m + 1 : ℕ) := by omega
  have hlt : m < 120000 := Nat.lt_of_succ_lt hm
  have hday : min d (daysOf (m + 1)) < 10 ^ 2 := lt_of_le_of_lt (min_le_left _ _) hd
  unfold dueDateFor
  rw [parts_iso hlt hd]
  show (if iso m d < dayOfMonth (m / 12) (m % 12 + 1) E then _ else _) = _
  rw [dayOfMonth_eq hlt]
  by_cases h : iso m d < iso m (dayIn E m)
  · rw [if_pos h, if_pos h]
    rfl
  · rw [if_neg h, if_neg h, addMonths_iso hlt hd hnext, format_eq hm hday]
    show (do let p ← parts (iso (m + 1) _); _) = _
    rw [parts_iso hm hday]
    exact congrArg Except.ok (dayOfMonth_eq hm E)

/-- The last closing date is found, from February of the year 100 on. -/
theorem lastStatementDate_text (hq : 1201 ≤ q.month) (hq' : q.month < 120000) :
    lastStatementDate D q.text = .ok (closeOf D q).text := by
  have hthis : (clamped q.month D).month < 120000 := hq'
  have hiff := text_le_iff hthis hq'
  rw [clamped_text_eq (by omega) hq', text_eq hq'] at hiff
  rw [text_eq hq', lastStatementDate_iso (by omega) hq' q.day_lt]
  unfold closeOf
  by_cases h : clamped q.month D ≤ q
  · rw [if_pos h, if_pos (hiff.mpr h), clamped_text_eq (by omega) hq']
  · rw [if_neg h, if_neg (mt hiff.mp h), clamped_text_eq (by omega) (by omega)]

/-- The first due date is found. -/
theorem dueDateFor_text (hc : 1200 ≤ c.month) (hc' : c.month + 1 < 120000) :
    dueDateFor E c.text = .ok (dueOf E c).text := by
  have hlt : c.month < 120000 := Nat.lt_of_succ_lt hc'
  have hthis : (clamped c.month E).month < 120000 := hlt
  have hiff := text_lt_iff hlt hthis
  rw [clamped_text_eq hc hlt, text_eq hlt] at hiff
  rw [text_eq hlt, dueDateFor_iso hc' c.day_lt]
  unfold dueOf
  by_cases h : c < clamped c.month E
  · rw [if_pos h, if_pos (hiff.mpr h), clamped_text_eq hc hlt]
  · rw [if_neg h, if_neg (mt hiff.mp h), clamped_text_eq (by omega) hc']

/-- The last statement closed on the latest date up to `asOf` that is the statement day clamped to its month, it is due on
the earliest date after that which is the due day clamped to its month, and both move on with `asOf`. -/
theorem statement_dates (D E : ℕ) {q : CalendarDate} (hq : 1212 ≤ q.month) (hq' : q.month < 119988) :
    ∃ close due : CalendarDate, lastStatementDate D q.text = .ok close.text ∧
      IsGreatest {d : CalendarDate | d ≤ q ∧ d = clamped d.month D} close ∧
      dueDateFor E close.text = .ok due.text ∧ IsLeast {d : CalendarDate | close < d ∧ d = clamped d.month E} due ∧
      ∀ later : CalendarDate, q ≤ later → later.month < 119988 → ∃ close' due' : CalendarDate,
        lastStatementDate D later.text = .ok close'.text ∧ dueDateFor E close'.text = .ok due'.text ∧
          close ≤ close' ∧ due ≤ due' ∧ close.text ≤ close'.text ∧ due.text ≤ due'.text := by
  have hdates : ∀ r : CalendarDate, 1212 ≤ r.month → r.month < 119988 →
      lastStatementDate D r.text = .ok (closeOf D r).text ∧ dueDateFor E (closeOf D r).text = .ok (dueOf E (closeOf D r)).text := by
    intro r hr hr'
    have hmonth := closeOf_month D r
    exact ⟨lastStatementDate_text (by omega) (by omega), dueDateFor_text (by omega) (by omega)⟩
  obtain ⟨hclose, hdue⟩ := hdates q hq hq'
  refine ⟨closeOf D q, dueOf E (closeOf D q), hclose, isGreatest_closeOf (by omega), hdue, isLeast_dueOf,
    fun later hle hlater => ?_⟩
  obtain ⟨hclose', hdue'⟩ := hdates later (hq.trans (month_mono hle)) hlater
  have hmono := closeOf_mono (D := D) (show 1 ≤ q.month by omega) hle
  have hmono' := dueOf_mono (E := E) hmono
  have hmonth := closeOf_month D q
  have hmonth' := closeOf_month D later
  have hnext := dueOf_month E (closeOf D q)
  have hnext' := dueOf_month E (closeOf D later)
  exact ⟨closeOf D later, dueOf E (closeOf D later), hclose', hdue', hmono, hmono',
    (text_le_iff (by omega) (by omega)).mpr hmono, (text_le_iff (by omega) (by omega)).mpr hmono'⟩

theorem statement_dates_february :
    ∃ close due : CalendarDate, lastStatementDate 31 (clamped 24290 15).text = .ok close.text ∧
      IsGreatest {d : CalendarDate | d ≤ clamped 24290 15 ∧ d = clamped d.month 31} close ∧
      dueDateFor 29 close.text = .ok due.text ∧ IsLeast {d : CalendarDate | close < d ∧ d = clamped d.month 29} due ∧
      ∀ later : CalendarDate, clamped 24290 15 ≤ later → later.month < 119988 → ∃ close' due' : CalendarDate,
        lastStatementDate 31 later.text = .ok close'.text ∧ dueDateFor 29 close'.text = .ok due'.text ∧
          close ≤ close' ∧ due ≤ due' ∧ close.text ≤ close'.text ∧ due.text ≤ due'.text :=
  statement_dates 31 29 (by decide) (by decide)

end Cards

end EasyDocket
