import EasyDocket.Books.Dates
import EasyDocket.Lib.Tiling

/-!
# The calendar

`addDays` and `addMonths` on dates as strings.  A date of the Gregorian calendar is a day of a month, and has an ordinal,
the days since the first of January of the year 0; from the year 100 on, where the language reads years as they are
written, the functions are those of the calendar.
-/

namespace EasyDocket

namespace Books

open Tiling

/-! ## Days of the Gregorian calendar -/

/-- The days of a month, by its number from the year 0 on. -/
def monthDays (m : ℕ) : ℕ := monthLength (m / 12) (m % 12 + 1)

/-- The days before a year. -/
def daysBeforeYear (y : ℕ) : ℕ := 365 * y + (y + 3) / 4 + (y + 399) / 400 - (y + 99) / 100

/-- The days of a year before its month `k`, from 0 on. -/
def daysWithin (y k : ℕ) : ℕ :=
  [0, 31, 59, 90, 120, 151, 181, 212, 243, 273, 304, 334].getD k 0 + if 2 ≤ k ∧ isLeap y = true then 1 else 0

/-- The days before a month. -/
def daysBefore (m : ℕ) : ℕ := daysBeforeYear (m / 12) + daysWithin (m / 12) (m % 12)

theorem isLeap_iff {y : ℕ} : isLeap y = true ↔ y % 4 = 0 ∧ (y % 100 ≠ 0 ∨ y % 400 = 0) := by
  simp [isLeap]

/-- The multiples of a number before `y + 1`. -/
theorem ceil_succ (n y : ℕ) : (y + 1 + n) / (n + 1) = (y + n) / (n + 1) + if y % (n + 1) = 0 then 1 else 0 := by
  have hsucc : (y + n + 1) / (n + 1) = _ := Nat.succ_div
  have hdvd : n + 1 ∣ y + n + 1 ↔ y % (n + 1) = 0 := by
    rw [Nat.add_assoc, Nat.dvd_add_self_right, Nat.dvd_iff_mod_eq_zero]
  rw [Nat.add_right_comm, hsucc]
  exact congrArg _ (if_congr hdvd rfl rfl)

theorem daysBeforeYear_succ (y : ℕ) :
    daysBeforeYear (y + 1) = daysBeforeYear y + if isLeap y = true then 366 else 365 := by
  have h4 := ceil_succ 3 y
  have h100 := ceil_succ 99 y
  have h400 := ceil_succ 399 y
  have hle : (y + 99) / 100 ≤ 365 * y + (y + 3) / 4 := by omega
  have hleap : isLeap y = true ↔ _ := isLeap_iff
  unfold daysBeforeYear
  rw [h4, h100, h400]
  by_cases hy4 : y % 4 = 0
  · by_cases hy100 : y % 100 = 0
    · by_cases hy400 : y % 400 = 0
      · rw [if_pos hy4, if_pos hy100, if_pos hy400, if_pos (hleap.mpr ⟨hy4, Or.inr hy400⟩)]
        omega
      · rw [if_pos hy4, if_pos hy100, if_neg hy400, if_neg (fun h => (hleap.mp h).2.elim (· hy100) hy400)]
        omega
    · have hy400 : ¬ y % 400 = 0 := by omega
      rw [if_pos hy4, if_neg hy100, if_neg hy400, if_pos (hleap.mpr ⟨hy4, Or.inl hy100⟩)]
      omega
  · have hy100 : ¬ y % 100 = 0 := by omega
    have hy400 : ¬ y % 400 = 0 := by omega
    rw [if_neg hy4, if_neg hy100, if_neg hy400, if_neg (fun h => hy4 (hleap.mp h).1)]
    omega

theorem daysWithin_succ (y : ℕ) : ∀ k < 11, daysWithin y (k + 1) = daysWithin y k + monthLength y (k + 1) := by
  unfold daysWithin monthLength
  rcases Bool.eq_false_or_eq_true (isLeap y) with h | h
  · simp only [h]
    decide
  · simp only [h]
    decide

theorem daysWithin_last (y : ℕ) :
    daysWithin y 11 + monthLength y (11 + 1) = (if isLeap y = true then 366 else 365) + daysWithin (y + 1) 0 := by
  unfold daysWithin monthLength
  by_cases h : isLeap y = true <;> simp [h]

/-- A month begins when the one before it has ended. -/
theorem daysBefore_succ (m : ℕ) : daysBefore (m + 1) = daysBefore m + monthDays m := by
  unfold daysBefore monthDays
  by_cases hlast : m % 12 = 11
  · have hyear : (m + 1) / 12 = m / 12 + 1 := by omega
    have hmonth : (m + 1) % 12 = 0 := by omega
    have hwithin := daysWithin_last (m / 12)
    rw [hyear, hmonth, hlast, daysBeforeYear_succ]
    omega
  · have hyear : (m + 1) / 12 = m / 12 := by omega
    have hmonth : (m + 1) % 12 = m % 12 + 1 := by omega
    rw [hyear, hmonth, daysWithin_succ _ _ (by omega), Nat.add_assoc]

theorem monthDays_le (m : ℕ) : 28 ≤ monthDays m ∧ monthDays m ≤ 31 := by
  unfold monthDays monthLength
  split_ifs <;> omega

theorem daysBefore_strictMono : StrictMono daysBefore :=
  strictMono_nat_of_lt_succ (fun m => by
    have h := monthDays_le m
    rw [daysBefore_succ]
    omega)

theorem daysBefore_zero : daysBefore 0 = 0 := by decide

/-! ## Dates of the calendar -/

/-- A day of a month. -/
@[ext] structure CalendarDate where
  month : ℕ
  day : ℕ
  pos : 1 ≤ day
  le : day ≤ monthDays month

namespace CalendarDate

/-- The days since the first of January of the year 0. -/
def ordinal (c : CalendarDate) : ℕ := daysBefore c.month + (c.day - 1)

theorem inBlock (c : CalendarDate) : InBlock daysBefore c.month c.ordinal := by
  have hpos := c.pos
  have hle := c.le
  refine ⟨Nat.le_add_right _ _, ?_⟩
  rw [daysBefore_succ, ordinal]
  omega

theorem ordinal_injective : Function.Injective ordinal := by
  intro c c' h
  have hmonth : c.month = c'.month := c.inBlock.unique daysBefore_strictMono (h ▸ c'.inBlock)
  have hc := c.pos
  have hc' := c'.pos
  unfold ordinal at h
  rw [hmonth] at h
  exact CalendarDate.ext hmonth (by omega)

/-- Dates in the order of the days. -/
instance : LinearOrder CalendarDate := LinearOrder.lift' ordinal ordinal_injective

variable {c c' : CalendarDate}

theorem le_iff : c ≤ c' ↔ c.ordinal ≤ c'.ordinal := Iff.rfl

theorem lt_iff : c < c' ↔ c.ordinal < c'.ordinal := Iff.rfl

/-- Dates compare by their months, and then by their days. -/
theorem lt_iff_month : c < c' ↔ c.month < c'.month ∨ c.month = c'.month ∧ c.day < c'.day := by
  have hc := c.pos
  have hc' := c'.pos
  rcases lt_trichotomy c.month c'.month with h | h | h
  · refine iff_of_true ?_ (Or.inl h)
    exact lt_iff.mpr (lt_of_lt_of_le c.inBlock.stop ((daysBefore_strictMono.monotone h).trans c'.inBlock.start))
  · rw [lt_iff, ordinal, ordinal, h]
    omega
  · refine iff_of_false (not_lt.mpr (le_of_lt (lt_iff.mpr ?_))) (by omega)
    exact lt_of_lt_of_le c'.inBlock.stop ((daysBefore_strictMono.monotone h).trans c.inBlock.start)

/-- The date of an ordinal; the search for its month starts in a year that is not after it. -/
def monthOf (p : ℕ) : ℕ := seek daysBefore p (p + 1) (12 * (p / 366))

theorem daysBeforeYear_le (y : ℕ) : daysBeforeYear y ≤ 366 * y := by
  induction y with
  | zero => decide
  | succ y ih =>
    rw [daysBeforeYear_succ]
    split_ifs <;> omega

theorem monthOf_inBlock (p : ℕ) : InBlock daysBefore (monthOf p) p := by
  obtain ⟨m, hm⟩ := exists_inBlock_nat (p := p) daysBefore_strictMono (daysBefore_zero ▸ Nat.zero_le p)
  have hstart : daysBefore (12 * (p / 366)) ≤ p := by
    have hyear := daysBeforeYear_le (p / 366)
    have hdiv : 12 * (p / 366) / 12 = p / 366 := by omega
    have hmod : 12 * (p / 366) % 12 = 0 := by omega
    unfold daysBefore
    rw [hdiv, hmod]
    have hwithin : daysWithin (p / 366) 0 = 0 := by simp [daysWithin]
    omega
  have hlow : 12 * (p / 366) ≤ m := (hm.start_le_iff daysBefore_strictMono).mp hstart
  have hhigh : m ≤ p := (daysBefore_strictMono.le_apply).trans hm.start
  have hseek : monthOf p = m := seek_eq daysBefore_strictMono hm hlow (by omega)
  exact hseek ▸ hm

def ofOrdinal (p : ℕ) : CalendarDate where
  month := monthOf p
  day := p - daysBefore (monthOf p) + 1
  pos := Nat.succ_le_succ (Nat.zero_le _)
  le := by
    have h := monthOf_inBlock p
    have hstart := h.start
    have hstop := h.stop
    rw [daysBefore_succ] at hstop
    omega

@[simp] theorem ordinal_ofOrdinal (p : ℕ) : (ofOrdinal p).ordinal = p := by
  have hstart := (monthOf_inBlock p).start
  show daysBefore (monthOf p) + (p - daysBefore (monthOf p) + 1 - 1) = p
  omega

@[simp] theorem ofOrdinal_ordinal (c : CalendarDate) : ofOrdinal c.ordinal = c :=
  ordinal_injective (ordinal_ofOrdinal c.ordinal)

/-- The date a number of days later, from the year 0 on. -/
def addDays (c : CalendarDate) (n : ℤ) : CalendarDate := ofOrdinal (c.ordinal + n).toNat

@[simp] theorem ordinal_addDays (c : CalendarDate) (n : ℤ) : (c.addDays n).ordinal = (c.ordinal + n).toNat :=
  ordinal_ofOrdinal _

/-- A day of a month, or the last one the month has. -/
def clamped (m d : ℕ) : CalendarDate where
  month := m
  day := min (max d 1) (monthDays m)
  pos := le_min (le_max_right _ _) (Nat.le_trans (by decide) (monthDays_le _).1)
  le := min_le_right _ _

/-- The date a number of months later, on the last day of the month where it has no such day. -/
def addMonths (c : CalendarDate) (n : ℤ) : CalendarDate := clamped (c.month + n).toNat c.day

/-- A day that the month has is not moved. -/
theorem day_clamped {m d : ℕ} (h : 1 ≤ d) (h' : d ≤ monthDays m) : (clamped m d).day = d := by
  show min (max d 1) (monthDays m) = d
  rw [max_eq_left h, min_eq_left h']

theorem clamped_self (c : CalendarDate) : clamped c.month c.day = c :=
  CalendarDate.ext rfl (day_clamped c.pos c.le)

theorem month_mono (h : c ≤ c') : c.month ≤ c'.month := by
  rcases lt_or_eq_of_le h with h | h
  · rcases lt_iff_month.mp h with h | h <;> omega
  · rw [h]

/-- Four weeks reach into the next month at most. -/
theorem month_le_succ (h : c'.ordinal ≤ c.ordinal + 28) : c'.month ≤ c.month + 1 := by
  have hnext : daysBefore (c.month + 2) = daysBefore (c.month + 1) + monthDays (c.month + 1) := daysBefore_succ _
  have h28 := (monthDays_le (c.month + 1)).1
  have hstart := c'.inBlock.start
  have hstop := c.inBlock.stop
  have hlt : daysBefore c'.month < daysBefore (c.month + 2) := by omega
  exact Nat.le_of_lt_succ (daysBefore_strictMono.lt_iff_lt.mp hlt)

/-- A date of the years 0100 to 9999. -/
structure Plain (c : CalendarDate) : Prop where
  ge : 1200 ≤ c.month
  lt : c.month < 120000

/-! ### Paces -/

end CalendarDate

/-- A number of days or of months at a time. -/
inductive Pace
  | days (n : ℕ)
  | months (n : ℕ)

def Pace.size : Pace → ℕ
  | .days n => n
  | .months n => n

namespace CalendarDate

/-- The date after `i` steps, each measured from the first one. -/
def after (c : CalendarDate) : Pace → ℤ → CalendarDate
  | .days n, i => c.addDays (n * i)
  | .months n, i => c.addMonths (n * i)

variable {c c' : CalendarDate}

theorem ordinal_after_days {n i : ℕ} : (c.after (.days n) i).ordinal = c.ordinal + n * i := by
  show (c.addDays ((n : ℤ) * i)).ordinal = _
  rw [ordinal_addDays]
  omega

theorem month_after_months {n i : ℕ} : (c.after (.months n) i).month = c.month + n * i := by
  show ((c.month : ℤ) + (n : ℤ) * i).toNat = _
  omega

@[simp] theorem after_zero (c : CalendarDate) : ∀ pace : Pace, c.after pace 0 = c
  | .days n => by
    show ofOrdinal (c.ordinal + (n : ℤ) * 0).toNat = c
    rw [Int.mul_zero, Int.add_zero, Int.toNat_natCast, ofOrdinal_ordinal]
  | .months n => by
    show clamped (c.month + (n : ℤ) * 0).toNat c.day = c
    rw [Int.mul_zero, Int.add_zero, Int.toNat_natCast, clamped_self]

/-- The first of January of a year after the year 0. -/
theorem daysBefore_pos {m : ℕ} (h : 1200 ≤ m) : 0 < daysBefore m :=
  lt_of_le_of_lt (Nat.zero_le _) (daysBefore_strictMono (Nat.lt_of_lt_of_le (by decide) h : 0 < m))

/-- Steps lead on, however short the months are. -/
theorem after_lt_after {pace : Pace} (hpace : 1 ≤ pace.size) {i j : ℤ} (hij : i < j) (h : 1200 ≤ (c.after pace i).month) :
    c.after pace i < c.after pace j := by
  cases pace with
  | days n =>
    have hstep : (n : ℤ) * i < n * j := Int.mul_lt_mul_of_pos_left hij (by exact_mod_cast hpace)
    have hpos : 0 < (c.addDays (n * i)).ordinal := lt_of_lt_of_le (daysBefore_pos h) (Nat.le_add_right _ _)
    rw [ordinal_addDays] at hpos
    refine lt_iff.mpr ?_
    show (c.addDays (n * i)).ordinal < (c.addDays (n * j)).ordinal
    rw [ordinal_addDays, ordinal_addDays]
    omega
  | months n =>
    have hstep : (n : ℤ) * i < n * j := Int.mul_lt_mul_of_pos_left hij (by exact_mod_cast hpace)
    have hpos : 1200 ≤ (c.month + n * i).toNat := h
    refine lt_iff_month.mpr (Or.inl ?_)
    show (c.month + n * i).toNat < (c.month + n * j).toNat
    omega

/-- From a date of the calendar on, steps are strictly increasing. -/
theorem after_strictMono {pace : Pace} (hpace : 1 ≤ pace.size) (h : 1200 ≤ c.month) :
    StrictMono (fun i : ℕ => c.after pace i) := by
  refine strictMono_nat_of_lt_succ (fun i => ?_)
  have hfrom : ∀ i : ℕ, 1200 ≤ (c.after pace i).month := by
    intro i
    induction i with
    | zero => rwa [Int.ofNat_zero, after_zero]
    | succ i ih => exact ih.trans (month_mono (le_of_lt (after_lt_after hpace (by omega) ih)))
  exact after_lt_after hpace (by omega) (hfrom i)

/-- Every date from the first one on is between two steps. -/
theorem exists_after {pace : Pace} (hpace : 1 ≤ pace.size) (h : 1200 ≤ c.month) {q : CalendarDate} (hq : c ≤ q) :
    ∃ i, InBlock (fun i : ℕ => c.after pace i) i q := by
  have hmono : StrictMono (fun i : ℕ => (c.after pace i).ordinal) := fun i j hij => lt_iff.mp (after_strictMono hpace h hij)
  have hzero : (c.after pace (0 : ℕ)).ordinal ≤ q.ordinal := by
    rw [Int.ofNat_zero, after_zero]
    exact hq
  obtain ⟨i, hi⟩ := exists_inBlock_nat hmono hzero
  exact ⟨i, hi.start, hi.stop⟩

end CalendarDate

/-! ## Dates as strings -/

/-- The error that is thrown for a text that is not a date. -/
structure DateError where
  date : JsString
  deriving DecidableEq

structure Ymd where
  year : ℕ
  month : ℕ
  day : ℕ

/-- `parts`. -/
def parts (date : JsString) : Except DateError Ymd :=
  if datePattern.isMatch date then
    .ok ⟨numberOf (date.take 4), numberOf ((date.drop 5).take 2), numberOf (date.drop 8)⟩
  else .error ⟨date⟩

/-- `format`. -/
def format (year month day : ℕ) : JsString := padded 4 year ++ dash :: (padded 2 month ++ dash :: padded 2 day)

/-- The year that `Date.UTC` takes a number for. -/
def utcYear (year : ℕ) : ℕ := if year ≤ 99 then 1900 + year else year

/-- A date as it is written. -/
def CalendarDate.text (c : CalendarDate) : JsString := format (c.month / 12) (c.month % 12 + 1) c.day

/-- `addDays`: shift a date by whole days; days before the year 0 do not occur. -/
def addDays (date : JsString) (days : ℤ) : Except DateError JsString := do
  let p ← parts date
  let first := daysBefore ((utcYear p.year * 12 + p.month : ℤ) - 1).toNat
  pure (CalendarDate.ofOrdinal (first + (p.day + days) - 1).toNat).text

/-- `addMonths`: shift a date by whole months, clamping to the length of the target month; months before the year 0 do
not occur. -/
def addMonths (date : JsString) (months : ℤ) : Except DateError JsString := do
  let p ← parts date
  let absolute := ((p.year * 12 + (p.month - 1 : ℤ)) + months).toNat
  pure (format (absolute / 12) (absolute % 12 + 1) (min p.day (daysInMonth (absolute / 12) (absolute % 12 + 1))))

example : addMonths (js "2024-01-31") 1 = .ok (js "2024-02-29") ∧ addDays (js "2024-12-31") 1 = .ok (js "2025-01-01") ∧
    addDays (js "1900-03-01") (-1) = .ok (js "1900-02-28") := by
  decide +kernel

/-- A year of four digits, a month and a day are written as they are read. -/
theorem format_eq {m d : ℕ} (hm : m < 120000) (hd : d < 10 ^ 2) : format (m / 12) (m % 12 + 1) d = iso m d := by
  unfold format iso monthText
  rw [padded_eq (year_lt hm) (by decide), padded_eq (month_lt m) (by decide), padded_eq hd (by decide)]
  simp only [List.append_assoc, List.cons_append]

namespace CalendarDate

variable {c c' : CalendarDate}

theorem day_lt (c : CalendarDate) : c.day < 10 ^ 2 := by
  have hle := c.le
  have h31 := (monthDays_le c.month).2
  omega

theorem clamped_text {m d : ℕ} (h : 1 ≤ d) : (clamped m d).text = format (m / 12) (m % 12 + 1) (min d (monthDays m)) := by
  unfold text
  show format _ _ (min (max d 1) _) = _
  rw [max_eq_left h]
  rfl

/-- A date with a year of four digits. -/
theorem text_eq (h : c.month < 120000) : c.text = iso c.month c.day := format_eq h c.day_lt

/-- Dates are written in their order. -/
theorem text_lt_iff (h : c.month < 120000) (h' : c'.month < 120000) : c.text < c'.text ↔ c < c' := by
  rw [text_eq h, text_eq h', iso_lt_iff h h' c.day_lt c'.day_lt, lt_iff_month]

theorem text_le_iff (h : c.month < 120000) (h' : c'.month < 120000) : c.text ≤ c'.text ↔ c ≤ c' := by
  rw [← not_lt, text_lt_iff h' h, not_lt]

theorem text_injective (h : c.month < 120000) (h' : c'.month < 120000) (heq : c.text = c'.text) : c = c' :=
  le_antisymm ((text_le_iff h h').mp (le_of_eq heq)) ((text_le_iff h' h).mp (le_of_eq heq.symm))

end CalendarDate

/-! ## What the functions do on dates -/

theorem isDigit_digitUnit {x : ℕ} (h : x < 10) : isDigit (digitUnit x) = true := by
  have hall : ∀ x < 10, isDigit (digitUnit x) = true := by decide
  exact hall x h

theorem digits_isMatch (w n : ℕ) : Pattern.isMatch [⟨isDigit, w, w⟩] (digits w n) = true := by
  refine Pattern.isMatch_singleton.mpr ⟨(length_digits w n).ge, (length_digits w n).le, fun x hx => ?_⟩
  obtain ⟨d, hd, rfl⟩ := List.mem_map.mp hx
  exact isDigit_digitUnit (Numeral.mem_fixed (by decide) w n d hd)

theorem datePattern_iso (m d : ℕ) : datePattern.isMatch (iso m d) = true := by
  have hdash : Pattern.isMatch [⟨(· = dash), 1, 1⟩] [dash] = true := by decide
  have hiso : iso m d = digits 4 (m / 12) ++ [dash] ++ digits 2 (m % 12 + 1) ++ [dash] ++ digits 2 d := by
    unfold iso monthText
    simp only [List.append_assoc, List.cons_append, List.nil_append]
  have hpattern : datePattern = [⟨isDigit, 4, 4⟩] ++ [⟨(· = dash), 1, 1⟩] ++ [⟨isDigit, 2, 2⟩] ++ [⟨(· = dash), 1, 1⟩] ++
    [⟨isDigit, 2, 2⟩] := rfl
  rw [hiso, hpattern]
  refine Pattern.isMatch_append.mpr ⟨_, _, rfl, ?_, digits_isMatch 2 d⟩
  refine Pattern.isMatch_append.mpr ⟨_, _, rfl, ?_, hdash⟩
  refine Pattern.isMatch_append.mpr ⟨_, _, rfl, ?_, digits_isMatch 2 _⟩
  exact Pattern.isMatch_append.mpr ⟨_, _, rfl, digits_isMatch 4 _, hdash⟩

/-- A month and a day are read as they were written. -/
theorem parts_iso {m d : ℕ} (hm : m < 120000) (hd : d < 10 ^ 2) : parts (iso m d) = .ok ⟨m / 12, m % 12 + 1, d⟩ := by
  unfold parts
  rw [if_pos (datePattern_iso _ _)]
  have hyear : numberOf ((iso m d).take 4) = m / 12 := numberOf_year hm _
  have hmonth : numberOf (((iso m d).drop 5).take 2) = m % 12 + 1 := numberOf_month _ _
  have hday : (iso m d).drop 8 = digits 2 d := by
    have hsplit : iso m d = (monthText m ++ [dash]) ++ digits 2 d := by
      unfold iso
      simp only [List.append_assoc, List.cons_append, List.nil_append]
    rw [hsplit]
    exact List.drop_left' (by simp)
  rw [hyear, hmonth, hday, numberOf_digits hd]

/-- A date is read as it was written. -/
theorem parts_text {c : CalendarDate} (h : c.month < 120000) :
    parts c.text = .ok ⟨c.month / 12, c.month % 12 + 1, c.day⟩ := by
  rw [CalendarDate.text_eq h]
  exact parts_iso h c.day_lt

/-- From the year 100 on, days are added in the calendar. -/
theorem addDays_text {c : CalendarDate} (h : c.Plain) (days : ℤ) : addDays c.text days = .ok (c.addDays days).text := by
  have hge := h.ge
  have hyear : utcYear (c.month / 12) = c.month / 12 := if_neg (by omega)
  have hmonth : ((c.month / 12 * 12 + (c.month % 12 + 1) : ℤ) - 1).toNat = c.month := by omega
  have hpos := c.pos
  unfold addDays
  rw [parts_text h.lt]
  show Except.ok (CalendarDate.ofOrdinal _).text = _
  simp only [hyear]
  push_cast
  rw [hmonth]
  unfold CalendarDate.addDays CalendarDate.ordinal
  congr 3
  omega

/-- Months are added to the number of the month. -/
theorem addMonths_iso {m d n : ℕ} (hm : m < 120000) (hd : d < 10 ^ 2) {months : ℤ} (h : m + months = n) :
    addMonths (iso m d) months = .ok (format (n / 12) (n % 12 + 1) (min d (daysOf n))) := by
  have hmonth : ((((m / 12 : ℕ) : ℤ) * 12 + (((m % 12 + 1 : ℕ) : ℤ) - 1)) + months).toNat = n := by omega
  unfold addMonths
  rw [parts_iso hm hd]
  show Except.ok (format _ _ _) = _
  rw [hmonth]
  rfl

/-- From the year 100 on, months have the days of the calendar. -/
theorem daysOf_eq {m : ℕ} (h : 1200 ≤ m) : daysOf m = monthDays m := daysInMonth_eq (by omega) (by omega) (by omega)

/-- From the year 100 on, months are added in the calendar. -/
theorem addMonths_text {c : CalendarDate} (h' : c.month < 120000) {months : ℤ} (h : 1200 ≤ (c.addMonths months).month) :
    addMonths c.text months = .ok (c.addMonths months).text := by
  have hge : 1200 ≤ (c.month + months).toNat := h
  have hmonth : (c.month : ℤ) + months = (c.month + months).toNat := by omega
  rw [CalendarDate.text_eq h', addMonths_iso h' c.day_lt hmonth, daysOf_eq hge]
  unfold CalendarDate.addMonths
  rw [CalendarDate.clamped_text c.pos]

/-- A date as a string, a number of steps later. -/
def Pace.move (date : JsString) : Pace → ℤ → Except DateError JsString
  | .days n, i => addDays date (n * i)
  | .months n, i => addMonths date (n * i)

theorem Pace.move_text {c : CalendarDate} (h : c.Plain) {pace : Pace} {i : ℤ} (h' : 1200 ≤ (c.after pace i).month) :
    pace.move c.text i = .ok (c.after pace i).text := by
  cases pace with
  | days n => exact addDays_text h _
  | months n => exact addMonths_text h.lt h'

end Books

end EasyDocket
