import EasyDocket.Books.Calendar
import EasyDocket.JsNumber

/-!
# Steps that are not whole

`addDays` and `addMonths` of numbers that need not be whole.  `Date.UTC` drops the fraction of a day; the fraction of a
month is written into the text, which is no date then.
-/

namespace EasyDocket

namespace Recurring

open Books JsNumber Numeral

/-- `format` of a month, counted from the year 0 on, and a day clamped to it; the month need not be whole. -/
def formatMonths (absolute : ℚ) (day : ℕ) : JsString :=
  let targetYear := ⌊absolute / 12⌋.toNat
  let targetMonth := absolute - 12 * ⌊absolute / 12⌋ + 1
  padded 4 targetYear ++ dash :: (padStart 2 (unit '0') (toText 10 (.exact targetMonth)) ++
    dash :: padded 2 (min day (daysInMonth targetYear ⌊targetMonth⌋.toNat)))

/-- `addDays`, by a number that is not negative. -/
def addDaysBy (date : JsString) (days : ℚ) : Except DateError JsString := addDays date ⌊days⌋

/-- `addMonths`, by a number that is not negative. -/
def addMonthsBy (date : JsString) (months : ℚ) : Except DateError JsString := do
  let p ← parts date
  pure (formatMonths (p.year * 12 + (p.month - 1) + months) p.day)

example : addMonthsBy (js "2024-01-15") (3 / 2) = .ok (js "2024-2.5-15") ∧
    addMonthsBy (js "2024-01-31") 1 = .ok (js "2024-02-29") ∧ addDaysBy (js "2024-02-28") (3 / 2) = .ok (js "2024-02-29") := by
  decide +kernel

variable {m : ℚ} {k d : ℕ}

/-! ## Whole months -/

theorem toText_natCast (hk : k < 10 ^ 21) : toText 10 (.exact k) = decimal k := by
  have htext : toText 10 (ofNat k) = _ := toText_ofNat (fun _ => hk)
  refine htext.trans (List.map_congr_left (fun x hx => ?_))
  have hlt := mem_numeral (by decide) x hx
  unfold digitText digitUnit
  rw [if_pos hlt]

theorem floor_div_twelve (k : ℕ) : ⌊(k : ℚ) / 12⌋ = (k / 12 : ℕ) := by
  have h := Rat.floor_natCast_div_natCast k 12
  exact_mod_cast h

/-- Months that are whole are written as they are read. -/
theorem formatMonths_natCast (k d : ℕ) : formatMonths k d = format (k / 12) (k % 12 + 1) (min d (daysOf k)) := by
  have hmonth : (k : ℚ) - 12 * ((k / 12 : ℕ) : ℤ) + 1 = ((k % 12 + 1 : ℕ) : ℚ) := by
    have hsplit : (k : ℚ) = ((12 * (k / 12) + k % 12 : ℕ) : ℚ) := by rw [Nat.div_add_mod]
    rw [Int.cast_natCast]
    push_cast at hsplit ⊢
    linarith
  unfold formatMonths
  simp only [floor_div_twelve, Int.toNat_natCast, hmonth, Int.floor_natCast]
  rw [toText_natCast (by omega)]
  rfl

/-! ## Fractions of months -/

/-- The month of a year is a number from 1 up to 13. -/
theorem targetMonth_mem (m : ℚ) : 1 ≤ m - 12 * ⌊m / 12⌋ + 1 ∧ m - 12 * ⌊m / 12⌋ + 1 < 13 := by
  have hle := Int.floor_le (m / 12)
  have hlt := Int.lt_floor_add_one (m / 12)
  constructor <;> linarith

theorem point_mem_toText {x : ℚ} (h1 : 1 ≤ x) (h13 : x < 13) (hx : Int.fract x ≠ 0) :
    unit '.' ∈ toText 10 (.exact x) := by
  have hplain : ¬ (10 = 10 ∧ ((10 : ℚ) ^ 21 ≤ x ∨ 0 < x ∧ x < 1 / 10 ^ 6)) := by
    rintro ⟨-, hlarge | ⟨-, hsmall⟩⟩ <;> linarith
  show unit '.' ∈ (if x < 0 then unit '-' :: magnitude 10 (-x) else magnitude 10 x)
  rw [if_neg (by linarith)]
  unfold magnitude
  rw [if_neg hplain]
  unfold positional
  rw [if_neg hx]
  exact List.mem_append_right _ List.mem_cons_self

/-- A fraction of a month shows in the text. -/
theorem point_mem_formatMonths (h : Int.fract m ≠ 0) (d : ℕ) : unit '.' ∈ formatMonths m d := by
  obtain ⟨h1, h13⟩ := targetMonth_mem m
  have hfract : Int.fract (m - 12 * ⌊m / 12⌋ + 1) = Int.fract m := by
    have hshift : m - 12 * ⌊m / 12⌋ + 1 = m + ((1 - 12 * ⌊m / 12⌋ : ℤ) : ℚ) := by
      push_cast
      ring
    rw [hshift, Int.fract_add_intCast]
  have hpoint := point_mem_toText h1 h13 (by rwa [hfract])
  unfold formatMonths
  refine List.mem_append_right _ (List.mem_cons_of_mem _ (List.mem_append_left _ ?_))
  unfold padStart
  exact List.mem_append_right _ hpoint

/-- A text with a point in it is no date. -/
theorem not_isMatch_of_point {s : JsString} (h : unit '.' ∈ s) : datePattern.isMatch s = false := by
  by_contra hmatch
  rw [Bool.not_eq_false] at hmatch
  exact absurd (digit_or_dash hmatch _ h) (by decide)

theorem formatMonths_not_date (h : Int.fract m ≠ 0) (d : ℕ) : datePattern.isMatch (formatMonths m d) = false :=
  not_isMatch_of_point (point_mem_formatMonths h d)

/-! ## From a date of the calendar on -/

theorem addMonthsBy_text {c : CalendarDate} (h : c.month < 120000) (months : ℚ) :
    addMonthsBy c.text months = .ok (formatMonths (c.month + months) c.day) := by
  have hmonth : ((c.month / 12 : ℕ) : ℚ) * 12 + (((c.month % 12 + 1 : ℕ) : ℚ) - 1) = c.month := by
    have hsplit : (c.month : ℚ) = ((12 * (c.month / 12) + c.month % 12 : ℕ) : ℚ) := by rw [Nat.div_add_mod]
    push_cast at hsplit ⊢
    linarith
  unfold addMonthsBy
  rw [parts_text h]
  show Except.ok (formatMonths _ _) = _
  rw [hmonth]

/-- From the year 100 on, whole months are added in the calendar. -/
theorem formatMonths_text {c : CalendarDate} (hge : 1200 ≤ c.month) (n : ℕ) :
    formatMonths (c.month + n) c.day = (c.addMonths n).text := by
  have hsum : (c.month : ℚ) + n = ((c.month + n : ℕ) : ℚ) := by push_cast; rfl
  have hmonth : ((c.month : ℤ) + n).toNat = c.month + n := by omega
  rw [hsum, formatMonths_natCast, daysOf_eq (by omega)]
  unfold CalendarDate.addMonths
  rw [hmonth, CalendarDate.clamped_text c.pos]

end Recurring

end EasyDocket
