import EasyDocket.JsString
import EasyDocket.Lib.Numeral

/-!
# Dates and months

Dates are strings, compared as strings.  A calendar date is written by the ordinal of its month and its day (`iso`), in
the order of the two, so ranges and months can be told apart by numbers.
-/

namespace EasyDocket

open Numeral

/-- A decimal digit. -/
def digitUnit (n : ℕ) : CodeUnit := Fin.ofNat 65536 (n + 48)

/-- `String` of a number. -/
def decimal (n : ℕ) : JsString := (numeral 10 n).map digitUnit

/-- `String(n).padStart(w, '0')`. -/
def padded (w n : ℕ) : JsString := padStart w (unit '0') (decimal n)

/-- `Number` of digits. -/
def numberOf (s : JsString) : ℕ := value 10 (s.map (fun c => c.val - 48))

theorem digitUnit_lt_iff {x y : ℕ} (hx : x < 10) (hy : y < 10) : digitUnit x < digitUnit y ↔ x < y := by
  rw [Fin.lt_def, digitUnit, digitUnit, Fin.val_ofNat, Fin.val_ofNat, Nat.mod_eq_of_lt (by omega), Nat.mod_eq_of_lt (by omega)]
  omega

theorem val_digitUnit {x : ℕ} (hx : x < 10) : (digitUnit x).val - 48 = x := by
  rw [digitUnit, Fin.val_ofNat, Nat.mod_eq_of_lt (by omega)]
  omega

/-- A number of a given width. -/
def digits (w n : ℕ) : JsString := (fixed 10 w n).map digitUnit

@[simp] theorem length_digits (w n : ℕ) : (digits w n).length = w := by
  unfold digits
  rw [List.length_map, length_fixed]

theorem padded_eq {w n : ℕ} (h : n < 10 ^ w) (hw : 0 < w) : padded w n = digits w n := by
  unfold padded decimal digits
  rw [← padStart_numeral (by decide) h hw, padStart_map]
  rfl

theorem numberOf_digits {w n : ℕ} (h : n < 10 ^ w) : numberOf (digits w n) = n := by
  unfold numberOf digits
  rw [List.map_map]
  have hid : (fixed 10 w n).map ((fun c : CodeUnit => c.val - 48) ∘ digitUnit) = fixed 10 w n := by
    conv_rhs => rw [← List.map_id (fixed 10 w n)]
    exact List.map_congr_left (fun c hc => val_digitUnit (mem_fixed (by decide) w n c hc))
  rw [hid, value_fixed w n h]

theorem digits_lt_iff {w n m : ℕ} (hn : n < 10 ^ w) (hm : m < 10 ^ w) : digits w n < digits w m ↔ n < m := by
  unfold digits
  rw [map_lt_map_iff (P := fun c => c < 10) digitUnit_lt_iff (mem_fixed (by decide) w n) (mem_fixed (by decide) w m),
    fixed_lt_iff hn hm]

namespace Books

/-- `-`. -/
def dash : CodeUnit := unit '-'

def isDigit (c : CodeUnit) : Bool := unit '0' ≤ c && c ≤ unit '9'

/-- `\d{4}-\d{2}-\d{2}`. -/
def datePattern : Pattern CodeUnit :=
  [⟨isDigit, 4, 4⟩, ⟨(· = dash), 1, 1⟩, ⟨isDigit, 2, 2⟩, ⟨(· = dash), 1, 1⟩, ⟨isDigit, 2, 2⟩]

theorem digit_or_dash {s : JsString} (h : datePattern.isMatch s = true) : ∀ c ∈ s, isDigit c = true ∨ c = dash := by
  refine Pattern.forall_of_isMatch (fun q hq x hx => ?_) h
  unfold datePattern at hq
  simp only [List.mem_cons, List.not_mem_nil, or_false] at hq
  rcases hq with rfl | rfl | rfl | rfl | rfl
  exacts [Or.inl hx, Or.inr (of_decide_eq_true hx), Or.inl hx, Or.inr (of_decide_eq_true hx), Or.inl hx]

/-! ## Calendar arithmetic -/

def isLeap (year : ℕ) : Bool := year % 4 = 0 && (year % 100 ≠ 0 || year % 400 = 0)

/-- Days in a month of the Gregorian calendar. -/
def monthLength (year month : ℕ) : ℕ :=
  if month = 2 then if isLeap year then 29 else 28
  else if month = 4 ∨ month = 6 ∨ month = 9 ∨ month = 11 then 30
  else 31

/-- `daysInMonth`: the day of the month of `new Date(year, month, 0)`, which reads years of two digits as 19xx.  That is a day of
the host's time zone, of which it is assumed that it has left out no last day of a month. -/
def daysInMonth (year month : ℕ) : ℕ :=
  let year := if year ≤ 99 then 1900 + year else year
  if month = 0 then 31 else monthLength (year + (month - 1) / 12) ((month - 1) % 12 + 1)

/-! ## Ranges -/

/-- Inclusive date range, both ends `YYYY-MM-DD`; the source calls the ends `from` and `to`. -/
structure DateRange where
  first : JsString
  last : JsString

/-- `within`. -/
def within (date : JsString) (range : DateRange) : Bool := range.first ≤ date && date ≤ range.last

/-- `monthKey`: the bucket key for monthly reporting. -/
def monthKey (date : JsString) : JsString := date.take 7

/-- The key of a month. -/
def keyOf (year month : ℕ) : JsString := padded 4 year ++ dash :: padded 2 month

/-- The loop of `monthsIn`. -/
def monthsFrom (last : JsString) : ℕ → ℕ → ℕ → List JsString
  | 0, _, _ => []
  | guard + 1, year, month =>
    keyOf year month ::
      if last ≤ keyOf year month then []
      else if month + 1 > 12 then monthsFrom last guard (year + 1) 1
      else monthsFrom last guard year (month + 1)

/-- `monthsIn`: every month from the range's first to its last, inclusive. -/
def monthsIn (range : DateRange) : List JsString :=
  if range.last < range.first then []
  else monthsFrom (monthKey range.last) 1200 (numberOf (range.first.take 4)) (numberOf ((range.first.drop 5).take 2))

/-- `lastDayOf`: the last day of a month, clamped to the range. -/
def lastDayOf (month : JsString) (range : DateRange) : JsString :=
  let day := daysInMonth (numberOf (month.take 4)) (numberOf ((month.drop 5).take 2))
  let stop := month ++ dash :: padded 2 day
  if range.last < stop then range.last else stop

/-! ## Calendar dates -/

/-- A month by its number from the year 0 on. -/
def monthText (m : ℕ) : JsString := digits 4 (m / 12) ++ dash :: digits 2 (m % 12 + 1)

/-- A day of a month. -/
def iso (m d : ℕ) : JsString := monthText m ++ dash :: digits 2 d

/-- The days of a month by its number. -/
def daysOf (m : ℕ) : ℕ := daysInMonth (m / 12) (m % 12 + 1)

/-- A date of the calendar: the day `d` of the month `m`. -/
structure DayOf (m d : ℕ) : Prop where
  month : m < 120000
  pos : 1 ≤ d
  le : d ≤ daysOf m

variable {m m' d d' : ℕ} {range : DateRange}

theorem daysInMonth_le (year month : ℕ) : 28 ≤ daysInMonth year month ∧ daysInMonth year month ≤ 31 := by
  have hlength : ∀ y k, 28 ≤ monthLength y k ∧ monthLength y k ≤ 31 := by
    intro y k
    unfold monthLength
    split_ifs <;> omega
  unfold daysInMonth
  dsimp only
  by_cases hm : month = 0
  · rw [if_pos hm]
    omega
  · rw [if_neg hm]
    exact hlength _ _

/-- From the year 100 on, days are those of the Gregorian calendar. -/
theorem daysInMonth_eq {year month : ℕ} (hy : 100 ≤ year) (h1 : 1 ≤ month) (h12 : month ≤ 12) :
    daysInMonth year month = monthLength year month := by
  unfold daysInMonth
  have hdiv : (month - 1) / 12 = 0 := Nat.div_eq_of_lt (by omega)
  have hmod : (month - 1) % 12 + 1 = month := by
    rw [Nat.mod_eq_of_lt (by omega)]
    omega
  dsimp only
  rw [if_neg (by omega), if_neg (by omega), hdiv, hmod, Nat.add_zero]

theorem DayOf.lt (h : DayOf m d) : d < 10 ^ 2 := by
  have hle := h.le
  have h31 := (daysInMonth_le (m / 12) (m % 12 + 1)).2
  unfold daysOf at hle
  omega

theorem year_lt (h : m < 120000) : m / 12 < 10 ^ 4 := by omega

theorem month_lt (m : ℕ) : m % 12 + 1 < 10 ^ 2 := by omega

theorem keyOf_eq (h : m < 120000) : keyOf (m / 12) (m % 12 + 1) = monthText m := by
  unfold keyOf monthText
  rw [padded_eq (year_lt h) (by decide), padded_eq (month_lt m) (by decide)]

@[simp] theorem length_monthText (m : ℕ) : (monthText m).length = 7 := by
  unfold monthText
  simp

theorem monthKey_iso (m d : ℕ) : monthKey (iso m d) = monthText m := by
  unfold monthKey iso
  exact List.take_left' (length_monthText m)

theorem numberOf_year (h : m < 120000) (s : JsString) : numberOf ((monthText m ++ s).take 4) = m / 12 := by
  unfold monthText
  rw [List.append_assoc, List.take_left' (length_digits 4 _), numberOf_digits (year_lt h)]

theorem numberOf_month (m : ℕ) (s : JsString) : numberOf (((monthText m ++ s).drop 5).take 2) = m % 12 + 1 := by
  have hdrop : (monthText m ++ s).drop 5 = digits 2 (m % 12 + 1) ++ s := by
    unfold monthText
    have hassoc : digits 4 (m / 12) ++ dash :: digits 2 (m % 12 + 1) ++ s =
        (digits 4 (m / 12) ++ [dash]) ++ (digits 2 (m % 12 + 1) ++ s) := by simp
    rw [hassoc, List.drop_left' (by simp)]
  rw [hdrop, List.take_left' (length_digits 2 _), numberOf_digits (month_lt m)]

theorem monthText_lt_iff (h : m < 120000) (h' : m' < 120000) : monthText m < monthText m' ↔ m < m' := by
  unfold monthText
  rw [lt_append_iff (by simp), digits_lt_iff (year_lt h) (year_lt h'), List.cons_lt_cons_iff]
  have hyear : digits 4 (m / 12) = digits 4 (m' / 12) ↔ m / 12 = m' / 12 := by
    refine ⟨fun he => ?_, fun he => by rw [he]⟩
    rw [← numberOf_digits (year_lt h), he, numberOf_digits (year_lt h')]
  rw [hyear, digits_lt_iff (month_lt m) (month_lt m')]
  have hdash : ¬ dash < dash := lt_irrefl dash
  constructor
  · rintro (hlt | ⟨heq, hlt | ⟨-, hlt⟩⟩)
    · omega
    · exact absurd hlt hdash
    · omega
  · intro hlt
    by_cases hy : m / 12 = m' / 12
    · exact Or.inr ⟨hy, Or.inr ⟨rfl, by omega⟩⟩
    · exact Or.inl (by omega)

theorem monthText_inj (h : m < 120000) (h' : m' < 120000) (he : monthText m = monthText m') : m = m' := by
  have h1 := (monthText_lt_iff h h').not.mp (he ▸ lt_irrefl _)
  have h2 := (monthText_lt_iff h' h).not.mp (he ▸ lt_irrefl _)
  omega

theorem monthText_le_iff (h : m < 120000) (h' : m' < 120000) : monthText m ≤ monthText m' ↔ m ≤ m' := by
  rw [← not_lt, monthText_lt_iff h' h, not_lt]

theorem iso_lt_iff (h : m < 120000) (h' : m' < 120000) (hd : d < 10 ^ 2) (hd' : d' < 10 ^ 2) :
    iso m d < iso m' d' ↔ m < m' ∨ m = m' ∧ d < d' := by
  unfold iso
  rw [lt_append_iff (by simp), monthText_lt_iff h h', List.cons_lt_cons_iff, digits_lt_iff hd hd']
  have hmonth : monthText m = monthText m' ↔ m = m' := ⟨monthText_inj h h', fun he => by rw [he]⟩
  rw [hmonth]
  have hdash : ¬ dash < dash := lt_irrefl dash
  tauto

theorem iso_le_iff (h : m < 120000) (h' : m' < 120000) (hd : d < 10 ^ 2) (hd' : d' < 10 ^ 2) :
    iso m d ≤ iso m' d' ↔ m < m' ∨ m = m' ∧ d ≤ d' := by
  rw [← not_lt, iso_lt_iff h' h hd' hd]
  omega

/-! ## The months of a range -/

/-- Both ends of a range are dates of the calendar. -/
structure Spans (range : DateRange) (m d m' d' : ℕ) : Prop where
  first : range.first = iso m d
  last : range.last = iso m' d'
  start : DayOf m d
  stop : DayOf m' d'

/-- The loop, as long as it is bounded far enough; by induction on the bound. -/
theorem monthsFrom_eq (h' : m' < 120000) : ∀ (guard m : ℕ), m ≤ m' → m' < m + guard →
    monthsFrom (monthText m') guard (m / 12) (m % 12 + 1) = (List.range' m (m' + 1 - m)).map monthText
  | 0, m, hle, hlt => absurd hlt (by omega)
  | guard + 1, m, hle, hlt => by
    have hm : m < 120000 := by omega
    unfold monthsFrom
    rw [keyOf_eq hm]
    by_cases hlast : m' ≤ m
    · have heq : m = m' := by omega
      rw [if_pos ((monthText_le_iff h' hm).mpr hlast), heq, show m' + 1 - m' = 1 by omega]
      rfl
    · rw [if_neg (fun hle => hlast ((monthText_le_iff h' hm).mp hle))]
      have ih := monthsFrom_eq h' guard (m + 1) (by omega) (by omega)
      have hrange : m' + 1 - m = (m' + 1 - (m + 1)) + 1 := by omega
      rw [hrange, List.range'_succ, List.map_cons, ← ih]
      by_cases hdec : m % 12 + 1 + 1 > 12
      · rw [if_pos hdec, show (m + 1) / 12 = m / 12 + 1 by omega, show (m + 1) % 12 = 0 by omega]
      · rw [if_neg hdec, show (m + 1) / 12 = m / 12 by omega, show (m + 1) % 12 = m % 12 + 1 by omega]

/-- The months of a range that is not empty and not too long. -/
theorem monthsIn_eq (h : Spans range m d m' d') (hne : ¬ range.last < range.first) (hlen : m' < m + 1200) :
    m ≤ m' ∧ monthsIn range = (List.range' m (m' + 1 - m)).map monthText := by
  have hle : m ≤ m' := by
    by_contra hlt
    refine hne ?_
    rw [h.first, h.last, iso_lt_iff h.stop.month h.start.month h.stop.lt h.start.lt]
    exact Or.inl (not_le.mp hlt)
  refine ⟨hle, ?_⟩
  unfold monthsIn
  rw [if_neg hne, h.first, h.last, monthKey_iso]
  have hyear : numberOf ((iso m d).take 4) = m / 12 := numberOf_year h.start.month _
  have hmonth : numberOf (((iso m d).drop 5).take 2) = m % 12 + 1 := numberOf_month m _
  rw [hyear, hmonth]
  exact monthsFrom_eq h.stop.month 1200 m hle hlen

/-- The last day of a month before the last one, and of the last one. -/
theorem lastDayOf_eq (h : Spans range m d m' d') {k : ℕ} (hk : k ≤ m') :
    lastDayOf (monthText k) range = if k < m' then iso k (daysOf k) else range.last := by
  have hmonth : k < 120000 := lt_of_le_of_lt hk h.stop.month
  have hyear : numberOf ((monthText k).take 4) = k / 12 := by
    have hy := numberOf_year hmonth []
    rwa [List.append_nil] at hy
  have hmon : numberOf (((monthText k).drop 5).take 2) = k % 12 + 1 := by
    have hm := numberOf_month k []
    rwa [List.append_nil] at hm
  have hdays : daysOf k < 10 ^ 2 := by
    have h31 := (daysInMonth_le (k / 12) (k % 12 + 1)).2
    unfold daysOf
    omega
  have hstop : monthText k ++ dash :: padded 2 (daysInMonth (numberOf ((monthText k).take 4))
      (numberOf (((monthText k).drop 5).take 2))) = iso k (daysOf k) := by
    rw [hyear, hmon]
    unfold iso
    rw [padded_eq (show daysInMonth (k / 12) (k % 12 + 1) < 10 ^ 2 from hdays) (by decide)]
    rfl
  have hafter := iso_lt_iff h.stop.month hmonth h.stop.lt hdays
  show (if range.last < _ then range.last else _) = _
  rw [hstop, h.last]
  by_cases hlt : k < m'
  · rw [if_pos hlt, if_neg (fun ha => by have := hafter.mp ha; omega)]
  · have heq : k = m' := by omega
    rw [if_neg hlt]
    by_cases hd : d' < daysOf k
    · rw [if_pos (hafter.mpr (Or.inr ⟨heq.symm, hd⟩))]
    · have hle := h.stop.le
      rw [← heq] at hle
      rw [if_neg (fun ha => by have := hafter.mp ha; omega), ← heq, show daysOf k = d' by omega]

end Books

end EasyDocket
