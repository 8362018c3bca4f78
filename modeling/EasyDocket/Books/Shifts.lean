import EasyDocket.Books.Calendar

/-!
# Shifting dates

The laws by which windows, schedules and statements reason about shifted dates (`shifts_lawful`).  Dates before the year 100
are shifted from another century, but consistently.
-/

namespace EasyDocket

namespace Books

open Numeral

variable {c c' q : CalendarDate} {s t : JsString} {a b n : ℤ}

/-- A date of the years 0000 to 9999, as a string. -/
def IsDate (s : JsString) : Prop := ∃ c : CalendarDate, c.month < 120000 ∧ s = c.text

/-- A date of the years 0100 to 9999, as a string. -/
def InYears (s : JsString) : Prop := ∃ c : CalendarDate, c.Plain ∧ s = c.text

/-! ## Years of more than four digits -/

theorem length_padded_le (w n : ℕ) : (decimal n).length ≤ (padded w n).length := by
  unfold padded padStart
  rw [List.length_append]
  exact Nat.le_add_left _ _

theorem length_text (h : c.month < 120000) : c.text.length = 10 := by
  rw [CalendarDate.text_eq h]
  unfold iso monthText
  simp

/-- A later year has a longer text. -/
theorem lt_length_text (h : 120000 ≤ c.month) : 10 < c.text.length := by
  have hyear : 10 ^ 4 ≤ c.month / 12 := by omega
  have hdigits : 5 ≤ (decimal (c.month / 12)).length := by
    by_contra hlt
    have hsmall := lt_pow_length (le_of_lt (by decide : 2 < 10)) (c.month / 12)
    have hpow : 10 ^ (numeral 10 (c.month / 12)).length ≤ 10 ^ 4 := by
      refine Nat.pow_le_pow_right (by decide) ?_
      unfold decimal at hlt
      rw [List.length_map] at hlt
      omega
    omega
  have htwo : ∀ m, m < 10 ^ 2 → (padded 2 m).length = 2 := by
    intro m hm
    rw [padded_eq hm (by decide), length_digits]
  have hyears := hdigits.trans (length_padded_le 4 _)
  unfold CalendarDate.text format
  simp only [List.length_append, List.length_cons, htwo _ (month_lt c.month), htwo _ c.day_lt]
  omega

/-- Only dates with a year of four digits have the texts of such dates. -/
theorem eq_of_text_eq (h' : c'.month < 120000) (heq : c.text = c'.text) : c = c' := by
  refine CalendarDate.text_injective ?_ h' heq
  by_contra hlarge
  have hlong := lt_length_text (not_lt.mp hlarge)
  rw [heq, length_text h'] at hlong
  exact absurd hlong (lt_irrefl 10)

/-! ## Days -/

/-- The day that `Date.UTC` counts from. -/
def utcOrdinal (c : CalendarDate) : ℕ := daysBefore (utcYear (c.month / 12) * 12 + c.month % 12) + (c.day - 1)

theorem utcOrdinal_eq (h : c.Plain) : utcOrdinal c = c.ordinal := by
  have hge := h.ge
  have hyear : utcYear (c.month / 12) = c.month / 12 := if_neg (by omega)
  unfold utcOrdinal
  rw [hyear, Nat.div_add_mod']
  rfl

theorem addDays_eq (h : c.month < 120000) (n : ℤ) :
    addDays c.text n = .ok (CalendarDate.ofOrdinal (utcOrdinal c + n).toNat).text := by
  have hmonth : ((utcYear (c.month / 12) * 12 + (c.month % 12 + 1 : ℕ) : ℤ) - 1).toNat =
      utcYear (c.month / 12) * 12 + c.month % 12 := by omega
  have hpos := c.pos
  unfold addDays
  rw [parts_text h]
  show Except.ok (CalendarDate.ofOrdinal _).text = _
  simp only
  rw [hmonth]
  unfold utcOrdinal
  congr 3
  omega

/-- What a shift gives, if it stays in the years of four digits from 100 on. -/
theorem shifted_eq (h : c.month < 120000) (hs : addDays c.text n = .ok s) (hin : InYears s) :
    ∃ q : CalendarDate, q.Plain ∧ s = q.text ∧ (q.ordinal : ℤ) = utcOrdinal c + n := by
  obtain ⟨q, hq, rfl⟩ := hin
  rw [addDays_eq h] at hs
  have heq := eq_of_text_eq hq.lt (Except.ok.inj hs)
  have hordinal : q.ordinal = (utcOrdinal c + n).toNat := by rw [← heq, CalendarDate.ordinal_ofOrdinal]
  have hpos : 0 < q.ordinal := lt_of_lt_of_le (CalendarDate.daysBefore_pos hq.ge) (Nat.le_add_right _ _)
  exact ⟨q, hq, rfl, by omega⟩

theorem addDays_zero (h : InYears s) : addDays s 0 = .ok s := by
  obtain ⟨c, hc, rfl⟩ := h
  rw [addDays_eq hc.lt, utcOrdinal_eq hc, Int.add_zero, Int.toNat_natCast, CalendarDate.ofOrdinal_ordinal]

theorem addDays_addDays (h : IsDate s) (ha : addDays s a = .ok t) (hin : InYears t) : addDays t b = addDays s (a + b) := by
  obtain ⟨c, hc, rfl⟩ := h
  obtain ⟨q, hq, rfl, hordinal⟩ := shifted_eq hc ha hin
  rw [addDays_eq hq.lt, addDays_eq hc, utcOrdinal_eq hq, hordinal, Int.add_assoc]

theorem addDays_lt (h : IsDate s) {u : JsString} (hab : a < b) (ha : addDays s a = .ok t) (hb : addDays s b = .ok u)
    (hin : InYears t) (hin' : InYears u) : t < u := by
  obtain ⟨c, hc, rfl⟩ := h
  obtain ⟨q, hq, rfl, hordinal⟩ := shifted_eq hc ha hin
  obtain ⟨q', hq', rfl, hordinal'⟩ := shifted_eq hc hb hin'
  rw [CalendarDate.text_lt_iff hq.lt hq'.lt, CalendarDate.lt_iff]
  omega

/-! ## Months -/

/-- Whether a number of months later it is a year of four digits, from 100 on. -/
def StaysWithin (c : CalendarDate) (n : ℤ) : Prop := 1200 ≤ c.month + n ∧ c.month + n < 120000

theorem month_addMonths (h : StaysWithin c n) : ((c.addMonths n).month : ℤ) = c.month + n := by
  have hlow := h.1
  show (((c.month + n).toNat : ℕ) : ℤ) = _
  omega

theorem addMonths_plain (h : StaysWithin c n) : (c.addMonths n).Plain := by
  have hmonth := month_addMonths h
  obtain ⟨hlow, hhigh⟩ := h
  constructor <;> omega

theorem day_addMonths (c : CalendarDate) (n : ℤ) : (c.addMonths n).day = min c.day (monthDays (c.addMonths n).month) := by
  show min (max c.day 1) _ = min c.day _
  rw [max_eq_left c.pos]
  rfl

theorem addMonths_eq (hc : c.month < 120000) (h : StaysWithin c n) : addMonths c.text n = .ok (c.addMonths n).text :=
  addMonths_text hc (addMonths_plain h).ge

theorem addMonths_lt (hab : a < b) (ha : StaysWithin c a) (hb : StaysWithin c b) : (c.addMonths a).text < (c.addMonths b).text := by
  have hmonth := month_addMonths ha
  have hmonth' := month_addMonths hb
  rw [CalendarDate.text_lt_iff (addMonths_plain ha).lt (addMonths_plain hb).lt, CalendarDate.lt_iff_month]
  exact Or.inl (by omega)

/-- A later date is not overtaken: within a month the days are cut off at the same length. -/
theorem addMonths_mono (hle : c ≤ c') (h : StaysWithin c n) (h' : StaysWithin c' n) :
    (c.addMonths n).text ≤ (c'.addMonths n).text := by
  have hmonth := month_addMonths h
  have hmonth' := month_addMonths h'
  rw [CalendarDate.text_le_iff (addMonths_plain h).lt (addMonths_plain h').lt, ← not_lt, CalendarDate.lt_iff_month]
  rintro (hlt | ⟨heq, hlt⟩)
  · have hmono := CalendarDate.month_mono hle
    omega
  · rw [day_addMonths, day_addMonths, heq] at hlt
    have hsame : c.month = c'.month := by omega
    have hday : c.day ≤ c'.day := by
      by_contra hday
      exact absurd (CalendarDate.lt_iff_month.mpr (Or.inr ⟨hsame.symm, not_le.mp hday⟩)) (not_lt.mpr hle)
    exact absurd hlt (not_lt.mpr (min_le_min_right _ hday))

/-! ## The laws -/

/-- Days are added up, and more of them lead to a later date. -/
structure DayLaws : Prop where
  zero : ∀ d, InYears d → addDays d 0 = .ok d
  calendar : ∀ (c : CalendarDate) (n : ℤ), c.Plain → (c.addDays n).Plain → addDays c.text n = .ok (c.addDays n).text
  add : ∀ d a b s, IsDate d → addDays d a = .ok s → InYears s → addDays s b = addDays d (a + b)
  increasing : ∀ d a b s t, IsDate d → a < b → addDays d a = .ok s → addDays d b = .ok t → InYears s → InYears t → s < t

/-- Months later it is the same day, or the last day of the month; more months or a later date lead to no earlier date. -/
structure MonthLaws : Prop where
  clamped : ∀ (c : CalendarDate) (n : ℤ), c.month < 120000 → StaysWithin c n →
    ∃ r : CalendarDate, addMonths c.text n = .ok r.text ∧ (r.month : ℤ) = c.month + n ∧ r.day = min c.day (monthDays r.month)
  increasing : ∀ (c : CalendarDate) (a b : ℤ) (s t : JsString), c.month < 120000 → a < b → StaysWithin c a → StaysWithin c b →
    addMonths c.text a = .ok s → addMonths c.text b = .ok t → s < t
  monotone : ∀ (c c' : CalendarDate) (n : ℤ) (s t : JsString), c.month < 120000 → c'.month < 120000 → c.text ≤ c'.text →
    StaysWithin c n → StaysWithin c' n → addMonths c.text n = .ok s → addMonths c'.text n = .ok t → s ≤ t

/-- Dates are shifted lawfully, and compare as strings as they do in the calendar. -/
theorem shifts_lawful : DayLaws ∧ MonthLaws ∧
    ∀ c c' : CalendarDate, c.month < 120000 → c'.month < 120000 → (c.text < c'.text ↔ c.ordinal < c'.ordinal) := by
  refine ⟨⟨fun d hd => addDays_zero hd, fun c n hc _ => addDays_text hc n, fun d a b s hd hs hin => addDays_addDays hd hs hin,
    fun d a b s t hd hab hs ht hin hin' => addDays_lt hd hab hs ht hin hin'⟩, ⟨?_, ?_, ?_⟩, ?_⟩
  · intro c n hc h
    exact ⟨c.addMonths n, addMonths_eq hc h, month_addMonths h, day_addMonths c n⟩
  · intro c a b s t hc hab ha hb hs ht
    rw [addMonths_eq hc ha] at hs
    rw [addMonths_eq hc hb] at ht
    rw [← Except.ok.inj hs, ← Except.ok.inj ht]
    exact addMonths_lt hab ha hb
  · intro c c' n s t hc hc' hle h h' hs ht
    rw [addMonths_eq hc h] at hs
    rw [addMonths_eq hc' h'] at ht
    rw [← Except.ok.inj hs, ← Except.ok.inj ht]
    exact addMonths_mono ((CalendarDate.text_le_iff hc hc').mp hle) h h'
  · intro c c' hc hc'
    rw [CalendarDate.text_lt_iff hc hc', CalendarDate.lt_iff]

example : addDays (js "2024-02-28") 2 = .ok (js "2024-03-01") ∧ addMonths (js "2023-12-31") (-1) = .ok (js "2023-11-30") := by
  decide +kernel

end Books

end EasyDocket
