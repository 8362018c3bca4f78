import EasyDocket.Books.Shifts
import EasyDocket.Import.Plan

/-!
# Date cells

What `parseDate` makes of a cell, by the digits that are written in it.  Dates that can be read in one way only are read so
under either convention, but for a day that stands second, a day of too many digits, and a year that is not spelled out
(`readsRight_iff`).
-/

namespace EasyDocket

namespace Import

open Books JsNumber Numeral

variable {value s t ds rest year month day first second : JsString} {lo hi y m d : ℕ}

/-! ## Digits at the start -/

/-- What follows does not begin with a digit. -/
def NoDigitHead (s : JsString) : Prop := ∀ c ∈ s.head?, isDigit c = false

def AllDigits (s : JsString) : Prop := ∀ c ∈ s, isDigit c = true

instance : Decidable (AllDigits s) := List.decidableBAll _ s

theorem takeWhile_eq_nil (h : NoDigitHead s) : s.takeWhile isDigit = [] := by
  cases s with
  | nil => rfl
  | cons c s => exact List.takeWhile_cons_of_neg (by rw [h c rfl]; exact Bool.false_ne_true)

/-- As many digits as there are, up to the bound. -/
theorem taken_eq (hds : AllDigits ds) (hhi : ds.length ≤ hi) (hstop : ds.length = hi ∨ NoDigitHead rest) :
    ((ds ++ rest).take hi).takeWhile isDigit = ds := by
  rw [List.take_append, List.take_of_length_le hhi, List.takeWhile_append_of_pos hds]
  rcases hstop with rfl | hstop
  · simp
  · have hnone : (rest.take (hi - ds.length)).takeWhile isDigit = [] := by
      refine takeWhile_eq_nil (fun c hc => hstop c ?_)
      cases hlen : hi - ds.length with
      | zero =>
        rw [hlen, List.take_zero] at hc
        cases hc
      | succ n =>
        rw [hlen] at hc
        cases rest with
        | nil => cases hc
        | cons x rest => exact hc
    rw [hnone, List.append_nil]

theorem takeDigits_eq (lo : ℕ) (rest : JsString) (hds : AllDigits ds) (hlo : lo ≤ ds.length) (hhi : ds.length ≤ hi)
    (hstop : ds.length = hi ∨ NoDigitHead rest) : takeDigits lo hi (ds ++ rest) = some (numberOf ds, rest) := by
  unfold takeDigits
  simp only [taken_eq hds hhi hstop, if_neg (not_lt.mpr hlo), List.drop_left]

theorem takeDigits_eq_none (hds : AllDigits ds) (hlo : ds.length < lo) (hhi : lo ≤ hi) (hrest : NoDigitHead rest) :
    takeDigits lo hi (ds ++ rest) = none := by
  unfold takeDigits
  simp only [taken_eq hds (hlo.le.trans hhi) (Or.inr hrest), if_pos hlo]

/-- What is taken are digits, and no more follow unless there are as many as may be taken. -/
theorem takeDigits_some {n : ℕ} (h : takeDigits lo hi s = some (n, rest)) : ∃ ds, s = ds ++ rest ∧ AllDigits ds ∧
    lo ≤ ds.length ∧ ds.length ≤ hi ∧ (ds.length = hi ∨ NoDigitHead rest) ∧ n = numberOf ds := by
  unfold takeDigits at h
  dsimp only at h
  split_ifs at h with hlo
  obtain ⟨rfl, rfl⟩ := Prod.mk.inj (Option.some.inj h)
  have hpre : (s.take hi).takeWhile isDigit <+: s := (List.takeWhile_prefix _).trans (List.take_prefix _ _)
  obtain ⟨u, hu⟩ := hpre
  have hdrop : s.drop ((s.take hi).takeWhile isDigit).length = u :=
    (congrArg (List.drop ((s.take hi).takeWhile isDigit).length) hu.symm).trans List.drop_left
  have hlen : ((s.take hi).takeWhile isDigit).length ≤ hi :=
    (List.takeWhile_prefix _).length_le.trans (List.length_take_le _ _)
  refine ⟨_, by rw [hdrop, hu], fun c hc => List.mem_takeWhile_imp hc, not_lt.mp hlo, hlen, ?_, rfl⟩
  by_cases hfull : ((s.take hi).takeWhile isDigit).length = hi
  · exact Or.inl hfull
  · refine Or.inr (fun c hc => ?_)
    rw [hdrop] at hc
    cases u with
    | nil => cases hc
    | cons x u =>
      obtain rfl := Option.some.inj hc
      by_contra hdigit
      -- one more digit would have been taken
      have hall : AllDigits ((s.take hi).takeWhile isDigit ++ [x]) := by
        intro c hc
        rcases List.mem_append.mp hc with hc | hc
        · exact List.mem_takeWhile_imp hc
        · rw [List.mem_singleton.mp hc]
          exact (Bool.not_eq_false _).mp hdigit
      have hpre : (s.take hi).takeWhile isDigit ++ [x] <+: s.take hi := by
        refine List.prefix_take_iff.mpr ⟨⟨u, by rw [List.append_assoc]; exact hu⟩, ?_⟩
        rw [List.length_append, List.length_singleton]
        omega
      obtain ⟨v, hv⟩ := hpre
      have htaken := congrArg (fun w => (List.takeWhile isDigit w).length) hv
      rw [List.takeWhile_append_of_pos hall, List.length_append, List.length_append, List.length_singleton] at htaken
      omega

/-- Digits end where they end. -/
theorem digits_split {c c' : CodeUnit} (hs : AllDigits s) (ht : AllDigits t) (hc : isDigit c = false)
    (hc' : isDigit c' = false) {u u' : JsString} (h : s ++ c :: u = t ++ c' :: u') : s = t ∧ c = c' ∧ u = u' := by
  have hstop : ∀ {w x : JsString} {e : CodeUnit}, AllDigits w → isDigit e = false → (w ++ e :: x).takeWhile isDigit = w := by
    intro w x e hw he
    rw [List.takeWhile_append_of_pos hw, List.takeWhile_cons_of_neg (by rw [he]; exact Bool.false_ne_true), List.append_nil]
  have heq : s = t := by rw [← @hstop s u c hs hc, h, hstop ht hc']
  subst heq
  obtain ⟨rfl, rfl⟩ := List.cons.inj (List.append_cancel_left h)
  exact ⟨rfl, rfl, rfl⟩

/-! ## Shapes of dates -/

/-- A slash, dot or dash date. -/
structure SlashDate (value first second year : JsString) : Prop where
  first_digits : AllDigits first
  second_digits : AllDigits second
  year_digits : AllDigits year
  first_length : 1 ≤ first.length ∧ first.length ≤ 2
  second_length : 1 ≤ second.length ∧ second.length ≤ 2
  year_length : 2 ≤ year.length ∧ year.length ≤ 4
  text : ∃ m m' : CodeUnit, isDateSeparator m = true ∧ isDateSeparator m' = true ∧
    trim value = first ++ m :: (second ++ m' :: year)

/-- An ISO date, and whatever follows it; the day is as long as there are digits. -/
structure IsoDate (value year month day : JsString) : Prop where
  year_digits : AllDigits year
  month_digits : AllDigits month
  day_digits : AllDigits day
  year_length : year.length = 4
  month_length : 1 ≤ month.length ∧ month.length ≤ 2
  day_length : 1 ≤ day.length
  text : ∃ rest, NoDigitHead rest ∧ trim value = year ++ dash :: (month ++ dash :: (day ++ rest))

theorem noDigitHead_of_separator {c : CodeUnit} (h : isDateSeparator c = true) : isDigit c = false := by
  unfold isDateSeparator at h
  simp only [Bool.or_eq_true, decide_eq_true_eq] at h
  rcases h with (rfl | rfl) | rfl <;> decide

theorem noDigitHead_cons {c : CodeUnit} (h : isDigit c = false) : NoDigitHead (c :: s) := by
  intro x hx
  rw [← Option.some.inj hx]
  exact h

theorem isDigit_dash : isDigit dash = false := by decide

theorem takeMark_cons {accepts : CodeUnit → Bool} {c : CodeUnit} (h : accepts c = true) :
    takeMark accepts (c :: s) = some s := if_pos h

theorem takeMark_some {accepts : CodeUnit → Bool} (h : takeMark accepts s = some t) :
    ∃ c, accepts c = true ∧ s = c :: t := by
  cases s with
  | nil => cases h
  | cons c s =>
    replace h : (if accepts c = true then some s else none) = some t := h
    split_ifs at h with hc
    exact ⟨c, hc, by rw [Option.some.inj h]⟩

theorem SlashDate.parts (h : SlashDate value first second year) :
    slashParts (trim value) = some (numberOf first, numberOf second, numberOf year) := by
  obtain ⟨m, m', hm, hm', htext⟩ := h.text
  have hfirst := takeDigits_eq 1 (m :: (second ++ m' :: year)) h.first_digits h.first_length.1 h.first_length.2
    (Or.inr (noDigitHead_cons (noDigitHead_of_separator hm)))
  have hsecond := takeDigits_eq 1 (m' :: year) h.second_digits h.second_length.1 h.second_length.2
    (Or.inr (noDigitHead_cons (noDigitHead_of_separator hm')))
  have hyear := takeDigits_eq 2 [] h.year_digits h.year_length.1 h.year_length.2 (Or.inr (fun c hc => nomatch hc))
  rw [List.append_nil] at hyear
  unfold slashParts
  rw [htext]
  simp only [hfirst, takeMark_cons hm, hsecond, takeMark_cons hm', hyear, Option.bind_eq_bind, Option.bind_some]
  rfl

theorem SlashDate.not_iso (h : SlashDate value first second year) : isoParts (trim value) = none := by
  obtain ⟨m, m', hm, hm', htext⟩ := h.text
  have hnone : takeDigits 4 4 (first ++ m :: (second ++ m' :: year)) = none :=
    takeDigits_eq_none h.first_digits (by have := h.first_length.2; omega) le_rfl
      (noDigitHead_cons (noDigitHead_of_separator hm))
  unfold isoParts
  rw [htext, hnone]
  rfl

theorem IsoDate.parts (h : IsoDate value year month day) :
    isoParts (trim value) = some (numberOf year, numberOf month, numberOf (day.take 2)) := by
  obtain ⟨rest, hrest, htext⟩ := h.text
  have hyear := takeDigits_eq 4 (dash :: (month ++ dash :: (day ++ rest))) h.year_digits h.year_length.ge
    h.year_length.le (Or.inl h.year_length)
  have hmonth := takeDigits_eq 1 (dash :: (day ++ rest)) h.month_digits h.month_length.1 h.month_length.2
    (Or.inr (noDigitHead_cons isDigit_dash))
  have hlen : (day.take 2).length = min 2 day.length := List.length_take
  have hstop : (day.take 2).length = 2 ∨ NoDigitHead (day.drop 2 ++ rest) := by
    by_cases htwo : 2 ≤ day.length
    · exact Or.inl (by omega)
    · refine Or.inr ?_
      rw [List.drop_eq_nil_of_le (by omega)]
      exact hrest
  have hday := takeDigits_eq 1 (day.drop 2 ++ rest) (fun c hc => h.day_digits c (List.mem_of_mem_take hc))
    (by have := h.day_length; omega) (by omega) hstop
  rw [← List.append_assoc, List.take_append_drop] at hday
  have hdash : ∀ s, takeMark (fun c => decide (c = dash)) (dash :: s) = some s := fun s => takeMark_cons (decide_eq_true rfl)
  unfold isoParts
  rw [htext]
  simp only [hyear, hdash, hmonth, hday, Option.bind_eq_bind, Option.bind_some]
  rfl

theorem exists_slashDate {p : ℕ × ℕ × ℕ} (h : slashParts (trim value) = some p) : ∃ first second year,
    SlashDate value first second year ∧ p = (numberOf first, numberOf second, numberOf year) := by
  unfold slashParts at h
  simp only [Option.bind_eq_bind, Option.bind_eq_some_iff, Prod.exists] at h
  obtain ⟨n, s₁, h1, s₂, h2, k, s₃, h3, s₄, h4, y, s₅, h5, h6⟩ := h
  split_ifs at h6 with hend
  obtain ⟨first, hs, hfirst, hlo, hhi, -, rfl⟩ := takeDigits_some h1
  obtain ⟨m, hm, rfl⟩ := takeMark_some h2
  obtain ⟨second, rfl, hsecond, hlo', hhi', -, rfl⟩ := takeDigits_some h3
  obtain ⟨m', hm', rfl⟩ := takeMark_some h4
  obtain ⟨year, rfl, hyear, hlo'', hhi'', -, rfl⟩ := takeDigits_some h5
  rw [hend, List.append_nil] at hs
  exact ⟨first, second, year, ⟨hfirst, hsecond, hyear, ⟨hlo, hhi⟩, ⟨hlo', hhi'⟩, ⟨hlo'', hhi''⟩, m, m', hm, hm', hs⟩,
    (Option.some.inj h6).symm⟩

theorem exists_isoDate {p : ℕ × ℕ × ℕ} (h : isoParts (trim value) = some p) : ∃ year month day,
    IsoDate value year month day ∧ p = (numberOf year, numberOf month, numberOf (day.take 2)) := by
  unfold isoParts at h
  simp only [Option.bind_eq_bind, Option.bind_eq_some_iff, Prod.exists] at h
  obtain ⟨n, s₁, h1, s₂, h2, k, s₃, h3, s₄, h4, y, s₅, h5, h6⟩ := h
  obtain ⟨year, hs, hyear, hlo, hhi, -, rfl⟩ := takeDigits_some h1
  obtain ⟨c, hc, rfl⟩ := takeMark_some h2
  obtain ⟨month, rfl, hmonth, hlo', hhi', -, rfl⟩ := takeDigits_some h3
  obtain ⟨c', hc', rfl⟩ := takeMark_some h4
  obtain ⟨day, rfl, hday, hlo'', hhi'', hstop, rfl⟩ := takeDigits_some h5
  obtain rfl := of_decide_eq_true hc
  obtain rfl := of_decide_eq_true hc'
  have hrun : AllDigits (day ++ s₅.takeWhile isDigit) := by
    intro x hx
    exact (List.mem_append.mp hx).elim (hday x) (fun hx => List.mem_takeWhile_imp hx)
  have htwo : (day ++ s₅.takeWhile isDigit).take 2 = day := by
    rcases hstop with hfull | hstop
    · exact List.take_left' hfull
    · rw [takeWhile_eq_nil hstop, List.append_nil]
      exact List.take_of_length_le hhi''
  refine ⟨year, month, day ++ s₅.takeWhile isDigit, ⟨hyear, hmonth, hrun, le_antisymm hhi hlo, ⟨hlo', hhi'⟩, ?_,
    s₅.dropWhile isDigit, ?_, ?_⟩, ?_⟩
  · rw [List.length_append]
    omega
  · intro x hx
    have hne := List.head?_dropWhile_not isDigit s₅
    rw [hx] at hne
    simpa using hne
  · rw [hs, List.append_assoc, List.takeWhile_append_dropWhile]
  · rw [htwo]
    exact (Option.some.inj h6).symm

theorem SlashDate.unique {first' second' year' : JsString} (h : SlashDate value first second year)
    (h' : SlashDate value first' second' year') : first = first' ∧ second = second' ∧ year = year' := by
  obtain ⟨m, m', hm, hm', htext⟩ := h.text
  obtain ⟨n, n', hn, hn', htext'⟩ := h'.text
  obtain ⟨hfirst, -, hrest⟩ := digits_split h.first_digits h'.first_digits (noDigitHead_of_separator hm)
    (noDigitHead_of_separator hn) (htext.symm.trans htext')
  obtain ⟨hsecond, -, hyear⟩ := digits_split h.second_digits h'.second_digits (noDigitHead_of_separator hm')
    (noDigitHead_of_separator hn') hrest
  exact ⟨hfirst, hsecond, hyear⟩

theorem IsoDate.unique {year' month' day' : JsString} (h : IsoDate value year month day)
    (h' : IsoDate value year' month' day') : year = year' ∧ month = month' ∧ day = day' := by
  obtain ⟨rest, hrest, htext⟩ := h.text
  obtain ⟨rest', hrest', htext'⟩ := h'.text
  obtain ⟨hyear, -, htail⟩ := digits_split h.year_digits h'.year_digits isDigit_dash isDigit_dash (htext.symm.trans htext')
  obtain ⟨hmonth, -, hend⟩ := digits_split h.month_digits h'.month_digits isDigit_dash isDigit_dash htail
  have hrun := congrArg (List.takeWhile isDigit) hend
  rw [List.takeWhile_append_of_pos h.day_digits, List.takeWhile_append_of_pos h'.day_digits, takeWhile_eq_nil hrest,
    takeWhile_eq_nil hrest', List.append_nil, List.append_nil] at hrun
  exact ⟨hyear, hmonth, hrun⟩

theorem SlashDate.not_isoDate (h : SlashDate value first second year) {year' : JsString} : ¬ IsoDate value year' month day := by
  intro h'
  have hparts := h'.parts
  rw [h.not_iso] at hparts
  cases hparts

/-! ## Days of the calendar -/

/-- A day of the Gregorian calendar. -/
def IsDay (y m d : ℕ) : Prop := (1 ≤ m ∧ m ≤ 12) ∧ 1 ≤ d ∧ d ≤ monthLength y m

instance : Decidable (IsDay y m d) := inferInstanceAs (Decidable (_ ∧ _))

/-- A day as it is written, or none. -/
def dateOf (y m d : ℕ) : Option JsString := if IsDay y m d then some (format y m d) else none

/-- What `assemble` accepts; years of two digits have the months of the twentieth century. -/
def Accepted (y m d : ℕ) : Prop := (1 ≤ m ∧ m ≤ 12) ∧ 1 ≤ d ∧ d ≤ daysInMonth y m

instance : Decidable (Accepted y m d) := inferInstanceAs (Decidable (_ ∧ _))

theorem assemble_eq (y m d : ℕ) : assemble y m d = if Accepted y m d then some (format y m d) else none := by
  have h31 := (daysInMonth_le y m).2
  unfold assemble
  by_cases h : Accepted y m d
  · rw [if_pos h]
    obtain ⟨⟨h1, h12⟩, hd, hle⟩ := h
    rw [if_neg (by omega), if_neg (by omega), format, List.append_assoc, List.cons_append]
  · rw [if_neg h]
    split_ifs with hrange hlong
    · rfl
    · rfl
    · exact absurd (show Accepted y m d from ⟨by omega, by omega, by omega⟩) h

theorem monthLength_congr {y' : ℕ} (h : isLeap y = isLeap y') (m : ℕ) : monthLength y m = monthLength y' m := by
  unfold monthLength
  rw [h]

theorem accepted_iff (hy : 100 ≤ y) : Accepted y m d ↔ IsDay y m d := by
  refine and_congr_right (fun hm => and_congr_right (fun _ => ?_))
  rw [daysInMonth_eq hy hm.1 hm.2]

theorem Accepted.isDay (h : Accepted y m d) : IsDay y m d := by
  by_cases hy : 100 ≤ y
  · exact (accepted_iff hy).mp h
  · obtain ⟨hm, hd, hle⟩ := h
    refine ⟨hm, hd, hle.trans ?_⟩
    have hdays : daysInMonth y m = monthLength (1900 + y) m := by
      have hdiv : (m - 1) / 12 = 0 := Nat.div_eq_of_lt (by omega)
      have hmod : (m - 1) % 12 + 1 = m := by omega
      unfold daysInMonth
      dsimp only
      rw [if_neg (by omega), if_pos (by omega), hdiv, hmod, Nat.add_zero]
    have hleap : isLeap (1900 + y) = true → isLeap y = true := by
      rw [isLeap_iff, isLeap_iff]
      omega
    rw [hdays]
    unfold monthLength
    split_ifs with h2 h1 h1' <;> first | omega | exact absurd (hleap h1) h1'

theorem normaliseYear_ge (y : ℕ) : 100 ≤ normaliseYear y := by
  unfold normaliseYear
  split_ifs <;> omega

/-- A century that is added changes no month. -/
theorem isDay_normaliseYear : IsDay (normaliseYear y) m d ↔ IsDay y m d := by
  have hleap : isLeap (normaliseYear y) = isLeap y := by
    rw [Bool.eq_iff_iff, isLeap_iff, isLeap_iff]
    unfold normaliseYear
    split_ifs <;> omega
  unfold IsDay
  rw [monthLength_congr hleap]

/-! ## How cells are read -/

theorem SlashDate.trim_ne_nil (h : SlashDate value first second year) : trim value ≠ [] := by
  obtain ⟨m, m', -, -, htext⟩ := h.text
  rw [htext]
  simp

theorem IsoDate.trim_ne_nil (h : IsoDate value year month day) : trim value ≠ [] := by
  obtain ⟨rest, -, htext⟩ := h.text
  rw [htext]
  simp

theorem SlashDate.parseDate_eq (h : SlashDate value first second year) (dayFirst : Bool) : parseDate value dayFirst =
    if dayFirst = true ∨ 12 < numberOf first then dateOf (normaliseYear (numberOf year)) (numberOf second) (numberOf first)
    else dateOf (normaliseYear (numberOf year)) (numberOf first) (numberOf second) := by
  have hassemble : ∀ m d, assemble (normaliseYear (numberOf year)) m d = dateOf (normaliseYear (numberOf year)) m d := by
    intro m d
    rw [assemble_eq]
    exact if_congr (accepted_iff (normaliseYear_ge _)) rfl rfl
  unfold parseDate
  simp only [if_neg h.trim_ne_nil, h.not_iso, h.parts, hassemble]
  by_cases hswap : dayFirst = true ∨ 12 < numberOf first
  · have hbool : (dayFirst || decide (12 < numberOf first)) = true := by simpa using hswap
    simp only [hbool, if_pos hswap, if_true]
  · have hbool : ¬ (dayFirst || decide (12 < numberOf first)) = true := by simpa using hswap
    simp only [if_neg hbool, if_neg hswap]

theorem IsoDate.parseDate_eq (h : IsoDate value year month day) (dayFirst : Bool) :
    parseDate value dayFirst = assemble (numberOf year) (numberOf month) (numberOf (day.take 2)) := by
  unfold parseDate
  simp only [if_neg h.trim_ne_nil, h.parts]

/-- What is read is an ISO date or a slash date. -/
theorem parseDate_cases {dayFirst : Bool} (h : parseDate value dayFirst = some s) :
    (∃ year month day, IsoDate value year month day) ∨ ∃ first second year, SlashDate value first second year := by
  unfold parseDate at h
  dsimp only at h
  split_ifs at h
  split at h
  · next hiso =>
    obtain ⟨year, month, day, hdate, -⟩ := exists_isoDate hiso
    exact Or.inl ⟨year, month, day, hdate⟩
  · split at h
    · next hslash =>
      obtain ⟨first, second, year, hdate, -⟩ := exists_slashDate hslash
      exact Or.inr ⟨first, second, year, hdate⟩
    · cases h

/-! ## The dates that are written -/

/-- The year that a year's digits stand for; a year of two digits is expanded. -/
def yearOf (year : JsString) : ℕ := if year.length = 2 then normaliseYear (numberOf year) else numberOf year

theorem isDay_yearOf : IsDay (yearOf year) m d ↔ IsDay (numberOf year) m d := by
  unfold yearOf
  split_ifs
  · exact isDay_normaliseYear
  · exact Iff.rfl

theorem yearOf_eq (h : year.length = 2 ∨ 100 ≤ numberOf year) : yearOf year = normaliseYear (numberOf year) := by
  unfold yearOf
  rcases h with h | h
  · rw [if_pos h]
  · unfold normaliseYear
    rw [if_pos h, ite_self]

/-- Years are the same if there is such a day at all. -/
theorem dateOf_yearOf (h : IsDay (numberOf year) m d → yearOf year = normaliseYear (numberOf year)) :
    dateOf (normaliseYear (numberOf year)) m d = dateOf (yearOf year) m d := by
  by_cases hday : IsDay (numberOf year) m d
  · rw [h hday]
  · unfold dateOf
    rw [if_neg (fun h => hday (isDay_normaliseYear.mp h)), if_neg (fun h => hday (isDay_yearOf.mp h))]

theorem dateOf_eq_some (h : dateOf y m d = some s) : IsDay y m d ∧ s = format y m d := by
  unfold dateOf at h
  split_ifs at h with hday
  exact ⟨hday, (Option.some.inj h).symm⟩

theorem dateOf_eq_none_of_month (h : 12 < m) : dateOf y m d = none := if_neg (fun hday => absurd hday.1.2 (not_le.mpr h))

theorem dateOf_eq_none_of_day (h : 31 < d) : dateOf y m d = none := by
  refine if_neg (fun hday => ?_)
  have hle := hday.2.2
  unfold monthLength at hle
  split_ifs at hle <;> omega

theorem IsDay.exists_date (h : IsDay y m d) : ∃ c : CalendarDate, c.text = format y m d ∧ c.month / 12 = y ∧
    c.month % 12 + 1 = m ∧ c.day = d := by
  obtain ⟨⟨h1, h12⟩, hd, hle⟩ := h
  have hy : (y * 12 + (m - 1)) / 12 = y := by omega
  have hm : (y * 12 + (m - 1)) % 12 + 1 = m := by omega
  refine ⟨⟨y * 12 + (m - 1), d, hd, ?_⟩, ?_, hy, hm, rfl⟩
  · unfold monthDays
    rw [hy, hm]
    exact hle
  · unfold CalendarDate.text
    dsimp only
    rw [hy, hm]

/-- A date's text is of one year, month and day, if its year has four digits. -/
theorem IsDay.unique (h : IsDay y m d) (hy : y < 10000) {c : CalendarDate} (htext : format y m d = c.text) :
    c.month / 12 = y ∧ c.month % 12 + 1 = m ∧ c.day = d := by
  obtain ⟨c', htext', hyear, hmonth, hday⟩ := h.exists_date
  have heq : c.text = c'.text := htext.symm.trans htext'.symm
  obtain rfl := eq_of_text_eq (by omega) heq
  exact ⟨hyear, hmonth, hday⟩

/-- The years, months and days that can be read off a cell. -/
inductive Written (value : JsString) : ℕ → ℕ → ℕ → Prop
  | iso {year month day : JsString} (h : IsoDate value year month day) :
      Written value (numberOf year) (numberOf month) (numberOf day)
  | dayFirst {first second year : JsString} (h : SlashDate value first second year) :
      Written value (yearOf year) (numberOf second) (numberOf first)
  | monthFirst {first second year : JsString} (h : SlashDate value first second year) :
      Written value (yearOf year) (numberOf first) (numberOf second)

/-- A component that can only be a day. -/
def OnlyDay (s : JsString) : Prop := 12 < numberOf s ∧ numberOf s ≤ 31

instance : Decidable (OnlyDay s) := inferInstanceAs (Decidable (_ ∧ _))

/-- A cell is read as what is written in it, and either way where it can be read in one way only. -/
structure ReadsRight (value : JsString) : Prop where
  first_day : ∀ first second year, SlashDate value first second year → OnlyDay first → ¬ OnlyDay second →
    ∀ dayFirst, parseDate value dayFirst = dateOf (yearOf year) (numberOf second) (numberOf first)
  second_day : ∀ first second year, SlashDate value first second year → OnlyDay second → ¬ OnlyDay first →
    ∀ dayFirst, parseDate value dayFirst = dateOf (yearOf year) (numberOf first) (numberOf second)
  ambiguous : ∀ first second year, SlashDate value first second year → numberOf first ≤ 12 → numberOf second ≤ 12 →
    parseDate value true = dateOf (yearOf year) (numberOf second) (numberOf first) ∧
    parseDate value false = dateOf (yearOf year) (numberOf first) (numberOf second)
  iso : ∀ year month day, IsoDate value year month day → parseDate value true = parseDate value false
  real : ∀ dayFirst s, parseDate value dayFirst = some s →
    ∃ c : CalendarDate, s = c.text ∧ Written value (c.month / 12) (c.month % 12 + 1) c.day

/-- No day that is a day stands second, no year of three or four digits is below 100, and no ISO day is cut short. -/
structure Unmistakable (value : JsString) : Prop where
  second : ∀ first second year, SlashDate value first second year → 12 < numberOf second →
    ¬ IsDay (yearOf year) (numberOf first) (numberOf second)
  year : ∀ first second year, SlashDate value first second year → year.length ≠ 2 → numberOf year < 100 →
    ¬ IsDay (numberOf year) (numberOf second) (numberOf first) ∧ ¬ IsDay (numberOf year) (numberOf first) (numberOf second)
  day : ∀ year month day, IsoDate value year month day → 2 < day.length →
    ¬ Accepted (numberOf year) (numberOf month) (numberOf (day.take 2))

theorem numberOf_lt (hs : AllDigits s) : numberOf s < 10 ^ s.length := by
  unfold numberOf
  rw [← List.length_map (fun c : CodeUnit => c.val - 48)]
  refine value_lt _ _ rfl (fun c hc => ?_)
  obtain ⟨u, hu, rfl⟩ := List.mem_map.mp hc
  have hdigit := hs u hu
  have hhigh : (unit '9').val = 57 := rfl
  unfold isDigit at hdigit
  simp only [Bool.and_eq_true, decide_eq_true_eq, Fin.le_def] at hdigit
  omega

theorem SlashDate.year_lt (h : SlashDate value first second year) : normaliseYear (numberOf year) < 10000 := by
  have hlt := numberOf_lt h.year_digits
  have hpow : 10 ^ year.length ≤ 10 ^ 4 := Nat.pow_le_pow_right (by omega) h.year_length.2
  unfold normaliseYear
  split_ifs <;> omega

theorem IsoDate.year_lt (h : IsoDate value year month day) : numberOf year < 10000 := by
  have hlt := numberOf_lt h.year_digits
  rw [h.year_length] at hlt
  exact hlt

/-- Digits that are cut off change a number. -/
theorem numberOf_take_ne (hlen : 2 < day.length) (hpos : 1 ≤ numberOf (day.take 2)) : numberOf day ≠ numberOf (day.take 2) := by
  have hsplit : numberOf day = numberOf (day.take 2) * 10 ^ (day.drop 2).length + numberOf (day.drop 2) := by
    unfold numberOf
    rw [← List.length_map (fun c : CodeUnit => c.val - 48), ← value_concat, ← List.map_append, List.take_append_drop]
  have hten : 10 ^ 1 ≤ 10 ^ (day.drop 2).length := by
    refine Nat.pow_le_pow_right (by omega) ?_
    rw [List.length_drop]
    omega
  have hmul := Nat.mul_le_mul_left (numberOf (day.take 2)) hten
  omega

/-! ## When cells are read right -/

/-- What a slash date is read as has a month and a day that are written, and the year that its digits are taken for. -/
theorem SlashDate.read (h : SlashDate value first second year) {dayFirst : Bool} (hs : parseDate value dayFirst = some s) :
    (IsDay (numberOf year) (numberOf second) (numberOf first) ∧
      s = format (normaliseYear (numberOf year)) (numberOf second) (numberOf first)) ∨
    (IsDay (numberOf year) (numberOf first) (numberOf second) ∧
      s = format (normaliseYear (numberOf year)) (numberOf first) (numberOf second)) := by
  rw [h.parseDate_eq] at hs
  split_ifs at hs
  · obtain ⟨hday, rfl⟩ := dateOf_eq_some hs
    exact Or.inl ⟨isDay_normaliseYear.mp hday, rfl⟩
  · obtain ⟨hday, rfl⟩ := dateOf_eq_some hs
    exact Or.inr ⟨isDay_normaliseYear.mp hday, rfl⟩

theorem IsoDate.read (h : IsoDate value year month day) {dayFirst : Bool} (hs : parseDate value dayFirst = some s) :
    Accepted (numberOf year) (numberOf month) (numberOf (day.take 2)) ∧
    s = format (numberOf year) (numberOf month) (numberOf (day.take 2)) := by
  rw [h.parseDate_eq, assemble_eq] at hs
  split_ifs at hs with hday
  exact ⟨hday, (Option.some.inj hs).symm⟩

/-- The year that is read is the year that is written. -/
theorem Unmistakable.yearOf_eq (h : Unmistakable value) (hdate : SlashDate value first second year)
    (hday : IsDay (numberOf year) (numberOf second) (numberOf first) ∨
      IsDay (numberOf year) (numberOf first) (numberOf second)) : yearOf year = normaliseYear (numberOf year) := by
  refine Import.yearOf_eq ?_
  by_contra hshort
  obtain ⟨hlen, hsmall⟩ := not_or.mp hshort
  obtain ⟨hsecond, hfirst⟩ := h.year first second year hdate hlen (not_le.mp hsmall)
  exact hday.elim hsecond hfirst

theorem Unmistakable.real (h : Unmistakable value) {dayFirst : Bool} (hs : parseDate value dayFirst = some s) :
    ∃ c : CalendarDate, s = c.text ∧ Written value (c.month / 12) (c.month % 12 + 1) c.day := by
  rcases parseDate_cases hs with ⟨year, month, day, hdate⟩ | ⟨first, second, year, hdate⟩
  · obtain ⟨hday, rfl⟩ := hdate.read hs
    obtain ⟨c, htext, hy, hm, hd⟩ := hday.isDay.exists_date
    have hlen : day.length ≤ 2 := by
      by_contra hlong
      exact h.day year month day hdate (not_le.mp hlong) hday
    rw [List.take_of_length_le hlen] at hd
    refine ⟨c, htext.symm, ?_⟩
    rw [hy, hm, hd]
    exact Written.iso hdate
  · rcases hdate.read hs with ⟨hday, rfl⟩ | ⟨hday, rfl⟩
    · have hyear := h.yearOf_eq hdate (Or.inl hday)
      obtain ⟨c, htext, hy, hm, hd⟩ := (isDay_normaliseYear.mpr hday).exists_date
      refine ⟨c, htext.symm, ?_⟩
      rw [hy, hm, hd, ← hyear]
      exact Written.dayFirst hdate
    · have hyear := h.yearOf_eq hdate (Or.inr hday)
      obtain ⟨c, htext, hy, hm, hd⟩ := (isDay_normaliseYear.mpr hday).exists_date
      refine ⟨c, htext.symm, ?_⟩
      rw [hy, hm, hd, ← hyear]
      exact Written.monthFirst hdate

/-- The day that stands second is read under neither convention, or is no day. -/
theorem Unmistakable.second_day (h : Unmistakable value) (hdate : SlashDate value first second year)
    (hsecond : OnlyDay second) (dayFirst : Bool) :
    parseDate value dayFirst = dateOf (yearOf year) (numberOf first) (numberOf second) := by
  have hnone : dateOf (yearOf year) (numberOf first) (numberOf second) = none :=
    if_neg (h.second first second year hdate hsecond.1)
  have hnone' : dateOf (normaliseYear (numberOf year)) (numberOf first) (numberOf second) = none :=
    if_neg (fun hday => h.second first second year hdate hsecond.1 (isDay_yearOf.mpr (isDay_normaliseYear.mp hday)))
  rw [hdate.parseDate_eq, hnone, hnone', dateOf_eq_none_of_month hsecond.1, ite_self]

theorem Unmistakable.readsRight (h : Unmistakable value) : ReadsRight value where
  first_day first second year hdate hfirst hsecond dayFirst := by
    rw [hdate.parseDate_eq, if_pos (Or.inr hfirst.1)]
    exact dateOf_yearOf (fun hday => h.yearOf_eq hdate (Or.inl hday))
  second_day first second year hdate hsecond _ dayFirst := h.second_day hdate hsecond dayFirst
  ambiguous first second year hdate hfirst hsecond := by
    rw [hdate.parseDate_eq, if_pos (Or.inl rfl), hdate.parseDate_eq, if_neg (by simpa using hfirst)]
    exact ⟨dateOf_yearOf (fun hday => h.yearOf_eq hdate (Or.inl hday)),
      dateOf_yearOf (fun hday => h.yearOf_eq hdate (Or.inr hday))⟩
  iso year month day hdate := by rw [hdate.parseDate_eq, hdate.parseDate_eq]
  real dayFirst s hs := h.real hs

/-- A day that stands second is missed if the file is said to be day-first. -/
theorem ReadsRight.not_isDay (h : ReadsRight value) (hdate : SlashDate value first second year)
    (hlarge : 12 < numberOf second) : ¬ IsDay (yearOf year) (numberOf first) (numberOf second) := by
  intro hday
  have h31 : numberOf second ≤ 31 := by
    by_contra hover
    have hnone := dateOf_eq_none_of_day (y := yearOf year) (m := numberOf first) (not_le.mp hover)
    rw [dateOf, if_pos hday] at hnone
    cases hnone
  have hread := h.second_day first second year hdate ⟨hlarge, h31⟩ (fun hfirst => absurd hday.1.2 (not_le.mpr hfirst.1)) true
  rw [hdate.parseDate_eq, if_pos (Or.inl rfl), dateOf_eq_none_of_month hlarge, dateOf, if_pos hday] at hread
  cases hread

/-- A written year is no other than the one that is read. -/
theorem ReadsRight.year_eq (h : ReadsRight value) (hdate : SlashDate value first second year) (dayFirst : Bool)
    (hday : IsDay (normaliseYear (numberOf year)) m d)
    (hs : parseDate value dayFirst = some (format (normaliseYear (numberOf year)) m d)) :
    yearOf year = normaliseYear (numberOf year) := by
  obtain ⟨c, htext, hwritten⟩ := h.real dayFirst _ hs
  obtain ⟨hy, -, -⟩ := hday.unique hdate.year_lt htext
  rw [← hy]
  generalize c.month / 12 = y at hwritten
  generalize c.month % 12 + 1 = k at hwritten
  generalize c.day = e at hwritten
  cases hwritten with
  | iso h' => exact absurd h' hdate.not_isoDate
  | dayFirst h' => rw [(hdate.unique h').2.2]
  | monthFirst h' => rw [(hdate.unique h').2.2]

theorem ReadsRight.year_whole (h : ReadsRight value) (hdate : SlashDate value first second year) (hlen : year.length ≠ 2)
    (hsmall : numberOf year < 100) : ¬ IsDay (numberOf year) (numberOf second) (numberOf first) ∧
    ¬ IsDay (numberOf year) (numberOf first) (numberOf second) := by
  have hne : yearOf year ≠ normaliseYear (numberOf year) := by
    have hge := normaliseYear_ge (numberOf year)
    unfold yearOf
    rw [if_neg hlen]
    omega
  refine ⟨fun hday => hne ?_, fun hday => hne ?_⟩
  · have hday' := isDay_normaliseYear.mpr hday
    refine h.year_eq hdate true hday' ?_
    rw [hdate.parseDate_eq, if_pos (Or.inl rfl), dateOf, if_pos hday']
  · have hday' := isDay_normaliseYear.mpr hday
    refine h.year_eq hdate false hday' ?_
    rw [hdate.parseDate_eq, if_neg (by simpa using hday.1.2), dateOf, if_pos hday']

theorem ReadsRight.day_whole (h : ReadsRight value) (hdate : IsoDate value year month day) (hlen : 2 < day.length) :
    ¬ Accepted (numberOf year) (numberOf month) (numberOf (day.take 2)) := by
  intro hday
  have hs : parseDate value true = some (format (numberOf year) (numberOf month) (numberOf (day.take 2))) := by
    rw [hdate.parseDate_eq, assemble_eq, if_pos hday]
  obtain ⟨c, htext, hwritten⟩ := h.real true _ hs
  obtain ⟨-, -, hd⟩ := hday.isDay.unique hdate.year_lt htext
  refine numberOf_take_ne hlen hday.2.1 ?_
  rw [← hd]
  generalize c.month / 12 = y at hwritten
  generalize c.month % 12 + 1 = k at hwritten
  generalize c.day = e at hwritten
  cases hwritten with
  | iso h' => rw [(hdate.unique h').2.2]
  | dayFirst h' => exact absurd hdate h'.not_isoDate
  | monthFirst h' => exact absurd hdate h'.not_isoDate

/-- Cells are read right, but for days that stand second, years that are not spelled out and days of too many digits. -/
theorem readsRight_iff (value : JsString) : ReadsRight value ↔ Unmistakable value :=
  ⟨fun h => ⟨fun _ _ _ hdate hlarge => h.not_isDay hdate hlarge, fun _ _ _ hdate hlen hsmall => h.year_whole hdate hlen hsmall,
    fun _ _ _ hdate hlen => h.day_whole hdate hlen⟩, fun h => h.readsRight⟩

/-- The thirteenth of January, in a file that is said to be day-first, is no date at all. -/
theorem exists_not_readsRight : ∃ value, ¬ ReadsRight value := by
  refine ⟨js "01/13/2024", fun h => ?_⟩
  have hdate : SlashDate (js "01/13/2024") (js "01") (js "13") (js "2024") :=
    ⟨by decide, by decide, by decide, by decide, by decide, by decide, unit '/', unit '/', rfl, rfl, by decide⟩
  have hread := h.second_day _ _ _ hdate (by decide) (by decide)
  exact absurd ((hread true).trans (hread false).symm) (by decide)

end Import

end EasyDocket
