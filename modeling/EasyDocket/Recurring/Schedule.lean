import EasyDocket.Lib.Batches
import EasyDocket.Recurring.Fractions

/-!
# When a recurring rule falls due

The occurrences of a schedule are measured from its start.  `occurrencesUpTo` scans them for those that are due, past a
date and up to a limit.  Where the interval is whole they are strictly increasing dates, and batches that resume where the
last one ended make up the schedule; an interval that is not whole gives texts that are no dates, and the scan may stop at
one of them.
-/

namespace EasyDocket

namespace Recurring

open Books Batches

inductive RecurrenceUnit
  | day
  | week
  | month
  | year
  deriving DecidableEq

structure Schedule where
  interval : ℚ
  unit : RecurrenceUnit
  startDate : JsString
  endDate : Option JsString
  maxOccurrences : Option ℚ
  skipped : List JsString

/-- How many new occurrences one materialisation run will create. -/
def MAX_OCCURRENCES_PER_RUN : ℕ := 500

/-- How far the generator will walk looking for new occurrences. -/
def MAX_SCAN : ℕ := 25000

/-- `occurrenceAt`: the date of the nth occurrence, counting from zero. -/
def occurrenceAt (schedule : Schedule) (index : ℕ) : Except DateError JsString :=
  let step := schedule.interval * index
  match schedule.unit with
  | .day => addDaysBy schedule.startDate step
  | .week => addDaysBy schedule.startDate (step * 7)
  | .month => addMonthsBy schedule.startDate step
  | .year => addMonthsBy schedule.startDate (step * 12)

/-- `withinLimits`. -/
def withinLimits (schedule : Schedule) (index : ℕ) (date : JsString) : Bool :=
  !schedule.maxOccurrences.any (fun most => most ≤ (index : ℚ)) && !schedule.endDate.any (fun last => last < date)

/-- The loop of `occurrencesUpTo`, with what is left of its bound. -/
def scan (schedule : Schedule) (asOf : JsString) (limit : ℕ) (after : Option JsString) :
    ℕ → ℕ → List JsString → Except DateError (List JsString)
  | 0, _, dates => pure dates
  | left + 1, index, dates => do
    let date ← occurrenceAt schedule index
    if asOf < date then pure dates
    else if !withinLimits schedule index date then pure dates
    else if after.any (fun last => date ≤ last) then scan schedule asOf limit after left (index + 1) dates
    else if date ∈ schedule.skipped then scan schedule asOf limit after left (index + 1) dates
    else if limit ≤ (dates ++ [date]).length then pure (dates ++ [date])
    else scan schedule asOf limit after left (index + 1) (dates ++ [date])

/-- `occurrencesUpTo`: occurrences from the rule's start up to and including `asOf`, past `after`. -/
def occurrencesUpTo (schedule : Schedule) (asOf : JsString) (limit : ℕ) (after : Option JsString) :
    Except DateError (List JsString) :=
  if schedule.interval < 1 ∨ limit < 1 then pure [] else scan schedule asOf limit after MAX_SCAN 0 []

/-! ## Steps -/

/-- Days and weeks are counted in days, months and years in months. -/
def Schedule.inDays (schedule : Schedule) : Bool := schedule.unit = .day || schedule.unit = .week

/-- The days or months from the start to the nth occurrence. -/
def Schedule.steps (schedule : Schedule) (n : ℕ) : ℚ :=
  match schedule.unit with
  | .day => schedule.interval * n
  | .week => schedule.interval * n * 7
  | .month => schedule.interval * n
  | .year => schedule.interval * n * 12

/-- The nth occurrence is a date: of months there is no fraction. -/
def Schedule.WholeAt (schedule : Schedule) (n : ℕ) : Prop := schedule.inDays = true ∨ Int.fract (schedule.steps n) = 0

/-- The interval is whole, in months where it is one of months or years. -/
def Schedule.Whole (schedule : Schedule) : Prop := schedule.inDays = true ∨ Int.fract (schedule.steps 1) = 0

/-- The nth occurrence, or the last date before it. -/
def dateOf (schedule : Schedule) (c : CalendarDate) (n : ℕ) : CalendarDate :=
  if schedule.inDays then c.addDays ⌊schedule.steps n⌋ else c.addMonths ⌊schedule.steps n⌋

/-- What is written for the nth occurrence. -/
def dateText (schedule : Schedule) (c : CalendarDate) (n : ℕ) : JsString :=
  if schedule.inDays then (dateOf schedule c n).text else formatMonths (c.month + schedule.steps n) c.day

/-- A schedule that starts on a date of the calendar. -/
structure Begins (schedule : Schedule) (c : CalendarDate) : Prop where
  date : schedule.startDate = c.text
  plain : c.Plain
  interval : 1 ≤ schedule.interval

variable {schedule : Schedule} {c : CalendarDate} {asOf : JsString} {limit n m N K : ℕ} {after : Option JsString}

theorem steps_zero (schedule : Schedule) : schedule.steps 0 = 0 := by
  unfold Schedule.steps
  cases schedule.unit <;> simp

theorem steps_eq (schedule : Schedule) (n : ℕ) : schedule.steps n = schedule.steps 1 * n := by
  unfold Schedule.steps
  cases schedule.unit <;> dsimp only <;> push_cast <;> ring

/-- Occurrences are a day or a month apart at least. -/
theorem steps_succ (h : 1 ≤ schedule.interval) (n : ℕ) : schedule.steps n + 1 ≤ schedule.steps (n + 1) := by
  have hone : 1 ≤ schedule.steps 1 := by
    unfold Schedule.steps
    cases schedule.unit <;> dsimp only <;> push_cast <;> linarith
  rw [steps_eq schedule n, steps_eq schedule (n + 1)]
  push_cast
  linarith

theorem floor_steps_lt (h : 1 ≤ schedule.interval) (n : ℕ) : ⌊schedule.steps n⌋ < ⌊schedule.steps (n + 1)⌋ := by
  have hle := Int.floor_mono (steps_succ h n)
  rw [Int.floor_add_one] at hle
  omega

theorem floor_steps_nonneg (h : 1 ≤ schedule.interval) (n : ℕ) : 0 ≤ ⌊schedule.steps n⌋ := by
  induction n with
  | zero => rw [steps_zero, Int.floor_zero]
  | succ n ih => exact ih.trans (floor_steps_lt h n).le

theorem Schedule.Whole.at (h : schedule.Whole) (n : ℕ) : schedule.WholeAt n := by
  refine h.imp_right (fun hfract => ?_)
  rw [Int.fract_eq_iff] at hfract ⊢
  obtain ⟨-, -, z, hz⟩ := hfract
  refine ⟨le_refl 0, zero_lt_one, z * n, ?_⟩
  rw [sub_zero] at hz ⊢
  rw [steps_eq, hz]
  push_cast
  rfl

theorem Begins.strictMono (h : Begins schedule c) : StrictMono (dateOf schedule c) := by
  refine strictMono_nat_of_lt_succ (fun n => ?_)
  have hlt := floor_steps_lt h.interval n
  have hpos := floor_steps_nonneg h.interval n
  unfold dateOf
  by_cases hdays : schedule.inDays = true
  · rw [if_pos hdays, if_pos hdays, CalendarDate.lt_iff, CalendarDate.ordinal_addDays, CalendarDate.ordinal_addDays]
    omega
  · rw [if_neg hdays, if_neg hdays]
    refine CalendarDate.lt_iff_month.mpr (Or.inl ?_)
    show (c.month + ⌊schedule.steps n⌋).toNat < (c.month + ⌊schedule.steps (n + 1)⌋).toNat
    omega

theorem Begins.month_mono (h : Begins schedule c) (hnm : n ≤ m) : (dateOf schedule c n).month ≤ (dateOf schedule c m).month :=
  CalendarDate.month_mono (h.strictMono.monotone hnm)

theorem occurrenceAt_eq (schedule : Schedule) (n : ℕ) : occurrenceAt schedule n =
    if schedule.inDays then addDaysBy schedule.startDate (schedule.steps n)
    else addMonthsBy schedule.startDate (schedule.steps n) := by
  unfold occurrenceAt Schedule.inDays Schedule.steps
  cases schedule.unit <;> rfl

theorem occurrenceAt_text (h : Begins schedule c) (n : ℕ) : occurrenceAt schedule n = .ok (dateText schedule c n) := by
  rw [occurrenceAt_eq, h.date]
  unfold dateText dateOf
  by_cases hdays : schedule.inDays = true
  · rw [if_pos hdays, if_pos hdays, if_pos hdays]
    exact addDays_text h.plain _
  · rw [if_neg hdays, if_neg hdays]
    exact addMonthsBy_text h.plain.lt _

/-- At whole steps, what is written is the date. -/
theorem dateText_eq (h : Begins schedule c) (hn : schedule.WholeAt n) : dateText schedule c n = (dateOf schedule c n).text := by
  unfold dateText
  by_cases hdays : schedule.inDays = true
  · rw [if_pos hdays]
  · have hfract := hn.resolve_left hdays
    have hpos := floor_steps_nonneg h.interval n
    have hsteps : schedule.steps n = ((⌊schedule.steps n⌋.toNat : ℕ) : ℚ) := by
      have hfloor := Int.floor_add_fract (schedule.steps n)
      rw [hfract, add_zero] at hfloor
      rw [← Int.cast_natCast, Int.toNat_of_nonneg hpos, hfloor]
    unfold dateOf
    rw [if_neg hdays, if_neg hdays]
    conv_lhs => rw [hsteps]
    rw [formatMonths_text h.plain.ge, Int.toNat_of_nonneg hpos]

/-- What is written for an occurrence is a date at whole steps only. -/
theorem isMatch_dateText (h : Begins schedule c) (hlt : (dateOf schedule c n).month < 120000) :
    datePattern.isMatch (dateText schedule c n) = true ↔ schedule.WholeAt n := by
  constructor
  · intro hmatch
    by_contra hn
    obtain ⟨hdays, hfract⟩ := not_or.mp hn
    unfold dateText at hmatch
    rw [if_neg hdays, formatMonths_not_date] at hmatch
    · cases hmatch
    · rwa [← Int.cast_natCast, Int.fract_intCast_add]
  · intro hn
    rw [dateText_eq h hn, CalendarDate.text_eq hlt]
    exact datePattern_iso _ _

theorem dateText_lt (h : Begins schedule c) (hn : schedule.WholeAt n) (hm : schedule.WholeAt m)
    (hlt : (dateOf schedule c m).month < 120000) (hnm : n < m) : dateText schedule c n < dateText schedule c m := by
  have hmonth := h.month_mono hnm.le
  rw [dateText_eq h hn, dateText_eq h hm]
  exact (CalendarDate.text_lt_iff (by omega) hlt).mpr (h.strictMono hnm)

theorem dateText_inj (h : Begins schedule c) (hn : schedule.WholeAt n) (hm : schedule.WholeAt m)
    (hltn : (dateOf schedule c n).month < 120000) (hltm : (dateOf schedule c m).month < 120000)
    (heq : dateText schedule c n = dateText schedule c m) : n = m := by
  rcases lt_trichotomy n m with hlt | rfl | hlt
  · exact absurd heq (dateText_lt h hn hm hltm hlt).ne
  · rfl
  · exact absurd heq (dateText_lt h hm hn hltn hlt).ne'

theorem dateText_le (h : Begins schedule c) (hw : schedule.Whole) (hlt : (dateOf schedule c m).month < 120000) (hnm : n ≤ m) :
    dateText schedule c n ≤ dateText schedule c m := by
  rcases Nat.lt_or_eq_of_le hnm with hnm | rfl
  · exact (dateText_lt h (hw.at n) (hw.at m) hlt hnm).le
  · exact le_refl _

/-! ## What is due -/

/-- The nth occurrence is written so, and is one that the rule has: the cap comes after it, the end not before it, and it is
not skipped. -/
structure Occurs (schedule : Schedule) (n : ℕ) (date : JsString) : Prop where
  text : occurrenceAt schedule n = .ok date
  cap : ∀ most, schedule.maxOccurrences = some most → (n : ℚ) < most
  ends : ∀ last, schedule.endDate = some last → date ≤ last
  kept : date ∉ schedule.skipped

structure Due (schedule : Schedule) (asOf : JsString) (n : ℕ) (date : JsString) : Prop extends Occurs schedule n date where
  upTo : date ≤ asOf

/-- An occurrence is within the limits, and not skipped. -/
def isOpen (schedule : Schedule) (c : CalendarDate) (n : ℕ) : Bool :=
  withinLimits schedule n (dateText schedule c n) && dateText schedule c n ∉ schedule.skipped

/-- Of the first `N` occurrences of a schedule, those within the limits that are not skipped. -/
def openDates (schedule : Schedule) (c : CalendarDate) (N : ℕ) : List JsString :=
  ((List.range N).filter (isOpen schedule c)).map (dateText schedule c)

theorem withinLimits_iff {date : JsString} : withinLimits schedule n date = true ↔
    (∀ most, schedule.maxOccurrences = some most → (n : ℚ) < most) ∧ ∀ last, schedule.endDate = some last → date ≤ last := by
  unfold withinLimits
  cases schedule.maxOccurrences <;> cases schedule.endDate <;> simp

theorem occurs_iff (h : Begins schedule c) {date : JsString} :
    Occurs schedule n date ↔ date = dateText schedule c n ∧ isOpen schedule c n = true := by
  unfold isOpen
  rw [Bool.and_eq_true, decide_eq_true_eq, withinLimits_iff]
  constructor
  · rintro ⟨hdate, hcap, hends, hkept⟩
    rw [occurrenceAt_text h] at hdate
    cases hdate
    exact ⟨rfl, ⟨hcap, hends⟩, hkept⟩
  · rintro ⟨rfl, ⟨hcap, hends⟩, hkept⟩
    exact ⟨occurrenceAt_text h n, hcap, hends, hkept⟩

theorem due_iff (h : Begins schedule c) {date : JsString} : Due schedule asOf n date ↔
    date = dateText schedule c n ∧ dateText schedule c n ≤ asOf ∧ isOpen schedule c n = true := by
  constructor
  · rintro ⟨hoccurs, hupTo⟩
    obtain ⟨rfl, hopen⟩ := (occurs_iff h).mp hoccurs
    exact ⟨rfl, hupTo, hopen⟩
  · rintro ⟨rfl, hupTo, hopen⟩
    exact ⟨(occurs_iff h).mpr ⟨rfl, hopen⟩, hupTo⟩

/-- Past the limits, there is nothing within them. -/
theorem withinLimits_antitone (h : Begins schedule c) (hw : schedule.Whole) (hm : (dateOf schedule c m).month < 120000)
    (hnm : n ≤ m) (hin : withinLimits schedule m (dateText schedule c m) = true) :
    withinLimits schedule n (dateText schedule c n) = true := by
  obtain ⟨hcap, hends⟩ := withinLimits_iff.mp hin
  refine withinLimits_iff.mpr ⟨fun most hmost => lt_of_le_of_lt ?_ (hcap most hmost),
    fun last hlast => (dateText_le h hw hm hnm).trans (hends last hlast)⟩
  exact_mod_cast hnm

/-- Occurrences that are dates are increasing. -/
theorem openDates_pairwise (h : Begins schedule c) (hlt : ∀ n < N, (dateOf schedule c n).month < 120000)
    (hwhole : ∀ n < N, isOpen schedule c n = true → schedule.WholeAt n) : (openDates schedule c N).Pairwise (· < ·) := by
  unfold openDates
  refine List.pairwise_map.mpr (List.Pairwise.imp_of_mem ?_ (List.pairwise_lt_range.filter _))
  intro n m hn hm hnm
  obtain ⟨hnN, hopen⟩ := List.mem_filter.mp hn
  obtain ⟨hmN, hopen'⟩ := List.mem_filter.mp hm
  rw [List.mem_range] at hnN hmN
  exact dateText_lt h (hwhole n hnN hopen) (hwhole m hmN hopen') (hlt m hmN) hnm

theorem mem_openDates {date : JsString} :
    date ∈ openDates schedule c N ↔ ∃ n < N, date = dateText schedule c n ∧ isOpen schedule c n = true := by
  unfold openDates
  rw [List.mem_map]
  constructor
  · rintro ⟨n, hn, rfl⟩
    obtain ⟨hlt, hopen⟩ := List.mem_filter.mp hn
    exact ⟨n, List.mem_range.mp hlt, rfl, hopen⟩
  · rintro ⟨n, hlt, rfl, hopen⟩
    exact ⟨n, List.mem_filter.mpr ⟨List.mem_range.mpr hlt, hopen⟩, rfl⟩

/-! ## The scan -/

/-- The scan goes past an occurrence. -/
def Scanned (schedule : Schedule) (c : CalendarDate) (asOf : JsString) (n : ℕ) : Prop :=
  dateText schedule c n ≤ asOf ∧ withinLimits schedule n (dateText schedule c n) = true

/-- The scan comes to the occurrence `N`, and no further. -/
structure Scans (schedule : Schedule) (c : CalendarDate) (asOf : JsString) (N : ℕ) : Prop extends Begins schedule c where
  passes : ∀ n < N, Scanned schedule c asOf n
  stop : ¬ Scanned schedule c asOf N

/-- What the scan finds from an index on. -/
def found (schedule : Schedule) (c : CalendarDate) (after : Option JsString) (N index : ℕ) : List JsString :=
  ((List.range' index (N - index)).filter (fun n => isOpen schedule c n &&
    after.all (fun last => last < dateText schedule c n))).map (dateText schedule c)

theorem found_end : found schedule c after N N = [] := by
  unfold found
  rw [Nat.sub_self]
  rfl

theorem found_step (h : n < N) : found schedule c after N n =
    (if isOpen schedule c n && after.all (fun last => last < dateText schedule c n)
      then [dateText schedule c n] else []) ++ found schedule c after N (n + 1) := by
  have hlen : N - n = (N - (n + 1)) + 1 := by omega
  unfold found
  rw [hlen, List.range'_succ, List.filter_cons]
  split_ifs <;> rfl

theorem all_lt_eq (after : Option JsString) (date : JsString) :
    after.all (fun last => last < date) = !after.any (fun last => date ≤ last) := by
  cases after with
  | none => rfl
  | some last =>
    show decide (last < date) = !decide (date ≤ last)
    rw [← decide_not]
    exact decide_eq_decide.mpr not_le.symm

/-- A date that is found is the last one if there are enough then. -/
theorem scan_push {dates rest : List JsString} {date : JsString} {more : Except DateError (List JsString)}
    (hmore : (dates ++ [date]).length < limit →
      more = .ok ((dates ++ [date]) ++ rest.take (limit - (dates ++ [date]).length))) (hlen : dates.length < limit) :
    (if limit ≤ (dates ++ [date]).length then pure (dates ++ [date]) else more) =
      .ok (dates ++ ([date] ++ rest).take (limit - dates.length)) := by
  have hlength : (dates ++ [date]).length = dates.length + 1 := by simp
  by_cases hfull : limit ≤ (dates ++ [date]).length
  · have hone : limit - dates.length = 1 := by omega
    rw [if_pos hfull, hone]
    rfl
  · have hleft : limit - dates.length = limit - (dates ++ [date]).length + 1 := by omega
    rw [if_neg hfull, hmore (not_le.mp hfull), hleft, List.append_assoc]
    rfl

/-- What the loop returns, by induction on what is left of its bound. -/
theorem scan_eq (h : Scans schedule c asOf N) : ∀ (left index : ℕ) (dates : List JsString), dates.length < limit →
    index ≤ N → N ≤ index + left → scan schedule asOf limit after left index dates =
      .ok (dates ++ (found schedule c after N index).take (limit - dates.length))
  | 0, index, dates, _, hle, hN => by
    have heq : index = N := Nat.le_antisymm hle hN
    rw [heq, found_end, List.take_nil, List.append_nil]
    rfl
  | left + 1, index, dates, hlen, hle, hN => by
    unfold scan
    rw [occurrenceAt_text h.toBegins]
    show (if asOf < dateText schedule c index then _ else _) = _
    rcases Nat.lt_or_eq_of_le hle with hlt | rfl
    · obtain ⟨hdue, hin⟩ := h.passes index hlt
      rw [if_neg (not_lt.mpr hdue), hin, if_neg (by decide), found_step hlt]
      have ih := scan_eq h left (index + 1)
      have hpast : after.all (fun last => last < dateText schedule c index) =
          !after.any (fun last => dateText schedule c index ≤ last) := all_lt_eq _ _
      by_cases hafter : after.any (fun last => dateText schedule c index ≤ last) = true
      · rw [if_pos hafter, hpast, hafter, Bool.not_true, Bool.and_false]
        exact ih dates hlen hlt (by omega)
      · rw [if_neg hafter, hpast, Bool.eq_false_iff.mpr hafter, Bool.not_false, Bool.and_true]
        unfold isOpen
        rw [hin, Bool.true_and]
        by_cases hskipped : dateText schedule c index ∈ schedule.skipped
        · rw [if_pos hskipped, decide_eq_false (not_not.mpr hskipped), if_neg (by decide)]
          exact ih dates hlen hlt (by omega)
        · rw [if_neg hskipped, decide_eq_true hskipped, if_pos rfl]
          exact scan_push (fun hmore => ih _ hmore hlt (by omega)) hlen
    · rw [found_end, List.take_nil, List.append_nil]
      by_cases hpast : asOf < dateText schedule c index
      · rw [if_pos hpast]
        rfl
      · have hout : withinLimits schedule index (dateText schedule c index) = false :=
          Bool.eq_false_iff.mpr (fun hin => h.stop ⟨not_lt.mp hpast, hin⟩)
        rw [if_neg hpast, hout]
        rfl

theorem past_openDates (after : Option JsString) : past (openDates schedule c N) after = found schedule c after N 0 := by
  unfold openDates found
  rw [Nat.sub_zero, ← List.range_eq_range']
  cases after with
  | none => simp [past]
  | some last =>
    show ((List.range N).filter _ |>.map _).filter _ = _
    rw [List.filter_map, List.filter_filter]
    refine congrArg (List.map _) (List.filter_congr (fun n _ => ?_))
    rw [Bool.and_comm]
    exact congrArg (isOpen schedule c n && ·) (decide_eq_decide.mpr Iff.rfl)

/-- What the scan gives, past a date and up to a limit. -/
theorem occurrencesUpTo_eq (h : Scans schedule c asOf N) (hN : N ≤ MAX_SCAN) (hlimit : 1 ≤ limit) (after : Option JsString) :
    occurrencesUpTo schedule asOf limit after = .ok ((past (openDates schedule c N) after).take limit) := by
  have hinterval := h.interval
  unfold occurrencesUpTo
  rw [if_neg (not_or.mpr ⟨not_lt.mpr hinterval, by omega⟩), scan_eq h MAX_SCAN 0 [] hlimit (Nat.zero_le N) (by omega),
    past_openDates]
  rfl

/-! ## Schedules up to a day -/

/-- The scan stops at the occurrence `N` at the latest.  The ones before it are in the years 0100 to 9999, and no more than
the scan reaches are up to `asOf`. -/
structure UpTo (schedule : Schedule) (c : CalendarDate) (asOf : JsString) (N : ℕ) : Prop extends Begins schedule c where
  lt : ∀ n < N, (dateOf schedule c n).month < 120000
  few : ((List.range N).filter (fun n => dateText schedule c n ≤ asOf)).length ≤ MAX_SCAN
  stop : ¬ Scanned schedule c asOf N

/-- What is due is a whole number of months after the start where the rule counts in months, and nothing before it stops
the scan. -/
def Unhindered (schedule : Schedule) (c : CalendarDate) (asOf : JsString) : Prop :=
  ∀ n, (dateOf schedule c n).month < 120000 → dateText schedule c n ≤ asOf → isOpen schedule c n = true →
    schedule.WholeAt n ∧ ∀ m < n, Scanned schedule c asOf m

/-- A whole interval is in nobody's way. -/
theorem unhindered_of_whole (h : Begins schedule c) (hw : schedule.Whole) : Unhindered schedule c asOf := by
  intro n hlt hdue hopen
  have hin := (Bool.and_eq_true_iff.mp hopen).1
  exact ⟨hw.at n, fun m hm => ⟨(dateText_le h hw hlt hm.le).trans hdue, withinLimits_antitone h hw hlt hm.le hin⟩⟩

theorem upTo_of_few (h : Begins schedule c) (hlt : ∀ n < N, (dateOf schedule c n).month < 120000)
    (hN : N ≤ MAX_SCAN) (hstop : ¬ Scanned schedule c asOf N) : UpTo schedule c asOf N where
  toBegins := h
  lt := hlt
  few := ((List.length_filter_le _ _).trans (List.length_range).le).trans hN
  stop := hstop

/-- The scan comes to some occurrence within its bound. -/
theorem UpTo.exists_scans (h : UpTo schedule c asOf N) : ∃ K ≤ N, K ≤ MAX_SCAN ∧ Scans schedule c asOf K := by
  classical
  have hex : ∃ K, ¬ Scanned schedule c asOf K := ⟨N, h.stop⟩
  have hpasses : ∀ n < Nat.find hex, Scanned schedule c asOf n := fun n hn => not_not.mp (Nat.find_min hex hn)
  have hle : Nat.find hex ≤ N := Nat.find_min' hex h.stop
  refine ⟨Nat.find hex, hle, ?_, h.toBegins, hpasses, Nat.find_spec hex⟩
  have hall : (List.range (Nat.find hex)).filter (fun n => dateText schedule c n ≤ asOf) = List.range (Nat.find hex) :=
    List.filter_eq_self.mpr (fun n hn => decide_eq_true (hpasses n (List.mem_range.mp hn)).1)
  have hsub := ((List.range_sublist.mpr hle).filter (fun n => decide (dateText schedule c n ≤ asOf))).length_le
  rw [hall, List.length_range] at hsub
  exact hsub.trans h.few

/-- What is due is what the scan comes by. -/
theorem UpTo.due_iff_mem (h : UpTo schedule c asOf N) (hu : Unhindered schedule c asOf) (hK : K ≤ N)
    (hscans : Scans schedule c asOf K) {date : JsString} :
    date ∈ openDates schedule c K ↔ ∃ n, (dateOf schedule c n).month < 120000 ∧ Due schedule asOf n date := by
  rw [mem_openDates]
  constructor
  · rintro ⟨n, hn, rfl, hopen⟩
    exact ⟨n, h.lt n (by omega), (due_iff h.toBegins).mpr ⟨rfl, (hscans.passes n hn).1, hopen⟩⟩
  · rintro ⟨n, hlt, hdue⟩
    obtain ⟨rfl, hupTo, hopen⟩ := (due_iff h.toBegins).mp hdue
    have hin := (Bool.and_eq_true_iff.mp hopen).1
    refine ⟨n, ?_, rfl, hopen⟩
    by_contra hge
    rcases Nat.lt_or_eq_of_le (not_lt.mp hge) with hgt | rfl
    · exact hscans.stop ((hu n hlt hupTo hopen).2 K hgt)
    · exact hscans.stop ⟨hupTo, hin⟩

/-- What is due, and what the scan gives of it. -/
theorem UpTo.exists_due (h : UpTo schedule c asOf N) (hlimit : 1 ≤ limit) (hu : Unhindered schedule c asOf) :
    ∃ dates : List JsString, dates.Pairwise (· < ·) ∧ (∀ date ∈ dates, datePattern.isMatch date = true) ∧
      (∀ date, date ∈ dates ↔ ∃ n, (dateOf schedule c n).month < 120000 ∧ Due schedule asOf n date) ∧
      ∀ after, occurrencesUpTo schedule asOf limit after = .ok ((past dates after).take limit) := by
  obtain ⟨K, hK, hbound, hscans⟩ := h.exists_scans
  have hltK : ∀ n < K, (dateOf schedule c n).month < 120000 := fun n hn => h.lt n (by omega)
  have hwhole : ∀ n < K, isOpen schedule c n = true → schedule.WholeAt n :=
    fun n hn hopen => (hu n (hltK n hn) (hscans.passes n hn).1 hopen).1
  refine ⟨openDates schedule c K, openDates_pairwise h.toBegins hltK hwhole, fun date hdate => ?_,
    fun date => h.due_iff_mem hu hK hscans, occurrencesUpTo_eq hscans hbound hlimit⟩
  obtain ⟨n, hn, rfl, hopen⟩ := mem_openDates.mp hdate
  exact (isMatch_dateText h.toBegins (hltK n hn)).mpr (hwhole n hn hopen)

/-! ## Batches -/

/-- Batches of occurrences, each past the last date of the one before it and the last one empty, are what is due: dates in
ascending order, none lost and none repeated. -/
def Partitions (schedule : Schedule) (c : CalendarDate) (asOf : JsString) (limit : ℕ) : Prop :=
  ∃ dates : List JsString, dates.Pairwise (· < ·) ∧ (∀ date ∈ dates, datePattern.isMatch date = true) ∧
    (∀ date, date ∈ dates ↔ ∃ n, (dateOf schedule c n).month < 120000 ∧ Due schedule asOf n date) ∧
    ∀ fuel, dates.length < fuel → ∃ made : List (List JsString),
      batches (occurrencesUpTo schedule asOf limit) fuel none = .ok (some (made ++ [[]])) ∧ made.flatten = dates ∧
        ∀ batch ∈ made, batch ≠ [] ∧ batch.length ≤ limit

theorem partitions_of_unhindered (h : UpTo schedule c asOf N) (hlimit : 1 ≤ limit) (hu : Unhindered schedule c asOf) :
    Partitions schedule c asOf limit := by
  obtain ⟨dates, hsorted, hdates, hmem, hasks⟩ := h.exists_due hlimit hu
  exact ⟨dates, hsorted, hdates, hmem, fun fuel hfuel => batches_eq hsorted hlimit hasks fuel 0 hfuel⟩

theorem unhindered_of_partitions (h : UpTo schedule c asOf N) (hlimit : 1 ≤ limit) (hp : Partitions schedule c asOf limit) :
    Unhindered schedule c asOf := by
  obtain ⟨K, hK, hbound, hscans⟩ := h.exists_scans
  obtain ⟨dates, -, hmatch, hmem, hbatches⟩ := hp
  intro n hlt hdue hopen
  have hdate : dateText schedule c n ∈ dates := (hmem _).mpr ⟨n, hlt, (due_iff h.toBegins).mpr ⟨rfl, hdue, hopen⟩⟩
  have hn := (isMatch_dateText h.toBegins hlt).mp (hmatch _ hdate)
  -- what is in a batch is what the scan came by
  obtain ⟨made, hmade, rfl, -⟩ := hbatches _ (Nat.lt_succ_self _)
  obtain ⟨batch, hbatch, hin⟩ := List.mem_flatten.mp hdate
  obtain ⟨after, hask⟩ := mem_batches hmade batch (List.mem_append_left _ hbatch)
  rw [occurrencesUpTo_eq hscans hbound hlimit after] at hask
  cases hask
  obtain ⟨m, hm, heq, -⟩ := mem_openDates.mp (mem_of_mem_past (List.mem_of_mem_take hin))
  have hltm := h.lt m (by omega)
  have hwhole : schedule.WholeAt m := (isMatch_dateText h.toBegins hltm).mp (heq ▸ hmatch _ hdate)
  obtain rfl := dateText_inj h.toBegins hn hwhole hlt hltm heq
  exact ⟨hn, fun m hm' => hscans.passes m (hm'.trans hm)⟩

/-- Rent on the last of the month, twelve times at most, with one month skipped. -/
def monthly : Schedule where
  interval := 1
  unit := .month
  startDate := (CalendarDate.clamped 24288 31).text
  endDate := some (js "2025-12-31")
  maxOccurrences := some 12
  skipped := [js "2024-03-31"]

theorem monthly_begins : Begins monthly (CalendarDate.clamped 24288 31) where
  date := rfl
  plain := ⟨by decide, by decide⟩
  interval := le_refl 1

theorem monthly_whole : monthly.Whole := Or.inr (by decide +kernel)

/-- Every one and a half months, three times. -/
def monthAndHalf : Schedule where
  interval := 3 / 2
  unit := .month
  startDate := (CalendarDate.clamped 24288 15).text
  endDate := none
  maxOccurrences := some 3
  skipped := []

theorem monthAndHalf_begins : Begins monthAndHalf (CalendarDate.clamped 24288 15) where
  date := rfl
  plain := ⟨by decide, by decide⟩
  interval := by decide +kernel

/-- The cap comes after the third occurrence. -/
theorem monthAndHalf_closed (hn : 3 ≤ n) {date : JsString} : withinLimits monthAndHalf n date = false := by
  refine Bool.eq_false_iff.mpr (fun hin => ?_)
  have hcap : (n : ℚ) < 3 := (withinLimits_iff.mp hin).1 3 rfl
  have hlt : n < 3 := by exact_mod_cast hcap
  omega

theorem not_isOpen_monthAndHalf (n : ℕ) (hn : 3 ≤ n) : isOpen monthAndHalf (CalendarDate.clamped 24288 15) n = false := by
  unfold isOpen
  rw [monthAndHalf_closed hn, Bool.false_and]

theorem monthAndHalf_upTo : UpTo monthAndHalf (CalendarDate.clamped 24288 15) (js "2024-12-31") 3 :=
  upTo_of_few monthAndHalf_begins (by decide +kernel) (by decide)
    (fun h => absurd h.2 (Bool.eq_false_iff.mp (monthAndHalf_closed (Nat.le_refl 3))))

/-- The scan stops at a month and a half. -/
theorem monthAndHalf_scans : Scans monthAndHalf (CalendarDate.clamped 24288 15) (js "2024-12-31") 1 where
  toBegins := monthAndHalf_begins
  passes := fun n hn => by
    obtain rfl : n = 0 := by omega
    exact ⟨by decide +kernel, by decide +kernel⟩
  stop := fun h => absurd h.1 (by decide +kernel)

/-- A daily rule from the first of January on. -/
def daily (maxOccurrences : Option ℚ) : Schedule where
  interval := 1
  unit := .day
  startDate := (CalendarDate.clamped 24288 1).text
  endDate := none
  maxOccurrences := maxOccurrences
  skipped := []

theorem daily_begins (maxOccurrences : Option ℚ) : Begins (daily maxOccurrences) (CalendarDate.clamped 24288 1) where
  date := rfl
  plain := ⟨by decide, by decide⟩
  interval := le_refl 1

theorem daily_whole (maxOccurrences : Option ℚ) : (daily maxOccurrences).Whole := Or.inl rfl

theorem daily_lt (maxOccurrences : Option ℚ) {n : ℕ} (hn : n ≤ 700) :
    (dateOf (daily maxOccurrences) (CalendarDate.clamped 24288 1) n).month < 120000 := by
  have hlast : (dateOf (daily maxOccurrences) (CalendarDate.clamped 24288 1) 700).month < 120000 := by
    show (dateOf (daily none) (CalendarDate.clamped 24288 1) 700).month < 120000
    decide +kernel
  exact lt_of_le_of_lt ((daily_begins maxOccurrences).month_mono hn) hlast

end Recurring

end EasyDocket
