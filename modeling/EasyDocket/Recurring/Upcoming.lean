import Mathlib.Data.Finset.Sort
import EasyDocket.Recurring.Schedule

/-!
# What a rule shows next

`nextOccurrence` searches for the first date after `asOf` from the start of the rule, but only among its first 500
occurrences.  The list and the preview of a rule are right if and only if what they ask for is among these, and no fraction
of a month is to come before it.
-/

namespace EasyDocket

namespace Recurring

open Books Batches

/-- The loop of `nextOccurrence`, with what is left of its bound. -/
def nextFrom (schedule : Schedule) (asOf : JsString) : ℕ → ℕ → Except DateError (Option JsString)
  | 0, _ => pure none
  | left + 1, index => do
    let date ← occurrenceAt schedule index
    if !withinLimits schedule index date then pure none
    else if asOf < date ∧ date ∉ schedule.skipped then pure (some date)
    else nextFrom schedule asOf left (index + 1)

/-- `nextOccurrence`: the next occurrence strictly after `asOf`, or none when the rule is finished. -/
def nextOccurrence (schedule : Schedule) (asOf : JsString) : Except DateError (Option JsString) :=
  if schedule.interval < 1 then pure none else nextFrom schedule asOf MAX_OCCURRENCES_PER_RUN 0

/-- `preview`: the next few occurrences of a rule, from a date on. -/
def preview (schedule : Schedule) : ℕ → JsString → Except DateError (List JsString)
  | 0, _ => pure []
  | count + 1, cursor => do
    match ← nextOccurrence schedule cursor with
    | none => pure []
    | some next => do
      let dates ← preview schedule count next
      pure (next :: dates)

/-- `dueText`: what the list of rules says of a rule. -/
def dueText (next : Option JsString) : JsString :=
  match next with
  | some date => js "next " ++ date
  | none => js "finished"

/-! ## What is to come -/

structure ToCome (schedule : Schedule) (asOf : JsString) (n : ℕ) (date : JsString) : Prop extends Occurs schedule n date where
  after : asOf < date

/-- All that is to come of a schedule, up to the year 9999. -/
def toCome (schedule : Schedule) (c : CalendarDate) (asOf : JsString) : Set JsString :=
  {date | ∃ n, (dateOf schedule c n).month < 120000 ∧ ToCome schedule asOf n date}

/-- An occurrence is to come. -/
def isComing (schedule : Schedule) (c : CalendarDate) (asOf : JsString) (n : ℕ) : Bool :=
  isOpen schedule c n && asOf < dateText schedule c n

/-- Of the first `M` occurrences, those to come, in ascending order. -/
def coming (schedule : Schedule) (c : CalendarDate) (asOf : JsString) (M : ℕ) : List JsString :=
  past (Finset.sort (((Finset.range M).filter (fun n => isOpen schedule c n)).image (dateText schedule c))) (some asOf)

/-- The first `M` occurrences are in the years 0100 to 9999, and as many as it takes: `count` of them are to come, before
all others, or the schedule is over then. -/
structure Foreseen (schedule : Schedule) (c : CalendarDate) (asOf : JsString) (M count : ℕ) : Prop
    extends Begins schedule c where
  lt : ∀ n < M, (dateOf schedule c n).month < 120000
  enough : (count ≤ (coming schedule c asOf M).length ∧ ∀ n, M ≤ n → (dateOf schedule c n).month < 120000 →
      isComing schedule c asOf n = true → ∀ date ∈ coming schedule c asOf M, date < dateText schedule c n) ∨
    (withinLimits schedule M (dateText schedule c M) = false ∧
      ∀ n, M ≤ n → (dateOf schedule c n).month < 120000 → isOpen schedule c n = false)

/-- An occurrence that is asked for: it is among the next `count`. -/
def Asked (schedule : Schedule) (c : CalendarDate) (asOf : JsString) (M count n : ℕ) : Prop :=
  isComing schedule c asOf n = true ∧ dateText schedule c n ∈ (coming schedule c asOf M).take count

/-- What is asked for is among the first 500 occurrences, and up to there, what is to come is a whole number of months after
the start where the rule counts in months, and within the limits. -/
def Ahead (schedule : Schedule) (c : CalendarDate) (asOf : JsString) (M count : ℕ) : Prop :=
  ∀ n < M, Asked schedule c asOf M count n → n < MAX_OCCURRENCES_PER_RUN ∧ ∀ m ≤ n,
    withinLimits schedule m (dateText schedule c m) = true ∧ (isComing schedule c asOf m = true → schedule.WholeAt m)

variable {schedule : Schedule} {c : CalendarDate} {asOf cursor first date : JsString} {rest : List JsString}
  {M count n m left index : ℕ}

theorem isComing_iff : isComing schedule c asOf n = true ↔ isOpen schedule c n = true ∧ asOf < dateText schedule c n := by
  unfold isComing
  rw [Bool.and_eq_true, decide_eq_true_eq]

theorem isComing_mono (h : asOf ≤ cursor) (hn : isComing schedule c cursor n = true) : isComing schedule c asOf n = true :=
  isComing_iff.mpr ⟨(isComing_iff.mp hn).1, h.trans_lt (isComing_iff.mp hn).2⟩

theorem toCome_iff (h : Begins schedule c) :
    ToCome schedule asOf n date ↔ date = dateText schedule c n ∧ isComing schedule c asOf n = true := by
  rw [isComing_iff]
  constructor
  · rintro ⟨hoccurs, hafter⟩
    obtain ⟨rfl, hopen⟩ := (occurs_iff h).mp hoccurs
    exact ⟨rfl, hopen, hafter⟩
  · rintro ⟨rfl, hopen, hafter⟩
    exact ⟨(occurs_iff h).mpr ⟨rfl, hopen⟩, hafter⟩

theorem mem_toCome (h : Begins schedule c) : date ∈ toCome schedule c asOf ↔
    ∃ n, (dateOf schedule c n).month < 120000 ∧ date = dateText schedule c n ∧ isComing schedule c asOf n = true :=
  exists_congr (fun _ => and_congr_right (fun _ => toCome_iff h))

theorem mem_coming : date ∈ coming schedule c asOf M ↔ ∃ n < M, date = dateText schedule c n ∧
    isComing schedule c asOf n = true := by
  unfold coming
  rw [mem_past, Finset.mem_sort, Finset.mem_image]
  constructor
  · rintro ⟨⟨n, hn, rfl⟩, hafter⟩
    obtain ⟨hM, hopen⟩ := Finset.mem_filter.mp hn
    exact ⟨n, Finset.mem_range.mp hM, rfl, isComing_iff.mpr ⟨hopen, hafter⟩⟩
  · rintro ⟨n, hM, rfl, hcoming⟩
    obtain ⟨hopen, hafter⟩ := isComing_iff.mp hcoming
    exact ⟨⟨n, Finset.mem_filter.mpr ⟨Finset.mem_range.mpr hM, hopen⟩, rfl⟩, hafter⟩

theorem coming_pairwise : (coming schedule c asOf M).Pairwise (· < ·) :=
  past_pairwise (Finset.sortedLT_sort _).pairwise _

/-- After the next date, the ones after it are to come. -/
theorem coming_next (h : coming schedule c asOf M = first :: rest) : coming schedule c first M = rest :=
  past_next (Finset.sortedLT_sort _).pairwise h

theorem asOf_lt_next (h : coming schedule c asOf M = first :: rest) : asOf < first := by
  obtain ⟨n, -, rfl, hcoming⟩ := mem_coming.mp (h ▸ List.mem_cons_self)
  exact (isComing_iff.mp hcoming).2

theorem Foreseen.next (h : Foreseen schedule c asOf M (count + 1)) (hnext : coming schedule c asOf M = first :: rest) :
    Foreseen schedule c first M count where
  toBegins := h.toBegins
  lt := h.lt
  enough := by
    rw [coming_next hnext]
    refine h.enough.imp_left (fun ⟨hcount, hbefore⟩ => ⟨?_, fun n hn hlt hcoming date hdate => ?_⟩)
    · rw [hnext, List.length_cons] at hcount
      exact Nat.le_of_succ_le_succ hcount
    · refine hbefore n hn hlt (isComing_mono (asOf_lt_next hnext).le hcoming) date ?_
      rw [hnext]
      exact List.mem_cons_of_mem _ hdate

theorem Ahead.next (h : Ahead schedule c asOf M (count + 1)) (hnext : coming schedule c asOf M = first :: rest) :
    Ahead schedule c first M count := by
  have hle := (asOf_lt_next hnext).le
  rintro n hn ⟨hcoming, hmem⟩
  rw [coming_next hnext] at hmem
  obtain ⟨hnear, hall⟩ := h n hn ⟨isComing_mono hle hcoming, by rw [hnext]; exact List.mem_cons_of_mem _ hmem⟩
  exact ⟨hnear, fun m hm => ⟨(hall m hm).1, fun hcoming' => (hall m hm).2 (isComing_mono hle hcoming')⟩⟩

/-- There is nothing to come past the ones that are foreseen, where none of these is. -/
theorem Foreseen.nothing_else (h : Foreseen schedule c asOf M count) (hcount : 1 ≤ count)
    (hnil : coming schedule c asOf M = []) (hlt : (dateOf schedule c n).month < 120000) :
    isComing schedule c asOf n = false := by
  refine Bool.eq_false_iff.mpr (fun hcoming => ?_)
  rcases Nat.lt_or_ge n M with hn | hn
  · have hmem : dateText schedule c n ∈ coming schedule c asOf M := mem_coming.mpr ⟨n, hn, rfl, hcoming⟩
    rw [hnil] at hmem
    exact List.not_mem_nil hmem
  · rcases h.enough with ⟨henough, -⟩ | ⟨-, hover⟩
    · rw [hnil, List.length_nil] at henough
      omega
    · exact absurd (isComing_iff.mp hcoming).1 (by rw [hover n hn hlt]; exact Bool.false_ne_true)

/-! ## The search -/

/-- The search ends at an occurrence to come: nothing before it is to come or past the limits. -/
structure Hit (schedule : Schedule) (c : CalendarDate) (asOf : JsString) (n : ℕ) : Prop where
  coming : isComing schedule c asOf n = true
  within : ∀ m ≤ n, withinLimits schedule m (dateText schedule c m) = true
  first : ∀ m < n, isComing schedule c asOf m = false

theorem Hit.eq (hn : Hit schedule c asOf n) (hm : Hit schedule c asOf m) : n = m := by
  rcases lt_trichotomy n m with hlt | rfl | hlt
  · exact absurd hn.coming (by rw [hm.first n hlt]; exact Bool.false_ne_true)
  · rfl
  · exact absurd hm.coming (by rw [hn.first m hlt]; exact Bool.false_ne_true)

/-- What the loop returns, by induction on what is left of its bound. -/
theorem nextFrom_eq (h : Begins schedule c) : ∀ (left index : ℕ),
    (∀ m < index, withinLimits schedule m (dateText schedule c m) = true ∧ isComing schedule c asOf m = false) →
    ∃ next, nextFrom schedule asOf left index = .ok next ∧
      ∀ date, next = some date ↔ ∃ n < index + left, Hit schedule c asOf n ∧ date = dateText schedule c n
  | 0, index, hbefore => by
    refine ⟨none, rfl, fun date => iff_of_false nofun ?_⟩
    rintro ⟨n, hn, hhit, -⟩
    exact absurd hhit.coming (by rw [(hbefore n hn).2]; exact Bool.false_ne_true)
  | left + 1, index, hbefore => by
    unfold nextFrom
    rw [occurrenceAt_text h]
    show ∃ next, (if (!withinLimits schedule index (dateText schedule c index)) = true then _ else _) = _ ∧ _
    cases hin : withinLimits schedule index (dateText schedule c index) with
    | false =>
      refine ⟨none, rfl, fun date => iff_of_false nofun ?_⟩
      rintro ⟨n, -, hhit, -⟩
      rcases Nat.lt_or_ge n index with hn | hn
      · exact absurd hhit.coming (by rw [(hbefore n hn).2]; exact Bool.false_ne_true)
      · exact absurd (hhit.within index hn) (by rw [hin]; exact Bool.false_ne_true)
    | true =>
      rw [if_neg (by decide)]
      have hopen : isOpen schedule c index = true ↔ dateText schedule c index ∉ schedule.skipped := by
        unfold isOpen
        rw [hin, Bool.true_and, decide_eq_true_eq]
      by_cases hnext : asOf < dateText schedule c index ∧ dateText schedule c index ∉ schedule.skipped
      · have hhit : Hit schedule c asOf index :=
          ⟨isComing_iff.mpr ⟨hopen.mpr hnext.2, hnext.1⟩,
            fun m hm => (Nat.lt_or_eq_of_le hm).elim (fun hm => (hbefore m hm).1) (fun hm => hm ▸ hin),
            fun m hm => (hbefore m hm).2⟩
        rw [if_pos hnext]
        refine ⟨_, rfl, fun date => ⟨fun heq => ⟨index, by omega, hhit, (Option.some.inj heq).symm⟩, ?_⟩⟩
        rintro ⟨n, -, hhit', rfl⟩
        rw [hhit'.eq hhit]
      · have hnot : isComing schedule c asOf index = false :=
          Bool.eq_false_iff.mpr (fun hcoming => hnext ⟨(isComing_iff.mp hcoming).2, hopen.mp (isComing_iff.mp hcoming).1⟩)
        rw [if_neg hnext, show index + (left + 1) = index + 1 + left by omega]
        exact nextFrom_eq h left (index + 1)
          (fun m hm => (Nat.lt_succ_iff_lt_or_eq.mp hm).elim (hbefore m) (fun hm => hm ▸ ⟨hin, hnot⟩))

theorem nextOccurrence_eq (h : Begins schedule c) (asOf : JsString) : ∃ next, nextOccurrence schedule asOf = .ok next ∧
    ∀ date, next = some date ↔ ∃ n < MAX_OCCURRENCES_PER_RUN, Hit schedule c asOf n ∧ date = dateText schedule c n := by
  have hinterval := h.interval
  obtain ⟨next, hnext, hhit⟩ :=
    @nextFrom_eq schedule c asOf h MAX_OCCURRENCES_PER_RUN 0 (fun m hm => absurd hm (Nat.not_lt_zero m))
  rw [Nat.zero_add] at hhit
  unfold nextOccurrence
  rw [if_neg (not_lt.mpr hinterval)]
  exact ⟨next, hnext, hhit⟩

/-- What is ahead is found. -/
theorem hit_of_ahead (h : Foreseen schedule c asOf M count) (hcount : 1 ≤ count) (ha : Ahead schedule c asOf M count)
    (hnext : coming schedule c asOf M = first :: rest) :
    ∃ n < MAX_OCCURRENCES_PER_RUN, Hit schedule c asOf n ∧ first = dateText schedule c n := by
  obtain ⟨n, hn, heq, hcoming⟩ := mem_coming.mp (hnext ▸ List.mem_cons_self)
  have hasked : Asked schedule c asOf M count n := by
    refine ⟨hcoming, ?_⟩
    obtain ⟨k, rfl⟩ := Nat.exists_eq_add_of_le' hcount
    rw [hnext, ← heq]
    exact List.mem_cons_self
  obtain ⟨hnear, hall⟩ := ha n hn hasked
  refine ⟨n, hnear, ⟨hcoming, fun m hm => (hall m hm).1, fun m hm => Bool.eq_false_iff.mpr (fun hcoming' => ?_)⟩, heq⟩
  -- an earlier one would be less than the least
  have hlt : dateText schedule c m < first := by
    rw [heq]
    exact dateText_lt h.toBegins ((hall m hm.le).2 hcoming') ((hall n (Nat.le_refl n)).2 hcoming) (h.lt n hn) hm
  have hmem : dateText schedule c m ∈ coming schedule c asOf M := mem_coming.mpr ⟨m, hm.trans hn, rfl, hcoming'⟩
  rw [hnext] at hmem
  rcases List.mem_cons.mp hmem with hmem | hmem
  · exact hlt.ne hmem
  · have hsorted := @coming_pairwise schedule c asOf M
    rw [hnext] at hsorted
    exact lt_asymm hlt ((List.pairwise_cons.mp hsorted).1 _ hmem)

theorem nextOccurrence_of_ahead (h : Foreseen schedule c asOf M count) (hcount : 1 ≤ count)
    (ha : Ahead schedule c asOf M count) : nextOccurrence schedule asOf = .ok (coming schedule c asOf M).head? := by
  obtain ⟨next, hnext, hhit⟩ := nextOccurrence_eq h.toBegins asOf
  rw [hnext]
  refine congrArg Except.ok (Option.ext (fun date => ?_))
  rw [hhit]
  cases hdates : coming schedule c asOf M with
  | nil =>
    refine iff_of_false ?_ nofun
    rintro ⟨n, -, hn, -⟩
    rcases Nat.lt_or_ge n M with hM | hM
    · exact absurd hn.coming (by rw [h.nothing_else hcount hdates (h.lt n hM)]; exact Bool.false_ne_true)
    · rcases h.enough with ⟨henough, -⟩ | ⟨hover, -⟩
      · rw [hdates, List.length_nil] at henough
        omega
      · exact absurd (hn.within M hM) (by rw [hover]; exact Bool.false_ne_true)
  | cons first rest =>
    obtain ⟨n, hn, hfirst, rfl⟩ := hit_of_ahead h hcount ha hdates
    rw [List.head?_cons, Option.some_inj]
    constructor
    · rintro ⟨m, -, hm, rfl⟩
      rw [hfirst.eq hm]
    · rintro rfl
      exact ⟨n, hn, hfirst, rfl⟩

/-- The preview lists what is to come, by recursion on how many it is asked for. -/
theorem preview_of_ahead : ∀ (count : ℕ) {asOf : JsString}, Foreseen schedule c asOf M count → Ahead schedule c asOf M count →
    preview schedule count asOf = .ok ((coming schedule c asOf M).take count)
  | 0, asOf, _, _ => rfl
  | count + 1, asOf, h, ha => by
    unfold preview
    rw [nextOccurrence_of_ahead h (Nat.succ_le_succ (Nat.zero_le _)) ha]
    cases hdates : coming schedule c asOf M with
    | nil => rfl
    | cons next rest =>
      have hrest := preview_of_ahead count (h.next hdates) (ha.next hdates)
      rw [coming_next hdates] at hrest
      show (do let dates ← preview schedule count next; pure (next :: dates)) = _
      rw [hrest]
      rfl

theorem dueText_eq_finished {next : Option JsString} : dueText next = js "finished" ↔ next = none := by
  cases next with
  | none => exact iff_of_true rfl rfl
  | some date => exact iff_of_false (fun h => absurd (List.cons.inj h).1 (by decide)) nofun

/-- Each date of a preview is what the search comes to, from the one before it on. -/
theorem mem_preview (h : Begins schedule c) : ∀ (count : ℕ) {asOf : JsString} {dates : List JsString},
    preview schedule count asOf = .ok dates → ∀ date ∈ dates, ∃ cursor, (cursor = asOf ∨ cursor ∈ dates) ∧
      ∃ n < MAX_OCCURRENCES_PER_RUN, Hit schedule c cursor n ∧ date = dateText schedule c n
  | 0, asOf, dates, hdates, date, hdate => by
    cases hdates
    exact absurd hdate List.not_mem_nil
  | count + 1, asOf, dates, hdates, date, hdate => by
    obtain ⟨next, hnext, hhit⟩ := nextOccurrence_eq h asOf
    unfold preview at hdates
    rw [hnext] at hdates
    cases next with
    | none =>
      cases hdates
      exact absurd hdate List.not_mem_nil
    | some next =>
      change (do let dates ← preview schedule count next; pure (next :: dates)) = _ at hdates
      cases hrest : preview schedule count next with
      | error e =>
        rw [hrest] at hdates
        cases hdates
      | ok rest =>
        rw [hrest] at hdates
        cases hdates
        rcases List.mem_cons.mp hdate with rfl | hdate
        · exact ⟨asOf, Or.inl rfl, (hhit date).mp rfl⟩
        · obtain ⟨cursor, hcursor, hfound⟩ := mem_preview h count hrest date hdate
          refine ⟨cursor, Or.inr ?_, hfound⟩
          rcases hcursor with rfl | hcursor
          · exact List.mem_cons_self
          · exact List.mem_cons_of_mem _ hcursor

/-! ## When the list and the preview are right -/

/-- The next occurrence is a date and the least to come, and there is none if and only if nothing is to come. -/
def NextRight (schedule : Schedule) (c : CalendarDate) (asOf : JsString) : Prop :=
  ∃ next : Option JsString, nextOccurrence schedule asOf = .ok next ∧
    (∀ date, next = some date → IsLeast (toCome schedule c asOf) date ∧ datePattern.isMatch date = true) ∧
    (next = none ↔ toCome schedule c asOf = ∅)

/-- The preview lists the next dates in order. -/
def PreviewRight (schedule : Schedule) (c : CalendarDate) (asOf : JsString) (M count : ℕ) : Prop :=
  preview schedule count asOf = .ok ((coming schedule c asOf M).take count) ∧
    ∀ date ∈ (coming schedule c asOf M).take count, datePattern.isMatch date = true

/-- A rule that is shown as finished produces nothing any more, on whatever day and up to whatever limit. -/
def FinishedRight (schedule : Schedule) (c : CalendarDate) (asOf : JsString) : Prop :=
  ∀ next, nextOccurrence schedule asOf = .ok next → dueText next = js "finished" →
    ∀ (later : JsString) (N limit : ℕ), UpTo schedule c later N → 1 ≤ limit →
      occurrencesUpTo schedule later limit (some asOf) = .ok []

theorem previewRight_of_ahead (h : Foreseen schedule c asOf M count) (ha : Ahead schedule c asOf M count) :
    PreviewRight schedule c asOf M count := by
  refine ⟨preview_of_ahead count h ha, fun date hdate => ?_⟩
  obtain ⟨n, hn, rfl, hcoming⟩ := mem_coming.mp (List.mem_of_mem_take hdate)
  exact (isMatch_dateText h.toBegins (h.lt n hn)).mpr ((ha n hn ⟨hcoming, hdate⟩).2 n (Nat.le_refl n) |>.2 hcoming)

theorem nextRight_of_ahead (h : Foreseen schedule c asOf M count) (hcount : 1 ≤ count) (ha : Ahead schedule c asOf M count) :
    NextRight schedule c asOf := by
  refine ⟨_, nextOccurrence_of_ahead h hcount ha, ?_⟩
  have hmatch := (previewRight_of_ahead h ha).2
  cases hdates : coming schedule c asOf M with
  | nil =>
    refine ⟨nofun, iff_of_true rfl (Set.eq_empty_iff_forall_notMem.mpr (fun date hdate => ?_))⟩
    obtain ⟨n, hlt, -, hcoming⟩ := (mem_toCome h.toBegins).mp hdate
    exact absurd hcoming (by rw [h.nothing_else hcount hdates hlt]; exact Bool.false_ne_true)
  | cons first rest =>
    have hfirst : first ∈ coming schedule c asOf M := hdates ▸ List.mem_cons_self
    have hmem : first ∈ toCome schedule c asOf := by
      obtain ⟨n, hn, heq, hcoming⟩ := mem_coming.mp hfirst
      exact (mem_toCome h.toBegins).mpr ⟨n, h.lt n hn, heq, hcoming⟩
    refine ⟨fun date hdate => ?_, iff_of_false nofun (fun hnone => ?_)⟩
    · cases hdate
      refine ⟨⟨hmem, fun date hdate => ?_⟩, hmatch first ?_⟩
      · obtain ⟨n, hlt, rfl, hcoming⟩ := (mem_toCome h.toBegins).mp hdate
        rcases Nat.lt_or_ge n M with hn | hn
        · have hleast := (head?_iff_isLeast (@coming_pairwise schedule c asOf M) (a := first)).mp (by rw [hdates]; rfl)
          exact hleast.2 (mem_coming.mpr ⟨n, hn, rfl, hcoming⟩)
        · rcases h.enough with ⟨-, hbefore⟩ | ⟨-, hover⟩
          · exact (hbefore n hn hlt hcoming first hfirst).le
          · exact absurd (isComing_iff.mp hcoming).1 (by rw [hover n hn hlt]; exact Bool.false_ne_true)
      · obtain ⟨k, rfl⟩ := Nat.exists_eq_add_of_le' hcount
        rw [hdates]
        exact List.mem_cons_self
    · rw [hnone] at hmem
      exact hmem

theorem finishedRight_of_nextRight (h : Begins schedule c) (hright : NextRight schedule c asOf) :
    FinishedRight schedule c asOf := by
  intro next hnext hfinished later N limit hN hlimit
  obtain ⟨next', hnext', -, hnone⟩ := hright
  rw [hnext] at hnext'
  have hempty := hnone.mp ((Except.ok.inj hnext').symm.trans (dueText_eq_finished.mp hfinished))
  obtain ⟨K, hK, hbound, hscans⟩ := hN.exists_scans
  have hnil : past (openDates schedule c K) (some asOf) = [] := by
    refine List.eq_nil_iff_forall_not_mem.mpr (fun date hdate => ?_)
    obtain ⟨hmem, hafter⟩ := mem_past.mp hdate
    obtain ⟨n, hn, rfl, hopen⟩ := mem_openDates.mp hmem
    have hcome : dateText schedule c n ∈ toCome schedule c asOf :=
      (mem_toCome h).mpr ⟨n, hN.lt n (by omega), rfl, isComing_iff.mpr ⟨hopen, hafter⟩⟩
    rw [hempty] at hcome
    exact hcome
  rw [occurrencesUpTo_eq hscans hbound hlimit, hnil, List.take_nil]

/-- What is listed was come to, so it is ahead. -/
theorem ahead_of_previewRight (h : Foreseen schedule c asOf M count) (hright : PreviewRight schedule c asOf M count) :
    Ahead schedule c asOf M count := by
  obtain ⟨hpreview, hmatch⟩ := hright
  rintro n hn ⟨hcoming, hmem⟩
  obtain ⟨hopen, hafter⟩ := isComing_iff.mp hcoming
  obtain ⟨cursor, hcursor, n', hn', hhit, heq⟩ := mem_preview h.toBegins count hpreview _ hmem
  have hbefore : cursor < dateText schedule c n := by
    rw [heq]
    exact (isComing_iff.mp hhit.coming).2
  have hle : n' ≤ n := by
    by_contra hlt
    have hfirst := hhit.first n (not_le.mp hlt)
    rw [isComing_iff.mpr ⟨hopen, hbefore⟩] at hfirst
    cases hfirst
  have hwhole : schedule.WholeAt n := (isMatch_dateText h.toBegins (h.lt n hn)).mp (hmatch _ hmem)
  have hltn' := h.lt n' (lt_of_le_of_lt hle hn)
  have hwhole' : schedule.WholeAt n' := (isMatch_dateText h.toBegins hltn').mp (heq ▸ hmatch _ hmem)
  obtain rfl := dateText_inj h.toBegins hwhole hwhole' (h.lt n hn) hltn' heq
  refine ⟨hn', fun m hm => ⟨hhit.within m hm, fun hcoming' => ?_⟩⟩
  rcases Nat.lt_or_eq_of_le hm with hlt | rfl
  · -- it was not come to, so it is before the date that the search began at, which is listed
    obtain ⟨hopen', hafter'⟩ := isComing_iff.mp hcoming'
    have hnot : dateText schedule c m ≤ cursor := by
      by_contra hgt
      have hfirst := hhit.first m hlt
      rw [isComing_iff.mpr ⟨hopen', not_le.mp hgt⟩] at hfirst
      cases hfirst
    rcases hcursor with rfl | hcursor
    · exact absurd hafter' (not_lt.mpr hnot)
    · have hlisted := mem_take_of_le coming_pairwise (mem_coming.mpr ⟨m, hlt.trans hn, rfl, hcoming'⟩) hcursor hnot
      exact (isMatch_dateText h.toBegins (h.lt m (hlt.trans hn))).mp (hmatch _ hlisted)
  · exact hwhole

/-- A whole interval leaves only the bound of the search. -/
theorem ahead_iff_of_whole (h : Foreseen schedule c asOf M count) (hw : schedule.Whole) : Ahead schedule c asOf M count ↔
    ∀ n < M, Asked schedule c asOf M count n → n < MAX_OCCURRENCES_PER_RUN := by
  refine ⟨fun ha n hn hasked => (ha n hn hasked).1, fun hnear n hn hasked => ⟨hnear n hn hasked, fun m hm => ?_⟩⟩
  have hin := (Bool.and_eq_true_iff.mp (isComing_iff.mp hasked.1).1).1
  exact ⟨withinLimits_antitone h.toBegins hw (h.lt n hn) hm hin, fun _ => hw.at m⟩

/-- Where the interval is whole, later occurrences are later dates. -/
theorem foreseen_of_whole (h : Begins schedule c) (hw : schedule.Whole) (hlt : ∀ n < M, (dateOf schedule c n).month < 120000)
    (henough : count ≤ (coming schedule c asOf M).length ∨ withinLimits schedule M (dateText schedule c M) = false) :
    Foreseen schedule c asOf M count where
  toBegins := h
  lt := hlt
  enough := by
    refine henough.imp (fun henough => ⟨henough, fun n hn hltn _ date hdate => ?_⟩) (fun hover => ⟨hover, fun n hn hltn => ?_⟩)
    · obtain ⟨m, hm, rfl, -⟩ := mem_coming.mp hdate
      exact dateText_lt h (hw.at m) (hw.at n) hltn (lt_of_lt_of_le hm hn)
    · refine Bool.eq_false_iff.mpr (fun hopen => ?_)
      rw [withinLimits_antitone h hw hltn hn (Bool.and_eq_true_iff.mp hopen).1] at hover
      cases hover

end Recurring

end EasyDocket
