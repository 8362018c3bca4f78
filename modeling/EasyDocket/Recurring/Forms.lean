import EasyDocket.Recurring.Overriding
import EasyDocket.Books.Transactions

/-!
# What passes the forms

Rules are saved through `RecurringService` and transactions through `TransactionsService`, and both check what they store.
The materialiser and `skip` write past these checks, and so does a merge.  What the devices hold passes them all the same.
-/

namespace EasyDocket

namespace Recurring

open Books

open Prog (request)

/-! ## The service of the rules -/

/-- What a caller supplies to save a rule; a field that is left out has a default. -/
structure RecurringDraft where
  name : JsString
  kind : TransactionKind
  amount : Minor
  currency : JsString
  accountId : JsString
  interval : ℚ
  unit : RecurrenceUnit
  startDate : JsString
  counterAccountId : Option (Option JsString)
  categoryId : Option (Option JsString)
  payee : Option JsString
  note : Option JsString
  tags : Option (List JsString)
  endDate : Option (Option JsString)
  maxOccurrences : Option (Option ℚ)
  skipped : Option (List JsString)
  archived : Option Bool

/-- `assertValid` of rules, with the message of the error. -/
def RecurringRule.assertValid (rule : RecurringRule) : Except String Unit :=
  if JsNumber.trim rule.name = [] then .error "A rule needs a name"
  else if rule.amount ≤ 0 then .error "The amount must be greater than zero"
  else if rule.accountId = [] then .error "An account is required"
  else if rule.interval < 1 then .error "The interval must be at least one"
  else if datePattern.isMatch rule.startDate = false then .error "Start date must be YYYY-MM-DD"
  else if rule.endDate.any (fun last => last < rule.startDate) then .error "The end date cannot be before the start date"
  else if rule.maxOccurrences.any (fun most => most < 1) then .error "The occurrence limit must be at least one"
  else if rule.kind = .transfer then
    if Books.truthy rule.counterAccountId = none then .error "A transfer needs a destination account"
    else if rule.counterAccountId = some rule.accountId then .error "A transfer needs two different accounts"
    else .ok ()
  else .ok ()

/-- The rule that a draft stands for. -/
def RecurringDraft.toRule (draft : RecurringDraft) : RecurringRule where
  interval := draft.interval
  unit := draft.unit
  startDate := draft.startDate
  endDate := draft.endDate.getD none
  maxOccurrences := draft.maxOccurrences.getD none
  skipped := draft.skipped.getD []
  name := draft.name
  kind := draft.kind
  amount := (draft.amount.natAbs : ℤ)
  currency := draft.currency
  accountId := draft.accountId
  counterAccountId := draft.counterAccountId.getD none
  categoryId := draft.categoryId.getD none
  payee := draft.payee.getD []
  note := draft.note.getD []
  tags := draft.tags.getD []
  archived := draft.archived.getD false

namespace RecurringService

/-- `save`, up to the write. -/
def save (draft : RecurringDraft) : Except String RecurringRule := draft.toRule.assertValid.map (fun _ => draft.toRule)

/-- `setArchived`, up to the write. -/
def setArchived (rule : RecurringRule) (archived : Bool) : RecurringRule := { rule with archived }

end RecurringService

/-- A transaction as the other services have it; the materialiser and the form of a transaction in the account's currency
set no rate. -/
def TransactionBody.withId (t : TransactionBody) (id : JsString) : Transaction where
  id := id
  kind := t.kind
  amount := t.amount
  currency := t.currency
  accountId := t.accountId
  counterAccountId := t.counterAccountId
  categoryId := t.categoryId
  date := t.date
  rate := none

/-! ## What the pages write -/

/-- What the pages write, given what was written before.  The input of a date gives a date of the calendar, and a rule that
is archived was some row of it, however old. -/
inductive ByPage (A : Set (Operation Entity)) (op : Operation Entity) : Prop
  | saveRule (draft : RecurringDraft) (rule : RecurringRule) (c : CalendarDate) (hsave : RecurringService.save draft = .ok rule)
      (hstart : draft.startDate = c.text) (hplain : c.Plain) (htable : op.entity = .recurringRules)
      (hrow : op.row.map Row.body = some (.rule rule))
  | archiveRule (old : Operation Entity) (rule : RecurringRule) (archived : Bool) (hold : old ∈ A)
      (htable₀ : old.entity = .recurringRules) (hrow₀ : old.row.map Row.body = some (.rule rule))
      (htable : op.entity = .recurringRules) (hrow : op.row.map Row.body = some (.rule (RecurringService.setArchived rule archived)))
  | saveTransaction (draft saved : Transaction) (t : TransactionBody) (hsave : Books.save draft = .ok saved)
      (hsaved : t.withId op.entityId = { saved with rate := none }) (htable : op.entity = .transactions)
      (hrow : op.row.map Row.body = some (.transaction t))
  | elsewhere (hrules : op.entity ≠ .recurringRules) (htransactions : op.entity ≠ .transactions)
  | removed (hop : op.op = .delete)

/-! ## What the devices hold -/

/-- A rule that passes its check and begins on a date of the calendar. -/
structure Checked (rule : RecurringRule) : Prop where
  valid : rule.assertValid = .ok ()
  start : ∃ c : CalendarDate, c.Plain ∧ rule.startDate = c.text

/-- The text of an occurrence that is no date as the forms have them: it is past the year 9999, or of a schedule that counts in
months, and a fraction of a month after its start. -/
def OffCalendar (date : JsString) : Prop :=
  ∃ (schedule : Schedule) (c : CalendarDate) (n : ℕ), Begins schedule c ∧ date = dateText schedule c n ∧
    (120000 ≤ (dateOf schedule c n).month ∨ ¬ schedule.WholeAt n)

/-- A transaction that passes its check, but for a date that is none. -/
def Recorded (id : JsString) (t : TransactionBody) : Prop := assertValid (t.withId id) = .ok () ∨ OffCalendar t.date

/-- What is held in a table passes the check of its form. -/
def Passes (e : EntityName) (id : JsString) (body : Entity) : Prop :=
  match e with
  | .recurringRules => ∃ rule, body = .rule rule ∧ Checked rule
  | .transactions => ∃ t, body = .transaction t ∧ Recorded id t
  | _ => True

theorem passes_rule {id : JsString} {rule : RecurringRule} (h : Checked rule) : Passes .recurringRules id (.rule rule) :=
  ⟨rule, rfl, h⟩

theorem passes_transaction {id : JsString} {t : TransactionBody} (h : Recorded id t) :
    Passes .transactions id (.transaction t) :=
  ⟨t, rfl, h⟩

theorem Passes.checked {id : JsString} {rule : RecurringRule} (h : Passes .recurringRules id (.rule rule)) : Checked rule := by
  obtain ⟨rule', heq, h⟩ := h
  cases heq
  exact h

/-! ### Rules -/

section Rules

variable {rule : RecurringRule} {draft : RecurringDraft}

/-- What is checked of the part of a rule that transactions are made of. -/
theorem assertValid_rule (h : rule.assertValid = .ok ()) : 0 < rule.amount ∧ rule.accountId ≠ [] ∧ 1 ≤ rule.interval ∧
    (rule.kind = .transfer → Books.truthy rule.counterAccountId ≠ none ∧ rule.counterAccountId ≠ some rule.accountId) := by
  unfold RecurringRule.assertValid at h
  split_ifs at h with hname hamount haccount hinterval hstart hend hmost hkind hother hsame
  · exact ⟨not_le.mp hamount, haccount, not_lt.mp hinterval, fun _ => ⟨hother, hsame⟩⟩
  · exact ⟨not_le.mp hamount, haccount, not_lt.mp hinterval, fun hk => absurd hk hkind⟩

/-- The check does not look at what is skipped, or at what is archived. -/
theorem Checked.withSkipped (h : Checked rule) (date : JsString) : Checked (rule.withSkipped date) := ⟨h.valid, h.start⟩

theorem Checked.setArchived (h : Checked rule) (archived : Bool) : Checked (RecurringService.setArchived rule archived) :=
  ⟨h.valid, h.start⟩

theorem checked_save (h : RecurringService.save draft = .ok rule) {c : CalendarDate} (hstart : draft.startDate = c.text)
    (hplain : c.Plain) : Checked rule := by
  unfold RecurringService.save at h
  cases hvalid : draft.toRule.assertValid with
  | error e =>
    rw [hvalid] at h
    cases h
  | ok u =>
    rw [hvalid] at h
    cases h
    exact ⟨hvalid, c, hplain, hstart⟩

/-! ### Occurrences -/

/-- What the loop over the dates of a schedule collects. -/
theorem mem_scan {schedule : Schedule} {c : CalendarDate} (h : Begins schedule c) {asOf : JsString} {limit : ℕ}
    {after : Option JsString} : ∀ (left index : ℕ) (dates found : List JsString),
    scan schedule asOf limit after left index dates = .ok found →
    ∀ date ∈ found, date ∈ dates ∨ ∃ n, date = dateText schedule c n
  | 0, index, dates, found, hscan, date, hdate => by
    cases hscan
    exact Or.inl hdate
  | left + 1, index, dates, found, hscan, date, hdate => by
    unfold scan at hscan
    rw [occurrenceAt_text h] at hscan
    have hnew : ∀ found' : List JsString, found' = dates ++ [dateText schedule c index] → date ∈ found' →
        date ∈ dates ∨ ∃ n, date = dateText schedule c n := by
      rintro _ rfl hmem
      rcases List.mem_append.mp hmem with hmem | hmem
      · exact Or.inl hmem
      · exact Or.inr ⟨index, List.mem_singleton.mp hmem⟩
    change (if _ then _ else _ : Except DateError (List JsString)) = _ at hscan
    split_ifs at hscan
    · cases hscan
      exact Or.inl hdate
    · cases hscan
      exact Or.inl hdate
    · exact mem_scan h left (index + 1) dates found hscan date hdate
    · exact mem_scan h left (index + 1) dates found hscan date hdate
    · cases hscan
      exact hnew _ rfl hdate
    · rcases mem_scan h left (index + 1) _ found hscan date hdate with hmem | hmem
      · exact hnew _ rfl hmem
      · exact Or.inr hmem

theorem mem_occurrencesUpTo {schedule : Schedule} {c : CalendarDate} (h : Begins schedule c) {asOf : JsString} {limit : ℕ}
    {after : Option JsString} {dates : List JsString} (hdates : occurrencesUpTo schedule asOf limit after = .ok dates) :
    ∀ date ∈ dates, ∃ n, date = dateText schedule c n := by
  unfold occurrencesUpTo at hdates
  split_ifs at hdates
  · cases hdates
    exact fun date hdate => absurd hdate List.not_mem_nil
  · intro date hdate
    rcases mem_scan h _ _ _ _ hdates date hdate with hmem | ⟨n, hn⟩
    · exact absurd hmem List.not_mem_nil
    · exact ⟨n, hn⟩

/-- What the materialiser makes of a rule passes the check of a transaction. -/
theorem Checked.recorded {c : CalendarDate} (h : Checked rule) (hbegins : Begins rule.toSchedule c) (id : JsString) (n now : ℕ) :
    Recorded id (toTransaction rule (dateText rule.toSchedule c n) now) := by
  obtain ⟨hamount, haccount, -, htransfer⟩ := assertValid_rule h.valid
  by_cases hdated : (dateOf rule.toSchedule c n).month < 120000 ∧ rule.toSchedule.WholeAt n
  · left
    have hdate : datePattern.isMatch (dateText rule.toSchedule c n) = true := (isMatch_dateText hbegins hdated.1).mpr hdated.2
    have htruthy : Books.truthy (some rule.accountId) = some rule.accountId := Books.truthy_eq_some.mpr ⟨rfl, haccount⟩
    unfold assertValid
    show (if rule.amount ≤ 0 then _ else if Books.truthy (some rule.accountId) = none then _
      else if datePattern.isMatch (dateText rule.toSchedule c n) = false then _ else if rule.kind = .transfer then
        if Books.truthy rule.counterAccountId = none then _ else if rule.counterAccountId = some rule.accountId then _ else _
      else _ : Except String Unit) = _
    rw [if_neg (not_le.mpr hamount), if_neg (by rw [htruthy]; nofun), if_neg (by rw [hdate]; nofun)]
    by_cases hkind : rule.kind = .transfer
    · rw [if_pos hkind, if_neg (htransfer hkind).1, if_neg (htransfer hkind).2]
    · rw [if_neg hkind]
  · exact Or.inr ⟨rule.toSchedule, c, n, hbegins, rfl, (not_and_or.mp hdated).imp_left not_lt.mp⟩

end Rules

/-! ## The errands -/

/-- An errand puts what passes its check. -/
def MayPut : Demand → Prop
  | .ask (.put e id body) => Passes e id body
  | _ => True

/-- An errand is told of rules that pass theirs. -/
def GetsChecked : (q : Demand) → Except RunError q.Reply → Prop
  | .ask .rules, .ok rules => ∀ rule ∈ rules, Checked rule.2
  | .rule _, .ok (some rule) => Checked rule
  | _, _ => True

section Errands

abbrev MayAsk (q : Ask) : Prop := MayPut (.ask q)

abbrev AskGets (q : Ask) (r : Except RunError (Reply q)) : Prop := GetsChecked (.ask q) r

theorem begins_of_checked {rule : RecurringRule} (h : Checked rule) : ∃ c, Begins rule.toSchedule c := by
  obtain ⟨c, hplain, hstart⟩ := h.start
  exact ⟨c, hstart, hplain, (assertValid_rule h.valid).2.2.1⟩

theorem guarded_createOne {rule : RecurringRule} {c : CalendarDate} (h : Checked rule) (hbegins : Begins rule.toSchedule c)
    (ruleId : JsString) (result : MaterialisationResult) (n : ℕ) :
    (createOne ruleId rule result (dateText rule.toSchedule c n)).Guarded MayAsk AskGets (fun _ => True) := by
  refine Prog.Guarded.request trivial (fun found _ => ?_)
  cases found with
  | true => exact trivial
  | false =>
    refine Prog.Guarded.request trivial (fun now _ => ?_)
    exact Prog.Guarded.request (passes_transaction (h.recorded hbegins _ n now)) (fun _ _ => trivial)

theorem guarded_materialise {rule : JsString × RecurringRule} (h : Checked rule.2) (asOf : JsString) (limit : ℕ)
    (result : MaterialisationResult) : (materialise asOf limit result rule).Guarded MayAsk AskGets (fun _ => True) := by
  obtain ⟨c, hbegins⟩ := begins_of_checked h
  refine Prog.Guarded.request trivial (fun furthest _ => ?_)
  cases hdue : occurrencesUpTo rule.2.toSchedule asOf limit (resumeAfter furthest) with
  | error e => exact trivial
  | ok due =>
    refine Prog.Guarded.foldlM (fun _ => True) due _ trivial (fun result date hdate _ => ?_)
    obtain ⟨n, rfl⟩ := mem_occurrencesUpTo hbegins hdue date hdate
    exact guarded_createOne h hbegins rule.1 result n

theorem guarded_run (asOf : JsString) (limit : ℕ) : (run asOf limit).Guarded MayAsk AskGets (fun _ => True) :=
  Prog.Guarded.request trivial (fun rules hrules =>
    Prog.Guarded.foldlM (fun _ => True) rules _ trivial (fun result rule hrule _ =>
      guarded_materialise (hrules rule hrule) asOf limit result))

theorem guarded_skip (ruleId date : JsString) : (skip ruleId date).Guarded MayPut GetsChecked (fun _ => True) := by
  refine Prog.Guarded.request trivial (fun found hfound => ?_)
  cases found with
  | none => exact trivial
  | some rule =>
    show (ite _ _ _ : ErrandProg Unit).Guarded _ _ _
    split_ifs
    · exact trivial
    · have hrule : Checked rule := hfound
      have hput : Passes .recurringRules ruleId (.rule (rule.withSkipped date)) := passes_rule (hrule.withSkipped date)
      refine Prog.Guarded.request hput (fun _ _ => ?_)
      refine Prog.Guarded.request trivial (fun there _ => ?_)
      cases there with
      | true => exact Prog.Guarded.request_last trivial (fun _ _ => trivial)
      | false => exact trivial

theorem guarded_errand {D : Type} (j : Errand D) : j.prog.Guarded MayPut GetsChecked (fun _ => True) := by
  cases j with
  | materialise d asOf limit slot =>
    have hrun : ((run asOf limit).embed Demand.ask (fun _ r => r)).Guarded MayPut GetsChecked (fun _ => True) := by
      refine Prog.Guarded.embed ?_ (fun _ _ h => h)
      exact guarded_run asOf limit
    exact Prog.Guarded.bind hrun
  | skip d ruleId date slot => exact guarded_skip ruleId date

end Errands

/-! ## Every run -/

section Runs

variable {D S : Type} [DecidableEq D] {V : Vault D} {site : Site D Entity S} {b b' : Book D S}

/-- Whatever was written passes the check of its form. -/
def AllPass (b : Book D S) : Prop := ∀ op ∈ b.authored, ∀ r, op.row = some r → Passes op.entity op.entityId r.body

/-- Steps of the devices whose edits are those of the pages. -/
def PagesEdit (b b' : Book D S) : Prop := ∀ op ∈ b'.authored, op ∉ b.authored → ByPage b.authored op

omit [DecidableEq D] in
theorem passes_byPage (h : AllPass b) {op : Operation Entity} (hop : ByPage b.authored op) {r : Row Entity}
    (hr : op.row = some r) : Passes op.entity op.entityId r.body := by
  cases hop with
  | saveRule draft rule c hsave hstart hplain htable hrow =>
    rw [hr] at hrow
    rw [htable, Option.some.inj hrow]
    exact passes_rule (checked_save hsave hstart hplain)
  | archiveRule old rule archived hold htable₀ hrow₀ htable hrow =>
    rw [hr] at hrow
    rw [htable, Option.some.inj hrow]
    obtain ⟨r₀, hr₀, hbody⟩ := Option.map_eq_some_iff.mp hrow₀
    have hwas := h old hold r₀ hr₀
    rw [htable₀, hbody] at hwas
    exact passes_rule (hwas.checked.setArchived archived)
  | saveTransaction draft saved t hsave hsaved htable hrow =>
    rw [hr] at hrow
    rw [htable, Option.some.inj hrow]
    refine passes_transaction (Or.inl ?_)
    rw [hsaved]
    exact (save_ok hsave).1
  | elsewhere hrules htransactions =>
    unfold Passes
    split
    · rename_i heq
      exact absurd heq hrules
    · rename_i heq
      exact absurd heq htransactions
    · trivial
  | removed hdel =>
    unfold Operation.row at hr
    rw [hdel] at hr
    cases hr

omit [DecidableEq D] in
/-- What a device shows was written by someone. -/
theorem passes_row (hs : Sound V site b.sync.store) (h : AllPass b) {d : D} {e : EntityName} {r : Row Entity}
    (hr : r ∈ (b.ledger d).tables e) : Passes e r.id r.body := by
  obtain ⟨x, hx, htarget, hrow⟩ := (hs.devices d).rows e r hr
  obtain ⟨rfl, hid⟩ := Prod.mk.inj htarget
  exact hid ▸ h x hx r hrow

omit [DecidableEq D] in
theorem AllPass.insert (h : AllPass b) (op : Operation Entity) (ha : b'.authored = insert op b.authored)
    (hop : ∀ r, op.row = some r → Passes op.entity op.entityId r.body) : AllPass b' := by
  intro x hx r hr
  rw [ha] at hx
  rcases hx with rfl | hx
  · exact hop r hr
  · exact h x hx r hr

omit [DecidableEq D] in
theorem getsChecked_rules (hs : Sound V site b.sync.store) (h : AllPass b) (d : D) :
    ∀ rule ∈ activeRules (b.ledger d), Checked rule.2 := by
  intro rule hrule
  obtain ⟨r, hr, hsome⟩ := List.mem_filterMap.mp hrule
  have hpass := passes_row hs h hr
  split at hsome
  · rename_i stored hbody
    split_ifs at hsome
    cases hsome
    rw [hbody] at hpass
    exact hpass.checked
  · cases hsome

omit [DecidableEq D] in
theorem getsChecked_rule (hs : Sound V site b.sync.store) (h : AllPass b) {d : D} {id : JsString} {rule : RecurringRule}
    (hrule : b.ruleAt d id = some rule) : Checked rule := by
  unfold Book.ruleAt at hrule
  split at hrule
  · rename_i rid updatedAt stored hrow
    cases hrule
    exact (passes_row hs h (Table.get?_eq_some.mp hrow).1).checked
  · cases hrule

/-- What a request of an errand does: it puts only what passes, and is told of rules that pass. -/
theorem serving_forms (hs : Sound V site b.sync.store) (h : AllPass b) {j : Errand D} {q : Demand}
    {r : Except RunError q.Reply} (hmay : MayPut q) (hserving : Serving V j q b r b') : AllPass b' ∧ GetsChecked q r := by
  cases hserving with
  | rules => exact ⟨h, getsChecked_rules hs h j.device⟩
  | put _ e id body wall L op hput =>
    obtain ⟨-, htarget, hrow⟩ := op_of_put hput
    obtain ⟨rfl, rfl⟩ := Prod.mk.inj htarget
    refine ⟨h.insert op ?_ (fun r hr => ?_), trivial⟩
    · cases j <;> rfl
    · rw [hrow] at hr
      cases hr
      exact hmay
  | rule _ id =>
    refine ⟨h, ?_⟩
    cases hrule : b.ruleAt j.device id with
    | none => exact trivial
    | some rule => exact getsChecked_rule hs h hrule
  | remove _ e id wall L op hremove =>
    refine ⟨h.insert op ?_ (fun r hr => ?_), trivial⟩
    · cases j <;> rfl
    · unfold Operation.row at hr
      rw [(op_of_remove hremove).1] at hr
      cases hr
  | missing _ id _ => cases j <;> exact ⟨h, trivial⟩
  | latest _ e start => exact ⟨h, trivial⟩
  | hasHistory _ e id => exact ⟨h, trivial⟩
  | now _ n => exact ⟨h, trivial⟩
  | putRefused => exact ⟨h, trivial⟩
  | found => exact ⟨h, trivial⟩
  | removeRefused => exact ⟨h, trivial⟩

variable (V site) in
/-- The devices with their errands, and users who edit on the pages. -/
abbrev pages : Threads (Errand D) Demand Demand.Reply RunError Unit (Book D S) :=
  (sharing V site).restrict (fun _ _ _ _ => True) PagesEdit

theorem guarding_pages : Threads.Guarding (pages V site) (fun b => Sound V site b.sync.store) AllPass MayPut GetsChecked where
  body := guarded_errand
  enter := fun _ _ h => h
  step := fun _ _ _ _ _ hs _ h hmay hserved => serving_forms hs h hmay hserved.1
  leave := fun _ _ _ h => h
  env := by
    rintro b b' - - h ⟨-, hpages⟩ op hop r hr
    by_cases hold : op ∈ b.authored
    · exact h op hold r hr
    · exact passes_byPage h (hpages op hop hold) hr
  crash := fun _ _ h => h

theorem reach_world {dest : S} {c : Conf (Errand D) Demand Demand.Reply RunError Unit (Book D S)}
    (h : (pages V site).Reach (opened dest) c) : (world V site).Reach (start dest) c.store.sync := by
  induction h with
  | refl => exact Relation.ReflTransGen.refl
  | tail _ hstep ih =>
    cases hstep with
    | ask d q k r s h hs => exact ih.trans hs.1.reach_sync.of_restrict
    | env s h =>
      obtain ⟨⟨sync, hworld, rfl⟩, -⟩ := h
      exact ih.tail hworld
    | _ => exact ih

/-- In every run of the devices, with their sync cycles, failures and restarts, in which the users edit on the pages while
the materialiser runs and occurrences are skipped: every rule that any device holds passes the check of the form of rules,
and every transaction that any device holds passes the check of the form of transactions, but for occurrences past the year
9999 and those at a fraction of a month, which an interval that is not whole leads to. -/
theorem forms_hold {dest : S} (hdest : site.holds dest = ∅)
    {c : Conf (Errand D) Demand Demand.Reply RunError Unit (Book D S)} (h : (pages V site).Reach (opened dest) c) (d : D) :
    (∀ r ∈ (c.store.ledger d).tables .recurringRules, ∃ rule, r.body = .rule rule ∧ Checked rule) ∧
      ∀ r ∈ (c.store.ledger d).tables .transactions, ∃ t, r.body = .transaction t ∧ Recorded r.id t := by
  have hsound : ∀ c', (pages V site).Reach (opened dest) c' → Sound V site c'.store.sync.store := fun c' hc' =>
    ((soundRuns V site).reach (Threads.kept_of_idle (sound_initial hdest) (fun _ => rfl)) (reach_world hc')).1
  have hpass : AllPass c.store :=
    (guarding_pages.reach hsound (fun op hop => hop.elim) (fun _ => rfl) h).1
  exact ⟨fun r hr => passes_row (hsound c h) hpass hr, fun r hr => passes_row (hsound c h) hpass hr⟩

end Runs

/-! ## A run -/

/-- The draft that the rule of device `a` is saved from. -/
def coffeeDraft : RecurringDraft :=
  ⟨js "Coffee", .expense, -350, js "EUR", js "a1", 1, .day, js "2024-01-01", none, none, none, none, none, none,
    none, none, none⟩

def firstOfJanuary : CalendarDate := ⟨24288, 1, by decide, by decide⟩

theorem reach_pages {D S : Type} [DecidableEq D] {V : Vault D} {site : Site D Entity S} {dest : S}
    {c : Conf (Errand D) Demand Demand.Reply RunError Unit (Book D S)} (h : (pages V site).Reach (opened dest) c) {d : D}
    {L : Ledger Entity} {op : Operation Entity} (hedit : Edit V c.store.sync.store (c.store.sync.store.afterEdit d L op))
    (hby : ByPage c.store.authored op) : (pages V site).Reach (opened dest) ⟨c.store.edited d L op, c.running⟩ := by
  refine Relation.ReflTransGen.tail h (Threads.Step.env c _ ⟨⟨_, Threads.Step.env _ _ hedit, rfl⟩, fun x hx hnew => ?_⟩)
  rcases hx with rfl | hx
  · exact hby
  · exact absurd hx hnew

/-- The run of the materialiser on device `a`. -/
abbrev firstRun : Errand Trio := .materialise .a (js "2024-01-01") 1 0

theorem reach_generated : (pages trio (mapSite Trio Entity)).Reach (opened Table.empty) generated := by
  have hruled : (pages trio (mapSite Trio Entity)).Reach (opened Table.empty) ruled := by
    unfold ruled TrioBook.edit
    simp only [play]
    split
    · rename_i L op hput
      obtain ⟨-, htarget, hrow⟩ := op_of_put hput
      refine reach_pages Relation.ReflTransGen.refl (Edit.put _ Trio.a 0 _ _ _ L op hput) ?_
      refine ByPage.saveRule coffeeDraft (coffee (daily none)) firstOfJanuary ?_ ?_ ⟨by decide, by decide⟩ (congrArg Prod.fst htarget) ?_
      · rfl
      · decide +kernel
      · rw [hrow]
        rfl
    · exact Relation.ReflTransGen.refl
  have hrun : (pages trio (mapSite Trio Entity)).Reach ruled _ :=
    reach_errand (fun _ _ _ _ _ => trivial) ruled firstRun 0 5 rfl (by decide +kernel)
  exact (hruled.trans hrun).trans (reach_exchange_moves (fun b b' _ ha _ op hop hnew => absurd (ha ▸ hop) hnew) _ _
    (by decide +kernel))

theorem forms_hold_generated : ((generated.store.ledger .b).tables .transactions).rows.length = 1 ∧
    ∀ r ∈ (generated.store.ledger .b).tables .transactions, ∃ t, r.body = .transaction t ∧ Recorded r.id t :=
  ⟨by decide +kernel, (forms_hold mapSite_empty reach_generated .b).2⟩

end Recurring

end EasyDocket
