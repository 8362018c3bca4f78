import EasyDocket.Recurring.Materialiser

/-!
# Catching up

What the log knows of a rule is always a prefix of its dates, whatever the user does in between: runs lengthen the prefix,
by as much as their limit allows, and nothing else does (`catchUp_complete`).
-/

namespace EasyDocket

namespace Recurring

open Books Batches Protocol

open Prog (request Ends)

/-! ## What the ledger answers -/

section Ids

variable {start id s t : JsString}

/-- What lies between a prefix and the prefix with `\uffff` has the prefix; by induction on it. -/
theorem prefix_of_between : ∀ {start id : JsString}, start ≤ id → id ≤ start ++ [65535] → start <+: id
  | [], id, _, _ => List.nil_prefix
  | a :: start, [], h, _ => absurd h (not_le.mpr (List.nil_lt_cons a start))
  | a :: start, b :: id, h, h' => by
    rw [List.cons_append] at h'
    rw [← not_lt, List.cons_lt_cons_iff, not_or] at h h'
    obtain ⟨hab, hrest⟩ := h
    obtain ⟨hba, hrest'⟩ := h'
    obtain rfl : a = b := le_antisymm (not_lt.mp hab) (not_lt.mp hba)
    exact List.cons_prefix_cons.mpr ⟨rfl, prefix_of_between (not_lt.mp (fun hlt => hrest ⟨rfl, hlt⟩))
      (not_lt.mp (fun hlt => hrest' ⟨rfl, hlt⟩))⟩

theorem append_lt_append_iff : start ++ s < start ++ t ↔ s < t := by
  rw [Numeral.lt_append_iff rfl]
  exact ⟨fun h => (h.resolve_left (lt_irrefl _)).2, fun h => Or.inr ⟨rfl, h⟩⟩

theorem append_le_append_iff : start ++ s ≤ start ++ t ↔ s ≤ t := by
  rw [← not_lt, ← not_lt, append_lt_append_iff]

/-- The greatest of some ids. -/
theorem foldl_higher : ∀ (l : List JsString) (m : Option JsString),
    (l.foldl higher m = none → m = none ∧ l = []) ∧
      ∀ x, l.foldl higher m = some x → (x ∈ l ∨ m = some x) ∧ (∀ y ∈ l, y ≤ x) ∧ ∀ y, m = some y → y ≤ x
  | [], m => ⟨fun h => ⟨h, rfl⟩, fun x h => ⟨Or.inr h, fun y hy => absurd hy List.not_mem_nil, fun y hy => by
      rw [List.foldl_nil, hy] at h
      exact le_of_eq (Option.some.inj h)⟩⟩
  | a :: l, m => by
    obtain ⟨hnone, hsome⟩ := foldl_higher l (higher m a)
    have hstep : ∃ z, higher m a = some z ∧ (z = a ∨ m = some z) ∧ a ≤ z ∧ ∀ y, m = some y → y ≤ z := by
      cases m with
      | none => exact ⟨a, rfl, Or.inl rfl, le_refl a, nofun⟩
      | some b =>
        by_cases hlt : b < a
        · refine ⟨a, if_pos hlt, Or.inl rfl, le_refl a, fun y hy => ?_⟩
          cases hy
          exact hlt.le
        · refine ⟨b, if_neg hlt, Or.inr rfl, not_lt.mp hlt, fun y hy => ?_⟩
          cases hy
          exact le_refl b
    obtain ⟨z, hz, hwhich, haz, hmz⟩ := hstep
    rw [List.foldl_cons]
    refine ⟨fun h => ?_, fun x h => ?_⟩
    · rw [(hnone h).1] at hz
      cases hz
    · obtain ⟨hmem, hall, hle⟩ := hsome x h
      have hzx := hle z hz
      refine ⟨?_, ?_, fun y hy => (hmz y hy).trans hzx⟩
      · rcases hmem with hmem | hmem
        · exact Or.inl (List.mem_cons_of_mem _ hmem)
        · obtain rfl : z = x := Option.some.inj (hz.symm.trans hmem)
          rcases hwhich with rfl | hwhich
          · exact Or.inl List.mem_cons_self
          · exact Or.inr hwhich
      · intro y hy
        rcases List.mem_cons.mp hy with rfl | hy
        · exact haz.trans hzx
        · exact hall y hy

/-- What of a rule's ids the log knows, if these are known: the last one is the highest. -/
theorem latestEntityIdWithPrefix_eq {L : Ledger Entity} {ids : List JsString} (hsorted : ids.Pairwise (· < ·))
    (hrange : ∀ id ∈ ids, start ≤ id ∧ id ≤ start ++ [65535]) (hknown : ∀ id, start <+: id → (Known L id ↔ id ∈ ids)) :
    latestEntityIdWithPrefix L .transactions start = ids.getLast? := by
  have hmem : ∀ id, id ∈ (L.oplog.rows.filter (fun op => op.entity = .transactions ∧ start ≤ op.entityId ∧
      op.entityId ≤ start ++ [65535])).map (fun op => op.entityId) ↔ id ∈ ids := by
    intro id
    rw [List.mem_map]
    constructor
    · rintro ⟨o, ho, rfl⟩
      obtain ⟨hlog, hcond⟩ := List.mem_filter.mp ho
      obtain ⟨hentity, hge, hle⟩ := of_decide_eq_true hcond
      exact (hknown _ (prefix_of_between hge hle)).mp ⟨o, hlog, by rw [← hentity]; rfl⟩
    · intro hid
      obtain ⟨hge, hle⟩ := hrange id hid
      obtain ⟨o, hlog, htarget⟩ := (hknown id (prefix_of_between hge hle)).mpr hid
      obtain ⟨hentity, rfl⟩ := Prod.mk.inj htarget
      exact ⟨o, List.mem_filter.mpr ⟨hlog, decide_eq_true ⟨hentity, hge, hle⟩⟩, rfl⟩
  unfold latestEntityIdWithPrefix
  generalize (L.oplog.rows.filter (fun op => op.entity = .transactions ∧ start ≤ op.entityId ∧
    op.entityId ≤ start ++ [65535])).map (fun op => op.entityId) = found at hmem ⊢
  obtain ⟨hnone, hsome⟩ := foldl_higher found none
  cases hlast : ids.getLast? with
  | none =>
    have hnil : ids = [] := List.getLast?_eq_none_iff.mp hlast
    have hempty : found = [] := by
      refine List.eq_nil_iff_forall_not_mem.mpr (fun id hid => ?_)
      rw [hmem, hnil] at hid
      exact List.not_mem_nil hid
    rw [hempty]
    rfl
  | some last =>
    have hlastmem := (hmem last).mpr (List.mem_of_getLast? hlast)
    cases hfold : found.foldl higher none with
    | none =>
      rw [(hnone hfold).2] at hlastmem
      exact absurd hlastmem List.not_mem_nil
    | some x =>
      obtain ⟨hx, hall, -⟩ := hsome x hfold
      have hle : x ≤ last := le_getLast? hsorted hlast x ((hmem x).mp (hx.resolve_right nofun))
      rw [le_antisymm hle (hall last hlastmem)]

theorem hasHistory_iff {L : Ledger Entity} : hasHistory L .transactions id = true ↔ Known L id := by
  unfold hasHistory
  rw [← not_iff_not, Bool.not_eq_true, Option.isSome_eq_false_iff, Option.isNone_iff_eq_none, Ledger.latestStampFor_eq_none]
  exact ⟨fun h ⟨o, ho, ht⟩ => h o ho ht, fun h o ho ht => h ⟨o, ho, ht⟩⟩

end Ids

/-! ## Writes -/

/-- The log has nothing that the clock is not past, now and after the app is opened again. -/
structure LogPast (L : Ledger Entity) : Prop where
  past : ∀ o ∈ L.oplog, L.clock.Past o.hlc
  pastState : ∀ o ∈ L.oplog, (L.clockState.getD Clock.zero).Past o.hlc

/-- What a write of one row does to what the materialiser asks. -/
structure Wrote (L L' : Ledger Entity) (e : EntityName) (id : JsString) : Prop where
  past : LogPast L'
  known : ∀ id', Known L' id' ↔ Known L id' ∨ e = .transactions ∧ id' = id
  rules : e ≠ .recurringRules → activeRules L' = activeRules L

section Writes

variable {device id : JsString} {e : EntityName} {body : Entity} {wall : ℕ} {L L' : Ledger Entity} {op : Operation Entity}

theorem wrote_of_edited (hL : LogPast L) (h : Ledger.Edited device L L' op) (htarget : op.target = (e, id))
    (htables : ∀ e', e' ≠ e → L'.tables e' = L.tables e') : Wrote L L' e id := by
  have hlt : ∀ o ∈ L.oplog, o.hlc < op.hlc := by
    intro o ho
    refine Stamp.lt_of_time_lt ?_
    rw [h.stamp]
    exact lt_of_le_of_lt (hL.past o ho) h.time
  have hmem : ∀ o, o ∈ L'.oplog ↔ o = ⟨op, false⟩ ∨ o ∈ L.oplog := by
    intro o
    rw [h.oplog, Table.mem_put]
    exact ⟨fun ho => ho.imp_right And.left, fun ho => ho.imp_right (fun ho => ⟨ho, (hlt o ho).ne⟩)⟩
  have hpast : ∀ o ∈ L'.oplog, L'.clock.Past o.hlc := by
    intro o ho
    rcases (hmem o).mp ho with rfl | ho
    · show L'.clock.Past op.hlc
      rw [h.stamp]
      exact Clock.past_stamp _ _
    · exact (hL.past o ho).mono h.time.le
  refine ⟨⟨hpast, fun o ho => by rw [h.clockState]; exact hpast o ho⟩, fun id' => ?_, fun he => ?_⟩
  · constructor
    · rintro ⟨o, ho, ht⟩
      rcases (hmem o).mp ho with rfl | ho
      · obtain ⟨rfl, rfl⟩ := Prod.mk.inj (htarget.symm.trans ht)
        exact Or.inr ⟨rfl, rfl⟩
      · exact Or.inl ⟨o, ho, ht⟩
    · rintro (⟨o, ho, ht⟩ | ⟨rfl, rfl⟩)
      · exact ⟨o, (hmem o).mpr (Or.inr ho), ht⟩
      · exact ⟨⟨op, false⟩, (hmem _).mpr (Or.inl rfl), htarget⟩
  · unfold activeRules
    rw [htables _ (Ne.symm he)]

theorem wrote_of_put (hL : LogPast L) (h : L.put device wall e id body = .ok (L', op)) : Wrote L L' e id := by
  have hedited := Ledger.put_edited h
  cases ht : L.clock.tick wall with
  | error x =>
    unfold Ledger.put at h
    rw [ht] at h
    cases h
  | ok c =>
    rw [Ledger.put_of_tick ht] at h
    cases h
    exact wrote_of_edited hL hedited rfl (fun e' he => Function.update_of_ne he _ _)

theorem wrote_of_remove (hL : LogPast L) (h : L.remove device wall e id = .ok (L', op)) : Wrote L L' e id := by
  have hedited := Ledger.remove_edited h
  unfold Ledger.remove at h
  cases ht : L.clock.tick wall with
  | error x =>
    rw [ht] at h
    cases h
  | ok c =>
    rw [ht] at h
    cases h
    exact wrote_of_edited hL hedited rfl (fun e' he => Function.update_of_ne he _ _)

theorem LogPast.initialise (h : LogPast L) : LogPast L.initialise := ⟨h.pastState, h.pastState⟩

end Writes

/-! ## What the log knows -/

/-- What is used of the ids of rules: they are of hexadecimal digits and hyphens, as UUIDs are. -/
structure RuleId (id : JsString) : Prop where
  ne_nil : id ≠ []
  units : ∀ c ∈ id, (JsNumber.isDigitIn 16 c || c = dash) = true

abbrev StoredRule := JsString × RecurringRule

/-- What is due of some rules: increasing dates, of which `occurrencesUpTo` gives those past a date. -/
structure Scheduled (rules : List StoredRule) (due : StoredRule → List JsString) (asOf : JsString) (limit : ℕ) : Prop where
  ids : ∀ rule ∈ rules, RuleId rule.1
  nodup : (rules.map Prod.fst).Nodup
  sorted : ∀ rule ∈ rules, (due rule).Pairwise (· < ·)
  dates : ∀ rule ∈ rules, ∀ date ∈ due rule, datePattern.isMatch date = true
  asks : ∀ rule ∈ rules, ∀ after, occurrencesUpTo rule.2.toSchedule asOf limit after = .ok ((past (due rule) after).take limit)

/-- The ids of the first dates of a rule. -/
def idsOf (due : StoredRule → List JsString) (n : StoredRule → ℕ) (rule : StoredRule) : List JsString :=
  ((due rule).take (n rule)).map (occurrenceId rule.1)

/-- Of each rule the log knows the first dates, and the materialiser has put them one by one. -/
structure CaughtUp (rules : List StoredRule) (due : StoredRule → List JsString) (n : StoredRule → ℕ) (w : World) :
    Prop where
  active : activeRules w.ledger = rules
  past : LogPast w.ledger
  known : ∀ rule ∈ rules, ∀ id, starting rule.1 <+: id → (Known w.ledger id ↔ id ∈ idsOf due n rule)
  made : ∀ rule ∈ rules, w.made.filter (fun id => (starting rule.1).isPrefixOf id) = idsOf due n rule

section Runs

variable {device asOf : JsString} {limit k d : ℕ} {rules : List StoredRule} {rule other : StoredRule}
  {due : StoredRule → List JsString} {n n' : StoredRule → ℕ} {w w' : World} {date id : JsString}

theorem RuleId.colon_notMem (h : RuleId id) : colon ∉ id := fun hmem => absurd (h.units colon hmem) (by decide)

theorem RuleId.line (h : RuleId id) : id.all (fun c => !isLineTerminator c) = true := by
  rw [List.all_eq_true]
  intro c hc
  have hunit := h.units c hc
  rw [Bool.not_eq_true', Bool.eq_false_iff]
  intro hline
  unfold isLineTerminator at hline
  simp only [List.contains_eq_mem, List.mem_cons, List.not_mem_nil, or_false, decide_eq_true_eq] at hline
  have hval : c = 10 ∨ c = 13 ∨ c = 8232 ∨ c = 8233 := by
    rcases hline with h | h | h | h
    · exact Or.inl (Fin.ext h)
    · exact Or.inr (Or.inl (Fin.ext h))
    · exact Or.inr (Or.inr (Or.inl (Fin.ext h)))
    · exact Or.inr (Or.inr (Or.inr (Fin.ext h)))
  rcases hval with rfl | rfl | rfl | rfl <;> exact absurd hunit (by decide)

theorem starting_occurrenceId (id date : JsString) : starting id <+: occurrenceId id date := List.prefix_append _ _

/-- Ids of different rules begin differently. -/
theorem starting_unique {a b : JsString} (ha : RuleId a) (hb : RuleId b) (h : starting a <+: id) (h' : starting b <+: id) :
    a = b := by
  obtain ⟨s, rfl⟩ := h
  obtain ⟨t, ht⟩ := h'
  unfold starting at ht
  rw [List.append_assoc, List.append_assoc] at ht
  exact (split_at_mark hb.colon_notMem ha.colon_notMem ht).1.symm

theorem parseOccurrenceId_occurrenceId (hid : RuleId id) (hdate : datePattern.isMatch date = true) :
    parseOccurrenceId (occurrenceId id date) = some (id, date) := by
  have hlen : date.length = 10 :=
    Nat.le_antisymm (Pattern.length_of_isMatch hdate).2 (Pattern.length_of_isMatch hdate).1
  have hcut : (occurrenceId id date).length - 10 = (starting id).length := by
    unfold occurrenceId
    rw [List.length_append, hlen, Nat.add_sub_cancel]
  have hfront : (occurrenceId id date).take (starting id).length = starting id := List.take_left
  have hback : (occurrenceId id date).drop (starting id).length = date := List.drop_left
  have hlast : (starting id).getLast? = some colon := List.getLast?_concat
  have hinit : (starting id).dropLast = id := List.dropLast_concat
  unfold parseOccurrenceId
  dsimp only
  rw [hcut, hfront, hback, hlast, hinit]
  exact if_pos ⟨hdate, rfl, hid.ne_nil, hid.line⟩

theorem Scheduled.rule_eq (h : Scheduled rules due asOf limit) (hr : rule ∈ rules) (ho : other ∈ rules)
    (hid : other.1 = rule.1) : other = rule := List.inj_on_of_nodup_map h.nodup ho hr hid

/-- A rule resumes after the last of its dates that the log knows. -/
theorem resumeAfter_eq (h : Scheduled rules due asOf limit) (hw : CaughtUp rules due n w) (hr : rule ∈ rules) :
    resumeAfter (latestEntityIdWithPrefix w.ledger .transactions (starting rule.1)) =
      ((due rule).take (n rule)).getLast? := by
  have hdates : ∀ date ∈ (due rule).take (n rule), datePattern.isMatch date = true :=
    fun date hd => h.dates rule hr date (List.mem_of_mem_take hd)
  have hsorted : (idsOf due n rule).Pairwise (· < ·) :=
    List.pairwise_map.mpr (((h.sorted rule hr).take).imp (fun hlt => append_lt_append_iff.mpr hlt))
  have hrange : ∀ id ∈ idsOf due n rule, starting rule.1 ≤ id ∧ id ≤ starting rule.1 ++ [65535] := by
    intro id hid
    obtain ⟨date, hd, rfl⟩ := List.mem_map.mp hid
    refine ⟨?_, append_le_append_iff.mpr ?_⟩
    · rw [← List.append_nil (starting rule.1)]
      unfold occurrenceId
      exact append_le_append_iff.mpr (not_lt.mp (fun hlt => absurd hlt (by simp)))
    · -- a date begins with a digit
      have hmatch := hdates date hd
      cases date with
      | nil => exact (List.nil_lt_cons _ _).le
      | cons c rest =>
        have hlt : c < 65535 := by
          rcases digit_or_dash hmatch c List.mem_cons_self with hdigit | rfl
          · unfold isDigit at hdigit
            rw [Bool.and_eq_true, decide_eq_true_iff, decide_eq_true_iff] at hdigit
            exact lt_of_le_of_lt hdigit.2 (by decide)
          · decide
        exact le_of_lt (List.cons_lt_cons_iff.mpr (Or.inl hlt))
  rw [latestEntityIdWithPrefix_eq hsorted hrange (hw.known rule hr)]
  unfold idsOf
  rw [List.getLast?_map]
  cases hlast : ((due rule).take (n rule)).getLast? with
  | none => rfl
  | some date =>
    have hne : occurrenceId rule.1 date ≠ [] := List.append_ne_nil_of_left_ne_nil
      (List.append_ne_nil_of_right_ne_nil _ (List.cons_ne_nil _ _)) _
    show (if occurrenceId rule.1 date = [] then none else _) = _
    rw [if_neg hne, parseOccurrenceId_occurrenceId (h.ids rule hr) (hdates date (List.mem_of_getLast? hlast))]
    rfl

/-! ## Steps -/

theorem CaughtUp.congr (h : CaughtUp rules due n w) (hn : ∀ rule ∈ rules, (due rule).take (n rule) = (due rule).take (n' rule)) :
    CaughtUp rules due n' w := by
  have hids : ∀ rule ∈ rules, idsOf due n rule = idsOf due n' rule := by
    intro rule hr
    unfold idsOf
    rw [hn rule hr]
  exact ⟨h.active, h.past, fun rule hr => by rw [← hids rule hr]; exact h.known rule hr,
    fun rule hr => by rw [← hids rule hr]; exact h.made rule hr⟩

/-- The user adds nothing to what the log knows of a rule. -/
theorem CaughtUp.user (h : CaughtUp rules due n w) (hu : UserStep device w w') : CaughtUp rules due n w' ∧ w'.made = w.made := by
  have hwrote : ∀ {e : EntityName} {id : JsString} {L : Ledger Entity}, MayWrite w.ledger e id → Wrote w.ledger L e id →
      CaughtUp rules due n { w with ledger := L } := by
    intro e id L hmay hL
    refine ⟨(hL.rules hmay.1).trans h.active, hL.past, fun rule hr id' hstart => ?_, h.made⟩
    show Known L id' ↔ _
    rw [hL.known id', ← h.known rule hr id' hstart]
    refine ⟨fun hknown => hknown.elim (fun h => h) ?_, Or.inl⟩
    rintro ⟨he, rfl⟩
    rcases hmay.2 he with hknown | hforeign
    · exact hknown
    · exact absurd hstart (hforeign rule (h.active ▸ hr))
  cases hu with
  | put e id body wall L op hmay hput => exact ⟨hwrote hmay (wrote_of_put h.past hput), rfl⟩
  | remove e id wall L op hmay hremove => exact ⟨hwrote hmay (wrote_of_remove h.past hremove), rfl⟩
  | reopen => exact ⟨⟨h.active, h.past.initialise, h.known, h.made⟩, rfl⟩

theorem getElem?_split {α : Type} {l : List α} {i : ℕ} {a : α} (h : l[i]? = some a) :
    l = l.take i ++ a :: l.drop (i + 1) ∧ l.take (i + 1) = l.take i ++ [a] := by
  obtain ⟨hlt, rfl⟩ := List.getElem?_eq_some_iff.mp h
  exact ⟨by rw [← List.drop_eq_getElem_cons hlt, List.take_append_drop], List.take_succ_eq_append_getElem hlt⟩

/-- A date is not among those before it. -/
theorem Scheduled.notMem_idsOf (h : Scheduled rules due asOf limit) (hr : rule ∈ rules)
    (hdate : (due rule)[n rule]? = some date) : occurrenceId rule.1 date ∉ idsOf due n rule := by
  intro hmem
  obtain ⟨earlier, he, heq⟩ := List.mem_map.mp hmem
  obtain rfl : earlier = date := List.append_cancel_left heq
  have hsorted := h.sorted rule hr
  rw [(getElem?_split hdate).1] at hsorted
  exact absurd ((List.pairwise_append.mp hsorted).2.2 earlier he earlier List.mem_cons_self) (lt_irrefl _)

/-- The next date of a rule is put. -/
theorem CaughtUp.put {body : Entity} {wall : ℕ} {L : Ledger Entity} {op : Operation Entity} (h : Scheduled rules due asOf limit)
    (hw : CaughtUp rules due n w) (hr : rule ∈ rules) (hdate : (due rule)[n rule]? = some date)
    (hnext : n' rule = n rule + 1) (hsame : ∀ other ∈ rules, other ≠ rule → n' other = n other)
    (hput : w.ledger.put device wall .transactions (occurrenceId rule.1 date) body = .ok (L, op)) :
    CaughtUp rules due n' ⟨L, w.made ++ [occurrenceId rule.1 date]⟩ := by
  have hwrote := wrote_of_put hw.past hput
  have hown : idsOf due n' rule = idsOf due n rule ++ [occurrenceId rule.1 date] := by
    unfold idsOf
    rw [hnext, (getElem?_split hdate).2, List.map_append]
    rfl
  have hother : ∀ other ∈ rules, other ≠ rule → idsOf due n' other = idsOf due n other := by
    intro other ho hne
    unfold idsOf
    rw [hsame other ho hne]
  have hapart : ∀ other ∈ rules, other ≠ rule → ¬ starting other.1 <+: occurrenceId rule.1 date := fun other ho hne hstart =>
    hne (h.rule_eq hr ho (starting_unique (h.ids other ho) (h.ids rule hr) hstart (starting_occurrenceId _ _)))
  refine ⟨(hwrote.rules (by decide)).trans hw.active, hwrote.past, fun other ho id hstart => ?_, fun other ho => ?_⟩
  · show Known L id ↔ _
    rw [hwrote.known id, hw.known other ho id hstart]
    by_cases hne : other = rule
    · subst hne
      rw [hown, List.mem_append, List.mem_singleton]
      exact or_congr_right (and_iff_right rfl)
    · rw [hother other ho hne]
      refine or_iff_left ?_
      rintro ⟨-, rfl⟩
      exact hapart other ho hne hstart
  · show (w.made ++ [occurrenceId rule.1 date]).filter _ = _
    rw [List.filter_append, hw.made other ho]
    by_cases hne : other = rule
    · subst hne
      rw [hown, List.filter_singleton, List.isPrefixOf_iff_prefix.mpr (starting_occurrenceId _ _)]
      rfl
    · rw [hother other ho hne, List.filter_singleton,
        Bool.eq_false_iff.mpr (fun hp => hapart other ho hne (List.isPrefixOf_iff_prefix.mp hp))]
      exact List.append_nil _

/-! ## A run -/

/-- What a run may ask, and what the user does in between. -/
def runProtocol (device : JsString) : Protocol Ask Reply RunError World where
  step := Serves device
  rely := Relation.ReflTransGen (UserStep device)
  rely_refl := fun _ => Relation.ReflTransGen.refl
  rely_trans := fun h h' => h.trans h'
  pre := fun _ _ => True

/-- The clock refused a write, and since then only the user did anything. -/
def Refused (device : JsString) (e : RunError) (w : World) : Prop :=
  ∃ x wall w₀ entity id body, e = .clock x ∧ w₀.ledger.put device wall entity id body = .error x ∧
    Relation.ReflTransGen (UserStep device) w₀ w

/-- The first dates are known, and nothing was put if `idle` holds. -/
structure Stage (rules : List StoredRule) (due : StoredRule → List JsString) (n : StoredRule → ℕ) (idle : Prop)
    (made : List JsString) (w : World) : Prop where
  caughtUp : CaughtUp rules due n w
  made : idle → w.made = made

variable {idle : Prop} {made : List JsString} {β : Type} {post : β → World → Prop}

theorem stable_stage : (runProtocol device).Stable (Stage rules due n idle made) := by
  intro w w' h hrely
  induction hrely with
  | refl => exact h
  | tail _ hu ih =>
    obtain ⟨hw, hmade⟩ := ih.caughtUp.user hu
    exact ⟨hw, fun hidle => hmade.trans (ih.made hidle)⟩

/-- A request that reads. -/
theorem wp_ask {q : Ask} {f : Reply q → RunProg β} (h : Stage rules due n idle made w)
    (hserved : ∀ w r w', Serves device q w r w' → w' = w ∧ ∃ a, r = .ok a)
    (hok : ∀ w a, Stage rules due n idle made w → Serves device q w (.ok a) w → (runProtocol device).wp post (Refused device) (f a) w) :
    (runProtocol device).wp post (Refused device) ((request q).bind f) w := by
  refine wp_request_served stable_stage h (fun _ _ => trivial) (fun w r w' hw hstep => ?_)
  obtain ⟨rfl, a, rfl⟩ := hserved w r w' hstep
  exact ⟨a, rfl, hok w' a hw hstep⟩

theorem serves_put {e : EntityName} {body : Entity} {r : Except RunError Unit} (h : Serves device (.put e id body) w r w') :
    (∃ L op wall, w.ledger.put device wall e id body = .ok (L, op) ∧ r = .ok () ∧ w' = ⟨L, w.made ++ [id]⟩) ∨
      ∃ x wall, w.ledger.put device wall e id body = .error x ∧ r = .error (.clock x) ∧ w' = w := by
  cases h
  · exact Or.inl ⟨_, _, _, by assumption, rfl, rfl⟩
  · exact Or.inr ⟨_, _, by assumption, rfl, rfl⟩

theorem wp_put {e : EntityName} {body : Entity} {f : Unit → RunProg β} (h : Stage rules due n idle made w)
    (hok : ∀ w L op wall, Stage rules due n idle made w → w.ledger.put device wall e id body = .ok (L, op) →
      (runProtocol device).wp post (Refused device) (f ()) ⟨L, w.made ++ [id]⟩) :
    (runProtocol device).wp post (Refused device) ((request (.put e id body)).bind f) w := by
  intro w' hrely
  refine ⟨trivial, fun r w'' hstep => ?_⟩
  have hw' := stable_stage w w' h hrely
  rcases serves_put hstep with ⟨L, op, wall, hput, rfl, rfl⟩ | ⟨x, wall, hput, rfl, rfl⟩
  · exact hok w' L op wall hw' hput
  · exact fun w₁ hrely => ⟨x, wall, w'', e, id, body, rfl, hput, hrely⟩

/-- One date: the log does not know it, so it is put. -/
theorem wp_createOne (hs : Scheduled rules due asOf limit) (hr : rule ∈ rules) (hdate : (due rule)[n rule]? = some date)
    (hnext : n' rule = n rule + 1) (hsame : ∀ other ∈ rules, other ≠ rule → n' other = n other) (hidle : ¬ idle)
    {result : MaterialisationResult} (h : Stage rules due n idle made w) :
    (runProtocol device).wp (fun result' w' => Stage rules due n' idle made w' ∧
      result' = { result with created := result.created + 1 }) (Refused device) (createOne rule.1 rule.2 result date) w := by
  refine wp_ask h (fun w r w' hstep => by cases hstep; exact ⟨rfl, _, rfl⟩) (fun w known hw hstep => ?_)
  have hknown : known = false := by
    cases hstep
    rw [Bool.eq_false_iff, Ne, hasHistory_iff, hw.caughtUp.known rule hr _ (starting_occurrenceId _ _)]
    exact hs.notMem_idsOf hr hdate
  rw [if_neg (by rw [hknown]; exact Bool.false_ne_true)]
  refine wp_ask hw (fun w r w' hstep => by cases hstep; exact ⟨rfl, _, rfl⟩) (fun w now hw _ => ?_)
  refine wp_put hw (fun w L op wall hw hput => ?_)
  have hafter : Stage rules due n' idle made ⟨L, w.made ++ [occurrenceId rule.1 date]⟩ :=
    ⟨hw.caughtUp.put hs hr hdate hnext hsame hput, fun hi => absurd hi hidle⟩
  exact wp_pure stable_stage hafter (fun w hw => ⟨hw, rfl⟩)

/-- So many more dates of one rule. -/
def advanced (n : StoredRule → ℕ) (rule : StoredRule) (d : ℕ) (other : StoredRule) : ℕ :=
  if other.1 = rule.1 then n other + d else n other

theorem advanced_self : advanced n rule d rule = n rule + d := if_pos rfl

theorem advanced_other (h : other.1 ≠ rule.1) : advanced n rule d other = n other := if_neg h

/-- The dates that are due of one rule, by what is left of them. -/
theorem wp_batch (hs : Scheduled rules due asOf limit) (hr : rule ∈ rules) (hidle : idle → (due rule).length ≤ n rule)
    {result : MaterialisationResult} (h : Stage rules due n idle made w) :
    (runProtocol device).wp (fun result' w' => Stage rules due (advanced n rule limit) idle made w' ∧
        (idle → result'.created = result.created) ∧ result'.incomplete = result.incomplete) (Refused device)
      ((((due rule).drop (n rule)).take limit).foldlM (createOne rule.1 rule.2) result) w := by
  obtain ⟨batch, hbatch⟩ : ∃ batch, batch = ((due rule).drop (n rule)).take limit := ⟨_, rfl⟩
  rw [← hbatch]
  refine wp_foldlM (fun result' rest w' => ∃ d ≤ batch.length, rest = batch.drop d ∧
    Stage rules due (advanced n rule d) idle made w' ∧ (idle → result'.created = result.created) ∧
    result'.incomplete = result.incomplete) ?_ ?_ batch result w ?_
  · rintro result' date rest w' ⟨d, hd, hrest, hw', hcreated, hincomplete⟩
    have hget : batch[d]? = some date := by
      rw [← List.head?_drop, ← hrest]
      rfl
    have hdate : (due rule)[advanced n rule d rule]? = some date := by
      rw [hbatch, List.getElem?_take] at hget
      split at hget
      · rw [advanced_self, ← List.getElem?_drop]
        exact hget
      · cases hget
    have hlt : d < batch.length := (List.getElem?_eq_some_iff.mp hget).1
    have hbusy : ¬ idle := by
      intro hi
      have hlong : n rule + d < (due rule).length := by
        rw [advanced_self] at hdate
        exact (List.getElem?_eq_some_iff.mp hdate).1
      have hshort := hidle hi
      omega
    have hnext : advanced n rule (d + 1) rule = advanced n rule d rule + 1 := by
      rw [advanced_self, advanced_self, Nat.add_assoc]
    have hsame : ∀ other ∈ rules, other ≠ rule → advanced n rule (d + 1) other = advanced n rule d other := by
      intro other ho hne
      have hid : other.1 ≠ rule.1 := fun hid => hne (hs.rule_eq hr ho hid)
      rw [advanced_other hid, advanced_other hid]
    refine wp_mono (wp_createOne hs hr hdate hnext hsame hbusy hw') ?_ (fun _ _ hx => hx)
    rintro result'' w'' ⟨hw'', rfl⟩
    refine ⟨d + 1, hlt, ?_, hw'', fun hi => absurd hi hbusy, hincomplete⟩
    rw [← List.drop_drop, ← hrest]
    rfl
  · rintro result' w' ⟨d, hd, hrest, hw', hcreated, hincomplete⟩
    have hdone : d = batch.length := le_antisymm hd (List.drop_eq_nil_iff.mp hrest.symm)
    -- as many dates as there were, or as the limit allows
    have hend : ∀ other ∈ rules, (due other).take (advanced n rule d other) =
        (due other).take (advanced n rule limit other) := by
      intro other ho
      by_cases hid : other.1 = rule.1
      · obtain rfl := hs.rule_eq hr ho hid
        rw [advanced_self, advanced_self, List.take_eq_take_iff, hdone, hbatch, List.length_take, List.length_drop]
        omega
      · rw [advanced_other hid, advanced_other hid]
    exact wp_pure stable_stage ⟨hw'.caughtUp.congr hend, hw'.made⟩ (fun w hw => ⟨hw, hcreated, hincomplete⟩)
  · refine ⟨0, Nat.zero_le _, rfl, ?_, fun _ => rfl, rfl⟩
    have hzero : ∀ other ∈ rules, (due other).take (n other) = (due other).take (advanced n rule 0 other) := by
      intro other _
      unfold advanced
      rw [Nat.add_zero, ite_self]
    exact ⟨h.caughtUp.congr hzero, h.made⟩

/-- One rule. -/
theorem wp_materialise (hs : Scheduled rules due asOf limit) (hr : rule ∈ rules) (hidle : idle → (due rule).length ≤ n rule)
    {result : MaterialisationResult} (h : Stage rules due n idle made w) :
    (runProtocol device).wp (fun result' w' => Stage rules due (advanced n rule limit) idle made w' ∧
        (idle → result'.created = result.created) ∧ (∀ id ∈ result.incomplete, id ∈ result'.incomplete) ∧
        (n rule + limit ≤ (due rule).length → rule.1 ∈ result'.incomplete)) (Refused device)
      (materialise asOf limit result rule) w := by
  refine wp_ask h (fun w r w' hstep => by cases hstep; exact ⟨rfl, _, rfl⟩) (fun w furthest hw hstep => ?_)
  have hafter : resumeAfter furthest = ((due rule).take (n rule)).getLast? := by
    cases hstep
    exact resumeAfter_eq hs hw.caughtUp hr
  rw [hafter, hs.asks rule hr, past_getLast?_take (hs.sorted rule hr)]
  refine wp_mono (wp_batch hs hr hidle hw) ?_ (fun _ _ hx => hx)
  rintro result' w' ⟨hw', hcreated, hincomplete⟩
  refine ⟨hw', fun hi => (hcreated hi).trans ?_, fun id hid => ?_, fun hlong => ?_⟩
  · split_ifs <;> rfl
  · rw [hincomplete]
    split_ifs
    · exact List.mem_append_left _ hid
    · exact hid
  · have hfull : (((due rule).drop (n rule)).take limit).length = limit := by
      rw [List.length_take, List.length_drop]
      omega
    rw [hincomplete, if_pos hfull]
    exact List.mem_append_right _ List.mem_cons_self

/-- A whole run, by the rules that are left. -/
theorem wp_rules (hs : Scheduled rules due asOf limit) (hidle : idle → ∀ rule ∈ rules, (due rule).length ≤ n rule)
    (h : Stage rules due n idle made w) :
    (runProtocol device).wp (fun (result : MaterialisationResult) w' => Stage rules due (fun rule => n rule + limit) idle made w' ∧
        (idle → result.created = 0) ∧ ∀ rule ∈ rules, n rule + limit ≤ (due rule).length → rule.1 ∈ result.incomplete)
      (Refused device) (run asOf limit) w := by
  refine wp_ask h (fun w r w' hstep => by cases hstep; exact ⟨rfl, _, rfl⟩) (fun w found hw hstep => ?_)
  have hfound : found = rules := by
    cases hstep
    exact hw.caughtUp.active
  rw [hfound]
  refine wp_foldlM (fun (result : MaterialisationResult) (rest : List StoredRule) w' => ∃ done, rules = done ++ rest ∧
    Stage rules due (fun rule => if rule.1 ∈ done.map Prod.fst then n rule + limit else n rule) idle made w' ∧
    (idle → result.created = 0) ∧ ∀ rule ∈ done, n rule + limit ≤ (due rule).length → rule.1 ∈ result.incomplete)
    ?_ ?_ rules ⟨0, []⟩ w ?_
  · rintro result rule rest w' ⟨done, hsplit, hw', hcreated, hincomplete⟩
    have hr : rule ∈ rules := by
      rw [hsplit]
      exact List.mem_append_right _ List.mem_cons_self
    have hnew : rule.1 ∉ done.map Prod.fst := by
      have hnodup := hs.nodup
      rw [hsplit, List.map_append, List.map_cons] at hnodup
      intro hmem
      exact (List.nodup_append.mp hnodup).2.2 _ hmem _ List.mem_cons_self rfl
    have hcount : (if rule.1 ∈ done.map Prod.fst then n rule + limit else n rule) = n rule := if_neg hnew
    refine wp_mono (wp_materialise hs hr (fun hi => by rw [hcount]; exact hidle hi rule hr) hw') ?_ (fun _ _ hx => hx)
    rintro result' w'' ⟨hw'', hcreated', hmono, hlong⟩
    refine ⟨done ++ [rule], by rw [List.append_assoc]; exact hsplit, ⟨hw''.caughtUp.congr ?_, hw''.made⟩,
      fun hi => (hcreated' hi).trans (hcreated hi), ?_⟩
    · intro other ho
      refine congrArg (fun m => (due other).take m) ?_
      have hmem : other.1 ∈ (done ++ [rule]).map Prod.fst ↔ other.1 ∈ done.map Prod.fst ∨ other.1 = rule.1 := by
        rw [List.map_append, List.mem_append, List.map_singleton, List.mem_singleton]
      unfold advanced
      dsimp only
      by_cases hid : other.1 = rule.1
      · rw [if_pos hid, if_neg (by rw [hid]; exact hnew), if_pos (hmem.mpr (Or.inr hid))]
      · rw [if_neg hid]
        exact if_congr (hmem.trans (or_iff_left hid)).symm rfl rfl
    · intro other ho hle
      rcases List.mem_append.mp ho with ho | ho
      · exact hmono _ (hincomplete other ho hle)
      · obtain rfl := List.mem_singleton.mp ho
        exact hlong (by rw [hcount]; exact hle)
  · rintro result w' ⟨done, hsplit, hw', hcreated, hincomplete⟩
    rw [List.append_nil] at hsplit
    subst hsplit
    have hall : ∀ rule ∈ rules, (due rule).take (if rule.1 ∈ rules.map Prod.fst then n rule + limit else n rule) =
        (due rule).take (n rule + limit) := by
      intro rule hr
      rw [if_pos (List.mem_map_of_mem hr)]
    exact wp_pure stable_stage ⟨hw'.caughtUp.congr hall, hw'.made⟩ (fun w hw => ⟨hw, hcreated, hincomplete⟩)
  · refine ⟨[], rfl, ⟨hw.caughtUp.congr (fun rule _ => ?_), hw.made⟩, fun _ => rfl, fun rule hr => absurd hr List.not_mem_nil⟩
    rw [if_neg]
    exact List.not_mem_nil

/-! ## Sessions -/

/-- What the log knows and the materialiser put of a rule are these dates. -/
structure Created (rule : StoredRule) (dates : List JsString) (w : World) : Prop where
  made : w.made.filter (fun id => (starting rule.1).isPrefixOf id) = dates.map (occurrenceId rule.1)
  known : ∀ id, starting rule.1 <+: id → (Known w.ledger id ↔ id ∈ dates.map (occurrenceId rule.1))

/-- After so many runs, the log knows as many dates as they were allowed; by induction on the session. -/
theorem caughtUp_of_session (hs : Scheduled rules due asOf limit) (h : Session device asOf limit k w w') :
    CaughtUp rules due (fun _ => 0) w → CaughtUp rules due (fun _ => k * limit) w' := by
  induction h with
  | nil w => exact fun hw => hw.congr (fun rule _ => by rw [Nat.zero_mul])
  | user _ hu ih => exact fun hw => ((ih hw).user hu).1
  | @run k w w' _ _ _ hr ih =>
    intro hw
    have hstage : Stage rules due (fun _ => k * limit) False [] w' := ⟨ih hw, nofun⟩
    have hafter := (wp_ends (P := runProtocol device) (fun _ _ => Relation.ReflTransGen.single) hr
      (wp_rules hs nofun hstage)).1 _ rfl
    exact hafter.1.caughtUp.congr (fun rule _ => by rw [Nat.succ_mul])

/-- Rules that have produced nothing so far: their schedules up to `asOf`, on a device whose log has no transaction of
theirs. -/
structure Fresh (asOf : JsString) (c : StoredRule → CalendarDate) (N : StoredRule → ℕ) (w : World) : Prop where
  ids : ∀ rule ∈ activeRules w.ledger, RuleId rule.1
  upTo : ∀ rule ∈ activeRules w.ledger, UpTo rule.2.toSchedule (c rule) asOf (N rule)
  past : LogPast w.ledger
  unused : ∀ rule ∈ activeRules w.ledger, ∀ id, starting rule.1 <+: id → ¬ Known w.ledger id
  made : w.made = []

/-- The dates that are due of each rule, in order. -/
def AllDue (asOf : JsString) (c : StoredRule → CalendarDate) (due : StoredRule → List JsString) (rules : List StoredRule) :
    Prop :=
  ∀ rule ∈ rules, (due rule).Pairwise (· < ·) ∧ ∀ date, date ∈ due rule ↔
    ∃ n, (dateOf rule.2.toSchedule (c rule) n).month < 120000 ∧ Due rule.2.toSchedule asOf n date

/-- Runs catch up: after `k` of them, the first `k * limit` dates of each rule were created, in order and once each,
whatever the user did; a rule with dates left is incomplete, and once there are none left a run writes nothing.  A run
fails only where the clock refuses a write. -/
def CatchesUp (device asOf : JsString) (limit : ℕ) (due : StoredRule → List JsString) (w : World) : Prop :=
  ∀ k w', Session device asOf limit k w w' →
    (∀ rule ∈ activeRules w.ledger, Created rule ((due rule).take (k * limit)) w') ∧
    ∀ result w'', Ends (Serves device) (UserStep device) (run asOf limit) w' result w'' →
      (∀ e, result = .error e → Refused device e w'') ∧
      ∀ done, result = .ok done →
        (∀ rule ∈ activeRules w.ledger, (k + 1) * limit < (due rule).length → rule.1 ∈ done.incomplete) ∧
        ((∀ rule ∈ activeRules w.ledger, (due rule).length ≤ k * limit) → w''.made = w'.made ∧ done.created = 0)

theorem activeRules_nodup (L : Ledger Entity) : ((activeRules L).map Prod.fst).Nodup := by
  have hsorted : (activeRules L).Pairwise (fun a b => a.1 < b.1) := by
    unfold activeRules
    refine List.Pairwise.filterMap _ ?_ (L.tables .recurringRules).sorted
    intro a b hlt r hr r' hr'
    split at hr
    · split at hr'
      · split at hr
        · cases hr
        · split at hr'
          · cases hr'
          · cases hr
            cases hr'
            exact hlt
      · cases hr'
    · cases hr
  exact (List.pairwise_map.mpr hsorted).imp ne_of_lt

theorem exists_scheduled {c : StoredRule → CalendarDate} {N : StoredRule → ℕ} (h : Fresh asOf c N w) (hlimit : 1 ≤ limit)
    (hu : ∀ rule ∈ activeRules w.ledger, Unhindered rule.2.toSchedule (c rule) asOf) :
    ∃ due, Scheduled (activeRules w.ledger) due asOf limit ∧ AllDue asOf c due (activeRules w.ledger) := by
  classical
  choose dates hsorted hdates hmem hasks using fun rule hr => (h.upTo rule hr).exists_due hlimit (hu rule hr)
  obtain ⟨due, heq⟩ : ∃ due : StoredRule → List JsString, ∀ rule hr, due rule = dates rule hr :=
    ⟨fun rule => if hr : rule ∈ activeRules w.ledger then dates rule hr else [], fun rule hr => dif_pos hr⟩
  refine ⟨due, ⟨h.ids, activeRules_nodup w.ledger, ?_, ?_, ?_⟩, ?_⟩ <;> intro rule hr <;> rw [heq rule hr]
  · exact hsorted rule hr
  · exact hdates rule hr
  · exact hasks rule hr
  · exact ⟨hsorted rule hr, hmem rule hr⟩

theorem caughtUp_of_fresh {c : StoredRule → CalendarDate} {N : StoredRule → ℕ} (h : Fresh asOf c N w)
    (due : StoredRule → List JsString) : CaughtUp (activeRules w.ledger) due (fun _ => 0) w where
  active := rfl
  past := h.past
  known := fun rule hr id hstart => iff_of_false (h.unused rule hr id hstart) List.not_mem_nil
  made := fun rule _ => by rw [h.made]; rfl

theorem catchesUp_of_scheduled (hs : Scheduled (activeRules w.ledger) due asOf limit)
    (hw : CaughtUp (activeRules w.ledger) due (fun _ => 0) w) : CatchesUp device asOf limit due w := by
  intro k w' hsession
  have hw' := caughtUp_of_session hs hsession hw
  refine ⟨fun rule hr => ⟨hw'.made rule hr, hw'.known rule hr⟩, fun result w'' hends => ?_⟩
  have hstage : Stage (activeRules w.ledger) due (fun _ => k * limit)
      (∀ rule ∈ activeRules w.ledger, (due rule).length ≤ k * limit) w'.made w' := ⟨hw', fun _ => rfl⟩
  obtain ⟨hok, herror⟩ := wp_ends (P := runProtocol device) (fun _ _ => Relation.ReflTransGen.single) hends
    (wp_rules hs (fun hi => hi) hstage)
  refine ⟨herror, fun done hdone => ?_⟩
  obtain ⟨hstage, hcreated, hincomplete⟩ := hok done hdone
  refine ⟨fun rule hr hlong => hincomplete rule hr ?_, fun hi => ⟨hstage.made hi, hcreated hi⟩⟩
  rw [← Nat.succ_mul]
  exact hlong.le

end Runs

/-- Serve a request with a clock that stands still. -/
def serveAt (device : JsString) (wall : ℕ) : (q : Ask) → World → Except RunError (Reply q) × World
  | .rules, w => (.ok (activeRules w.ledger), w)
  | .latest e start, w => (.ok (latestEntityIdWithPrefix w.ledger e start), w)
  | .hasHistory e id, w => (.ok (hasHistory w.ledger e id), w)
  | .now, w => (.ok wall, w)
  | .put e id body, w =>
    match w.ledger.put device wall e id body with
    | .ok (L, _) => (.ok (), ⟨L, w.made ++ [id]⟩)
    | .error x => (.error (.clock x), w)

theorem serves_serveAt {device : JsString} {wall : ℕ} (q : Ask) (w : World) :
    Serves device q w (serveAt device wall q w).1 (serveAt device wall q w).2 := by
  cases q with
  | rules => exact Serves.rules w
  | latest e start => exact Serves.latest w e start
  | hasHistory e id => exact Serves.hasHistory w e id
  | now => exact Serves.now w wall
  | put e id body =>
    cases hput : w.ledger.put device wall e id body with
    | ok p =>
      simp only [serveAt, hput]
      exact Serves.put w e id body wall p.1 p.2 hput
    | error x =>
      simp only [serveAt, hput]
      exact Serves.refused w e id body wall x hput

/-- The device after a run that nothing interrupts. -/
def World.afterRun (w : World) (device asOf : JsString) (limit wall : ℕ) : World :=
  ((run asOf limit).run (serveAt device wall) w).2

/-- The device after a transaction was deleted. -/
def World.afterRemove (w : World) (device id : JsString) (wall : ℕ) : World :=
  match w.ledger.remove device wall .transactions id with
  | .ok (L, _) => { w with ledger := L }
  | .error _ => w

section Scripts

variable {device asOf id : JsString} {limit k wall : ℕ} {w w' : World}

theorem session_afterRun (h : Session device asOf limit k w w') (wall : ℕ)
    (hok : ((run asOf limit).run (serveAt device wall) w').1.isOk = true) :
    Session device asOf limit (k + 1) w (w'.afterRun device asOf limit wall) := by
  have hends : _ → Ends (Serves device) (UserStep device) (run asOf limit) w' _ _ :=
    Prog.ends_run (H := serveAt device wall) (C := fun _ _ _ => true) (fun q s _ => serves_serveAt q s) (run asOf limit) w'
  cases hresult : ((run asOf limit).run (serveAt device wall) w').1 with
  | error e =>
    rw [hresult] at hok
    cases hok
  | ok result =>
    rw [hresult] at hends
    exact h.run (hends (Prog.meets_true _ _))

theorem session_afterRemove (h : Session device asOf limit k w w') (wall : ℕ) (hknown : Known w'.ledger id) :
    Session device asOf limit k w (w'.afterRemove device id wall) := by
  unfold World.afterRemove
  cases hremove : w'.ledger.remove device wall .transactions id with
  | ok p => exact h.user (UserStep.remove w' .transactions id wall p.1 p.2 ⟨by decide, fun _ => Or.inl hknown⟩ hremove)
  | error x => exact h

end Scripts

/-! ## Two devices -/

/-- Coffee on a schedule. -/
def coffee (schedule : Schedule) : RecurringRule where
  toSchedule := schedule
  name := js "Coffee"
  kind := .expense
  amount := 350
  currency := js "EUR"
  accountId := js "a1"
  counterAccountId := none
  categoryId := none
  payee := []
  note := []
  tags := []
  archived := false

def coffeeId : JsString := js "6f9619ff-8b86-4d01-b42d-00cf4fc964ff"

/-- A device with one rule, which has produced nothing. -/
def deviceWith (schedule : Schedule) : World :=
  ⟨Ledger.empty.putRow .recurringRules ⟨coffeeId, ⟨1, 0, js "pixel8"⟩, .rule (coffee schedule)⟩, []⟩

section Devices

variable {schedule : Schedule} {c : CalendarDate} {asOf : JsString} {N : ℕ} {rule : StoredRule}

theorem activeRules_deviceWith (schedule : Schedule) :
    activeRules (deviceWith schedule).ledger = [(coffeeId, coffee schedule)] := rfl

theorem mem_deviceWith : rule ∈ activeRules (deviceWith schedule).ledger ↔ rule = (coffeeId, coffee schedule) := by
  rw [activeRules_deviceWith, List.mem_singleton]

theorem ruleId_coffeeId : RuleId coffeeId := by
  have hunits : coffeeId.all (fun c => JsNumber.isDigitIn 16 c || c = dash) = true := by decide
  exact ⟨by decide, List.all_eq_true.mp hunits⟩

theorem fresh_deviceWith (h : UpTo schedule c asOf N) : Fresh asOf (fun _ => c) (fun _ => N) (deviceWith schedule) := by
  have hempty : ∀ o, o ∉ (deviceWith schedule).ledger.oplog := fun o => Table.not_mem_empty o
  refine ⟨fun rule hr => ?_, fun rule hr => ?_, ⟨fun o ho => absurd ho (hempty o), fun o ho => absurd ho (hempty o)⟩,
    fun rule _ id _ hknown => hempty _ hknown.choose_spec.1, rfl⟩
  · rw [mem_deviceWith] at hr
    subst hr
    exact ruleId_coffeeId
  · rw [mem_deviceWith] at hr
    subst hr
    exact h

end Devices

/-- A device with a daily rule: two dates are created, one of them is deleted, and the third is created. -/
def coffeeDay : World :=
  (((deviceWith (daily none)).afterRun (js "pixel8") (js "2024-01-03") 2 5).afterRemove (js "pixel8")
    (occurrenceId coffeeId (js "2024-01-01")) 6).afterRun (js "pixel8") (js "2024-01-03") 2 7

theorem session_coffeeDay : Session (js "pixel8") (js "2024-01-03") 2 2 (deviceWith (daily none)) coffeeDay := by
  have hnone : Session (js "pixel8") (js "2024-01-03") 2 0 (deviceWith (daily none)) _ := Session.nil _
  have hfirst := session_afterRun hnone 5 (by decide +kernel)
  have hknown : Known ((deviceWith (daily none)).afterRun (js "pixel8") (js "2024-01-03") 2 5).ledger
      (occurrenceId coffeeId (js "2024-01-01")) := by
    rw [← hasHistory_iff]
    decide +kernel
  exact session_afterRun (session_afterRemove hfirst 6 hknown) 7 (by decide +kernel)

theorem upTo_daily : UpTo (daily none) (CalendarDate.clamped 24288 1) (js "2024-01-03") 3 :=
  upTo_of_few (daily_begins none) (fun n hn => daily_lt none (by omega)) (by decide)
    (fun h => absurd h.1 (by decide +kernel))

/-- Three dates are due of the daily rule. -/
theorem due_daily {date : JsString} :
    (∃ n, (dateOf (daily none) (CalendarDate.clamped 24288 1) n).month < 120000 ∧ Due (daily none) (js "2024-01-03") n date) ↔
      date ∈ [js "2024-01-01", js "2024-01-02", js "2024-01-03"] := by
  have hdates : openDates (daily none) (CalendarDate.clamped 24288 1) 3 = [js "2024-01-01", js "2024-01-02", js "2024-01-03"] := by
    decide +kernel
  have hscans : Scans (daily none) (CalendarDate.clamped 24288 1) (js "2024-01-03") 3 :=
    { toBegins := daily_begins none
      passes := by
        have hall : ∀ n < 3, dateText (daily none) (CalendarDate.clamped 24288 1) n ≤ js "2024-01-03" ∧
            withinLimits (daily none) n (dateText (daily none) (CalendarDate.clamped 24288 1) n) = true := by decide +kernel
        exact hall
      stop := upTo_daily.stop }
  rw [← hdates]
  exact (upTo_daily.due_iff_mem (unhindered_of_whole (daily_begins none) (daily_whole none)) (Nat.le_refl 3) hscans).symm

theorem due_monthAndHalf {date : JsString} : (∃ n, (dateOf monthAndHalf (CalendarDate.clamped 24288 15) n).month < 120000 ∧
    Due monthAndHalf (js "2024-12-31") n date) ↔ date ∈ [js "2024-01-15", js "2024-04-15"] := by
  constructor
  · rintro ⟨n, -, hdue⟩
    obtain ⟨rfl, hupTo, hopen⟩ := (due_iff monthAndHalf_begins).mp hdue
    rcases Nat.lt_or_ge n 3 with hn | hn
    · have hall : ∀ n < 3, dateText monthAndHalf (CalendarDate.clamped 24288 15) n ≤ js "2024-12-31" →
          dateText monthAndHalf (CalendarDate.clamped 24288 15) n ∈ [js "2024-01-15", js "2024-04-15"] := by decide +kernel
      exact hall n hn hupTo
    · rw [not_isOpen_monthAndHalf n hn] at hopen
      cases hopen
  · intro hdate
    simp only [List.mem_cons, List.not_mem_nil, or_false] at hdate
    rcases hdate with rfl | rfl
    · exact ⟨0, by decide +kernel, (due_iff monthAndHalf_begins).mpr ⟨by decide +kernel, by decide +kernel, by decide +kernel⟩⟩
    · exact ⟨2, by decide +kernel, (due_iff monthAndHalf_begins).mpr ⟨by decide +kernel, by decide +kernel, by decide +kernel⟩⟩

/-- Of a rule of a month and a half, only the first date is ever known. -/
theorem caughtUp_monthAndHalf {k : ℕ} {w : World}
    (h : Session (js "pixel8") (js "2024-12-31") 500 k (deviceWith monthAndHalf) w) :
    CaughtUp (activeRules (deviceWith monthAndHalf).ledger) (fun _ => [js "2024-01-15"]) (fun _ => k * 500) w := by
  refine caughtUp_of_session ⟨fun rule hr => ?_, activeRules_nodup _, fun _ _ => List.pairwise_singleton _ _, fun _ _ => ?_,
    fun rule hr after => ?_⟩ h (caughtUp_of_fresh (fresh_deviceWith monthAndHalf_upTo) _)
  · rw [mem_deviceWith] at hr
    subst hr
    exact ruleId_coffeeId
  · decide
  · have hdates : openDates monthAndHalf (CalendarDate.clamped 24288 15) 1 = [js "2024-01-15"] := by decide +kernel
    rw [mem_deviceWith] at hr
    subst hr
    show occurrencesUpTo monthAndHalf _ _ _ = _
    rw [occurrencesUpTo_eq monthAndHalf_scans (by decide) (by decide), hdates]

end Recurring

end EasyDocket
