import EasyDocket.Books.Aggregate

/-!
# Budgets and reports roll up alike

A budget on one category counts what a report shows for it, as long as the tree of categories is flat below it.
-/

namespace EasyDocket

namespace Books

section Rollup

variable {T : Text} {categories : List Category} {p : JsString} {budget : Budget} {window : DateRange}
  {t : Transaction} {transactions : List Transaction} {rows : List CategoryTotal}

/-- Expanding a category and rolling up to it agree, on ids and on every ledger. -/
structure Alike (T : Text) (categories : List Category) (p : JsString) : Prop where
  ids : RollsUp categories p
  spend : ∀ (budget : Budget) (window : DateRange) (transactions : List Transaction) (rows : List CategoryTotal),
    budget.categoryIds = [p] →
    spendByCategory T transactions window budget.currency (some (rootIds categories)) = .ok rows →
    ∃ detail, spendDetail T budget window transactions (some (withDescendants budget.categoryIds categories)) = .ok detail ∧
      detail.spent = shownFor rows (some p)

/-- A category is covered exactly if it rolls up, be it known or not. -/
theorem covered_iff (hp : p ∈ categories.map Category.id) (h : RollsUp categories p) (id : JsString) :
    id ∈ withDescendants [p] categories ↔ rollUp (some (rootIds categories)) (some id) = some p := by
  rw [h id]
  unfold rollUp
  rw [Option.map_some, Option.some_inj, Option.bind_some]
  cases hget : (rootIds categories).get? id with
  | some root => rw [Option.some_inj, Option.getD_some]
  | none =>
    have hne : id ≠ p := by
      rintro rfl
      have hmem : id ∈ (categories.map (fun category =>
          (category.id, (rootIdOf (some category.id) (byId categories)).getD category.id))).map Prod.fst := by
        rwa [List.map_map]
      exact OrderedMap.get?_ofList_eq_none.mp hget hmem
    exact ⟨nofun, fun he => absurd he hne⟩

/-- A transaction adds the same to the budget and to the row. -/
theorem spentBy_eq (hp : p ∈ categories.map Category.id) (h : RollsUp categories p) (t : Transaction) :
    spentBy T budget window (some (withDescendants [p] categories)) t =
      if rollUp (some (rootIds categories)) t.categoryId = some p then spends T window budget.currency t else 0 := by
  unfold spentBy spends Spends
  have hcounts : countsTowards budget t (some (withDescendants [p] categories)) =
      (decide (t.kind = .expense) && decide (rollUp (some (rootIds categories)) t.categoryId = some p)) := by
    unfold countsTowards
    cases t.kind with
    | income => rfl
    | transfer => rfl
    | expense =>
      cases t.categoryId with
      | none => rfl
      | some id =>
        show decide _ = (true && decide _)
        rw [Bool.true_and, Bool.eq_iff_iff, decide_eq_true_eq, decide_eq_true_eq]
        exact covered_iff hp h id
  rw [hcounts]
  unfold Transaction.amountIn
  by_cases hk : t.kind = .expense
  · by_cases hr : rollUp (some (rootIds categories)) t.categoryId = some p
    · by_cases hw : within t.date window = true
      · cases t.worth T budget.currency <;> simp [hk, hr, hw]
      · simp [hw]
    · simp [hr]
  · simp [hk]

theorem spend_of_rollsUp (hp : p ∈ categories.map Category.id) (h : RollsUp categories p)
    (hbudget : budget.categoryIds = [p])
    (hrows : spendByCategory T transactions window budget.currency (some (rootIds categories)) = .ok rows) :
    ∃ detail, spendDetail T budget window transactions (some (withDescendants budget.categoryIds categories)) = .ok detail ∧
      detail.spent = shownFor rows (some p) := by
  unfold spendByCategory at hrows
  cases hfold : transactions.foldlM (categoryStep T window budget.currency (some (rootIds categories))) .empty with
  | error e =>
    rw [hfold] at hrows
    cases hrows
  | ok totals =>
    rw [hfold] at hrows
    have hrow : rowsOf T totals = rows := Except.ok.inj hrows
    have hpriced : ∀ t ∈ transactions, countsTowards budget t (some (withDescendants [p] categories)) = true →
        within t.date window = true → ∃ x, t.inReporting T budget.currency = .ok x := by
      intro t ht hc hw
      obtain ⟨s, s', hstep⟩ := step_of_ok hfold t ht
      refine (categoryStep_eq_ok hstep).2 ?_ hw
      unfold countsTowards at hc
      cases hk : t.kind with
      | expense => rfl
      | _ =>
        rw [hk] at hc
        cases hc
    rw [hbudget]
    obtain ⟨detail, hdetail, hspent⟩ := spent_foldlM transactions ⟨0, 0⟩ hpriced
    refine ⟨detail, hdetail, ?_⟩
    have htotals := foldl_of_ok (fun s t s' hs => (categoryStep_eq_ok hs).1) hfold
    rw [hspent, ← hrow, shownFor_rowsOf, htotals, amountAt_foldl]
    have hsame : transactions.map (spentBy T budget window (some (withDescendants [p] categories))) =
        transactions.map (fun t => if rollUp (some (rootIds categories)) t.categoryId = some p
          then spends T window budget.currency t else 0) := List.map_congr_left (fun t _ => spentBy_eq hp h t)
    rw [hsame]
    rfl

/-- Budgets and reports roll a category up alike if and only if its subcategories have none of their own further down the
list, and it is at the top. -/
theorem alike_iff_flat (hids : (categories.map Category.id).Nodup) (hp : p ∈ categories.map Category.id) :
    Alike T categories p ↔ Flat categories p := by
  refine ⟨fun h => (rollsUp_iff hids hp).mp h.ids, fun h => ?_⟩
  have hrolls := (rollsUp_iff hids hp).mpr h
  exact ⟨hrolls, fun budget window transactions rows => spend_of_rollsUp hp hrolls⟩

end Rollup

/-! ### Lunch on Tuesdays -/

def foodId : JsString := js "food"

def lunchId : JsString := js "lunch"

def tuesdayId : JsString := js "tuesday"

def food : Category := ⟨foodId, js "Food", .expense, none⟩

def lunch : Category := ⟨lunchId, js "Lunch", .expense, some foodId⟩

/-- Filed under a category that became a subcategory elsewhere. -/
def tuesday : Category := ⟨tuesdayId, js "Tuesday", .expense, some lunchId⟩

theorem alike_food : Alike ascii [food, lunch] foodId ↔ Flat [food, lunch] foodId :=
  alike_iff_flat (by decide +kernel) (by decide +kernel)

/-- A budget on food counts Tuesdays, and the report does not. -/
theorem budget_and_report_differ : ¬ ∀ (categories : List Category) (p : JsString), (categories.map Category.id).Nodup →
    p ∈ (buildTree ascii categories none).map (fun node => node.category.id) → Alike ascii categories p := by
  intro h
  have halike := h [food, lunch, tuesday] foodId (by decide +kernel) (by decide +kernel)
  have hroot := (halike.ids tuesdayId).mp (by decide +kernel)
  exact absurd hroot (by decide +kernel)

end Books

end EasyDocket
