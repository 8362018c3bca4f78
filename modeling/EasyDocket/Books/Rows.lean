import EasyDocket.Books.Aggregate

/-!
# Rows of categories

What the rows of a report add up to, and that they do not depend on the order in which transactions are read.
-/

namespace EasyDocket

namespace Books

variable {T : Text} {range : DateRange} {reporting : JsString} {roots : Option (OrderedMap JsString JsString)}
  {totals totals' : OrderedMap (Option JsString) Entry} {transactions transactions' : List Transaction}
  {key : Option JsString}

/-- The entries once all transactions are counted. -/
def entriesFor (T : Text) (range : DateRange) (reporting : JsString) (roots : Option (OrderedMap JsString JsString))
    (transactions : List Transaction) : OrderedMap (Option JsString) Entry :=
  transactions.foldl (categoryPure T range reporting roots) .empty

theorem spendByCategory_eq (h : ∀ t ∈ transactions, t.Priced) :
    spendByCategory T transactions range reporting roots = .ok (rowsOf T (entriesFor T range reporting roots transactions)) := by
  unfold spendByCategory entriesFor
  rw [foldlM_ok (fun t ht totals => categoryStep_ok (h t ht) totals)]
  rfl

/-! ## Sums -/

def amounts (totals : OrderedMap (Option JsString) Entry) : Minor := (totals.entries.map (fun e => e.2.amount)).sum

def counts (totals : OrderedMap (Option JsString) Entry) : ℕ := (totals.entries.map (fun e => e.2.count)).sum

theorem amounts_addTo (key : Option JsString) (amount : Minor) : amounts (addTo totals key amount) = amounts totals + amount := by
  have hset := OrderedMap.sum_set (m := totals) (k := key) (v := ⟨((totals.get? key).getD ⟨0, 0⟩).amount + amount,
    ((totals.get? key).getD ⟨0, 0⟩).count + 1⟩) (f := fun _ entry => entry.amount)
  unfold amounts addTo
  cases hget : totals.get? key with
  | none =>
    simp only [hget, Option.elim_none, Option.getD_none] at hset ⊢
    rw [Int.add_zero] at hset
    exact hset.trans (congrArg _ (Int.zero_add amount))
  | some entry =>
    simp only [hget, Option.elim_some, Option.getD_some] at hset ⊢
    rw [← Int.add_assoc, Int.add_right_comm] at hset
    exact add_right_cancel hset

theorem counts_addTo (key : Option JsString) (amount : Minor) : counts (addTo totals key amount) = counts totals + 1 := by
  have hset := OrderedMap.sum_set (m := totals) (k := key) (v := ⟨((totals.get? key).getD ⟨0, 0⟩).amount + amount,
    ((totals.get? key).getD ⟨0, 0⟩).count + 1⟩) (f := fun _ entry => entry.count)
  unfold counts addTo
  cases hget : totals.get? key with
  | none =>
    simp only [hget, Option.elim_none, Option.getD_none] at hset ⊢
    omega
  | some entry =>
    simp only [hget, Option.elim_some, Option.getD_some] at hset ⊢
    omega

theorem amounts_entriesFor : amounts (entriesFor T range reporting roots transactions) =
    (transactions.map (spends T range reporting)).sum := by
  have hstep : ∀ totals t, amounts (categoryPure T range reporting roots totals t) =
      amounts totals + spends T range reporting t := by
    intro totals t
    unfold categoryPure spends
    by_cases hs : Spends T range reporting t
    · rw [if_pos hs, if_pos hs, amounts_addTo]
    · rw [if_neg hs, if_neg hs, Int.add_zero]
  have hzero : amounts (.empty : OrderedMap (Option JsString) Entry) = 0 := rfl
  unfold entriesFor
  rw [foldl_measure hstep, hzero, Int.zero_add]

theorem counts_entriesFor : counts (entriesFor T range reporting roots transactions) =
    (transactions.map (spendCount T range reporting)).sum := by
  have hstep : ∀ totals t, counts (categoryPure T range reporting roots totals t) =
      counts totals + spendCount T range reporting t := by
    intro totals t
    unfold categoryPure spendCount
    by_cases hs : Spends T range reporting t
    · rw [if_pos hs, if_pos hs, counts_addTo]
    · rw [if_neg hs, if_neg hs, Nat.add_zero]
  have hzero : counts (.empty : OrderedMap (Option JsString) Entry) = 0 := rfl
  unfold entriesFor
  rw [foldl_measure hstep, hzero, Nat.zero_add]

theorem rowsOf_amount_sum (totals : OrderedMap (Option JsString) Entry) :
    ((rowsOf T totals).map CategoryTotal.amount).sum = amounts totals := by
  rw [((rowsOf_perm T totals).map CategoryTotal.amount).sum_eq, List.map_map]
  rfl

theorem rowsOf_count_sum (totals : OrderedMap (Option JsString) Entry) :
    ((rowsOf T totals).map CategoryTotal.count).sum = counts totals := by
  rw [((rowsOf_perm T totals).map CategoryTotal.count).sum_eq, List.map_map]
  rfl

/-! ## Order -/

/-- Entries are made for something that counts. -/
def Counted (totals : OrderedMap (Option JsString) Entry) : Prop := ∀ key entry, totals.get? key = some entry → entry.count ≠ 0

theorem counted_entriesFor : ∀ (transactions : List Transaction) (totals : OrderedMap (Option JsString) Entry), Counted totals →
    Counted (transactions.foldl (categoryPure T range reporting roots) totals)
  | [], _, h => h
  | t :: transactions, totals, h => by
    refine counted_entriesFor transactions _ (fun key entry hget => ?_)
    unfold categoryPure at hget
    by_cases hs : Spends T range reporting t
    · rw [if_pos hs, get?_addTo] at hget
      by_cases hk : key = rollUp roots t.categoryId
      · rw [if_pos hk] at hget
        rw [← Option.some.inj hget]
        exact Nat.succ_ne_zero _
      · rw [if_neg hk] at hget
        exact h key entry hget
    · rw [if_neg hs] at hget
      exact h key entry hget

/-- What a map has for a category is told by the amount and the count. -/
theorem get?_eq_of_counts (h : Counted totals) (h' : Counted totals') (hamount : amountAt totals key = amountAt totals' key)
    (hcount : countAt totals key = countAt totals' key) : totals.get? key = totals'.get? key := by
  unfold amountAt at hamount
  unfold countAt at hcount
  cases hget : totals.get? key with
  | none =>
    cases hget' : totals'.get? key with
    | none => rfl
    | some entry' =>
      rw [hget, hget'] at hcount
      exact absurd hcount.symm (h' key entry' hget')
  | some entry =>
    cases hget' : totals'.get? key with
    | none =>
      rw [hget, hget'] at hcount
      exact absurd hcount (h key entry hget)
    | some entry' =>
      rw [hget, hget'] at hamount hcount
      rw [show entry = ⟨entry.amount, entry.count⟩ from rfl, show entry.amount = entry'.amount from hamount,
        show entry.count = entry'.count from hcount]

theorem entriesFor_perm (h : transactions.Perm transactions') :
    (entriesFor T range reporting roots transactions).entries.Perm (entriesFor T range reporting roots transactions').entries := by
  refine OrderedMap.entries_perm (fun key => ?_)
  have hempty : Counted (.empty : OrderedMap (Option JsString) Entry) := fun _ _ hget => nomatch hget
  refine get?_eq_of_counts (counted_entriesFor _ _ hempty) (counted_entriesFor _ _ hempty) ?_ ?_
  · unfold entriesFor
    rw [amountAt_foldl, amountAt_foldl, (h.map _).sum_eq]
  · unfold entriesFor
    rw [countAt_foldl, countAt_foldl, (h.map _).sum_eq]

theorem rowsOf_perm_of_entries (h : totals.entries.Perm totals'.entries) : (rowsOf T totals).Perm (rowsOf T totals') := by
  have htotal : (totals.values.map Entry.amount).sum = (totals'.values.map Entry.amount).sum :=
    ((h.map Prod.snd).map Entry.amount).sum_eq
  refine (rowsOf_perm T totals).trans (List.Perm.trans ?_ (rowsOf_perm T totals').symm)
  rw [htotal]
  exact h.map _

/-- Texts are compared by a total order. -/
structure Text.Orders (T : Text) : Prop where
  total : ∀ a b, T.localeCompare a b ≤ 0 ∨ T.localeCompare b a ≤ 0
  trans : ∀ a b c, T.localeCompare a b ≤ 0 → T.localeCompare b c ≤ 0 → T.localeCompare a c ≤ 0
  antisymm : ∀ a b, T.localeCompare a b ≤ 0 → T.localeCompare b a ≤ 0 → a = b

section Sorted

variable (hT : T.Orders)

include hT

omit hT in
theorem minus_one_le : (-1 : ℤ) ≤ 0 := by decide

omit hT in
theorem one_not_le : ¬ (1 : ℤ) ≤ 0 := by decide

theorem collate_total (a b : Option JsString) : collate T a b ≤ 0 ∨ collate T b a ≤ 0 := by
  unfold collate
  by_cases hab : a = b
  · rw [if_pos hab]
    exact Or.inl le_rfl
  · rw [if_neg hab, if_neg (fun h => hab h.symm)]
    rcases a with _ | a <;> rcases b with _ | b
    · exact absurd rfl hab
    · exact Or.inr minus_one_le
    · exact Or.inl minus_one_le
    · exact hT.total a b

theorem collate_trans {a b c : Option JsString} (hab : collate T a b ≤ 0) (hbc : collate T b c ≤ 0) : collate T a c ≤ 0 := by
  by_cases h : a = b
  · exact h ▸ hbc
  by_cases h' : b = c
  · exact h' ▸ hab
  unfold collate at hab hbc ⊢
  rw [if_neg h] at hab
  rw [if_neg h'] at hbc
  by_cases h'' : a = c
  · rw [if_pos h'']
  rw [if_neg h'']
  rcases a with _ | a <;> rcases b with _ | b <;> rcases c with _ | c
  · exact absurd rfl h
  · exact absurd rfl h
  · exact absurd rfl h''
  · exact absurd hab one_not_le
  · exact absurd rfl h'
  · exact absurd hbc one_not_le
  · exact minus_one_le
  · exact hT.trans a b c hab hbc

theorem collate_antisymm {a b : Option JsString} (hab : collate T a b ≤ 0) (hba : collate T b a ≤ 0) : a = b := by
  by_contra h
  unfold collate at hab hba
  rw [if_neg h] at hab
  rw [if_neg (fun h' => h h'.symm)] at hba
  rcases a with _ | a <;> rcases b with _ | b
  · exact h rfl
  · exact absurd hab one_not_le
  · exact absurd hba one_not_le
  · exact h (congrArg some (hT.antisymm a b hab hba))

omit hT in
theorem compareTotals_le_iff {a b : CategoryTotal} :
    compareTotals T a b ≤ 0 ↔ b.amount < a.amount ∨ a.amount = b.amount ∧ collate T a.categoryId b.categoryId ≤ 0 := by
  unfold compareTotals
  by_cases hne : b.amount - a.amount ≠ 0
  · rw [if_pos hne]
    constructor
    · exact fun hle => Or.inl (lt_of_le_of_ne (sub_nonpos.mp hle) (fun he => hne (sub_eq_zero.mpr he)))
    · rintro (hlt | ⟨heq, _⟩)
      · exact sub_nonpos.mpr hlt.le
      · exact absurd (sub_eq_zero.mpr heq.symm) hne
  · have heq : b.amount = a.amount := sub_eq_zero.mp (not_not.mp hne)
    rw [if_neg hne, heq]
    exact ⟨fun hle => Or.inr ⟨rfl, hle⟩, fun h => h.elim (fun hlt => absurd hlt (lt_irrefl _)) And.right⟩

theorem rowsOf_sorted (totals : OrderedMap (Option JsString) Entry) :
    (rowsOf T totals).Pairwise (fun a b => compareTotals T a b ≤ 0) := by
  have : Std.Total (fun a b : CategoryTotal => compareTotals T a b ≤ 0) := by
    refine ⟨fun a b => ?_⟩
    rw [compareTotals_le_iff, compareTotals_le_iff]
    rcases lt_trichotomy a.amount b.amount with hlt | heq | hgt
    · exact Or.inr (Or.inl hlt)
    · exact (collate_total hT a.categoryId b.categoryId).imp (fun hle => Or.inr ⟨heq, hle⟩) (fun hle => Or.inr ⟨heq.symm, hle⟩)
    · exact Or.inl (Or.inl hgt)
  have : IsTrans CategoryTotal (fun a b => compareTotals T a b ≤ 0) := by
    refine ⟨fun a b c hab hbc => ?_⟩
    rw [compareTotals_le_iff] at hab hbc ⊢
    rcases hab with hab | ⟨hab, hcab⟩ <;> rcases hbc with hbc | ⟨hbc, hcbc⟩
    · exact Or.inl (hbc.trans hab)
    · exact Or.inl (hbc ▸ hab)
    · exact Or.inl (hab ▸ hbc)
    · exact Or.inr ⟨hab.trans hbc, collate_trans hT hcab hcbc⟩
  exact List.pairwise_insertionSort _ _

/-- Rows in the same order, whatever the order of their entries. -/
theorem rowsOf_eq (h : totals.entries.Perm totals'.entries) : rowsOf T totals = rowsOf T totals' := by
  refine List.Perm.eq_of_pairwise (fun a b ha hb hab hba => ?_) (rowsOf_sorted hT totals) (rowsOf_sorted hT totals')
    (rowsOf_perm_of_entries h)
  have hb := (rowsOf_perm_of_entries (T := T) h).mem_iff.mpr hb
  rw [compareTotals_le_iff] at hab hba
  have hcategory : a.categoryId = b.categoryId := by
    rcases hab with hab | ⟨heq, hab⟩ <;> rcases hba with hba | ⟨heq', hba⟩
    · exact absurd (hab.trans hba) (lt_irrefl _)
    · exact absurd (heq' ▸ hab) (lt_irrefl _)
    · exact absurd (heq ▸ hba) (lt_irrefl _)
    · exact collate_antisymm hT hab hba
  obtain ⟨e, he, rfl⟩ := List.mem_map.mp ((rowsOf_perm T totals).mem_iff.mp ha)
  obtain ⟨e', he', rfl⟩ := List.mem_map.mp ((rowsOf_perm T totals).mem_iff.mp hb)
  rw [List.inj_on_of_nodup_map totals.nodup he he' hcategory]

end Sorted

end Books

end EasyDocket
