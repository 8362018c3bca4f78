import EasyDocket.Books.Identities
import EasyDocket.Books.Transactions
import Mathlib.Algebra.BigOperators.Ring.List
import Mathlib.Tactic.Linarith

/-!
# Two figures for net worth

Reports walk opening balances and transactions in the order of dates; the accounts screen adds the balances of the accounts
that count.  The two differ by what the accounts that are left out hold.
-/

namespace EasyDocket

namespace Books

variable {T : Text} {accounts : List Account} {transactions : List Transaction} {t : Transaction} {account : Account}
  {range : DateRange} {reporting : JsString} {rateForCurrency : JsString → Option ℚ} {m d m' d' n : ℕ}

/-! ## What is left out -/

/-- Whether an account is left out of totals, by its id. -/
def isLeftOut (accounts : List Account) (id : JsString) : Bool := accounts.any (fun a => a.id = id && !countsInTotals a)

/-- What a transaction moves into the accounts that are left out. -/
def intoLeftOut (accounts : List Account) (t : Transaction) : Minor :=
  if t.kind = .transfer then
    (if isLeftOut accounts (t.counterAccountId.getD []) then t.amount else 0) -
      if isLeftOut accounts t.accountId then t.amount else 0
  else if isLeftOut accounts t.accountId then t.signed else 0

/-- What the accounts that are left out hold. -/
def heldLeftOut (accounts : List Account) (transactions : List Transaction) : Minor :=
  (accounts.map (fun a => if countsInTotals a then 0 else a.openingBalance)).sum +
    (transactions.map (intoLeftOut accounts)).sum

/-- What balances that count take in once more, of an income or an expense that names its account twice. -/
def takenTwice (accounts : List Account) (t : Transaction) : Minor :=
  if t.counterAccountId = some t.accountId ∧ isLeftOut accounts t.accountId = false then t.signed else 0

/-- A transaction whose accounts exist. -/
structure Refers (accounts : List Account) (t : Transaction) : Prop where
  account : ∃ a ∈ accounts, a.id = t.accountId
  counter : t.kind = .transfer → ∃ a ∈ accounts, t.counterAccountId = some a.id

/-- One for an account that counts. -/
def weight (a : Account) : ℤ := if countsInTotals a then 1 else 0

theorem isLeftOut_iff (hids : (accounts.map Account.id).Nodup) (ha : account ∈ accounts) :
    isLeftOut accounts account.id = true ↔ countsInTotals account = false := by
  unfold isLeftOut
  rw [List.any_eq_true]
  constructor
  · rintro ⟨a, hin, h⟩
    rw [Bool.and_eq_true, decide_eq_true_eq, Bool.not_eq_true'] at h
    rw [← List.inj_on_of_nodup_map hids hin ha h.1]
    exact h.2
  · intro h
    refine ⟨account, ha, ?_⟩
    rw [Bool.and_eq_true, decide_eq_true_eq, Bool.not_eq_true']
    exact ⟨rfl, h⟩

theorem ite_isLeftOut (hids : (accounts.map Account.id).Nodup) (ha : account ∈ accounts) (x : Minor) :
    (if isLeftOut accounts account.id then x else 0) = (1 - weight account) * x := by
  have hiff := isLeftOut_iff hids ha
  unfold weight
  by_cases hc : countsInTotals account = true
  · rw [if_neg (fun h => absurd (hiff.mp h) (by rw [hc]; decide)), if_pos hc, sub_self, zero_mul]
  · rw [if_pos (hiff.mpr (Bool.eq_false_iff.mpr hc)), if_neg hc, sub_zero, one_mul]

/-- What a transaction does to the balances that count, from what it does to net worth. -/
theorem sum_effects (hids : (accounts.map Account.id).Nodup) (hvalid : Valid t) (hrefers : Refers accounts t) :
    (accounts.map (fun a => weight a * effectOn a.id t)).sum = t.signed - intoLeftOut accounts t + takenTwice accounts t := by
  obtain ⟨src, hsrc, hid⟩ := hrefers.account
  by_cases hkind : t.kind = .transfer
  · obtain ⟨dest, hdest, hcounter⟩ := hrefers.counter hkind
    obtain ⟨other, -, hother, hne⟩ := hvalid.transfer hkind
    have hsum := sum_transfer weight hids hvalid hkind hsrc hdest hid hcounter
    have hsigned : t.signed = 0 := by
      unfold Transaction.signed
      rw [hkind]
    have htwice : takenTwice accounts t = 0 := by
      unfold takenTwice
      rw [hsigned, ite_self]
    rw [htwice, hsigned]
    unfold intoLeftOut
    rw [if_pos hkind, hcounter, Option.getD_some, ite_isLeftOut hids hdest, ← hid, ite_isLeftOut hids hsrc]
    simp only [Int.cast_id] at hsum
    rw [hsum]
    ring
  · have hsum := sum_signed weight hids hvalid hkind hsrc hid
    have htwice : takenTwice accounts t = (t.times - 1 : ℤ) * (t.signed * weight src) := by
      have hiff := isLeftOut_iff hids hsrc
      unfold takenTwice Transaction.times weight
      rw [← hid]
      by_cases hc : t.counterAccountId = some src.id
      · by_cases hcounts : countsInTotals src = true
        · have hnot : isLeftOut accounts src.id = false :=
            Bool.eq_false_iff.mpr (fun h => absurd (hiff.mp h) (by rw [hcounts]; decide))
          rw [if_pos ⟨hc, hnot⟩, if_pos hc, if_pos hcounts]
          push_cast
          ring
        · rw [if_neg (fun h => absurd (hiff.mpr (Bool.eq_false_iff.mpr hcounts)) (by rw [h.2]; decide)), if_neg hcounts]
          ring
      · rw [if_neg (fun h => hc h.1), if_neg hc]
        push_cast
        ring
    rw [htwice]
    unfold intoLeftOut
    rw [if_neg hkind, ← hid, ite_isLeftOut hids hsrc]
    simp only [Int.cast_id] at hsum
    rw [hsum]
    ring

/-! ## The two figures in one currency -/

theorem opening_same (h : ∀ a ∈ accounts, sameCurrency T a.currency reporting = true) :
    accounts.foldlM (openingStep T reporting rateForCurrency) 0 = .ok (accounts.map Account.openingBalance).sum := by
  have hstep : ∀ a ∈ accounts, ∀ sum, openingStep T reporting rateForCurrency sum a = .ok (sum + a.openingBalance) := by
    intro a ha sum
    unfold openingStep
    rw [if_pos (h a ha)]
  rw [foldlM_ok hstep]
  refine congrArg Except.ok ?_
  refine (foldl_measure (φ := fun sum : Minor => sum) (f := Account.openingBalance) (fun _ _ => rfl) accounts 0).trans ?_
  exact Int.zero_add _

theorem delta_same (h : sameCurrency T t.currency reporting = true) :
    delta T t reporting = .ok (deltaOf T reporting t) ∧ deltaOf T reporting t = t.signed := by
  have hin : t.inReporting T reporting = .ok (some t.amount) := if_pos h
  have hworth : t.worth T reporting = some t.amount := if_pos h
  unfold delta deltaOf Transaction.signed Transaction.amountIn
  rw [Transaction.added_of_ok hin, hworth]
  cases t.kind <;> exact ⟨rfl, rfl⟩

variable (rateForCurrency) in
theorem detail_same (h : ∀ a ∈ accounts, sameCurrency T a.currency reporting = true) (held : OrderedMap JsString Minor) :
    ∃ detail, netWorthDetail T accounts held reporting rateForCurrency = .ok detail ∧
      detail.total = ((counted accounts).map (fun a => (held.get? a.id).getD 0)).sum := by
  have hstep : ∀ a ∈ counted accounts, ∀ acc, detailStep T held reporting rateForCurrency acc a =
      .ok (acc.1 + (held.get? a.id).getD 0, acc.2) := by
    intro a ha acc
    have hin : a ∈ accounts := (List.mem_filter.mp (List.mem_filter.mp ha).1).1
    unfold detailStep
    exact if_pos (h a hin)
  unfold netWorthDetail
  rw [foldlM_ok hstep]
  refine ⟨_, rfl, ?_⟩
  refine (foldl_measure (φ := Prod.fst) (f := fun a : Account => (held.get? a.id).getD 0) (fun _ _ => rfl) (counted accounts)
    ((0, []) : Minor × List JsString)).trans ?_
  exact Int.zero_add _

/-- What balances that count come to. -/
theorem total_same (hids : (accounts.map Account.id).Nodup) (hactive : ∀ a ∈ accounts, a.archived = false)
    (hvalid : ∀ t ∈ transactions, Valid t) (hrefers : ∀ t ∈ transactions, Refers accounts t) :
    ((counted accounts).map (fun a => ((balances accounts transactions).get? a.id).getD 0)).sum =
      (accounts.map Account.openingBalance).sum + (transactions.map Transaction.signed).sum -
        heldLeftOut accounts transactions + (transactions.map (takenTwice accounts)).sum := by
  have hactive' : active accounts = accounts :=
    List.filter_eq_self.mpr (fun a ha => by rw [hactive a ha]; rfl)
  have hterm : ∀ a ∈ accounts, (if countsInTotals a then ((balances accounts transactions).get? a.id).getD 0 else 0) =
      (a.openingBalance - (if countsInTotals a then 0 else a.openingBalance)) +
        (transactions.map (fun t => weight a * effectOn a.id t)).sum := by
    intro a ha
    rw [get?_balances hids ha, Option.getD_some, List.sum_map_mul_left]
    unfold weight
    by_cases hc : countsInTotals a = true
    · rw [if_pos hc, if_pos hc, if_pos hc, sub_zero, one_mul]
    · rw [if_neg hc, if_neg hc, if_neg hc, sub_self, zero_mul, zero_add]
  unfold counted
  rw [hactive', sum_counted, List.map_congr_left hterm, List.sum_map_add, sum_map_sub,
    ← sum_swap (fun a t => weight a * effectOn a.id t),
    List.map_congr_left (fun t ht => sum_effects hids (hvalid t ht) (hrefers t ht)), List.sum_map_add, sum_map_sub]
  unfold heldLeftOut
  ring

/-- The last month of a range that is not empty. -/
theorem months_last (h : Spans range m d m' d') (hne : ¬ range.last < range.first) (hlen : m' < m + 1200) :
    (monthsIn range).getLast? = some (monthText m') := by
  obtain ⟨hle, heq⟩ := monthsIn_eq h hne hlen
  rw [heq, List.getLast?_map, show m' + 1 - m = (m' - m) + 1 by omega, List.range'_1_concat, List.getLast?_concat,
    Option.map_some, Nat.add_sub_cancel' hle]

variable (rateForCurrency) in
/-- What the last point of a report comes to. -/
theorem last_point (h : Spans range m d m' d') (hne : ¬ range.last < range.first) (hlen : m' < m + 1200)
    (haccounts : ∀ a ∈ accounts, sameCurrency T a.currency reporting = true)
    (htransactions : ∀ t ∈ transactions, sameCurrency T t.currency reporting = true)
    (hdates : ∀ t ∈ transactions, t.date ≤ range.last) :
    ∃ points point, netWorthOver T accounts transactions range reporting rateForCurrency = .ok points ∧
      points.getLast? = some point ∧
      point.amount = (accounts.map Account.openingBalance).sum + (transactions.map Transaction.signed).sum := by
  obtain ⟨n, hm⟩ := months_exist h hlen
  refine ⟨_, pointOf T range reporting (accounts.map Account.openingBalance).sum transactions (monthText m'),
    netWorthOver_eq (fun t ht => (delta_same (htransactions t ht)).1) (opening_same haccounts) (lastDays_sorted h hm), ?_, ?_⟩
  · rw [List.getLast?_map, months_last h hne hlen]
    rfl
  · have hlast : lastDayOf (monthText m') range = range.last := by
      rw [lastDayOf_eq h le_rfl, if_neg (lt_irrefl m')]
    have hterm : ∀ t ∈ transactions, (if t.date ≤ range.last then deltaOf T reporting t else 0) = t.signed := by
      intro t ht
      rw [if_pos (hdates t ht), (delta_same (htransactions t ht)).2]
    show _ + changeUpTo T reporting (lastDayOf (monthText m') range) transactions = _
    unfold changeUpTo
    rw [hlast, List.map_congr_left hterm]

/-- The two figures agree if and only if the accounts that are left out hold as much as balances take in twice. -/
theorem figures_agree_iff (hids : (accounts.map Account.id).Nodup) (hactive : ∀ a ∈ accounts, a.archived = false)
    (haccounts : ∀ a ∈ accounts, sameCurrency T a.currency reporting = true)
    (htransactions : ∀ t ∈ transactions, sameCurrency T t.currency reporting = true)
    (hvalid : ∀ t ∈ transactions, assertValid t = .ok ()) (hrefers : ∀ t ∈ transactions, Refers accounts t)
    (hdates : ∀ t ∈ transactions, t.date ≤ range.last) (hrange : Spans range m d m' d') (hne : ¬ range.last < range.first)
    (hlen : m' < m + 1200) :
    ∃ points point detail, netWorthOver T accounts transactions range reporting rateForCurrency = .ok points ∧
      points.getLast? = some point ∧
      netWorthDetail T accounts (balances accounts transactions) reporting rateForCurrency = .ok detail ∧
      (point.amount = detail.total ↔ heldLeftOut accounts transactions = (transactions.map (takenTwice accounts)).sum) := by
  obtain ⟨points, point, hpoints, hpoint, hamount⟩ := last_point rateForCurrency hrange hne hlen haccounts
    htransactions hdates
  obtain ⟨detail, hdetail, htotal⟩ := detail_same rateForCurrency haccounts (balances accounts transactions)
  refine ⟨points, point, detail, hpoints, hpoint, hdetail, ?_⟩
  rw [hamount, htotal, total_same hids hactive (fun t ht => valid_of_assertValid (hvalid t ht)) hrefers]
  constructor <;> intro h <;> linarith

/-! ### A shared pot -/

/-- A pot that is left out of totals, and that holds five hundred. -/
def pot : Account := ⟨js "a-pot", js "USD", 50000, false, none, some true⟩

def purse : Account := ⟨js "a-purse", js "USD", 1000, false, none, none⟩

instance (t : Transaction) (accounts : List Account) : Decidable (Refers accounts t) :=
  decidable_of_iff ((∃ a ∈ accounts, a.id = t.accountId) ∧
    (t.kind = .transfer → ∃ a ∈ accounts, t.counterAccountId = some a.id)) ⟨fun h => ⟨h.1, h.2⟩, fun h => ⟨h.account, h.counter⟩⟩

/-- Wages and a meal, on the purse, and what is put into the pot. -/
def comings : List Transaction :=
  [⟨js "t1", .income, 2000, js "USD", purse.id, none, none, js "2025-12-20", none⟩,
    ⟨js "t2", .expense, 500, js "USD", purse.id, none, none, js "2026-02-01", none⟩,
    ⟨js "t3", .transfer, 300, js "USD", purse.id, some pot.id, none, js "2026-02-15", none⟩]

/-- And then the pot is emptied. -/
def goings : List Transaction :=
  comings ++ [⟨js "t4", .transfer, 50300, js "USD", pot.id, some purse.id, none, js "2026-03-10", none⟩]

/-- The figures differ while the pot holds something, and agree once it is empty. -/
theorem pot_and_purse :
    (∃ points point detail, netWorthOver ascii [pot, purse] comings quarter (js "USD") (fun _ => none) = .ok points ∧
      points.getLast? = some point ∧
      netWorthDetail ascii [pot, purse] (balances [pot, purse] comings) (js "USD") (fun _ => none) = .ok detail ∧
      point.amount ≠ detail.total) ∧
    ∃ points point detail, netWorthOver ascii [pot, purse] goings quarter (js "USD") (fun _ => none) = .ok points ∧
      points.getLast? = some point ∧
      netWorthDetail ascii [pot, purse] (balances [pot, purse] goings) (js "USD") (fun _ => none) = .ok detail ∧
      point.amount = detail.total := by
  have hheld : ∀ transactions ∈ [comings, goings], (∀ t ∈ transactions, sameCurrency ascii t.currency (js "USD") = true) ∧
      (∀ t ∈ transactions, assertValid t = .ok ()) ∧ (∀ t ∈ transactions, Refers [pot, purse] t) ∧
      ∀ t ∈ transactions, t.date ≤ quarter.last := by
    decide +kernel
  have hagree : ∀ transactions ∈ [comings, goings], ∃ points point detail,
      netWorthOver ascii [pot, purse] transactions quarter (js "USD") (fun _ => none) = .ok points ∧
        points.getLast? = some point ∧
        netWorthDetail ascii [pot, purse] (balances [pot, purse] transactions) (js "USD") (fun _ => none) = .ok detail ∧
        (point.amount = detail.total ↔
          heldLeftOut [pot, purse] transactions = (transactions.map (takenTwice [pot, purse])).sum) := by
    intro transactions ht
    obtain ⟨hsame, hvalid, hrefers, hdates⟩ := hheld transactions ht
    exact figures_agree_iff (by decide +kernel) (by decide +kernel) (by decide +kernel) hsame hvalid hrefers hdates
      quarter_spans (by decide +kernel) (by decide)
  obtain ⟨points, point, detail, hpoints, hpoint, hdetail, hiff⟩ := hagree comings List.mem_cons_self
  refine ⟨⟨points, point, detail, hpoints, hpoint, hdetail, fun heq => absurd (hiff.mp heq) (by decide +kernel)⟩, ?_⟩
  obtain ⟨points, point, detail, hpoints, hpoint, hdetail, hiff⟩ := hagree goings (List.mem_cons_of_mem _ List.mem_cons_self)
  exact ⟨points, point, detail, hpoints, hpoint, hdetail, hiff.mpr (by decide +kernel)⟩

/-- Reports show 510 where the accounts screen shows 10. -/
theorem pot_in_reports_only : (netWorthOver ascii [pot, purse] [] quarter (js "USD") (fun _ => none)).map
      (fun points => points.map NetWorthPoint.amount) = .ok [51000, 51000, 51000] ∧
    netWorthDetail ascii [pot, purse] (balances [pot, purse] []) (js "USD") (fun _ => none) = .ok ⟨1000, [], js "USD", 1⟩ :=
  ⟨by decide +kernel, by decide +kernel⟩

end Books

end EasyDocket
