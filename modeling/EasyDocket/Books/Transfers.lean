import EasyDocket.Books.Rounding
import EasyDocket.Books.Transactions
import Mathlib.Algebra.BigOperators.Ring.Finset
import Mathlib.Tactic.Linarith
import Mathlib.Tactic.Positivity

/-!
# Transfers and net worth

A balance is kept in the currency of its account, and a transfer takes one amount from one balance and adds it to the
other.  What that does to net worth depends on what the two currencies are worth.
-/

namespace EasyDocket

namespace Books

section Transfers

variable {T : Text} {accounts : List Account} {reporting : JsString} {rateToReporting : JsString → Option ℚ}
  {t draft : Transaction} {src dest account : Account} {before after others : List Transaction}
  {held held' : OrderedMap JsString Minor}

/-! ## Before rounding -/

/-- What one minor unit of an account's currency is worth in minor units of the reporting currency. -/
def unitWorth (T : Text) (reporting : JsString) (rateToReporting : JsString → Option ℚ) (account : Account) : ℚ :=
  if sameCurrency T account.currency reporting then 1
  else ((rateToReporting account.currency).map (fun rate => factor T rate account.currency reporting)).getD 0

/-- Net worth, were conversions not rounded. -/
def unrounded (T : Text) (accounts : List Account) (held : OrderedMap JsString Minor) (reporting : JsString)
    (rateToReporting : JsString → Option ℚ) : ℚ :=
  ((counted accounts).map (fun a => unitWorth T reporting rateToReporting a * ((held.get? a.id).getD 0 : ℤ))).sum

theorem standing_close : |(standing T held reporting rateToReporting account : ℚ) -
    unitWorth T reporting rateToReporting account * ((held.get? account.id).getD 0 : ℤ)| ≤ slack := by
  unfold standing unitWorth worth
  by_cases hs : sameCurrency T account.currency reporting = true
  · rw [if_pos hs, if_pos hs, Option.getD_some, one_mul, sub_self, abs_zero]
    exact slack_pos.le
  · rw [if_neg hs, if_neg hs]
    cases rateToReporting account.currency with
    | none =>
      rw [Option.map_none, Option.map_none, Option.getD_none, Option.getD_none, Int.cast_zero, zero_mul, sub_self, abs_zero]
      exact slack_pos.le
    | some rate =>
      rw [Option.map_some, Option.map_some, Option.getD_some, Option.getD_some, mul_comm (factor T rate account.currency reporting)]
      exact roundHalfAwayFromZero_close _

theorem total_eq (hrates : ∀ currency rate, rateToReporting currency = some rate → 0 < rate) :
    ∃ detail, netWorthDetail T accounts held reporting rateToReporting = .ok detail ∧
      detail.total = ((counted accounts).map (standing T held reporting rateToReporting)).sum := by
  refine ⟨_, netWorthDetail_eq hrates, ?_⟩
  unfold counted addsTo
  rw [sum_counted]

/-! ## One transfer -/

/-- A transfer between two accounts that count and whose currencies have a rate. -/
structure Between (T : Text) (accounts : List Account) (reporting : JsString) (rateToReporting : JsString → Option ℚ)
    (t : Transaction) (src dest : Account) : Prop where
  kind : t.kind = .transfer
  src_mem : src ∈ counted accounts
  dest_mem : dest ∈ counted accounts
  src_id : src.id = t.accountId
  dest_id : t.counterAccountId = some dest.id
  src_rate : convertible T reporting rateToReporting src = true
  dest_rate : convertible T reporting rateToReporting dest = true

theorem counted_nodup (hids : (accounts.map Account.id).Nodup) : ((counted accounts).map Account.id).Nodup :=
  hids.sublist ((List.filter_sublist.trans List.filter_sublist).map _)

theorem mem_of_counted (h : account ∈ counted accounts) : account ∈ accounts :=
  (List.mem_filter.mp (List.mem_filter.mp h).1).1

theorem balance_of (hids : (accounts.map Account.id).Nodup) (ha : account ∈ counted accounts) (transactions : List Transaction) :
    ((balances accounts transactions).get? account.id).getD 0 =
      account.openingBalance + (transactions.map (effectOn account.id)).sum := by
  rw [get?_balances hids (mem_of_counted ha), Option.getD_some]

/-- A balance, once a transaction is there. -/
theorem balance_cons (hids : (accounts.map Account.id).Nodup) (ha : account ∈ counted accounts) (hperm : after.Perm (t :: before)) :
    ((balances accounts after).get? account.id).getD 0 =
      ((balances accounts before).get? account.id).getD 0 + effectOn account.id t := by
  rw [balance_of hids ha, balance_of hids ha, (hperm.map (effectOn account.id)).sum_eq, List.map_cons, List.sum_cons]
  exact (Int.add_assoc _ _ _).trans (congrArg _ (Int.add_comm _ _)) |>.symm

/-- What a transfer moves, in the reporting currency. -/
theorem unrounded_cons (hids : (accounts.map Account.id).Nodup) (hvalid : Valid t)
    (h : Between T accounts reporting rateToReporting t src dest) (hperm : after.Perm (t :: before)) :
    unrounded T accounts (balances accounts after) reporting rateToReporting =
      unrounded T accounts (balances accounts before) reporting rateToReporting +
        t.amount * (unitWorth T reporting rateToReporting dest - unitWorth T reporting rateToReporting src) := by
  have hterm : ∀ a ∈ counted accounts,
      unitWorth T reporting rateToReporting a * (((balances accounts after).get? a.id).getD 0 : ℤ) =
        unitWorth T reporting rateToReporting a * (((balances accounts before).get? a.id).getD 0 : ℤ) +
          unitWorth T reporting rateToReporting a * (effectOn a.id t : ℤ) := by
    intro a ha
    rw [balance_cons hids ha hperm]
    push_cast
    ring
  unfold unrounded
  rw [List.map_congr_left hterm, List.sum_map_add, sum_transfer (unitWorth T reporting rateToReporting) (counted_nodup hids)
    hvalid h.kind h.src_mem h.dest_mem h.src_id h.dest_id]

/-! ### Rounding anew -/

/-- What the rounding of an account's conversion comes to. -/
def offBy (T : Text) (held : OrderedMap JsString Minor) (reporting : JsString) (rateToReporting : JsString → Option ℚ)
    (account : Account) : ℚ :=
  (standing T held reporting rateToReporting account : ℚ) -
    unitWorth T reporting rateToReporting account * ((held.get? account.id).getD 0 : ℤ)

/-- What changes of it, from some balances to others. -/
def drift (T : Text) (held held' : OrderedMap JsString Minor) (reporting : JsString) (rateToReporting : JsString → Option ℚ)
    (account : Account) : ℚ :=
  offBy T held' reporting rateToReporting account - offBy T held reporting rateToReporting account

theorem drift_le : |drift T held held' reporting rateToReporting account| ≤ 2 * slack := by
  have hafter : |offBy T held' reporting rateToReporting account| ≤ slack := standing_close
  have hbefore : |offBy T held reporting rateToReporting account| ≤ slack := standing_close
  have htriangle := abs_sub (offBy T held' reporting rateToReporting account) (offBy T held reporting rateToReporting account)
  unfold drift
  linarith

theorem drift_eq_zero (h : (held'.get? account.id).getD 0 = (held.get? account.id).getD 0) :
    drift T held held' reporting rateToReporting account = 0 := by
  unfold drift offBy standing
  rw [h, sub_self]

theorem sum_standing : ((((counted accounts).map (standing T held reporting rateToReporting)).sum : ℤ) : ℚ) =
    ((counted accounts).map (offBy T held reporting rateToReporting)).sum +
      unrounded T accounts held reporting rateToReporting := by
  unfold unrounded offBy
  rw [← List.sum_map_add, Int.cast_list_sum, List.map_map]
  refine congrArg List.sum (List.map_congr_left (fun a _ => ?_))
  exact (sub_add_cancel _ _).symm

/-- Only the two accounts of a transfer are rounded anew. -/
theorem sum_drift (hids : (accounts.map Account.id).Nodup) (hvalid : Valid t)
    (h : Between T accounts reporting rateToReporting t src dest) (hperm : after.Perm (t :: before)) :
    ((counted accounts).map (drift T (balances accounts before) (balances accounts after) reporting rateToReporting)).sum =
      drift T (balances accounts before) (balances accounts after) reporting rateToReporting src +
        drift T (balances accounts before) (balances accounts after) reporting rateToReporting dest := by
  have hterm : ∀ a ∈ counted accounts,
      drift T (balances accounts before) (balances accounts after) reporting rateToReporting a =
        (if src.id = a.id then drift T (balances accounts before) (balances accounts after) reporting rateToReporting a else 0) +
          if dest.id = a.id then drift T (balances accounts before) (balances accounts after) reporting rateToReporting a
          else 0 := by
    intro a ha
    obtain ⟨other, -, hcounter, hne⟩ := hvalid.transfer h.kind
    have hdest : other = dest.id := Option.some.inj (hcounter.symm.trans h.dest_id)
    by_cases hsrc : src.id = a.id
    · have hnot : ¬ dest.id = a.id := fun hd => hne (by rw [hdest, hd, ← hsrc, h.src_id])
      rw [if_pos hsrc, if_neg hnot, add_zero]
    · by_cases hd : dest.id = a.id
      · rw [if_neg hsrc, if_pos hd, zero_add]
      · have hzero : effectOn a.id t = 0 := by
          rw [effectOn_transfer hvalid h.kind h.dest_id, if_neg (h.src_id ▸ hsrc), if_neg hd]
        rw [if_neg hsrc, if_neg hd, add_zero]
        refine drift_eq_zero ?_
        rw [balance_cons hids ha hperm, hzero, Int.add_zero]
  rw [List.map_congr_left hterm, List.sum_map_add, sum_one_account (counted_nodup hids) h.src_mem,
    sum_one_account (counted_nodup hids) h.dest_mem]

/-- Net worth changes by what a transfer moves, up to what the two conversions are rounded by. -/
theorem total_cons (hids : (accounts.map Account.id).Nodup) (hvalid : Valid t)
    (h : Between T accounts reporting rateToReporting t src dest) (hperm : after.Perm (t :: before)) :
    |((((counted accounts).map (standing T (balances accounts after) reporting rateToReporting)).sum : ℤ) : ℚ) -
        ((((counted accounts).map (standing T (balances accounts before) reporting rateToReporting)).sum : ℤ) : ℚ) -
      t.amount * (unitWorth T reporting rateToReporting dest - unitWorth T reporting rateToReporting src)| ≤ 4 * slack := by
  have hsum : ((((counted accounts).map (standing T (balances accounts after) reporting rateToReporting)).sum : ℤ) : ℚ) -
      ((((counted accounts).map (standing T (balances accounts before) reporting rateToReporting)).sum : ℤ) : ℚ) -
      t.amount * (unitWorth T reporting rateToReporting dest - unitWorth T reporting rateToReporting src) =
      ((counted accounts).map (drift T (balances accounts before) (balances accounts after) reporting rateToReporting)).sum := by
    have hdrift := sum_map_sub (offBy T (balances accounts after) reporting rateToReporting)
      (offBy T (balances accounts before) reporting rateToReporting) (counted accounts)
    have hmoved := unrounded_cons hids hvalid h hperm
    unfold drift
    rw [hdrift, sum_standing, sum_standing, hmoved]
    ring
  rw [hsum, sum_drift hids hvalid h hperm]
  have hboth := abs_add_le (drift T (balances accounts before) (balances accounts after) reporting rateToReporting src)
    (drift T (balances accounts before) (balances accounts after) reporting rateToReporting dest)
  have hsrc : |drift T (balances accounts before) (balances accounts after) reporting rateToReporting src| ≤ 2 * slack := drift_le
  have hdest : |drift T (balances accounts before) (balances accounts after) reporting rateToReporting dest| ≤ 2 * slack := drift_le
  linarith

/-! ## Adding, editing and deleting -/

/-- What a minor unit in an account that counts is worth. -/
def worthIn (T : Text) (accounts : List Account) (reporting : JsString) (rateToReporting : JsString → Option ℚ)
    (id : JsString) : ℚ :=
  ((counted accounts).find? (fun a => a.id = id)).elim 0 (unitWorth T reporting rateToReporting)

/-- What a transfer adds to net worth, if it is there: its amount is taken at the worth of one currency and given at that
of the other. -/
def gain (T : Text) (accounts : List Account) (reporting : JsString) (rateToReporting : JsString → Option ℚ) :
    Option Transaction → ℚ
  | none => 0
  | some t => t.amount * (worthIn T accounts reporting rateToReporting (t.counterAccountId.getD []) -
      worthIn T accounts reporting rateToReporting t.accountId)

/-- A transfer that is accepted between accounts that count and can be converted. -/
structure Accepted (T : Text) (accounts : List Account) (reporting : JsString) (rateToReporting : JsString → Option ℚ)
    (t : Transaction) : Prop where
  saved : ∃ draft, save draft = .ok t
  between : ∃ src dest, Between T accounts reporting rateToReporting t src dest

theorem worthIn_eq (hids : (accounts.map Account.id).Nodup) (ha : account ∈ counted accounts) :
    worthIn T accounts reporting rateToReporting account.id = unitWorth T reporting rateToReporting account := by
  unfold worthIn
  cases hf : (counted accounts).find? (fun a => decide (a.id = account.id)) with
  | none => exact absurd (decide_eq_true rfl) (List.find?_eq_none.mp hf account ha)
  | some found =>
    have hid : found.id = account.id := by simpa using List.find?_some hf
    rw [List.inj_on_of_nodup_map (counted_nodup hids) (List.mem_of_find?_eq_some hf) ha hid]
    rfl

theorem gain_eq (hids : (accounts.map Account.id).Nodup) (h : Between T accounts reporting rateToReporting t src dest) :
    gain T accounts reporting rateToReporting (some t) =
      t.amount * (unitWorth T reporting rateToReporting dest - unitWorth T reporting rateToReporting src) := by
  rw [gain, h.dest_id, Option.getD_some, worthIn_eq hids h.dest_mem, ← h.src_id, worthIn_eq hids h.src_mem]

/-- A transfer that is accepted gains nothing between currencies that are worth the same, and no other does. -/
theorem gain_eq_zero_iff (hids : (accounts.map Account.id).Nodup) (h : Accepted T accounts reporting rateToReporting t)
    (hb : Between T accounts reporting rateToReporting t src dest) :
    gain T accounts reporting rateToReporting (some t) = 0 ↔
      unitWorth T reporting rateToReporting dest = unitWorth T reporting rateToReporting src := by
  obtain ⟨draft, hsave⟩ := h.saved
  have hamount : (t.amount : ℚ) ≠ 0 := Int.cast_ne_zero.mpr (valid_of_assertValid (save_ok hsave).1).amount.ne'
  rw [gain_eq hids hb, mul_eq_zero, or_iff_right hamount, sub_eq_zero]

/-- What a transfer, if it is there, does to net worth. -/
theorem gain_of_toList (hids : (accounts.map Account.id).Nodup) {new : Option Transaction}
    (hnew : ∀ t, new = some t → Accepted T accounts reporting rateToReporting t) (hafter : after.Perm (new.toList ++ others)) :
    unrounded T accounts (balances accounts after) reporting rateToReporting =
      unrounded T accounts (balances accounts others) reporting rateToReporting + gain T accounts reporting rateToReporting new ∧
    |((((counted accounts).map (standing T (balances accounts after) reporting rateToReporting)).sum : ℤ) : ℚ) -
        ((((counted accounts).map (standing T (balances accounts others) reporting rateToReporting)).sum : ℤ) : ℚ) -
      gain T accounts reporting rateToReporting new| ≤ 4 * slack := by
  cases new with
  | none =>
    have hsame : ∀ a ∈ counted accounts, ((balances accounts after).get? a.id).getD 0 =
        ((balances accounts others).get? a.id).getD 0 := by
      intro a ha
      rw [balance_of hids ha, balance_of hids ha, (hafter.map (effectOn a.id)).sum_eq]
      rfl
    have hstanding : ∀ a ∈ counted accounts, standing T (balances accounts after) reporting rateToReporting a =
        standing T (balances accounts others) reporting rateToReporting a := by
      intro a ha
      unfold standing
      rw [hsame a ha]
    refine ⟨?_, ?_⟩
    · unfold unrounded gain
      rw [add_zero, List.map_congr_left (fun a ha => by rw [hsame a ha])]
    · unfold gain
      rw [List.map_congr_left hstanding, sub_self, sub_zero, abs_zero]
      exact mul_nonneg (by norm_num) slack_pos.le
  | some t =>
    obtain ⟨⟨draft, hsave⟩, src, dest, hb⟩ := hnew t rfl
    have hvalid := valid_of_assertValid (save_ok hsave).1
    rw [gain_eq hids hb]
    exact ⟨unrounded_cons hids hvalid hb hafter, total_cons hids hvalid hb hafter⟩

/-- A transfer that is added, edited or deleted, from `old` to `new`, keeps net worth up to rounding if and only if both gain
the same. -/
theorem transfer_keeps_net_worth_iff (hids : (accounts.map Account.id).Nodup)
    (hrates : ∀ currency rate, rateToReporting currency = some rate → 0 < rate) {old new : Option Transaction}
    (hold : ∀ t, old = some t → Accepted T accounts reporting rateToReporting t)
    (hnew : ∀ t, new = some t → Accepted T accounts reporting rateToReporting t)
    (hbefore : before.Perm (old.toList ++ others)) (hafter : after.Perm (new.toList ++ others)) :
    ∃ detail detail', netWorthDetail T accounts (balances accounts before) reporting rateToReporting = .ok detail ∧
      netWorthDetail T accounts (balances accounts after) reporting rateToReporting = .ok detail' ∧
      |(detail'.total : ℚ) - detail.total -
        (gain T accounts reporting rateToReporting new - gain T accounts reporting rateToReporting old)| ≤ 8 * slack ∧
      (unrounded T accounts (balances accounts after) reporting rateToReporting =
          unrounded T accounts (balances accounts before) reporting rateToReporting ↔
        gain T accounts reporting rateToReporting new = gain T accounts reporting rateToReporting old) ∧
      ∀ t, old = some t ∨ new = some t → delta T t reporting = .ok 0 := by
  obtain ⟨detail, hdetail, htotal⟩ := total_eq (T := T) hrates
  obtain ⟨detail', hdetail', htotal'⟩ := total_eq (T := T) hrates
  obtain ⟨hworth, hround⟩ := gain_of_toList hids hold hbefore
  obtain ⟨hworth', hround'⟩ := gain_of_toList hids hnew hafter
  refine ⟨detail, detail', hdetail, hdetail', ?_, ?_, fun t ht => ?_⟩
  · rw [htotal, htotal']
    rw [abs_le] at hround hround' ⊢
    constructor <;> linarith [hround.1, hround.2, hround'.1, hround'.2]
  · rw [hworth, hworth', add_right_inj]
  · have hkind : t.kind = .transfer := by
      rcases ht with ht | ht
      · obtain ⟨-, src, dest, hb⟩ := hold t ht
        exact hb.kind
      · obtain ⟨-, src, dest, hb⟩ := hnew t ht
        exact hb.kind
    unfold delta
    rw [if_pos hkind]

end Transfers

/-! ### Dollars into euros -/

def dollars : Account := ⟨js "a-usd", js "USD", 100000, false, none, none⟩

def savings : Account := ⟨js "a-eur", js "EUR", 0, false, none, none⟩

def euroRate (currency : JsString) : Option ℚ := if currency = js "EUR" then some (11 / 10) else none

/-- A hundred, out of dollars and into euros. -/
def exchanged : Transaction :=
  ⟨js "t1", .transfer, 10000, js "USD", js "a-usd", some (js "a-eur"), none, js "2026-03-01", none⟩

theorem euroRate_pos : ∀ currency rate, euroRate currency = some rate → 0 < rate := by
  intro currency rate h
  unfold euroRate at h
  split_ifs at h
  rw [← Option.some.inj h]
  norm_num

theorem exchanged_accepted : Accepted ascii [dollars, savings] (js "USD") euroRate exchanged where
  saved := ⟨exchanged, by rfl⟩
  between := ⟨dollars, savings, by rfl, List.mem_cons_self, List.mem_cons_of_mem _ List.mem_cons_self, by rfl, by rfl, by rfl,
    by rfl⟩

theorem exchanged_added : ∃ detail detail',
    netWorthDetail ascii [dollars, savings] (balances [dollars, savings] []) (js "USD") euroRate = .ok detail ∧
    netWorthDetail ascii [dollars, savings] (balances [dollars, savings] [exchanged]) (js "USD") euroRate = .ok detail' ∧
    |(detail'.total : ℚ) - detail.total -
      (gain ascii [dollars, savings] (js "USD") euroRate (some exchanged) -
        gain ascii [dollars, savings] (js "USD") euroRate none)| ≤ 8 * slack ∧
    (unrounded ascii [dollars, savings] (balances [dollars, savings] [exchanged]) (js "USD") euroRate =
        unrounded ascii [dollars, savings] (balances [dollars, savings] []) (js "USD") euroRate ↔
      gain ascii [dollars, savings] (js "USD") euroRate (some exchanged) =
        gain ascii [dollars, savings] (js "USD") euroRate none) ∧
    ∀ t, none = some t ∨ some exchanged = some t → delta ascii t (js "USD") = .ok 0 :=
  transfer_keeps_net_worth_iff (by decide +kernel) euroRate_pos nofun (fun t ht => Option.some.inj ht ▸ exchanged_accepted)
    (show List.Perm [] (Option.toList none ++ []) from List.Perm.refl _) (List.Perm.refl _)

/-- A hundred dollars become a hundred euros, and net worth grows by ten dollars. -/
theorem exchange_creates_money : save exchanged = .ok exchanged ∧
    netWorthDetail ascii [dollars, savings] (balances [dollars, savings] []) (js "USD") euroRate =
      .ok ⟨100000, [], js "USD", 0⟩ ∧
    netWorthDetail ascii [dollars, savings] (balances [dollars, savings] [exchanged]) (js "USD") euroRate =
      .ok ⟨101000, [], js "USD", 0⟩ ∧
    8 * slack < 101000 - 100000 := by
  refine ⟨by rfl, by decide +kernel, by decide +kernel, ?_⟩
  unfold slack PRECISION
  norm_num

end Books

end EasyDocket
