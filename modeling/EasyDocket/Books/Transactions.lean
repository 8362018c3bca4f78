import EasyDocket.Books.Accounts
import Mathlib.Algebra.Order.Field.Rat
import Mathlib.Data.Int.Cast.Lemmas
import Mathlib.Tactic.Ring

/-!
# Recording transactions

What is checked before a transaction is stored, and what a stored transaction does to the balances of all accounts
together: a transfer takes from one account what it gives to another.
-/

namespace EasyDocket

namespace Books

/-! ## Checks -/

/-- `assertValid`, with the message of the error. -/
def assertValid (t : Transaction) : Except String Unit :=
  if t.amount ≤ 0 then .error "Amount must be greater than zero"
  else if truthy (some t.accountId) = none then .error "An account is required"
  else if datePattern.isMatch t.date = false then .error "Date must be YYYY-MM-DD"
  else if t.kind = .transfer then
    if truthy t.counterAccountId = none then .error "A transfer needs a destination account"
    else if t.counterAccountId = some t.accountId then .error "A transfer needs two different accounts"
    else .ok ()
  else .ok ()

/-- The transaction that `save` makes of a draft, before it is stored: direction is carried by `kind`, so the stored
amount is always positive. -/
def save (draft : Transaction) : Except String Transaction :=
  let t := { draft with amount := (draft.amount.natAbs : ℤ) }
  (assertValid t).map (fun _ => t)

variable {t draft : Transaction} {id : JsString}

/-- What has been checked of a stored transaction. -/
structure Valid (t : Transaction) : Prop where
  amount : 0 < t.amount
  account : truthy (some t.accountId) = some t.accountId
  transfer : t.kind = .transfer → ∃ other, truthy t.counterAccountId = some other ∧ t.counterAccountId = some other ∧
    other ≠ t.accountId

theorem truthy_eq_some {s : Option JsString} {x : JsString} : truthy s = some x ↔ s = some x ∧ x ≠ [] := by
  unfold truthy
  rw [Option.filter_eq_some_iff, decide_eq_true_eq]

theorem valid_of_assertValid (h : assertValid t = .ok ()) : Valid t := by
  unfold assertValid at h
  by_cases hamount : t.amount ≤ 0
  · rw [if_pos hamount] at h
    cases h
  rw [if_neg hamount] at h
  by_cases haccount : truthy (some t.accountId) = none
  · rw [if_pos haccount] at h
    cases h
  rw [if_neg haccount] at h
  by_cases hdate : datePattern.isMatch t.date = false
  · rw [if_pos hdate] at h
    cases h
  rw [if_neg hdate] at h
  obtain ⟨account, htruthy⟩ := Option.ne_none_iff_exists'.mp haccount
  refine ⟨not_le.mp hamount, ?_, fun hkind => ?_⟩
  · rw [htruthy, Option.some.inj (truthy_eq_some.mp htruthy).1]
  · rw [if_pos hkind] at h
    by_cases hcounter : truthy t.counterAccountId = none
    · rw [if_pos hcounter] at h
      cases h
    rw [if_neg hcounter] at h
    obtain ⟨other, hother⟩ := Option.ne_none_iff_exists'.mp hcounter
    have hsome := (truthy_eq_some.mp hother).1
    refine ⟨other, hother, hsome, fun he => ?_⟩
    rw [if_pos (hsome.trans (congrArg some he))] at h
    cases h

theorem save_ok (h : save draft = .ok t) :
    assertValid t = .ok () ∧ t = { draft with amount := (draft.amount.natAbs : ℤ) } := by
  unfold save at h
  dsimp only at h
  cases hvalid : assertValid { draft with amount := (draft.amount.natAbs : ℤ) } with
  | error e =>
    rw [hvalid] at h
    cases h
  | ok u =>
    rw [hvalid] at h
    have ht := Except.ok.inj h
    exact ⟨ht ▸ hvalid, ht.symm⟩

/-- When a transfer is valid. -/
theorem assertValid_transfer (hkind : t.kind = .transfer) : assertValid t = .ok () ↔
    0 < t.amount ∧ t.accountId ≠ [] ∧ datePattern.isMatch t.date = true ∧
      ∃ other, t.counterAccountId = some other ∧ other ≠ [] ∧ other ≠ t.accountId := by
  have haccount : truthy (some t.accountId) = none ↔ t.accountId = [] := by
    unfold truthy
    by_cases h : t.accountId = [] <;> simp [h]
  constructor
  · intro h
    have hvalid := valid_of_assertValid h
    obtain ⟨other, hother, hcounter, hne⟩ := hvalid.transfer hkind
    refine ⟨hvalid.amount, (truthy_eq_some.mp hvalid.account).2, ?_, other, hcounter, (truthy_eq_some.mp hother).2, hne⟩
    by_contra hdate
    unfold assertValid at h
    rw [if_neg (not_le.mpr hvalid.amount), if_neg (by rw [hvalid.account]; simp),
      if_pos (Bool.eq_false_iff.mpr hdate)] at h
    cases h
  · rintro ⟨hamount, hid, hdate, other, hcounter, hother, hne⟩
    have htruthy : truthy t.counterAccountId ≠ none := by
      rw [truthy_eq_some.mpr ⟨hcounter, hother⟩]
      exact Option.some_ne_none other
    have hself : t.counterAccountId ≠ some t.accountId := fun he => hne (Option.some.inj (hcounter.symm.trans he))
    unfold assertValid
    rw [if_neg (not_le.mpr hamount), if_neg (fun h => hid (haccount.mp h)), if_neg (by rw [hdate]; exact Bool.noConfusion),
      if_pos hkind, if_neg htruthy, if_neg hself]

/-! ## Effects -/

/-- The amount of an income or an expense, with its sign. -/
def Transaction.signed (t : Transaction) : Minor :=
  match t.kind with
  | .income => t.amount
  | .expense => -t.amount
  | .transfer => 0

/-- How often the balance of its account takes an income or an expense in. -/
def Transaction.times (t : Transaction) : ℕ := if t.counterAccountId = some t.accountId then 2 else 1

/-- What a transfer does to balances. -/
theorem effectOn_transfer (h : Valid t) (hkind : t.kind = .transfer) {other : JsString} (hother : t.counterAccountId = some other) :
    effectOn id t = if t.accountId = id then -t.amount else if other = id then t.amount else 0 := by
  obtain ⟨other', htruthy, hcounter, hne⟩ := h.transfer hkind
  have heq : other' = other := Option.some.inj (hcounter.symm.trans hother)
  rw [heq] at htruthy hne
  unfold effectOn signedFor
  rw [h.account, htruthy, hkind, hother]
  simp only [Option.some_inj]
  by_cases ha : t.accountId = id
  · have hb : ¬ other = id := fun hb => hne (hb.trans ha.symm)
    simp [ha, hb]
  · by_cases hb : other = id <;> simp [ha, hb]

/-- What an income or an expense does to balances: an account that is named twice takes it in twice. -/
theorem effectOn_signed (h : Valid t) (hkind : t.kind ≠ .transfer) :
    effectOn id t = if t.accountId = id then t.times * t.signed else 0 := by
  have hsigned : signedFor id t = if t.accountId = id then t.signed else 0 := by
    unfold signedFor Transaction.signed
    cases hk : t.kind with
    | income => rfl
    | expense => rfl
    | transfer => exact absurd hk hkind
  unfold effectOn Transaction.times
  rw [h.account, hsigned]
  simp only [Option.some_inj]
  by_cases ha : t.accountId = id
  · rw [if_pos ha, if_pos ha, if_pos ha, ← ha]
    have hne : t.accountId ≠ [] := (truthy_eq_some.mp h.account).2
    by_cases hc : t.counterAccountId = some t.accountId
    · rw [if_pos (truthy_eq_some.mpr ⟨hc, hne⟩), if_pos hc]
      exact (two_mul t.signed).symm
    · rw [if_neg (fun ht => hc (truthy_eq_some.mp ht).1), if_neg hc, Int.add_zero]
      exact (one_mul t.signed).symm
  · rw [if_neg ha, if_neg ha, if_neg ha, ite_self, Int.add_zero]

/-! ## Sums over accounts -/

section Weighted

variable {R : Type} [CommRing R] {accounts : List Account} {src dest account : Account} (w : Account → R)

/-- A sum in which one account counts. -/
theorem sum_one_account (hids : (accounts.map Account.id).Nodup) (hin : account ∈ accounts) (f : Account → R) :
    (accounts.map (fun a => if account.id = a.id then f a else 0)).sum = f account := by
  induction accounts with
  | nil => exact absurd hin List.not_mem_nil
  | cons a accounts ih =>
    rw [List.map_cons, List.nodup_cons] at hids
    rw [List.map_cons, List.sum_cons]
    rcases List.mem_cons.mp hin with rfl | hin
    · have hzero : ∀ b ∈ accounts, (if account.id = b.id then f b else 0) = 0 :=
        fun b hb => if_neg (fun he : account.id = b.id => hids.1 (List.mem_map.mpr ⟨b, hb, he.symm⟩))
      rw [if_pos rfl, sum_map_eq_zero hzero, add_zero]
    · have hne : ¬ account.id = a.id := fun he => hids.1 (List.mem_map.mpr ⟨account, hin, he⟩)
      rw [if_neg hne, zero_add, ih hids.2 hin]

/-- A transfer moves its amount from the weight of one account to the weight of the other. -/
theorem sum_transfer (hids : (accounts.map Account.id).Nodup) (h : Valid t) (hkind : t.kind = .transfer)
    (hsrc : src ∈ accounts) (hdest : dest ∈ accounts) (hfrom : src.id = t.accountId) (hinto : t.counterAccountId = some dest.id) :
    (accounts.map (fun a => w a * (effectOn a.id t : ℤ))).sum = t.amount * (w dest - w src) := by
  obtain ⟨other, -, hcounter, hne⟩ := h.transfer hkind
  have hother : other = dest.id := Option.some.inj (hcounter.symm.trans hinto)
  have hterm : ∀ a ∈ accounts, w a * ((effectOn a.id t : ℤ) : R) =
      (if dest.id = a.id then w a * t.amount else 0) - (if src.id = a.id then w a * t.amount else 0) := by
    intro a _
    rw [effectOn_transfer h hkind hinto, hfrom]
    by_cases ha : t.accountId = a.id
    · have hb : ¬ dest.id = a.id := fun hb => hne (hother.trans (hb.trans ha.symm))
      rw [if_pos ha, if_pos ha, if_neg hb]
      push_cast
      ring
    · rw [if_neg ha, if_neg ha, sub_zero]
      by_cases hb : dest.id = a.id
      · rw [if_pos hb, if_pos hb]
      · rw [if_neg hb, if_neg hb, Int.cast_zero, mul_zero]
  rw [List.map_congr_left hterm, sum_map_sub, sum_one_account hids hdest (fun a => w a * t.amount),
    sum_one_account hids hsrc (fun a => w a * t.amount)]
  ring

/-- An income or an expense counts with the weight of its account. -/
theorem sum_signed (hids : (accounts.map Account.id).Nodup) (h : Valid t) (hkind : t.kind ≠ .transfer)
    (hin : account ∈ accounts) (haccount : account.id = t.accountId) :
    (accounts.map (fun a => w a * (effectOn a.id t : ℤ))).sum = t.times * t.signed * w account := by
  have hterm : ∀ a ∈ accounts, w a * ((effectOn a.id t : ℤ) : R) =
      if account.id = a.id then t.times * t.signed * w a else 0 := by
    intro a _
    rw [effectOn_signed h hkind, haccount]
    by_cases ha : t.accountId = a.id
    · rw [if_pos ha, if_pos ha]
      push_cast
      ring
    · rw [if_neg ha, if_neg ha, Int.cast_zero, mul_zero]
  rw [List.map_congr_left hterm, sum_one_account hids hin (fun a => t.times * t.signed * w a)]

end Weighted

end Books

end EasyDocket
