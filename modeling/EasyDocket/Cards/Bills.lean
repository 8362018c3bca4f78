import EasyDocket.Books.Transactions
import EasyDocket.Cards.Statement

/-!
# Card bills

What a card's statement comes to: what was owed at the close and is owed now, what was paid since, and what is left to pay.
The figures are sums over the ledger, at the close and now, so they follow what is spent and paid in between.
-/

namespace EasyDocket

namespace Cards

open Books

/-- An account with its name and the terms of its cycle. -/
structure CardAccount extends Account where
  name : JsString
  statementDay : Option ℕ
  dueDay : Option ℕ

@[ext] structure StatementSummary where
  closedOn : JsString
  dueOn : JsString
  statementBalance : Minor
  paidSince : Minor
  remaining : Minor
  currentBalance : Minor
  deriving DecidableEq

/-- `owed`: the ledger's sign, flipped. -/
def owed (balance : Minor) : Minor := if balance = 0 then 0 else -balance

/-- `balanceAsOf`: balance of an account on a date, opening balance included. -/
def balanceAsOf (account : CardAccount) (transactions : List Transaction) (date : JsString) : Minor :=
  transactions.foldl (fun total t => if date < t.date then total else total + signedFor account.id t) account.openingBalance

/-- The loop of `summariseStatement`: money that arrives on the card after the close is a payment. -/
def paidBetween (account : CardAccount) (transactions : List Transaction) (closedOn asOf : JsString) : Minor :=
  transactions.foldl (fun paid t =>
    if t.date ≤ closedOn ∨ asOf < t.date then paid
    else if 0 < signedFor account.id t then paid + signedFor account.id t
    else paid) 0

/-- What `summariseStatement` makes of the two dates. -/
def summaryAt (account : CardAccount) (transactions : List Transaction) (asOf closedOn dueOn : JsString) : StatementSummary :=
  let statementBalance := owed (balanceAsOf account transactions closedOn)
  let paidSince := paidBetween account transactions closedOn asOf
  { closedOn
    dueOn
    statementBalance
    paidSince
    remaining := max (statementBalance - paidSince) 0
    currentBalance := owed (balanceAsOf account transactions asOf) }

/-- `summariseStatement`: a card's cycle, or none when it has no terms to summarise. -/
def summariseStatement (account : CardAccount) (transactions : List Transaction) (asOf : JsString) :
    Except DateError (Option StatementSummary) :=
  match account.statementDay, account.dueDay with
  | some statementDay, some dueDay => do
    let closedOn ← lastStatementDate statementDay asOf
    let dueOn ← dueDateFor dueDay closedOn
    pure (some (summaryAt account transactions asOf closedOn dueOn))
  | _, _ => pure none

/-! ## Paying -/

namespace PayBillService

/-- `summarise`: the card's cycle, from the transactions that touch the card. -/
def summarise (transactions : List Transaction) (card : CardAccount) (asOf : JsString) :
    Except DateError (Option StatementSummary) :=
  summariseStatement card (transactions.filter (fun t => t.accountId = card.id || t.counterAccountId = some card.id)) asOf

/-- The request of a payment; the source calls the account it is paid from `from`. -/
structure PayBillRequest where
  card : CardAccount
  source : CardAccount
  amount : Minor
  date : Option JsString
  note : Option JsString

/-- A transaction with what is written beside it. -/
structure Payment extends Transaction where
  payee : JsString
  note : JsString
  cleared : Bool

variable (T : Text)

/-- `pay`: record a payment under a fresh id. -/
def pay (request : PayBillRequest) (id today : JsString) : Except JsString Payment :=
  if request.amount ≤ 0 then .error (js "A payment has to be more than nothing")
  else if request.source.id = request.card.id then .error (js "A card cannot pay its own bill")
  else if !sameCurrency T request.source.currency request.card.currency then
    .error (request.source.name ++ js " is in " ++ request.source.currency ++ js " and " ++ request.card.name ++
      js " is in " ++ request.card.currency ++ js ". Pay from an account in the same currency.")
  else
    ((save {
      id
      kind := .transfer
      amount := request.amount
      currency := request.card.currency
      accountId := request.source.id
      counterAccountId := some request.card.id
      categoryId := none
      date := request.date.getD today
      rate := none }).map (fun t =>
        { t with payee := request.card.name, note := request.note.getD [], cleared := true })).mapError (fun e => js e)

/-- The day a payment is recorded on. -/
def PayBillRequest.day (request : PayBillRequest) (today : JsString) : JsString := request.date.getD today

/-- The transfer that a request asks for. -/
def PayBillRequest.payment (request : PayBillRequest) (id today : JsString) : Payment where
  id
  kind := .transfer
  amount := request.amount
  currency := request.card.currency
  accountId := request.source.id
  counterAccountId := some request.card.id
  categoryId := none
  date := request.day today
  rate := none
  payee := request.card.name
  note := request.note.getD []
  cleared := true

/-- Something is paid, from another account in the same currency, on a day that is written as one. -/
structure PayBillRequest.Payable (request : PayBillRequest) (today : JsString) : Prop where
  amount : 0 < request.amount
  other : request.source.id ≠ request.card.id
  currency : sameCurrency T request.source.currency request.card.currency = true
  source : request.source.id ≠ []
  card : request.card.id ≠ []
  day : datePattern.isMatch (request.day today) = true

end PayBillService

/-! ## Bills -/

namespace CardBillsService

structure CardBill where
  card : CardAccount
  summary : StatementSummary

/-- `typeOf`: what an account is, which its group decides. -/
def typeOf (groups : List AccountGroup) (account : CardAccount) : AccountGroupType :=
  (((Books.truthy account.groupId).bind (fun id => groups.find? (fun group => group.id = id))).map AccountGroup.type).getD .default

/-- `isCreditCard`. -/
def isCreditCard (groups : List AccountGroup) (account : CardAccount) : Bool := typeOf groups account = .creditCard

/-- The bill of a card, if it has terms. -/
def billOf (transactions : List Transaction) (today : JsString) (card : CardAccount) : Except DateError (Option CardBill) :=
  (summariseStatement card transactions today).map (fun summary => summary.map (fun summary => ⟨card, summary⟩))

/-- Bills in the order in which they fall due. -/
def sortBills (T : Text) (found : List CardBill) : List CardBill :=
  found.insertionSort (fun a b => T.localeCompare a.summary.dueOn b.summary.dueOn ≤ 0)

/-- `bills`: every credit card that has terms, with its cycle worked out. -/
def bills (T : Text) (accounts : List CardAccount) (groups : List AccountGroup) (transactions : List Transaction)
    (today : JsString) : Except DateError (List CardBill) := do
  let cards := accounts.filter (fun account => !account.archived && isCreditCard groups account)
  let found ← cards.mapM (billOf transactions today)
  pure (sortBills T (found.filterMap id))

end CardBillsService

/-! ## Figures as sums -/

variable {account card : CardAccount} {transactions ledger : List Transaction} {closedOn dueOn asOf : JsString}
  {t : Transaction} {q : CalendarDate}

theorem owed_eq (balance : Minor) : owed balance = -balance := by
  unfold owed
  split_ifs with h
  · rw [h, Int.neg_zero]
  · rfl

/-- What a transaction adds to the balance on a date. -/
def effectUpTo (id date : JsString) (t : Transaction) : Minor := if date < t.date then 0 else signedFor id t

/-- What a transaction pays onto the card between two dates. -/
def paidBy (id closedOn asOf : JsString) (t : Transaction) : Minor :=
  if t.date ≤ closedOn ∨ asOf < t.date then 0 else max (signedFor id t) 0

/-- What a transaction spends on the card between two dates. -/
def spentOn (id closedOn asOf : JsString) (t : Transaction) : Minor :=
  if t.date ≤ closedOn ∨ asOf < t.date then 0 else max (-signedFor id t) 0

theorem balanceAsOf_eq (account : CardAccount) (transactions : List Transaction) (date : JsString) :
    balanceAsOf account transactions date =
      account.openingBalance + (transactions.map (effectUpTo account.id date)).sum := by
  unfold balanceAsOf
  refine foldl_measure (φ := fun total => total) (fun total t => ?_) transactions account.openingBalance
  unfold effectUpTo
  split_ifs
  · exact (Int.add_zero total).symm
  · rfl

theorem paidBetween_eq (account : CardAccount) (transactions : List Transaction) (closedOn asOf : JsString) :
    paidBetween account transactions closedOn asOf = (transactions.map (paidBy account.id closedOn asOf)).sum := by
  unfold paidBetween
  rw [← Int.zero_add (List.sum _)]
  refine foldl_measure (φ := fun paid => paid) (fun paid t => ?_) transactions (0 : Minor)
  unfold paidBy
  by_cases hout : t.date ≤ closedOn ∨ asOf < t.date
  · rw [if_pos hout, if_pos hout, Int.add_zero]
  · rw [if_neg hout, if_neg hout]
    split_ifs with hpaid
    · rw [max_eq_left (le_of_lt hpaid)]
    · rw [max_eq_right (not_lt.mp hpaid), Int.add_zero]

/-- After the close, a transaction moves the balance by what it pays less what it spends. -/
theorem effectUpTo_eq (h : closedOn ≤ asOf) (id : JsString) (t : Transaction) :
    effectUpTo id asOf t = effectUpTo id closedOn t + (paidBy id closedOn asOf t - spentOn id closedOn asOf t) := by
  unfold effectUpTo paidBy spentOn
  rcases lt_or_ge asOf t.date with hafter | hupto
  · rw [if_pos hafter, if_pos (lt_of_le_of_lt h hafter), if_pos (Or.inr hafter), if_pos (Or.inr hafter)]
    rfl
  · rcases lt_or_ge closedOn t.date with hopen | hclosed
    · have hin : ¬ (t.date ≤ closedOn ∨ asOf < t.date) := fun hout => hout.elim (not_le.mpr hopen) (not_lt.mpr hupto)
      rw [if_neg (not_lt.mpr hupto), if_pos hopen, if_neg hin, if_neg hin, Int.zero_add]
      rcases le_total 0 (signedFor id t) with hpaid | hspent
      · rw [max_eq_left hpaid, max_eq_right (Int.neg_nonpos_of_nonneg hpaid), Int.sub_zero]
      · rw [max_eq_right hspent, max_eq_left (Int.neg_nonneg_of_nonpos hspent), Int.zero_sub, Int.neg_neg]
    · rw [if_neg (not_lt.mpr hupto), if_neg (not_lt.mpr hclosed), if_pos (Or.inl hclosed), if_pos (Or.inl hclosed)]
      exact (Int.add_zero _).symm

/-- What is owed now is the statement, less what was paid since, plus what was spent since. -/
theorem currentBalance_eq (h : closedOn ≤ asOf) : (summaryAt card transactions asOf closedOn dueOn).currentBalance =
    (summaryAt card transactions asOf closedOn dueOn).statementBalance -
        (summaryAt card transactions asOf closedOn dueOn).paidSince +
      (transactions.map (spentOn card.id closedOn asOf)).sum := by
  have hsum : (transactions.map (effectUpTo card.id asOf)).sum = (transactions.map (effectUpTo card.id closedOn)).sum +
      ((transactions.map (paidBy card.id closedOn asOf)).sum - (transactions.map (spentOn card.id closedOn asOf)).sum) := by
    rw [← sum_map_sub, ← List.sum_map_add]
    exact congrArg List.sum (List.map_congr_left (fun t _ => effectUpTo_eq h card.id t))
  show owed _ = owed _ - paidBetween card transactions closedOn asOf + _
  rw [owed_eq, owed_eq, balanceAsOf_eq, balanceAsOf_eq, paidBetween_eq, hsum]
  ring

/-! ## The transactions of a card -/

theorem signedFor_eq_zero {id : JsString} (h : ¬ (t.accountId = id ∨ t.counterAccountId = some id)) : signedFor id t = 0 := by
  have haccount : ¬ t.accountId = id := fun he => h (Or.inl he)
  have hcounter : ¬ t.counterAccountId = some id := fun he => h (Or.inr he)
  unfold signedFor
  cases t.kind <;> simp [haccount, hcounter]

theorem sum_filter {p : Transaction → Bool} {f : Transaction → Minor} (h : ∀ t, p t = false → f t = 0) :
    ∀ transactions : List Transaction, ((transactions.filter p).map f).sum = (transactions.map f).sum
  | [] => rfl
  | t :: transactions => by
    by_cases hp : p t = true
    · rw [List.filter_cons_of_pos hp, List.map_cons, List.map_cons, List.sum_cons, List.sum_cons, sum_filter h transactions]
    · rw [List.filter_cons_of_neg hp, List.map_cons, List.sum_cons, h t (Bool.eq_false_iff.mpr hp), Int.zero_add,
        sum_filter h transactions]

/-- Only the transactions that touch a card make its figures. -/
theorem summaryAt_filter : summaryAt card
    (transactions.filter (fun t => t.accountId = card.id || t.counterAccountId = some card.id)) asOf closedOn dueOn =
      summaryAt card transactions asOf closedOn dueOn := by
  have hzero : ∀ t : Transaction, (decide (t.accountId = card.id) || decide (t.counterAccountId = some card.id)) = false →
      signedFor card.id t = 0 := by
    intro t ht
    rw [Bool.or_eq_false_iff, decide_eq_false_iff_not, decide_eq_false_iff_not] at ht
    exact signedFor_eq_zero (fun h => h.elim ht.1 ht.2)
  have hbalance : ∀ date, balanceAsOf card
      (transactions.filter (fun t => t.accountId = card.id || t.counterAccountId = some card.id)) date =
        balanceAsOf card transactions date := by
    intro date
    rw [balanceAsOf_eq, balanceAsOf_eq, sum_filter]
    intro t ht
    unfold effectUpTo
    rw [hzero t ht, ite_self]
  have hpaid : paidBetween card
      (transactions.filter (fun t => t.accountId = card.id || t.counterAccountId = some card.id)) closedOn asOf =
        paidBetween card transactions closedOn asOf := by
    rw [paidBetween_eq, paidBetween_eq, sum_filter]
    intro t ht
    unfold paidBy
    rw [hzero t ht]
    exact ite_self _
  unfold summaryAt
  rw [hbalance, hbalance, hpaid]

theorem summarise_eq (transactions : List Transaction) (card : CardAccount) (asOf : JsString) :
    PayBillService.summarise transactions card asOf = summariseStatement card transactions asOf := by
  unfold PayBillService.summarise summariseStatement
  simp only [summaryAt_filter]

/-! ## A payment -/

variable {T : Text} {request : PayBillService.PayBillRequest} {payment : PayBillService.Payment} {id today : JsString}

/-- A payment is recorded exactly if it can be made, and it is the transfer that was asked for. -/
theorem pay_eq_ok : PayBillService.pay T request id today = .ok payment ↔
    request.Payable T today ∧ payment = request.payment id today := by
  let draft : Transaction := (request.payment id today).toTransaction
  have hdraft : 0 < request.amount → { draft with amount := (draft.amount.natAbs : ℤ) } = draft := by
    intro hpos
    have habs : (draft.amount.natAbs : ℤ) = draft.amount := Int.natAbs_of_nonneg (le_of_lt hpos)
    rw [habs]
  constructor
  · intro h
    unfold PayBillService.pay at h
    split_ifs at h with hamount hown hcurrency
    have hpos : 0 < request.amount := not_le.mp hamount
    change ((save draft).map _).mapError _ = _ at h
    cases hsave : save draft with
    | error e =>
      rw [hsave] at h
      cases h
    | ok t =>
      obtain ⟨hvalid, ht⟩ := save_ok hsave
      rw [hdraft hpos] at ht
      subst ht
      obtain ⟨-, hsource, hday, other, hother, hcard, -⟩ := (assertValid_transfer rfl).mp hvalid
      cases hother
      rw [hsave] at h
      exact ⟨⟨hpos, hown, by simpa using hcurrency, hsource, hcard, hday⟩, (Except.ok.inj h).symm⟩
  · rintro ⟨⟨hpos, hown, hcurrency, hsource, hcard, hday⟩, rfl⟩
    have hvalid : assertValid draft = .ok () :=
      (assertValid_transfer rfl).mpr ⟨hpos, hsource, hday, _, rfl, hcard, fun he => hown he.symm⟩
    have hsave : save draft = .ok draft := by
      unfold save
      dsimp only
      rw [hdraft hpos, hvalid]
      rfl
    unfold PayBillService.pay
    rw [if_neg (not_le.mpr hpos), if_neg hown, if_neg (by simp [hcurrency])]
    change ((save draft).map _).mapError _ = _
    rw [hsave]
    rfl

/-- What a payment does to the balance of the card. -/
theorem signedFor_pay (h : request.Payable T today) :
    signedFor request.card.id (request.payment id today).toTransaction = request.amount := by
  unfold signedFor
  show (if request.source.id = request.card.id then _ else _) = _
  rw [if_neg h.other]
  exact if_pos rfl

/-- What is left to pay goes down by what is paid, and not below zero. -/
theorem max_sub_eq (x p : ℤ) (hp : 0 < p) : max (x - p) 0 = max x 0 - min p (max x 0) := by
  rcases le_total p x with hle | hle
  · rw [max_eq_left (show 0 ≤ x - p by omega), max_eq_left (show 0 ≤ x by omega), min_eq_left hle]
  · rw [max_eq_right (show x - p ≤ 0 by omega), min_eq_right (max_le hle (le_of_lt hp)), Int.sub_self]

/-- A transaction after the close that pays onto the card lowers what is owed by what it pays, and what is left to pay by
no more than that. -/
theorem summaryAt_paid (hledger : ledger.Perm (t :: transactions)) {p : Minor} (hp : 0 < p)
    (hsigned : signedFor card.id t = p) (hopen : closedOn < t.date) (hupto : t.date ≤ asOf) :
    summaryAt card ledger asOf closedOn dueOn =
      { summaryAt card transactions asOf closedOn dueOn with
        paidSince := (summaryAt card transactions asOf closedOn dueOn).paidSince + p
        remaining := (summaryAt card transactions asOf closedOn dueOn).remaining -
          min p (summaryAt card transactions asOf closedOn dueOn).remaining
        currentBalance := (summaryAt card transactions asOf closedOn dueOn).currentBalance - p } := by
  have hsum : ∀ f : Transaction → Minor, (ledger.map f).sum = f t + (transactions.map f).sum := by
    intro f
    rw [(hledger.map f).sum_eq, List.map_cons, List.sum_cons]
  have hbefore : effectUpTo card.id closedOn t = 0 := if_pos hopen
  have hnow : effectUpTo card.id asOf t = p := (if_neg (not_lt.mpr hupto)).trans hsigned
  have hpaid : paidBy card.id closedOn asOf t = p := by
    unfold paidBy
    rw [if_neg (fun hout => hout.elim (not_le.mpr hopen) (not_lt.mpr hupto)), hsigned, max_eq_left (le_of_lt hp)]
  unfold summaryAt
  simp only [owed_eq, balanceAsOf_eq, paidBetween_eq, hsum, hbefore, hnow, hpaid]
  refine StatementSummary.ext rfl rfl ?_ ?_ ?_ ?_
  · show -(_ + (0 + _)) = -(_ + _)
    rw [Int.zero_add]
  · exact Int.add_comm _ _
  · show max (-(_ + (0 + _)) - (p + _)) 0 = max (-(_ + _) - _) 0 - min p (max (-(_ + _) - _) 0)
    rw [← max_sub_eq _ _ hp, Int.zero_add]
    congr 1
    ring
  · show -(_ + (p + _)) = -(_ + _) - p
    ring

/-! ## The dates of a cycle -/

/-- The dates of a cycle can be told, and the close is not after the day. -/
theorem cycle_dates (D E : ℕ) (hq : 1 ≤ q.month) (hq' : q.month + 1 < 120000) : ∃ closedOn dueOn,
    lastStatementDate D q.text = .ok closedOn ∧ dueDateFor E closedOn = .ok dueOn ∧ closedOn ≤ q.text := by
  have hlt : q.month < 120000 := Nat.lt_of_succ_lt hq'
  rw [CalendarDate.text_eq hlt]
  have hclose := lastStatementDate_iso (D := D) hq hlt q.day_lt
  by_cases h : iso q.month (dayIn D q.month) ≤ iso q.month q.day
  · rw [if_pos h] at hclose
    exact ⟨_, _, hclose, dueDateFor_iso hq' (dayIn_lt D q.month), h⟩
  · rw [if_neg h] at hclose
    have hback : q.month - 1 < 120000 := by omega
    refine ⟨_, _, hclose, dueDateFor_iso (by omega) (dayIn_lt D (q.month - 1)), le_of_lt ?_⟩
    exact (iso_lt_iff hback hlt (dayIn_lt D _) q.day_lt).mpr (Or.inl (by omega))

theorem summariseStatement_eq {D E : ℕ} (hD : account.statementDay = some D) (hE : account.dueDay = some E)
    (hclose : lastStatementDate D asOf = .ok closedOn) (hdue : dueDateFor E closedOn = .ok dueOn) :
    summariseStatement account transactions asOf = .ok (some (summaryAt account transactions asOf closedOn dueOn)) := by
  unfold summariseStatement
  rw [hD, hE]
  show (do let closedOn ← lastStatementDate D asOf; _) = _
  rw [hclose]
  show (do let dueOn ← dueDateFor E closedOn; _) = _
  rw [hdue]
  rfl

/-- Every account is summarised, or has no terms. -/
theorem summariseStatement_ok (transactions : List Transaction) (hq : 1 ≤ q.month) (hq' : q.month + 1 < 120000)
    (account : CardAccount) : ∃ summary, summariseStatement account transactions q.text = .ok summary := by
  cases hD : account.statementDay with
  | none =>
    refine ⟨none, ?_⟩
    unfold summariseStatement
    rw [hD]
    rfl
  | some D =>
    cases hE : account.dueDay with
    | none =>
      refine ⟨none, ?_⟩
      unfold summariseStatement
      rw [hD, hE]
      rfl
    | some E =>
      obtain ⟨closedOn, dueOn, hclose, hdue, -⟩ := cycle_dates D E hq hq'
      exact ⟨_, summariseStatement_eq hD hE hclose hdue⟩

/-! ## The list of bills -/

open CardBillsService in
/-- The bills are those of the cards that have terms. -/
theorem bills_ok (T : Text) (accounts : List CardAccount) (groups : List AccountGroup) (transactions : List Transaction)
    (hq : 1 ≤ q.month) (hq' : q.month + 1 < 120000) : ∃ found, bills T accounts groups transactions q.text = .ok found ∧
      ∀ bill : CardBill, bill ∈ found ↔ bill.card ∈ accounts ∧ bill.card.archived = false ∧
        isCreditCard groups bill.card = true ∧
        summariseStatement bill.card transactions q.text = .ok (some bill.summary) := by
  choose summary hsummary using summariseStatement_ok transactions hq hq'
  have hbill : ∀ card, billOf transactions q.text card = .ok ((summary card).map (fun s => ⟨card, s⟩)) := by
    intro card
    unfold billOf
    rw [hsummary]
    rfl
  refine ⟨sortBills T (((accounts.filter (fun account => !account.archived && isCreditCard groups account)).map
    (fun card => (summary card).map (fun s => ⟨card, s⟩))).filterMap id), ?_, fun bill => ?_⟩
  · show (do
      let found ← (accounts.filter (fun account : CardAccount => !account.archived && isCreditCard groups account)).mapM
        (billOf transactions q.text)
      _) = _
    rw [mapM_ok (fun card _ => hbill card)]
    rfl
  · unfold sortBills
    rw [List.mem_insertionSort, List.mem_filterMap]
    simp only [List.mem_map, List.mem_filter, Bool.and_eq_true, Bool.not_eq_true', hsummary, Except.ok.injEq]
    constructor
    · rintro ⟨found, ⟨card, ⟨hcard, harchived, hcredit⟩, rfl⟩, hfound⟩
      obtain ⟨s, hs, rfl⟩ := Option.map_eq_some_iff.mp hfound
      exact ⟨hcard, harchived, hcredit, hs⟩
    · rintro ⟨hcard, harchived, hcredit, hs⟩
      exact ⟨_, ⟨bill.card, ⟨hcard, harchived, hcredit⟩, rfl⟩, by rw [hs]; rfl⟩

/-- The figures of a card with a cycle.  What is owed now is the statement less what was paid since, plus what was spent
since; what is left of the statement is not below zero; the figures are the same from the transactions of the card alone
and in the list of bills; a payment is recorded exactly if it can be made; and one after the close lowers what is owed by
what is paid, what is left by no more, and the statement not at all. -/
theorem statement_accounting (card : CardAccount) (transactions : List Transaction) {D E : ℕ}
    (hD : card.statementDay = some D) (hE : card.dueDay = some E) (hq : 1 ≤ q.month) (hq' : q.month + 1 < 120000) :
    ∃ s : StatementSummary, summariseStatement card transactions q.text = .ok (some s) ∧
      s.currentBalance = s.statementBalance - s.paidSince + (transactions.map (spentOn card.id s.closedOn q.text)).sum ∧
      s.remaining = max (s.statementBalance - s.paidSince) 0 ∧
      PayBillService.summarise transactions card q.text = .ok (some s) ∧
      (∀ (T : Text) (accounts : List CardAccount) (groups : List AccountGroup), ∃ found,
        CardBillsService.bills T accounts groups transactions q.text = .ok found ∧
          (∀ bill ∈ found, bill.card = card → bill.summary = s) ∧
          (card ∈ accounts → card.archived = false → CardBillsService.isCreditCard groups card = true → ⟨card, s⟩ ∈ found)) ∧
      ∀ (T : Text) (request : PayBillService.PayBillRequest) (id today : JsString), request.card = card →
        (∀ payment, PayBillService.pay T request id today = .ok payment ↔
          request.Payable T today ∧ payment = request.payment id today) ∧
        ∀ (payment : PayBillService.Payment) (ledger : List Transaction),
          PayBillService.pay T request id today = .ok payment → s.closedOn < payment.date → payment.date ≤ q.text →
          ledger.Perm (payment.toTransaction :: transactions) →
          ∃ s' : StatementSummary, summariseStatement card ledger q.text = .ok (some s') ∧
            s'.closedOn = s.closedOn ∧ s'.statementBalance = s.statementBalance ∧
            s'.currentBalance = s.currentBalance - request.amount ∧
            s'.remaining = s.remaining - min request.amount s.remaining := by
  obtain ⟨closedOn, dueOn, hclose, hdue, hle⟩ := cycle_dates D E hq hq'
  have hsummary : ∀ ledger, summariseStatement card ledger q.text = .ok (some (summaryAt card ledger q.text closedOn dueOn)) :=
    fun ledger => summariseStatement_eq hD hE hclose hdue
  refine ⟨summaryAt card transactions q.text closedOn dueOn, hsummary transactions, currentBalance_eq hle, rfl,
    (summarise_eq transactions card q.text).trans (hsummary transactions), fun T accounts groups => ?_,
    fun T request id today hcard => ⟨fun payment => pay_eq_ok, fun payment ledger hpay hopen hupto hledger => ?_⟩⟩
  · obtain ⟨found, hfound, hmem⟩ := bills_ok T accounts groups transactions hq hq'
    refine ⟨found, hfound, fun bill hbill hcard => ?_, fun haccounts harchived hcredit => ?_⟩
    · obtain ⟨-, -, -, hs⟩ := (hmem bill).mp hbill
      rw [hcard, hsummary] at hs
      exact (Option.some.inj (Except.ok.inj hs)).symm
    · exact (hmem _).mpr ⟨haccounts, harchived, hcredit, hsummary transactions⟩
  · obtain ⟨hpayable, rfl⟩ := pay_eq_ok.mp hpay
    have hsigned := @signedFor_pay T request id today hpayable
    rw [hcard] at hsigned
    have hafter : closedOn < (request.payment id today).date := hopen
    refine ⟨_, hsummary ledger, ?_⟩
    rw [summaryAt_paid hledger hpayable.amount hsigned hafter hupto]
    exact ⟨rfl, rfl, rfl, rfl⟩

/-- A card without a name that closes on the 25th and is due on the 15th. -/
def sampleCard : CardAccount where
  id := js "card"
  currency := js "EUR"
  openingBalance := 0
  archived := false
  groupId := none
  excludedFromTotals := none
  name := []
  statementDay := some 25
  dueDay := some 15

/-- A card bought 120.00 on before its close, with 20.00 of it refunded and 45.00 spent since. -/
def sampleLedger : List Transaction :=
  [⟨js "a", .expense, 12000, js "EUR", js "card", none, none, js "2024-01-10", none⟩,
   ⟨js "b", .income, 2000, js "EUR", js "card", none, none, js "2024-01-26", none⟩,
   ⟨js "c", .expense, 4500, js "EUR", js "card", none, none, js "2024-01-28", none⟩,
   ⟨js "d", .expense, 700, js "EUR", js "giro", none, none, js "2024-01-28", none⟩]

/-- 75.00 are paid on the 30th. -/
def sampleRequest : PayBillService.PayBillRequest where
  card := sampleCard
  source := { sampleCard with id := js "giro" }
  amount := 7500
  date := some (js "2024-01-30")
  note := none

theorem statement_accounting_sample : ∃ (s : StatementSummary) (payment : PayBillService.Payment) (s' : StatementSummary),
    summariseStatement sampleCard sampleLedger (CalendarDate.clamped 24288 31).text = .ok (some s) ∧
      s.statementBalance = 12000 ∧ s.paidSince = 2000 ∧ s.remaining = 10000 ∧ s.currentBalance = 14500 ∧
      PayBillService.pay ascii sampleRequest (js "e") (js "2024-01-31") = .ok payment ∧
      summariseStatement sampleCard (sampleLedger ++ [payment.toTransaction]) (CalendarDate.clamped 24288 31).text =
        .ok (some s') ∧ s'.statementBalance = 12000 ∧ s'.remaining = 2500 ∧ s'.currentBalance = 7000 := by
  obtain ⟨s, hs, -, -, -, -, hpay⟩ := @statement_accounting (CalendarDate.clamped 24288 31) sampleCard sampleLedger 25 15
    rfl rfl (by decide) (by decide)
  have hsummary : summariseStatement sampleCard sampleLedger (CalendarDate.clamped 24288 31).text =
      .ok (some ⟨js "2024-01-25", js "2024-02-15", 12000, 2000, 10000, 14500⟩) := by decide +kernel
  cases hs.symm.trans hsummary
  obtain ⟨hiff, hpaid⟩ := hpay ascii sampleRequest (js "e") (js "2024-01-31") rfl
  have hok := (hiff _).mpr ⟨⟨by decide, by decide, by decide, by decide, by decide, by decide⟩, rfl⟩
  obtain ⟨s', hs', -, hstatement, hcurrent, hremaining⟩ := hpaid _ (sampleLedger ++ [_]) hok (by decide) (by decide)
    List.perm_append_comm
  exact ⟨_, _, s', hs, rfl, rfl, rfl, rfl, hok, hs', hstatement, hremaining, hcurrent⟩

end Cards

end EasyDocket
