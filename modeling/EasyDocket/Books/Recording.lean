import EasyDocket.Books.Quotes
import EasyDocket.Lib.Table

/-!
# Recording in several currencies

The reporting currency, the quotes, the budgets and the transactions of a ledger, with the editor through which a rate gets
onto a transaction.  A stored rate does not say what it was quoted for; `pairs` and `Rated.pair` remember it.
-/

namespace EasyDocket

namespace Books

/-- A budget, with what is checked of it. -/
structure BudgetRow extends Budget where
  id : JsString
  name : JsString
  amount : Minor
  startDate : JsString

/-- A rate in the editor, with what it was quoted for. -/
structure Rated where
  rate : ℚ
  pair : Pair

/-- The fields of the editor that a rate depends on. -/
structure Editor where
  /-- The transaction that is edited, or null for a new one. -/
  existing : Option JsString
  accountId : Option JsString
  date : JsString
  /-- Null when the field is blank. -/
  rate : Option Rated

/-- The other fields of the editor, as they are when it saves. -/
structure EditorFields where
  /-- The id of a new transaction. -/
  id : JsString
  kind : TransactionKind
  amount : Minor
  counterAccountId : Option JsString
  categoryId : Option JsString

/-- A row of a file that is ready to be imported, and where it goes. -/
structure PlannedRow where
  id : JsString
  kind : TransactionKind
  amount : Minor
  date : JsString
  categoryId : Option JsString
  accountId : JsString
  currency : JsString

structure App where
  settings : Option JsString
  rates : Table ExchangeRate.id
  accounts : Table Account.id
  budgets : Table BudgetRow.id
  transactions : Table Transaction.id
  editor : Editor
  /-- What the rate of a stored transaction was quoted for; the code does not store it. -/
  pairs : JsString → Option Pair

/-- A ledger in which nothing is recorded. -/
def App.fresh : App := ⟨none, .empty, .empty, .empty, .empty, ⟨none, none, [], none⟩, fun _ => none⟩

/-- What can be done. -/
inductive Action
  | setReportingCurrency (currency : JsString)
  | saveRate (draft : RateDraft)
  | removeRate (id : JsString)
  | saveAccount (account : Account)
  | removeAccount (id : JsString)
  | saveBudget (draft : BudgetRow)
  | removeBudget (id : JsString)
  /-- The editor opens on a transaction, or on a new one with the first account listed. -/
  | openEditor (existing : Option JsString) (first : Option JsString) (today : JsString)
  | setAccount (accountId : JsString)
  | setDate (date : JsString)
  /-- The field of the rate is typed into; null when it is left blank. -/
  | setRate (rate : Option ℚ)
  | saveEditor (fields : EditorFields)
  /-- A draft without a rate, such as the payment of a bill. -/
  | saveUnrated (draft : Transaction)
  | removeTransaction (id : JsString)
  | importRow (row : PlannedRow)

section Definitions

variable (T : Text)

/-- The currency totals are expressed in. -/
def App.reporting (s : App) : JsString := s.settings.getD (js "USD")

/-- `all`: the quotes that are held, newest first. -/
def App.quotes (s : App) : List ExchangeRate := (s.rates.rows.insertionSort (fun a b => a.date ≤ b.date)).reverse

/-- `rateToReporting`, in the ledger. -/
def App.rateToReporting (s : App) (base date : JsString) : Option ℚ :=
  Books.rateToReporting T s.quotes s.reporting base date

/-- `assertValid` of budgets, with the message of the error. -/
def BudgetRow.assertValid (budget : BudgetRow) : Except String Unit :=
  if JsNumber.trim budget.name = [] then .error "A budget needs a name"
  else if budget.amount ≤ 0 then .error "The budget amount must be greater than zero"
  else if budget.categoryIds = [] then .error "Choose at least one category"
  else if datePattern.isMatch budget.startDate = false then .error "Start date must be YYYY-MM-DD"
  else .ok ()

/-- The budget that `save` makes of a draft: duplicates would double-count the same spending against one budget. -/
def BudgetRow.save (draft : BudgetRow) : Except String BudgetRow :=
  let budget := { draft with categoryIds := distinct draft.categoryIds }
  budget.assertValid.map (fun _ => budget)

/-! ## The editor -/

/-- `currency`: the account's currency, which is what the amount is expressed in. -/
def App.currency (s : App) : JsString :=
  ((s.accounts.get? (s.editor.accountId.getD [])).map Account.currency).getD s.reporting

/-- `needsRate`: a rate is only wanted when the account is in another currency. -/
def App.needsRate (s : App) : Bool := !sameCurrency T s.currency s.reporting

/-- What a rate in the editor is quoted for. -/
def App.pair (s : App) : Pair := ⟨s.currency, s.reporting⟩

/-- `suggestRate`: offer the last rate recorded for this currency and date, if the field is blank. -/
def App.suggestRate (s : App) : App :=
  if !s.needsRate T || s.editor.rate.isSome then s
  else
    match s.rateToReporting T s.currency s.editor.date with
    | none => s
    | some rate => { s with editor := { s.editor with rate := some ⟨rate, s.pair⟩ } }

/-- `load`. -/
def App.load (s : App) (existing first : Option JsString) (today : JsString) : App :=
  let editor : Editor :=
    match existing.bind s.transactions.get? with
    | some t => ⟨some t.id, some t.accountId, t.date,
        t.rate.map (fun rate => ⟨rate, (s.pairs t.id).getD ⟨t.currency, s.reporting⟩⟩)⟩
    | none => ⟨none, first, today, none⟩
  { s with editor := editor }.suggestRate T

/-- The rate that the editor stores: only when it means something. -/
def App.storedRate (s : App) : Option Rated :=
  if s.needsRate T then s.editor.rate.filter (fun r => 0 < r.rate) else none

/-- The transaction that the editor stores, with what its rate was quoted for. -/
def App.edited (s : App) (fields : EditorFields) : Option (Transaction × Option Pair) :=
  (s.accounts.get? (s.editor.accountId.getD [])).bind (fun account =>
    (save {
      id := s.editor.existing.getD fields.id
      kind := fields.kind
      amount := fields.amount
      currency := account.currency
      accountId := account.id
      counterAccountId := if fields.kind = .transfer then fields.counterAccountId else none
      categoryId := if fields.kind = .transfer then none else fields.categoryId
      date := s.editor.date
      rate := (s.storedRate T).map Rated.rate }).toOption.map (fun t => (t, (s.storedRate T).map Rated.pair)))

/-! ## Imports -/

/-- `toTransaction` of the import, with what its rate was quoted for. -/
def App.imported (s : App) (row : PlannedRow) : Transaction × Option Pair :=
  ({  id := row.id
      kind := row.kind
      amount := row.amount
      currency := row.currency
      accountId := row.accountId
      counterAccountId := none
      categoryId := row.categoryId
      date := row.date
      rate := if sameCurrency T row.currency s.reporting then none else s.rateToReporting T row.currency row.date },
    some ⟨row.currency, s.reporting⟩)

/-! ## Runs -/

/-- Store a transaction. -/
def App.record (s : App) (t : Transaction × Option Pair) : App :=
  { s with transactions := s.transactions.put t.1, pairs := Function.update s.pairs t.1.id t.2 }

/-- What an action leaves; one that fails leaves everything as it was. -/
def App.step (s : App) : Action → App
  | .setReportingCurrency currency =>
    let code := T.toUpperCase (JsNumber.trim currency)
    match assertCurrency code with
    | .error _ => s
    | .ok () => { s with settings := some code }
  | .saveRate draft =>
    match draft.save T with
    | .error _ => s
    | .ok rate => { s with rates := s.rates.put rate }
  | .removeRate id => { s with rates := s.rates.delete id }
  | .saveAccount account => { s with accounts := s.accounts.put account }
  | .removeAccount id => { s with accounts := s.accounts.delete id }
  | .saveBudget draft =>
    match draft.save with
    | .error _ => s
    | .ok budget => { s with budgets := s.budgets.put budget }
  | .removeBudget id => { s with budgets := s.budgets.delete id }
  | .openEditor existing first today => s.load T existing first today
  | .setAccount accountId => { s with editor := { s.editor with accountId := some accountId } }.suggestRate T
  | .setDate date => { s with editor := { s.editor with date := date } }.suggestRate T
  | .setRate rate => { s with editor := { s.editor with rate := rate.map (fun rate => ⟨rate, s.pair⟩) } }
  | .saveEditor fields => ((s.edited T fields).map s.record).getD s
  | .saveUnrated draft => ((save { draft with rate := none }).toOption.map (fun t => s.record (t, none))).getD s
  | .removeTransaction id => { s with transactions := s.transactions.delete id }
  | .importRow row => s.record (s.imported T row)

/-- The ledger after a run. -/
def App.run (actions : List Action) : App := actions.foldl (App.step T) App.fresh

end Definitions

end Books

end EasyDocket
