import EasyDocket.Books.Conversion

/-!
# Domain model

The records of the ledger that totals are made of, with the fields that totals read.
-/

namespace EasyDocket

namespace Books

inductive TransactionKind
  | income
  | expense
  | transfer
  deriving DecidableEq

structure Transaction where
  id : JsString
  kind : TransactionKind
  /-- Always positive; direction is carried by `kind`. -/
  amount : Minor
  currency : JsString
  /-- Source account for expense/transfer, destination for income. -/
  accountId : JsString
  counterAccountId : Option JsString
  categoryId : Option JsString
  date : JsString
  rate : Option ℚ

structure Account where
  id : JsString
  currency : JsString
  openingBalance : Minor
  archived : Bool
  groupId : Option JsString
  excludedFromTotals : Option Bool

/-- `countsInTotals`. -/
def countsInTotals (account : Account) : Bool := account.excludedFromTotals ≠ some true

inductive AccountGroupType
  | default
  | creditCard
  | debitCard
  | loan
  deriving DecidableEq

structure AccountGroup where
  id : JsString
  type : AccountGroupType

inductive CategoryKind
  | income
  | expense
  deriving DecidableEq

structure Category where
  id : JsString
  name : JsString
  kind : CategoryKind
  parentId : Option JsString

/-- What a budget counts, and in which currency. -/
structure Budget where
  categoryIds : List JsString
  currency : JsString

/-- A string that is there and not empty. -/
def truthy (s : Option JsString) : Option JsString := s.filter (fun x => x ≠ [])

/-- What a transaction is worth in a currency. -/
def Transaction.inReporting (T : Text) (t : Transaction) (reporting : JsString) : Except RateError (Option Minor) :=
  Books.inReporting T t.amount t.currency t.rate reporting

def Transaction.worth (T : Text) (t : Transaction) (reporting : JsString) : Option Minor :=
  Books.worth T t.amount t.currency t.rate reporting

end Books

end EasyDocket
