import EasyDocket.Books.Domain
import EasyDocket.JsNumber
import EasyDocket.LedgerFacts
import EasyDocket.Lib.Prog
import EasyDocket.Recurring.Schedule

/-!
# The materialiser

`MaterialiserService.run` turns rules into transactions.  It asks the ledger one thing at a time, and between two requests
the user may edit and delete.  Where a rule resumes is read off the operation log, by the greatest id with the rule's
prefix.
-/

namespace EasyDocket

namespace Recurring

open Books

open Prog (request Ends)

/-! ## Identities -/

def colon : CodeUnit := unit ':'

/-- What the ids of a rule's transactions begin with. -/
def starting (ruleId : JsString) : JsString := ruleId ++ [colon]

/-- `occurrenceId`: the identity a materialised transaction carries. -/
def occurrenceId (ruleId date : JsString) : JsString := starting ruleId ++ date

/-- `parseOccurrenceId`, `/^(.+):(\d{4}-\d{2}-\d{2})$/`: the rule and the date, which are the last ten characters. -/
def parseOccurrenceId (id : JsString) : Option (JsString × JsString) :=
  let front := id.take (id.length - 10)
  let date := id.drop (id.length - 10)
  if datePattern.isMatch date ∧ front.getLast? = some colon ∧ front.dropLast ≠ [] ∧
      front.dropLast.all (fun c => !isLineTerminator c) then some (front.dropLast, date)
  else none

example : parseOccurrenceId (occurrenceId (js "a1-b2") (js "2024-02-29")) = some (js "a1-b2", js "2024-02-29") := by
  decide +kernel

/-! ## The ledger -/

/-- A rule without its id: a schedule, and the transaction it creates, minus its date. -/
structure RecurringRule extends Schedule where
  name : JsString
  kind : TransactionKind
  amount : Minor
  currency : JsString
  accountId : JsString
  counterAccountId : Option JsString
  categoryId : Option JsString
  payee : JsString
  note : JsString
  tags : List JsString
  archived : Bool

/-- A transaction without its id. -/
structure TransactionBody where
  kind : TransactionKind
  amount : Minor
  currency : JsString
  accountId : JsString
  counterAccountId : Option JsString
  categoryId : Option JsString
  date : JsString
  payee : JsString
  note : JsString
  tags : List JsString
  cleared : Bool
  createdAt : ℕ

/-- What rows are of: rules, transactions, and all else. -/
inductive Entity
  | rule (r : RecurringRule)
  | transaction (t : TransactionBody)
  | other (value : JsString)

/-- `toTransaction`: the transaction an occurrence stands for. -/
def toTransaction (rule : RecurringRule) (date : JsString) (now : ℕ) : TransactionBody where
  kind := rule.kind
  amount := rule.amount
  currency := rule.currency
  accountId := rule.accountId
  counterAccountId := rule.counterAccountId
  categoryId := rule.categoryId
  date := date
  -- A rule without a payee lends its name.
  payee := if JsNumber.trim rule.payee = [] then rule.name else JsNumber.trim rule.payee
  note := rule.note
  tags := rule.tags
  cleared := false
  createdAt := now

/-- The rules that are not archived, by their ids. -/
def activeRules (L : Ledger Entity) : List (JsString × RecurringRule) :=
  (L.tables .recurringRules).rows.filterMap (fun row =>
    match row.body with
    | .rule r => if r.archived then none else some (row.id, r)
    | _ => none)

/-- The greater of the ids seen so far and the next one. -/
def higher (latest : Option JsString) (id : JsString) : Option JsString :=
  match latest with
  | none => some id
  | some l => if l < id then some id else some l

/-- `latestEntityIdWithPrefix`: the highest entity id between a prefix and the prefix with `\uffff`, deletions included. -/
def latestEntityIdWithPrefix (L : Ledger Entity) (e : EntityName) (start : JsString) : Option JsString :=
  ((L.oplog.rows.filter (fun op => op.entity = e ∧ start ≤ op.entityId ∧ op.entityId ≤ start ++ [65535])).map
    (fun op => op.entityId)).foldl higher none

/-- `hasHistory`: whether an entity has ever existed, deletions included. -/
def hasHistory (L : Ledger Entity) (e : EntityName) (id : JsString) : Bool := (L.latestStampFor e id).isSome

/-! ## The run -/

inductive Ask
  | rules
  | latest (e : EntityName) (start : JsString)
  | hasHistory (e : EntityName) (id : JsString)
  | now
  | put (e : EntityName) (id : JsString) (body : Entity)

@[reducible] def Reply : Ask → Type
  | .rules => List (JsString × RecurringRule)
  | .latest _ _ => Option JsString
  | .hasHistory _ _ => Bool
  | .now => ℕ
  | .put _ _ _ => Unit

inductive RunError
  | date (e : DateError)
  | clock (e : ClockError)

structure MaterialisationResult where
  created : ℕ
  /-- Rules that hit the per-run cap and have more to catch up on next time. -/
  incomplete : List JsString

abbrev RunProg := Prog Ask Reply RunError

/-- What `occurrencesUpTo` throws is thrown on. -/
def ofDates {α : Type} : Except DateError α → RunProg α
  | .ok a => .pure a
  | .error e => .throw (.date e)

/-- The body of the loop over the dates that are due. -/
def createOne (ruleId : JsString) (rule : RecurringRule) (result : MaterialisationResult) (date : JsString) :
    RunProg MaterialisationResult := do
  if ← request (.hasHistory .transactions (occurrenceId ruleId date)) then pure result
  else do
    let now ← request .now
    request (Ask.put .transactions (occurrenceId ruleId date) (.transaction (toTransaction rule date now)))
    pure { result with created := result.created + 1 }

/-- The date that a rule resumes after; an empty id is as none. -/
def resumeAfter (furthest : Option JsString) : Option JsString :=
  match furthest with
  | some id => if id = [] then none else (parseOccurrenceId id).map Prod.snd
  | none => none

/-- The body of the loop over the rules. -/
def materialise (asOf : JsString) (limit : ℕ) (result : MaterialisationResult) (rule : JsString × RecurringRule) :
    RunProg MaterialisationResult := do
  let furthest ← request (.latest .transactions (starting rule.1))
  let due ← ofDates (occurrencesUpTo rule.2.toSchedule asOf limit (resumeAfter furthest))
  let result := if due.length = limit then { result with incomplete := result.incomplete ++ [rule.1] } else result
  due.foldlM (createOne rule.1 rule.2) result

/-- `run`. -/
def run (asOf : JsString) (limit : ℕ) : RunProg MaterialisationResult := do
  let rules ← request .rules
  List.foldlM (materialise asOf limit) ⟨0, []⟩ rules

/-! ## One device -/

/-- The ledger of a device, and the ids that the materialiser has put, in order. -/
structure World where
  ledger : Ledger Entity
  made : List JsString

/-- How a request is served; a clock that has no stamp left refuses a `put`. -/
inductive Serves (device : JsString) : (q : Ask) → World → Except RunError (Reply q) → World → Prop
  | rules (w : World) : Serves device .rules w (.ok (activeRules w.ledger)) w
  | latest (w : World) (e : EntityName) (start : JsString) :
      Serves device (.latest e start) w (.ok (latestEntityIdWithPrefix w.ledger e start)) w
  | hasHistory (w : World) (e : EntityName) (id : JsString) :
      Serves device (.hasHistory e id) w (.ok (Recurring.hasHistory w.ledger e id)) w
  | now (w : World) (n : ℕ) : Serves device .now w (.ok n) w
  | put (w : World) (e : EntityName) (id : JsString) (body : Entity) (wall : ℕ) (L : Ledger Entity) (op : Operation Entity)
      (h : w.ledger.put device wall e id body = .ok (L, op)) :
      Serves device (.put e id body) w (.ok ()) ⟨L, w.made ++ [id]⟩
  | refused (w : World) (e : EntityName) (id : JsString) (body : Entity) (wall : ℕ) (x : ClockError)
      (h : w.ledger.put device wall e id body = .error x) : Serves device (.put e id body) w (.error (.clock x)) w

/-- The log has an operation on a transaction. -/
def Known (L : Ledger Entity) (id : JsString) : Prop := ∃ o ∈ L.oplog, o.target = (.transactions, id)

/-- The user may write what is no rule, and of transactions those that there were, and those that are of no rule. -/
def MayWrite (L : Ledger Entity) (e : EntityName) (id : JsString) : Prop :=
  e ≠ .recurringRules ∧ (e = .transactions → Known L id ∨ ∀ rule ∈ activeRules L, ¬ starting rule.1 <+: id)

/-- What the user does: edit, delete, and open the app again. -/
inductive UserStep (device : JsString) : World → World → Prop
  | put (w : World) (e : EntityName) (id : JsString) (body : Entity) (wall : ℕ) (L : Ledger Entity) (op : Operation Entity)
      (hmay : MayWrite w.ledger e id) (h : w.ledger.put device wall e id body = .ok (L, op)) :
      UserStep device w { w with ledger := L }
  | remove (w : World) (e : EntityName) (id : JsString) (wall : ℕ) (L : Ledger Entity) (op : Operation Entity)
      (hmay : MayWrite w.ledger e id) (h : w.ledger.remove device wall e id = .ok (L, op)) :
      UserStep device w { w with ledger := L }
  | reopen (w : World) : UserStep device w { w with ledger := w.ledger.initialise }

/-- So many runs to their end, with steps of the user between them and between their requests. -/
inductive Session (device asOf : JsString) (limit : ℕ) : ℕ → World → World → Prop
  | nil (w : World) : Session device asOf limit 0 w w
  | user {k : ℕ} {w w' w'' : World} (h : Session device asOf limit k w w') (hu : UserStep device w' w'') :
      Session device asOf limit k w w''
  | run {k : ℕ} {w w' w'' : World} {result : MaterialisationResult} (h : Session device asOf limit k w w')
      (hr : Ends (Serves device) (UserStep device) (run asOf limit) w' (.ok result) w'') : Session device asOf limit (k + 1) w w''

end Recurring

end EasyDocket
