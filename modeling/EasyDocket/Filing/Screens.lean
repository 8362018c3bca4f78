import EasyDocket.LedgerFacts
import EasyDocket.Lib.Prog
import EasyDocket.Books.Domain
import Mathlib.Data.List.Perm.Basic

/-!
# Accounts, groups and categories

The services behind the pages that file accounts in groups and categories under one another.  They read what live queries
show, which may lag behind the tables, and write one row after the other, so that they may be cut off between two writes.
-/

namespace EasyDocket

namespace Filing

open Prog (request)
open Books

/-! ## Rows -/

structure AccountBody where
  name : JsString
  currency : JsString
  openingBalance : Minor
  archived : Bool
  groupId : Option JsString
  excludedFromTotals : Option Bool
  createdAt : ℕ
  deriving DecidableEq

structure GroupBody where
  name : JsString
  type : AccountGroupType
  order : ℤ
  archived : Bool
  createdAt : ℕ
  deriving DecidableEq

structure CategoryBody where
  name : JsString
  kind : CategoryKind
  parentId : Option JsString
  archived : Bool
  createdAt : ℕ
  deriving DecidableEq

/-- What rows are of: accounts, groups, categories, and all else. -/
inductive Entity
  | account (body : AccountBody)
  | accountGroup (body : GroupBody)
  | category (body : CategoryBody)
  | other
  deriving DecidableEq

def Entity.account? : Entity → Option AccountBody
  | .account body => some body
  | _ => none

def Entity.group? : Entity → Option GroupBody
  | .accountGroup body => some body
  | _ => none

def Entity.category? : Entity → Option CategoryBody
  | .category body => some body
  | _ => none

/-- The rows of a kind, with their ids. -/
def rowsOf {α : Type} (kind : Entity → Option α) (rows : List (Row Entity)) : List (JsString × α) :=
  rows.filterMap (fun row => (kind row.body).map (fun body => (row.id, body)))

/-! ## Requests -/

inductive Ask
  /-- The groups, accounts and categories that live queries show. -/
  | groups
  | accounts
  | categories
  | getGroup (id : JsString)
  | getAccount (id : JsString)
  | count (e : EntityName)
  | reportingCurrency
  | randomUUID
  | now
  | put (e : EntityName) (id : JsString) (body : Entity)
  | remove (e : EntityName) (id : JsString)

@[reducible] def Reply : Ask → Type
  | .groups => List (JsString × GroupBody)
  | .accounts => List (JsString × AccountBody)
  | .categories => List (JsString × CategoryBody)
  | .getGroup _ => Option GroupBody
  | .getAccount _ => Option AccountBody
  | .count _ => ℕ
  | .reportingCurrency => JsString
  | .randomUUID => JsString
  | .now => ℕ
  | .put _ _ _ => Unit
  | .remove _ _ => Unit

abbrev FilingProg := Prog Ask Reply ClockError

/-! ## Accounts -/

structure AccountDraft where
  id : JsString
  name : JsString
  currency : JsString
  openingBalance : Minor
  archived : Bool
  groupId : Option JsString
  excludedFromTotals : Option Bool
  createdAt : Option ℕ

namespace AccountsService

/-- `save`. -/
def save (draft : AccountDraft) : FilingProg Unit := do
  let now ← request .now
  request (Ask.put .accounts draft.id (.account ⟨draft.name, draft.currency, draft.openingBalance, draft.archived,
    draft.groupId, draft.excludedFromTotals, draft.createdAt.getD now⟩))

/-- Change an account, if it is there. -/
def change (id : JsString) (f : AccountBody → AccountBody) : FilingProg Unit := do
  match ← request (Ask.getAccount id) with
  | none => pure ()
  | some account => request (Ask.put .accounts id (.account (f account)))

/-- `setCountedInTotals`. -/
def setCountedInTotals (id : JsString) (counted : Bool) : FilingProg Unit :=
  change id (fun account => { account with excludedFromTotals := some !counted })

/-- `setArchived`. -/
def setArchived (id : JsString) (archived : Bool) : FilingProg Unit := change id (fun account => { account with archived })

/-- `remove`. -/
def remove (id : JsString) : FilingProg Unit := request (Ask.remove .accounts id)

end AccountsService

/-! ## Groups -/

structure StarterGroup where
  name : JsString
  type : AccountGroupType
  accounts : List JsString

def STARTER_GROUPS : List StarterGroup :=
  [⟨js "Everyday", .default, [js "Cash", js "Current account"]⟩, ⟨js "Savings", .default, [js "Savings"]⟩,
    ⟨js "Credit cards", .creditCard, [js "Credit card"]⟩, ⟨js "Debit cards", .debitCard, [js "Debit card"]⟩,
    ⟨js "Loans", .loan, [js "Loan"]⟩]

structure GroupDraft where
  id : JsString
  name : JsString
  type : AccountGroupType
  order : Option ℤ
  archived : Option Bool
  createdAt : Option ℕ

/-- `compareGroups`. -/
def compareGroups (T : Text) (a b : JsString × GroupBody) : ℤ :=
  if a.2.order - b.2.order ≠ 0 then a.2.order - b.2.order
  else if T.localeCompare a.2.name b.2.name ≠ 0 then T.localeCompare a.2.name b.2.name
  else T.localeCompare a.1 b.1

/-- `ordered`: every group, in display order. -/
def ordered (T : Text) (groups : List (JsString × GroupBody)) : List (JsString × GroupBody) :=
  groups.insertionSort (fun a b => compareGroups T a b ≤ 0)

namespace AccountGroupsService

/-- `byId`. -/
def byId (groups : List (JsString × GroupBody)) (id : JsString) : Option GroupBody :=
  if id = [] then none else (groups.find? (fun group => group.1 = id)).map Prod.snd

/-- `accountsIn`. -/
def accountsIn (accounts : List (JsString × AccountBody)) (groupId : JsString) : List (JsString × AccountBody) :=
  accounts.filter (fun account => account.2.groupId = some groupId)

/-- `nextOrder`: one past the last group. -/
def nextOrder (groups : List (JsString × GroupBody)) : ℤ :=
  match groups.map (fun group => group.2.order) with
  | [] => 0
  | order :: orders => orders.foldl max order + 1

/-- `save`. -/
def save (draft : GroupDraft) : FilingProg Unit := do
  let groups ← request .groups
  let now ← request .now
  request (Ask.put .accountGroups draft.id (.accountGroup ⟨draft.name, draft.type, draft.order.getD (nextOrder groups),
    draft.archived.getD false, draft.createdAt.getD now⟩))

/-- `setArchived`. -/
def setArchived (id : JsString) (archived : Bool) : FilingProg Unit := do
  match ← request (Ask.getGroup id) with
  | none => pure ()
  | some group => request (Ask.put .accountGroups id (.accountGroup { group with archived }))

/-- `remove`: delete a group and leave its accounts ungrouped. -/
def remove (id : JsString) : FilingProg Unit := do
  let accounts ← request .accounts
  List.foldlM (fun _ account => request (Ask.put .accounts account.1 (.account { account.2 with groupId := none }))) ()
    (accountsIn accounts id)
  request (Ask.remove .accountGroups id)

/-- A starter account of `seedIfEmpty`. -/
def seedAccount (currency groupId name : JsString) : FilingProg Unit := do
  let id ← request .randomUUID
  AccountsService.save ⟨id, name, currency, 0, false, some groupId, none, none⟩

/-- The body of the loop of `seedIfEmpty`. -/
def seedGroup (currency : JsString) (starter : StarterGroup) (order : ℕ) : FilingProg Unit := do
  let id ← request .randomUUID
  save ⟨id, starter.name, starter.type, some order, none, none⟩
  List.foldlM (fun _ name => seedAccount currency id name) () starter.accounts

/-- `seedIfEmpty`. -/
def seedIfEmpty : FilingProg Unit := do
  let groups ← request (Ask.count .accountGroups)
  let accounts ← request (Ask.count .accounts)
  if 0 < groups ∨ 0 < accounts then pure ()
  else do
    let currency ← request .reportingCurrency
    List.foldlM (fun _ starter => seedGroup currency starter.1 starter.2) () STARTER_GROUPS.zipIdx

/-- `moveAccount`: file an account into a group, or out of every group. -/
def moveAccount (accountId : JsString) (groupId : Option JsString) : FilingProg Unit := do
  match ← request (Ask.getAccount accountId) with
  | none => pure ()
  | some account =>
    if account.groupId = groupId then pure ()
    else request (Ask.put .accounts accountId (.account { account with groupId }))

/-- The body of the loop of `reorder`. -/
def place (id : JsString) (index : ℕ) : FilingProg Unit := do
  let groups ← request .groups
  match byId groups id with
  | none => pure ()
  | some group =>
    if group.order = index then pure ()
    else request (Ask.put .accountGroups id (.accountGroup { group with order := index }))

/-- `reorder`: rewrite the display order. -/
def reorder (ids : List JsString) : FilingProg Unit :=
  List.foldlM (fun _ id => place id.1 id.2) () ids.zipIdx

end AccountGroupsService

/-! ## Categories -/

def STARTER_CATEGORIES : List (JsString × CategoryKind) :=
  [(js "Salary", .income), (js "Other income", .income), (js "Groceries", .expense), (js "Eating out", .expense),
    (js "Transport", .expense), (js "Housing", .expense), (js "Utilities", .expense), (js "Health", .expense),
    (js "Entertainment", .expense), (js "Other", .expense)]

structure CategoryDraft where
  id : JsString
  name : JsString
  kind : CategoryKind
  parentId : Option JsString
  archived : Option Bool
  createdAt : Option ℕ

/-- `descendantIds`. -/
def descendantIds (categoryId : JsString) (categories : List (JsString × CategoryBody)) : List JsString :=
  (categories.filter (fun category => category.2.parentId = some categoryId)).map Prod.fst

namespace CategoriesService

/-- `save`. -/
def save (draft : CategoryDraft) : FilingProg Unit := do
  let now ← request .now
  request (Ask.put .categories draft.id (.category ⟨draft.name, draft.kind, draft.parentId, draft.archived.getD false,
    draft.createdAt.getD now⟩))

/-- `remove`: delete a category with its subcategories. -/
def remove (id : JsString) : FilingProg Unit := do
  let categories ← request .categories
  List.foldlM (fun _ childId => request (Ask.remove .categories childId)) () (descendantIds id categories)
  request (Ask.remove .categories id)

/-- The body of the loop of `seedIfEmpty`. -/
def seedCategory (starter : JsString × CategoryKind) : FilingProg Unit := do
  let id ← request .randomUUID
  save ⟨id, starter.1, starter.2, none, none, none⟩

/-- `seedIfEmpty`. -/
def seedIfEmpty : FilingProg Unit := do
  let categories ← request (Ask.count .categories)
  if 0 < categories then pure ()
  else List.foldlM (fun _ starter => seedCategory starter) () STARTER_CATEGORIES

end CategoriesService

/-! ## What pages ask for -/

inductive Command
  | saveAccount (draft : AccountDraft)
  | countAccount (id : JsString) (counted : Bool)
  | archiveAccount (id : JsString) (archived : Bool)
  | removeAccount (id : JsString)
  | moveAccount (id : JsString) (groupId : Option JsString)
  | saveGroup (draft : GroupDraft)
  | archiveGroup (id : JsString) (archived : Bool)
  | reorderGroups (ids : List JsString)
  | removeGroup (id : JsString)
  | seedGroups
  | saveCategory (draft : CategoryDraft)
  | removeCategory (id : JsString)
  | seedCategories

def Command.prog : Command → FilingProg Unit
  | .saveAccount draft => AccountsService.save draft
  | .countAccount id counted => AccountsService.setCountedInTotals id counted
  | .archiveAccount id archived => AccountsService.setArchived id archived
  | .removeAccount id => AccountsService.remove id
  | .moveAccount id groupId => AccountGroupsService.moveAccount id groupId
  | .saveGroup draft => AccountGroupsService.save draft
  | .archiveGroup id archived => AccountGroupsService.setArchived id archived
  | .reorderGroups ids => AccountGroupsService.reorder ids
  | .removeGroup id => AccountGroupsService.remove id
  | .seedGroups => AccountGroupsService.seedIfEmpty
  | .saveCategory draft => CategoriesService.save draft
  | .removeCategory id => CategoriesService.remove id
  | .seedCategories => CategoriesService.seedIfEmpty

/-! ## One device -/

/-- The tables, and what live queries show of them. -/
structure Desk where
  ledger : Ledger Entity
  shown : EntityName → List (Row Entity)

namespace Desk

/-- The rows of a table. -/
def stored (s : Desk) (e : EntityName) : List (Row Entity) := (s.ledger.tables e).rows

/-- Live queries show what is stored. -/
def UpToDate (s : Desk) : Prop := ∀ e, s.shown e = s.stored e

/-- Nobody writes; some live queries catch up. -/
def Lags (s s' : Desk) : Prop := s'.ledger = s.ledger ∧ ∀ e, s'.shown e = s.shown e ∨ s'.shown e = s.stored e

theorem Lags.refl (s : Desk) : s.Lags s := ⟨rfl, fun _ => Or.inl rfl⟩

theorem Lags.trans {s s' s'' : Desk} (h : s.Lags s') (h' : s'.Lags s'') : s.Lags s'' := by
  refine ⟨h'.1.trans h.1, fun e => ?_⟩
  rcases h'.2 e with he | he
  · rw [he]
    exact h.2 e
  · right
    rw [he, stored, h.1, stored]

theorem UpToDate.lags {s s' : Desk} (h : s.UpToDate) (hs : s.Lags s') : s'.UpToDate := by
  intro e
  have hstored : s'.stored e = s.stored e := by rw [stored, hs.1, stored]
  rcases hs.2 e with he | he
  · rw [he, h e, hstored]
  · rw [he, hstored]

/-- A table as a new device has it. -/
def empty : Desk := ⟨Ledger.empty, fun _ => []⟩

end Desk

/-- No row has the id. -/
def Fresh (ledger : Ledger Entity) (id : JsString) : Prop := ∀ e, ledger.rowAt (e, id) = none

/-- How a request is served: live queries give accounts and categories by their names, ids that are drawn are new, and a
clock that has no stamp left refuses a write. -/
inductive Serves (device : JsString) : (q : Ask) → Desk → Except ClockError (Reply q) → Desk → Prop
  | groups (s : Desk) : Serves device .groups s (.ok (rowsOf Entity.group? (s.shown .accountGroups))) s
  | accounts (s : Desk) (accounts : List (JsString × AccountBody))
    (h : accounts.Perm (rowsOf Entity.account? (s.shown .accounts))) : Serves device .accounts s (.ok accounts) s
  | categories (s : Desk) (categories : List (JsString × CategoryBody))
    (h : categories.Perm (rowsOf Entity.category? (s.shown .categories))) : Serves device .categories s (.ok categories) s
  | getGroup (s : Desk) (id : JsString) :
    Serves device (.getGroup id) s (.ok ((s.ledger.rowAt (.accountGroups, id)).bind (fun row => row.body.group?))) s
  | getAccount (s : Desk) (id : JsString) :
    Serves device (.getAccount id) s (.ok ((s.ledger.rowAt (.accounts, id)).bind (fun row => row.body.account?))) s
  | count (s : Desk) (e : EntityName) : Serves device (.count e) s (.ok (s.stored e).length) s
  | reportingCurrency (s : Desk) (currency : JsString) : Serves device .reportingCurrency s (.ok currency) s
  | randomUUID (s : Desk) (id : JsString) (h : Fresh s.ledger id) : Serves device .randomUUID s (.ok id) s
  | now (s : Desk) (n : ℕ) : Serves device .now s (.ok n) s
  | put (s : Desk) (e : EntityName) (id : JsString) (body : Entity) (wall : ℕ) (L : Ledger Entity) (op : Operation Entity)
    (h : s.ledger.put device wall e id body = .ok (L, op)) : Serves device (.put e id body) s (.ok ()) { s with ledger := L }
  | remove (s : Desk) (e : EntityName) (id : JsString) (wall : ℕ) (L : Ledger Entity) (op : Operation Entity)
    (h : s.ledger.remove device wall e id = .ok (L, op)) : Serves device (.remove e id) s (.ok ()) { s with ledger := L }
  | putRefused (s : Desk) (e : EntityName) (id : JsString) (body : Entity) (wall : ℕ) (x : ClockError)
    (h : s.ledger.put device wall e id body = .error x) : Serves device (.put e id body) s (.error x) s
  | removeRefused (s : Desk) (e : EntityName) (id : JsString) (wall : ℕ) (x : ClockError)
    (h : s.ledger.remove device wall e id = .error x) : Serves device (.remove e id) s (.error x) s

/-! ### Scripts -/

/-- Serve a request with a clock that stands still; no ids are drawn. -/
def serveAt (device : JsString) (wall : ℕ) : (q : Ask) → Desk → Except ClockError (Reply q) × Desk
  | .groups, s => (.ok (rowsOf Entity.group? (s.shown .accountGroups)), s)
  | .accounts, s => (.ok (rowsOf Entity.account? (s.shown .accounts)), s)
  | .categories, s => (.ok (rowsOf Entity.category? (s.shown .categories)), s)
  | .getGroup id, s => (.ok ((s.ledger.rowAt (.accountGroups, id)).bind (fun row => row.body.group?)), s)
  | .getAccount id, s => (.ok ((s.ledger.rowAt (.accounts, id)).bind (fun row => row.body.account?)), s)
  | .count e, s => (.ok (s.stored e).length, s)
  | .reportingCurrency, s => (.ok (js "USD"), s)
  | .randomUUID, s => (.ok [], s)
  | .now, s => (.ok wall, s)
  | .put e id body, s =>
    match s.ledger.put device wall e id body with
    | .ok (L, _) => (.ok (), { s with ledger := L })
    | .error x => (.error x, s)
  | .remove e id, s =>
    match s.ledger.remove device wall e id with
    | .ok (L, _) => (.ok (), { s with ledger := L })
    | .error x => (.error x, s)

/-- The request draws no id. -/
def drawsNone : Ask → Desk → Desk → Bool
  | .randomUUID, _, _ => false
  | _, _, _ => true

theorem serves_serveAt {device : JsString} {wall : ℕ} (q : Ask) (s : Desk)
    (h : drawsNone q s (serveAt device wall q s).2 = true) :
    Serves device q s (serveAt device wall q s).1 (serveAt device wall q s).2 := by
  cases q with
  | groups => exact Serves.groups s
  | accounts => exact Serves.accounts s _ (List.Perm.refl _)
  | categories => exact Serves.categories s _ (List.Perm.refl _)
  | getGroup id => exact Serves.getGroup s id
  | getAccount id => exact Serves.getAccount s id
  | count e => exact Serves.count s e
  | reportingCurrency => exact Serves.reportingCurrency s _
  | randomUUID => cases h
  | now => exact Serves.now s wall
  | put e id body =>
    cases hput : s.ledger.put device wall e id body with
    | ok p =>
      simp only [serveAt, hput]
      exact Serves.put s e id body wall p.1 p.2 hput
    | error x =>
      simp only [serveAt, hput]
      exact Serves.putRefused s e id body wall x hput
  | remove e id =>
    cases hremove : s.ledger.remove device wall e id with
    | ok p =>
      simp only [serveAt, hremove]
      exact Serves.remove s e id wall p.1 p.2 hremove
    | error x =>
      simp only [serveAt, hremove]
      exact Serves.removeRefused s e id wall x hremove

/-- The desk after the first requests of a command, once live queries have caught up. -/
def Desk.play (device : JsString) (wall : ℕ) (s : Desk) (c : Command) (n : ℕ) : Desk :=
  let s' := (Prog.runFor (serveAt device wall) n c.prog s).2
  { s' with shown := fun e => s'.stored e }

end Filing

end EasyDocket
