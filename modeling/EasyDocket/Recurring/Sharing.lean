import EasyDocket.Recurring.Materialiser
import EasyDocket.Sync.Converging

/-!
# The materialiser on the devices of a vault

Runs of the materialiser and calls of `skip`, any number of them on any device, while the devices sync and their users edit.
What they put and remove are local edits of the system of `EasyDocket.Sync.World`, so that all that holds there holds here.
-/

namespace EasyDocket

namespace Recurring

open Prog (request)

/-! ## Errands -/

/-- What is called on a device; `slot` tells calls apart. -/
inductive Errand (D : Type)
  | materialise (d : D) (asOf : JsString) (limit slot : ℕ)
  | skip (d : D) (ruleId date : JsString) (slot : ℕ)
  deriving DecidableEq

def Errand.device {D : Type} : Errand D → D
  | .materialise d _ _ _ => d
  | .skip d _ _ _ => d

/-- What an errand asks. -/
inductive Demand
  | ask (q : Ask)
  | rule (id : JsString)
  | hasTransaction (id : JsString)
  | remove (e : EntityName) (id : JsString)

@[reducible] def Demand.Reply : Demand → Type
  | .ask q => Recurring.Reply q
  | .rule _ => Option RecurringRule
  | .hasTransaction _ => Bool
  | .remove _ _ => Unit

abbrev ErrandProg := Prog Demand Demand.Reply RunError

/-- A rule with one more date to skip. -/
def RecurringRule.withSkipped (rule : RecurringRule) (date : JsString) : RecurringRule :=
  { rule with skipped := (rule.skipped ++ [date]).insertionSort (· ≤ ·) }

/-- `skip`: mark an occurrence as skipped, and remove it if it was already created. -/
def skip (ruleId date : JsString) : ErrandProg Unit := do
  match ← request (Demand.rule ruleId) with
  | none => pure ()
  | some rule =>
    if date ∈ rule.skipped then pure ()
    else do
      request (Demand.ask (.put .recurringRules ruleId (.rule (rule.withSkipped date))))
      if ← request (Demand.hasTransaction (occurrenceId ruleId date)) then
        request (Demand.remove .transactions (occurrenceId ruleId date))

/-- The program of an errand. -/
def Errand.prog {D : Type} : Errand D → ErrandProg Unit
  | .materialise _ asOf limit _ => ((run asOf limit).embed Demand.ask (fun _ r => r)).bind (fun _ => .pure ())
  | .skip _ ruleId date _ => Recurring.skip ruleId date

/-! ## The system -/

/-- A skip that has dealt with its transaction, and what had been authored by then. -/
structure Skipped where
  ruleId : JsString
  date : JsString
  authored : Set (Operation Entity)

/-- The devices with their sync cycles, and what the errands have done. -/
structure Book (D S : Type) where
  sync : State D Entity S
  /-- What the materialiser has put. -/
  made : List (Operation Entity)
  /-- The rules and dates for which a skip has put the rule. -/
  marked : List (JsString × JsString)
  settled : List Skipped

namespace Book

variable {D S : Type}

def ledger (b : Book D S) (d : D) : Ledger Entity := (b.sync.store.device d).ledger

/-- Every operation that was authored on a device. -/
def authored (b : Book D S) : Set (Operation Entity) := b.sync.store.ghost.authored

/-- Every operation the user has authored, by skipping also. -/
def byUser (b : Book D S) : Set (Operation Entity) := {u | u ∈ b.authored ∧ u ∉ b.made}

/-- The row of a rule. -/
def ruleAt (b : Book D S) (d : D) (id : JsString) : Option RecurringRule :=
  match (b.ledger d).rowAt (.recurringRules, id) with
  | some ⟨_, _, .rule rule⟩ => some rule
  | _ => none

/-- What an errand put is written down. -/
def noted (b : Book D S) (op : Operation Entity) : Errand D → Book D S
  | .materialise _ _ _ _ => { b with made := b.made ++ [op] }
  | .skip _ ruleId date _ => { b with marked := b.marked ++ [(ruleId, date)] }

/-- A skip is done with its transaction. -/
def done (b : Book D S) : Errand D → Book D S
  | .materialise _ _ _ _ => b
  | .skip _ ruleId date _ => { b with settled := ⟨ruleId, date, b.authored⟩ :: b.settled }

@[simp] theorem noted_sync (b : Book D S) (op : Operation Entity) (j : Errand D) : (b.noted op j).sync = b.sync := by
  cases j <;> rfl

@[simp] theorem done_sync (b : Book D S) (j : Errand D) : (b.done j).sync = b.sync := by
  cases j <;> rfl

variable [DecidableEq D]

/-- A local edit of a device. -/
def edited (b : Book D S) (d : D) (L : Ledger Entity) (op : Operation Entity) : Book D S :=
  { b with sync := ⟨b.sync.store.afterEdit d L op, b.sync.running⟩ }

end Book

section System

variable {D S : Type} [DecidableEq D] (V : Vault D) (site : Site D Entity S)

/-- How a request of an errand is served. -/
inductive Serving (j : Errand D) : (q : Demand) → Book D S → Except RunError q.Reply → Book D S → Prop
  | rules (b : Book D S) : Serving j (.ask .rules) b (.ok (activeRules (b.ledger j.device))) b
  | latest (b : Book D S) (e : EntityName) (start : JsString) :
      Serving j (.ask (.latest e start)) b (.ok (latestEntityIdWithPrefix (b.ledger j.device) e start)) b
  | hasHistory (b : Book D S) (e : EntityName) (id : JsString) :
      Serving j (.ask (.hasHistory e id)) b (.ok (Recurring.hasHistory (b.ledger j.device) e id)) b
  | now (b : Book D S) (n : ℕ) : Serving j (.ask .now) b (.ok n) b
  | put (b : Book D S) (e : EntityName) (id : JsString) (body : Entity) (wall : ℕ) (L : Ledger Entity) (op : Operation Entity)
      (h : (b.ledger j.device).put (V.deviceId j.device) wall e id body = .ok (L, op)) :
      Serving j (.ask (.put e id body)) b (.ok ()) ((b.edited j.device L op).noted op j)
  | putRefused (b : Book D S) (e : EntityName) (id : JsString) (body : Entity) (wall : ℕ) (x : ClockError)
      (h : (b.ledger j.device).put (V.deviceId j.device) wall e id body = .error x) :
      Serving j (.ask (.put e id body)) b (.error (.clock x)) b
  | rule (b : Book D S) (id : JsString) : Serving j (.rule id) b (.ok (b.ruleAt j.device id)) b
  | found (b : Book D S) (id : JsString) (h : (b.ledger j.device).rowAt (.transactions, id) ≠ none) :
      Serving j (.hasTransaction id) b (.ok true) b
  | missing (b : Book D S) (id : JsString) (h : (b.ledger j.device).rowAt (.transactions, id) = none) :
      Serving j (.hasTransaction id) b (.ok false) (b.done j)
  | remove (b : Book D S) (e : EntityName) (id : JsString) (wall : ℕ) (L : Ledger Entity) (op : Operation Entity)
      (h : (b.ledger j.device).remove (V.deviceId j.device) wall e id = .ok (L, op)) :
      Serving j (.remove e id) b (.ok ()) ((b.edited j.device L op).done j)
  | removeRefused (b : Book D S) (e : EntityName) (id : JsString) (wall : ℕ) (x : ClockError)
      (h : (b.ledger j.device).remove (V.deviceId j.device) wall e id = .error x) :
      Serving j (.remove e id) b (.error (.clock x)) b

/-- Errands on the devices of a vault, among all that the devices do anyway. -/
def sharing : Threads (Errand D) Demand Demand.Reply RunError Unit (Book D S) where
  body := Errand.prog
  enter _ b := b
  step := Serving V
  leave _ _ b := b
  env b b' := ∃ sync, (world V site).Step b.sync sync ∧ b' = { b with sync }
  crash _ b := b

/-- Nothing has happened yet. -/
def opened (dest : S) : Conf (Errand D) Demand Demand.Reply RunError Unit (Book D S) :=
  ⟨⟨start dest, [], [], []⟩, fun _ => none⟩

/-- A step of the devices that merges nothing the clock is not past. -/
def ObservedStep (b b' : Book D S) : Prop := ((world V site).restrict ObservedFirst (fun _ _ => True)).Step b.sync b'.sync

end System

/-! ## Runs of errands are runs of the devices -/

section Writes

variable {β : Type} {L L' : Ledger β} {device id : JsString} {wall : ℕ} {e : EntityName} {body : β} {op : Operation β}

theorem op_of_put (h : L.put device wall e id body = .ok (L', op)) :
    op.op = .put ∧ op.target = (e, id) ∧ op.row = some ⟨id, op.hlc, body⟩ := by
  unfold Ledger.put at h
  cases ht : L.clock.tick wall with
  | error x =>
    rw [ht] at h
    cases h
  | ok c =>
    rw [ht] at h
    cases h
    exact ⟨rfl, rfl, rfl⟩

theorem op_of_remove (h : L.remove device wall e id = .ok (L', op)) : op.op = .delete ∧ op.target = (e, id) := by
  unfold Ledger.remove at h
  cases ht : L.clock.tick wall with
  | error x =>
    rw [ht] at h
    cases h
  | ok c =>
    rw [ht] at h
    cases h
    exact ⟨rfl, rfl⟩

end Writes

section Runs

variable {D S : Type} [DecidableEq D] {V : Vault D} {site : Site D Entity S} {b b' : Book D S} {j : Errand D}

/-- What an errand does to the devices: nothing, or an edit of its own. -/
theorem Serving.sync {q : Demand} {r : Except RunError q.Reply} (h : Serving V j q b r b') :
    b'.sync = b.sync ∨ ∃ L op, Ledger.Edited (V.deviceId j.device) (b.ledger j.device) L op ∧
      Edit V b.sync.store (b.edited j.device L op).sync.store ∧ b'.sync = (b.edited j.device L op).sync := by
  cases h with
  | put _ e id body wall L op h =>
    exact Or.inr ⟨L, op, Ledger.put_edited h, Edit.put b.sync.store j.device wall e id body L op h, Book.noted_sync _ op j⟩
  | remove _ e id wall L op h =>
    exact Or.inr ⟨L, op, Ledger.remove_edited h, Edit.remove b.sync.store j.device wall e id L op h, Book.done_sync _ j⟩
  | missing _ id h => exact Or.inl (Book.done_sync b j)
  | _ => exact Or.inl rfl

theorem Serving.reach_sync {q : Demand} {r : Except RunError q.Reply} (h : Serving V j q b r b') :
    ((world V site).restrict ObservedFirst (fun _ _ => True)).Reach b.sync b'.sync := by
  rcases h.sync with h | ⟨L, op, -, hedit, h⟩
  · rw [h]
    exact Relation.ReflTransGen.refl
  · rw [h]
    exact Relation.ReflTransGen.single (Threads.Step.env b.sync _ ⟨hedit, trivial⟩)

theorem reach_sync {okStep : Errand D → Demand → Book D S → Book D S → Prop} {okEnv : Book D S → Book D S → Prop} {dest : S}
    (henv : ∀ b b', okEnv b b' → ObservedStep V site b b')
    {c : Conf (Errand D) Demand Demand.Reply RunError Unit (Book D S)}
    (h : ((sharing V site).restrict okStep okEnv).Reach (opened dest) c) :
    ((world V site).restrict ObservedFirst (fun _ _ => True)).Reach (start dest) c.store.sync := by
  induction h with
  | refl => exact Relation.ReflTransGen.refl
  | tail _ hstep ih =>
    cases hstep with
    | enter d h => exact ih
    | ask d q k r s h hs => exact ih.trans hs.1.reach_sync
    | done d a h => exact ih
    | failed d e h => exact ih
    | env s h => exact ih.tail (henv _ _ h.2)
    | crash d => exact ih

end Runs

/-! ## Scripted errands -/

/-- A handler with a clock that stands still. -/
def serveErrand {D S : Type} [DecidableEq D] (V : Vault D) (wall : ℕ) (j : Errand D) :
    (q : Demand) → Book D S → Except RunError q.Reply × Book D S
  | .ask .rules, b => (.ok (activeRules (b.ledger j.device)), b)
  | .ask (.latest e start), b => (.ok (latestEntityIdWithPrefix (b.ledger j.device) e start), b)
  | .ask (.hasHistory e id), b => (.ok (hasHistory (b.ledger j.device) e id), b)
  | .ask .now, b => (.ok wall, b)
  | .ask (.put e id body), b =>
    match (b.ledger j.device).put (V.deviceId j.device) wall e id body with
    | .ok (L, op) => (.ok (), (b.edited j.device L op).noted op j)
    | .error x => (.error (.clock x), b)
  | .rule id, b => (.ok (b.ruleAt j.device id), b)
  | .hasTransaction id, b =>
    if (b.ledger j.device).rowAt (.transactions, id) = none then (.ok false, b.done j) else (.ok true, b)
  | .remove e id, b =>
    match (b.ledger j.device).remove (V.deviceId j.device) wall e id with
    | .ok (L, op) => (.ok (), (b.edited j.device L op).done j)
    | .error x => (.error (.clock x), b)

section Scripts

variable {D S : Type} [DecidableEq D] {V : Vault D} {site : Site D Entity S}

theorem serving_serveErrand (wall : ℕ) (j : Errand D) (q : Demand) (b : Book D S) :
    Serving V j q b (serveErrand V wall j q b).1 (serveErrand V wall j q b).2 := by
  cases q with
  | ask q =>
    cases q with
    | rules => exact Serving.rules b
    | latest e start => exact Serving.latest b e start
    | hasHistory e id => exact Serving.hasHistory b e id
    | now => exact Serving.now b wall
    | put e id body =>
      simp only [serveErrand]
      split
      · rename_i L op h
        exact Serving.put b e id body wall L op h
      · rename_i x h
        exact Serving.putRefused b e id body wall x h
  | rule id => exact Serving.rule b id
  | hasTransaction id =>
    simp only [serveErrand]
    split_ifs with h
    · exact Serving.missing b id h
    · exact Serving.found b id h
  | remove e id =>
    simp only [serveErrand]
    split
    · rename_i L op h
      exact Serving.remove b e id wall L op h
    · rename_i x h
      exact Serving.removeRefused b e id wall x h

/-- Syncs, between errands. -/
theorem reach_exchange {okStep : Errand D → Demand → Book D S → Book D S → Prop} {okEnv : Book D S → Book D S → Prop}
    (henv : ∀ b b', ObservedStep V site b b' → b'.authored = b.authored → b'.made = b.made → okEnv b b')
    (c : Conf (Errand D) Demand Demand.Reply RunError Unit (Book D S)) {s : State D Entity S}
    (h : ((world V site).restrict ObservedFirst (fun _ _ => False)).Reach c.store.sync s) :
    ((sharing V site).restrict okStep okEnv).Reach c ⟨{ c.store with sync := s }, c.running⟩ := by
  induction h with
  | refl => exact Relation.ReflTransGen.refl
  | tail hreach hstep ih =>
    refine ih.tail (Threads.Step.env _ _ ⟨⟨_, hstep.of_restrict, rfl⟩, ?_⟩)
    refine henv _ _ (hstep.weaken (fun _ _ _ _ hs => hs) (fun _ _ hf => hf.elim)) ?_ rfl
    exact authored_of_reach (Relation.ReflTransGen.single hstep)

end Scripts

end Recurring

end EasyDocket
