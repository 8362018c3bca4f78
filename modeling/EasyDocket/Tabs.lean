import EasyDocket.LedgerFacts

/-!
# Several tabs on one database

Instances of the ledger with one device id, each with a clock of its own, over one database.  A write is stamped from
the clock in memory first, and reaches the database in a transaction later; in between, any other instance may run.
-/

namespace EasyDocket

variable {I β : Type} [DecidableEq I]

/-! ## A write in two steps -/

/-- The operation of `put`, once the clock has ticked to `c`. -/
def putOperation (device : JsString) (c : Clock) (e : EntityName) (id : JsString) (body : β) : Operation β :=
  ⟨c.stamp device, e, id, .put, some ⟨id, c.stamp device, body⟩, device⟩

/-- The operation of `remove`, once the clock has ticked to `c`. -/
def removeOperation (device : JsString) (c : Clock) (e : EntityName) (id : JsString) : Operation β :=
  ⟨c.stamp device, e, id, .delete, none, device⟩

/-- The transaction of a write: the row, the log and the clock. -/
def Ledger.write (L : Ledger β) (op : Operation β) : Ledger β :=
  let L' := match op.value with
    | some r => L.putRow op.entity r
    | none => L.deleteRow op.entity op.entityId
  (L'.log ⟨op, false⟩).persistClock

/-- An operation as `put` and `remove` form it. -/
def Operation.Formed (op : Operation β) : Prop :=
  (op.op = .put ∧ ∃ r, op.value = some r ∧ r.id = op.entityId) ∨ (op.op = .delete ∧ op.value = none)

namespace Ledger

variable {L : Ledger β} {op : Operation β} {device : JsString} {wall : ℕ} {e : EntityName} {id : JsString} {body : β}

theorem put_eq_write : L.put device wall e id body =
    (L.clock.tick wall).map (fun c => (({ L with clock := c }).write (putOperation device c e id body),
      putOperation device c e id body)) := by
  unfold put
  cases L.clock.tick wall <;> rfl

theorem remove_eq_write : L.remove device wall e id =
    (L.clock.tick wall).map (fun c => (({ L with clock := c }).write (removeOperation device c e id),
      removeOperation device c e id)) := by
  unfold remove
  cases L.clock.tick wall <;> rfl

theorem write_oplog : (L.write op).oplog = L.oplog.put ⟨op, false⟩ := by
  unfold write
  cases op.value <;> rfl

theorem rowAt_write (h : op.Formed) (t : EntityName × JsString) :
    (L.write op).rowAt t = if t = op.target then op.row else L.rowAt t := by
  unfold write
  rcases h with ⟨hk, r, hv, hid⟩ | ⟨hk, hv⟩
  · rw [hv]
    show (L.putRow op.entity r).rowAt t = _
    rw [rowAt_putRow, hid, Operation.row_put hk, hv]
    rfl
  · rw [hv]
    show (L.deleteRow op.entity op.entityId).rowAt t = _
    rw [rowAt_deleteRow, Operation.row_delete hk]
    rfl

end Ledger

/-! ## The system -/

/-- What the tabs share. -/
structure Database (β : Type) where
  tables : EntityName → Table (Row.id (β := β))
  oplog : Table (fun op : LocalOperation β => op.hlc)
  clockState : Option Clock

/-- The database as an instance with the given clock sees it. -/
def Database.under (db : Database β) (clock : Clock) : Ledger β := ⟨db.tables, db.oplog, db.clockState, clock⟩

def Ledger.database (L : Ledger β) : Database β := ⟨L.tables, L.oplog, L.clockState⟩

/-- Instances of the ledger over one database. -/
structure Tabs (I β : Type) where
  db : Database β
  /-- The clock of an instance, once it is initialised. -/
  clock : I → Option Clock
  /-- What an instance has stamped and not written yet. -/
  pending : I → List (Operation β)
  /-- Every operation ever written, the last one first. -/
  written : List (Operation β)

namespace Tabs

/-- `initialise` of a new instance, in the place of the one that was there. -/
def initialise (s : Tabs I β) (i : I) : Tabs I β :=
  { s with
    clock := Function.update s.clock i (some (s.db.clockState.getD Clock.zero))
    pending := Function.update s.pending i [] }

/-- An instance has stamped an operation. -/
def stamped (s : Tabs I β) (i : I) (c : Clock) (op : Operation β) : Tabs I β :=
  { s with
    clock := Function.update s.clock i (some c)
    pending := Function.update s.pending i (s.pending i ++ [op]) }

/-- The transaction of a pending write; it stores the clock of its instance as it is by then. -/
def commit (s : Tabs I β) (i : I) (c : Clock) (op : Operation β) (rest : List (Operation β)) : Tabs I β :=
  { s with
    db := ((s.db.under c).write op).database
    pending := Function.update s.pending i rest
    written := op :: s.written }

/-- One step; transactions are kept to a condition. -/
inductive Step (device : JsString) (ok : Operation β → Database β → Prop) : Tabs I β → Tabs I β → Prop
  | initialise (s : Tabs I β) (i : I) : Step device ok s (s.initialise i)
  | put (s : Tabs I β) (i : I) (c c' : Clock) (wall : ℕ) (e : EntityName) (id : JsString) (body : β)
      (hc : s.clock i = some c) (ht : c.tick wall = .ok c') :
      Step device ok s (s.stamped i c' (putOperation device c' e id body))
  | remove (s : Tabs I β) (i : I) (c c' : Clock) (wall : ℕ) (e : EntityName) (id : JsString)
      (hc : s.clock i = some c) (ht : c.tick wall = .ok c') :
      Step device ok s (s.stamped i c' (removeOperation device c' e id))
  | commit (s : Tabs I β) (i : I) (c : Clock) (op : Operation β) (before after : List (Operation β))
      (hc : s.clock i = some c) (hp : s.pending i = before ++ op :: after) (h : ok op s.db) :
      Step device ok s (s.commit i c op (before ++ after))

/-- No instance is there yet; the tables agree with the log. -/
structure Starts (s : Tabs I β) : Prop where
  clock : ∀ i, s.clock i = none
  pending : ∀ i, s.pending i = []
  written : s.written = s.db.oplog.rows.map LocalOperation.toOperation
  rows : ∀ t, (s.db.under Clock.zero).AgreesAt t

/-- Everything the instances can come to. -/
inductive Reaches (device : JsString) (ok : Operation β → Database β → Prop) : Tabs I β → Prop
  | start (s : Tabs I β) (h : s.Starts) : Reaches device ok s
  | step {s s' : Tabs I β} (hs : Reaches device ok s) (h : Step device ok s s') : Reaches device ok s'

/-! ## What is promised -/

/-- No write is lost: every operation written is in the log, no two have one stamp, and every row is the one that the
newest operation of its entity leaves. -/
structure Intact (s : Tabs I β) : Prop where
  logged : ∀ op ∈ s.written, ∃ o ∈ s.db.oplog, o.toOperation = op
  distinct : s.written.Pairwise (fun a b => a.hlc ≠ b.hlc)
  rows : ∀ t, (s.db.under Clock.zero).AgreesAt t

/-- The log has no operation under this stamp, and none of the same entity that is newer, unless it leaves the same
row. -/
def Clear (op : Operation β) (db : Database β) : Prop :=
  (∀ o ∈ db.oplog, o.hlc ≠ op.hlc) ∧
    ∀ o, (db.under Clock.zero).Newest o → o.target = op.target → op.hlc < o.hlc → o.row = op.row

/-! ## One transaction -/

/-- What holds whatever the instances do. -/
structure Traced (s : Tabs I β) : Prop where
  written : ∀ o ∈ s.db.oplog, o.toOperation ∈ s.written
  formed : ∀ i, ∀ op ∈ s.pending i, op.Formed

section Commit

variable {s s' : Tabs I β} {i : I} {c : Clock} {op : Operation β} {rest : List (Operation β)}

@[simp] theorem commit_oplog : (s.commit i c op rest).db.oplog = s.db.oplog.put ⟨op, false⟩ := Ledger.write_oplog

theorem mem_commit (s : Tabs I β) (i : I) (c : Clock) (op : Operation β) (rest : List (Operation β))
    {o : LocalOperation β} :
    o ∈ (s.commit i c op rest).db.oplog ↔ o = ⟨op, false⟩ ∨ (o ∈ s.db.oplog ∧ o.hlc ≠ op.hlc) := by
  rw [commit_oplog]
  exact Table.mem_put

theorem rowAt_commit (h : op.Formed) (t : EntityName × JsString) :
    ((s.commit i c op rest).db.under Clock.zero).rowAt t =
      if t = op.target then op.row else (s.db.under Clock.zero).rowAt t :=
  Ledger.rowAt_write h t

/-- A newest operation of the log stays newest if the write is older, or about another entity. -/
theorem newest_commit_of_old {o : LocalOperation β} (ho : (s.db.under Clock.zero).Newest o) (hne : o.hlc ≠ op.hlc)
    (h : op.target = o.target → op.hlc ≤ o.hlc) : ((s.commit i c op rest).db.under Clock.zero).Newest o := by
  refine ⟨(mem_commit s i c op rest).mpr (Or.inr ⟨ho.1, hne⟩), fun b hb hk => ?_⟩
  rcases (mem_commit s i c op rest).mp hb with rfl | ⟨hb, -⟩
  · exact h hk
  · exact ho.2 b hb hk

/-- A newest operation after the write is the write itself, or was newest before, of an entity the write is not
newer on. -/
theorem newest_of_commit (hfresh : ∀ o ∈ s.db.oplog, o.hlc ≠ op.hlc) {o : LocalOperation β}
    (ho : ((s.commit i c op rest).db.under Clock.zero).Newest o) :
    o = ⟨op, false⟩ ∨ ((s.db.under Clock.zero).Newest o ∧ (o.target = op.target → op.hlc < o.hlc)) := by
  rcases (mem_commit s i c op rest).mp ho.1 with rfl | ⟨hmem, hne⟩
  · exact Or.inl rfl
  · refine Or.inr ⟨⟨hmem, fun b hb hk => ho.2 b ((mem_commit s i c op rest).mpr (Or.inr ⟨hb, hfresh b hb⟩)) hk⟩, fun ht => ?_⟩
    have hle : op.hlc ≤ o.hlc := ho.2 ⟨op, false⟩ ((mem_commit s i c op rest).mpr (Or.inl rfl)) ht.symm
    exact lt_of_le_of_ne hle (Ne.symm hne)

theorem clear_of_intact (ht : Traced s) (hf : op.Formed) (h : Intact (s.commit i c op rest)) : Clear op s.db := by
  have hfresh : ∀ o ∈ s.db.oplog, o.hlc ≠ op.hlc := fun o ho =>
    ((List.pairwise_cons.mp h.distinct).1 _ (ht.written o ho)).symm
  refine ⟨hfresh, fun o ho hk hlt => ?_⟩
  have hnew : ((s.commit i c op rest).db.under Clock.zero).Newest o := newest_commit_of_old ho (hfresh o ho.1) (fun _ => hlt.le)
  have hrow := (h.rows o.target).1 o hnew rfl
  rw [rowAt_commit hf, if_pos hk] at hrow
  exact hrow.symm

theorem agreesAt_commit (hf : op.Formed) (hc : Clear op s.db) {t : EntityName × JsString}
    (h : (s.db.under Clock.zero).AgreesAt t) : ((s.commit i c op rest).db.under Clock.zero).AgreesAt t := by
  refine ⟨fun o ho hk => ?_, fun hnone => ?_⟩
  · rw [rowAt_commit hf]
    rcases newest_of_commit hc.1 ho with rfl | ⟨hold, hlt⟩
    · exact if_pos hk.symm
    · split_ifs with htarget
      · exact (hc.2 o hold (hk.trans htarget) (hlt (hk.trans htarget))).symm
      · exact h.1 o hold hk
  · have htarget : t ≠ op.target := fun he => hnone ⟨op, false⟩ ((mem_commit s i c op rest).mpr (Or.inl rfl)) he.symm
    rw [rowAt_commit hf, if_neg htarget]
    exact h.2 (fun o ho => hnone o ((mem_commit s i c op rest).mpr (Or.inr ⟨ho, hc.1 o ho⟩)))

theorem intact_of_clear (h : Intact s) (hf : op.Formed) (hc : Clear op s.db) : Intact (s.commit i c op rest) := by
  refine ⟨fun a ha => ?_, ?_, fun t => agreesAt_commit hf hc (h.rows t)⟩
  · rcases List.mem_cons.mp ha with rfl | ha
    · exact ⟨⟨a, false⟩, (mem_commit s i c a rest).mpr (Or.inl rfl), rfl⟩
    · obtain ⟨o, ho, rfl⟩ := h.logged a ha
      exact ⟨o, (mem_commit s i c op rest).mpr (Or.inr ⟨ho, hc.1 o ho⟩), rfl⟩
  · refine List.pairwise_cons.mpr ⟨fun a ha => ?_, h.distinct⟩
    obtain ⟨o, ho, rfl⟩ := h.logged a ha
    exact (hc.1 o ho).symm

/-- A transaction keeps things intact exactly when its write is clear of what the log holds. -/
theorem intact_commit (ht : Traced s) (h : Intact s) (hf : op.Formed) :
    Intact (s.commit i c op rest) ↔ Clear op s.db :=
  ⟨clear_of_intact ht hf, intact_of_clear h hf⟩

end Commit

/-! ## Runs -/

section Runs

variable {device : JsString} {ok : Operation β → Database β → Prop} {s s' : Tabs I β}

omit [DecidableEq I] in
theorem traced_of_starts (h : s.Starts) : Traced s := by
  refine ⟨fun o ho => ?_, fun i op hop => ?_⟩
  · rw [h.written]
    exact List.mem_map_of_mem ho
  · rw [h.pending i] at hop
    exact absurd hop List.not_mem_nil

omit [DecidableEq I] in
theorem intact_of_starts (h : s.Starts) : Intact s := by
  refine ⟨fun op hop => ?_, ?_, h.rows⟩
  · rw [h.written] at hop
    obtain ⟨o, ho, rfl⟩ := List.mem_map.mp hop
    exact ⟨o, ho, rfl⟩
  · rw [h.written, List.pairwise_map]
    exact s.db.oplog.sorted.imp (fun hlt => hlt.ne)

theorem formed_update {pending : I → List (Operation β)} {i : I} {l : List (Operation β)}
    (h : ∀ j, ∀ op ∈ pending j, op.Formed) (hl : ∀ op ∈ l, op.Formed) :
    ∀ j, ∀ op ∈ Function.update pending i l j, op.Formed := by
  intro j op hop
  by_cases hj : j = i
  · rw [hj, Function.update_self] at hop
    exact hl op hop
  · rw [Function.update_of_ne hj] at hop
    exact h j op hop

omit [DecidableEq I] in
theorem formed_stamped (ht : Traced s) {i : I} {op : Operation β} (h : op.Formed) :
    ∀ x ∈ s.pending i ++ [op], x.Formed := by
  intro x hx
  rcases List.mem_append.mp hx with hx | hx
  · exact ht.formed i x hx
  · rw [List.mem_singleton.mp hx]
    exact h

theorem Traced.step (ht : Traced s) (h : Step device ok s s') : Traced s' := by
  cases h with
  | initialise i => exact ⟨ht.written, formed_update ht.formed (fun op hop => absurd hop List.not_mem_nil)⟩
  | put i c c' wall e id body hc htick =>
    exact ⟨ht.written, formed_update ht.formed (formed_stamped ht (Or.inl ⟨rfl, _, rfl, rfl⟩))⟩
  | remove i c c' wall e id hc htick =>
    exact ⟨ht.written, formed_update ht.formed (formed_stamped ht (Or.inr ⟨rfl, rfl⟩))⟩
  | commit i c op before after hc hp hok =>
    have hpend := ht.formed i
    rw [hp] at hpend
    refine ⟨fun o ho => ?_, formed_update ht.formed (fun x hx => hpend x ?_)⟩
    · rcases (mem_commit s i c op (before ++ after)).mp ho with rfl | ⟨ho, -⟩
      · exact List.mem_cons_self
      · exact List.mem_cons_of_mem _ (ht.written o ho)
    · rcases List.mem_append.mp hx with hx | hx
      · exact List.mem_append_left _ hx
      · exact List.mem_append_right _ (List.mem_cons_of_mem _ hx)

theorem Intact.step (hi : Intact s) (ht : Traced s) (h : Step device Clear s s') : Intact s' := by
  cases h with
  | initialise i => exact ⟨hi.logged, hi.distinct, hi.rows⟩
  | put i c c' wall e id body hc htick => exact ⟨hi.logged, hi.distinct, hi.rows⟩
  | remove i c c' wall e id hc htick => exact ⟨hi.logged, hi.distinct, hi.rows⟩
  | commit i c op before after hc hp hok =>
    refine (intact_commit ht hi (ht.formed i op ?_)).mpr hok
    rw [hp]
    exact List.mem_append_right _ List.mem_cons_self

/-- As long as every transaction's write is clear of what the log holds by then, no write is lost. -/
theorem intact_of_clearCommits (h : Reaches device Clear s) : Intact s := by
  have hboth : Traced s ∧ Intact s := by
    induction h with
    | start s hs => exact ⟨traced_of_starts hs, intact_of_starts hs⟩
    | step _ hstep ih => exact ⟨ih.1.step hstep, ih.2.step ih.1 hstep⟩
  exact hboth.2

end Runs

/-! ## Two tabs -/

section Two

/-- The two tabs. -/
inductive Tab
  | left
  | right
  deriving DecidableEq

/-- An empty database. -/
def blank : Tabs Tab Unit := ⟨⟨fun _ => Table.empty, Table.empty, none⟩, fun _ => none, fun _ => [], []⟩

theorem blank_starts : blank.Starts := ⟨fun _ => rfl, fun _ => rfl, rfl, fun t => Ledger.agreesAt_empty t⟩

/-- The left tab's account, and the right tab's. -/
def leftWrite : Operation Unit := putOperation (js "d") ⟨10, 0⟩ .accounts (js "x") ()

def rightWrite (wall : ℕ) : Operation Unit := putOperation (js "d") ⟨wall, 0⟩ .accounts (js "y") ()

/-- Both tabs are opened, and the left one writes an account. -/
def leftWrote : Tabs Tab Unit :=
  (((blank.initialise .left).initialise .right).stamped .left ⟨10, 0⟩ leftWrite).commit .left ⟨10, 0⟩ leftWrite []

/-- The right one writes another. -/
def bothWrote (wall : ℕ) : Tabs Tab Unit :=
  (leftWrote.stamped .right ⟨wall, 0⟩ (rightWrite wall)).commit .right ⟨wall, 0⟩ (rightWrite wall) []

theorem reaches_bothWrote {ok : Operation Unit → Database Unit → Prop} {wall : ℕ} (hw : 0 < wall)
    (hl : ok leftWrite blank.db) (hr : ok (rightWrite wall) leftWrote.db) : Reaches (js "d") ok (bothWrote wall) := by
  have htick : Clock.zero.tick wall = .ok ⟨wall, 0⟩ := if_pos hw
  have h1 : Reaches (js "d") ok ((blank.initialise .left).initialise .right) :=
    ((Reaches.start blank blank_starts).step (Step.initialise _ Tab.left)).step (Step.initialise _ Tab.right)
  have h2 : Reaches (js "d") ok leftWrote := by
    refine (h1.step (Step.put _ Tab.left Clock.zero ⟨10, 0⟩ 10 .accounts (js "x") () rfl rfl)).step ?_
    exact Step.commit _ Tab.left ⟨10, 0⟩ leftWrite [] [] rfl rfl hl
  refine (h2.step (Step.put _ Tab.right Clock.zero ⟨wall, 0⟩ wall .accounts (js "y") () rfl htick)).step ?_
  exact Step.commit _ Tab.right ⟨wall, 0⟩ (rightWrite wall) [] [] rfl rfl hr

theorem mem_leftWrote {o : LocalOperation Unit} (h : o ∈ leftWrote.db.oplog) : o = ⟨leftWrite, false⟩ :=
  List.mem_singleton.mp h

/-- Tabs whose clocks do not meet lose nothing. -/
theorem intact_bothWrote : Intact (bothWrote 20) := by
  refine intact_of_clearCommits (reaches_bothWrote (by decide) ⟨?_, ?_⟩ ⟨?_, ?_⟩)
  · exact fun o ho => absurd ho (Table.not_mem_empty o)
  · exact fun o ho => absurd ho.1 (Table.not_mem_empty o)
  · intro o ho
    rw [mem_leftWrote ho]
    decide
  · intro o ho hk
    rw [mem_leftWrote ho.1] at hk
    exact absurd (congrArg Prod.snd hk) (by decide)

/-- Two tabs that write in one millisecond write under one stamp, and the first write is lost from the log. -/
theorem exists_not_intact : ¬ ∀ s : Tabs Tab Unit, Reaches (js "d") (fun _ _ => True) s → Intact s := by
  intro h
  have hi := h (bothWrote 10) (reaches_bothWrote (by decide) trivial trivial)
  have hne := (List.pairwise_cons.mp hi.distinct).1 leftWrite List.mem_cons_self
  exact hne rfl

end Two

end Tabs

end EasyDocket
