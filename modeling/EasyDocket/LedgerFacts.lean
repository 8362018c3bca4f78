import EasyDocket.Ledger
import EasyDocket.Lib.Lww

/-!
# What the ledger's operations do

One specification lemma for each operation: what it does to the log, to the row of an entity and to the clock.
Callers use these and do not unfold the operations.
-/

namespace EasyDocket

variable {β : Type}

namespace Ledger

/-- The row of an entity. -/
def rowAt (L : Ledger β) (t : EntityName × JsString) : Option (Row β) := (L.tables t.1).get? t.2

/-- The log holds an operation on the same entity, at or after `s`. -/
def Dominates (L : Ledger β) (t : EntityName × JsString) (s : Stamp) : Prop :=
  ∃ o ∈ L.oplog, o.target = t ∧ s ≤ o.hlc

/-- `o` is the greatest-stamped operation of its entity in the log. -/
def Newest (L : Ledger β) (o : LocalOperation β) : Prop :=
  Lww.Newest (fun o : LocalOperation β => o.hlc) (fun o => o.target) (· ∈ L.oplog) o

/-- The row of an entity is the one its newest operation leaves. -/
def AgreesAt (L : Ledger β) (t : EntityName × JsString) : Prop :=
  (∀ o, L.Newest o → o.target = t → L.rowAt t = o.row) ∧ ((∀ o ∈ L.oplog, o.target ≠ t) → L.rowAt t = none)

theorem agreesAt_empty (t : EntityName × JsString) : (empty : Ledger β).AgreesAt t :=
  ⟨fun o ho => absurd ho.1 (Table.not_mem_empty o),
    fun _ => Table.get?_eq_none.mpr (fun r hr => absurd hr (Table.not_mem_empty r))⟩

/-! ## Single writes -/

section Writes

variable {L : Ledger β} {e : EntityName} {r : Row β} {id : JsString} {t : EntityName × JsString}
  {o : LocalOperation β}

theorem rowAt_putRow : (L.putRow e r).rowAt t = if t = (e, r.id) then some r else L.rowAt t := by
  obtain ⟨e', id'⟩ := t
  unfold rowAt putRow
  by_cases he : e' = e
  · subst he
    simp only [Function.update_self, Table.get?_put]
    by_cases hid : id' = r.id
    · rw [if_pos hid, if_pos (by rw [hid])]
    · rw [if_neg hid, if_neg (fun h => hid (Prod.mk.inj h).2)]
  · rw [if_neg (fun h => he (Prod.mk.inj h).1)]
    simp only [Function.update_of_ne he]

theorem rowAt_deleteRow : (L.deleteRow e id).rowAt t = if t = (e, id) then none else L.rowAt t := by
  obtain ⟨e', id'⟩ := t
  unfold rowAt deleteRow
  by_cases he : e' = e
  · subst he
    simp only [Function.update_self, Table.get?_delete]
    by_cases hid : id' = id
    · rw [if_pos hid, if_pos (by rw [hid])]
    · rw [if_neg hid, if_neg (fun h => hid (Prod.mk.inj h).2)]
  · rw [if_neg (fun h => he (Prod.mk.inj h).1)]
    simp only [Function.update_of_ne he]

@[simp] theorem rowAt_log : (L.log o).rowAt t = L.rowAt t := rfl

@[simp] theorem rowAt_persistClock : L.persistClock.rowAt t = L.rowAt t := rfl

@[simp] theorem oplog_putRow : (L.putRow e r).oplog = L.oplog := rfl

@[simp] theorem oplog_deleteRow : (L.deleteRow e id).oplog = L.oplog := rfl

@[simp] theorem oplog_log : (L.log o).oplog = L.oplog.put o := rfl

@[simp] theorem oplog_persistClock : L.persistClock.oplog = L.oplog := rfl

@[simp] theorem clock_putRow : (L.putRow e r).clock = L.clock := rfl

@[simp] theorem clock_deleteRow : (L.deleteRow e id).clock = L.clock := rfl

@[simp] theorem clock_log : (L.log o).clock = L.clock := rfl

@[simp] theorem clock_persistClock : L.persistClock.clock = L.clock := rfl

@[simp] theorem clockState_putRow : (L.putRow e r).clockState = L.clockState := rfl

@[simp] theorem clockState_deleteRow : (L.deleteRow e id).clockState = L.clockState := rfl

@[simp] theorem clockState_log : (L.log o).clockState = L.clockState := rfl

@[simp] theorem clockState_persistClock : L.persistClock.clockState = some L.clock := rfl

end Writes

/-! ## Local edits -/

/-- What a local edit does: `op` is stamped by the next tick, logged unsent, and its row takes effect. -/
structure Edited (device : JsString) (L L' : Ledger β) (op : Operation β) : Prop where
  stamp : op.hlc = L'.clock.stamp device
  author : op.device = device
  carries : op.Carries
  stamped : op.Stamped
  time : L.clock.time < L'.clock.time
  oplog : L'.oplog = L.oplog.put ⟨op, false⟩
  rows : ∀ t, L'.rowAt t = if t = op.target then op.row else L.rowAt t
  clockState : L'.clockState = some L'.clock

variable {device : JsString} {wall : ℕ} {e : EntityName} {id : JsString} {body : β} {L L' : Ledger β}
  {op : Operation β}

theorem put_of_tick {c : Clock} (h : L.clock.tick wall = .ok c) : L.put device wall e id body = .ok
    (⟨Function.update L.tables e ((L.tables e).put ⟨id, c.stamp device, body⟩),
      L.oplog.put ⟨⟨c.stamp device, e, id, .put, some ⟨id, c.stamp device, body⟩, device⟩, false⟩, some c, c⟩,
      ⟨c.stamp device, e, id, .put, some ⟨id, c.stamp device, body⟩, device⟩) := by
  unfold put
  rw [h]
  rfl

theorem put_edited (h : L.put device wall e id body = .ok (L', op)) : Edited device L L' op := by
  unfold put at h
  cases ht : L.clock.tick wall with
  | error x => rw [ht] at h; cases h
  | ok c =>
    rw [ht] at h
    cases h
    refine ⟨rfl, rfl, fun _ => ⟨_, rfl, rfl⟩, ?_, Clock.time_lt_tick ht, rfl, fun t => ?_, rfl⟩
    · intro r hr
      cases hr
      rfl
    · rw [rowAt_persistClock, rowAt_log, rowAt_putRow]
      rfl

theorem remove_edited (h : L.remove device wall e id = .ok (L', op)) : Edited device L L' op := by
  unfold remove at h
  cases ht : L.clock.tick wall with
  | error x => rw [ht] at h; cases h
  | ok c =>
    rw [ht] at h
    cases h
    refine ⟨rfl, rfl, (fun hp => by cases hp), ?_, Clock.time_lt_tick ht, rfl, fun t => ?_, rfl⟩
    · intro r hr
      cases hr
    · rw [rowAt_persistClock, rowAt_log, rowAt_deleteRow]
      rfl

/-! ## Merging one operation -/

theorem newer_foldl (l : List Stamp) (m : Option Stamp) (s : Stamp) :
    l.foldl newer m = some s ↔ (s ∈ l ∨ m = some s) ∧ (∀ x ∈ l, x ≤ s) ∧ ∀ x, m = some x → x ≤ s := by
  induction l generalizing m with
  | nil => simp only [List.foldl_nil, List.not_mem_nil, false_or, false_imp_iff, implies_true, true_and]
           constructor
           · rintro rfl; exact ⟨rfl, fun x hx => by cases hx; exact le_refl _⟩
           · exact fun h => h.1
  | cons x xs ih =>
    rw [List.foldl_cons, ih]
    cases m with
    | none =>
      simp only [newer, List.mem_cons, Option.some.injEq, reduceCtorEq, or_false, false_imp_iff, implies_true,
        and_true, forall_eq_or_imp, forall_eq']
      constructor
      · rintro ⟨h1, h2, h3⟩
        exact ⟨h1.symm.imp_left Eq.symm, h3, h2⟩
      · rintro ⟨h1, h2, h3⟩
        exact ⟨(h1.imp_left Eq.symm).symm, h3, h2⟩
    | some m =>
      simp only [newer, List.mem_cons, Option.some.injEq, forall_eq_or_imp, forall_eq']
      split_ifs with hlt
      · simp only [Option.some.injEq, forall_eq']
        constructor
        · rintro ⟨h1, h2, h3⟩
          exact ⟨Or.inl (h1.symm.imp_left Eq.symm), ⟨h3, h2⟩, hlt.le.trans h3⟩
        · rintro ⟨(h1 | h1) | h1, ⟨h2, h3⟩, h4⟩
          · exact ⟨Or.inr h1.symm, h3, h2⟩
          · exact ⟨Or.inl h1, h3, h2⟩
          · exact absurd (h1 ▸ h2) (not_le.mpr hlt)
      · simp only [Option.some.injEq, forall_eq']
        have hle := not_lt.mp hlt
        constructor
        · rintro ⟨h1, h2, h3⟩
          exact ⟨h1.imp_left Or.inr, ⟨hle.trans h3, h2⟩, h3⟩
        · rintro ⟨(h1 | h1) | h1, ⟨h2, h3⟩, h4⟩
          · exact ⟨Or.inr (le_antisymm (h1 ▸ h4) (h1 ▸ hle)), h3, h4⟩
          · exact ⟨Or.inl h1, h3, h4⟩
          · exact ⟨Or.inr h1, h3, h4⟩

theorem exists_newest {L : Ledger β} {o : LocalOperation β} (ho : o ∈ L.oplog) :
    ∃ m, m.target = o.target ∧ L.Newest m :=
  @Lww.exists_newest _ _ _ _ (fun o : LocalOperation β => o.hlc) (fun o => o.target) _ L.oplog.rows o ho

theorem latestStampFor_eq_some {s : Stamp} : L.latestStampFor e id = some s ↔
    (∃ o ∈ L.oplog, o.target = (e, id) ∧ o.hlc = s) ∧ ∀ o ∈ L.oplog, o.target = (e, id) → o.hlc ≤ s := by
  have hmem : ∀ x, x ∈ (L.oplog.rows.filter (fun op => op.entity = e ∧ op.entityId = id)).map (fun op => op.hlc) ↔
      ∃ o ∈ L.oplog, o.target = (e, id) ∧ o.hlc = x := by
    intro x
    simp only [List.mem_map, List.mem_filter, decide_eq_true_eq, Operation.target, Prod.mk.injEq, Table.mem_def,
      and_assoc]
  unfold latestStampFor
  rw [newer_foldl]
  constructor
  · rintro ⟨h1, h2, -⟩
    exact ⟨(hmem s).mp (h1.resolve_right (by simp)), fun o ho ht => h2 _ ((hmem _).mpr ⟨o, ho, ht, rfl⟩)⟩
  · rintro ⟨h1, h2⟩
    refine ⟨Or.inl ((hmem s).mpr h1), fun x hx => ?_, by simp⟩
    obtain ⟨o, ho, ht, rfl⟩ := (hmem x).mp hx
    exact h2 o ho ht

theorem latestStampFor_eq_none : L.latestStampFor e id = none ↔ ∀ o ∈ L.oplog, o.target ≠ (e, id) := by
  constructor
  · intro h o ho ht
    obtain ⟨m, hk, hm⟩ := exists_newest ho
    have hs : L.latestStampFor e id = some m.hlc := latestStampFor_eq_some.mpr
      ⟨⟨m, hm.1, hk.trans ht, rfl⟩, fun o' ho' ht' => hm.2 o' ho' (ht'.trans (hk.trans ht).symm)⟩
    rw [h] at hs
    cases hs
  · intro h
    unfold latestStampFor
    rw [List.filter_eq_nil_iff.mpr (fun o ho => by simpa [Operation.target] using h o ho)]
    rfl

/-- What applying one operation does. -/
structure Applied (L L' : Ledger β) (op : Operation β) : Prop where
  oplog : L'.oplog = L.oplog.put ⟨op, true⟩
  rows : ∀ t, L'.rowAt t = if t = op.target then op.row else L.rowAt t
  clock : L'.clock = L.clock
  clockState : L'.clockState = L.clockState

theorem mergeOne_of_dominates {n : ℕ} (h : L.Dominates op.target op.hlc) : mergeOne (L, n) op = (L, n) := by
  obtain ⟨o, ho, ht, hle⟩ := h
  unfold mergeOne
  cases hl : L.latestStampFor op.entity op.entityId with
  | none => exact absurd ht (latestStampFor_eq_none.mp hl o ho)
  | some latest =>
    have hlatest : op.hlc ≤ latest := hle.trans ((latestStampFor_eq_some.mp hl).2 o ho ht)
    simp only [hlatest, if_true]

theorem apply_applied {n : ℕ} (hc : op.Carries) :
    ∃ L', mergeOne.apply (L, n) op = (L', n + 1) ∧ Applied L L' op := by
  obtain ⟨hlc, e, id, kind, value, device⟩ := op
  cases kind with
  | delete =>
    refine ⟨_, rfl, rfl, fun t => ?_, rfl, rfl⟩
    rw [rowAt_log, rowAt_deleteRow]
    rfl
  | put =>
    obtain ⟨r, hr, hid⟩ := hc rfl
    simp only at hr hid
    subst hr hid
    refine ⟨_, rfl, rfl, fun t => ?_, rfl, rfl⟩
    rw [rowAt_log, rowAt_putRow]
    rfl

theorem mergeOne_of_not_dominates {n : ℕ} (h : ¬ L.Dominates op.target op.hlc) (hc : op.Carries) :
    ∃ L', mergeOne (L, n) op = (L', n + 1) ∧ Applied L L' op := by
  have hmerge : mergeOne (L, n) op = mergeOne.apply (L, n) op := by
    unfold mergeOne
    cases hl : L.latestStampFor op.entity op.entityId with
    | none => rfl
    | some latest =>
      obtain ⟨⟨o, ho, ht, rfl⟩, -⟩ := latestStampFor_eq_some.mp hl
      have hlt : ¬ op.hlc ≤ o.hlc := fun hle => h ⟨o, ho, ht, hle⟩
      simp only [hlt, if_false]
  rw [hmerge]
  exact apply_applied hc

/-! ## Merging a batch -/

/-- Operations with the same stamp are about the same entity, in the log and in `ops` alike. -/
structure Coherent (L : Ledger β) (ops : List (Operation β)) : Prop where
  among : ∀ a ∈ ops, ∀ b ∈ ops, a.hlc = b.hlc → a.target = b.target
  logged : ∀ a ∈ ops, ∀ o ∈ L.oplog, o.hlc = a.hlc → o.target = a.target

/-- What merging `ops`, in whatever order and grouping, does to log and tables. -/
structure Merged (ops : List (Operation β)) (L L' : Ledger β) : Prop where
  kept : ∀ o ∈ L.oplog, o ∈ L'.oplog
  fresh : ∀ o ∈ L'.oplog, o ∈ L.oplog ∨ o.toOperation ∈ ops ∧ o.synced = true ∧ ¬ L.Dominates o.target o.hlc
  dominates : ∀ op ∈ ops, L'.Dominates op.target op.hlc
  rows : ∀ t, (L'.rowAt t = L.rowAt t ∧ ∀ o ∈ L'.oplog, o.target = t → o ∈ L.oplog) ∨
    ∃ o, L'.Newest o ∧ o.target = t ∧ o.toOperation ∈ ops ∧ ¬ L.Dominates t o.hlc ∧ L'.rowAt t = o.row
  clock : L'.clock = L.clock

theorem Dominates.mono {L L' : Ledger β} (hk : ∀ o ∈ L.oplog, o ∈ L'.oplog) {t : EntityName × JsString} {s : Stamp}
    (h : L.Dominates t s) : L'.Dominates t s := by
  obtain ⟨o, ho, ht, hle⟩ := h
  exact ⟨o, hk o ho, ht, hle⟩

theorem Dominates.of_le {t : EntityName × JsString} {s s' : Stamp} (h : L.Dominates t s') (hle : s ≤ s') :
    L.Dominates t s := by
  obtain ⟨o, ho, ht, hle'⟩ := h
  exact ⟨o, ho, ht, hle.trans hle'⟩

theorem dominates_self {o : LocalOperation β} (h : o ∈ L.oplog) : L.Dominates o.target o.hlc :=
  ⟨o, h, rfl, le_refl _⟩

namespace Merged

variable {ops ops' : List (Operation β)} {L₁ L₂ : Ledger β}

theorem refl (L : Ledger β) (h : ∀ op ∈ ops, L.Dominates op.target op.hlc) : Merged ops L L :=
  ⟨fun _ ho => ho, fun _ ho => Or.inl ho, h, fun _ => Or.inl ⟨rfl, fun _ ho _ => ho⟩, rfl⟩

/-- Only what is merged counts, not in which order. -/
theorem congr (h : Merged ops L L₁) (hmem : ∀ op, op ∈ ops' ↔ op ∈ ops) : Merged ops' L L₁ where
  kept := h.kept
  fresh := fun o ho => (h.fresh o ho).imp_right (fun h => ⟨(hmem _).mpr h.1, h.2⟩)
  dominates := fun op hop => h.dominates op ((hmem op).mp hop)
  rows := fun t => (h.rows t).imp_right
    (fun ⟨o, h1, h2, h3, h4⟩ => ⟨o, h1, h2, (hmem _).mpr h3, h4⟩)
  clock := h.clock

theorem trans (h : Merged ops L L₁) (h' : Merged ops' L₁ L₂) : Merged (ops ++ ops') L L₂ where
  kept := fun o ho => h'.kept o (h.kept o ho)
  fresh := by
    intro o ho
    rcases h'.fresh o ho with ho₁ | ⟨hop, hs, hd⟩
    · exact (h.fresh o ho₁).imp_right (fun hf => ⟨List.mem_append_left _ hf.1, hf.2⟩)
    · exact Or.inr ⟨List.mem_append_right _ hop, hs, fun hd' => hd (hd'.mono h.kept)⟩
  dominates := by
    intro op hop
    rcases List.mem_append.mp hop with hop | hop
    · exact (h.dominates op hop).mono h'.kept
    · exact h'.dominates op hop
  rows := by
    intro t
    rcases h'.rows t with ⟨hrow', hlog'⟩ | ⟨o, hnew, ht, hop, hd, hrow⟩
    · rcases h.rows t with ⟨hrow, hlog⟩ | ⟨o, hnew, ht, hop, hd, hrow⟩
      · exact Or.inl ⟨hrow'.trans hrow, fun o ho ht => hlog o (hlog' o ho ht) ht⟩
      · refine Or.inr ⟨o, ⟨h'.kept o hnew.1, fun b hb hk => ?_⟩, ht, List.mem_append_left _ hop, hd, hrow'.trans hrow⟩
        exact hnew.2 b (hlog' b hb (hk.trans ht)) hk
    · exact Or.inr ⟨o, hnew, ht, List.mem_append_right _ hop, fun hd' => hd (hd'.mono h.kept), hrow⟩
  clock := h'.clock.trans h.clock

end Merged

theorem Applied.merged {L L' : Ledger β} (h : Applied L L' op) (hd : ¬ L.Dominates op.target op.hlc)
    (hu : Coherent L [op]) : Merged [op] L L' := by
  have hmem : ∀ o, o ∈ L'.oplog ↔ o = ⟨op, true⟩ ∨ o ∈ L.oplog ∧ o.hlc ≠ op.hlc := by
    intro o
    rw [h.oplog, Table.mem_put]
  have hnew : L'.Newest ⟨op, true⟩ := by
    refine ⟨(hmem _).mpr (Or.inl rfl), fun b hb hk => ?_⟩
    rcases (hmem b).mp hb with rfl | ⟨hb, -⟩
    · exact le_refl _
    · exact (not_le.mp (fun hle => hd ⟨b, hb, hk, hle⟩)).le
  refine ⟨fun o ho => (hmem o).mpr (Or.inr ⟨ho, fun hs => ?_⟩), fun o ho => ?_, fun a ha => ?_, fun t => ?_, h.clock⟩
  · exact hd ⟨o, ho, hu.logged op List.mem_cons_self o ho hs, hs.ge⟩
  · rcases (hmem o).mp ho with rfl | ⟨ho, -⟩
    · exact Or.inr ⟨List.mem_cons_self, rfl, hd⟩
    · exact Or.inl ho
  · rw [List.mem_singleton.mp ha]
    exact dominates_self hnew.1
  · by_cases ht : t = op.target
    · refine Or.inr ⟨⟨op, true⟩, hnew, ht.symm, List.mem_cons_self, ht ▸ hd, ?_⟩
      rw [h.rows t, if_pos ht]
    · refine Or.inl ⟨by rw [h.rows t, if_neg ht], fun o ho hot => ?_⟩
      rcases (hmem o).mp ho with rfl | ⟨ho, -⟩
      · exact absurd hot.symm ht
      · exact ho

/-- The step lemma of a merge. -/
theorem mergeOne_merged {n : ℕ} (hc : op.Carries) (hu : Coherent L [op]) :
    Merged [op] L (mergeOne (L, n) op).1 ∧ (mergeOne (L, n) op).1.clockState = L.clockState := by
  by_cases hd : L.Dominates op.target op.hlc
  · rw [mergeOne_of_dominates hd]
    exact ⟨Merged.refl L (fun a ha => by rw [List.mem_singleton.mp ha]; exact hd), rfl⟩
  · obtain ⟨L', hm, ha⟩ := mergeOne_of_not_dominates (n := n) hd hc
    rw [hm]
    exact ⟨ha.merged hd hu, ha.clockState⟩

theorem Coherent.of_merged {ops ops' : List (Operation β)} {L L' : Ledger β}
    (h : Merged ops L L') (hu : Coherent L (ops ++ ops')) : Coherent L' ops' where
  among := fun a ha b hb => hu.among a (List.mem_append_right _ ha) b (List.mem_append_right _ hb)
  logged := by
    intro a ha o ho hs
    rcases h.fresh o ho with ho | ⟨hop, -⟩
    · exact hu.logged a (List.mem_append_right _ ha) o ho hs
    · exact hu.among o.toOperation (List.mem_append_left _ hop) a (List.mem_append_right _ ha) hs

theorem Coherent.subset {ops ops' : List (Operation β)} (hu : Coherent L ops) (h : ∀ a ∈ ops', a ∈ ops) :
    Coherent L ops' :=
  ⟨fun a ha b hb => hu.among a (h a ha) b (h b hb), fun a ha => hu.logged a (h a ha)⟩

/-- The run lemma of a merge. -/
theorem foldl_mergeOne_merged : ∀ (ops : List (Operation β)) (acc : Ledger β × ℕ), (∀ op ∈ ops, op.Carries) →
    Coherent acc.1 ops →
    Merged ops acc.1 (ops.foldl mergeOne acc).1 ∧ (ops.foldl mergeOne acc).1.clockState = acc.1.clockState
  | [], acc, _, _ => ⟨Merged.refl acc.1 (fun _ h => absurd h List.not_mem_nil), rfl⟩
  | op :: ops, (L, n), hc, hu => by
    have h1 := mergeOne_merged (n := n) (hc op List.mem_cons_self)
      (hu.subset (fun a ha => List.mem_singleton.mp ha ▸ List.mem_cons_self))
    have h2 := foldl_mergeOne_merged ops (mergeOne (L, n) op) (fun a ha => hc a (List.mem_cons_of_mem _ ha))
      (Coherent.of_merged h1.1 hu)
    exact ⟨h1.1.trans h2.1, h2.2.trans h1.2⟩

theorem mem_ordered {ops : List (Operation β)} {op : Operation β} : op ∈ ordered ops ↔ op ∈ ops :=
  (List.perm_insertionSort _ ops).mem_iff

theorem merge_merged {ops : List (Operation β)} (hc : ∀ op ∈ ops, op.Carries) (hu : Coherent L ops) :
    Merged ops L (L.merge ops).1 := by
  unfold merge
  split_ifs with h
  · exact Merged.refl L (fun op hop => absurd (h ▸ hop) List.not_mem_nil)
  · have hm := (foldl_mergeOne_merged (ordered ops) (L, 0) (fun op hop => hc op (mem_ordered.mp hop))
      (hu.subset (fun a ha => mem_ordered.mp ha))).1.congr (fun op => mem_ordered.symm)
    exact ⟨hm.kept, hm.fresh, hm.dominates, hm.rows, hm.clock⟩

theorem merge_clockState {ops : List (Operation β)} (hc : ∀ op ∈ ops, op.Carries) (hu : Coherent L ops) :
    (L.merge ops).1.clockState = if ops = [] then L.clockState else some L.clock := by
  have hclock := (merge_merged hc hu).clock
  unfold merge at hclock ⊢
  split_ifs with h
  · rfl
  · rw [if_neg h] at hclock
    exact congrArg some hclock

/-- Merging what the log already has applies nothing. -/
theorem foldl_mergeOne_of_dominates : ∀ (ops : List (Operation β)) (n : ℕ),
    (∀ op ∈ ops, L.Dominates op.target op.hlc) → ops.foldl mergeOne (L, n) = (L, n)
  | [], _, _ => rfl
  | op :: ops, n, h => by
    rw [List.foldl_cons, mergeOne_of_dominates (h op List.mem_cons_self)]
    exact foldl_mergeOne_of_dominates ops n (fun a ha => h a (List.mem_cons_of_mem _ ha))

theorem merge_of_dominates {ops : List (Operation β)} (h : ∀ op ∈ ops, L.Dominates op.target op.hlc) :
    (L.merge ops).2 = 0 ∧ (L.merge ops).1.tables = L.tables ∧ (L.merge ops).1.oplog = L.oplog := by
  unfold merge
  split_ifs with hops
  · exact ⟨rfl, rfl, rfl⟩
  · rw [foldl_mergeOne_of_dominates (ordered ops) 0 (fun op hop => h op (mem_ordered.mp hop))]
    exact ⟨rfl, rfl, rfl⟩

theorem Merged.agreesAt {ops : List (Operation β)} {L L' : Ledger β} (h : Merged ops L L')
    (hrow : ∀ a ∈ ops, ∀ o ∈ L'.oplog, o.hlc = a.hlc → o.row = a.row) {t : EntityName × JsString}
    (hag : L.AgreesAt t) : L'.AgreesAt t := by
  rcases h.rows t with ⟨hr, hlog⟩ | ⟨o, hnew, ht, hop, -, hr⟩
  · refine ⟨fun o ho hot => ?_, fun hnone => ?_⟩
    · rw [hr]
      exact hag.1 o ⟨hlog o ho.1 hot, fun b hb hk => ho.2 b (h.kept b hb) hk⟩ hot
    · rw [hr]
      exact hag.2 (fun o ho => hnone o (h.kept o ho))
  · refine ⟨fun o' ho' hot' => ?_, fun hnone => absurd ht (hnone o hnew.1)⟩
    have hs : o'.hlc = o.hlc := le_antisymm (hnew.2 o' ho'.1 (hot'.trans ht.symm))
      (ho'.2 o hnew.1 (ht.trans hot'.symm))
    rw [hr]
    exact (hrow o.toOperation hop o' ho'.1 hs).symm

/-! ## Marking and observing -/

theorem mem_markOne {s : Stamp} {o : LocalOperation β} :
    o ∈ (L.markOne s).oplog ↔ ∃ o' ∈ L.oplog, setSynced s o' = o :=
  @Table.mem_update _ _ _ _ L.oplog (setSynced s) (setSynced_hlc s) o

theorem mem_markSynced {stamps : List Stamp} {o : LocalOperation β} :
    o ∈ (L.markSynced stamps).oplog ↔
      ∃ o' ∈ L.oplog, o = { o' with synced := o'.synced || decide (o'.hlc ∈ stamps) } := by
  unfold markSynced
  induction stamps generalizing L with
  | nil => simp
  | cons s ss ih =>
    rw [List.foldl_cons, ih]
    have hset : ∀ o' : LocalOperation β, { setSynced s o' with
        synced := (setSynced s o').synced || decide ((setSynced s o').hlc ∈ ss) } =
        { o' with synced := o'.synced || decide (o'.hlc ∈ s :: ss) } := by
      intro o'
      unfold setSynced
      split_ifs with h
      · simp only [h, List.mem_cons, true_or, decide_true, Bool.or_true, Bool.true_or]
      · simp only [List.mem_cons, h, false_or]
    constructor
    · rintro ⟨o', ho', rfl⟩
      obtain ⟨o'', ho'', rfl⟩ := mem_markOne.mp ho'
      exact ⟨o'', ho'', hset o''⟩
    · rintro ⟨o', ho', rfl⟩
      exact ⟨setSynced s o', mem_markOne.mpr ⟨o', ho', rfl⟩, (hset o').symm⟩

@[simp] theorem markSynced_tables (stamps : List Stamp) : (L.markSynced stamps).tables = L.tables := by
  unfold markSynced
  induction stamps generalizing L with
  | nil => rfl
  | cons s ss ih => rw [List.foldl_cons, ih]; rfl

@[simp] theorem markSynced_clock (stamps : List Stamp) : (L.markSynced stamps).clock = L.clock := by
  unfold markSynced
  induction stamps generalizing L with
  | nil => rfl
  | cons s ss ih => rw [List.foldl_cons, ih]; rfl

@[simp] theorem markSynced_clockState (stamps : List Stamp) :
    (L.markSynced stamps).clockState = L.clockState := by
  unfold markSynced
  induction stamps generalizing L with
  | nil => rfl
  | cons s ss ih => rw [List.foldl_cons, ih]; rfl

/-- Marking changes no stamp. -/
theorem stamps_markSynced (stamps : List Stamp) :
    (L.markSynced stamps).oplog.rows.map (fun o => o.hlc) = L.oplog.rows.map (fun o => o.hlc) := by
  unfold markSynced
  induction stamps generalizing L with
  | nil => rfl
  | cons s ss ih =>
    rw [List.foldl_cons, ih]
    show (L.oplog.rows.map (setSynced s)).map (fun o => o.hlc) = _
    rw [List.map_map]
    exact List.map_congr_left (fun o _ => setSynced_hlc s o)

theorem observeAll_cons_ok {wall : ℕ → ℕ} {s : Stamp} {ss : List Stamp} {c c' : Clock}
    (h : c.observe (wall 0) s = .ok c') :
    observeAll wall (s :: ss) c = observeAll (fun n => wall (n + 1)) ss c' := by
  rw [observeAll, h]

theorem observeAll_cons_error {wall : ℕ → ℕ} {s : Stamp} {ss : List Stamp} {c : Clock} {e : ClockError}
    (h : c.observe (wall 0) s = .error e) : observeAll wall (s :: ss) c = (.error e, c) := by
  rw [observeAll, h]

theorem observeAll_time_le (stamps : List Stamp) (wall : ℕ → ℕ) (c : Clock) :
    c.time ≤ (observeAll wall stamps c).2.time := by
  induction stamps generalizing wall c with
  | nil => exact le_refl _
  | cons s ss ih =>
    cases h : c.observe (wall 0) s with
    | error e => rw [observeAll_cons_error h]
    | ok c' =>
      rw [observeAll_cons_ok h]
      exact (Clock.time_lt_observe h).le.trans (ih _ c')

/-- Once all stamps have been observed the clock is past each of them. -/
theorem past_of_observeAll (stamps : List Stamp) (wall : ℕ → ℕ) (c : Clock)
    (hok : (observeAll wall stamps c).1 = .ok ()) : ∀ s ∈ stamps, (observeAll wall stamps c).2.Past s := by
  induction stamps generalizing wall c with
  | nil => exact fun s hs => absurd hs List.not_mem_nil
  | cons x xs ih =>
    intro s hs
    cases h : c.observe (wall 0) x with
    | error e => rw [observeAll_cons_error h] at hok; cases hok
    | ok c' =>
      rw [observeAll_cons_ok h] at hok ⊢
      rcases List.mem_cons.mp hs with rfl | hs
      · exact (Clock.past_of_observe h).mono (observeAll_time_le xs _ c')
      · exact ih _ c' hok s hs

/-! ## Unsent operations -/

theorem mem_unsynced {o : LocalOperation β} : o ∈ L.unsynced ↔ o ∈ L.oplog ∧ o.synced = false := by
  unfold unsynced
  rw [List.mem_filter, Table.mem_def]
  simp

theorem unsynced_sorted (L : Ledger β) : L.unsynced.Pairwise (fun a b => a.hlc < b.hlc) := L.oplog.sorted.filter _

theorem unsynced_eq_of_mem {L' : Ledger β} (h : ∀ o, o ∈ L'.unsynced ↔ o ∈ L.unsynced) : L'.unsynced = L.unsynced :=
  Table.eq_of_mem_iff L'.unsynced_sorted L.unsynced_sorted h

theorem Edited.unsynced {device : JsString} {L L' : Ledger β} {op : Operation β} (h : Edited device L L' op)
    (hlast : ∀ o ∈ L.unsynced, o.hlc < op.hlc) : L'.unsynced = L.unsynced ++ [⟨op, false⟩] := by
  refine Table.eq_of_mem_iff L'.unsynced_sorted ?_ (fun o => ?_)
  · refine List.pairwise_append.mpr ⟨L.unsynced_sorted, List.pairwise_singleton _ _, fun a ha b hb => ?_⟩
    rw [List.mem_singleton.mp hb]
    exact hlast a ha
  · rw [mem_unsynced, h.oplog, Table.mem_put, List.mem_append, List.mem_singleton, mem_unsynced]
    constructor
    · rintro ⟨rfl | ⟨ho, -⟩, hs⟩
      · exact Or.inr rfl
      · exact Or.inl ⟨ho, hs⟩
    · rintro (⟨ho, hs⟩ | rfl)
      · exact ⟨Or.inr ⟨ho, (hlast o (mem_unsynced.mpr ⟨ho, hs⟩)).ne⟩, hs⟩
      · exact ⟨Or.inl rfl, rfl⟩

theorem Merged.unsynced {ops : List (Operation β)} {L L' : Ledger β} (h : Merged ops L L') :
    L'.unsynced = L.unsynced := by
  refine unsynced_eq_of_mem (fun o => ?_)
  rw [mem_unsynced, mem_unsynced]
  constructor
  · rintro ⟨ho, hs⟩
    rcases h.fresh o ho with ho | ⟨-, ht, -⟩
    · exact ⟨ho, hs⟩
    · rw [hs] at ht
      cases ht
  · exact fun ⟨ho, hs⟩ => ⟨h.kept o ho, hs⟩

/-- Marking the first unsent operations leaves the others unsent. -/
theorem unsynced_markSynced {slice rest : List (LocalOperation β)} (h : L.unsynced = slice ++ rest) :
    (L.markSynced (slice.map (fun o => o.hlc))).unsynced = rest := by
  have hsorted := L.unsynced_sorted
  rw [h] at hsorted
  obtain ⟨-, hrest, hlt⟩ := List.pairwise_append.mp hsorted
  refine Table.eq_of_mem_iff (unsynced_sorted _) hrest (fun o => ?_)
  rw [mem_unsynced, mem_markSynced]
  constructor
  · rintro ⟨⟨o', ho', rfl⟩, hs⟩
    obtain ⟨hs', hn⟩ : o'.synced = false ∧ ¬ o'.hlc ∈ slice.map (fun o => o.hlc) := by simpa using hs
    have hmem : o' ∈ slice ++ rest := h ▸ mem_unsynced.mpr ⟨ho', hs'⟩
    have hrest' : o' ∈ rest :=
      (List.mem_append.mp hmem).resolve_left (fun hm => hn (List.mem_map.mpr ⟨o', hm, rfl⟩))
    have ho : { o' with synced := o'.synced || decide (o'.hlc ∈ slice.map (fun o => o.hlc)) } = o' := by
      rw [decide_eq_false hn, Bool.or_false]
    rw [ho]
    exact hrest'
  · intro ho
    obtain ⟨holog, hs⟩ := mem_unsynced.mp (h ▸ List.mem_append_right slice ho : o ∈ L.unsynced)
    have hn : ¬ o.hlc ∈ slice.map (fun o => o.hlc) := by
      intro hm
      obtain ⟨o', ho', heq⟩ := List.mem_map.mp hm
      exact absurd heq (hlt o' ho' o ho).ne
    refine ⟨⟨o, holog, ?_⟩, hs⟩
    rw [decide_eq_false hn, Bool.or_false]

end Ledger

end EasyDocket
