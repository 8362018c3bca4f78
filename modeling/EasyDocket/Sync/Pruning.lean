import EasyDocket.Sync.Readings
import EasyDocket.Sync.MapSite

/-!
# Pruned objects

After writing a snapshot a device removes every object whose name the watermark covers.  Nothing is lost by that as far
as the device had merged the objects when it read its tables, and as far as they are not about entities deleted since.
-/

namespace EasyDocket

variable {D β : Type} [DecidableEq D] {V : Vault D} {d : D}

/-! ## What is left -/

/-- Everything a device merges that applies the objects of `m` without `n`. -/
def remaining (m : ObjectMap β) (n : ObjectName) : List (Operation β) :=
  (m.delete n).rows.flatMap (fun p => p.2.operations)

theorem mem_remaining {m : ObjectMap β} {n : ObjectName} {x : Operation β} :
    x ∈ remaining m n ↔ ∃ p ∈ m, p.1 ≠ n ∧ x ∈ p.2.operations := by
  unfold remaining
  rw [List.mem_flatMap]
  constructor
  · rintro ⟨p, hp, hx⟩
    obtain ⟨hp, hne⟩ := Table.mem_delete.mp hp
    exact ⟨p, hp, hne, hx⟩
  · rintro ⟨p, hp, hne, hx⟩
    exact ⟨p, Table.mem_delete.mpr ⟨hp, hne⟩, hx⟩

/-- A ledger a device of the vault may have: of authored operations, with log and tables in agreement. -/
structure VaultLedger (A : Set (Operation β)) (L : Ledger β) : Prop where
  logged : ∀ o ∈ L.oplog, Authored A o.toOperation
  agrees : ∀ t, L.AgreesAt t

/-- The operation, or a newer one on its entity, is in the log; or its entity was deleted since and there is no row. -/
def InEffect (A : Set (Operation β)) (L : Ledger β) (x : Operation β) : Prop :=
  L.Dominates x.target x.hlc ∨
  L.rowAt x.target = none ∧ ∃ y ∈ A, y.op = .delete ∧ y.target = x.target ∧ x.hlc ≤ y.hlc

/-- Whatever a device of the vault held before: once it applies what is left without `n`, everything `n` held is in
effect there. -/
def RemovalSafe (s : Store D β (ObjectMap β)) (n : ObjectName) : Prop :=
  ∀ env, (n, env) ∈ s.dest → ∀ x ∈ env.operations, ∀ L : Ledger β, VaultLedger s.ghost.authored L →
    InEffect s.ghost.authored (L.merge (remaining s.dest n)).1 x

/-! ## The condition -/

/-- The snapshot the device has just written is still there, and when the device read the table, the newest operation
it had on the entity was a put, at or after `x`. -/
def Snapshot (s : Store D β (ObjectMap β)) (d : D) (x : Operation β) : Prop :=
  (∃ p, s.ghost.written d = some p ∧ p ∈ s.dest) ∧
  ∃ o, (s.ghost.readAt d x.entity).Newest o ∧ o.target = x.target ∧ x.hlc ≤ o.hlc ∧ o.op = .put

/-- Another object has something at or after `x` on its entity. -/
def Elsewhere (s : Store D β (ObjectMap β)) (n : ObjectName) (x : Operation β) : Prop :=
  ∃ p ∈ s.dest, p.1 ≠ n ∧ ∃ y ∈ p.2.operations, y.target = x.target ∧ x.hlc ≤ y.hlc

/-- The entity was deleted at or after `x`, and no row of it was written before `x`. -/
def NothingToDelete (s : Store D β (ObjectMap β)) (x : Operation β) : Prop :=
  (∃ y ∈ s.ghost.authored, y.op = .delete ∧ y.target = x.target ∧ x.hlc ≤ y.hlc) ∧
  ∀ p ∈ s.ghost.authored, p.op = .put → p.target = x.target → x.hlc ≤ p.hlc

/-- Everything in the object about to be removed is in the snapshot, or elsewhere, or needs no deleting. -/
def Redundant (s : Store D β (ObjectMap β)) (d : D) (n : ObjectName) : Prop :=
  ∀ env, (n, env) ∈ s.dest → ∀ x ∈ env.operations, Snapshot s d x ∨ Elsewhere s n x ∨ NothingToDelete s x

/-! ## Single removals -/

/-- The row a device shows for an entity comes from an authored put that its log has. -/
theorem VaultLedger.put_of_rowAt {A : Set (Operation β)} {L : Ledger β} (h : VaultLedger A L)
    {t : EntityName × JsString} {r : Row β} (hr : L.rowAt t = some r) :
    ∃ o ∈ L.oplog, o.target = t ∧ ∃ p ∈ A, p.op = .put ∧ p.target = t ∧ p.hlc = o.hlc := by
  by_cases hnone : ∀ o ∈ L.oplog, o.target ≠ t
  · rw [(h.agrees t).2 hnone] at hr
    cases hr
  · push Not at hnone
    obtain ⟨o, ho, ht⟩ := hnone
    obtain ⟨m, hm, hnew⟩ := Ledger.exists_newest ho
    have hrow := ((h.agrees t).1 m hnew (hm.trans ht)).symm.trans hr
    obtain ⟨p, hp, hsame⟩ := h.logged m hnew.1
    exact ⟨m, hnew.1, hm.trans ht, p, hp, (put_of_row (hsame.row.symm.trans hrow)).1, hsame.target.symm.trans (hm.trans ht),
      hsame.hlc.symm⟩

omit [DecidableEq D] in
theorem VaultLedger.merge {A : Set (Operation β)} (hA : Writes V A) {L : Ledger β} (h : VaultLedger A L)
    {ops : List (Operation β)} (hops : ∀ op ∈ ops, Authored A op) : VaultLedger A (L.merge ops).1 := by
  have hm := Ledger.merge_merged (fun op hop => hA.carries_of (hops op hop)) (hA.coherent h.logged hops)
  have hlog : ∀ o ∈ (L.merge ops).1.oplog, Authored A o.toOperation := by
    intro o ho
    rcases hm.fresh o ho with ho | ⟨hop, -, -⟩
    · exact h.logged o ho
    · exact hops _ hop
  exact ⟨hlog, fun t => hm.agreesAt (fun a ha o ho hs => (hA.sameWrite (hlog o ho) (hops a ha) hs).row) (h.agrees t)⟩

omit [DecidableEq D] in
theorem authored_operations {s : Store D β (ObjectMap β)} (hs : Sound V (mapSite D β) s) (n : ObjectName) :
    ∀ op ∈ remaining s.dest n, Authored s.ghost.authored op := by
  intro op hop
  obtain ⟨p, hp, -, hmem⟩ := mem_remaining.mp hop
  exact (hs.made p.1 p.2 (hs.held hp)).authored op hmem

omit [DecidableEq D] in
/-- What is elsewhere is in effect on every device that applies what is left. -/
theorem inEffect_of_elsewhere {s : Store D β (ObjectMap β)} (hs : Sound V (mapSite D β) s) {n : ObjectName}
    {x : Operation β} (h : Elsewhere s n x) {L : Ledger β} (hL : VaultLedger s.ghost.authored L) :
    InEffect s.ghost.authored (L.merge (remaining s.dest n)).1 x := by
  obtain ⟨p, hp, hne, y, hy, ht, hle⟩ := h
  have hops := authored_operations hs n
  have hm := Ledger.merge_merged (fun op hop => hs.writes.carries_of (hops op hop)) (hs.writes.coherent hL.logged hops)
  have hdom := hm.dominates y (mem_remaining.mpr ⟨p, hp, hne, hy⟩)
  rw [ht] at hdom
  exact Or.inl (hdom.of_le hle)

omit [DecidableEq D] in
theorem elsewhere_of_snapshot {s : Store D β (ObjectMap β)} (hs : Sound V (mapSite D β) s) (hr : Readings s)
    {n : ObjectName} (hreq : Requested V d (.call (.remove n)) s) {x : Operation β} (h : Snapshot s d x) :
    Elsewhere s n x := by
  obtain ⟨⟨p, hwritten, hp⟩, o, hnew, ht, hle, hput⟩ := h
  obtain ⟨w, env, value, hw, hsnap, hcovered⟩ := hreq
  cases hwritten.symm.trans hw
  obtain ⟨y, hy, hyt, hys⟩ := hsnap.covers hs hr hnew (congrArg Prod.fst ht) hput
  refine ⟨(w, env), hp, ?_, y, hy, hyt.trans ht, hle.trans hys.ge⟩
  rintro rfl
  rcases hcovered with ⟨hk, -⟩ | ⟨-, hlt⟩
  · exact absurd (hk.symm.trans hsnap.object.kind) (by decide)
  · exact absurd hlt (lt_irrefl _)

omit [DecidableEq D] in
theorem inEffect_of_nothingToDelete {s : Store D β (ObjectMap β)} (hs : Sound V (mapSite D β) s) {n : ObjectName}
    {x : Operation β} (h : NothingToDelete s x) {L : Ledger β} (hL : VaultLedger s.ghost.authored L) :
    InEffect s.ghost.authored (L.merge (remaining s.dest n)).1 x := by
  have hL' := hL.merge hs.writes (authored_operations hs n)
  cases hrow : (L.merge (remaining s.dest n)).1.rowAt x.target with
  | none => exact Or.inr ⟨hrow, h.1⟩
  | some r =>
    obtain ⟨o, ho, ht, p, hp, hput, hpt, hps⟩ := hL'.put_of_rowAt hrow
    exact Or.inl ⟨o, ho, ht, hps ▸ h.2 p hp hput hpt⟩

/-! ## Runs -/

theorem readingRuns (V : Vault D) (site : Site D β (ObjectMap β)) :
    Threads.Sound ((world V site).restrict ObservedFirst (fun _ _ => True))
      (fun s => Sound V site s ∧ AllAhead s ∧ Readings s) (fun d => protocol V d site) (fun _ _ _ => True) := by
  refine (soundRuns V site).strengthen ?_ ?_ ?_ ?_ ?_
  · exact fun d s _ hk => ⟨hk.1, hk.2.of_eq rfl rfl rfl⟩
  · exact fun d q s r s' hs hk hreq hserved hcond hs' => ⟨allAhead_served hs hk.1 hreq hserved hcond,
      readings_served hs hk.1 hk.2 hreq hserved⟩
  · intro d r s _ hk
    cases r with
    | ok a => exact ⟨hk.1, hk.2.of_eq rfl rfl rfl⟩
    | error e => exact hk
  · intro s s' hs hk hedit _ _
    obtain ⟨d, L, op, he, rfl⟩ := hedit.edited
    exact ⟨allAhead_edited hk.1 he, readings_edited hk.2 L op⟩
  · exact fun d s hs hk => ⟨allAhead_restart hk.1 d, hk.2.of_eq rfl rfl rfl⟩

/-- In every run that merges nothing the clock is not past: what is redundant is removed safely. -/
theorem removalSafe_of_redundant
    {c : Conf D (Request β) Request.Reply SyncError Unit (Store D β (ObjectMap β))}
    (h : ((world V (mapSite D β)).restrict ObservedFirst (fun _ _ => True)).Reach (start Table.empty) c)
    {n : ObjectName} {k : Except SyncError (Request.call (β := β) (.remove n)).Reply → Sync β Unit}
    (hrun : c.running d = some (.ask (.call (.remove n)) k)) (hred : Redundant c.store d n) :
    RemovalSafe c.store n := by
  have hkept := (readingRuns V (mapSite D β)).reach (Threads.kept_of_idle
    ⟨sound_initial mapSite_empty, allAhead_initial _, readings_initial _⟩ (fun _ => rfl)) h
  have hs := hkept.1.1
  have hreq : Requested V d (.call (.remove n)) c.store := hkept.pre hrun
  intro env henv x hx L hL
  rcases hred env henv x hx with hsnap | helse | hnothing
  · exact inEffect_of_elsewhere hs (elsewhere_of_snapshot hs hkept.1.2.2 hreq hsnap) hL
  · exact inEffect_of_elsewhere hs helse hL
  · exact inEffect_of_nothingToDelete hs hnothing hL

/-- Device `a` has written a snapshot of the one entity there is, and is about to remove what its first push stored. -/
def snapshotOfPut : TrioState :=
  trioPlay (playBurst pushedOne .a .accounts (js "x") () trio behind_pushedOne 199) [.ask .a 0 18]

theorem reach_snapshotOfPut :
    (trioWorld.restrict ObservedFirst (fun _ _ => True)).Reach (start Table.empty) snapshotOfPut := by
  have hbefore : (trioWorld.restrict ObservedFirst (fun _ _ => True)).Reach trioStart pushedOne :=
    reach_meetsMoves observedFirst_spec (E := fun _ => true) (fun _ _ _ _ => trivial) _ _ (by decide +kernel)
  have hburst : (trioWorld.restrict ObservedFirst (fun _ _ => True)).Reach pushedOne
      (playBurst pushedOne .a .accounts (js "x") () trio behind_pushedOne 199) :=
    reach_playBurst_restrict pushedOne .a .accounts (js "x") () behind_pushedOne (fun _ => trivial) 199
  exact (hbefore.trans hburst).trans
    (reach_meetsMoves observedFirst_spec (E := fun _ => true) (fun _ _ _ _ => trivial) _ _ (by decide +kernel))

theorem removalSafe_snapshotOfPut : ∃ n, removes (snapshotOfPut.running .a) = some n ∧
    RemovalSafe snapshotOfPut.store n := by
  have hname : removes (snapshotOfPut.running .a) = some (opsObjectName (js "v") ⟨0, 1, trio.deviceId .a⟩) := by
    decide +kernel
  have helse : ∀ p ∈ snapshotOfPut.store.dest.rows, p.1 = opsObjectName (js "v") ⟨0, 1, trio.deviceId .a⟩ →
      ∀ x ∈ p.2.operations, ∃ p' ∈ snapshotOfPut.store.dest.rows,
        p'.1 ≠ opsObjectName (js "v") ⟨0, 1, trio.deviceId .a⟩ ∧
          ∃ y ∈ p'.2.operations, y.target = x.target ∧ x.hlc ≤ y.hlc := by
    decide +kernel
  obtain ⟨k, hk⟩ := asks_of_removes hname
  exact ⟨_, hname, removalSafe_of_redundant reach_snapshotOfPut hk
    (fun env henv x hx => Or.inr (Or.inl (helse (_, env) (Table.mem_def.mp henv) rfl x hx)))⟩

/-! ## A tombstone that is removed -/

/-- Both devices have had an entity; device `a` has deleted it, and pushed that. -/
def pushedDelete : TrioState :=
  trioPlay trioStart [.put .a 0 .accounts (js "x") (), .begin .a, .finish .a 0, .begin .b, .finish .b 0,
    .remove .a 0 .accounts (js "x"), .begin .a, .ask .a 0 8]

theorem behind_pushedDelete : Behind (pushedDelete.store.device .a).ledger := by
  unfold Behind
  decide +kernel

/-- Device `a` has written a snapshot, and is about to remove the object of the delete. -/
def snapshotOfDelete : TrioState :=
  trioPlay (playBurst pushedDelete .a .accounts (js "y") () trio behind_pushedDelete 198) [.ask .a 0 20]

theorem reach_snapshotOfDelete :
    (trioWorld.restrict ObservedFirst (fun _ _ => True)).Reach (start Table.empty) snapshotOfDelete := by
  have hbefore : (trioWorld.restrict ObservedFirst (fun _ _ => True)).Reach trioStart pushedDelete :=
    reach_meetsMoves observedFirst_spec (E := fun _ => true) (fun _ _ _ _ => trivial) _ _ (by decide +kernel)
  have hburst : (trioWorld.restrict ObservedFirst (fun _ _ => True)).Reach pushedDelete
      (playBurst pushedDelete .a .accounts (js "y") () trio behind_pushedDelete 198) :=
    reach_playBurst_restrict pushedDelete .a .accounts (js "y") () behind_pushedDelete (fun _ => trivial) 198
  exact (hbefore.trans hburst).trans
    (reach_meetsMoves observedFirst_spec (E := fun _ => true) (fun _ _ _ _ => trivial) _ _ (by decide +kernel))

/-- What device `b` holds is a ledger of the vault. -/
theorem vaultLedger_snapshotOfDelete :
    VaultLedger snapshotOfDelete.store.ghost.authored (snapshotOfDelete.store.device .b).ledger := by
  have hkept := (aheadRuns trio (mapSite Trio Unit)).reach
    (Threads.kept_of_idle ⟨sound_initial mapSite_empty, allAhead_initial _⟩ (fun _ => rfl)) reach_snapshotOfDelete
  exact ⟨(hkept.1.1.devices .b).logged, (hkept.1.2 .b).agrees⟩

omit [DecidableEq D] in
/-- An object that a ledger of the vault shows to be needed. -/
theorem not_removalSafe {s : Store D β (ObjectMap β)} {n : ObjectName} {L : Ledger β}
    (hL : VaultLedger s.ghost.authored L)
    (h : ∃ p ∈ s.dest.rows, p.1 = n ∧ ∃ x ∈ p.2.operations,
      (∀ o ∈ (L.merge (remaining s.dest n)).1.oplog.rows, o.target = x.target → ¬ x.hlc ≤ o.hlc) ∧
      ((L.merge (remaining s.dest n)).1.rowAt x.target).isSome = true) : ¬ RemovalSafe s n := by
  intro hsafe
  obtain ⟨⟨n, env⟩, hp, rfl, x, hx, hlog, hrow⟩ := h
  rcases hsafe env hp x hx L hL with ⟨o, ho, ht, hle⟩ | ⟨hnone, -⟩
  · exact hlog o ho ht hle
  · rw [hnone] at hrow
    exact Bool.false_ne_true hrow

/-- Pruning removes a delete that a device still needs. -/
theorem exists_not_removalSafe : ∃ c n, trioWorld.Reach (start Table.empty) c ∧
    removes (c.running .a) = some n ∧ ¬ RemovalSafe c.store n :=
  ⟨snapshotOfDelete, opsObjectName (js "v") ⟨0, 2, trio.deviceId .a⟩, reach_snapshotOfDelete.of_restrict,
    by decide +kernel, not_removalSafe vaultLedger_snapshotOfDelete (by decide +kernel)⟩

end EasyDocket
