import EasyDocket.Sync.Agreement

/-!
# What a snapshot says

A snapshot is made of rows, and read table by table while the user may go on editing.  As long as log and tables agree,
it has a row for every entity whose newest operation, in the log of the time its table was read, was a put.
-/

namespace EasyDocket

variable {D β S : Type} [DecidableEq D] {V : Vault D} {site : Site D β S} {d : D}

/-- What holds of the ledgers that tables were read from, and of the snapshots made of them. -/
structure Readings (s : Store D β S) : Prop where
  logged : ∀ d e, ∀ o ∈ (s.ghost.readAt d e).oplog, Authored s.ghost.authored o.toOperation
  agrees : ∀ d e t, (s.ghost.readAt d e).AgreesAt t
  snapshots : ∀ ops R, (ops, R) ∈ s.ghost.snapshots → ∀ e o, (R e).Newest o → o.entity = e → o.op = .put →
    ∃ p ∈ ops, p.target = o.target ∧ p.hlc = o.hlc

omit [DecidableEq D] in
/-- A table has a row for each of its entities whose newest operation is a put. -/
theorem row_of_newest {A : Set (Operation β)} (hA : Writes V A) {L : Ledger β}
    (hlog : ∀ o ∈ L.oplog, Authored A o.toOperation) {o : LocalOperation β} (hag : L.AgreesAt o.target)
    (hnew : L.Newest o) (hput : o.op = .put) :
    ∃ r ∈ L.tables o.entity, r.id = o.entityId ∧ r.updatedAt = o.hlc := by
  obtain ⟨r, hr, -⟩ := hA.carries_of (hlog o hnew.1) hput
  have hrow : o.row = some r := (Operation.row_put hput).trans hr
  have hat : L.rowAt o.target = some r := (hag.1 o hnew rfl).trans hrow
  obtain ⟨hmem, hid⟩ := mem_of_rowAt hat
  exact ⟨r, hmem, hid, hA.stamped_of (hlog o hnew.1) r hrow⟩

omit [DecidableEq D] in
/-- A snapshot made of the tables as they were read has a row for each of these entities. -/
theorem Snapshotted.covers {s : Store D β S} {n : ObjectName} {env : Envelope β} {value : LedgerSnapshot β}
    (hs : Sound V site s) (hr : Readings s) (h : Snapshotted V d n env value s) {e : EntityName}
    {o : LocalOperation β} (hnew : (s.ghost.readAt d e).Newest o) (he : o.entity = e) (hput : o.op = .put) :
    ∃ p ∈ env.operations, p.target = o.target ∧ p.hlc = o.hlc := by
  subst he
  obtain ⟨r, hmem, hid, hstamp⟩ := row_of_newest hs.writes (hr.logged d _) (hr.agrees d _ _) hnew hput
  refine ⟨rowOperation value.device o.entity r, ?_, ?_, hstamp⟩
  · rw [h.object.operations]
    exact LedgerSnapshot.mem_operations.mpr ⟨o.entity, r, by rw [h.tables]; exact hmem, rfl⟩
  · show (o.entity, r.id) = (o.entity, o.entityId)
    rw [hid]

theorem Readings.afterCall {s : Store D β S} (hs : Sound V site s) (hr : Readings s) {c : Call β}
    (hreq : Requested V d (.call c) s) (dest : S) : Readings (s.afterCall site d c dest) := by
  have hold : ∀ g : Ghost D β, g.authored = s.ghost.authored → g.readAt = s.ghost.readAt →
      (∀ p ∈ g.snapshots, p ∈ s.ghost.snapshots ∨ ∃ n env, n.kind = .snapshot ∧ c = .put n env ∧
        p = (env.operations, s.ghost.readAt d)) →
      Readings { s with dest := dest, ghost := g } := by
    intro g ha hra hsn
    refine ⟨fun d' e o ho => ?_, fun d' e t => ?_, fun ops R hR e o hnew he hput => ?_⟩
    · show Authored g.authored _
      rw [ha]
      refine hr.logged d' e o ?_
      rw [← hra]
      exact ho
    · show (g.readAt d' e).AgreesAt t
      rw [hra]
      exact hr.agrees d' e t
    · rcases hsn _ hR with hR | ⟨n, env, hk, rfl, heq⟩
      · exact hr.snapshots ops R hR e o hnew he hput
      · obtain ⟨rfl, rfl⟩ := Prod.mk.inj heq
        rcases hreq with ⟨slice, -, hobj⟩ | ⟨value, hsnap⟩
        · exact absurd (hk.symm.trans hobj.kind) (by decide)
        · exact hsnap.covers hs hr hnew he hput
  refine hold _ rfl rfl (fun p hp => ?_)
  cases c with
  | put n env =>
    obtain ⟨v, k, w⟩ := n
    cases k with
    | ops => exact Or.inl hp
    | snapshot =>
      rcases hp with rfl | hp
      · exact Or.inr ⟨_, env, rfl, rfl, rfl⟩
      · exact Or.inl hp
  | _ => exact Or.inl hp

theorem Readings.afterQuery {s : Store D β S} (hs : Sound V site s) (ha : AllAhead s) (hr : Readings s) (q : Query β)
    (dev : Device β) : Readings (s.afterQuery d q dev) := by
  have hread : ∀ d' e, (s.afterQuery d q dev).ghost.readAt d' e = s.ghost.readAt d' e ∨
      d' = d ∧ (s.afterQuery d q dev).ghost.readAt d' e = (s.device d).ledger := by
    intro d' e
    by_cases hd : d' = d
    · subst hd
      cases q with
      | readTable e' =>
        show Function.update s.ghost.readAt d' _ d' e = _ ∨ _ ∧ Function.update s.ghost.readAt d' _ d' e = _
        rw [Function.update_self]
        by_cases he : e = e'
        · subst he
          exact Or.inr ⟨rfl, Function.update_self ..⟩
        · exact Or.inl (Function.update_of_ne he _ _)
      | _ => exact Or.inl rfl
    · exact Or.inl (congrFun (s.ghost.queried_readAt_ne hd q _) e)
  refine ⟨fun d' e o ho => ?_, fun d' e t => ?_, hr.snapshots⟩
  · rcases hread d' e with h | ⟨rfl, h⟩
    · rw [h] at ho
      exact hr.logged d' e o ho
    · rw [h] at ho
      exact (hs.devices d').logged o ho
  · rcases hread d' e with h | ⟨rfl, h⟩
    · rw [h]
      exact hr.agrees d' e t
    · rw [h]
      exact (ha d').agrees t

/-- The step lemma: a request. -/
theorem readings_served {s s' : Store D β S} (hs : Sound V site s) (ha : AllAhead s) (hr : Readings s)
    {q : Request β} {r : Except SyncError q.Reply} (hreq : Requested V d q s) (h : Served site d q s r s') :
    Readings s' := by
  rcases h with ⟨wall, coin, h⟩ | h
  · cases q with
    | call c =>
      obtain ⟨-, rfl⟩ := Prod.mk.inj h
      exact hr.afterCall hs hreq _
    | query q =>
      obtain ⟨-, rfl⟩ := Prod.mk.inj h
      exact hr.afterQuery hs ha q _
  · cases h
    exact hr.afterCall hs hreq _

/-- The step lemma: a local edit. -/
theorem readings_edited {s : Store D β S} (hr : Readings s) (L : Ledger β) (op : Operation β) :
    Readings (s.afterEdit d L op) :=
  ⟨fun d' e o ho => (hr.logged d' e o ho).mono (fun _ hx => Set.mem_insert_of_mem _ hx), hr.agrees, hr.snapshots⟩

omit [DecidableEq D] in
/-- A step that leaves the readings alone. -/
theorem Readings.of_eq {s s' : Store D β S} (hr : Readings s) (ha : s'.ghost.authored = s.ghost.authored)
    (hra : s'.ghost.readAt = s.ghost.readAt) (hsn : s'.ghost.snapshots = s.ghost.snapshots) : Readings s' :=
  ⟨by rw [ha, hra]; exact hr.logged, by rw [hra]; exact hr.agrees, by rw [hsn]; exact hr.snapshots⟩

omit [DecidableEq D] in
theorem readings_initial (dest : S) : Readings (Store.initial dest : Store D β S) := by
  refine ⟨fun d e o ho => absurd ho (Table.not_mem_empty o), fun d e t => ?_, fun _ _ h => h.elim⟩
  exact (allAhead_initial dest d).agrees t

end EasyDocket
