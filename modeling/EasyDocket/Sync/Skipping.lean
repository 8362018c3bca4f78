import EasyDocket.Sync.Readings

/-!
# Skipped objects

`pull` records an object of operations as applied without downloading it if its name is covered by the watermark of the
snapshot it has just applied.  That is sound exactly as far as the device that wrote the snapshot had merged the
object, and as far as what it deletes is not there.
-/

namespace EasyDocket

variable {D β S : Type} [DecidableEq D] {V : Vault D} {site : Site D β S} {d : D}

/-- The log has the operation or a newer one on its entity, or the table shows what merging it would leave. -/
def Shown (L : Ledger β) (x : Operation β) : Prop := L.Dominates x.target x.hlc ∨ L.rowAt x.target = x.row

/-- Every operation of every object of operations a device has recorded is shown there. -/
def RecordedShown (s : Store D β S) : Prop :=
  ∀ d, ∀ n ∈ (s.device d).remoteObjects, n.kind = .ops → ∀ env, (n, env) ∈ s.ghost.stored → ∀ x ∈ env.operations,
    Shown (s.device d).ledger x

/-! ## The condition -/

/-- `x` is a delete in an object a device has recorded. -/
def RecordedDelete (s : Store D β S) (d : D) (x : Operation β) : Prop :=
  x.op = .delete ∧ ∃ n ∈ (s.device d).remoteObjects, n.kind = .ops ∧ ∃ env, (n, env) ∈ s.ghost.stored ∧
    x ∈ env.operations

/-- The device that wrote the snapshot just applied had merged `x` when it read the table, and the newest operation it
had on the entity was a put, or `x` deletes an entity this device does not have; or this device knows `x` anyway. -/
def Contained (s : Store D β S) (d : D) (x : Operation β) : Prop :=
  (s.device d).ledger.Dominates x.target x.hlc ∨
  ∃ R o, (s.ghost.lastMerge d, R) ∈ s.ghost.snapshots ∧ (R x.entity).Newest o ∧ o.target = x.target ∧ x.hlc ≤ o.hlc ∧
    (o.op = .put ∨ x.op = .delete ∧ (s.device d).ledger.rowAt x.target = none)

/-- The condition on requests. -/
structure SkipsContained (d : D) (q : Request β) (s s' : Store D β S) : Prop where
  observed : ObservedFirst d q s s'
  /-- An object is skipped only if the snapshot contains it. -/
  covered : ∀ names, q = .query (.record .covered names) → ∀ n ∈ names, ∀ env, (n, env) ∈ s.ghost.stored →
    ∀ x ∈ env.operations, Contained s d x
  /-- A put older than a recorded delete is merged only where the delete is known. -/
  merged : ∀ ops, q = .query (.merge ops) → ∀ p ∈ ops, p.op = .put → ∀ x, RecordedDelete s d x →
    x.target = p.target → p.hlc < x.hlc →
    (s.device d).ledger.Dominates x.target x.hlc ∨ ∃ p' ∈ ops, p'.target = x.target ∧ x.hlc ≤ p'.hlc

/-- The condition on edits: a put is stamped past the deletes its device has recorded. -/
def EditsPast (V : Vault D) (s s' : Store D β S) : Prop :=
  ∀ d, ∀ p ∈ s'.ghost.authored, p ∉ s.ghost.authored → p.device = V.deviceId d → p.op = .put →
    ∀ x, RecordedDelete s d x → x.target = p.target → x.hlc < p.hlc

/-! ## The invariant -/

/-- A recorded operation is known, or it is a delete and there is nothing to delete. -/
def Settled (L : Ledger β) (x : Operation β) : Prop :=
  L.Dominates x.target x.hlc ∨ x.op = .delete ∧ L.rowAt x.target = none

def RecordedSettled (s : Store D β S) : Prop :=
  ∀ d, ∀ n ∈ (s.device d).remoteObjects, n.kind = .ops → ∀ env, (n, env) ∈ s.ghost.stored → ∀ x ∈ env.operations,
    Settled (s.device d).ledger x

theorem Settled.shown {L : Ledger β} {x : Operation β} (h : Settled L x) : Shown L x := by
  rcases h with h | ⟨hdel, hrow⟩
  · exact Or.inl h
  · exact Or.inr (hrow.trans (Operation.row_delete hdel).symm)

theorem Settled.mono {L L' : Ledger β} {x : Operation β} (h : Settled L x)
    (hlog : L.Dominates x.target x.hlc → L'.Dominates x.target x.hlc) (hrow : L'.rowAt x.target = L.rowAt x.target) :
    Settled L' x :=
  h.imp hlog (fun h => ⟨h.1, hrow.trans h.2⟩)

omit [DecidableEq D] in
/-- The object stored under a recorded name is the one that was recorded. -/
theorem operations_of_stored {s s' : Store D β S} (hs : Sound V site s) (hs' : Sound V site s')
    (hstored : ∀ p ∈ s.ghost.stored, p ∈ s'.ghost.stored) {d : D} {n : ObjectName} (hn : n ∈ (s.device d).remoteObjects)
    (hk : n.kind = .ops) {env : Envelope β} (henv : (n, env) ∈ s'.ghost.stored) :
    ∃ env', (n, env') ∈ s.ghost.stored ∧ env'.operations = env.operations := by
  obtain ⟨env', henv'⟩ := hs.recorded d n hn
  exact ⟨env', henv', hs'.same n env' env (hstored _ henv') henv hk⟩

/-- What has to be checked when only the ledger and the names of one device change. -/
theorem recordedSettled_update {s s' : Store D β S} (hs : Sound V site s) (hs' : Sound V site s')
    (h : RecordedSettled s) (hstored : ∀ p ∈ s.ghost.stored, p ∈ s'.ghost.stored) (d : D)
    (hne : ∀ d', d' ≠ d → s'.device d' = s.device d')
    (hold : ∀ n ∈ (s.device d).remoteObjects, n.kind = .ops → ∀ env, (n, env) ∈ s.ghost.stored →
      ∀ x ∈ env.operations, Settled (s.device d).ledger x → Settled (s'.device d).ledger x)
    (hnew : ∀ n ∈ (s'.device d).remoteObjects, n ∉ (s.device d).remoteObjects → n.kind = .ops →
      ∀ env, (n, env) ∈ s'.ghost.stored → ∀ x ∈ env.operations, Settled (s'.device d).ledger x) :
    RecordedSettled s' := by
  intro d' n hn hk env henv x hx
  by_cases hd : d' = d
  · subst hd
    by_cases hmem : n ∈ (s.device d').remoteObjects
    · obtain ⟨env', henv', hops⟩ := operations_of_stored hs hs' hstored hmem hk henv
      rw [← hops] at hx
      exact hold n hmem hk env' henv' x hx (h d' n hmem hk env' henv' x hx)
    · exact hnew n hn hmem hk env henv x hx
  · rw [hne d' hd] at hn ⊢
    obtain ⟨env', henv', hops⟩ := operations_of_stored hs hs' hstored hn hk henv
    rw [← hops] at hx
    exact h d' n hn hk env' henv' x hx

omit [DecidableEq D] in
/-- What a snapshot contains is settled once the snapshot is known. -/
theorem settled_of_contained {s : Store D β S} (hr : Readings s) {x : Operation β}
    (hknown : Known (s.device d).ledger (s.ghost.lastMerge d)) (h : Contained s d x) :
    Settled (s.device d).ledger x := by
  rcases h with h | ⟨R, o, hR, hnew, ht, hle, hput | hdel⟩
  · exact Or.inl h
  · obtain ⟨p, hp, hpt, hps⟩ := hr.snapshots _ R hR x.entity o hnew (congrArg Prod.fst ht) hput
    have hdom := hknown p hp
    rw [hpt, hps, ht] at hdom
    exact Or.inl (hdom.of_le hle)
  · exact Or.inr hdel

theorem settled_of_merge {L L' : Ledger β} {ops : List (Operation β)} (hm : Ledger.Merged ops L L')
    {x : Operation β} (h : Settled L x)
    (hcond : ∀ p ∈ ops, p.op = .put → x.op = .delete → x.target = p.target → p.hlc < x.hlc →
      L.Dominates x.target x.hlc ∨ ∃ p' ∈ ops, p'.target = x.target ∧ x.hlc ≤ p'.hlc) : Settled L' x := by
  rcases h with h | ⟨hdel, hrow⟩
  · exact Or.inl (h.mono hm.kept)
  rcases hm.rows x.target with ⟨hr, -⟩ | ⟨o, hnew, ht, hop, -, hr⟩
  · exact Or.inr ⟨hdel, hr.trans hrow⟩
  cases ho : o.op with
  | delete => exact Or.inr ⟨hdel, hr.trans (Operation.row_delete ho)⟩
  | put =>
    -- a put has taken effect: it is newer than the delete, or something newer was merged with it
    rcases le_or_gt x.hlc o.hlc with hle | hlt
    · exact Or.inl ⟨o, hnew.1, ht, hle⟩
    · rcases hcond o.toOperation hop ho hdel ht.symm hlt with hd | ⟨p', hp', hpt, hle⟩
      · exact Or.inl (hd.mono hm.kept)
      · have hdom := hm.dominates p' hp'
        rw [hpt] at hdom
        exact Or.inl (hdom.of_le hle)

/-- The step lemma: a request. -/
theorem recordedSettled_served {s s' : Store D β S} (hs : Sound V site s) (hr : Readings s) (h : RecordedSettled s)
    {q : Request β} {r : Except SyncError q.Reply} (hreq : Requested V d q s) (hserved : Served site d q s r s')
    (hcond : SkipsContained d q s s') (hs' : Sound V site s') : RecordedSettled s' := by
  rcases hserved with ⟨wall, coin, heq⟩ | hmis
  · cases q with
    | call c =>
      obtain ⟨-, rfl⟩ := Prod.mk.inj heq
      exact recordedSettled_update hs hs' h (fun p hp => Or.inl hp) d (fun _ _ => rfl)
        (fun _ _ _ _ _ _ _ hx => hx) (fun n hn hnot => absurd hn hnot)
    | query q =>
      obtain ⟨-, rfl⟩ := Prod.mk.inj heq
      have hupdate := recordedSettled_update hs hs' h
        (fun p hp => hp) d (fun d' hd => afterQuery_ne hd)
      rw [afterQuery_device] at hupdate
      cases q with
      | record reason names =>
        refine hupdate (fun _ _ _ _ _ _ _ hx => hx) (fun n hn hnot hk env henv x hx => ?_)
        have hmem : n ∈ names := by
          rcases Finset.mem_union.mp hn with hn | hn
          · exact absurd hn hnot
          · exact List.mem_toFinset.mp hn
        obtain ⟨env', henv', hrec⟩ := hreq n hmem
        have hops : env'.operations = env.operations := hs.same n env' env henv' henv hk
        cases reason with
        | covered => exact settled_of_contained hr hrec.2 (hcond.covered names rfl n hmem env henv x hx)
        | applied => exact Or.inl (hrec.2 x (hops ▸ hx))
        | pushed => exact Or.inl (hrec hk x (hops ▸ hx))
        | snapshot => exact absurd (hk.symm.trans hrec.1) (by decide)
      | forget name =>
        exact hupdate (fun _ _ _ _ _ _ _ hx => hx) (fun n hn hnot => absurd (Finset.mem_of_mem_erase hn) hnot)
      | merge ops =>
        refine hupdate (fun n hn hk env henv x hx hset => ?_) (fun n hn hnot => absurd hn hnot)
        refine settled_of_merge (merged_of_mergeable hs (Mergeable.authored hreq)) hset (fun p hp hput hdel ht hlt => ?_)
        exact hcond.merged ops rfl p hp hput x ⟨hdel, n, hn, hk, env, henv, hx⟩ ht hlt
      | markSynced stamps =>
        refine hupdate (fun n hn hk env henv x hx hset => ?_) (fun n hn hnot => absurd hn hnot)
        refine hset.mono (fun ⟨o, ho, ht, hle⟩ => ⟨_, Ledger.mem_markSynced.mpr ⟨o, ho, rfl⟩, ht, hle⟩) ?_
        show Ledger.rowAt (Ledger.markSynced _ _) _ = _
        unfold Ledger.rowAt
        rw [Ledger.markSynced_tables]
      | _ => exact hupdate (fun _ _ _ _ _ _ _ hx => hx) (fun n hn hnot => absurd hn hnot)
  · cases hmis
    exact recordedSettled_update hs hs' h (fun p hp => Or.inl hp) d (fun _ _ => rfl)
      (fun _ _ _ _ _ _ _ hx => hx) (fun n hn hnot => absurd hn hnot)

/-- The step lemma: a local edit. -/
theorem recordedSettled_edited {s : Store D β S} (hs : Sound V site s) (h : RecordedSettled s) {L : Ledger β}
    {op : Operation β} (he : Ledger.Edited (V.deviceId d) (s.device d).ledger L op)
    (hcond : EditsPast V s (s.afterEdit d L op)) : RecordedSettled (s.afterEdit d L op) := by
  refine recordedSettled_update hs (sound_edited hs he) h (fun p hp => hp) d (fun d' hd => afterEdit_ne hd) ?_ ?_
  · intro n hn hk env henv x hx hset
    rw [afterEdit_device]
    show Settled L x
    have hself : L.Dominates op.target op.hlc := ⟨⟨op, false⟩, (mem_oplog_of_edited he).mpr (Or.inl rfl), rfl, le_refl _⟩
    rcases hset with hdom | ⟨hdel, hrow⟩
    · obtain ⟨o, ho, ht, hle⟩ := hdom
      exact Or.inl ⟨o, kept_of_edited hs he ho, ht, hle⟩
    by_cases ht : x.target = op.target
    · cases hop : op.op with
      | delete => exact Or.inr ⟨hdel, by rw [he.rows, if_pos ht, Operation.row_delete hop]⟩
      | put =>
        have hfresh : op ∉ s.ghost.authored := fun hmem => hlc_ne_of_edited hs he op hmem rfl
        have hlt := hcond d op (Set.mem_insert op _) hfresh he.author hop x ⟨hdel, n, hn, hk, env, henv, hx⟩ ht
        rw [← ht] at hself
        exact Or.inl (hself.of_le hlt.le)
    · exact Or.inr ⟨hdel, by rw [he.rows, if_neg ht, hrow]⟩
  · intro n hn hnot
    rw [afterEdit_device] at hn
    exact absurd hn hnot

/-- The step lemma: a restart. -/
theorem recordedSettled_restart {s : Store D β S} (hs : Sound V site s) (h : RecordedSettled s) (d : D) :
    RecordedSettled (restart d s) := by
  refine recordedSettled_update hs (sound_restart hs d) h (fun p hp => hp) d (fun d' hd => restart_ne hd) ?_ ?_
  · intro n hn hk env henv x hx hset
    rw [restart_device]
    exact hset
  · intro n hn hnot
    rw [restart_device] at hn
    exact absurd hn hnot

theorem settledRuns (V : Vault D) (site : Site D β S) :
    Threads.Sound ((world V site).restrict SkipsContained (EditsPast V))
      (fun s => Sound V site s ∧ AllAhead s ∧ Readings s ∧ RecordedSettled s)
      (fun d => protocol V d site) (fun _ _ _ => True) := by
  refine (soundRuns V site).strengthen ?_ ?_ ?_ ?_ ?_
  · exact fun d s _ hk => ⟨hk.1, hk.2.1.of_eq rfl rfl rfl, hk.2.2⟩
  · exact fun d q s r s' hs hk hreq hserved hcond hs' => ⟨allAhead_served hs hk.1 hreq hserved hcond.observed,
      readings_served hs hk.1 hk.2.1 hreq hserved, recordedSettled_served hs hk.2.1 hk.2.2 hreq hserved hcond hs'⟩
  · intro d r s _ hk
    cases r with
    | ok a => exact ⟨hk.1, hk.2.1.of_eq rfl rfl rfl, hk.2.2⟩
    | error e => exact hk
  · intro s s' hs hk hedit hcond _
    obtain ⟨d, L, op, he, rfl⟩ := hedit.edited
    exact ⟨allAhead_edited hk.1 he, readings_edited hk.2.1 L op, recordedSettled_edited hs hk.2.2 he hcond⟩
  · exact fun d s hs hk => ⟨allAhead_restart hk.1 d, hk.2.1.of_eq rfl rfl rfl, recordedSettled_restart hs hk.2.2 d⟩

/-- In every run that skips only what the snapshot contains, everything recorded is shown. -/
theorem recordedShown_of_skipsContained {dest : S} (hdest : site.holds dest = ∅)
    {c : Conf D (Request β) Request.Reply SyncError Unit (Store D β S)}
    (h : ((world V site).restrict SkipsContained (EditsPast V)).Reach (start dest) c) : RecordedShown c.store := by
  have hkept := (settledRuns V site).reach (Threads.kept_of_idle ⟨sound_initial hdest, allAhead_initial dest,
    readings_initial dest, fun d n hn => absurd hn (Finset.notMem_empty n)⟩ (fun _ => rfl)) h
  exact fun d n hn hk env henv x hx => (hkept.1.2.2.2 d n hn hk env henv x hx).shown

/-! ## Runs in which a device knows what it skips -/

section Known

variable {s s' : Store D β (ObjectMap β)}

/-- The operations of the object that is stored under a name. -/
def operationsAt (s : Store D β (ObjectMap β)) (n : ObjectName) : List (Operation β) :=
  (s.dest.get? n).elim [] (fun p => p.2.operations)

/-- An object of operations that is there. -/
def IsThere (s : Store D β (ObjectMap β)) (n : ObjectName) : Prop := n.kind = .ops ∧ (s.dest.get? n).isSome = true

/-- What is skipped is known to the device, and so are the deletes it has recorded when it merges. -/
structure SkipsKnown (d : D) (q : Request β) (s s' : Store D β (ObjectMap β)) : Prop where
  observed : ObservedFirst d q s s'
  covered : ∀ names, q = .query (.record .covered names) → ∀ n ∈ names, IsThere s n ∧
    ∀ x ∈ operationsAt s n, (s.device d).ledger.Dominates x.target x.hlc
  merged : ∀ ops, q = .query (.merge ops) → ∀ n ∈ (s.device d).remoteObjects, n.kind = .ops → IsThere s n ∧
    ∀ x ∈ operationsAt s n, x.op = .delete → (s.device d).ledger.Dominates x.target x.hlc

/-- The recorded objects of a device are there, and a put is stamped past their deletes. -/
def PutsPast (V : Vault D) (s s' : Store D β (ObjectMap β)) : Prop :=
  ∀ d, ∀ p ∈ s'.ghost.authored, p ∉ s.ghost.authored → p.device = V.deviceId d → p.op = .put →
    ∀ n ∈ (s.device d).remoteObjects, n.kind = .ops → IsThere s n ∧
      ∀ x ∈ operationsAt s n, x.op = .delete → x.target = p.target → x.hlc < p.hlc

omit [DecidableEq D] in
/-- What was stored under the name of an object that is there. -/
theorem mem_operationsAt (hs : Sound V (mapSite D β) s) {n : ObjectName} (hn : IsThere s n) {env : Envelope β}
    (henv : (n, env) ∈ s.ghost.stored) {x : Operation β} (hx : x ∈ env.operations) : x ∈ operationsAt s n := by
  obtain ⟨p, hp⟩ := Option.isSome_iff_exists.mp hn.2
  obtain ⟨hmem, rfl⟩ := Table.get?_eq_some.mp hp
  unfold operationsAt
  rw [hp]
  show x ∈ p.2.operations
  rwa [← hs.same _ env p.2 henv (hs.held hmem) hn.1]

omit [DecidableEq D] in
theorem SkipsKnown.contained (hs : Sound V (mapSite D β) s) {q : Request β} (h : SkipsKnown d q s s') :
    SkipsContained d q s s' where
  observed := h.observed
  covered := by
    intro names hq n hn env henv x hx
    obtain ⟨hthere, hknown⟩ := h.covered names hq n hn
    exact Or.inl (hknown x (mem_operationsAt hs hthere henv hx))
  merged := by
    rintro ops hq p - - x ⟨hdel, n, hn, hk, env, henv, hx⟩ - -
    obtain ⟨hthere, hknown⟩ := h.merged ops hq n hn hk
    exact Or.inl (hknown x (mem_operationsAt hs hthere henv hx) hdel)

omit [DecidableEq D] in
theorem PutsPast.editsPast (hs : Sound V (mapSite D β) s) (h : PutsPast V s s') : EditsPast V s s' := by
  rintro d p hp hnew hdevice hput x ⟨hdel, n, hn, hk, env, henv, hx⟩ ht
  obtain ⟨hthere, hpast⟩ := h d p hp hnew hdevice hput n hn hk
  exact hpast x (mem_operationsAt hs hthere henv hx) hdel ht

/-- Runs in which devices know what they skip skip only what is contained; by induction on the run. -/
theorem reach_skipsContained {c : State D β (ObjectMap β)}
    (h : ((world V (mapSite D β)).restrict SkipsKnown (PutsPast V)).Reach (start Table.empty) c) :
    ((world V (mapSite D β)).restrict SkipsContained (EditsPast V)).Reach (start Table.empty) c := by
  induction h with
  | refl => exact Relation.ReflTransGen.refl
  | tail hreach hstep ih =>
    have hs := ((soundRuns V (mapSite D β)).reach (Threads.kept_of_idle (sound_initial mapSite_empty) (fun _ => rfl))
      (Threads.Reach.of_restrict hreach)).1
    refine ih.tail ?_
    cases hstep with
    | enter d h => exact Threads.Step.enter _ d h
    | ask d q k r s h hserved => exact Threads.Step.ask _ d q k r s h ⟨hserved.1, hserved.2.contained hs⟩
    | done d a h => exact Threads.Step.done _ d a h
    | failed d e h => exact Threads.Step.failed _ d e h
    | env s h => exact Threads.Step.env _ s ⟨h.1, h.2.editsPast hs⟩
    | crash d => exact Threads.Step.crash _ d

/-- An edit is stamped past what the clock of its device is past. -/
theorem putsPast_of_edit (hedit : Edit V s s') (h : ∀ d, ∀ n ∈ (s.device d).remoteObjects, n.kind = .ops → IsThere s n ∧
    ∀ x ∈ operationsAt s n, x.op = .delete → (s.device d).ledger.clock.Past x.hlc) : PutsPast V s s' := by
  obtain ⟨d', L, op, he, rfl⟩ := hedit.edited
  intro d p hp hnew hdevice hput n hn hk
  obtain ⟨hthere, hpast⟩ := h d n hn hk
  refine ⟨hthere, fun x hx hdel _ => ?_⟩
  rcases hp with rfl | hp
  · obtain rfl : d' = d := V.distinct (he.author.symm.trans hdevice)
    rw [he.stamp]
    exact Stamp.lt_of_time_lt (lt_of_le_of_lt (hpast x hx hdel) he.time)
  · exact absurd hp hnew

end Known

/-! ### Checks of a script -/

instance {L : Ledger β} {t : EntityName × JsString} {s : Stamp} : Decidable (L.Dominates t s) :=
  decidable_of_iff (∃ o ∈ L.oplog.rows, o.target = t ∧ s ≤ o.hlc) Iff.rfl

instance {s : Store D β (ObjectMap β)} {n : ObjectName} : Decidable (IsThere s n) :=
  inferInstanceAs (Decidable (n.kind = .ops ∧ (s.dest.get? n).isSome = true))

/-- Whether a device knows what it skips. -/
def skipsKnown (d : D) (q : Request β) (s s' : Store D β (ObjectMap β)) : Bool :=
  match q with
  | .query (.record .covered names) => names.all (fun n => decide (IsThere s n) &&
      (operationsAt s n).all (fun x => (s.device d).ledger.Dominates x.target x.hlc))
  | .query (.merge _) => observedFirst d q s s' && decide (∀ n ∈ (s.device d).remoteObjects, n.kind = .ops → IsThere s n ∧
      ∀ x ∈ operationsAt s n, x.op = .delete → (s.device d).ledger.Dominates x.target x.hlc)
  | _ => true

omit [DecidableEq D] in
theorem skipsKnown_spec (d : D) (q : Request β) (s s' : Store D β (ObjectMap β)) (h : skipsKnown d q s s' = true) :
    SkipsKnown d q s s' := by
  refine ⟨?_, ?_, ?_⟩
  · rintro ops rfl
    exact observedFirst_spec d _ s s' (Bool.and_eq_true_iff.mp h).1 ops rfl
  · rintro names rfl n hn
    obtain ⟨hthere, hall⟩ := Bool.and_eq_true_iff.mp (List.all_eq_true.mp h n hn)
    exact ⟨of_decide_eq_true hthere, fun x hx => of_decide_eq_true (List.all_eq_true.mp hall x hx)⟩
  · rintro ops rfl
    exact of_decide_eq_true (Bool.and_eq_true_iff.mp h).2

/-- Whether the clocks of the devices of `trio` are past what deletes they have recorded. -/
def clocksPast (s : Store Trio Unit (ObjectMap Unit)) : Bool :=
  decide (∀ d ∈ [Trio.a, .b, .c], ∀ n ∈ (s.device d).remoteObjects, n.kind = .ops → IsThere s n ∧
    ∀ x ∈ operationsAt s n, x.op = .delete → (s.device d).ledger.clock.Past x.hlc)

theorem clocksPast_spec (s s' : Store Trio Unit (ObjectMap Unit)) (h : clocksPast s = true) (hedit : Edit trio s s') :
    PutsPast trio s s' :=
  putsPast_of_edit hedit (fun d => of_decide_eq_true h d (by cases d <;> decide))

/-! ### A run -/

/-- Device `b` has pushed a put and a delete; device `a` has pulled them, and pushed two puts. -/
def pushedBoth : TrioState :=
  trioPlay trioStart [.put .b 1 .accounts (js "z") (), .remove .b 2 .accounts (js "y"), .begin .b, .finish .b 2,
    .put .a 0 .accounts (js "y") (), .put .a 0 .accounts (js "x") (), .begin .a, .ask .a 0 12]

theorem behind_pushedBoth : Behind (pushedBoth.store.device .a).ledger := by
  unfold Behind
  decide +kernel

/-- Device `a` has written a snapshot, and removed nothing yet. -/
def snapshotOfBoth : TrioState :=
  trioPlay (playBurst pushedBoth .a .accounts (js "x") () trio behind_pushedBoth 199) [.ask .a 0 18]

/-- Device `c`, which has removed an entity without syncing, has skipped the objects that the snapshot covers, and put the
entity again; all that was then pulled by device `b`. -/
def skippedBoth : TrioState :=
  trioPlay snapshotOfBoth [.remove .c 250 .accounts (js "y"), .begin .c, .finish .c 251, .put .c 300 .accounts (js "y") (),
    .begin .c, .finish .c 301, .begin .b, .finish .b 302]

theorem reach_skippedBoth : (trioWorld.restrict SkipsKnown (PutsPast trio)).Reach (start Table.empty) skippedBoth := by
  have hbefore : (trioWorld.restrict SkipsKnown (PutsPast trio)).Reach trioStart pushedBoth :=
    reach_meetsMoves skipsKnown_spec clocksPast_spec _ _ (by decide +kernel)
  have hburst : (trioWorld.restrict SkipsKnown (PutsPast trio)).Reach pushedBoth
      (playBurst pushedBoth .a .accounts (js "x") () trio behind_pushedBoth 199) := by
    have hrecorded : ∀ k ∈ (pushedBoth.store.device .a).remoteObjects, k.kind = .ops → IsThere pushedBoth.store k ∧
        ∀ x ∈ operationsAt pushedBoth.store k, x.op = .delete → x.entityId ≠ js "x" := by
      decide +kernel
    refine reach_playBurst_restrict pushedBoth .a .accounts (js "x") () behind_pushedBoth (fun n => ?_) 199
    intro d p hp hnew hdevice hput k hk hkind
    rcases hp with rfl | hp
    · obtain rfl : Trio.a = d := trio.distinct hdevice
      have hself : ((playBurst pushedBoth .a .accounts (js "x") () trio behind_pushedBoth n).store.device .a).remoteObjects =
          (pushedBoth.store.device .a).remoteObjects := by
        unfold playBurst Store.withDevice
        dsimp only
        rw [Function.update_self]
      rw [hself] at hk
      obtain ⟨hthere, hother⟩ := hrecorded k hk hkind
      exact ⟨hthere, fun x hx hdel ht => absurd (congrArg Prod.snd ht) (hother x hx hdel)⟩
    · exact absurd hp hnew
  exact (hbefore.trans hburst).trans
    ((reach_meetsMoves skipsKnown_spec clocksPast_spec _ _ (by decide +kernel)).trans
      (reach_meetsMoves skipsKnown_spec clocksPast_spec _ _ (by decide +kernel)))

/-- Device `c` has recorded the objects of devices `a` and `b` without downloading them. -/
theorem recordedShown_skippedBoth : RecordedShown skippedBoth.store ∧
    (opsObjectName (js "v") ⟨2, 0, trio.deviceId .b⟩ ∈ (skippedBoth.store.device .c).remoteObjects ∧
      ∃ x ∈ operationsAt skippedBoth.store (opsObjectName (js "v") ⟨2, 0, trio.deviceId .b⟩), x.op = .delete) :=
  ⟨recordedShown_of_skipsContained mapSite_empty (reach_skipsContained reach_skippedBoth), by decide +kernel⟩

/-! ## An object that is pushed late -/

/-- Device `b` has edited without syncing; device `a` has pushed one operation. -/
def pushedOneOfTwo : TrioState :=
  trioPlay trioStart [.put .b 0 .accounts (js "z") (), .put .a 0 .accounts (js "x") (), .begin .a, .ask .a 0 8]

theorem behind_pushedOneOfTwo : Behind (pushedOneOfTwo.store.device .a).ledger := by
  unfold Behind
  decide +kernel

/-- Device `a` has written a snapshot, device `b` has pushed after that, and device `c` has pulled. -/
def pushedLate : TrioState :=
  trioPlay (playBurst pushedOneOfTwo .a .accounts (js "x") () trio behind_pushedOneOfTwo 199)
    [.finish .a 0, .begin .b, .finish .b 0, .begin .c, .finish .c 0]

theorem reach_pushedLate : trioWorld.Reach (start Table.empty) pushedLate := by
  have hburst : trioWorld.Reach pushedOneOfTwo
      (playBurst pushedOneOfTwo .a .accounts (js "x") () trio behind_pushedOneOfTwo 199) :=
    reach_playBurst pushedOneOfTwo .a .accounts (js "x") () behind_pushedOneOfTwo 199
  exact ((reach_play _).trans hburst).trans (reach_play _)

omit [DecidableEq D] in
/-- An object a device has recorded without its operations. -/
theorem not_recordedShown {s : Store D β (ObjectMap β)} (hs : Sound V (mapSite D β) s) (d : D)
    (h : ∃ p ∈ s.dest.rows, p.1 ∈ (s.device d).remoteObjects ∧ p.1.kind = .ops ∧ ∃ x ∈ p.2.operations,
      (∀ o ∈ (s.device d).ledger.oplog.rows, o.target = x.target → ¬ x.hlc ≤ o.hlc) ∧
      ((s.device d).ledger.rowAt x.target).isSome ≠ x.row.isSome) : ¬ RecordedShown s := by
  intro hshown
  obtain ⟨⟨n, env⟩, hp, hn, hk, x, hx, hlog, hrow⟩ := h
  rcases hshown d n hn hk env (hs.held hp) x hx with ⟨o, ho, ht, hle⟩ | heq
  · exact hlog o ho ht hle
  · exact hrow (congrArg Option.isSome heq)

/-- A device records what it has never seen. -/
theorem exists_not_recordedShown : ∃ c, trioWorld.Reach (start Table.empty) c ∧ ¬ RecordedShown c.store := by
  have hkept := (soundRuns trio (mapSite Trio Unit)).reach
    (Threads.kept_of_idle (sound_initial mapSite_empty) (fun _ => rfl)) reach_pushedLate
  exact ⟨pushedLate, reach_pushedLate, not_recordedShown hkept.1 Trio.c (by decide +kernel)⟩

end EasyDocket
