import EasyDocket.Sync.Script

/-!
# Log and tables

`put` and `remove` write without looking, `merge` compares stamps: log and tables agree because the clock is ahead of
everything merged.  The heads of operation objects see to that, and so does the watermark of a snapshot, as long as no
row of the snapshot was written after the watermark was read.
-/

namespace EasyDocket

variable {D β S : Type} [DecidableEq D] {V : Vault D} {site : Site D β S} {d : D}

/-- The log and the tables of a device say the same, and its clock is ahead of both. -/
structure Consistent (device : JsString) (L : Ledger β) : Prop where
  exists_iff : ∀ e id, (∃ r ∈ L.tables e, r.id = id) ↔ ∃ o, L.Newest o ∧ o.target = (e, id) ∧ o.op = .put
  row : ∀ e, ∀ r ∈ L.tables e, ∃ o, L.Newest o ∧ o.target = (e, r.id) ∧ o.value = some r ∧ r.updatedAt = o.hlc
  issued : ∀ wall c, L.clock.tick wall = .ok c → ∀ o ∈ L.oplog, o.hlc < c.stamp device

/-- The invariant behind `Consistent`: it also says what a restart goes back to. -/
structure Ahead (L : Ledger β) : Prop where
  past : ∀ o ∈ L.oplog, L.clock.Past o.hlc
  pastState : ∀ o ∈ L.oplog, (L.clockState.getD Clock.zero).Past o.hlc
  agrees : ∀ t, L.AgreesAt t

/-- No operation is merged that the clock is not past. -/
def ObservedFirst (d : D) (q : Request β) (s : Store D β S) (_ : Store D β S) : Prop :=
  ∀ ops, q = .query (.merge ops) → ∀ op ∈ ops, (s.device d).ledger.clock.Past op.hlc

/-! ## Single steps -/

omit [DecidableEq D] in
theorem Ahead.consistent {A : Set (Operation β)} {L : Ledger β} (hA : Writes V A)
    (hlog : ∀ o ∈ L.oplog, Authored A o.toOperation) (h : Ahead L) (device : JsString) : Consistent device L := by
  have hrow : ∀ e, ∀ r ∈ L.tables e, ∃ o, L.Newest o ∧ o.target = (e, r.id) ∧ o.row = some r := by
    intro e r hr
    have hat := rowAt_of_mem hr
    by_cases hnone : ∀ o ∈ L.oplog, o.target ≠ (e, r.id)
    · rw [(h.agrees (e, r.id)).2 hnone] at hat
      cases hat
    · push Not at hnone
      obtain ⟨o, ho, ht⟩ := hnone
      obtain ⟨m, hm, hnew⟩ := Ledger.exists_newest ho
      exact ⟨m, hnew, hm.trans ht, ((h.agrees (e, r.id)).1 m hnew (hm.trans ht)).symm.trans hat⟩
  refine ⟨fun e id => ⟨?_, ?_⟩, fun e r hr => ?_, fun wall c hc o ho => (h.past o ho).lt_tick hc⟩
  · rintro ⟨r, hr, rfl⟩
    obtain ⟨o, hnew, ht, hor⟩ := hrow e r hr
    exact ⟨o, hnew, ht, (put_of_row hor).1⟩
  · rintro ⟨o, hnew, ht, hput⟩
    obtain ⟨r, hr, -⟩ := hA.carries_of (hlog o hnew.1) hput
    have hat : L.rowAt (e, id) = some r := by
      rw [(h.agrees (e, id)).1 o hnew ht, Operation.row_put hput, hr]
    exact ⟨r, (mem_of_rowAt hat).1, (mem_of_rowAt hat).2⟩
  · obtain ⟨o, hnew, ht, hor⟩ := hrow e r hr
    exact ⟨o, hnew, ht, (put_of_row hor).2, hA.stamped_of (hlog o hnew.1) r hor⟩

theorem Ahead.edited {L L' : Ledger β} {device : JsString} {op : Operation β} (h : Ahead L)
    (he : Ledger.Edited device L L' op) : Ahead L' := by
  have hlt : ∀ o ∈ L.oplog, o.hlc < op.hlc := by
    intro o ho
    refine Stamp.lt_of_time_lt ?_
    rw [he.stamp]
    exact lt_of_le_of_lt (h.past o ho) he.time
  have hmem : ∀ o, o ∈ L'.oplog ↔ o = ⟨op, false⟩ ∨ o ∈ L.oplog := by
    intro o
    rw [he.oplog, Table.mem_put]
    exact ⟨fun ho => ho.imp_right And.left, fun ho => ho.imp_right (fun ho => ⟨ho, (hlt o ho).ne⟩)⟩
  have hpast : ∀ o ∈ L'.oplog, L'.clock.Past o.hlc := by
    intro o ho
    rcases (hmem o).mp ho with rfl | ho
    · show L'.clock.Past op.hlc
      rw [he.stamp]
      exact Clock.past_stamp _ _
    · exact (h.past o ho).mono he.time.le
  refine ⟨hpast, fun o ho => by rw [he.clockState]; exact hpast o ho, fun t => ⟨fun o hnew ht => ?_, fun hnone => ?_⟩⟩
  · rw [he.rows t]
    rcases (hmem o).mp hnew.1 with rfl | ho
    · rw [if_pos ht.symm]
    · have hne : t ≠ op.target := by
        rintro rfl
        have hle := hnew.2 ⟨op, false⟩ ((hmem _).mpr (Or.inl rfl)) ht.symm
        exact absurd hle (not_le.mpr (hlt o ho))
      rw [if_neg hne]
      exact (h.agrees t).1 o ⟨ho, fun b hb hk => hnew.2 b ((hmem b).mpr (Or.inr hb)) hk⟩ ht
  · have hne : t ≠ op.target := fun ht => hnone ⟨op, false⟩ ((hmem _).mpr (Or.inl rfl)) ht.symm
    rw [he.rows t, if_neg hne]
    exact (h.agrees t).2 (fun o ho => hnone o ((hmem o).mpr (Or.inr ho)))

omit [DecidableEq D] in
theorem Ahead.merge {A : Set (Operation β)} {L : Ledger β} (hA : Writes V A)
    (hlog : ∀ o ∈ L.oplog, Authored A o.toOperation) (h : Ahead L) {ops : List (Operation β)}
    (hops : ∀ op ∈ ops, Authored A op) (hpast : ∀ op ∈ ops, L.clock.Past op.hlc) : Ahead (L.merge ops).1 := by
  have hc := fun op hop => hA.carries_of (hops op hop)
  have hco := hA.coherent hlog hops
  have hm := Ledger.merge_merged hc hco
  have hclock : ∀ o ∈ (L.merge ops).1.oplog, L.clock.Past o.hlc := by
    intro o ho
    rcases hm.fresh o ho with ho | ⟨hop, -, -⟩
    · exact h.past o ho
    · exact hpast _ hop
  refine ⟨fun o ho => by rw [hm.clock]; exact hclock o ho, fun o ho => ?_, fun t => ?_⟩
  · rw [Ledger.merge_clockState hc hco]
    split_ifs with hnil
    · subst hnil
      exact h.pastState o ho
    · exact hclock o ho
  · refine hm.agreesAt (fun a ha o ho hs => ?_) (h.agrees t)
    have hauth : Authored A o.toOperation := by
      rcases hm.fresh o ho with ho | ⟨hop, -, -⟩
      · exact hlog o ho
      · exact hops _ hop
    exact (hA.sameWrite hauth (hops a ha) hs).row

theorem Ahead.markSynced {L : Ledger β} (h : Ahead L) (stamps : List Stamp) : Ahead (L.markSynced stamps) := by
  have hback : ∀ o ∈ (L.markSynced stamps).oplog, ∃ o' ∈ L.oplog, o'.toOperation = o.toOperation := by
    intro o ho
    obtain ⟨o', ho', rfl⟩ := Ledger.mem_markSynced.mp ho
    exact ⟨o', ho', rfl⟩
  have hforth : ∀ o ∈ L.oplog, ∃ o' ∈ (L.markSynced stamps).oplog, o'.toOperation = o.toOperation :=
    fun o ho => ⟨_, Ledger.mem_markSynced.mpr ⟨o, ho, rfl⟩, rfl⟩
  have hrow : ∀ t, (L.markSynced stamps).rowAt t = L.rowAt t := fun t => by
    unfold Ledger.rowAt
    rw [Ledger.markSynced_tables]
  refine ⟨fun o ho => ?_, fun o ho => ?_, fun t => ⟨fun o hnew ht => ?_, fun hnone => ?_⟩⟩
  · obtain ⟨o', ho', heq⟩ := hback o ho
    rw [Ledger.markSynced_clock, ← heq]
    exact h.past o' ho'
  · obtain ⟨o', ho', heq⟩ := hback o ho
    rw [Ledger.markSynced_clockState, ← heq]
    exact h.pastState o' ho'
  · obtain ⟨o', ho', heq⟩ := hback o hnew.1
    rw [hrow, ← heq]
    refine (h.agrees t).1 o' ⟨ho', fun b hb hk => ?_⟩ (by rw [heq]; exact ht)
    obtain ⟨b', hb', hbeq⟩ := hforth b hb
    have hk' : b'.target = o.target := (congrArg Operation.target hbeq).trans (hk.trans (congrArg Operation.target heq))
    have hle : b'.hlc ≤ o.hlc := hnew.2 b' hb' hk'
    rw [hbeq] at hle
    exact hle.trans (congrArg Operation.hlc heq).ge
  · rw [hrow]
    refine (h.agrees t).2 (fun o ho ht => ?_)
    obtain ⟨o', ho', heq⟩ := hforth o ho
    exact hnone o' ho' (by rw [heq]; exact ht)

/-! ## Runs -/

/-- Every device is ahead of its log. -/
def AllAhead (s : Store D β S) : Prop := ∀ d, Ahead (s.device d).ledger

theorem allAhead_update {s s' : Store D β S} (h : AllAhead s) (d : D) (hd : Ahead (s'.device d).ledger)
    (hne : ∀ d', d' ≠ d → s'.device d' = s.device d') : AllAhead s' := by
  intro d'
  by_cases hdd : d' = d
  · exact hdd ▸ hd
  · rw [hne d' hdd]
    exact h d'

/-- The step lemma: a request keeps every device ahead of its log. -/
theorem allAhead_served {s s' : Store D β S} (hs : Sound V site s) (h : AllAhead s) {q : Request β}
    {r : Except SyncError q.Reply} (hreq : Requested V d q s) (hserved : Served site d q s r s')
    (hcond : ObservedFirst d q s s') : AllAhead s' := by
  rcases hserved with ⟨wall, coin, heq⟩ | hmis
  · cases q with
    | call c =>
      obtain ⟨-, rfl⟩ := Prod.mk.inj heq
      exact h
    | query q =>
      obtain ⟨-, rfl⟩ := Prod.mk.inj heq
      refine allAhead_update h d ?_ (fun d' hd => afterQuery_ne hd)
      rw [afterQuery_device]
      cases q with
      | observeStamps stamps =>
        have hle := Ledger.observeAll_time_le stamps wall (s.device d).ledger.clock
        exact ⟨fun o ho => ((h d).past o ho).mono hle, (h d).pastState, (h d).agrees⟩
      | merge ops => exact (h d).merge hs.writes (hs.devices d).logged (Mergeable.authored hreq) (hcond ops rfl)
      | markSynced stamps => exact (h d).markSynced stamps
      | _ => exact h d
  · cases hmis
    exact h

/-- The step lemma: a local edit. -/
theorem allAhead_edited {s : Store D β S} (h : AllAhead s) {L : Ledger β} {op : Operation β}
    (he : Ledger.Edited (V.deviceId d) (s.device d).ledger L op) : AllAhead (s.afterEdit d L op) := by
  refine allAhead_update h d ?_ (fun d' hd => afterEdit_ne hd)
  rw [afterEdit_device]
  exact (h d).edited he

/-- The step lemma: a restart. -/
theorem allAhead_restart {s : Store D β S} (h : AllAhead s) (d : D) : AllAhead (restart d s) := by
  refine allAhead_update h d ?_ (fun d' hd => restart_ne hd)
  rw [restart_device]
  exact ⟨(h d).pastState, (h d).pastState, (h d).agrees⟩

theorem aheadRuns (V : Vault D) (site : Site D β S) :
    Threads.Sound ((world V site).restrict ObservedFirst (fun _ _ => True)) (fun s => Sound V site s ∧ AllAhead s)
      (fun d => protocol V d site) (fun _ _ _ => True) := by
  refine (soundRuns V site).strengthen (fun d s _ h => h) ?_ ?_ ?_ (fun d s _ h => allAhead_restart h d)
  · exact fun d q s r s' hs h hreq hserved hcond _ => allAhead_served hs h hreq hserved hcond
  · intro d r s _ h
    cases r <;> exact h
  · intro s s' hs h hedit _ _
    obtain ⟨d, L, op, he, rfl⟩ := hedit.edited
    exact allAhead_edited h he

omit [DecidableEq D] in
theorem allAhead_initial (dest : S) : AllAhead (Store.initial dest : Store D β S) := by
  intro d
  exact ⟨fun o ho => absurd ho (Table.not_mem_empty o), fun o ho => absurd ho (Table.not_mem_empty o),
    Ledger.agreesAt_empty⟩

/-- The run lemma. -/
theorem allAhead_of_reach {dest : S} (hdest : site.holds dest = ∅)
    {c : Conf D (Request β) Request.Reply SyncError Unit (Store D β S)}
    (h : ((world V site).restrict ObservedFirst (fun _ _ => True)).Reach (start dest) c) :
    Sound V site c.store ∧ AllAhead c.store :=
  ((aheadRuns V site).reach (Threads.kept_of_idle ⟨sound_initial hdest, allAhead_initial dest⟩ (fun _ => rfl)) h).1

/-- In every run that merges nothing the clock is not past, log and tables of every device agree. -/
theorem consistent_of_observedFirst {dest : S} (hdest : site.holds dest = ∅)
    {c : Conf D (Request β) Request.Reply SyncError Unit (Store D β S)}
    (h : ((world V site).restrict ObservedFirst (fun _ _ => True)).Reach (start dest) c) (d : D) :
    Consistent (V.deviceId d) (c.store.device d).ledger := by
  obtain ⟨hs, hahead⟩ := allAhead_of_reach hdest h
  exact (hahead d).consistent hs.writes (hs.devices d).logged _

/-- Whether a request merges only what the clock is past. -/
def observedFirst (d : D) (q : Request β) (s : Store D β S) (_ : Store D β S) : Bool :=
  match q with
  | .query (.merge ops) => ops.all (fun op => (s.device d).ledger.clock.Past op.hlc)
  | _ => true

omit [DecidableEq D] in
theorem observedFirst_spec (d : D) (q : Request β) (s s' : Store D β S) (h : observedFirst d q s s' = true) :
    ObservedFirst d q s s' := by
  rintro ops rfl op hop
  exact of_decide_eq_true (List.all_eq_true.mp h op hop)

/-- Device `b` has merged what device `a` pushed. -/
def mergedOne : TrioState :=
  trioPlay trioStart [.put .a 5 .accounts (js "x") (), .begin .a, .finish .a 6, .begin .b, .finish .b 3]

theorem consistent_mergedOne : Consistent (trio.deviceId .b) (mergedOne.store.device .b).ledger :=
  consistent_of_observedFirst mapSite_empty (reach_meetsMoves observedFirst_spec (E := fun _ => true)
    (fun _ _ _ _ => trivial) _ _ (by decide +kernel)) Trio.b

/-! ## A snapshot whose rows are newer than its watermark -/

/-- Whether the next stamp of a device is past its log. -/
def issuesPast (device : JsString) (wall : ℕ) (L : Ledger β) : Bool :=
  match L.clock.tick wall with
  | .ok c => L.oplog.rows.all (fun o => o.hlc < c.stamp device)
  | .error _ => true

theorem Consistent.issuesPast {device : JsString} {L : Ledger β} (h : Consistent device L) (wall : ℕ) :
    issuesPast device wall L = true := by
  unfold EasyDocket.issuesPast
  split
  · rename_i c hc
    exact List.all_eq_true.mpr (fun o ho => decide_eq_true (h.issued wall c hc o ho))
  · rfl

/-- Device `a` has pushed one operation, and its first cycle goes on. -/
def pushedOne : TrioState :=
  trioPlay trioStart [.put .a 0 .accounts (js "x") (), .begin .a, .ask .a 0 8]

theorem behind_pushedOne : Behind (pushedOne.store.device .a).ledger := by
  unfold Behind
  decide +kernel

/-- The cycle has read the log for a snapshot. -/
def readLog : TrioState :=
  trioPlay (playBurst pushedOne .a .accounts (js "x") () trio behind_pushedOne 199) [.ask .a 0 3]

/-- The user of device `a` goes on editing before the tables are read, and device `b` applies the snapshot. -/
def editedBetween : TrioState :=
  trioPlay readLog [.put .a 1000 .accounts (js "y") (), .finish .a 1000, .begin .b, .finish .b 300]

theorem reach_editedBetween : trioWorld.Reach trioStart editedBetween := by
  have hburst : trioWorld.Reach pushedOne (playBurst pushedOne .a .accounts (js "x") () trio behind_pushedOne 199) :=
    reach_playBurst pushedOne .a .accounts (js "x") () behind_pushedOne 199
  exact ((reach_play _).trans hburst).trans ((reach_play _).trans (reach_play _))

/-- Log, tables and clock do not agree in every run. -/
theorem exists_not_consistent : ∃ c, trioWorld.Reach (start Table.empty) c ∧
    ¬ Consistent (trio.deviceId .b) (c.store.device .b).ledger := by
  refine ⟨editedBetween, reach_editedBetween, fun h => ?_⟩
  have hfalse : issuesPast (trio.deviceId .b) 300 (editedBetween.store.device .b).ledger = false := by decide +kernel
  exact Bool.false_ne_true (hfalse.symm.trans (h.issuesPast 300))

end EasyDocket
