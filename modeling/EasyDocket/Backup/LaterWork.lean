import EasyDocket.Sync.Script
import EasyDocket.Backup.Restore

/-!
# Restoring a backup over later work

A restore looks at the tables only.  Work done since the backup was taken survives it if it left a newer row; a row that
has been removed since comes back, whatever the log says.
-/

namespace EasyDocket

variable {D β S : Type} [DecidableEq D] {V : Vault D} {site : Site D β S} {d : D}

/-! ## Every row is logged -/

/-- The write of a row, or a later one of the same entity, is in the log. -/
def RowsLogged (L : Ledger β) : Prop := ∀ t r, L.rowAt t = some r → L.Dominates t r.updatedAt

omit [DecidableEq D] in
theorem RowsLogged.merge {A : Set (Operation β)} {L : Ledger β} (hA : Writes V A)
    (hlog : ∀ o ∈ L.oplog, Authored A o.toOperation) (h : RowsLogged L) {ops : List (Operation β)}
    (hops : ∀ op ∈ ops, Authored A op) : RowsLogged (L.merge ops).1 := by
  have hm := Ledger.merge_merged (fun op hop => hA.carries_of (hops op hop)) (hA.coherent hlog hops)
  intro t r hr
  rcases hm.rows t with ⟨hrow, -⟩ | ⟨o, hnew, ht, hop, -, hrow⟩
  · exact (h t r (hrow.symm.trans hr)).mono hm.kept
  · have hstamp : r.updatedAt = o.hlc := hA.stamped_of (hops _ hop) r (hrow.symm.trans hr)
    exact ⟨o, hnew.1, ht, hstamp.le⟩

theorem RowsLogged.markSynced {L : Ledger β} (h : RowsLogged L) (stamps : List Stamp) :
    RowsLogged (L.markSynced stamps) := by
  intro t r hr
  have hrow : L.rowAt t = some r := by
    rw [← hr]
    unfold Ledger.rowAt
    rw [Ledger.markSynced_tables]
  obtain ⟨o, ho, ht, hle⟩ := h t r hrow
  exact ⟨_, Ledger.mem_markSynced.mpr ⟨o, ho, rfl⟩, ht, hle⟩

/-- Every row of every device is logged there. -/
def AllLogged (s : Store D β S) : Prop := ∀ d, RowsLogged (s.device d).ledger

theorem allLogged_update {s s' : Store D β S} (h : AllLogged s) (d : D) (hd : RowsLogged (s'.device d).ledger)
    (hne : ∀ d', d' ≠ d → s'.device d' = s.device d') : AllLogged s' := by
  intro d'
  by_cases hdd : d' = d
  · exact hdd ▸ hd
  · rw [hne d' hdd]
    exact h d'

/-- The step lemma: a request. -/
theorem allLogged_served {s s' : Store D β S} (hs : Sound V site s) (h : AllLogged s) {q : Request β}
    {r : Except SyncError q.Reply} (hreq : Requested V d q s) (hserved : Served site d q s r s') : AllLogged s' := by
  rcases hserved with ⟨wall, coin, heq⟩ | hmis
  · cases q with
    | call c =>
      obtain ⟨-, rfl⟩ := Prod.mk.inj heq
      exact h
    | query q =>
      obtain ⟨-, rfl⟩ := Prod.mk.inj heq
      refine allLogged_update h d ?_ (fun d' hd => afterQuery_ne hd)
      rw [afterQuery_device]
      cases q with
      | merge ops => exact (h d).merge hs.writes (hs.devices d).logged (Mergeable.authored hreq)
      | markSynced stamps => exact (h d).markSynced stamps
      | _ => exact h d
  · cases hmis
    exact h

/-- The step lemma: a local edit. -/
theorem allLogged_edited {s : Store D β S} (hs : Sound V site s) (h : AllLogged s) {L : Ledger β} {op : Operation β}
    (he : Ledger.Edited (V.deviceId d) (s.device d).ledger L op) : AllLogged (s.afterEdit d L op) := by
  refine allLogged_update h d ?_ (fun d' hd => afterEdit_ne hd)
  rw [afterEdit_device]
  intro t r hr
  have hrow := he.rows t
  split_ifs at hrow with ht
  · refine ⟨⟨op, false⟩, (mem_oplog_of_edited he).mpr (Or.inl rfl), ht.symm, ?_⟩
    exact (he.stamped r (hrow.symm.trans hr)).le
  · exact (h d t r (hrow.symm.trans hr)).mono (fun o ho => kept_of_edited hs he ho)

/-- The step lemma: a restart. -/
theorem allLogged_restart {s : Store D β S} (h : AllLogged s) (d : D) : AllLogged (restart d s) := by
  refine allLogged_update h d ?_ (fun d' hd => restart_ne hd)
  rw [restart_device]
  exact h d

theorem loggedRuns (V : Vault D) (site : Site D β S) :
    Threads.Sound ((world V site).restrict (fun _ _ _ _ => True) (fun _ _ => True))
      (fun s => Sound V site s ∧ AllLogged s) (fun d => protocol V d site) (fun _ _ _ => True) := by
  refine (soundRuns V site).strengthen (fun d s _ h => h) ?_ ?_ ?_ ?_
  · exact fun d q s r s' hs h hreq hserved _ _ => allLogged_served hs h hreq hserved
  · intro d r s _ h
    cases r <;> exact h
  · intro s s' hs h hedit _ _
    obtain ⟨d, L, op, he, rfl⟩ := hedit.edited
    exact allLogged_edited hs h he
  · exact fun d s _ h => allLogged_restart h d

/-- What holds of the ledger of a device in every run. -/
theorem logged_of_reach {dest : S} (hdest : site.holds dest = ∅)
    {c : Conf D (Request β) Request.Reply SyncError Unit (Store D β S)} (h : (world V site).Reach (start dest) c) (d : D) :
    Sound V site c.store ∧ RowsLogged (c.store.device d).ledger := by
  have hinitial : AllLogged (Store.initial dest : Store D β S) := by
    intro d t r hr
    have hnone : (Ledger.empty : Ledger β).rowAt t = none :=
      (Ledger.agreesAt_empty t).2 (fun o ho => absurd ho (Table.not_mem_empty o))
    cases hnone.symm.trans hr
  have hkept := (loggedRuns V site).reach (Threads.kept_of_idle ⟨sound_initial hdest, hinitial⟩ (fun _ => rfl))
    (h.restrict (fun _ _ _ _ => trivial) (fun _ _ => trivial))
  exact ⟨hkept.1.1, hkept.1.2 d⟩

namespace Backup

/-! ## What a restore does to one entity -/

/-- Row and log of an entity are as they were. -/
structure Untouched (L L' : Ledger β) (t : EntityName × JsString) : Prop where
  row : L'.rowAt t = L.rowAt t
  logged : ∀ o : LocalOperation β, o.target = t → (o ∈ L'.oplog ↔ o ∈ L.oplog)

/-- A backed-up row has been written over what was there. -/
structure Rewritten (device : JsString) (L L' : Ledger β) (p : EntityName × Row β) (c : Clock) : Prop where
  later : L.clock.time < c.time
  row : L'.rowAt (targetOf p) = some ⟨p.2.id, c.stamp device, p.2.body⟩
  logged : ∃ o ∈ L'.oplog, o.target = targetOf p ∧ o.hlc = c.stamp device

/-- The clock is past all that the device has logged itself. -/
def OwnPast (device : JsString) (L : Ledger β) : Prop := ∀ o ∈ L.oplog, o.hlc.device = device → L.clock.Past o.hlc

variable {device : JsString} {wall : ℕ → ℕ} {L L' L'' : Ledger β} {p : EntityName × Row β} {c : Clock}
  {t : EntityName × JsString}

theorem Untouched.refl (L : Ledger β) (t : EntityName × JsString) : Untouched L L t := ⟨rfl, fun _ _ => Iff.rfl⟩

theorem Untouched.trans (h : Untouched L L' t) (h' : Untouched L' L'' t) : Untouched L L'' t :=
  ⟨h'.row.trans h.row, fun o ho => (h'.logged o ho).trans (h.logged o ho)⟩

/-- The write of a row adds one operation to the log. -/
theorem Written.mem_oplog (h : Written device L L' p c) (hown : OwnPast device L) : ∃ op : Operation β,
    op.target = targetOf p ∧ op.hlc = c.stamp device ∧ ∀ o, o ∈ L'.oplog ↔ o = ⟨op, false⟩ ∨ o ∈ L.oplog := by
  obtain ⟨op, ht, hs, hlog⟩ := h.oplog
  refine ⟨op, ht, hs, fun o => ?_⟩
  rw [hlog, Table.mem_put]
  have hfresh : o ∈ L.oplog → o.hlc ≠ op.hlc := by
    intro ho heq
    rw [hs] at heq
    have hpast : o.hlc.time ≤ L.clock.time := hown o ho (by rw [heq]; rfl)
    rw [heq] at hpast
    exact absurd h.later (not_lt.mpr hpast)
  exact ⟨fun ho => ho.imp_right And.left, fun ho => ho.imp_right (fun ho => ⟨ho, hfresh ho⟩)⟩

theorem Written.ownPast (h : Written device L L' p c) (hown : OwnPast device L) : OwnPast device L' := by
  obtain ⟨op, -, hs, hmem⟩ := h.mem_oplog hown
  intro o ho hdev
  rw [h.clock]
  rcases (hmem o).mp ho with rfl | ho
  · show c.Past op.hlc
    rw [hs]
    exact Clock.past_stamp c device
  · exact (hown o ho hdev).mono h.later.le

theorem Written.untouched (h : Written device L L' p c) (hown : OwnPast device L) (ht : t ≠ targetOf p) :
    Untouched L L' t := by
  obtain ⟨op, hop, -, hmem⟩ := h.mem_oplog hown
  refine ⟨by rw [h.rows, if_neg ht], fun o ho => ?_⟩
  rw [hmem]
  refine or_iff_right (fun heq => ht ?_)
  rw [← ho, heq]
  exact hop

theorem Written.rewritten (h : Written device L L' p c) (hown : OwnPast device L) : Rewritten device L L' p c := by
  obtain ⟨op, hop, hs, hmem⟩ := h.mem_oplog hown
  exact ⟨h.later, by rw [h.rows, if_pos rfl], ⟨op, false⟩, (hmem _).mpr (Or.inl rfl), hop, hs⟩

theorem Rewritten.untouched (h : Rewritten device L L' p c) (h' : Untouched L' L'' (targetOf p)) :
    Rewritten device L L'' p c := by
  obtain ⟨o, ho, ht, hs⟩ := h.logged
  exact ⟨h.later, h'.row.trans h.row, o, (h'.logged o ht).mpr ho, ht, hs⟩

/-- What has been written over is not as it was. -/
theorem Rewritten.not_untouched (h : Rewritten device L L' p c) (hown : OwnPast device L) :
    ¬ Untouched L L' (targetOf p) := by
  intro hun
  obtain ⟨o, ho, ht, hs⟩ := h.logged
  have hpast : o.hlc.time ≤ L.clock.time := hown o ((hun.logged o ht).mp ho) (by rw [hs]; rfl)
  rw [hs] at hpast
  exact absurd h.later (not_lt.mpr hpast)

/-- A run leaves every other entity alone; by induction on the items. -/
theorem untouched_of_run : ∀ (l : List (EntityName × Item β)) {acc acc' : Ledger β × RestoreResult}
    {t : EntityName × JsString}, l.foldlM (restoreItem device wall) acc = .ok acc' → OwnPast device acc.1 →
    (∀ p ∈ rowsOf l, targetOf p ≠ t) → Untouched acc.1 acc'.1 t
  | [], acc, acc', t, h, _, _ => by
    rw [← Except.ok.inj h]
    exact Untouched.refl acc.1 t
  | (e, .malformed) :: l, acc, acc', t, h, hown, ht => by
    obtain ⟨mid, hstep, hrest⟩ := foldlM_cons_ok h
    have hmid := Except.ok.inj hstep
    rw [← hmid] at hrest
    have hun := untouched_of_run l hrest hown ht
    exact hun
  | (e, .row r) :: l, acc, acc', t, h, hown, ht => by
    obtain ⟨mid, hstep, hrest⟩ := foldlM_cons_ok h
    have hl := fun p hp => ht p (List.mem_cons_of_mem _ hp)
    by_cases hnewer : isNewerLocally acc.1 e r = true
    · rw [restoreItem_newer hnewer] at hstep
      rw [← Except.ok.inj hstep] at hrest
      have hun := untouched_of_run l hrest hown hl
      exact hun
    · obtain ⟨c, -, hwritten, -⟩ := restoreItem_ok hnewer hstep
      have hhead := hwritten.untouched hown (fun he => ht (e, r) List.mem_cons_self he.symm)
      exact hhead.trans (untouched_of_run l hrest (hwritten.ownPast hown) hl)

/-- A backed-up row is skipped, its entity being left alone, or written; by induction on the items. -/
theorem outcome_of_run : ∀ (l : List (EntityName × Item β)) {acc acc' : Ledger β × RestoreResult},
    l.foldlM (restoreItem device wall) acc = .ok acc' → OwnPast device acc.1 → ((rowsOf l).map targetOf).Nodup →
    ∀ p ∈ rowsOf l, (isNewerLocally acc.1 p.1 p.2 = true → Untouched acc.1 acc'.1 (targetOf p)) ∧
      (¬ isNewerLocally acc.1 p.1 p.2 = true → ∃ c, Rewritten device acc.1 acc'.1 p c)
  | [], _, _, _, _, _, _, hp => absurd hp List.not_mem_nil
  | (e, .malformed) :: l, acc, acc', h, hown, hn, p, hp => by
    obtain ⟨mid, hstep, hrest⟩ := foldlM_cons_ok h
    have hmid := Except.ok.inj hstep
    rw [← hmid] at hrest
    exact outcome_of_run l hrest hown hn p hp
  | (e, .row r) :: l, acc, acc', h, hown, hn, p, hp => by
    obtain ⟨mid, hstep, hrest⟩ := foldlM_cons_ok h
    rw [rowsOf_row, List.map_cons, List.nodup_cons] at hn
    have hothers : ∀ q ∈ rowsOf l, targetOf q ≠ targetOf (e, r) := fun q hq he => hn.1 (List.mem_map.mpr ⟨q, hq, he⟩)
    by_cases hnewer : isNewerLocally acc.1 e r = true
    · rw [restoreItem_newer hnewer] at hstep
      rw [← Except.ok.inj hstep] at hrest
      rcases List.mem_cons.mp hp with rfl | hp
      · have hun := untouched_of_run l hrest hown hothers
        exact ⟨fun _ => hun, fun hold => absurd hnewer hold⟩
      · exact outcome_of_run l hrest hown hn.2 p hp
    · obtain ⟨c, -, hwritten, -⟩ := restoreItem_ok hnewer hstep
      have hown' := hwritten.ownPast hown
      rcases List.mem_cons.mp hp with rfl | hp
      · exact ⟨fun hnew => absurd hnew hnewer,
          fun _ => ⟨c, (hwritten.rewritten hown).untouched (untouched_of_run l hrest hown' hothers)⟩⟩
      · have hun := hwritten.untouched hown (hothers p hp)
        have hsame : isNewerLocally mid.1 p.1 p.2 = isNewerLocally acc.1 p.1 p.2 := isNewerLocally_congr hun.row
        obtain ⟨hskip, hwrite⟩ := outcome_of_run l hrest hown' hn.2 p hp
        rw [hsame] at hskip hwrite
        refine ⟨fun hnew => hun.trans (hskip hnew), fun hold => ?_⟩
        obtain ⟨c', hc'⟩ := hwrite hold
        have hlater : acc.1.clock.time < c'.time := by
          have hmid := hc'.later
          rw [hwritten.clock] at hmid
          exact hwritten.later.trans hmid
        exact ⟨c', hlater, hc'.row, hc'.logged⟩

/-! ## Later work -/

/-- A restore has not undone later work, and has brought back the rest. -/
structure Safe (L L' : Ledger β) (rows : List (EntityName × Row β)) : Prop where
  /-- What was written or removed since is as it was. -/
  later : ∀ p ∈ rows, ∀ s, L.latestStampFor p.1 p.2.id = some s → p.2.updatedAt < s → Untouched L L' (targetOf p)
  restored : ∀ p ∈ rows, (∀ s, L.latestStampFor p.1 p.2.id = some s → s ≤ p.2.updatedAt) →
    ∃ r, L'.rowAt (targetOf p) = some r ∧ r.body = p.2.body
  others : ∀ t, (∀ p ∈ rows, targetOf p ≠ t) → Untouched L L' t

omit [DecidableEq D] in
/-- What a device has logged itself is behind its clock. -/
theorem ownPast_of_sound {s : Store D β S} (hs : Sound V site s) (d : D) :
    OwnPast (V.deviceId d) (s.device d).ledger := by
  intro o ho hdev
  obtain ⟨x, hx, hsame⟩ := (hs.devices d).logged o ho
  obtain ⟨a, hxd, hxs⟩ := hs.writes.author x hx
  have had : a = d := V.distinct (hxs.symm.trans ((congrArg Stamp.device hsame.hlc).symm.trans hdev))
  have hpast := (hs.devices d).past x hx (had ▸ hxd)
  rwa [← hsame.hlc] at hpast

/-- A row that is newer than a backed-up one is logged later than it. -/
theorem latest_of_newer {e : EntityName} {r : Row β} (h : RowsLogged L) (hnewer : isNewerLocally L e r = true) :
    ∃ s, L.latestStampFor e r.id = some s ∧ r.updatedAt < s := by
  obtain ⟨x, hx, hlt⟩ := isNewerLocally_iff.mp hnewer
  obtain ⟨o, ho, ht, hle⟩ := h _ x hx
  cases hs : L.latestStampFor e r.id with
  | none => exact absurd ht (Ledger.latestStampFor_eq_none.mp hs o ho)
  | some s => exact ⟨s, rfl, (hlt.trans_le hle).trans_le ((Ledger.latestStampFor_eq_some.mp hs).2 o ho ht)⟩

/-- Restoring a backup leaves later work alone if and only if all of it has left a newer row. -/
theorem later_work_kept_iff {dest : S} (hdest : site.holds dest = ∅)
    {c : Conf D (Request β) Request.Reply SyncError Unit (Store D β S)} (h : (world V site).Reach (start dest) c)
    {payload : BackupPayload β} (hone : ((backedUp payload).map targetOf).Nodup) {result : RestoreResult}
    (hrun : restore (V.deviceId d) wall payload (c.store.device d).ledger = .ok (L', result)) :
    Safe (c.store.device d).ledger L' (backedUp payload) ↔
      ∀ p ∈ backedUp payload, ∀ s, (c.store.device d).ledger.latestStampFor p.1 p.2.id = some s → p.2.updatedAt < s →
        ∃ x, (c.store.device d).ledger.rowAt (targetOf p) = some x ∧ p.2.updatedAt < x.updatedAt := by
  obtain ⟨hs, hlogged⟩ := logged_of_reach hdest h d
  have hown := ownPast_of_sound hs d
  rw [restore_eq] at hrun
  have houtcome := outcome_of_run (items payload) hrun hown hone
  constructor
  · intro hsafe p hp s hlatest hlt
    by_contra hold
    obtain ⟨c', hc'⟩ := (houtcome p hp).2 (fun hnewer => hold (isNewerLocally_iff.mp hnewer))
    exact hc'.not_untouched hown (hsafe.later p hp s hlatest hlt)
  · intro hnewer
    refine ⟨fun p hp s hlatest hlt => ?_, fun p hp hle => ?_, fun t ht => untouched_of_run (items payload) hrun hown ht⟩
    · exact (houtcome p hp).1 (isNewerLocally_iff.mpr (hnewer p hp s hlatest hlt))
    · have hold : ¬ isNewerLocally (c.store.device d).ledger p.1 p.2 = true := by
        intro hnew
        obtain ⟨s, hs, hlt⟩ := latest_of_newer hlogged hnew
        exact absurd (hle s hs) (not_le.mpr hlt)
      obtain ⟨c', hc'⟩ := (houtcome p hp).2 hold
      exact ⟨_, hc'.row, rfl⟩

/-- The backup of a ledger as a decrypted value. -/
def exported (takenAt : ℤ) (vaultId : JsString) (L : Ledger β) : Value β :=
  .object (.number BACKUP_FORMAT) (some takenAt) (some vaultId)
    (some (ENTITY_NAMES.map (fun e => (nameOf e, some ((L.tables e).rows.map Item.row)))))

/-- Device `a` has one account. -/
def accountPut : TrioState := trioPlay trioStart [.put .a 5 .accounts (js "x") ()]

/-- The account has been edited since. -/
def accountEdited : TrioState := trioPlay accountPut [.put .a 6 .accounts (js "x") ()]

/-- The account has been removed since. -/
def accountRemoved : TrioState := trioPlay accountPut [.remove .a 6 .accounts (js "x")]

/-- The backup that device `a` took when it had one account. -/
def accountBackup : BackupPayload Unit := build 5 (js "v") (accountPut.store.device .a).ledger

theorem edited_account_kept : ∃ L' result,
    restore (trio.deviceId .a) (fun _ => 7) accountBackup (accountEdited.store.device .a).ledger = .ok (L', result) ∧
    Safe (accountEdited.store.device .a).ledger L' (backedUp accountBackup) := by
  have hrun : restore (trio.deviceId .a) (fun _ => 7) accountBackup (accountEdited.store.device .a).ledger =
      .ok ((accountEdited.store.device .a).ledger, ⟨0, 1⟩) := rfl
  refine ⟨_, _, hrun, (later_work_kept_iff mapSite_empty ((reach_play _).trans (reach_play _))
    (build_nodup _ _ _) hrun).mpr ?_⟩
  intro p hp s _ _
  obtain rfl : p = (.accounts, ⟨js "x", ⟨5, 0, js "a"⟩, ()⟩) := List.mem_singleton.mp hp
  exact ⟨⟨js "x", ⟨6, 0, js "a"⟩, ()⟩, rfl, by decide⟩

/-- An account that was removed since the backup was taken comes back. -/
theorem removed_account_restored : trioWorld.Reach (start Table.empty) accountRemoved ∧
    inspect trio.vaultId (exported 5 (js "v") (accountPut.store.device .a).ledger) = .ok accountBackup ∧
    ∃ L' result,
      restore (trio.deviceId .a) (fun _ => 7) accountBackup (accountRemoved.store.device .a).ledger = .ok (L', result) ∧
      ¬ Safe (accountRemoved.store.device .a).ledger L' (backedUp accountBackup) := by
  refine ⟨(reach_play _).trans (reach_play _), ?_, _, _, rfl, fun hsafe => ?_⟩
  · refine congrArg Except.ok (congrArg (BackupPayload.mk 5 (js "v")) (funext (fun e => ?_)))
    cases e <;> rfl
  · have hrow := (hsafe.later (.accounts, ⟨js "x", ⟨5, 0, js "a"⟩, ()⟩) List.mem_cons_self ⟨6, 0, js "a"⟩ (by decide +kernel)
      (by decide)).row
    cases hrow

end Backup

end EasyDocket
