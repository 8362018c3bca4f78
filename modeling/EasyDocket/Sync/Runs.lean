import EasyDocket.Sync.Cycle

/-!
# The invariant in every run

`Sound` survives every step of the system, and a step of one device stays within what the others rely on.  With
`keeps_runCycle` this makes `Requested` a fact about every request of every run (`soundRuns`, `Kept.requested`).
-/

namespace EasyDocket

open SyncService

variable {D β S : Type} [DecidableEq D] {V : Vault D} {site : Site D β S} {d : D}

/-! ## Calls -/

/-- Two objects made of the first unsent operations, up to the same newest one, are the same. -/
theorem prefix_eq {l p q : List (Operation β)} {w : Stamp} (hp : p <+: l) (hq : q <+: l)
    (hsorted : p.Pairwise (fun x y => x.hlc < y.hlc)) (hhead : ∃ x ∈ q, x.hlc = w) (hle : ∀ x ∈ p, x.hlc ≤ w)
    (hlen : q.length ≤ p.length) : p = q := by
  obtain ⟨t, rfl⟩ := List.prefix_of_prefix_length_le hq hp hlen
  cases t with
  | nil => exact List.append_nil q
  | cons y t =>
    obtain ⟨x, hx, rfl⟩ := hhead
    have hlt := (List.pairwise_append.mp hsorted).2.2 x hx y List.mem_cons_self
    exact absurd (hle y (List.mem_append_right _ List.mem_cons_self)) (not_le.mpr hlt)

omit [DecidableEq D] in
theorem OpsObject.eq_of_front {A A' : Set (Operation β)} {n : ObjectName} {env env' : Envelope β} {a a' : D}
    {ops ops' l : List (Operation β)} (h : OpsObject V A n env a ops) (h' : OpsObject V A' n env' a' ops')
    (hp : ops <+: l) (hq : ops' <+: l) : ops = ops' := by
  rcases le_total ops'.length ops.length with hlen | hlen
  · exact prefix_eq hp hq h.sorted h'.head h.le hlen
  · exact (prefix_eq hq hp h'.sorted h.head h'.le hlen).symm

omit [DecidableEq D] in
/-- An unsent operation belongs to one device. -/
theorem device_of_unsynced {s : Store D β S} (hs : Sound V site s) {d' : D} {o o' : LocalOperation β}
    (ho : o ∈ (s.device d).ledger.unsynced) (ho' : o' ∈ (s.device d').ledger.unsynced) (h : o.hlc = o'.hlc) :
    d = d' := by
  obtain ⟨hlog, hs₁⟩ := Ledger.mem_unsynced.mp ho
  obtain ⟨hlog', hs₂⟩ := Ledger.mem_unsynced.mp ho'
  obtain ⟨hA, hd⟩ := (hs.devices d).unsent o hlog hs₁
  obtain ⟨hA', hd'⟩ := (hs.devices d').unsent o' hlog' hs₂
  have heq : o.toOperation = o'.toOperation := hs.writes.unique _ hA _ hA' h
  exact V.distinct (hd.symm.trans ((congrArg Operation.device heq).trans hd'))

omit [DecidableEq D] in
/-- What a put puts. -/
theorem made_of_requested {s : Store D β S} {n : ObjectName} {env : Envelope β}
    (h : Requested V d (.call (.put n env)) s) : Made V s.ghost.authored n env := by
  rcases h with ⟨slice, -, hobj⟩ | ⟨value, hsnap⟩
  · exact Or.inl ⟨d, _, hobj⟩
  · exact Or.inr ⟨d, value, hsnap.object⟩

omit [DecidableEq D] in
/-- An object of operations that is put holds the first unsent operations of its device. -/
theorem slice_of_requested {s : Store D β S} {n : ObjectName} {env : Envelope β}
    (h : Requested V d (.call (.put n env)) s) (hk : n.kind = .ops) :
    ∃ slice, Slice V d n slice s ∧ OpsObject V s.ghost.authored n env d (slice.map LocalOperation.toOperation) := by
  rcases h with h | ⟨value, hsnap⟩
  · exact h
  · exact absurd (hk.symm.trans hsnap.object.kind) (by decide)

omit [DecidableEq D] in
theorem Slice.unsynced {s : Store D β S} {n : ObjectName} {slice : List (LocalOperation β)}
    (h : Slice V d n slice s) : ∃ o ∈ (s.device d).ledger.unsynced, o.hlc = n.stamp := by
  obtain ⟨o, hlast, hstamp⟩ := h.last
  exact ⟨o, h.front.subset (List.mem_of_getLast? hlast), hstamp⟩

section Call

variable {s : Store D β S} {c : Call β} {dest : S}

/-- What a call may add to the objects ever stored. -/
theorem stored_of_call (hs : Sound V site s) (hadd : ∀ p ∈ site.holds dest, p ∈ site.holds s.dest ∨ c = .put p.1 p.2)
    {p : ObjectName × Envelope β} (hp : p ∈ (s.afterCall site d c dest).ghost.stored) :
    p ∈ s.ghost.stored ∨ c = .put p.1 p.2 := by
  rcases hp with hp | hp
  · exact Or.inl hp
  · exact (hadd p hp).imp_left (fun h => hs.held h)

/-- A call leaves alone which objects other devices have not marked. -/
theorem unmarked_of_call (hs : Sound V site s) (hreq : Requested V d (.call c) s)
    (hadd : ∀ p ∈ site.holds dest, p ∈ site.holds s.dest ∨ c = .put p.1 p.2) {d' : D} (hd : d' ≠ d)
    {n : ObjectName} {env : Envelope β} (h : Unmarked (s.afterCall site d c dest) d' n env) : Unmarked s d' n env := by
  obtain ⟨henv, hk, o, ho, hstamp⟩ := h
  rcases stored_of_call hs hadd henv with henv | rfl
  · exact ⟨henv, hk, o, ho, hstamp⟩
  · obtain ⟨slice, hslice, -⟩ := slice_of_requested hreq hk
    obtain ⟨o', ho', hstamp'⟩ := hslice.unsynced
    exact absurd (device_of_unsynced hs ho ho' (hstamp.trans hstamp'.symm)) hd

theorem sound_afterCall (hs : Sound V site s) (hreq : Requested V d (.call c) s)
    (hadd : ∀ p ∈ site.holds dest, p ∈ site.holds s.dest ∨ c = .put p.1 p.2) :
    Sound V site (s.afterCall site d c dest) where
  writes := hs.writes
  devices := hs.devices
  held := fun p hp => Or.inr hp
  made := by
    intro n env henv
    rcases stored_of_call hs hadd henv with henv | rfl
    · exact hs.made n env henv
    · show Made V s.ghost.authored n env
      exact made_of_requested hreq
  same := by
    have hmixed : ∀ n env env', (n, env) ∈ s.ghost.stored → c = .put n env' → n.kind = .ops →
        env.operations = env'.operations := by
      rintro n env env' henv rfl hk
      obtain ⟨slice, hslice, hobj⟩ := slice_of_requested hreq hk
      obtain ⟨a, ops, hold⟩ := (hs.made n env henv).ops_of_kind hk
      have hfront := hs.front d n env ⟨henv, hk, hslice.unsynced⟩
      rw [hold.operations] at hfront ⊢
      rw [hobj.operations]
      exact hold.eq_of_front hobj hfront (hslice.front.map _)
    intro n env env' henv henv' hk
    rcases stored_of_call hs hadd henv with h | h <;> rcases stored_of_call hs hadd henv' with h' | h'
    · exact hs.same n env env' h h' hk
    · exact hmixed n env env' h h' hk
    · exact (hmixed n env' env h' h hk).symm
    · cases h.symm.trans h'
      rfl
  front := by
    intro d' n env hu
    by_cases hd : d' = d
    · subst hd
      obtain ⟨henv, hk, ho⟩ := hu
      rcases stored_of_call hs hadd henv with henv | rfl
      · exact hs.front d' n env ⟨henv, hk, ho⟩
      · obtain ⟨slice, hslice, hobj⟩ := slice_of_requested hreq hk
        rw [hobj.operations]
        exact hslice.front.map _
    · exact hs.front d' n env (unmarked_of_call hs hreq hadd hd hu)
  recorded := by
    intro d' n hn
    obtain ⟨env, henv⟩ := hs.recorded d' n hn
    exact ⟨env, Or.inl henv⟩

theorem rely_afterCall (hs : Sound V site s) (hreq : Requested V d (.call c) s)
    (hadd : ∀ p ∈ site.holds dest, p ∈ site.holds s.dest ∨ c = .put p.1 p.2) {d' : D} (hd : d' ≠ d) :
    Rely d' s (s.afterCall site d c dest) where
  remoteObjects := rfl
  lastSnapshot := rfl
  oplog := fun _ h => h
  unsynced := List.prefix_refl _
  unmarked := fun _ _ h => unmarked_of_call hs hreq hadd hd h
  clock := le_refl _
  authored := fun _ h => h
  stored := fun _ h => Or.inl h
  readAt := rfl
  written := s.ghost.called_written_ne hd c _
  lastMerge := rfl
  pulling := s.ghost.called_pulling_ne hd c _
  started := rfl

end Call

/-! ## Queries -/

section Query

variable {s : Store D β S} {q : Query β} {dev : Device β}

theorem afterQuery_ne {d' : D} (hd : d' ≠ d) : (s.afterQuery d q dev).device d' = s.device d' :=
  Store.withDevice_ne s dev hd

theorem sound_afterQuery (hs : Sound V site s) (hdev : DeviceOk V s.ghost.authored d dev.ledger)
    (hfront : ∀ n env, Unmarked (s.afterQuery d q dev) d n env →
      env.operations <+: dev.ledger.unsynced.map LocalOperation.toOperation)
    (hrec : ∀ n ∈ dev.remoteObjects, ∃ env, (n, env) ∈ s.ghost.stored) : Sound V site (s.afterQuery d q dev) where
  writes := hs.writes
  devices := by
    intro d'
    by_cases hd : d' = d
    · subst hd
      rw [afterQuery_device]
      exact hdev
    · rw [afterQuery_ne hd]
      exact hs.devices d'
  held := hs.held
  made := hs.made
  same := hs.same
  front := by
    intro d' n env hu
    by_cases hd : d' = d
    · subst hd
      rw [afterQuery_device]
      exact hfront n env hu
    · obtain ⟨henv, hk, ho⟩ := hu
      rw [afterQuery_ne hd] at ho ⊢
      exact hs.front d' n env ⟨henv, hk, ho⟩
  recorded := by
    intro d' n hn
    by_cases hd : d' = d
    · subst hd
      rw [afterQuery_device] at hn
      exact hrec n hn
    · rw [afterQuery_ne hd] at hn
      exact hs.recorded d' n hn

theorem rely_afterQuery {d' : D} (hd : d' ≠ d) : Rely d' s (s.afterQuery d q dev) := by
  have hdev : (s.afterQuery d q dev).device d' = s.device d' := afterQuery_ne hd
  refine ⟨by rw [hdev], by rw [hdev], fun o ho => by rwa [hdev], by rw [hdev], fun n env hu => ?_, by rw [hdev],
    fun _ h => h, fun _ h => h, s.ghost.queried_readAt_ne hd q _, rfl,
    s.ghost.queried_lastMerge_ne hd q _, s.ghost.queried_pulling_ne hd q _, rfl⟩
  obtain ⟨henv, hk, ho⟩ := hu
  rw [hdev] at ho
  exact ⟨henv, hk, ho⟩

end Query

/-! ## Devices -/

section Device

variable {A : Set (Operation β)} {L : Ledger β}

omit [DecidableEq D] in
/-- Moving the clock forward, in memory only. -/
theorem DeviceOk.observe (h : DeviceOk V A d L) {c : Clock} (hc : L.clock.time ≤ c.time) :
    DeviceOk V A d { L with clock := c } :=
  ⟨h.logged, h.unsent, h.own, fun x hx hd => (h.past x hx hd).mono hc, h.pastState, h.rows⟩

omit [DecidableEq D] in
theorem DeviceOk.initialise (h : DeviceOk V A d L) : DeviceOk V A d L.initialise :=
  ⟨h.logged, h.unsent, h.own, h.pastState, h.pastState, h.rows⟩

/-- The row of an entity is the one a table holds. -/
theorem rowAt_of_mem {e : EntityName} {r : Row β} (h : r ∈ L.tables e) : L.rowAt (e, r.id) = some r :=
  Table.get?_eq_some.mpr ⟨h, rfl⟩

theorem mem_of_rowAt {t : EntityName × JsString} {r : Row β} (h : L.rowAt t = some r) :
    r ∈ L.tables t.1 ∧ r.id = t.2 := Table.get?_eq_some.mp h

omit [DecidableEq D] in
theorem DeviceOk.merge (hA : Writes V A) (h : DeviceOk V A d L) {ops : List (Operation β)}
    (hops : ∀ op ∈ ops, Authored A op) : DeviceOk V A d (L.merge ops).1 := by
  have hc := fun op hop => hA.carries_of (hops op hop)
  have hm := Ledger.merge_merged hc (hA.coherent h.logged hops)
  refine ⟨fun o ho => ?_, fun o ho hs => ?_, fun x hx hd => ?_, fun x hx hd => ?_, fun x hx hd => ?_, fun e r hr => ?_⟩
  · rcases hm.fresh o ho with ho | ⟨hop, -, -⟩
    · exact h.logged o ho
    · exact hops _ hop
  · rcases hm.fresh o ho with ho | ⟨-, hs', -⟩
    · exact h.unsent o ho hs
    · rw [hs] at hs'
      cases hs'
  · obtain ⟨o, ho, rfl⟩ := h.own x hx hd
    exact ⟨o, hm.kept o ho, rfl⟩
  · rw [hm.clock]
    exact h.past x hx hd
  · rw [Ledger.merge_clockState hc (hA.coherent h.logged hops)]
    split_ifs with hnil
    · exact h.pastState x hx hd
    · exact h.past x hx hd
  · rcases hm.rows (e, r.id) with ⟨hrow, -⟩ | ⟨o, -, ht, hop, -, hrow⟩
    · rw [rowAt_of_mem hr] at hrow
      exact h.rows e r (mem_of_rowAt hrow.symm).1
    · rw [rowAt_of_mem hr] at hrow
      obtain ⟨x, hx, hsame⟩ := hops _ hop
      exact ⟨x, hx, hsame.target.symm.trans ht, (hsame.row.symm.trans hrow.symm)⟩

omit [DecidableEq D] in
theorem DeviceOk.markSynced (h : DeviceOk V A d L) (stamps : List Stamp) : DeviceOk V A d (L.markSynced stamps) := by
  refine ⟨fun o ho => ?_, fun o ho hs => ?_, fun x hx hd => ?_, fun x hx hd => ?_, fun x hx hd => ?_, fun e r hr => ?_⟩
  · obtain ⟨o', ho', rfl⟩ := Ledger.mem_markSynced.mp ho
    exact h.logged o' ho'
  · obtain ⟨o', ho', rfl⟩ := Ledger.mem_markSynced.mp ho
    exact h.unsent o' ho' (Bool.or_eq_false_iff.mp hs).1
  · obtain ⟨o, ho, rfl⟩ := h.own x hx hd
    exact ⟨_, Ledger.mem_markSynced.mpr ⟨o, ho, rfl⟩, rfl⟩
  · rw [Ledger.markSynced_clock]
    exact h.past x hx hd
  · rw [Ledger.markSynced_clockState]
    exact h.pastState x hx hd
  · rw [Ledger.markSynced_tables] at hr
    exact h.rows e r hr

end Device

/-! ## Steps of a cycle -/

/-- The step lemma for queries. -/
theorem sound_query {s : Store D β S} (hs : Sound V site s) {q : Query β} (hreq : Requested V d (.query q) s)
    (wall : ℕ → ℕ) (coin : ℕ) : Sound V site (s.afterQuery d q ((s.device d).answer wall coin q).2) := by
  have hfront : ∀ {dev : Device β}, dev.ledger.unsynced = (s.device d).ledger.unsynced →
      ∀ n env, Unmarked (s.afterQuery d q dev) d n env →
        env.operations <+: dev.ledger.unsynced.map LocalOperation.toOperation := by
    intro dev hdev n env hu
    obtain ⟨henv, hk, ho⟩ := hu
    rw [afterQuery_device, hdev] at ho
    rw [hdev]
    exact hs.front d n env ⟨henv, hk, ho⟩
  cases q with
  | record reason names =>
    refine sound_afterQuery hs (hs.devices d) (hfront rfl) (fun n hn => ?_)
    rcases Finset.mem_union.mp hn with hn | hn
    · exact hs.recorded d n hn
    · obtain ⟨env, henv, -⟩ := hreq n (List.mem_toFinset.mp hn)
      exact ⟨env, henv⟩
  | forget name =>
    exact sound_afterQuery hs (hs.devices d) (hfront rfl) (fun n hn => hs.recorded d n (Finset.mem_of_mem_erase hn))
  | observeStamps stamps =>
    exact sound_afterQuery hs ((hs.devices d).observe (Ledger.observeAll_time_le stamps wall _)) (hfront rfl)
      (hs.recorded d)
  | merge ops =>
    have hops := Mergeable.authored hreq
    exact sound_afterQuery hs ((hs.devices d).merge hs.writes hops) (hfront (merged_of_mergeable hs hops).unsynced)
      (hs.recorded d)
  | markSynced stamps =>
    obtain ⟨n, env, slice, rfl, hslice, -, -⟩ := hreq
    have hledger : ((s.afterQuery d (.markSynced (slice.map (fun o => o.hlc))) ((s.device d).answer wall coin
        (.markSynced (slice.map (fun o => o.hlc)))).2).device d).ledger =
        (s.device d).ledger.markSynced (slice.map (fun o => o.hlc)) := by
      rw [afterQuery_device]
      rfl
    have hnone := not_unmarked_of_marked hs hslice.front hslice.longest hledger rfl
    exact sound_afterQuery hs ((hs.devices d).markSynced _) (fun n env hu => absurd hu (hnone n env)) (hs.recorded d)
  | _ => exact sound_afterQuery hs (hs.devices d) (hfront rfl) (hs.recorded d)

/-- The step lemma for requests. -/
theorem sound_served {s s' : Store D β S} (hs : Sound V site s) {q : Request β} {r : Except SyncError q.Reply}
    (hreq : Requested V d q s) (h : Served site d q s r s') :
    Sound V site s' ∧ ∀ d', d' ≠ d → Rely d' s s' := by
  rcases h with ⟨wall, coin, h⟩ | h
  · cases q with
    | call c =>
      obtain ⟨-, rfl⟩ := Prod.mk.inj h
      have hadd := site.serve_holds d c s.dest
      exact ⟨sound_afterCall hs hreq hadd, fun d' hd => rely_afterCall hs hreq hadd hd⟩
    | query q =>
      obtain ⟨-, rfl⟩ := Prod.mk.inj h
      exact ⟨sound_query hs hreq wall coin, fun d' hd => rely_afterQuery hd⟩
  · cases h with
    | failed c s dest retryable h =>
      have hadd := site.mishap_holds d c s.dest dest h
      exact ⟨sound_afterCall hs hreq hadd, fun d' hd => rely_afterCall hs hreq hadd hd⟩

/-! ## Local edits -/

section Edit

variable {s : Store D β S} {L : Ledger β} {op : Operation β}

omit [DecidableEq D] in
/-- A new stamp is a new one. -/
theorem hlc_ne_of_edited (hs : Sound V site s) (he : Ledger.Edited (V.deviceId d) (s.device d).ledger L op) :
    ∀ x ∈ s.ghost.authored, x.hlc ≠ op.hlc := by
  intro x hx h
  obtain ⟨a, hxd, hxs⟩ := hs.writes.author x hx
  have had : a = d := V.distinct (hxs.symm.trans (by rw [h, he.stamp]; rfl))
  have hlt : x.hlc.time < op.hlc.time := by
    rw [he.stamp]
    exact lt_of_le_of_lt ((hs.devices d).past x hx (had ▸ hxd)) he.time
  exact absurd h (ne_of_apply_ne Stamp.time hlt.ne)

theorem afterEdit_device : (s.afterEdit d L op).device d = { s.device d with ledger := L } := Store.withDevice_self ..

theorem afterEdit_ne {d' : D} (hd : d' ≠ d) : (s.afterEdit d L op).device d' = s.device d' :=
  Store.withDevice_ne s _ hd

omit [DecidableEq D] in
theorem mem_oplog_of_edited (he : Ledger.Edited (V.deviceId d) (s.device d).ledger L op) {o : LocalOperation β} :
    o ∈ L.oplog ↔ o = ⟨op, false⟩ ∨ o ∈ (s.device d).ledger.oplog ∧ o.hlc ≠ op.hlc := by
  rw [he.oplog, Table.mem_put]

omit [DecidableEq D] in
theorem kept_of_edited (hs : Sound V site s) (he : Ledger.Edited (V.deviceId d) (s.device d).ledger L op)
    {o : LocalOperation β} (ho : o ∈ (s.device d).ledger.oplog) : o ∈ L.oplog := by
  obtain ⟨x, hx, hsame⟩ := (hs.devices d).logged o ho
  exact (mem_oplog_of_edited he).mpr (Or.inr ⟨ho, fun h => hlc_ne_of_edited hs he x hx (hsame.hlc.symm.trans h)⟩)

omit [DecidableEq D] in
theorem deviceOk_edited (hs : Sound V site s) (he : Ledger.Edited (V.deviceId d) (s.device d).ledger L op) :
    DeviceOk V (insert op s.ghost.authored) d L := by
  have hold := hs.devices d
  refine ⟨fun o ho => ?_, fun o ho hsent => ?_, fun x hx hd => ?_, fun x hx hd => ?_, fun x hx hd => ?_, fun e r hr => ?_⟩
  · rcases (mem_oplog_of_edited he).mp ho with rfl | ⟨ho, -⟩
    · exact authored_self (Set.mem_insert op _)
    · exact (hold.logged o ho).mono (fun x hx => Set.mem_insert_of_mem _ hx)
  · rcases (mem_oplog_of_edited he).mp ho with rfl | ⟨ho, -⟩
    · exact ⟨Set.mem_insert op _, he.author⟩
    · exact ⟨Set.mem_insert_of_mem _ (hold.unsent o ho hsent).1, (hold.unsent o ho hsent).2⟩
  · rcases hx with rfl | hx
    · exact ⟨⟨x, false⟩, (mem_oplog_of_edited he).mpr (Or.inl rfl), rfl⟩
    · obtain ⟨o, ho, rfl⟩ := hold.own x hx hd
      exact ⟨o, kept_of_edited hs he ho, rfl⟩
  · rcases hx with rfl | hx
    · rw [he.stamp]
      exact Clock.past_stamp _ _
    · exact (hold.past x hx hd).mono he.time.le
  · rw [he.clockState]
    rcases hx with rfl | hx
    · rw [he.stamp]
      exact Clock.past_stamp _ _
    · exact (hold.past x hx hd).mono he.time.le
  · have hrow := he.rows (e, r.id)
    rw [rowAt_of_mem hr] at hrow
    split_ifs at hrow with ht
    · exact ⟨op, Set.mem_insert op _, ht.symm, hrow.symm⟩
    · obtain ⟨x, hx, hxr⟩ := hold.rows e r (mem_of_rowAt hrow.symm).1
      exact ⟨x, Set.mem_insert_of_mem _ hx, hxr⟩

omit [DecidableEq D] in
theorem unsynced_edited (hs : Sound V site s) (he : Ledger.Edited (V.deviceId d) (s.device d).ledger L op) :
    L.unsynced = (s.device d).ledger.unsynced ++ [⟨op, false⟩] := by
  refine he.unsynced (fun o ho => ?_)
  obtain ⟨hlog, hsent⟩ := Ledger.mem_unsynced.mp ho
  obtain ⟨hA, hd⟩ := (hs.devices d).unsent o hlog hsent
  refine Stamp.lt_of_time_lt ?_
  rw [he.stamp]
  exact lt_of_le_of_lt ((hs.devices d).past _ hA hd) he.time

/-- No stored object ends in an operation that has only just been authored. -/
theorem unmarked_edited (hs : Sound V site s) (he : Ledger.Edited (V.deviceId d) (s.device d).ledger L op) {d' : D}
    {n : ObjectName} {env : Envelope β} (hu : Unmarked (s.afterEdit d L op) d' n env) : Unmarked s d' n env := by
  obtain ⟨henv, hk, o, ho, hstamp⟩ := hu
  refine ⟨henv, hk, ?_⟩
  by_cases hd : d' = d
  · subst hd
    rw [afterEdit_device, unsynced_edited hs he] at ho
    rcases List.mem_append.mp ho with ho | ho
    · exact ⟨o, ho, hstamp⟩
    · rw [List.mem_singleton.mp ho] at hstamp
      obtain ⟨a, ops, hobj⟩ := (hs.made n env henv).ops_of_kind hk
      obtain ⟨x, hx, hxs⟩ := hobj.head
      exact absurd (hxs.trans hstamp.symm) (hlc_ne_of_edited hs he x (hobj.authored x hx).1)
  · rw [afterEdit_ne hd] at ho
    exact ⟨o, ho, hstamp⟩

theorem sound_edited (hs : Sound V site s) (he : Ledger.Edited (V.deviceId d) (s.device d).ledger L op) :
    Sound V site (s.afterEdit d L op) where
  writes := by
    have hfresh := hlc_ne_of_edited hs he
    refine ⟨fun x hx => ?_, fun x hx => ?_, fun x hx => ?_, fun x hx y hy h => ?_⟩
    · rcases hx with rfl | hx
      · exact ⟨d, he.author, by rw [he.stamp]; rfl⟩
      · exact hs.writes.author x hx
    · rcases hx with rfl | hx
      · exact he.carries
      · exact hs.writes.carries x hx
    · rcases hx with rfl | hx
      · exact he.stamped
      · exact hs.writes.stamped x hx
    · rcases hx with rfl | hx <;> rcases hy with rfl | hy
      · rfl
      · exact absurd h.symm (hfresh y hy)
      · exact absurd h (hfresh x hx)
      · exact hs.writes.unique x hx y hy h
  devices := by
    intro d'
    by_cases hd : d' = d
    · subst hd
      rw [afterEdit_device]
      exact deviceOk_edited hs he
    · rw [afterEdit_ne hd]
      have hold := hs.devices d'
      have hother : ∀ x ∈ (s.afterEdit d L op).ghost.authored, x.device = V.deviceId d' → x ∈ s.ghost.authored := by
        intro x hx hxd
        rcases hx with rfl | hx
        · exact absurd (V.distinct (hxd.symm.trans he.author)) hd
        · exact hx
      exact ⟨fun o ho => (hold.logged o ho).mono (fun x hx => Set.mem_insert_of_mem _ hx),
        fun o ho h => ⟨Set.mem_insert_of_mem _ (hold.unsent o ho h).1, (hold.unsent o ho h).2⟩,
        fun x hx h => hold.own x (hother x hx h) h, fun x hx h => hold.past x (hother x hx h) h,
        fun x hx h => hold.pastState x (hother x hx h) h,
        fun e r hr => (hold.rows e r hr).imp (fun x hx => ⟨Set.mem_insert_of_mem _ hx.1, hx.2⟩)⟩
  held := hs.held
  made := fun n env henv => (hs.made n env henv).mono (fun x hx => Set.mem_insert_of_mem _ hx)
  same := hs.same
  front := by
    intro d' n env hu
    have hpre := hs.front d' n env (unmarked_edited hs he hu)
    by_cases hd : d' = d
    · subst hd
      rw [afterEdit_device]
      show _ <+: L.unsynced.map _
      rw [unsynced_edited hs he, List.map_append]
      exact hpre.trans (List.prefix_append _ _)
    · rw [afterEdit_ne hd]
      exact hpre
  recorded := by
    intro d' n hn
    by_cases hd : d' = d
    · subst hd
      rw [afterEdit_device] at hn
      exact hs.recorded d' n hn
    · rw [afterEdit_ne hd] at hn
      exact hs.recorded d' n hn

theorem rely_edited (hs : Sound V site s) (he : Ledger.Edited (V.deviceId d) (s.device d).ledger L op) (d' : D) :
    Rely d' s (s.afterEdit d L op) := by
  by_cases hd : d' = d
  · subst hd
    refine ⟨by rw [afterEdit_device], by rw [afterEdit_device], fun o ho => ?_, ?_,
      fun n env hu => unmarked_edited hs he hu, ?_, fun x hx => Set.mem_insert_of_mem _ hx, fun _ h => h, rfl, rfl,
      rfl, rfl, rfl⟩
    · rw [afterEdit_device]
      exact kept_of_edited hs he ho
    · rw [afterEdit_device]
      show _ <+: L.unsynced
      rw [unsynced_edited hs he]
      exact List.prefix_append _ _
    · rw [afterEdit_device]
      exact he.time.le
  · have hdev : (s.afterEdit d L op).device d' = s.device d' := afterEdit_ne hd
    exact ⟨by rw [hdev], by rw [hdev], fun o ho => by rwa [hdev], by rw [hdev],
      fun n env hu => unmarked_edited hs he hu, by rw [hdev], fun x hx => Set.mem_insert_of_mem _ hx, fun _ h => h,
      rfl, rfl, rfl, rfl, rfl⟩

end Edit

/-- What an edit is, whether it puts or removes. -/
theorem Edit.edited {s s' : Store D β S} (h : Edit V s s') :
    ∃ d L op, Ledger.Edited (V.deviceId d) (s.device d).ledger L op ∧ s' = s.afterEdit d L op := by
  cases h with
  | put d wall e id body L op h => exact ⟨d, L, op, Ledger.put_edited h, rfl⟩
  | remove d wall e id L op h => exact ⟨d, L, op, Ledger.remove_edited h, rfl⟩

/-! ## Restarts -/

theorem restart_device {s : Store D β S} :
    (restart d s).device d = { s.device d with ledger := (s.device d).ledger.initialise } := Store.withDevice_self ..

theorem restart_ne {s : Store D β S} {d' : D} (hd : d' ≠ d) : (restart d s).device d' = s.device d' :=
  Store.withDevice_ne s _ hd

theorem sound_restart {s : Store D β S} (hs : Sound V site s) (d : D) : Sound V site (restart d s) where
  writes := hs.writes
  devices := by
    intro d'
    by_cases hd : d' = d
    · subst hd
      rw [restart_device]
      exact (hs.devices d').initialise
    · rw [restart_ne hd]
      exact hs.devices d'
  held := hs.held
  made := hs.made
  same := hs.same
  front := by
    intro d' n env hu
    by_cases hd : d' = d
    · subst hd
      obtain ⟨henv, hk, ho⟩ := hu
      rw [restart_device] at ho ⊢
      exact hs.front d' n env ⟨henv, hk, ho⟩
    · obtain ⟨henv, hk, ho⟩ := hu
      rw [restart_ne hd] at ho ⊢
      exact hs.front d' n env ⟨henv, hk, ho⟩
  recorded := by
    intro d' n hn
    by_cases hd : d' = d
    · subst hd
      rw [restart_device] at hn
      exact hs.recorded d' n hn
    · rw [restart_ne hd] at hn
      exact hs.recorded d' n hn

theorem rely_restart {s : Store D β S} {d' : D} (hd : d' ≠ d) : Rely d' s (restart d s) := by
  have hdev : (restart d s).device d' = s.device d' := restart_ne hd
  refine ⟨by rw [hdev], by rw [hdev], fun o ho => by rwa [hdev], by rw [hdev], fun n env hu => ?_, by rw [hdev],
    fun _ h => h, fun _ h => h, rfl, rfl, rfl, rfl, rfl⟩
  obtain ⟨henv, hk, ho⟩ := hu
  rw [hdev] at ho
  exact ⟨henv, hk, ho⟩

/-! ## All runs -/

theorem sound_connect {s : Store D β S} (hs : Sound V site s) (d : D) :
    Sound V site { s with dest := site.connect d s.dest, ghost := s.ghost.begun d } :=
  ⟨hs.writes, hs.devices, fun _ hp => hs.held (site.connect_holds d s.dest hp), hs.made, hs.same, hs.front,
    hs.recorded⟩

/-- The invariant and the protocol carry through every run. -/
theorem soundRuns (V : Vault D) (site : Site D β S) :
    Threads.Sound (world V site) (Sound V site) (fun d => protocol V d site) (fun _ _ _ => True) where
  served := fun d q s r s' hs h hs' => ⟨hs, h, hs'⟩
  enter := by
    intro d s hs
    have hs' := sound_connect hs d
    refine ⟨hs', fun d' hd => ⟨?_, fun _ => hs'⟩, keeps_runCycle hs'⟩
    exact ⟨rfl, rfl, fun _ h => h, List.prefix_refl _, fun _ _ h => h, le_refl _, fun _ h => h, fun _ h => h, rfl, rfl,
      rfl, rfl, Function.update_of_ne hd _ _⟩
  step := by
    intro d q s r s' hs hreq h
    obtain ⟨hs', hrely⟩ := sound_served hs hreq h
    exact ⟨hs', fun d' hd => ⟨hrely d' hd, fun _ => hs'⟩⟩
  leave := by
    intro d r s hs _
    cases r with
    | ok a =>
      have hs' : Sound V site { s with ghost := s.ghost.ended d } :=
        ⟨hs.writes, hs.devices, hs.held, hs.made, hs.same, hs.front, hs.recorded⟩
      refine ⟨hs', fun d' hd => ⟨?_, fun _ => hs'⟩⟩
      exact ⟨rfl, rfl, fun _ h => h, List.prefix_refl _, fun _ _ h => h, le_refl _, fun _ h => h, fun _ h => h, rfl, rfl,
        rfl, rfl, rfl⟩
    | error e => exact ⟨hs, fun d' _ => ⟨Rely.refl d' s, fun h => h⟩⟩
  env := by
    intro s s' hs h
    obtain ⟨d, L, op, he, rfl⟩ := h.edited
    have hs' := sound_edited hs he
    exact ⟨hs', fun d' => ⟨rely_edited hs he d', fun _ => hs'⟩⟩
  crash := by
    intro d s hs
    have hs' := sound_restart hs d
    exact ⟨hs', fun d' hd => ⟨rely_restart hd, fun _ => hs'⟩⟩

omit [DecidableEq D] in
/-- Nothing has been written yet. -/
theorem sound_initial {dest : S} (h : site.holds dest = ∅) : Sound V site (Store.initial dest) where
  writes := ⟨fun _ h => h.elim, fun _ h => h.elim, fun _ h => h.elim, fun _ h => h.elim⟩
  devices := fun d => ⟨fun o ho => absurd ho (Table.not_mem_empty o), fun o ho => absurd ho (Table.not_mem_empty o),
    fun _ h => h.elim, fun _ h => h.elim, fun _ h => h.elim, fun e r hr => absurd hr (Table.not_mem_empty r)⟩
  held := by
    show site.holds dest ⊆ ∅
    rw [h]
  made := fun _ _ h => h.elim
  same := fun _ _ _ h => h.elim
  front := fun _ _ _ h => h.1.elim
  recorded := fun d n hn => absurd hn (Finset.notMem_empty n)

end EasyDocket
