import EasyDocket.Sync.Agreement

/-!
# What has been sent

What a run adds to stays: operations, objects ever stored, and what a log has on an entity.  An operation counts as sent
once it was in a stored object, at whatever destination, and an object of operations never comes to mean anything else.
-/

namespace EasyDocket

variable {D β S : Type} [DecidableEq D] {V : Vault D} {site : Site D β S} {d : D}

/-! ## What stays -/

/-- What steps add to, on all devices. -/
structure Grown (s s' : Store D β S) : Prop where
  authored : ∀ x ∈ s.ghost.authored, x ∈ s'.ghost.authored
  stored : ∀ p ∈ s.ghost.stored, p ∈ s'.ghost.stored
  dominates : ∀ d t x, (s.device d).ledger.Dominates t x → (s'.device d).ledger.Dominates t x

namespace Grown

omit [DecidableEq D] in
theorem refl (s : Store D β S) : Grown s s := ⟨fun _ h => h, fun _ h => h, fun _ _ _ h => h⟩

omit [DecidableEq D] in
theorem trans {s₁ s₂ s₃ : Store D β S} (h : Grown s₁ s₂) (h' : Grown s₂ s₃) : Grown s₁ s₃ :=
  ⟨fun x hx => h'.authored x (h.authored x hx), fun p hp => h'.stored p (h.stored p hp),
    fun d t x hd => h'.dominates d t x (h.dominates d t x hd)⟩

omit [DecidableEq D] in
theorem known {s s' : Store D β S} (h : Grown s s') {ops : List (Operation β)} (hk : Known (s.device d).ledger ops) :
    Known (s'.device d).ledger ops :=
  fun x hx => h.dominates d _ _ (hk x hx)

/-- A step on one device that adds to its log. -/
theorem update {s s' : Store D β S} (ha : ∀ x ∈ s.ghost.authored, x ∈ s'.ghost.authored)
    (hst : ∀ p ∈ s.ghost.stored, p ∈ s'.ghost.stored) (d : D) (hne : ∀ d', d' ≠ d → s'.device d' = s.device d')
    (hd : ∀ t x, (s.device d).ledger.Dominates t x → (s'.device d).ledger.Dominates t x) : Grown s s' := by
  refine ⟨ha, hst, fun d' t x h => ?_⟩
  by_cases hdd : d' = d
  · rw [hdd] at h ⊢
    exact hd t x h
  · rw [hne d' hdd]
    exact h

end Grown

theorem Ledger.Dominates.markSynced {L : Ledger β} {t : EntityName × JsString} {x : Stamp} (h : L.Dominates t x)
    (stamps : List Stamp) : (L.markSynced stamps).Dominates t x := by
  obtain ⟨o, ho, ht, hle⟩ := h
  exact ⟨_, Ledger.mem_markSynced.mpr ⟨o, ho, rfl⟩, ht, hle⟩

theorem grown_served {s s' : Store D β S} (hs : Sound V site s) {q : Request β} {r : Except SyncError q.Reply}
    (hreq : Requested V d q s) (h : Served site d q s r s') : Grown s s' := by
  rcases h with ⟨wall, coin, h⟩ | h
  · cases q with
    | call c =>
      obtain ⟨-, rfl⟩ := Prod.mk.inj h
      exact ⟨fun _ h => h, fun _ h => Or.inl h, fun _ _ _ h => h⟩
    | query q =>
      obtain ⟨-, rfl⟩ := Prod.mk.inj h
      refine Grown.update (fun _ h => h) (fun _ h => h) d (fun d' hd => afterQuery_ne hd) ?_
      rw [afterQuery_device]
      cases q with
      | merge ops => exact fun t x h => h.mono (merged_of_mergeable hs (Mergeable.authored hreq)).kept
      | markSynced stamps => exact fun t x h => h.markSynced stamps
      | _ => exact fun t x h => h
  · cases h
    exact ⟨fun _ h => h, fun _ h => Or.inl h, fun _ _ _ h => h⟩

theorem grown_edited {s : Store D β S} (hs : Sound V site s) {L : Ledger β} {op : Operation β}
    (he : Ledger.Edited (V.deviceId d) (s.device d).ledger L op) : Grown s (s.afterEdit d L op) := by
  refine Grown.update (fun _ hx => Set.mem_insert_of_mem _ hx) (fun _ h => h) d (fun d' hd => afterEdit_ne hd) ?_
  rw [afterEdit_device]
  rintro t x ⟨o, ho, hot, hle⟩
  exact ⟨o, kept_of_edited hs he ho, hot, hle⟩

theorem grown_restart (s : Store D β S) (d : D) : Grown s (restart d s) := by
  refine Grown.update (fun _ h => h) (fun _ h => h) d (fun d' hd => restart_ne hd) ?_
  rw [restart_device]
  exact fun t x h => h

/-- The step lemma: whatever the system does only adds to what stays. -/
theorem grown_step {c c' : State D β S}
    (hc : Threads.Kept (Sound V site) (fun d => protocol V d site) (fun _ _ _ => True) c) (h : (world V site).Step c c') :
    Grown c.store c'.store := by
  cases h with
  | enter d h => exact ⟨fun _ h => h, fun _ h => h, fun _ _ _ h => h⟩
  | ask d q k r s h hserved => exact grown_served hc.1 (hc.pre h) hserved
  | done d a h => exact ⟨fun _ h => h, fun _ h => h, fun _ _ _ h => h⟩
  | failed d e h => exact Grown.refl c.store
  | env s h =>
    obtain ⟨d, L, op, he, rfl⟩ := h.edited
    exact grown_edited hc.1 he
  | crash d => exact grown_restart c.store d

/-- The run lemma. -/
theorem grown_reach {c c' : State D β S}
    (hc : Threads.Kept (Sound V site) (fun d => protocol V d site) (fun _ _ _ => True) c) (h : (world V site).Reach c c') :
    Grown c.store c'.store := by
  induction h with
  | refl => exact Grown.refl c.store
  | tail hreach hstep ih => exact ih.trans (grown_step ((soundRuns V site).reach hc hreach) hstep)

theorem kept_of_reach {dest : S} (hdest : site.holds dest = ∅) {c : State D β S} (h : (world V site).Reach (start dest) c) :
    Threads.Kept (Sound V site) (fun d => protocol V d site) (fun _ _ _ => True) c :=
  (soundRuns V site).reach (Threads.kept_of_idle (sound_initial hdest) (fun _ => rfl)) h

/-! ## Objects of operations -/

/-- An object of operations, whenever it is stored: some device's own operations in the order of their stamps, the last of
them in the name. -/
structure Batch (V : Vault D) (A : Set (Operation β)) (n : ObjectName) (ops : List (Operation β)) : Prop where
  own : ∃ a, ∀ x ∈ ops, x ∈ A ∧ x.device = V.deviceId a
  sorted : ops.Pairwise (fun x y => x.hlc < y.hlc)
  last : ∃ x, ops.getLast? = some x ∧ x.hlc = n.stamp
  small : ops.length ≤ MAX_OPS_PER_BATCH

omit [DecidableEq D] in
theorem OpsObject.batch {A : Set (Operation β)} {n : ObjectName} {env : Envelope β} {a : D} {ops : List (Operation β)}
    (h : OpsObject V A n env a ops) : Batch V A n ops := by
  refine ⟨⟨a, h.authored⟩, h.sorted, ?_, h.small⟩
  obtain ⟨x, hx, hhead⟩ := h.head
  cases hlast : ops.getLast? with
  | none =>
    rw [List.getLast?_eq_none_iff.mp hlast] at hx
    exact absurd hx List.not_mem_nil
  | some y =>
    refine ⟨y, rfl, le_antisymm (h.le y (List.mem_of_getLast? hlast)) ?_⟩
    obtain ⟨init, rfl⟩ := List.getLast?_eq_some_iff.mp hlast
    rcases List.mem_append.mp hx with hx | hx
    · rw [← hhead]
      exact ((List.pairwise_append.mp h.sorted).2.2 x hx y List.mem_cons_self).le
    · rw [← hhead, List.mem_singleton.mp hx]

/-- Whatever is stored under the name of an object of operations, now and at any later time of any run, holds the same
operations. -/
theorem operations_immutable {dest : S} (hdest : site.holds dest = ∅) {c c' : State D β S}
    (h : (world V site).Reach (start dest) c) (h' : (world V site).Reach c c') {n : ObjectName} {env env' : Envelope β}
    (henv : (n, env) ∈ c.store.ghost.stored) (henv' : (n, env') ∈ c'.store.ghost.stored) (hk : n.kind = .ops) :
    env'.operations = env.operations ∧ Batch V c.store.ghost.authored n env.operations := by
  have hc := kept_of_reach hdest h
  have hs' := (kept_of_reach hdest (h.trans h')).1
  refine ⟨(hs'.same n env env' ((grown_reach hc h').stored _ henv) henv' hk).symm, ?_⟩
  obtain ⟨a, ops, hobj⟩ := (hc.1.made n env henv).ops_of_kind hk
  rw [hobj.operations]
  exact hobj.batch

/-- Device `a` has put an object, and is closed before it records that. -/
def cutOff : TrioState := trioPlay trioStart [.put .a 5 .accounts (js "x") (), .begin .a, .ask .a 6 6]

/-- It is opened again, and begins a cycle. -/
def openedAgain : TrioState := trioPlay ⟨restart .a cutOff.store, Function.update cutOff.running .a none⟩ [.begin .a]

/-- The cycle has put the object again, sealed anew. -/
def sealedAnew : TrioState :=
  ⟨trioWorld.leave .a ((trioWorld.body .a).run (serve (mapSite Trio Unit) .a (fun _ => 7) 1) openedAgain.store).1
    ((trioWorld.body .a).run (serve (mapSite Trio Unit) .a (fun _ => 7) 1) openedAgain.store).2,
    Function.update openedAgain.running .a none⟩

/-- What is stored under a name a second time, after the first was not recorded, holds the same operations. -/
theorem operations_immutable_sealedAnew : ∃ n env env', (n, env) ∈ cutOff.store.ghost.stored ∧
    (n, env') ∈ sealedAnew.store.ghost.stored ∧ env'.iv ≠ env.iv ∧ env'.operations = env.operations ∧
    Batch trio cutOff.store.ghost.authored n env.operations := by
  have hreach : trioWorld.Reach trioStart cutOff := reach_play _
  have hclosed : trioWorld.Reach cutOff ⟨restart .a cutOff.store, Function.update cutOff.running .a none⟩ :=
    Relation.ReflTransGen.single (Threads.Step.crash cutOff .a)
  have hopened : trioWorld.Reach _ openedAgain := reach_play _
  have hafter : trioWorld.Reach cutOff sealedAnew := (hclosed.trans hopened).trans (reach_cycle rfl 7 1)
  have hobject : ∃ p ∈ cutOff.store.dest.rows, ∃ p' ∈ sealedAnew.store.dest.rows, p.1.kind = .ops ∧ p'.1 = p.1 ∧
      p'.2.iv ≠ p.2.iv := by decide +kernel
  obtain ⟨⟨n, env⟩, hp, ⟨_, env'⟩, hp', hk, rfl, hiv⟩ := hobject
  have hstored := (kept_of_reach mapSite_empty hreach).1.held hp
  have hstored' := (kept_of_reach mapSite_empty (hreach.trans hafter)).1.held hp'
  obtain ⟨hsame, hbatch⟩ := operations_immutable mapSite_empty hreach hafter hstored hstored' hk
  exact ⟨_, env, env', hstored, hstored', hiv, hsame, hbatch⟩

/-! ## Sent operations -/

/-- An operation was in an object that has been stored. -/
def Stored (s : Store D β S) (x : Operation β) : Prop :=
  ∃ n env, (n, env) ∈ s.ghost.stored ∧ n.kind = .ops ∧ x ∈ env.operations

/-- What counts as sent on the device that authored it has been stored. -/
def SentStored (V : Vault D) (s : Store D β S) : Prop :=
  ∀ d, ∀ o ∈ (s.device d).ledger.oplog, o.synced = true → o.toOperation ∈ s.ghost.authored → o.device = V.deviceId d →
    Stored s o.toOperation

omit [DecidableEq D] in
theorem Stored.grown {s s' : Store D β S} {x : Operation β} (h : Stored s x) (hg : Grown s s') : Stored s' x := by
  obtain ⟨n, env, henv, hk, hx⟩ := h
  exact ⟨n, env, hg.stored _ henv, hk, hx⟩

/-- What has to be checked when the log of one device changes. -/
theorem sentStored_update {s s' : Store D β S} (h : SentStored V s) (hg : Grown s s')
    (ha : s'.ghost.authored = s.ghost.authored) (d : D) (hne : ∀ d', d' ≠ d → s'.device d' = s.device d')
    (hd : ∀ o ∈ (s'.device d).ledger.oplog, o.synced = true → o.toOperation ∈ s.ghost.authored →
      o.device = V.deviceId d → o ∈ (s.device d).ledger.oplog ∨ Stored s' o.toOperation) : SentStored V s' := by
  intro d' o ho hsync hA hdev
  rw [ha] at hA
  by_cases hdd : d' = d
  · subst hdd
    rcases hd o ho hsync hA hdev with hold | hnew
    · exact (h d' o hold hsync hA hdev).grown hg
    · exact hnew
  · rw [hne d' hdd] at ho
    exact (h d' o ho hsync hA hdev).grown hg

/-- The step lemma: a request. -/
theorem sentStored_served {s s' : Store D β S} (hs : Sound V site s) (h : SentStored V s) {q : Request β}
    {r : Except SyncError q.Reply} (hreq : Requested V d q s) (hserved : Served site d q s r s') : SentStored V s' := by
  have hg := grown_served hs hreq hserved
  rcases hserved with ⟨wall, coin, heq⟩ | hmis
  · cases q with
    | call c =>
      obtain ⟨-, rfl⟩ := Prod.mk.inj heq
      exact sentStored_update h hg rfl d (fun _ _ => rfl) (fun o ho _ _ _ => Or.inl ho)
    | query q =>
      obtain ⟨-, rfl⟩ := Prod.mk.inj heq
      refine sentStored_update h hg rfl d (fun d' hd => afterQuery_ne hd) ?_
      rw [afterQuery_device]
      cases q with
      | merge ops =>
        intro o ho _ hA hdev
        have hm := merged_of_mergeable (d := d) hs (Mergeable.authored hreq)
        rcases hm.fresh o ho with hold | ⟨-, -, hnot⟩
        · exact Or.inl hold
        · exact absurd (dominates_own hs hA hdev) hnot
      | markSynced stamps =>
        intro o ho _ hA hdev
        obtain ⟨n, env, slice, rfl, hslice, henv, hobj⟩ := hreq
        obtain ⟨o', ho', rfl⟩ := Ledger.mem_markSynced.mp ho
        by_cases hmem : o'.hlc ∈ slice.map (fun o => o.hlc)
        · -- it is in the slice that has been stored
          obtain ⟨o'', ho'', heq⟩ := List.mem_map.mp hmem
          have hlog := (Ledger.mem_unsynced.mp (hslice.front.subset ho'')).1
          obtain rfl : o'' = o' := Table.eq_of_key_eq hlog ho' heq
          refine Or.inr ⟨n, env, henv, hobj.kind, ?_⟩
          rw [hobj.operations]
          exact List.mem_map.mpr ⟨o'', ho'', rfl⟩
        · refine Or.inl ?_
          simp only [hmem, decide_false, Bool.or_false]
          exact ho'
      | _ => exact fun o ho _ _ _ => Or.inl ho
  · cases hmis
    exact sentStored_update h hg rfl d (fun _ _ => rfl) (fun o ho _ _ _ => Or.inl ho)

/-- The step lemma: a local edit. -/
theorem sentStored_edited {s : Store D β S} (hs : Sound V site s) (h : SentStored V s) {L : Ledger β}
    {op : Operation β} (he : Ledger.Edited (V.deviceId d) (s.device d).ledger L op) :
    SentStored V (s.afterEdit d L op) := by
  have hg := grown_edited hs he
  intro d' o ho hsync hA hdev
  by_cases hdd : d' = d
  · subst hdd
    rw [afterEdit_device] at ho
    rcases (mem_oplog_of_edited he).mp ho with rfl | ⟨ho, hne⟩
    · cases hsync
    · rcases hA with heq | hA
      · exact absurd (congrArg Operation.hlc heq) hne
      · exact (h d' o ho hsync hA hdev).grown hg
  · rw [afterEdit_ne hdd] at ho
    obtain ⟨y, hy, hsame⟩ := (hs.devices d').logged o ho
    rcases hA with heq | hA
    · exact absurd (hsame.hlc.symm.trans (congrArg Operation.hlc heq)) (hlc_ne_of_edited hs he y hy)
    · exact (h d' o ho hsync hA hdev).grown hg

/-- The step lemma: a restart. -/
theorem sentStored_restart {s : Store D β S} (h : SentStored V s) (d : D) : SentStored V (restart d s) := by
  refine sentStored_update h (grown_restart s d) rfl d (fun d' hd => restart_ne hd) ?_
  rw [restart_device]
  exact fun o ho _ _ _ => Or.inl ho

theorem sentRuns (V : Vault D) (site : Site D β S) :
    Threads.Sound ((world V site).restrict (fun _ _ _ _ => True) (fun _ _ => True))
      (fun s => Sound V site s ∧ SentStored V s) (fun d => protocol V d site) (fun _ _ _ => True) := by
  refine (soundRuns V site).strengthen (fun d s _ h => h) ?_ ?_ ?_ (fun d s _ h => sentStored_restart h d)
  · exact fun d q s r s' hs h hreq hserved _ _ => sentStored_served hs h hreq hserved
  · intro d r s _ h
    cases r <;> exact h
  · intro s s' hs h hedit _ _
    obtain ⟨d, L, op, he, rfl⟩ := hedit.edited
    exact sentStored_edited hs h he

omit [DecidableEq D] in
theorem sentStored_initial (dest : S) : SentStored V (Store.initial dest : Store D β S) :=
  fun _ o ho => absurd ho (Table.not_mem_empty o)

/-- The invariants of all runs. -/
theorem sent_of_reach {dest : S} (hdest : site.holds dest = ∅) {c : State D β S} (h : (world V site).Reach (start dest) c) :
    Sound V site c.store ∧ SentStored V c.store :=
  ((sentRuns V site).reach (Threads.kept_of_idle ⟨sound_initial hdest, sentStored_initial dest⟩ (fun _ => rfl))
    (h.restrict (fun _ _ _ _ => trivial) (fun _ _ => trivial))).1

omit [DecidableEq D] in
theorem pending_or_stored {s : Store D β S} (hs : Sound V site s) (h : SentStored V s) {x : Operation β}
    (hx : x ∈ s.ghost.authored) (hd : x.device = V.deviceId d) :
    (∃ o ∈ (s.device d).ledger.unsynced, o.toOperation = x) ∨ Stored s x := by
  obtain ⟨o, ho, rfl⟩ := (hs.devices d).own x hx hd
  cases hsync : o.synced with
  | false => exact Or.inl ⟨o, Ledger.mem_unsynced.mpr ⟨ho, hsync⟩, rfl⟩
  | true => exact Or.inr (h d o ho hsync hx hd)

/-- In every run, at any destination: an edit is still in the queue of its device, or it was in a stored object. -/
theorem queued_or_stored {dest : S} (hdest : site.holds dest = ∅) {c : State D β S}
    (h : (world V site).Reach (start dest) c) {x : Operation β} (hx : x ∈ c.store.ghost.authored) :
    ∃ d, x.device = V.deviceId d ∧
      ((∃ o ∈ (c.store.device d).ledger.unsynced, o.toOperation = x) ∨ Stored c.store x) := by
  obtain ⟨hs, hsent⟩ := sent_of_reach hdest h
  obtain ⟨d, hd, -⟩ := hs.writes.author x hx
  exact ⟨d, hd, pending_or_stored hs hsent hx hd⟩

/-- What device `b` logged in a run was an edit that the run has not lost. -/
theorem queued_or_stored_mergedOne : ∃ x ∈ mergedOne.store.ghost.authored, ∃ d, x.device = trio.deviceId d ∧
    ((∃ o ∈ (mergedOne.store.device d).ledger.unsynced, o.toOperation = x) ∨ Stored mergedOne.store x) := by
  have hreach : trioWorld.Reach trioStart mergedOne := reach_play _
  have hlogged : ∃ o ∈ (mergedOne.store.device .b).ledger.oplog.rows, o.synced = true := by decide +kernel
  obtain ⟨o, ho, -⟩ := hlogged
  obtain ⟨x, hx, -⟩ := ((kept_of_reach mapSite_empty hreach).1.devices .b).logged o ho
  exact ⟨x, hx, queued_or_stored mapSite_empty hreach hx⟩

end EasyDocket
