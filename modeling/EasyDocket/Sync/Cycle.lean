import EasyDocket.Sync.Invariant

/-!
# What one cycle asks

A cycle, whatever others do in between, asks every request as `Requested` says.  The program is walked through piece
by piece: `applySnapshot`, the downloads of `pull`, the slices of `push`, the tables of `writeSnapshot`, `prune`.
-/

namespace EasyDocket

open SyncService

variable {D β S : Type} [DecidableEq D] {V : Vault D} {site : Site D β S} {d : D}

/-! ## Rules for requests -/

/-- `wp` of a program of the engine; how it may fail does not matter. -/
def Keeps (V : Vault D) (site : Site D β S) (d : D) {α : Type} (post : α → Store D β S → Prop) (p : Sync β α)
    (s : Store D β S) : Prop :=
  (protocol V d site).wp post (fun _ _ => True) p s

namespace Keeps

variable {α γ : Type} {post : α → Store D β S → Prop} {s : Store D β S}

theorem bind {p : Sync β γ} {f : γ → Sync β α} {mid : γ → Store D β S → Prop} (hp : Keeps V site d mid p s)
    (hf : ∀ a s, mid a s → Keeps V site d post (f a) s) : Keeps V site d post (p >>= f) s :=
  Protocol.wp_bind (Protocol.wp_mono hp hf (fun _ _ h => h))

theorem pure {a : α} (h : ∀ s', Rely d s s' → (Sound V site s → Sound V site s') → post a s') :
    Keeps V site d post (Pure.pure a) s := fun s' hr => h s' hr.1 hr.2

theorem throw (e : SyncError) : Keeps V site d post (throw e : Sync β α) s := fun _ _ => trivial

theorem mono {p : Sync β α} {post' : α → Store D β S → Prop} (hp : Keeps V site d post p s)
    (h : ∀ a s, post a s → post' a s) : Keeps V site d post' p s :=
  Protocol.wp_mono hp h (fun _ _ h => h)

/-- A query: it is asked after steps of others, and answered by the device. -/
theorem query {q : Query β} {f : q.Reply → Sync β α} (hs : Sound V site s)
    (hpre : ∀ s', Rely d s s' → Sound V site s' → Requested V d (.query q) s')
    (hok : ∀ s' wall coin a, Rely d s s' → Sound V site s' → ((s'.device d).answer wall coin q).1 = .ok a →
      Sound V site (s'.afterQuery d q ((s'.device d).answer wall coin q).2) →
      Keeps V site d post (f a) (s'.afterQuery d q ((s'.device d).answer wall coin q).2)) :
    Keeps V site d post (Sync.query q >>= f) s := by
  refine Protocol.wp_request (I := fun s' => Rely d s s' ∧ Sound V site s') ?_ ⟨Rely.refl d s, hs⟩
    (fun s' h => hpre s' h.1 h.2) (fun _ _ => trivial) ?_
  · exact fun s₁ s₂ h hr => ⟨h.1.trans hr.1, hr.2 h.2⟩
  · rintro s' a s'' ⟨hr, hs'⟩ ⟨-, hserved, hs''⟩
    rcases hserved with ⟨wall, coin, h⟩ | h
    · obtain ⟨h1, h2⟩ := Prod.mk.inj h
      subst h2
      exact hok s' wall coin a hr hs' h1 hs''
    · cases h

/-- A call: it is asked after steps of others, and answered by the destination. -/
theorem call {c : Call β} {f : c.Reply → Sync β α} (hs : Sound V site s)
    (hpre : ∀ s', Rely d s s' → Sound V site s' → Requested V d (.call c) s')
    (hok : ∀ s' a, Rely d s s' → Sound V site s' → (site.serve d c s'.dest).1 = .ok a →
      Sound V site (s'.afterCall site d c (site.serve d c s'.dest).2) →
      Keeps V site d post (f a) (s'.afterCall site d c (site.serve d c s'.dest).2)) :
    Keeps V site d post (Sync.call c >>= f) s := by
  refine Protocol.wp_request (I := fun s' => Rely d s s' ∧ Sound V site s') ?_ ⟨Rely.refl d s, hs⟩
    (fun s' h => hpre s' h.1 h.2) (fun _ _ => trivial) ?_
  · exact fun s₁ s₂ h hr => ⟨h.1.trans hr.1, hr.2 h.2⟩
  · rintro s' a s'' ⟨hr, hs'⟩ ⟨-, hserved, hs''⟩
    rcases hserved with ⟨wall, coin, h⟩ | h
    · obtain ⟨h1, h2⟩ := Prod.mk.inj h
      subst h2
      exact hok s' a hr hs' h1 hs''
    · cases h

end Keeps

/-! ## Facts that last -/

/-- What a step only adds to. -/
structure Later (d : D) (s s' : Store D β S) : Prop where
  authored : ∀ x ∈ s.ghost.authored, x ∈ s'.ghost.authored
  stored : ∀ p ∈ s.ghost.stored, p ∈ s'.ghost.stored
  dominates : ∀ t x, (s.device d).ledger.Dominates t x → (s'.device d).ledger.Dominates t x
  clock : (s.device d).ledger.clock.time ≤ (s'.device d).ledger.clock.time

omit [DecidableEq D] in
theorem Rely.later {s s' : Store D β S} (h : Rely d s s') : Later d s s' :=
  ⟨h.authored, h.stored, fun _ _ hd => hd.mono h.oplog, h.clock⟩

omit [DecidableEq D] in
theorem Later.trans {s₁ s₂ s₃ : Store D β S} (h : Later d s₁ s₂) (h' : Later d s₂ s₃) : Later d s₁ s₃ :=
  ⟨fun x hx => h'.authored x (h.authored x hx), fun p hp => h'.stored p (h.stored p hp),
    fun t x hd => h'.dominates t x (h.dominates t x hd), h.clock.trans h'.clock⟩

omit [DecidableEq D] in
theorem Later.known {s s' : Store D β S} (h : Later d s s') {ops : List (Operation β)}
    (hk : Known (s.device d).ledger ops) : Known (s'.device d).ledger ops :=
  fun x hx => h.dominates _ _ (hk x hx)

theorem later_call {s : Store D β S} (c : Call β) (dest : S) : Later d s (s.afterCall site d c dest) :=
  ⟨fun _ h => h, fun _ h => Or.inl h, fun _ _ h => h, le_refl _⟩

omit [DecidableEq D] in
theorem OpsObject.later {s s' : Store D β S} {n : ObjectName} {env : Envelope β} {a : D} {ops : List (Operation β)}
    (h : OpsObject V s.ghost.authored n env a ops) (hl : ∀ x ∈ s.ghost.authored, x ∈ s'.ghost.authored) :
    OpsObject V s'.ghost.authored n env a ops :=
  { h with authored := fun x hx => ⟨hl x (h.authored x hx).1, (h.authored x hx).2⟩ }

omit [DecidableEq D] in
theorem SnapshotObject.later {s s' : Store D β S} {n : ObjectName} {env : Envelope β} {a : D}
    {value : LedgerSnapshot β} (h : SnapshotObject V s.ghost.authored n env a value)
    (hl : ∀ x ∈ s.ghost.authored, x ∈ s'.ghost.authored) : SnapshotObject V s'.ghost.authored n env a value :=
  { h with rows := fun op hop => (h.rows op hop).mono hl }

theorem later_query {s : Store D β S} {q : Query β} {dev : Device β}
    (hd : ∀ t x, (s.device d).ledger.Dominates t x → dev.ledger.Dominates t x)
    (hc : (s.device d).ledger.clock.time ≤ dev.ledger.clock.time) : Later d s (s.afterQuery d q dev) := by
  have hdev : (s.afterQuery d q dev).device d = dev := Store.withDevice_self s d dev
  refine ⟨fun _ h => h, fun _ h => h, fun t x h => ?_, ?_⟩
  · rw [hdev]
    exact hd t x h
  · rw [hdev]
    exact hc

@[simp] theorem afterQuery_device {s : Store D β S} {q : Query β} {dev : Device β} :
    (s.afterQuery d q dev).device d = dev := Store.withDevice_self s d dev

omit [DecidableEq D] in
/-- A listing names stored objects. -/
theorem stored_of_list {s : Store D β S} (hs : Sound V site s) {v : JsString} {k : ObjectKind}
    {ns : List ObjectName} (h : (site.serve d (.list v k) s.dest).1 = .ok ns) :
    ∀ n ∈ ns, n.kind = k ∧ ∃ env, (n, env) ∈ s.ghost.stored := by
  intro n hn
  obtain ⟨-, hk, env, he⟩ := site.list_holds d v k s.dest ns h n hn
  exact ⟨hk, env, hs.held he⟩

omit [DecidableEq D] in
/-- A download is a stored object. -/
theorem stored_of_get {s : Store D β S} (hs : Sound V site s) {n : ObjectName} {env : Envelope β}
    (h : (site.serve d (.get n) s.dest).1 = .ok env) : (n, env) ∈ s.ghost.stored :=
  hs.held (site.get_holds d n s.dest env h)

/-- After observing stamps the clock is past them, and the log has not changed. -/
theorem observed {dev : Device β} {wall : ℕ → ℕ} {coin : ℕ} {stamps : List Stamp} {u : Unit}
    (h : (dev.answer wall coin (.observeStamps stamps)).1 = .ok u) :
    ∀ x ∈ stamps, (dev.answer wall coin (.observeStamps stamps)).2.ledger.clock.Past x := by
  have hok : (Ledger.observeAll wall stamps dev.ledger.clock).1 = .ok () := by
    cases hr : (Ledger.observeAll wall stamps dev.ledger.clock).1 with
    | ok u => rfl
    | error e =>
      simp only [Device.answer, Ledger.observeStamps, hr] at h
      cases h
  exact Ledger.past_of_observeAll stamps wall dev.ledger.clock hok

omit [DecidableEq D] in
/-- Every operation that may be merged is authored. -/
theorem Mergeable.authored {s : Store D β S} {ops : List (Operation β)} (h : Mergeable V d ops s) :
    ∀ op ∈ ops, Authored s.ghost.authored op := by
  rcases h with h | ⟨n, env, a, value, -, hobj, rfl, -⟩
  · exact fun op hop => authored_self (h op hop).1
  · exact hobj.rows

omit [DecidableEq D] in
/-- What merging authored operations does on a device. -/
theorem merged_of_mergeable {s : Store D β S} (hs : Sound V site s) {ops : List (Operation β)}
    (h : ∀ op ∈ ops, Authored s.ghost.authored op) :
    Ledger.Merged ops (s.device d).ledger ((s.device d).ledger.merge ops).1 :=
  Ledger.merge_merged (fun op hop => hs.writes.carries_of (h op hop))
    (hs.writes.coherent (hs.devices d).logged h)

theorem later_observe {s : Store D β S} (stamps : List Stamp) (wall : ℕ → ℕ) (coin : ℕ) :
    Later d s (s.afterQuery d (.observeStamps stamps) ((s.device d).answer wall coin (.observeStamps stamps)).2) :=
  later_query (fun _ _ hd => hd) (Ledger.observeAll_time_le stamps wall _)

/-! ## Pulling -/

/-- After `applySnapshot`: a device knows the snapshot it has applied. -/
def Applied (V : Vault D) (site : Site D β S) (d : D) (r : Option Stamp × Finset ObjectName) (s : Store D β S) :
    Prop :=
  Sound V site s ∧ (r.1 ≠ none → Known (s.device d).ledger (s.ghost.lastMerge d))

theorem keeps_applySnapshot {s : Store D β S} (hs : Sound V site s) (seen : Finset ObjectName) :
    Keeps V site d (Applied V site d) (applySnapshot (V.session d) seen) s := by
  unfold applySnapshot
  refine Keeps.call hs (fun _ _ _ => trivial) (fun s₁ ns hr₁ hs₁ hlist hs₁' => ?_)
  cases hlast : List.getLast? ns with
  | none => exact Keeps.pure (fun s' _ h => ⟨h hs₁', fun hw => absurd rfl hw⟩)
  | some newest =>
    have hstored := stored_of_list hs₁ hlist newest (List.mem_of_getLast? hlast)
    show Keeps V site d _ (if newest ∈ seen then _ else _) _
    split_ifs with hseen
    · exact Keeps.pure (fun s' _ h => ⟨h hs₁', fun hw => absurd rfl hw⟩)
    refine Keeps.call hs₁' (fun _ _ _ => trivial) (fun s₂ env hr₂ hs₂ hget hs₂' => ?_)
    have henv := stored_of_get hs₂ hget
    obtain ⟨a, value, hobj⟩ := (hs₂.made newest env henv).snapshot_of_kind hstored.1
    have hopen : openSnapshot env = (Pure.pure value : Sync β _) := by
      unfold openSnapshot
      rw [hobj.payload]
    rw [hopen]
    show Keeps V site d _ (if env.header.v ≠ (V.session d).vault then _ else _) _
    split_ifs with hv
    · exact Keeps.pure (fun s' _ h => ⟨h hs₂', fun hw => absurd rfl hw⟩)
    refine Keeps.query hs₂' (fun _ _ _ => trivial) (fun s₃ wall coin _ hr₃ hs₃ hobs hs₃' => ?_)
    have hpast := observed hobs value.watermark List.mem_cons_self
    have hl₃ := (later_call (.get newest) (site.serve d (.get newest) s₂.dest).2).trans
      (hr₃.later.trans (later_observe [value.watermark] wall coin))
    refine Keeps.query hs₃' (fun s₄ hr₄ hs₄ => Or.inr ⟨newest, env, a, value, ?_, ?_, rfl, ?_⟩)
      (fun s₄ wall' coin' _ hr₄ hs₄ _ hs₄' => ?_)
    · exact hr₄.stored _ (hl₃.stored _ henv)
    · exact hobj.later (fun x hx => hr₄.authored x (hl₃.authored x hx))
    · refine Clock.Past.mono ?_ hr₄.clock
      rw [afterQuery_device]
      exact hpast
    have hl₄ := hl₃.trans hr₄.later
    have hrows : ∀ op ∈ value.operations, Authored s₄.ghost.authored op :=
      fun op hop => (hobj.rows op hop).mono (fun x hx => hl₄.authored x hx)
    have hknown : Known ((s₄.device d).ledger.merge value.operations).1 value.operations :=
      (merged_of_mergeable hs₄ hrows).dominates
    refine Keeps.query hs₄' (fun s₅ hr₅ hs₅ n hn => ?_) (fun s₅ _ _ _ hr₅ hs₅ _ hs₅' => ?_)
    · rw [List.mem_singleton.mp hn]
      refine ⟨env, hr₅.stored _ (hl₄.stored _ henv), hstored.1, ?_⟩
      rw [hobj.operations]
      refine hr₅.later.known ?_
      rw [afterQuery_device]
      exact hknown
    refine Keeps.query hs₅' (fun _ _ _ => trivial) (fun s₆ _ _ _ hr₆ hs₆ _ hs₆' => ?_)
    refine Keeps.pure (fun s' hr h => ⟨h hs₆', fun _ => ?_⟩)
    have hl : Known (s'.device d).ledger value.operations := by
      refine hr.later.known ?_
      rw [afterQuery_device]
      refine hr₆.later.known ?_
      rw [afterQuery_device]
      refine hr₅.later.known ?_
      rw [afterQuery_device]
      exact hknown
    have hlast : s'.ghost.lastMerge d = value.operations :=
      hr.lastMerge.trans (hr₆.lastMerge.trans (hr₅.lastMerge.trans (Function.update_self d _ s₄.ghost.lastMerge)))
    rw [hlast]
    exact hl

/-- What is known of the objects downloaded so far. -/
structure Downloaded (V : Vault D) (d : D) (acc : Download β) (s : Store D β S) : Prop where
  ops : ∀ x ∈ acc.ops, x ∈ s.ghost.authored ∧ ∃ h ∈ acc.heads, x.hlc ≤ h
  applied : ∀ n ∈ acc.applied, n.kind = .ops ∧ ∃ env, (n, env) ∈ s.ghost.stored ∧
    ∀ x ∈ env.operations, x ∈ acc.ops ∨ (s.device d).ledger.Dominates x.target x.hlc

omit [DecidableEq D] in
theorem Downloaded.later {acc : Download β} {s s' : Store D β S} (h : Downloaded V d acc s) (hl : Later d s s') :
    Downloaded V d acc s' where
  ops := fun x hx => ⟨hl.authored x (h.ops x hx).1, (h.ops x hx).2⟩
  applied := fun n hn => by
    obtain ⟨hk, env, henv, hx⟩ := h.applied n hn
    exact ⟨hk, env, hl.stored _ henv, fun x hx' => (hx x hx').imp_right (hl.dominates _ _)⟩

omit [DecidableEq D] in
/-- A device has its own operations in its log. -/
theorem dominates_own {s : Store D β S} (hs : Sound V site s) {x : Operation β} (hx : x ∈ s.ghost.authored)
    (hd : x.device = V.deviceId d) : (s.device d).ledger.Dominates x.target x.hlc := by
  obtain ⟨o, ho, rfl⟩ := (hs.devices d).own x hx hd
  exact Ledger.dominates_self ho

theorem keeps_download {s : Store D β S} (hs : Sound V site s) {acc : Download β} (hacc : Downloaded V d acc s)
    {name : ObjectName} (hname : name.kind = .ops) :
    Keeps V site d (fun acc' s => Sound V site s ∧ Downloaded V d acc' s) (download (V.session d) acc name) s := by
  unfold download
  refine Keeps.call hs (fun _ _ _ => trivial) (fun s₁ env hr₁ hs₁ hget hs₁' => ?_)
  have henv := stored_of_get hs₁ hget
  have hl₁ : Later d s (s₁.afterCall site d (.get name) (site.serve d (.get name) s₁.dest).2) :=
    hr₁.later.trans (later_call _ _)
  obtain ⟨a, ops, hobj⟩ := (hs₁.made name env henv).ops_of_kind hname
  have hopen : openBatch env = (Pure.pure ⟨V.vaultId, V.deviceId a, name.stamp, ops⟩ : Sync β _) := by
    unfold openBatch
    rw [hobj.payload]
  have hstored : ∀ {s'}, Later d (s₁.afterCall site d (.get name) (site.serve d (.get name) s₁.dest).2) s' →
      (name, env) ∈ s'.ghost.stored := fun hl => hl.stored _ (Or.inl henv)
  rw [hopen]
  show Keeps V site d _ (if env.header.v ≠ (V.session d).vault then _ else _) _
  split_ifs with hv hd
  · exact Keeps.pure (fun s' hr h => ⟨h hs₁', hacc.later (hl₁.trans hr.later)⟩)
  · refine Keeps.pure (fun s' hr h => ⟨h hs₁', ?_⟩)
    have hacc' := hacc.later (hl₁.trans hr.later)
    refine ⟨hacc'.ops, fun n hn => ?_⟩
    rcases List.mem_append.mp hn with hn | hn
    · exact hacc'.applied n hn
    rw [List.mem_singleton.mp hn]
    refine ⟨hname, env, hstored hr.later, fun x hx => Or.inr ?_⟩
    rw [hobj.operations] at hx
    obtain ⟨hxA, hxd⟩ := hobj.authored x hx
    rw [hobj.header] at hd
    exact dominates_own (h hs₁') (hr.authored x hxA) (hxd.trans hd)
  · refine Keeps.pure (fun s' hr h => ⟨h hs₁', ?_⟩)
    have hacc' := hacc.later (hl₁.trans hr.later)
    refine ⟨fun x hx => ?_, fun n hn => ?_⟩
    · rcases List.mem_append.mp hx with hx | hx
      · obtain ⟨hxA, h, hh, hle⟩ := hacc'.ops x hx
        exact ⟨hxA, h, List.mem_append_left _ hh, hle⟩
      · refine ⟨hr.authored x (hobj.authored x hx).1, name.stamp, List.mem_append_right _ ?_, hobj.le x hx⟩
        rw [hobj.header]
        exact List.mem_cons_self
    · rcases List.mem_append.mp hn with hn | hn
      · obtain ⟨hk, env', henv', hx⟩ := hacc'.applied n hn
        exact ⟨hk, env', henv', fun x hx' => (hx x hx').imp_left (List.mem_append_left _)⟩
      · rw [List.mem_singleton.mp hn]
        refine ⟨hname, env, hstored hr.later, fun x hx => Or.inl ?_⟩
        rw [hobj.operations] at hx
        exact List.mem_append_right _ hx

theorem keeps_downloads (fresh : List ObjectName) :
    ∀ {s : Store D β S} {acc : Download β}, Sound V site s → Downloaded V d acc s → (∀ n ∈ fresh, n.kind = .ops) →
      Keeps V site d (fun acc' s => Sound V site s ∧ Downloaded V d acc' s)
        (fresh.foldlM (download (V.session d)) acc) s := by
  induction fresh with
  | nil =>
    intro s acc hs hacc _
    exact Keeps.pure (fun s' hr h => ⟨h hs, hacc.later hr.later⟩)
  | cons n ns ih =>
    intro s acc hs hacc hkind
    rw [List.foldlM_cons]
    refine Keeps.bind (keeps_download hs hacc (hkind n List.mem_cons_self)) (fun acc' s' h => ?_)
    exact ih h.1 h.2 (fun m hm => hkind m (List.mem_cons_of_mem _ hm))

omit [DecidableEq D] in
theorem mergeable_of_downloaded {got : Download β} {s s' : Store D β S} (hgot : Downloaded V d got s)
    (hpast : ∀ h ∈ got.heads, (s.device d).ledger.clock.Past h) (hr : Rely d s s') : Mergeable V d got.ops s' := by
  refine Or.inl (fun x hx => ?_)
  obtain ⟨hxA, h, hh, hle⟩ := (hgot.later hr.later).ops x hx
  exact ⟨hxA, (show (s.device d).ledger.clock.Past x.hlc from (Stamp.time_le_of_le hle).trans (hpast h hh)).mono hr.clock⟩

theorem keeps_pullFresh {s : Store D β S} (hs : Sound V site s) {fresh : List ObjectName}
    (hfresh : ∀ n ∈ fresh, n.kind = .ops) :
    Keeps V site d (fun _ s => Sound V site s) (pullFresh (V.session d) fresh) s := by
  unfold pullFresh
  split_ifs with hf
  · exact Keeps.pure (fun s' _ h => h hs)
  have hempty : Downloaded V d ⟨[], [], []⟩ s :=
    ⟨fun x hx => absurd hx List.not_mem_nil, fun n hn => absurd hn List.not_mem_nil⟩
  refine Keeps.bind (keeps_downloads fresh hs hempty hfresh) ?_
  rintro got s₃ ⟨hs₃, hgot⟩
  refine Keeps.query hs₃ (fun _ _ _ => trivial) (fun s₄ wall coin _ hr₄ hs₄ hobs hs₄' => ?_)
  have hpast := observed hobs
  have hgot₄ := hgot.later (hr₄.later.trans (later_observe got.heads wall coin))
  have hmergeable : ∀ s', Rely d _ s' → Mergeable V d got.ops s' :=
    fun s' => mergeable_of_downloaded hgot₄ (by rwa [afterQuery_device])
  refine Keeps.query hs₄' (fun s₅ hr₅ _ => hmergeable s₅ hr₅) (fun s₅ wall' coin' _ hr₅ hs₅ _ hs₅' => ?_)
  have hops := (hmergeable s₅ hr₅).authored
  have hgot₅ := hgot₄.later hr₅.later
  refine Keeps.query hs₅' (fun s₆ hr₆ hs₆ n hn => ?_) (fun s₆ _ _ _ hr₆ hs₆ _ hs₆' => ?_)
  · obtain ⟨hk, env, henv, hx⟩ := hgot₅.applied n hn
    refine ⟨env, hr₆.stored _ henv, hk, hr₆.later.known (fun x hx' => ?_)⟩
    rw [afterQuery_device]
    rcases hx x hx' with hm | hd
    · exact (merged_of_mergeable hs₅ hops).dominates x hm
    · exact hd.mono (merged_of_mergeable hs₅ hops).kept
  · exact Keeps.pure (fun s' _ h => h hs₆')

theorem keeps_pullOps {s : Store D β S} {watermark : Option Stamp} {seen : Finset ObjectName}
    (happ : Applied V site d (watermark, seen) s) :
    Keeps V site d (fun _ s => Sound V site s) (pullOps (V.session d) watermark seen) s := by
  unfold pullOps
  obtain ⟨hs, hknown⟩ := happ
  refine Keeps.call hs (fun _ _ _ => trivial) (fun s₁ remote hr₁ hs₁ hlist hs₁' => ?_)
  have hremote : ∀ n ∈ List.filter (fun n => n ∉ seen) remote, n.kind = .ops ∧ ∃ env, (n, env) ∈ s₁.ghost.stored :=
    fun n hn => stored_of_list hs₁ hlist n (List.mem_of_mem_filter hn)
  extract_lets unseen covered fresh
  have hfresh : ∀ n ∈ fresh, n.kind = .ops := fun n hn => (hremote n (List.mem_of_mem_filter hn)).1
  split_ifs with hc
  · refine Keeps.query hs₁' (fun s₂ hr₂ hs₂ n hn => ?_)
      (fun s₂ _ _ _ hr₂ hs₂ _ hs₂' => keeps_pullFresh hs₂' hfresh)
    obtain ⟨hk, env, henv⟩ := hremote n (List.mem_of_mem_filter hn)
    have hw : watermark ≠ none := by
      rintro rfl
      exact Bool.false_ne_true (List.mem_filter.mp hn).2
    refine ⟨env, hr₂.stored _ (Or.inl henv), hk, ?_⟩
    rw [hr₂.lastMerge]
    exact hr₂.later.known (hr₁.lastMerge ▸ hr₁.later.known (hknown hw))
  · exact keeps_pullFresh hs₁' hfresh

theorem keeps_pull {s : Store D β S} (hs : Sound V site s) :
    Keeps V site d (fun _ s => Sound V site s) (pull (V.session d)) s := by
  unfold pull
  refine Keeps.query hs (fun _ _ _ => trivial) (fun s₁ _ _ seen _ _ _ hs₁' => ?_)
  refine Keeps.bind (keeps_applySnapshot hs₁' seen) ?_
  rintro ⟨watermark, seen'⟩ s₂ hs₂
  exact keeps_pullOps hs₂

/-! ## Pushing -/

theorem hlc_le_of_getLast {l : List (LocalOperation β)} {last : LocalOperation β}
    (hsorted : l.Pairwise (fun a b => a.hlc < b.hlc)) (hlast : l.getLast? = some last) :
    last ∈ l ∧ ∀ o ∈ l, o.hlc ≤ last.hlc := by
  obtain ⟨init, rfl⟩ := List.getLast?_eq_some_iff.mp hlast
  refine ⟨List.mem_append_right _ List.mem_cons_self, fun o ho => ?_⟩
  rcases List.mem_append.mp ho with ho | ho
  · exact ((List.pairwise_append.mp hsorted).2.2 o ho last List.mem_cons_self).le
  · rw [List.mem_singleton.mp ho]

omit [DecidableEq D] in
/-- The object made from the first unsent operations. -/
theorem opsObject_of_slice {s : Store D β S} (hs : Sound V site s) {slice : List (LocalOperation β)}
    {last : LocalOperation β} (hfront : slice <+: (s.device d).ledger.unsynced) (hlast : slice.getLast? = some last)
    (hsmall : slice.length ≤ MAX_OPS_PER_BATCH) (iv : ℕ) :
    OpsObject V s.ghost.authored (opsObjectName (V.session d).vault last.hlc)
      ⟨⟨(V.session d).vault, (V.session d).device, last.hlc, .ops⟩, iv,
        .ops ⟨(V.session d).vault, (V.session d).device, last.hlc, slice.map LocalOperation.toOperation⟩⟩ d
      (slice.map LocalOperation.toOperation) := by
  have hsorted : slice.Pairwise (fun a b => a.hlc < b.hlc) :=
    (Ledger.unsynced_sorted _).sublist hfront.sublist
  obtain ⟨hmem, hle⟩ := hlc_le_of_getLast hsorted hlast
  refine ⟨rfl, rfl, rfl, fun x hx => ?_, ?_, fun x hx => ?_, ⟨last.toOperation, ?_, rfl⟩, ?_⟩
  · obtain ⟨o, ho, rfl⟩ := List.mem_map.mp hx
    obtain ⟨holog, hs'⟩ := Ledger.mem_unsynced.mp (hfront.subset ho)
    exact (hs.devices d).unsent o holog hs'
  · rw [List.pairwise_map]
    exact hsorted
  · obtain ⟨o, ho, rfl⟩ := List.mem_map.mp hx
    exact hle o ho
  · exact List.mem_map.mpr ⟨last, hmem, rfl⟩
  · rwa [List.length_map]

/-- What a call has added to the objects ever stored. -/
theorem stored_afterCall {s : Store D β S} (hs : Sound V site s) {c : Call β} {p : ObjectName × Envelope β}
    (hp : p ∈ (s.afterCall site d c (site.serve d c s.dest).2).ghost.stored) :
    p ∈ s.ghost.stored ∨ c = .put p.1 p.2 := by
  rcases hp with hp | hp
  · exact Or.inl hp
  · exact (site.serve_holds d c s.dest p hp).imp_left (fun h => hs.held h)

theorem afterQuery_self (s : Store D β S) {q : Query β} (hg : s.ghost.queried d q (s.device d).ledger = s.ghost) :
    s.afterQuery d q (s.device d) = s := by
  have hdev : Function.update s.device d (s.device d) = s.device := Function.update_eq_self d s.device
  unfold Store.afterQuery Store.withDevice
  rw [hg, hdev]

theorem Keeps.sealJson {α : Type} {post : α → Store D β S → Prop} {s : Store D β S} {header : EnvelopeHeader}
    {payload : Payload β} {f : Envelope β → Sync β α} (hs : Sound V site s)
    (hok : ∀ s' iv, Rely d s s' → Sound V site s' → Keeps V site d post (f ⟨header, iv, payload⟩) s') :
    Keeps V site d post (SyncService.sealJson header payload >>= f) s := by
  have hseal : Keeps V site d (fun env s' => ∃ iv, env = ⟨header, iv, payload⟩ ∧ Rely d s s' ∧ Sound V site s')
      (SyncService.sealJson header payload) s := by
    refine Keeps.query hs (fun _ _ _ => trivial) (fun s₁ wall coin iv hr₁ hs₁ _ hs₁' => ?_)
    refine Keeps.pure (fun s' hr h => ⟨iv, rfl, ?_, h hs₁'⟩)
    have hread : s₁.afterQuery d .randomIv ((s₁.device d).answer wall coin .randomIv).2 = s₁ :=
      afterQuery_self s₁ rfl
    rw [hread] at hr
    exact hr₁.trans hr
  refine Keeps.bind hseal ?_
  rintro _ s' ⟨iv, rfl, hr, hs'⟩
  exact hok s' iv hr hs'

omit [DecidableEq D] in
/-- Once a slice is marked, no object counts as unmarked. -/
theorem not_unmarked_of_marked {s : Store D β S} (hs : Sound V site s) {slice : List (LocalOperation β)}
    (hfront : slice <+: (s.device d).ledger.unsynced)
    (hlongest : ∀ n env, Unmarked s d n env → env.operations.length ≤ slice.length) {s' : Store D β S}
    (hledger : (s'.device d).ledger = (s.device d).ledger.markSynced (slice.map (fun o => o.hlc)))
    (hstored : s'.ghost.stored = s.ghost.stored) (n : ObjectName) (env : Envelope β) : ¬ Unmarked s' d n env := by
  rintro ⟨henv, hk, o, ho, hstamp⟩
  rw [hstored] at henv
  rw [hledger] at ho
  obtain ⟨rest, hrest⟩ := hfront
  rw [Ledger.unsynced_markSynced hrest.symm] at ho
  have hmem : o ∈ (s.device d).ledger.unsynced := hrest ▸ List.mem_append_right slice ho
  have hun : Unmarked s d n env := ⟨henv, hk, o, hmem, hstamp⟩
  -- the object is no longer than the slice, so its newest operation is one of the slice
  have hpre : env.operations <+: slice.map LocalOperation.toOperation := by
    have hfull := hs.front d n env hun
    rw [← hrest, List.map_append] at hfull
    refine List.prefix_of_prefix_length_le hfull (List.prefix_append _ _) ?_
    rw [List.length_map]
    exact hlongest n env hun
  obtain ⟨a, ops, hobj⟩ := (hs.made n env henv).ops_of_kind hk
  obtain ⟨x, hx, hxs⟩ := hobj.head
  obtain ⟨o', ho', rfl⟩ := List.mem_map.mp (hpre.subset (hobj.operations ▸ hx))
  have hsorted := Ledger.unsynced_sorted (s.device d).ledger
  rw [← hrest] at hsorted
  exact absurd (hxs.trans hstamp.symm) ((List.pairwise_append.mp hsorted).2.2 o' ho' o ho).ne

theorem unmarked_put {s : Store D β S} (hs : Sound V site s) {n n' : ObjectName} {env env' : Envelope β}
    (h : Unmarked (s.afterCall site d (.put n env) (site.serve d (.put n env) s.dest).2) d n' env') :
    Unmarked s d n' env' ∨ env' = env := by
  obtain ⟨henv, hk, ho⟩ := h
  rcases stored_afterCall hs henv with henv | hput
  · exact Or.inl ⟨henv, hk, ho⟩
  · cases hput
    exact Or.inr rfl

theorem unmarked_query {s : Store D β S} {q : Query β} {dev : Device β} {n : ObjectName} {env : Envelope β}
    (h : Unmarked (s.afterQuery d q dev) d n env) (hl : dev.ledger = (s.device d).ledger) : Unmarked s d n env := by
  obtain ⟨henv, hk, o, ho, hstamp⟩ := h
  rw [afterQuery_device, hl] at ho
  exact ⟨henv, hk, o, ho, hstamp⟩

theorem unsynced_query {s s' : Store D β S} {q : Query β} {dev : Device β} (h : Rely d (s.afterQuery d q dev) s')
    (hl : dev.ledger = (s.device d).ledger) : (s.device d).ledger.unsynced <+: (s'.device d).ledger.unsynced := by
  have := h.unsynced
  rwa [afterQuery_device, hl] at this

theorem keeps_pushSlice {s : Store D β S} (hs : Sound V site s) {slice rest : List (LocalOperation β)}
    (hne : slice ≠ []) (hfront : slice ++ rest <+: (s.device d).ledger.unsynced)
    (hsmall : slice.length ≤ MAX_OPS_PER_BATCH)
    (hlongest : ∀ n env, Unmarked s d n env → env.operations.length ≤ slice.length) (pushed : ℕ) :
    Keeps V site d (fun _ s => Sound V site s ∧ rest <+: (s.device d).ledger.unsynced ∧
      ∀ n env, ¬ Unmarked s d n env) (pushSlice (V.session d) pushed slice) s := by
  unfold pushSlice
  obtain ⟨last, hlast⟩ : ∃ last, slice.getLast? = some last := ⟨_, List.getLast?_eq_some_getLast hne⟩
  simp only [hlast]
  have hslice : ∀ {s'}, slice ++ rest <+: (Store.device (S := S) s' d).ledger.unsynced →
      slice <+: (s'.device d).ledger.unsynced := fun h => (List.prefix_append _ _).trans h
  refine Keeps.sealJson hs (fun s₁ iv hr₁ hs₁ => ?_)
  have hfront₁ := hfront.trans hr₁.unsynced
  have hobj₁ := opsObject_of_slice hs₁ (hslice hfront₁) hlast hsmall iv
  have hnext : ∀ s', Rely d s₁ s' → Slice V d (opsObjectName (V.session d).vault last.hlc) slice s' := fun s' hr =>
    ⟨hslice (hfront₁.trans hr.unsynced), rfl, ⟨last, hlast, rfl⟩, hsmall,
      fun n env h => hlongest n env (hr₁.unmarked n env (hr.unmarked n env h))⟩
  refine Keeps.call hs₁ (fun s' hr _ => Or.inl ⟨slice, hnext s' hr, hobj₁.later hr.authored⟩)
    (fun s₂ _ hr₂ hs₂ hput hs₂' => ?_)
  have hstored := site.put_holds d _ _ s₂.dest hput
  have hobj₂ := hobj₁.later hr₂.authored
  have hknown : Known (s₂.device d).ledger (slice.map LocalOperation.toOperation) := fun x hx =>
    dominates_own hs₂ (hobj₂.authored x hx).1 (hobj₂.authored x hx).2
  refine Keeps.query hs₂' (fun s₃ hr₃ hs₃ n hn => ?_) (fun s₃ _ _ _ hr₃ hs₃ _ hs₃' => ?_)
  · rw [List.mem_singleton.mp hn]
    refine ⟨_, hr₃.stored _ (Or.inr hstored), fun _ => ?_⟩
    rw [hobj₂.operations]
    exact hr₃.later.known hknown
  have hfront₃ : slice ++ rest <+: (s₃.device d).ledger.unsynced := (hfront₁.trans hr₂.unsynced).trans hr₃.unsynced
  have hlongest₃ : ∀ n env, Unmarked s₃ d n env → env.operations.length ≤ slice.length := by
    intro n env hu
    rcases unmarked_put hs₂ (hr₃.unmarked n env hu) with hu | rfl
    · exact (hnext s₂ hr₂).longest n env hu
    · rw [hobj₂.operations, List.length_map]
  refine Keeps.query hs₃' (fun s₄ hr₄ hs₄ => 
      ⟨opsObjectName (V.session d).vault last.hlc, _, slice, rfl,
        ⟨hslice (hfront₃.trans (unsynced_query hr₄ rfl)), rfl, ⟨last, hlast, rfl⟩, hsmall,
          fun n env hu => hlongest₃ n env (unmarked_query (hr₄.unmarked n env hu) rfl)⟩,
        hr₄.stored _ (hr₃.stored _ (Or.inr hstored)),
        hobj₂.later (fun x hx => hr₄.authored x (hr₃.authored x hx))⟩)
    (fun s₄ _ _ _ hr₄ hs₄ _ hs₄' => ?_)
  have hfront₄ : slice ++ rest <+: (s₄.device d).ledger.unsynced := hfront₃.trans (unsynced_query hr₄ rfl)
  have hledger : ((s₄.afterQuery d (.markSynced (slice.map (fun op => op.hlc))) { s₄.device d with
      ledger := (s₄.device d).ledger.markSynced (slice.map (fun op => op.hlc)) }).device d).ledger =
      (s₄.device d).ledger.markSynced (slice.map (fun op => op.hlc)) := by rw [afterQuery_device]
  have hnone := not_unmarked_of_marked hs₄ (hslice hfront₄)
    (fun n env hu => hlongest₃ n env (unmarked_query (hr₄.unmarked n env hu) rfl)) hledger rfl
  refine Keeps.pure (fun s' hr h => ⟨h hs₄', ?_, fun n env hu => hnone n env (hr.unmarked n env hu)⟩)
  obtain ⟨more, hmore⟩ := hfront₄
  have hmarked : ((s₄.device d).ledger.markSynced (slice.map (fun op => op.hlc))).unsynced = rest ++ more :=
    Ledger.unsynced_markSynced (by rw [← hmore, List.append_assoc])
  refine List.IsPrefix.trans ?_ hr.unsynced
  rw [afterQuery_device]
  show rest <+: ((s₄.device d).ledger.markSynced _).unsynced
  rw [hmarked]
  exact List.prefix_append _ _

/-- Pushing slice by slice; the induction is on the fuel of `slices`. -/
theorem keeps_slices : ∀ (fuel : ℕ) (l : List (LocalOperation β)) (pushed : ℕ) {s : Store D β S}, Sound V site s →
    l <+: (s.device d).ledger.unsynced →
    (∀ n env, Unmarked s d n env → env.operations.length ≤ MAX_OPS_PER_BATCH ∧ env.operations.length ≤ l.length) →
    Keeps V site d (fun _ s => Sound V site s)
      ((slices MAX_OPS_PER_BATCH fuel l).foldlM (pushSlice (V.session d)) pushed) s
  | 0, _, _, _, hs, _, _ => Keeps.pure (fun _ _ h => h hs)
  | _ + 1, [], _, _, hs, _, _ => Keeps.pure (fun _ _ h => h hs)
  | fuel + 1, o :: l, pushed, s, hs, hfront, hlongest => by
    show Keeps V site d _ (List.foldlM _ _ ((o :: l).take MAX_OPS_PER_BATCH ::
      slices MAX_OPS_PER_BATCH fuel ((o :: l).drop MAX_OPS_PER_BATCH))) s
    rw [List.foldlM_cons]
    have hsplit : (o :: l).take MAX_OPS_PER_BATCH ++ (o :: l).drop MAX_OPS_PER_BATCH = o :: l := List.take_append_drop ..
    rw [← hsplit] at hfront
    refine Keeps.bind (keeps_pushSlice hs (by simp [MAX_OPS_PER_BATCH]) hfront (List.length_take_le ..)
      (fun n env hu => ?_) pushed) ?_
    · rw [List.length_take]
      exact le_min (hlongest n env hu).1 (hlongest n env hu).2
    · rintro pushed' s' ⟨hs', hrest, hnone⟩
      exact keeps_slices fuel _ pushed' hs' hrest (fun n env hu => absurd hu (hnone n env))

theorem keeps_push {s : Store D β S} (hs : Sound V site s) :
    Keeps V site d (fun _ s => Sound V site s) (push (V.session d)) s := by
  unfold push
  refine Keeps.query hs (fun _ _ _ => trivial) (fun s₁ _ _ pending hr₁ hs₁ hpending hs₁' => ?_)
  cases hpending
  refine keeps_slices _ _ _ hs₁' ?_ (fun n env hu => ?_)
  · rw [afterQuery_device]
    exact List.take_prefix _ _
  have hu₁ := unmarked_query hu rfl
  have hpre := (hs₁.front d n env hu₁).length_le
  obtain ⟨a, ops, hobj⟩ := (hs₁.made n env hu₁.1).ops_of_kind hu₁.2.1
  have hsmall : env.operations.length ≤ MAX_OPS_PER_BATCH := by
    rw [hobj.operations]
    exact hobj.small
  refine ⟨hsmall, ?_⟩
  rw [List.length_map] at hpre
  rw [Ledger.pendingOperations, List.length_take]
  have : MAX_OPS_PER_BATCH ≤ PENDING_LIMIT := by decide
  omega

/-! ## Snapshots -/

/-- `rows` is the table `e` as it was last read. -/
def TableRead (d : D) (s : Store D β S) (e : EntityName) (rows : List (Row β)) : Prop :=
  rows = ((s.ghost.readAt d e).tables e).rows ∧
    ∀ r ∈ rows, ∃ x ∈ s.ghost.authored, x.target = (e, r.id) ∧ x.row = some r

omit [DecidableEq D] in
theorem TableRead.rely {s s' : Store D β S} {e : EntityName} {rows : List (Row β)} (h : TableRead d s e rows)
    (hr : Rely d s s') : TableRead d s' e rows := by
  refine ⟨by rw [hr.readAt]; exact h.1, fun r hmem => ?_⟩
  obtain ⟨x, hx, hrow⟩ := h.2 r hmem
  exact ⟨x, hr.authored x hx, hrow⟩

/-- Reading the tables one after the other; the induction is on the tables still to be read. -/
theorem keeps_readTables : ∀ (rest : List EntityName) (entities : EntityName → List (Row β)) {s : Store D β S},
    Sound V site s → (∀ e, e ∉ rest → TableRead d s e (entities e)) →
    Keeps V site d (fun entities' s => Sound V site s ∧ ∀ e, TableRead d s e (entities' e))
      (rest.foldlM readInto entities) s
  | [], entities, s, hs, h => Keeps.pure (fun s' hr hs' => ⟨hs' hs, fun e => (h e List.not_mem_nil).rely hr⟩)
  | e :: rest, entities, s, hs, h => by
    rw [List.foldlM_cons]
    have hread : Keeps V site d
        (fun entities' s => Sound V site s ∧ ∀ e, e ∉ rest → TableRead d s e (entities' e))
        (readInto entities e) s := by
      refine Keeps.query hs (fun _ _ _ => trivial) (fun s₁ _ _ rows hr₁ hs₁ hrows hs₁' => ?_)
      cases hrows
      refine Keeps.pure (fun s' hr hs' => ⟨hs' hs₁', fun e' he' => TableRead.rely ?_ hr⟩)
      by_cases hee : e' = e
      · subst hee
        rw [Function.update_self]
        refine ⟨?_, fun r hmem => ?_⟩
        · show _ = ((Function.update s₁.ghost.readAt d _ d e').tables e').rows
          rw [Function.update_self, Function.update_self]
        · obtain ⟨x, hx, hrow⟩ := (hs₁.devices d).rows e' r hmem
          exact ⟨x, hx, hrow⟩
      · rw [Function.update_of_ne hee]
        have hold := (h e' (fun hm => (List.mem_cons.mp hm).elim hee he')).rely hr₁
        refine ⟨hold.1.trans ?_, hold.2⟩
        show _ = ((Function.update s₁.ghost.readAt d _ d e').tables e').rows
        rw [Function.update_self, Function.update_of_ne hee]
    refine Keeps.bind hread ?_
    rintro entities' s' ⟨hs', h'⟩
    exact keeps_readTables rest entities' hs' h'

omit [DecidableEq D] in
theorem Snapshotted.rely {n : ObjectName} {env : Envelope β} {value : LedgerSnapshot β} {s s' : Store D β S}
    (h : Snapshotted V d n env value s) (hr : Rely d s s') : Snapshotted V d n env value s' :=
  ⟨h.object.later hr.authored, fun e => by rw [hr.readAt]; exact h.tables e⟩

/-- The last snapshot this device has put, and what was in its tables. -/
def Wrote (V : Vault D) (d : D) (w : ObjectName) (env : Envelope β) (value : LedgerSnapshot β)
    (s : Store D β S) : Prop :=
  s.ghost.written d = some (w, env) ∧ Snapshotted V d w env value s

omit [DecidableEq D] in
theorem Wrote.rely {w : ObjectName} {env : Envelope β} {value : LedgerSnapshot β} {s s' : Store D β S}
    (h : Wrote V d w env value s) (hr : Rely d s s') : Wrote V d w env value s' :=
  ⟨hr.written.trans h.1, h.2.rely hr⟩

omit [DecidableEq D] in
/-- After a step of the device itself that neither puts nor reads tables, and steps of others. -/
theorem Wrote.after {w : ObjectName} {env : Envelope β} {value : LedgerSnapshot β} {s s' s'' : Store D β S}
    (hr : Rely d s' s'') (h : Wrote V d w env value s) (ha : s'.ghost.authored = s.ghost.authored)
    (hw : s'.ghost.written = s.ghost.written) (hra : s'.ghost.readAt = s.ghost.readAt) :
    Wrote V d w env value s'' :=
  Wrote.rely ⟨by rw [hw]; exact h.1, h.2.object.later (fun x hx => by rwa [ha]),
    fun e => by rw [hra]; exact h.2.tables e⟩ hr

theorem keeps_listBoth {w : ObjectName} {env : Envelope β} {value : LedgerSnapshot β} {s : Store D β S}
    (hs : Sound V site s) (hw : Wrote V d w env value s) :
    Keeps V site d (fun r s => Sound V site s ∧ Wrote V d w env value s ∧ (∀ n ∈ r.1, n.kind = .ops) ∧
      ∀ n ∈ r.2, n.kind = .snapshot) (listBoth (V.session d)) s := by
  unfold listBoth
  refine Keeps.query hs (fun _ _ _ => trivial) (fun s₁ wall coin r hr₁ hs₁ _ hs₁' => ?_)
  have hread : s₁.afterQuery d .race ((s₁.device d).answer wall coin .race).2 = s₁ :=
    afterQuery_self s₁ rfl
  rw [hread] at hs₁' ⊢
  have hw₁ := hw.rely hr₁
  cases r with
  | true =>
    refine Keeps.call hs₁ (fun _ _ _ => trivial) (fun s₂ ops hr₂ hs₂ hops hs₂' => ?_)
    refine Keeps.call hs₂' (fun _ _ _ => trivial) (fun s₃ snapshots hr₃ hs₃ hsnap hs₃' => ?_)
    have hw₃ : Wrote V d w env value s₃ := Wrote.after hr₃ (hw₁.rely hr₂) rfl rfl rfl
    refine Keeps.pure (fun s' hr hs' => ⟨hs' hs₃', Wrote.after hr hw₃ rfl rfl rfl, ?_, ?_⟩)
    · exact fun n hn => (stored_of_list hs₂ hops n hn).1
    · exact fun n hn => (stored_of_list hs₃ hsnap n hn).1
  | false =>
    refine Keeps.call hs₁ (fun _ _ _ => trivial) (fun s₂ snapshots hr₂ hs₂ hsnap hs₂' => ?_)
    refine Keeps.call hs₂' (fun _ _ _ => trivial) (fun s₃ ops hr₃ hs₃ hops hs₃' => ?_)
    have hw₃ : Wrote V d w env value s₃ := Wrote.after hr₃ (hw₁.rely hr₂) rfl rfl rfl
    refine Keeps.pure (fun s' hr hs' => ⟨hs' hs₃', Wrote.after hr hw₃ rfl rfl rfl, ?_, ?_⟩)
    · exact fun n hn => (stored_of_list hs₃ hops n hn).1
    · exact fun n hn => (stored_of_list hs₂ hsnap n hn).1

/-- Pruning object by object. -/
theorem keeps_removals {w : ObjectName} {env : Envelope β} {value : LedgerSnapshot β} :
    ∀ (names : List ObjectName) {s : Store D β S}, Sound V site s → Wrote V d w env value s →
      (∀ n ∈ names, n.kind = .ops ∧ n.stamp ≤ w.stamp ∨ n.kind = .snapshot ∧ n.stamp < w.stamp) →
      Keeps V site d (fun _ _ => True) (names.foldlM removeOne ()) s
  | [], _, _, _, _ => Keeps.pure (fun _ _ _ => trivial)
  | n :: names, s, hs, hw, hn => by
    rw [List.foldlM_cons]
    have hremove : Keeps V site d (fun _ s => Sound V site s ∧ Wrote V d w env value s) (removeOne () n) s := by
      refine Keeps.call hs (fun s' hr _ => ⟨w, env, value, (hw.rely hr).1, (hw.rely hr).2, hn n List.mem_cons_self⟩)
        (fun s₁ _ hr₁ hs₁ _ hs₁' => ?_)
      have hw₁ : Wrote V d w env value (s₁.afterCall site d (.remove n) (site.serve d (.remove n) s₁.dest).2) :=
        Wrote.after (Rely.refl d _) (hw.rely hr₁) rfl rfl rfl
      refine Protocol.wp_request_last (I := fun s' => Rely d _ s' ∧ Sound V site s') ?_ ⟨Rely.refl d _, hs₁'⟩
        (fun _ _ => trivial) (fun _ _ => trivial) ?_
      · exact fun s₁ s₂ h hr => ⟨h.1.trans hr.1, hr.2 h.2⟩
      · rintro s₂ a s₃ s₄ ⟨hr₂, hs₂⟩ ⟨-, hserved, hs₃⟩ hr₃
        rcases hserved with ⟨wall, coin, h⟩ | h
        · obtain ⟨-, rfl⟩ := Prod.mk.inj h
          have hw₂ := hw₁.rely hr₂
          exact ⟨hr₃.2 hs₃, Wrote.after hr₃.1 hw₂ rfl rfl rfl⟩
        · cases h
    refine Keeps.bind hremove ?_
    rintro _ s' ⟨hs', hw'⟩
    exact keeps_removals names hs' hw' (fun m hm => hn m (List.mem_cons_of_mem _ hm))

theorem mem_superseded {w : Stamp} {ops snapshots : List ObjectName} {n : ObjectName}
    (h : n ∈ superseded w ops snapshots) : n ∈ ops ∧ n.stamp ≤ w ∨ n ∈ snapshots ∧ n.stamp < w := by
  unfold superseded at h
  rcases List.mem_append.mp h with h | h
  · obtain ⟨hmem, hc⟩ := List.mem_filter.mp h
    exact Or.inl ⟨hmem, le_of_coveredBy hc⟩
  · obtain ⟨hmem, hc⟩ := List.mem_filter.mp h
    refine Or.inr ⟨hmem, ?_⟩
    cases hs : stampFromObjectName n with
    | none => rw [hs] at hc; cases hc
    | some s =>
      rw [hs] at hc
      rw [← stampFromObjectName_eq hs]
      exact of_decide_eq_true hc

theorem keeps_prune {w : ObjectName} {env : Envelope β} {value : LedgerSnapshot β} {s : Store D β S}
    (hs : Sound V site s) (hw : Wrote V d w env value s) :
    Keeps V site d (fun _ _ => True) (prune (V.session d) w.stamp) s := by
  have hbody : Keeps V site d (fun _ _ => True) (listBoth (V.session d) >>= fun r =>
      (superseded w.stamp r.1 r.2).foldlM removeOne ()) s := by
    refine Keeps.bind (keeps_listBoth hs hw) ?_
    rintro ⟨ops, snapshots⟩ s₁ ⟨hs₁, hw₁, hops, hsnap⟩
    refine keeps_removals _ hs₁ hw₁ (fun n hn => ?_)
    rcases mem_superseded hn with ⟨hmem, hle⟩ | ⟨hmem, hlt⟩
    · exact Or.inl ⟨hops n hmem, hle⟩
    · exact Or.inr ⟨hsnap n hmem, hlt⟩
  exact Protocol.wp_tryCatch (Protocol.wp_mono hbody (fun _ _ h => h) (fun _ _ _ _ _ => trivial))

theorem keeps_putSnapshot {s : Store D β S} (hs : Sound V site s) {w : Stamp} {env : Envelope β}
    {value : LedgerSnapshot β} (hmade : ∀ s', Rely d s s' → Sound V site s' →
      Snapshotted V d (snapshotObjectName (V.session d).vault w) env value s') :
    Keeps V site d (fun _ _ => True) (putSnapshot (V.session d) w env) s := by
  unfold putSnapshot
  refine Keeps.call hs (fun s' hr hs' => Or.inr ⟨value, hmade s' hr hs'⟩) (fun s₁ _ hr₁ hs₁ hput hs₁' => ?_)
  have hstored := site.put_holds d _ _ s₁.dest hput
  have hmade₁ := hmade s₁ hr₁ hs₁
  have hw₁ : Wrote V d (snapshotObjectName (V.session d).vault w) env value
      (s₁.afterCall site d (.put (snapshotObjectName (V.session d).vault w) env)
        (site.serve d (.put (snapshotObjectName (V.session d).vault w) env) s₁.dest).2) :=
    ⟨Function.update_self d _ s₁.ghost.written, hmade₁.object, hmade₁.tables⟩
  refine Keeps.query hs₁' (fun s₂ hr₂ hs₂ n hn => ?_) (fun s₂ _ _ _ hr₂ hs₂ _ hs₂' => ?_)
  · rw [List.mem_singleton.mp hn]
    exact ⟨_, hr₂.stored _ (Or.inr hstored), fun hk => by cases hk⟩
  refine Keeps.query hs₂' (fun _ _ _ => trivial) (fun s₃ _ _ _ hr₃ hs₃ _ hs₃' => ?_)
  have hw₃ := Wrote.after hr₃ (hw₁.rely hr₂) rfl rfl rfl
  have hprune := keeps_prune hs₃' (Wrote.after (Rely.refl d _) hw₃ rfl rfl rfl)
  exact hprune

theorem keeps_writeSnapshot {s : Store D β S} (hs : Sound V site s) :
    Keeps V site d (fun _ _ => True) (writeSnapshot (V.session d)) s := by
  unfold writeSnapshot
  refine Keeps.query hs (fun _ _ _ => trivial) (fun s₁ _ _ operations hr₁ hs₁ _ hs₁' => ?_)
  cases hlast : List.getLast? operations with
  | none => exact Keeps.pure (fun _ _ _ => trivial)
  | some last =>
    refine Keeps.bind (keeps_readTables ENTITY_NAMES (fun _ => []) hs₁'
      (fun e he => absurd (mem_entityNames e) he)) ?_
    rintro entities s₂ ⟨hs₂, hread⟩
    refine Keeps.sealJson hs₂ (fun s₃ iv hr₃ hs₃ => ?_)
    have hmade : ∀ s', Rely d s₂ s' → Sound V site s' →
        Snapshotted V d (snapshotObjectName (V.session d).vault last.hlc)
          ⟨⟨(V.session d).vault, (V.session d).device, last.hlc, .snapshot⟩, iv, .snapshot
            ⟨(V.session d).vault, (V.session d).device, last.hlc, entities, operations.length⟩⟩
          ⟨(V.session d).vault, (V.session d).device, last.hlc, entities, operations.length⟩ s' := by
      refine fun s' hr hs' => ⟨⟨rfl, rfl, rfl, fun op hop => ?_⟩, fun e => ((hread e).rely hr).1⟩
      obtain ⟨e, r, hmem, rfl⟩ := LedgerSnapshot.mem_operations.mp hop
      obtain ⟨x, hx, ht, hrow⟩ := ((hread e).rely hr).2 r hmem
      exact ⟨x, hx, hs'.writes.row hx ht hrow _⟩
    exact keeps_putSnapshot hs₃ (fun s' hr hs' => hmade s' (hr₃.trans hr) hs')

theorem keeps_maybeSnapshot {s : Store D β S} (hs : Sound V site s) :
    Keeps V site d (fun _ _ => True) (maybeSnapshot (V.session d)) s := by
  unfold maybeSnapshot
  refine Keeps.query hs (fun _ _ _ => trivial) (fun s₁ _ _ last _ _ _ hs₁' => ?_)
  refine Keeps.query hs₁' (fun _ _ _ => trivial) (fun s₂ _ _ since _ _ _ hs₂' => ?_)
  split_ifs
  · exact Keeps.pure (fun _ _ _ => trivial)
  · exact keeps_writeSnapshot hs₂'

/-- A cycle asks every request as `Requested` says. -/
theorem keeps_runCycle {s : Store D β S} (hs : Sound V site s) :
    Keeps V site d (fun _ _ => True) (runCycle (V.session d)) s := by
  unfold runCycle
  refine Keeps.bind (keeps_pull hs) (fun _ s₁ hs₁ => ?_)
  refine Keeps.bind (keeps_push hs₁) (fun _ s₂ hs₂ => ?_)
  refine Keeps.bind (keeps_maybeSnapshot hs₂) (fun _ s₃ _ => ?_)
  exact Protocol.wp_request_last (I := fun _ => True) (fun _ _ _ _ => trivial) trivial (fun _ _ => trivial)
    (fun _ _ => trivial) (fun _ _ _ _ _ _ _ => trivial)

end EasyDocket
