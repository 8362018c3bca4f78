import EasyDocket.Sync.Sending
import EasyDocket.Sync.Skipping
import EasyDocket.Sync.MapSite

/-!
# Delivery

A device that completes two more cycles knows everything that had been sent before them, whatever the other devices do
meanwhile: as long as an object is skipped only where it is known, and removed only where it is not needed.
-/

namespace EasyDocket

open SyncService

variable {D β : Type} [DecidableEq D] {V : Vault D} {d : D}

/-! ## The condition -/

/-- An object of operations at the destination has something at or after `x` on its entity. -/
def AtDestination (m : ObjectMap β) (x : Operation β) : Prop :=
  ∃ p ∈ m, p.1.kind = .ops ∧ ∃ y ∈ p.2.operations, y.target = x.target ∧ x.hlc ≤ y.hlc

/-- An object is skipped only where its operations are known, and removed only once each of its operations is known to
every device that another object has nothing for. -/
structure Careful (d : D) (q : Request β) (s _ : Store D β (ObjectMap β)) : Prop where
  covered : ∀ names, q = .query (.record .covered names) → ∀ n ∈ names, ∀ env, (n, env) ∈ s.ghost.stored →
    Known (s.device d).ledger env.operations
  removed : ∀ n, q = .call (.remove n) → n.kind = .ops → ∀ env, (n, env) ∈ s.dest → ∀ x ∈ env.operations,
    ∀ d', (s.device d').ledger.Dominates x.target x.hlc ∨ AtDestination (s.dest.delete n) x

/-! ## The invariant -/

/-- What a device has recorded is known there. -/
def RecordedKnown (s : Store D β (ObjectMap β)) : Prop :=
  ∀ d, ∀ n ∈ (s.device d).remoteObjects, n.kind = .ops → ∀ env, (n, env) ∈ s.ghost.stored →
    Known (s.device d).ledger env.operations

/-- What has been stored is still at the destination, for every device that does not know it. -/
def Available (s : Store D β (ObjectMap β)) : Prop :=
  ∀ x, Stored s x → ∀ d, (s.device d).ledger.Dominates x.target x.hlc ∨ AtDestination s.dest x

/-- What holds in every careful run, and `A` has been stored. -/
structure Delivering (V : Vault D) (A : Set (Operation β)) (s : Store D β (ObjectMap β)) : Prop where
  recorded : RecordedKnown s
  available : Available s
  sent : SentStored V s
  stored : ∀ x ∈ A, Stored s x

section Steps

variable {s s' : Store D β (ObjectMap β)}

/-- What has to be checked when only the names of one device change. -/
theorem recordedKnown_update (hs : Sound V (mapSite D β) s) (hs' : Sound V (mapSite D β) s') (h : RecordedKnown s)
    (hg : Grown s s') (d : D) (hne : ∀ d', d' ≠ d → s'.device d' = s.device d')
    (hnew : ∀ n ∈ (s'.device d).remoteObjects, n ∉ (s.device d).remoteObjects → n.kind = .ops →
      ∀ env, (n, env) ∈ s'.ghost.stored → Known (s'.device d).ledger env.operations) : RecordedKnown s' := by
  intro d' n hn hk env henv
  by_cases hmem : n ∈ (s.device d').remoteObjects
  · obtain ⟨env', henv', hops⟩ := operations_of_stored hs hs' hg.stored hmem hk henv
    rw [← hops]
    exact hg.known (h d' n hmem hk env' henv')
  · by_cases hd : d' = d
    · rw [hd] at hn hmem ⊢
      exact hnew n hn hmem hk env henv
    · rw [hne d' hd] at hn
      exact absurd hn hmem

/-- The step lemma for what is recorded. -/
theorem recordedKnown_served (hs : Sound V (mapSite D β) s) (hs' : Sound V (mapSite D β) s') (h : RecordedKnown s)
    {q : Request β} {r : Except SyncError q.Reply} (hreq : Requested V d q s) (hserved : Served (mapSite D β) d q s r s')
    (hcond : Careful d q s s') : RecordedKnown s' := by
  have hg := grown_served hs hreq hserved
  rcases hserved with ⟨wall, coin, heq⟩ | hmis
  · cases q with
    | call c =>
      obtain ⟨-, rfl⟩ := Prod.mk.inj heq
      exact recordedKnown_update hs hs' h hg d (fun _ _ => rfl) (fun n hn hnot => absurd hn hnot)
    | query q =>
      obtain ⟨-, rfl⟩ := Prod.mk.inj heq
      refine recordedKnown_update hs hs' h hg d (fun d' hd => afterQuery_ne hd) ?_
      rw [afterQuery_device]
      cases q with
      | record reason names =>
        intro n hn hnot hk env henv
        have hmem : n ∈ names := by
          rcases Finset.mem_union.mp hn with hn | hn
          · exact absurd hn hnot
          · exact List.mem_toFinset.mp hn
        obtain ⟨env', henv', hrec⟩ := hreq n hmem
        have hops : env'.operations = env.operations := hs.same n env' env henv' henv hk
        cases reason with
        | covered => exact hcond.covered names rfl n hmem env henv
        | applied => exact hops ▸ hrec.2
        | pushed => exact hops ▸ hrec hk
        | snapshot => exact absurd (hk.symm.trans hrec.1) (by decide)
      | forget name => exact fun n hn hnot => absurd (Finset.mem_of_mem_erase hn) hnot
      | _ => exact fun n hn hnot => absurd hn hnot
  · cases hmis
    exact recordedKnown_update hs hs' h hg d (fun _ _ => rfl) (fun n hn hnot => absurd hn hnot)

/-- What a call may take away. -/
theorem mem_serve_of_mem {c : Call β} {m : ObjectMap β} {p : ObjectName × Envelope β} (h : p ∈ m) :
    p ∈ (ObjectMap.serve c m).2 ∨ (∃ env, (p.1, env) ∈ (ObjectMap.serve c m).2) ∨ c = .remove p.1 := by
  cases c with
  | put n env =>
    by_cases hn : p.1 = n
    · refine Or.inr (Or.inl ⟨env, ?_⟩)
      rw [hn]
      exact Table.mem_put_self m (n, env)
    · exact Or.inl (Table.mem_put.mpr (Or.inr ⟨h, hn⟩))
  | remove n =>
    by_cases hn : p.1 = n
    · exact Or.inr (Or.inr (by rw [hn]))
    · exact Or.inl (Table.mem_delete.mpr ⟨h, hn⟩)
  | _ => exact Or.inl h

omit [DecidableEq D] in
/-- What was at the destination is there after a call, or the call removes it where that does no harm. -/
theorem available_call (hs' : Sound V (mapSite D β) s') (hst : ∀ p ∈ s.ghost.stored, p ∈ s'.ghost.stored)
    (h : Available s) (hdevice : s'.device = s.device) {c : Call β} (hcond : Careful d (.call c) s s')
    (hs : s.dest.rows ⊆ s'.dest.rows ∨ s'.dest = (ObjectMap.serve c s.dest).2)
    (hheld : ∀ p ∈ s.dest, p ∈ s.ghost.stored) (hnew : ∀ p ∈ s'.ghost.stored, p ∈ s.ghost.stored ∨ p ∈ s'.dest) :
    Available s' := by
  rintro x ⟨n, env, henv, hk, hx⟩ d'
  rw [hdevice]
  rcases hnew _ henv with henv | henv
  · rcases h x ⟨n, env, henv, hk, hx⟩ d' with hdom | ⟨p, hp, hpk, y, hy, ht, hle⟩
    · exact Or.inl hdom
    rcases hs with hsub | hserve
    · exact Or.inr ⟨p, hsub hp, hpk, y, hy, ht, hle⟩
    rcases mem_serve_of_mem (c := c) hp with hp' | ⟨env', henv'⟩ | rfl
    · exact Or.inr ⟨p, hserve ▸ hp', hpk, y, hy, ht, hle⟩
    · -- the name is put again: it stands for the same operations
      have hmem : (p.1, env') ∈ s'.dest := hserve ▸ henv'
      have hops := hs'.same p.1 p.2 env' (hst _ (hheld p hp)) (hs'.held hmem) hpk
      exact Or.inr ⟨(p.1, env'), hmem, hpk, y, hops ▸ hy, ht, hle⟩
    · rcases hcond.removed p.1 rfl hpk p.2 hp y hy d' with hdom | ⟨p', hp', hpk', y', hy', ht', hle'⟩
      · rw [ht] at hdom
        exact Or.inl (hdom.of_le hle)
      · refine Or.inr ⟨p', ?_, hpk', y', hy', ht'.trans ht, hle.trans hle'⟩
        rw [hserve]
        exact hp'
  · exact Or.inr ⟨(n, env), henv, hk, x, hx, rfl, le_refl _⟩

/-- The step lemma for what is at the destination. -/
theorem available_served (hs : Sound V (mapSite D β) s) (hs' : Sound V (mapSite D β) s') (h : Available s)
    {q : Request β} {r : Except SyncError q.Reply} (hreq : Requested V d q s) (hserved : Served (mapSite D β) d q s r s')
    (hcond : Careful d q s s') : Available s' := by
  have hg := grown_served hs hreq hserved
  rcases hserved with ⟨wall, coin, heq⟩ | hmis
  · cases q with
    | call c =>
      obtain ⟨-, rfl⟩ := Prod.mk.inj heq
      exact available_call hs' hg.stored h rfl hcond (Or.inr rfl) hs.held (fun p hp => hp)
    | query q =>
      obtain ⟨-, rfl⟩ := Prod.mk.inj heq
      exact fun x hx d' => (h x hx d').imp_left (hg.dominates d' _ _)
  · cases hmis with
    | failed c s dest retryable hmis =>
      refine available_call hs' hg.stored h rfl hcond ?_ hs.held (fun p hp => hp)
      rcases hmis with rfl | rfl
      · exact Or.inl (fun _ hp => hp)
      · exact Or.inr rfl

omit [DecidableEq D] in
/-- A step that stores nothing, and leaves the destination alone. -/
theorem Available.grown (h : Available s) (hg : Grown s s') (hst : s'.ghost.stored = s.ghost.stored)
    (hdest : s'.dest = s.dest) : Available s' := by
  rintro x ⟨n, env, henv, hk, hx⟩ d'
  rw [hdest]
  exact (h x ⟨n, env, hst ▸ henv, hk, hx⟩ d').imp_left (hg.dominates d' _ _)

end Steps

/-! ## Runs -/

section Runs

variable {A : Set (Operation β)} {s s' : Store D β (ObjectMap β)}

theorem delivering_served (hs : Sound V (mapSite D β) s) (hs' : Sound V (mapSite D β) s') (h : Delivering V A s)
    {q : Request β} {r : Except SyncError q.Reply} (hreq : Requested V d q s) (hserved : Served (mapSite D β) d q s r s')
    (hcond : Careful d q s s') : Delivering V A s' where
  recorded := recordedKnown_served hs hs' h.recorded hreq hserved hcond
  available := available_served hs hs' h.available hreq hserved hcond
  sent := sentStored_served hs h.sent hreq hserved
  stored := fun x hx => (h.stored x hx).grown (grown_served hs hreq hserved)

theorem delivering_edited (hs : Sound V (mapSite D β) s) (h : Delivering V A s) {L : Ledger β} {op : Operation β}
    (he : Ledger.Edited (V.deviceId d) (s.device d).ledger L op) : Delivering V A (s.afterEdit d L op) := by
  have hg := grown_edited hs he
  refine ⟨recordedKnown_update hs (sound_edited hs he) h.recorded hg d (fun d' hd => afterEdit_ne hd) ?_,
    h.available.grown hg rfl rfl, sentStored_edited hs h.sent he, fun x hx => (h.stored x hx).grown hg⟩
  rw [afterEdit_device]
  exact fun n hn hnot => absurd hn hnot

theorem delivering_restart (hs : Sound V (mapSite D β) s) (h : Delivering V A s) (d : D) :
    Delivering V A (restart d s) := by
  have hg := grown_restart s d
  refine ⟨recordedKnown_update hs (sound_restart hs d) h.recorded hg d (fun d' hd => restart_ne hd) ?_,
    h.available.grown hg rfl rfl, sentStored_restart h.sent d, fun x hx => (h.stored x hx).grown hg⟩
  rw [restart_device]
  exact fun n hn hnot => absurd hn hnot

theorem deliveringRuns (V : Vault D) (A : Set (Operation β)) (okEnv : Store D β (ObjectMap β) → Store D β (ObjectMap β) → Prop) :
    Threads.Sound ((world V (mapSite D β)).restrict Careful okEnv)
      (fun s => Sound V (mapSite D β) s ∧ Delivering V A s) (fun d => protocol V d (mapSite D β)) (fun _ _ _ => True) := by
  refine (soundRuns V (mapSite D β)).strengthen ?_ ?_ ?_ ?_ (fun d s hs h => delivering_restart hs h d)
  · exact fun d s _ h => ⟨h.recorded, h.available, h.sent, h.stored⟩
  · exact fun d q s r s' hs h hreq hserved hcond hs' => delivering_served hs hs' h hreq hserved hcond
  · intro d r s _ h
    cases r with
    | ok a => exact ⟨h.recorded, h.available, h.sent, h.stored⟩
    | error e => exact h
  · intro s s' hs h hedit _ _
    obtain ⟨d, L, op, he, rfl⟩ := hedit.edited
    exact delivering_edited hs h he

omit [DecidableEq D] in
theorem delivering_initial : Delivering V ∅ (Store.initial Table.empty : Store D β (ObjectMap β)) :=
  ⟨fun _ n hn => absurd hn (Finset.notMem_empty n), fun _ ⟨_, _, h, _⟩ => h.elim, sentStored_initial _,
    fun _ h => h.elim⟩

end Runs

/-! ## What one cycle brings -/

/-- The invariant of careful runs. -/
def Careful.Inv (V : Vault D) (A : Set (Operation β)) (s : Store D β (ObjectMap β)) : Prop :=
  Sound V (mapSite D β) s ∧ Delivering V A s

/-- `wp` of a program of the engine in careful runs; how it may fail does not matter. -/
def Brings (V : Vault D) (A : Set (Operation β)) (d : D) {α : Type} (post : α → Store D β (ObjectMap β) → Prop)
    (p : Sync β α) (s : Store D β (ObjectMap β)) : Prop :=
  ((protocol V d (mapSite D β)).within (Careful.Inv V A)).asked.wp post (fun _ _ => True) p s

namespace Brings

variable {A : Set (Operation β)} {α γ : Type} {post : α → Store D β (ObjectMap β) → Prop} {s : Store D β (ObjectMap β)}

theorem bind {p : Sync β γ} {f : γ → Sync β α} {mid : γ → Store D β (ObjectMap β) → Prop} (hp : Brings V A d mid p s)
    (hf : ∀ a s, mid a s → Brings V A d post (f a) s) : Brings V A d post (p >>= f) s :=
  Protocol.wp_bind (Protocol.wp_mono hp hf (fun _ _ h => h))

theorem pure {a : α} (hi : Careful.Inv V A s) (h : ∀ s', Rely d s s' → Careful.Inv V A s' → post a s') :
    Brings V A d post (Pure.pure a) s := fun s' hr => h s' hr.1.1 (hr.2 hi)

/-- A query, answered by the device. -/
theorem query {q : Query β} {f : q.Reply → Sync β α} (hi : Careful.Inv V A s)
    (hok : ∀ s' wall coin a, Rely d s s' → Careful.Inv V A s' → ((s'.device d).answer wall coin q).1 = .ok a →
      Careful.Inv V A (s'.afterQuery d q ((s'.device d).answer wall coin q).2) →
      Brings V A d post (f a) (s'.afterQuery d q ((s'.device d).answer wall coin q).2)) :
    Brings V A d post (Sync.query q >>= f) s := by
  refine Protocol.wp_request (I := fun s' => Rely d s s' ∧ Careful.Inv V A s') ?_ ⟨Rely.refl d s, hi⟩
    (fun _ _ => trivial) (fun _ _ => trivial) ?_
  · exact fun s₁ s₂ h hr => ⟨h.1.trans hr.1.1, hr.2 h.2⟩
  · rintro s' a s'' ⟨hr, hi'⟩ ⟨-, ⟨-, hserved, -⟩, -, hi''⟩
    rcases hserved with ⟨wall, coin, h⟩ | h
    · obtain ⟨h1, h2⟩ := Prod.mk.inj h
      subst h2
      exact hok s' wall coin a hr hi' h1 hi''
    · cases h

/-- A call, answered by the destination. -/
theorem call {c : Call β} {f : c.Reply → Sync β α} (hi : Careful.Inv V A s)
    (hok : ∀ s' a, Rely d s s' → Careful.Inv V A s' → (ObjectMap.serve c s'.dest).1 = .ok a →
      Careful.Inv V A (s'.afterCall (mapSite D β) d c (ObjectMap.serve c s'.dest).2) →
      Brings V A d post (f a) (s'.afterCall (mapSite D β) d c (ObjectMap.serve c s'.dest).2)) :
    Brings V A d post (Sync.call c >>= f) s := by
  refine Protocol.wp_request (I := fun s' => Rely d s s' ∧ Careful.Inv V A s') ?_ ⟨Rely.refl d s, hi⟩
    (fun _ _ => trivial) (fun _ _ => trivial) ?_
  · exact fun s₁ s₂ h hr => ⟨h.1.trans hr.1.1, hr.2 h.2⟩
  · rintro s' a s'' ⟨hr, hi'⟩ ⟨-, ⟨-, hserved, -⟩, -, hi''⟩
    rcases hserved with ⟨wall, coin, h⟩ | h
    · obtain ⟨h1, h2⟩ := Prod.mk.inj h
      subst h2
      exact hok s' a hr hi' h1 hi''
    · cases h

theorem mono {p : Sync β α} {post' : α → Store D β (ObjectMap β) → Prop} (hp : Brings V A d post p s)
    (h : ∀ a s, post a s → post' a s) : Brings V A d post' p s :=
  Protocol.wp_mono hp h (fun _ _ h => h)

end Brings

/-- What lasts while a device runs its cycle. -/
structure Lasting (d : D) (s s' : Store D β (ObjectMap β)) : Prop where
  stored : ∀ p ∈ s.ghost.stored, p ∈ s'.ghost.stored
  dominates : ∀ t x, (s.device d).ledger.Dominates t x → (s'.device d).ledger.Dominates t x

theorem Brings.since {A : Set (Operation β)} {α : Type} {post : α → Store D β (ObjectMap β) → Prop} {p : Sync β α}
    {s : Store D β (ObjectMap β)} (h : Brings V A d post p s) :
    Brings V A d (fun a s' => post a s' ∧ Lasting d s s') p s := by
  refine Protocol.wp_mono (Protocol.wp_since (R := Lasting d) (fun s => ⟨fun _ h => h, fun _ _ h => h⟩) ?_ ?_ ?_ h)
    (fun _ _ h => h) (fun _ _ _ => trivial)
  · exact fun h h' => ⟨fun p hp => h'.stored p (h.stored p hp), fun t x hd => h'.dominates t x (h.dominates t x hd)⟩
  · exact fun hr => ⟨hr.1.1.stored, fun t x hd => hd.mono hr.1.1.oplog⟩
  · rintro q s r s' ⟨hreq, ⟨hs, hserved, -⟩, -⟩
    have hg := grown_served hs hreq hserved
    exact ⟨hg.stored, hg.dominates d⟩

section Cycle

variable {A : Set (Operation β)} {s : Store D β (ObjectMap β)}

/-- Names of objects of operations that a device has recorded. -/
def OpsRecorded (d : D) (names : Finset ObjectName) (s : Store D β (ObjectMap β)) : Prop :=
  ∀ n ∈ names, n.kind = .ops → n ∈ (s.device d).remoteObjects

omit [DecidableEq D] in
theorem OpsRecorded.rely {names : Finset ObjectName} {s s' : Store D β (ObjectMap β)} (h : OpsRecorded d names s)
    (hr : Rely d s s') : OpsRecorded d names s' := by
  intro n hn hk
  rw [hr.remoteObjects]
  exact h n hn hk

theorem OpsRecorded.call {names : Finset ObjectName} {s : Store D β (ObjectMap β)} (h : OpsRecorded d names s) (c : Call β) :
    OpsRecorded d names (s.afterCall (mapSite D β) d c (ObjectMap.serve c s.dest).2) := h

theorem OpsRecorded.query {names : Finset ObjectName} {s : Store D β (ObjectMap β)} (h : OpsRecorded d names s)
    (q : Query β) (wall : ℕ → ℕ) (coin : ℕ) (hq : ∀ n, q ≠ .forget n) :
    OpsRecorded d names (s.afterQuery d q ((s.device d).answer wall coin q).2) := by
  intro n hn hk
  have hold := h n hn hk
  rw [afterQuery_device]
  cases q with
  | record reason ns => exact Finset.mem_union_left _ hold
  | forget n' => exact absurd rfl (hq n')
  | _ => exact hold

/-- What `applySnapshot` adds to the names seen is no object of operations. -/
theorem brings_applySnapshot (hi : Careful.Inv V A s) {seen : Finset ObjectName} (hseen : OpsRecorded d seen s) :
    Brings V A d (fun r s => Careful.Inv V A s ∧ OpsRecorded d r.2 s) (applySnapshot (V.session d) seen) s := by
  unfold applySnapshot
  refine Brings.call hi (fun s₁ ns hr₁ hi₁ hlist hi₁' => ?_)
  have hseen₁ := (hseen.rely hr₁).call (.list (V.session d).vault .snapshot)
  cases hlast : List.getLast? ns with
  | none => exact Brings.pure hi₁' (fun s' hr hi' => ⟨hi', hseen₁.rely hr⟩)
  | some newest =>
    have hkind := (stored_of_list (d := d) hi₁.1 hlist newest (List.mem_of_getLast? hlast)).1
    show Brings V A d _ (if newest ∈ seen then _ else _) _
    split_ifs with hmem
    · exact Brings.pure hi₁' (fun s' hr hi' => ⟨hi', hseen₁.rely hr⟩)
    refine Brings.call hi₁' (fun s₂ env hr₂ hi₂ hget hi₂' => ?_)
    obtain ⟨a, value, hobj⟩ := (hi₂.1.made newest env (stored_of_get (d := d) hi₂.1 hget)).snapshot_of_kind hkind
    have hopen : openSnapshot env = (Pure.pure value : Sync β _) := by
      unfold openSnapshot
      rw [hobj.payload]
    rw [hopen]
    have hseen₂ := (hseen₁.rely hr₂).call (.get newest)
    show Brings V A d _ (if env.header.v ≠ (V.session d).vault then _ else _) _
    split_ifs with hv
    · exact Brings.pure hi₂' (fun s' hr hi' => ⟨hi', hseen₂.rely hr⟩)
    refine Brings.query hi₂' (fun s₃ w₃ c₃ _ hr₃ _ _ hi₃' => ?_)
    have hseen₃ := (hseen₂.rely hr₃).query (.observeStamps [value.watermark]) w₃ c₃ nofun
    refine Brings.query hi₃' (fun s₄ w₄ c₄ _ hr₄ _ _ hi₄' => ?_)
    have hseen₄ := (hseen₃.rely hr₄).query (.merge value.operations) w₄ c₄ nofun
    refine Brings.query hi₄' (fun s₅ w₅ c₅ _ hr₅ _ _ hi₅' => ?_)
    have hseen₅ := (hseen₄.rely hr₅).query (.record .snapshot [newest]) w₅ c₅ nofun
    refine Brings.query hi₅' (fun s₆ w₆ c₆ _ hr₆ _ _ hi₆' => ?_)
    have hseen₆ := (hseen₅.rely hr₆).query (.setLastSnapshot value.watermark) w₆ c₆ nofun
    refine Brings.pure hi₆' (fun s' hr hi' => ⟨hi', fun n hn hk => ?_⟩)
    rcases Finset.mem_insert.mp hn with rfl | hn
    · exact absurd (hk.symm.trans hkind) (by decide)
    · exact hseen₆.rely hr n hn hk

theorem brings_download (hi : Careful.Inv V A s) {names : Finset ObjectName} (hnames : OpsRecorded d names s)
    {acc : Download β} {name : ObjectName} (hname : name.kind = .ops) :
    Brings V A d (fun acc' s => Careful.Inv V A s ∧ OpsRecorded d names s ∧ acc'.applied = acc.applied ++ [name])
      (download (V.session d) acc name) s := by
  unfold download
  refine Brings.call hi (fun s₁ env hr₁ hi₁ hget hi₁' => ?_)
  obtain ⟨a, ops, hobj⟩ := (hi₁.1.made name env (stored_of_get (d := d) hi₁.1 hget)).ops_of_kind hname
  have hnames₁ := (hnames.rely hr₁).call (.get name)
  have hopen : openBatch env = (Pure.pure ⟨V.vaultId, V.deviceId a, name.stamp, ops⟩ : Sync β _) := by
    unfold openBatch
    rw [hobj.payload]
  have hvault : env.header.v = (V.session d).vault := by
    rw [hobj.header]
    rfl
  rw [hopen]
  show Brings V A d _ (if env.header.v ≠ (V.session d).vault then _ else _) _
  rw [if_neg (not_not_intro hvault)]
  split_ifs
  · exact Brings.pure hi₁' (fun s' hr hi' => ⟨hi', hnames₁.rely hr, rfl⟩)
  · exact Brings.pure hi₁' (fun s' hr hi' => ⟨hi', hnames₁.rely hr, rfl⟩)

/-- Downloading one object after the other; the induction is on the names still to come. -/
theorem brings_downloads {names : Finset ObjectName} : ∀ (fresh : List ObjectName) (acc : Download β)
    {s : Store D β (ObjectMap β)}, Careful.Inv V A s → OpsRecorded d names s → (∀ n ∈ fresh, n.kind = .ops) →
    Brings V A d (fun acc' s => Careful.Inv V A s ∧ OpsRecorded d names s ∧ acc'.applied = acc.applied ++ fresh)
      (fresh.foldlM (download (V.session d)) acc) s
  | [], acc, s, hi, hnames, _ => Brings.pure hi (fun s' hr hi' => ⟨hi', hnames.rely hr, (List.append_nil _).symm⟩)
  | n :: ns, acc, s, hi, hnames, hkind => by
    rw [List.foldlM_cons]
    refine Brings.bind (brings_download hi hnames (hkind n List.mem_cons_self)) ?_
    rintro acc' s' ⟨hi', hnames', happ⟩
    have hrest := brings_downloads ns acc' hi' hnames' (fun m hm => hkind m (List.mem_cons_of_mem _ hm))
    rw [happ, List.append_assoc] at hrest
    exact hrest

/-- Everything that was to be downloaded is recorded. -/
theorem brings_pullFresh (hi : Careful.Inv V A s) {fresh : List ObjectName} (hfresh : ∀ n ∈ fresh, n.kind = .ops)
    {names : Finset ObjectName} (hnames : OpsRecorded d names s) :
    Brings V A d (fun _ s => Careful.Inv V A s ∧ OpsRecorded d names s ∧ OpsRecorded d fresh.toFinset s)
      (pullFresh (V.session d) fresh) s := by
  unfold pullFresh
  split_ifs with hf
  · refine Brings.pure hi (fun s' hr hi' => ⟨hi', hnames.rely hr, fun n hn => ?_⟩)
    rw [hf] at hn
    exact absurd hn (Finset.notMem_empty n)
  refine Brings.bind (brings_downloads fresh ⟨[], [], []⟩ hi hnames hfresh) ?_
  rintro got s₁ ⟨hi₁, hnames₁, hgot⟩
  refine Brings.query hi₁ (fun s₂ w₂ c₂ _ hr₂ _ _ hi₂' => ?_)
  have hnames₂ := (hnames₁.rely hr₂).query (.observeStamps got.heads) w₂ c₂ nofun
  refine Brings.query hi₂' (fun s₃ w₃ c₃ count hr₃ _ _ hi₃' => ?_)
  have hnames₃ := (hnames₂.rely hr₃).query (.merge got.ops) w₃ c₃ nofun
  refine Brings.query hi₃' (fun s₄ w₄ c₄ _ hr₄ _ _ hi₄' => ?_)
  have hnames₄ := (hnames₃.rely hr₄).query (.record .applied got.applied) w₄ c₄ nofun
  have hrecorded : OpsRecorded d fresh.toFinset (s₄.afterQuery d (.record .applied got.applied)
      ((s₄.device d).answer w₄ c₄ (.record .applied got.applied)).2) := by
    intro n hn _
    rw [afterQuery_device]
    refine Finset.mem_union_right _ ?_
    rw [hgot]
    exact hn
  exact Brings.pure hi₄' (fun s' hr hi' => ⟨hi', hnames₄.rely hr, hrecorded.rely hr⟩)

/-- Everything that was listed is recorded once the pull is over. -/
theorem brings_listed (hi : Careful.Inv V A s) {watermark : Option Stamp} {seen : Finset ObjectName}
    (hseen : OpsRecorded d seen s) {remote : List ObjectName} (hremote : ∀ n ∈ remote, n.kind = .ops) :
    Brings V A d (fun _ s => Careful.Inv V A s ∧ OpsRecorded d remote.toFinset s)
      (do
        let unseen := remote.filter (· ∉ seen)
        let covered := unseen.filter (skipped watermark)
        let fresh := unseen.filter (fun name => !skipped watermark name)
        if covered ≠ [] then Sync.record .covered covered
        pullFresh (V.session d) fresh) s := by
  extract_lets unseen covered fresh
  have hfresh : ∀ n ∈ fresh, n.kind = .ops := fun n hn =>
    hremote n (List.mem_of_mem_filter (List.mem_of_mem_filter hn))
  -- a name that was listed is seen already, covered, or to be downloaded
  have hsplit : ∀ n ∈ remote, n ∈ seen ∨ n ∈ covered ∨ n ∈ fresh := by
    intro n hn
    by_cases hmem : n ∈ seen
    · exact Or.inl hmem
    have hun : n ∈ unseen := List.mem_filter.mpr ⟨hn, decide_eq_true hmem⟩
    cases hsk : skipped watermark n with
    | true => exact Or.inr (Or.inl (List.mem_filter.mpr ⟨hun, hsk⟩))
    | false => exact Or.inr (Or.inr (List.mem_filter.mpr ⟨hun, by rw [hsk]; rfl⟩))
  have hend : ∀ {s'}, Careful.Inv V A s' → OpsRecorded d seen s' → OpsRecorded d covered.toFinset s' →
      Brings V A d (fun _ s => Careful.Inv V A s ∧ OpsRecorded d remote.toFinset s) (pullFresh (V.session d) fresh) s' := by
    intro s' hi' hs hc
    have hboth : OpsRecorded d (seen ∪ covered.toFinset) s' := fun n hn hk =>
      (Finset.mem_union.mp hn).elim (fun hn => hs n hn hk) (fun hn => hc n hn hk)
    refine (brings_pullFresh hi' hfresh hboth).mono ?_
    rintro _ s'' ⟨hi'', hnames, hf⟩
    refine ⟨hi'', fun n hn hk => ?_⟩
    rcases hsplit n (List.mem_toFinset.mp hn) with hn | hn | hn
    · exact hnames n (Finset.mem_union_left _ hn) hk
    · exact hnames n (Finset.mem_union_right _ (List.mem_toFinset.mpr hn)) hk
    · exact hf n (List.mem_toFinset.mpr hn) hk
  split_ifs with hc
  · refine Brings.query hi (fun s₁ w c _ hr₁ _ _ hi₁' => ?_)
    refine hend hi₁' ((hseen.rely hr₁).query (.record .covered covered) w c nofun) (fun n hn _ => ?_)
    rw [afterQuery_device]
    exact Finset.mem_union_right _ hn
  · refine hend hi hseen (fun n hn _ => ?_)
    rw [not_not.mp hc] at hn
    exact absurd hn (Finset.notMem_empty n)

/-- A device knows all of `A`. -/
def CaughtUp (A : Set (Operation β)) (d : D) (s : Store D β (ObjectMap β)) : Prop :=
  ∀ x ∈ A, (s.device d).ledger.Dominates x.target x.hlc

omit [DecidableEq D] in
theorem CaughtUp.lasting {s s' : Store D β (ObjectMap β)} (h : CaughtUp A d s) (hl : Lasting d s s') : CaughtUp A d s' :=
  fun x hx => hl.dominates _ _ (h x hx)

theorem brings_pullOps (hi : Careful.Inv V A s) {watermark : Option Stamp} {seen : Finset ObjectName}
    (hseen : OpsRecorded d seen s) :
    Brings V A d (fun _ s => CaughtUp A d s) (pullOps (V.session d) watermark seen) s := by
  unfold pullOps
  refine Brings.call hi (fun s₁ remote hr₁ hi₁ hlist hi₁' => ?_)
  cases hlist
  have hkind : ∀ n ∈ s₁.dest.list V.vaultId .ops, n.kind = .ops := fun n hn => (ObjectMap.mem_list.mp hn).2.2
  refine (brings_listed hi₁' ((hseen.rely hr₁).call _) hkind).since.mono ?_
  rintro _ s' ⟨⟨hi', hnames⟩, hl⟩ x hx
  rcases hi₁.2.available x (hi₁.2.stored x hx) d with hdom | ⟨p, hp, hpk, y, hy, ht, hle⟩
  · exact hl.dominates _ _ hdom
  · have hstored := hi₁.1.held hp
    have hmem : p.1 ∈ s₁.dest.list V.vaultId .ops := ObjectMap.mem_list.mpr ⟨⟨p.2, hp⟩, (hi₁.1.made p.1 p.2 hstored).vault.1, hpk⟩
    have hdom := hi'.2.recorded d p.1 (hnames p.1 (List.mem_toFinset.mpr hmem) hpk) hpk p.2 (hl.stored _ (Or.inl hstored)) y hy
    rw [ht] at hdom
    exact hdom.of_le hle

theorem brings_pull (hi : Careful.Inv V A s) : Brings V A d (fun _ s => CaughtUp A d s) (pull (V.session d)) s := by
  unfold pull
  refine Brings.query hi (fun s₁ w c seen hr₁ _ hseen hi₁' => ?_)
  cases hseen
  have hrecorded : OpsRecorded d (s₁.device d).remoteObjects (s₁.afterQuery d .remoteNames
      ((s₁.device d).answer w c .remoteNames).2) := by
    intro n hn _
    rw [afterQuery_device]
    exact hn
  refine Brings.bind (brings_applySnapshot hi₁' hrecorded) ?_
  rintro ⟨watermark, seen'⟩ s₂ ⟨hi₂, hseen'⟩
  exact brings_pullOps hi₂ hseen'

/-- A cycle that ends without error has brought everything that had been stored when it began. -/
theorem brings_runCycle (hi : Careful.Inv V A s) :
    Brings V A d (fun _ s => CaughtUp A d s) (runCycle (V.session d)) s := by
  unfold runCycle
  refine Brings.bind (brings_pull hi) (fun _ s₁ hc => ?_)
  have hrest : Brings V A d (fun _ _ => True)
      (push (V.session d) >>= fun _ => maybeSnapshot (V.session d) >>= fun _ => Sync.flush) s₁ :=
    Protocol.wp_trivial _ s₁
  exact hrest.since.mono (fun _ _ h => hc.lasting h.2)

end Cycle

/-! ## Further cycles -/

section Further

variable {A : Set (Operation β)} {c₀ c c' : State D β (ObjectMap β)}
  {okEnv : Store D β (ObjectMap β) → Store D β (ObjectMap β) → Prop}

/-- A cycle that began after `c₀` leaves its device with all of `A`. -/
def Caught (A : Set (Operation β)) (c₀ : State D β (ObjectMap β)) (d : D) (_ : Unit) (s : Store D β (ObjectMap β)) : Prop :=
  c₀.store.ghost.started d < s.ghost.started d → CaughtUp A d s

theorem caughtRuns (V : Vault D) (A : Set (Operation β)) (c₀ : State D β (ObjectMap β)) :
    Threads.Sound ((world V (mapSite D β)).restrict Careful okEnv) (Careful.Inv V A)
      (fun d => (protocol V d (mapSite D β)).within (Careful.Inv V A)) (Caught A c₀) := by
  refine (deliveringRuns V A okEnv).within (fun d s hi => ?_)
  have hasks := Protocol.wp_within (I := Careful.Inv V A) (keeps_runCycle (d := d) hi.1)
  exact Protocol.wp_mono (Protocol.wp_asked hasks (brings_runCycle hi)) (fun _ _ h _ => h) (fun _ _ h => h)

theorem started_served {s s' : Store D β (ObjectMap β)} {q : Request β} {r : Except SyncError q.Reply}
    (h : Served (mapSite D β) d q s r s') : s'.ghost.started = s.ghost.started := by
  rcases h with ⟨wall, coin, h⟩ | h
  · cases q with
    | call c =>
      obtain ⟨-, rfl⟩ := Prod.mk.inj h
      rfl
    | query q =>
      obtain ⟨-, rfl⟩ := Prod.mk.inj h
      rfl
  · cases h
    rfl

/-- Of a cycle that is under way already, nothing is asked. -/
theorem kept_caught (hkept : Threads.Kept (fun s => Sound V (mapSite D β) s ∧ Delivering V ∅ s)
    (fun d => protocol V d (mapSite D β)) (fun _ _ _ => True) c₀) (hA : ∀ x ∈ A, Stored c₀.store x) :
    Threads.Kept (Careful.Inv V A) (fun d => (protocol V d (mapSite D β)).within (Careful.Inv V A)) (Caught A c₀) c₀ := by
  obtain ⟨⟨hs, hdel⟩, hrunning⟩ := hkept
  refine ⟨⟨hs, hdel.recorded, hdel.available, hdel.sent, hA⟩, fun d p hp => ?_⟩
  have hrun : ((protocol V d (mapSite D β)).within (Careful.Inv V A)).wp (fun _ _ => True) (fun _ _ => True) p c₀.store :=
    Protocol.wp_within (hrunning d p hp)
  have hsince := Protocol.wp_since (P := (protocol V d (mapSite D β)).within (Careful.Inv V A))
    (R := fun s s' => s'.ghost.started d = s.ghost.started d) (fun _ => rfl) (fun h h' => Eq.trans h' h)
    (fun hr => hr.1.1.started) (fun hstep => congrFun (started_served hstep.1.2.1) d) hrun
  exact Protocol.wp_mono hsince (fun _ s h hlt => absurd h.2 hlt.ne') (fun _ _ _ => trivial)

/-- How far a device has come since `c₀`. -/
structure Progress (A : Set (Operation β)) (c₀ c : State D β (ObjectMap β)) (d : D) : Prop where
  started : c₀.store.ghost.started d ≤ c.store.ghost.started d
  reached : CaughtUp A d c.store ∨ c.store.ghost.finished d ≤ c₀.store.ghost.finished d ∨
    c.store.ghost.finished d ≤ c₀.store.ghost.finished d + 1 ∧
      (c.running d ≠ none → c₀.store.ghost.started d < c.store.ghost.started d)

omit [DecidableEq D] in
/-- A step that counts nothing and begins no program. -/
theorem Progress.of_eq (h : Progress A c₀ c d) (hg : Grown c.store c'.store)
    (hst : c'.store.ghost.started d = c.store.ghost.started d)
    (hfin : c'.store.ghost.finished d = c.store.ghost.finished d) (hrun : c'.running d ≠ none → c.running d ≠ none) :
    Progress A c₀ c' d := by
  refine ⟨h.started.trans hst.ge, ?_⟩
  rw [hfin, hst]
  rcases h.reached with hc | hc | ⟨hle, hlt⟩
  · exact Or.inl (fun x hx => hg.dominates d _ _ (hc x hx))
  · exact Or.inr (Or.inl hc)
  · exact Or.inr (Or.inr ⟨hle, fun hr => hlt (hrun hr)⟩)

theorem ne_none_of_update {α : Type} {f : D → Option α} {d' : D} {o : Option α} (h : Function.update f d' o d ≠ none)
    (hself : d = d' → o ≠ none → f d ≠ none) : f d ≠ none := by
  by_cases hdd : d = d'
  · refine hself hdd ?_
    rwa [hdd, Function.update_self] at h
  · rwa [Function.update_of_ne hdd] at h

theorem finished_served {s s' : Store D β (ObjectMap β)} {q : Request β} {r : Except SyncError q.Reply}
    (h : Served (mapSite D β) d q s r s') : s'.ghost.finished = s.ghost.finished := by
  rcases h with ⟨wall, coin, h⟩ | h
  · cases q with
    | call c =>
      obtain ⟨-, rfl⟩ := Prod.mk.inj h
      rfl
    | query q =>
      obtain ⟨-, rfl⟩ := Prod.mk.inj h
      rfl
  · cases h
    rfl

/-- The step lemma. -/
theorem progress_step (hc : Threads.Kept (Careful.Inv V A) (fun d => (protocol V d (mapSite D β)).within (Careful.Inv V A))
    (Caught A c₀) c) (hg : Grown c.store c'.store) (h : ∀ d, Progress A c₀ c d)
    (hstep : ((world V (mapSite D β)).restrict Careful okEnv).Step c c') (d : D) : Progress A c₀ c' d := by
  have hd := h d
  cases hstep with
  | enter d' hidle =>
    by_cases hdd : d = d'
    · subst hdd
      have hstarted : (c.store.ghost.begun d).started d = c.store.ghost.started d + 1 := Function.update_self ..
      have hlt : c₀.store.ghost.started d < (c.store.ghost.begun d).started d := by
        rw [hstarted]
        exact Nat.lt_succ_of_le hd.started
      refine ⟨hlt.le, ?_⟩
      rcases hd.reached with hc | hc | ⟨hle, -⟩
      · exact Or.inl (fun x hx => hg.dominates d _ _ (hc x hx))
      · exact Or.inr (Or.inl hc)
      · exact Or.inr (Or.inr ⟨hle, fun _ => hlt⟩)
    · exact hd.of_eq hg (Function.update_of_ne hdd _ _) rfl
        (fun hr => ne_none_of_update hr (fun heq => absurd heq hdd))
  | ask d' q k r s hrun hserved =>
    refine hd.of_eq hg (congrFun (started_served hserved.1) d) (congrFun (finished_served hserved.1) d)
      (fun hr => ne_none_of_update hr (fun heq _ => ?_))
    rw [heq, hrun]
    exact Option.some_ne_none _
  | done d' a hrun =>
    by_cases hdd : d = d'
    · subst hdd
      have hfinished : (c.store.ghost.ended d).finished d = c.store.ghost.finished d + 1 := Function.update_self ..
      refine ⟨hd.started, ?_⟩
      rcases hd.reached with hcaught | hle | ⟨hle, hlt⟩
      · exact Or.inl (fun x hx => hg.dominates d _ _ (hcaught x hx))
      · refine Or.inr (Or.inr ⟨?_, fun hr => absurd (Function.update_self ..) hr⟩)
        show (c.store.ghost.ended d).finished d ≤ _
        omega
      · -- the cycle began after `c₀`
        have hbegan := hlt (by rw [hrun]; exact Option.some_ne_none _)
        have hpost := hc.2 d _ hrun c.store (Protocol.rely_refl _ _)
        exact Or.inl (fun x hx => hg.dominates d _ _ (hpost hbegan x hx))
    · exact hd.of_eq hg rfl (Function.update_of_ne hdd _ _)
        (fun hr => ne_none_of_update hr (fun heq => absurd heq hdd))
  | failed d' e hrun =>
    refine hd.of_eq hg rfl rfl (fun hr => ne_none_of_update hr (fun heq _ => ?_))
    rw [heq, hrun]
    exact Option.some_ne_none _
  | env s henv =>
    obtain ⟨d', L, op, he, rfl⟩ := henv.1.edited
    exact hd.of_eq hg rfl rfl (fun hr => hr)
  | crash d' => exact hd.of_eq hg rfl rfl (fun hr => ne_none_of_update hr (fun _ hnone => absurd rfl hnone))

theorem kept_of_careful (h : ((world V (mapSite D β)).restrict Careful okEnv).Reach (start Table.empty) c) :
    Threads.Kept (fun s => Sound V (mapSite D β) s ∧ Delivering V ∅ s) (fun d => protocol V d (mapSite D β))
      (fun _ _ _ => True) c :=
  (deliveringRuns V ∅ okEnv).reach (Threads.kept_of_idle ⟨sound_initial mapSite_empty, delivering_initial⟩ (fun _ => rfl)) h

/-- The run lemma. -/
theorem progress_reach (h₀ : ((world V (mapSite D β)).restrict Careful (fun _ _ => True)).Reach (start Table.empty) c₀)
    (h : ((world V (mapSite D β)).restrict Careful okEnv).Reach c₀ c) (hA : ∀ x ∈ A, Stored c₀.store x) :
    ∀ d, Progress A c₀ c d := by
  have hkept := kept_caught (kept_of_careful h₀) hA
  induction h with
  | refl => exact fun d => ⟨le_refl _, Or.inr (Or.inl (le_refl _))⟩
  | tail hreach hstep ih =>
    have hc := kept_of_reach mapSite_empty (h₀.of_restrict.trans (Threads.Reach.of_restrict hreach))
    exact progress_step ((caughtRuns V A c₀).reach hkept hreach) (grown_step hc hstep.of_restrict) ih hstep

theorem caughtUp_of_reach
    (h₀ : ((world V (mapSite D β)).restrict Careful (fun _ _ => True)).Reach (start Table.empty) c₀)
    (h : ((world V (mapSite D β)).restrict Careful okEnv).Reach c₀ c) (hA : ∀ x ∈ A, Stored c₀.store x)
    (hcycles : c₀.store.ghost.finished d + 2 ≤ c.store.ghost.finished d) : CaughtUp A d c.store := by
  rcases (progress_reach h₀ h hA d).reached with hc | hle | ⟨hle, -⟩
  · exact hc
  · omega
  · omega

/-- In every careful run: a device that has completed two more cycles knows every operation that was no longer in the
queue of its author when it began them, whatever has been edited, synced, pruned and restarted meanwhile. -/
theorem delivered (h₀ : ((world V (mapSite D β)).restrict Careful (fun _ _ => True)).Reach (start Table.empty) c₀)
    (h : ((world V (mapSite D β)).restrict Careful (fun _ _ => True)).Reach c₀ c) {x : Operation β}
    (hx : x ∈ c₀.store.ghost.authored) (hsent : ∀ d', ∀ o ∈ (c₀.store.device d').ledger.unsynced, o.toOperation ≠ x)
    (hcycles : c₀.store.ghost.finished d + 2 ≤ c.store.ghost.finished d) :
    (c.store.device d).ledger.Dominates x.target x.hlc := by
  obtain ⟨hs, hdel⟩ := (kept_of_careful h₀).1
  obtain ⟨a, ha, -⟩ := hs.writes.author x hx
  have hstored : Stored c₀.store x := by
    rcases pending_or_stored hs hdel.sent hx ha with ⟨o, ho, heq⟩ | hst
    · exact absurd heq (hsent a o ho)
    · exact hst
  exact caughtUp_of_reach (A := {x}) h₀ h (fun y hy => Set.mem_singleton_iff.mp hy ▸ hstored) hcycles x
    (Set.mem_singleton x)

end Further

/-- Whether a request skips and removes nothing. -/
def carefully (_ : D) (q : Request β) (_ _ : Store D β (ObjectMap β)) : Bool :=
  match q with
  | .query (.record .covered _) => false
  | .call (.remove _) => false
  | _ => true

omit [DecidableEq D] in
theorem carefully_spec (d : D) (q : Request β) (s s' : Store D β (ObjectMap β)) (h : carefully d q s s' = true) :
    Careful d q s s' := by
  refine ⟨?_, ?_⟩
  · rintro names rfl
    exact absurd h Bool.false_ne_true
  · rintro n rfl
    exact absurd h Bool.false_ne_true

/-- Device `a` has pushed an edit, and device `b` one of its own. -/
def pushedTwo : TrioState :=
  trioPlay trioStart [.put .a 5 .accounts (js "x") (), .put .b 3 .accounts (js "x") (), .begin .a, .finish .a 6, .begin .b,
    .finish .b 4]

/-- Each device has gone through two more cycles. -/
def exchangedTwo : TrioState :=
  trioPlay pushedTwo [.begin .a, .finish .a 7, .begin .b, .finish .b 7, .begin .c, .finish .c 7, .begin .c, .finish .c 8,
    .begin .b, .finish .b 8, .begin .a, .finish .a 8]

theorem delivered_exchangedTwo : ∃ x ∈ pushedTwo.store.ghost.authored,
    (exchangedTwo.store.device .c).ledger.Dominates x.target x.hlc := by
  have h₀ : (trioWorld.restrict Careful (fun _ _ => True)).Reach (start Table.empty) pushedTwo :=
    reach_meetsMoves carefully_spec (E := fun _ => true) (fun _ _ _ _ => trivial) _ _ (by decide +kernel)
  have h : (trioWorld.restrict Careful (fun _ _ => True)).Reach pushedTwo exchangedTwo :=
    reach_meetsMoves carefully_spec (E := fun _ => true) (fun _ _ _ _ => trivial) _ _ (by decide +kernel)
  have hlogged : ∃ o ∈ (pushedTwo.store.device .b).ledger.oplog.rows, o.synced = true := by decide +kernel
  obtain ⟨o, ho, -⟩ := hlogged
  obtain ⟨x, hx, -⟩ := ((kept_of_reach mapSite_empty h₀.of_restrict).1.devices .b).logged o ho
  have hquiet : ∀ d, (pushedTwo.store.device d).ledger.unsynced = [] := by
    intro d
    cases d <;> decide +kernel
  refine ⟨x, hx, delivered h₀ h hx (fun d' o ho => ?_) (by decide +kernel)⟩
  rw [hquiet d'] at ho
  exact absurd ho List.not_mem_nil

end EasyDocket
